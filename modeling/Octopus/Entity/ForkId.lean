import Mathlib.Data.List.Destutter
import Octopus.Entity.Basic

/-!
# Fork identifiers

A node announces the checksum of its genesis hash and of the forks it has passed, with the
next fork.  The loop of the filter stops at the first fork that the head has not reached,
so what is left is one comparison with the checksums of the prefixes of the fork list.
-/

namespace Octopus.ForkId

open List

def crcBit (crc : BitVec 32) : BitVec 32 :=
  if crc.getLsbD 0 then crc >>> 1 ^^^ 0xedb88320 else crc >>> 1

/-- `crc32.Update` with the IEEE table, whose entries are eight steps of `crcBit`. -/
def crcUpdate (crc : BitVec 32) (blob : Bytes) : BitVec 32 :=
  ~~~ blob.foldl (fun crc byte => crcBit^[8] (crc ^^^ byte.setWidth 32)) (~~~ crc)

def checksumUpdate (hash : BitVec 32) (fork : Nat) : BitVec 32 :=
  crcUpdate hash (bigEndian (BitVec.ofNat 64 fork) 8)

/-- One round of the sorting loop: `first` is swapped with every later fork that is smaller. -/
def exchange (first : Nat) : List Nat → Nat × List Nat
  | [] => (first, [])
  | fork :: rest =>
    if first > fork then ((exchange fork rest).1, first :: (exchange fork rest).2)
    else ((exchange first rest).1, fork :: (exchange first rest).2)

def sortForks : Nat → List Nat → List Nat
  | rounds + 1, fork :: rest => (exchange fork rest).1 :: sortForks rounds (exchange fork rest).2
  | _, forks => forks

/-- The fork numbers of a configuration, whose `…Block` fields are `rules` in their order. -/
def gatherForks (rules : List (Option Nat)) : List Nat :=
  let forks := rules.filterMap fun rule => rule.map (· % uint64Size)
  let forks := (sortForks forks.length forks).destutter (· ≠ ·)
  if forks.head? = some 0 then forks.tail else forks

structure ID where
  hash : BitVec 32
  next : Nat
  deriving DecidableEq

def newIDLoop (head : Nat) (hash : BitVec 32) : List Nat → ID
  | [] => ⟨hash, 0⟩
  | fork :: rest =>
    if fork ≤ head then newIDLoop head (checksumUpdate hash fork) rest else ⟨hash, fork⟩

def newID (rules : List (Option Nat)) (genesis : Bytes) (head : Nat) : ID :=
  newIDLoop head (crcUpdate 0 genesis) (gatherForks rules)

inductive FilterError
  | remoteStale
  | localIncompatibleOrStale
  deriving DecidableEq

/-- The body of the filter at the first fork, of index `i`, that the head has not passed. -/
def checkSums (sums : List (BitVec 32)) (forks : List Nat) (head : Nat) (id : ID) (i : Nat) :
    Option FilterError :=
  if sums[i]? = some id.hash then
    if id.next > 0 ∧ head ≥ id.next then some .localIncompatibleOrStale else none
  else match (List.range i).find? fun j => sums[j]? = some id.hash with
    | some j => if forks[j]? ≠ some id.next then some .remoteStale else none
    | none => if id.hash ∈ sums.drop (i + 1) then none else some .localIncompatibleOrStale

def filterLoop (sums : List (BitVec 32)) (forks : List Nat) (head : Nat) (id : ID) :
    Nat → List Nat → Option FilterError
  | _, [] => none
  | i, fork :: rest =>
    if head ≥ fork then filterLoop sums forks head id (i + 1) rest
    else checkSums sums forks head id i

def prefixSums (forks : List Nat) (genesis : Bytes) : List (BitVec 32) :=
  forks.scanl checksumUpdate (crcUpdate 0 genesis)

def newFilter (rules : List (Option Nat)) (genesis : Bytes) (head : Nat) (id : ID) :
    Option FilterError :=
  let forks := gatherForks rules ++ [uint64Size - 1]
  filterLoop (prefixSums (gatherForks rules) genesis) forks head id 0 forks

theorem exchange_perm (forks : List Nat) :
    ∀ first, ((exchange first forks).1 :: (exchange first forks).2).Perm (first :: forks) := by
  induction forks with
  | nil => exact fun first => .refl _
  | cons fork rest ih =>
    intro first
    rw [exchange]
    split
    · exact (List.Perm.swap ..).trans ((ih fork).cons first)
    · exact (List.Perm.swap ..).trans (((ih first).cons fork).trans (.swap ..))

theorem exchange_le (forks : List Nat) :
    ∀ first, ∀ fork ∈ first :: forks, (exchange first forks).1 ≤ fork := by
  induction forks with
  | nil => simp [exchange]
  | cons fork rest ih =>
    intro first
    have kept := ih first
    have swapped := ih fork
    rw [forall_mem_cons] at kept swapped ⊢
    rw [exchange]
    split <;> grind

theorem sortForks_spec (rounds : Nat) : ∀ forks : List Nat, forks.length ≤ rounds →
    (sortForks rounds forks).Perm forks ∧ (sortForks rounds forks).Pairwise (· ≤ ·) := by
  induction rounds with
  | zero =>
    intro forks short
    cases eq_nil_of_length_eq_zero (Nat.le_zero.mp short)
    exact ⟨.refl _, .nil⟩
  | succ rounds ih =>
    intro forks short
    cases forks with
    | nil => exact ⟨.refl _, .nil⟩
    | cons fork rest =>
      have perm := exchange_perm rest fork
      have length := perm.length_eq
      simp only [length_cons] at length short
      rcases ih (exchange fork rest).2 (by omega) with ⟨same, sorted⟩
      refine ⟨(same.cons _).trans perm, pairwise_cons.mpr ⟨?_, sorted⟩⟩
      intro later mem
      exact exchange_le rest fork later (perm.subset (.tail _ (same.subset mem)))

theorem gatherForks_sorted (rules : List (Option Nat)) : (gatherForks rules).Pairwise (· ≤ ·) := by
  have sorted := fun forks : List Nat => (sortForks_spec _ forks le_rfl).2.sublist
    (destutter_sublist (· ≠ ·) _)
  unfold gatherForks
  dsimp only
  split
  · exact (sorted _).tail
  · exact sorted _

section Prefixes

variable (forks : List Nat) (genesis : Bytes) (head : Nat)

/-- The checksum of the genesis hash and of the first `count` forks. -/
def prefixSum (count : Nat) : BitVec 32 :=
  (forks.take count).foldl checksumUpdate (crcUpdate 0 genesis)

/-- The number of forks the head has passed. -/
def passed : Nat :=
  (forks.filter (· ≤ head)).length

theorem passed_le : passed forks head ≤ forks.length :=
  length_filter_le ..

def DistinctSums : Prop :=
  ∀ i ≤ forks.length, ∀ j ≤ forks.length,
    prefixSum forks genesis i = prefixSum forks genesis j → i = j

/-- The checksum is of no prefix, or of a shorter prefix that another fork follows, or it is the
current one and a fork is announced that the head has passed. -/
def Incompatible (id : ID) : Prop :=
  (∀ count ≤ forks.length, id.hash ≠ prefixSum forks genesis count) ∨
    (∃ count < passed forks head,
      id.hash = prefixSum forks genesis count ∧ forks[count]? ≠ some id.next) ∨
    id.hash = prefixSum forks genesis (passed forks head) ∧ 0 < id.next ∧ id.next ≤ head

variable {forks}

theorem passed_split (sorted : forks.Pairwise (· ≤ ·)) :
    (∀ fork ∈ forks.take (passed forks head), fork ≤ head) ∧
      ∀ fork ∈ forks.drop (passed forks head), head < fork := by
  induction forks with
  | nil => simp
  | cons fork rest ih =>
    rcases pairwise_cons.mp sorted with ⟨below, sorted⟩
    by_cases reached : fork ≤ head
    · simpa [passed, reached] using ih sorted
    · have unreached : ∀ other ∈ rest, head < other := fun other mem =>
        (not_le.mp reached).trans_le (below other mem)
      have none_passed : rest.filter (· ≤ head) = [] := by simpa using unreached
      simpa [passed, reached, none_passed] using ⟨not_le.mp reached, unreached⟩

variable {head}

theorem newIDLoop_append {front back : List Nat} (reached : ∀ fork ∈ front, fork ≤ head)
    (unreached : ∀ fork ∈ back, head < fork) (hash : BitVec 32) :
    newIDLoop head hash (front ++ back) = ⟨front.foldl checksumUpdate hash, back.head?.getD 0⟩ := by
  induction front generalizing hash with
  | nil =>
    cases back with
    | nil => rfl
    | cons fork rest => simp [newIDLoop, unreached fork]
  | cons fork rest ih =>
    simp only [mem_cons, forall_eq_or_imp] at reached
    simp [newIDLoop, reached.1, ih reached.2]

theorem filterLoop_append (sums : List (BitVec 32)) (all : List Nat) (id : ID)
    {front : List Nat} (reached : ∀ fork ∈ front, fork ≤ head) (i : Nat) (back : List Nat) :
    filterLoop sums all head id i (front ++ back) =
      filterLoop sums all head id (i + front.length) back := by
  induction front generalizing i with
  | nil => rfl
  | cons fork rest ih =>
    simp only [mem_cons, forall_eq_or_imp] at reached
    simp [filterLoop, reached.1, ih reached.2, Nat.add_assoc, Nat.add_comm 1]

theorem filterLoop_cases (sorted : forks.Pairwise (· ≤ ·)) (sums : List (BitVec 32))
    (all : List Nat) (id : ID) (sentry : Nat) :
    filterLoop sums all head id 0 (forks ++ [sentry]) =
        checkSums sums all head id (passed forks head) ∨
      sentry ≤ head ∧ filterLoop sums all head id 0 (forks ++ [sentry]) = none := by
  have split := passed_split head sorted
  have skipped := filterLoop_append sums all id split.1 0
    (forks.drop (passed forks head) ++ [sentry])
  rw [← append_assoc, take_append_drop, length_take,
    Nat.min_eq_left (passed_le forks head), Nat.zero_add] at skipped
  rw [skipped]
  cases rest : forks.drop (passed forks head) with
  | nil =>
    by_cases beyond : sentry ≤ head
    · exact .inr ⟨beyond, by simp [filterLoop, beyond]⟩
    · exact .inl (by simp [filterLoop, beyond])
  | cons fork later =>
    have unreached := split.2 fork (by simp [rest])
    exact .inl (by simp [filterLoop, unreached])

variable {genesis}

theorem prefixSums_getElem? {count : Nat} {hash : BitVec 32} :
    (prefixSums forks genesis)[count]? = some hash ↔
      count ≤ forks.length ∧ hash = prefixSum forks genesis count := by
  simp [prefixSums, getElem?_scanl, prefixSum, eq_comm]

variable (distinct : DistinctSums forks genesis)
include distinct

theorem incompatible_iff {id : ID} {count : Nat}
    (known : (prefixSums forks genesis)[count]? = some id.hash) :
    Incompatible forks genesis head id ↔ count < passed forks head ∧ forks[count]? ≠ some id.next ∨
        count = passed forks head ∧ 0 < id.next ∧ id.next ≤ head := by
  rcases prefixSums_getElem?.mp known with ⟨inside, known⟩
  have bound := passed_le forks head
  constructor
  · rintro (unknown | ⟨other, shorter, same, differs⟩ | ⟨same, announced⟩)
    · exact absurd known (unknown count inside)
    · cases distinct count inside other (by omega) (known.symm.trans same)
      exact .inl ⟨shorter, differs⟩
    · exact .inr ⟨distinct count inside _ bound (known.symm.trans same), announced⟩
  · rintro (⟨shorter, differs⟩ | ⟨rfl, announced⟩)
    · exact .inr (.inl ⟨count, shorter, known, differs⟩)
    · exact .inr (.inr ⟨known, announced⟩)

theorem checkSums_iff (id : ID) (sentry : List Nat) :
    checkSums (prefixSums forks genesis) (forks ++ sentry) head id (passed forks head) ≠ none ↔
      Incompatible forks genesis head id := by
  have bound := passed_le forks head
  unfold checkSums
  split
  case isTrue current =>
    rw [incompatible_iff distinct current]
    simp
  case isFalse other =>
    cases search : (range (passed forks head)).find? fun j =>
        (prefixSums forks genesis)[j]? = some id.hash with
    | some j =>
      have known : (prefixSums forks genesis)[j]? = some id.hash := by simpa using find?_some search
      have shorter := mem_range.mp (mem_of_find?_eq_some search)
      rw [incompatible_iff distinct known]
      simp [getElem?_append_left (shorter.trans_le bound), shorter, shorter.ne]
    | none =>
      simp only [find?_eq_none, mem_range, decide_eq_true_eq] at search
      dsimp only
      split
      case isTrue mem =>
        rcases mem_iff_getElem?.mp mem with ⟨j, known⟩
        rw [getElem?_drop] at known
        rw [incompatible_iff distinct known]
        simp
        omega
      case isFalse absent =>
        refine ⟨fun _ => .inl fun count inside same => ?_, fun _ => by simp⟩
        have known := prefixSums_getElem?.mpr ⟨inside, same⟩
        rcases Nat.lt_trichotomy count (passed forks head) with shorter | rfl | longer
        · exact search count shorter known
        · exact other known
        · apply absent
          rw [mem_iff_getElem?]
          exact ⟨count - (passed forks head + 1), by
            rwa [getElem?_drop, Nat.add_sub_cancel' longer]⟩

end Prefixes

theorem newID_eq (rules : List (Option Nat)) (genesis : Bytes) (head : Nat) :
    newID rules genesis head =
      ⟨prefixSum (gatherForks rules) genesis (passed (gatherForks rules) head),
        (gatherForks rules)[passed (gatherForks rules) head]?.getD 0⟩ := by
  have split := passed_split head (gatherForks_sorted rules)
  have loop := newIDLoop_append split.1 split.2 (crcUpdate 0 genesis)
  rwa [take_append_drop, head?_drop] at loop

/-- Nodes of one configuration accept each other; in general an announcement is refused exactly
if it is `Incompatible`. -/
theorem newFilter_forks (rules : List (Option Nat)) (genesis : Bytes)
    (distinct : DistinctSums (gatherForks rules) genesis) :
    (∀ head remote, newFilter rules genesis head (newID rules genesis remote) = none) ∧
      ∀ head < uint64Size - 1, ∀ id, newFilter rules genesis head id ≠ none ↔
        Incompatible (gatherForks rules) genesis head id := by
  have sorted := gatherForks_sorted rules
  refine ⟨fun head remote => ?_, fun head below id => ?_⟩
  · rcases filterLoop_cases sorted _ _ _ _ with stopped | beyond
    · refine stopped.trans (Classical.not_not.mp fun refused => ?_)
      have grounds := (checkSums_iff distinct _ _).mp refused
      rw [newID_eq, incompatible_iff distinct
        (prefixSums_getElem?.mpr ⟨passed_le _ remote, rfl⟩)] at grounds
      rcases grounds with ⟨shorter, differs⟩ | ⟨same, announced, reached⟩
      · have inside := shorter.trans_le (passed_le _ head)
        simp [List.getElem?_eq_getElem inside] at differs
      · -- the fork after the passed ones lies above the head
        rw [same, ← List.head?_drop] at announced reached
        cases next : ((gatherForks rules).drop (passed (gatherForks rules) head)).head? with
        | none => simp [next] at announced
        | some fork =>
          have unreached := (passed_split head sorted).2 fork (List.mem_of_mem_head? next)
          rw [next] at reached
          exact absurd reached unreached.not_ge
    · exact beyond.2
  · rcases filterLoop_cases sorted _ _ _ _ with stopped | ⟨beyond, -⟩
    · exact (not_congr (Eq.congr_left stopped)).trans (checkSums_iff distinct id _)
    · omega

theorem distinctSums_two_forks :
    DistinctSums (gatherForks [some 9, none, some 5, some 0]) [0xd4, 0xe5] := by
  unfold DistinctSums
  decide +kernel

/-- Between two forks a node beyond both is taken, and not one that expects only the second. -/
theorem newFilter_two_forks :
    newFilter [some 9, none, some 5, some 0] [0xd4, 0xe5] 7
        (newID [some 9, none, some 5, some 0] [0xd4, 0xe5] 12) = none ∧
      newFilter [some 9, none, some 5, some 0] [0xd4, 0xe5] 7
        ⟨prefixSum [5, 9] [0xd4, 0xe5] 0, 9⟩ ≠ none := by
  have filter := newFilter_forks [some 9, none, some 5, some 0] _ distinctSums_two_forks
  refine ⟨filter.1 7 12, (filter.2 7 (by decide) _).mpr ?_⟩
  exact .inr (.inl ⟨0, by decide, rfl, by decide⟩)

end Octopus.ForkId
