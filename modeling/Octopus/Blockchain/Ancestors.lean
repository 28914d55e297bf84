import Octopus.Blockchain.Processor
import Octopus.Entity.Rawdb

/-!
# Hashes of earlier blocks, and ancestors

What the closure of `GetHashFn` has cached is always a beginning of the parent hashes from
the reference header down, so no answer depends on the queries made before.  `GetAncestor`
follows parent hashes until it meets the canonical index; if the index names the parent of
every header that it names, the jump into it ends at an ancestor.
-/

namespace Octopus

namespace GetHashFn

section

variable (getHeader : Hash → Nat → Option Header) (n : Nat)

/-- The loop of the closure, from the last known element on. -/
def walk : Nat → List Hash → Hash → Nat → Option (Hash × List Hash)
  | 0, _, _, _ => none
  | fuel + 1, cache, lastKnownHash, lastKnownNumber =>
    match getHeader lastKnownHash lastKnownNumber with
    | none => some (0, cache)
    | some header =>
      let cache := cache ++ [header.parentHash]
      let lastKnownNumber := sub64 header.numberU64 1
      if n = lastKnownNumber then some (header.parentHash, cache)
      else walk fuel cache header.parentHash lastKnownNumber

variable (fuel : Nat) (ref : Header)

def index : Nat :=
  sub64 (sub64 ref.numberU64 n) 1

/-- One query, with what the closure has cached before and after it. -/
def query (cache : List Hash) : Option (Hash × List Hash) :=
  let cache := if cache = [] then [ref.parentHash] else cache
  match cache[index n ref]? with
  | some hash => some (hash, cache)
  | none => walk getHeader n fuel cache (cache.getLastD 0) (sub64 ref.numberU64 cache.length)

def queries : List Hash → List Nat → Option (List Hash)
  | _, [] => some []
  | cache, n :: rest => do
    let (hash, cache) ← query getHeader n fuel ref cache
    let hashes ← queries cache rest
    return hash :: hashes

end

section

variable [Encoding] (ref : Header) (ancestor : Nat → Header)

/-- The stored ancestors of a reference header, by number, with the header itself
at the end. -/
structure Line (getHeader : Hash → Nat → Option Header) : Prop where
  last : ancestor ref.number = ref
  number : ∀ k ≤ ref.number, (ancestor k).number = k
  parent : ∀ k < ref.number, (ancestor (k + 1)).parentHash = (ancestor k).hash
  stored : ∀ k < ref.number, getHeader (ancestor k).hash k = some (ancestor k)

def answer (n : Nat) : Hash :=
  if n < ref.number then (ancestor n).hash
  else if n = uint64Size - 1 then (ancestor 0).parentHash
  else 0

def entry (k : Nat) : Hash :=
  (ancestor (ref.number - k)).parentHash

def entries (count : Nat) : List Hash :=
  (List.range count).map (entry ref ancestor)

omit [Encoding] in
theorem entries_succ (count : Nat) :
    entries ref ancestor (count + 1) =
      entries ref ancestor count ++ [entry ref ancestor count] := by
  simp [entries, List.range_succ]

def Cached (cache : List Hash) : Prop :=
  ∃ last ≤ ref.number, cache = entries ref ancestor (last + 1)

variable {ref ancestor} {getHeader : Hash → Nat → Option Header} {n fuel last : Nat}
  {cache : List Hash} (line : Line ref ancestor getHeader) (small : ref.number < uint64Size)
  (rootless : getHeader (ancestor 0).parentHash (uint64Size - 1) = none)
include line small

theorem answer_eq (ranged : n < uint64Size) :
    answer ref ancestor n =
      if index n ref ≤ ref.number then entry ref ancestor (index n ref) else 0 := by
  unfold answer
  by_cases below : n < ref.number
  · have pos : index n ref = ref.number - (n + 1) := by
      unfold index sub64 Header.numberU64 uint64Size at *
      omega
    have same : ref.number - (ref.number - (n + 1)) = n + 1 := by omega
    rw [if_pos below, pos, if_pos (Nat.sub_le _ _), entry, same, line.parent n below]
  have pos : index n ref = uint64Size - (n + 1) + ref.number := by
    unfold index sub64 Header.numberU64 uint64Size at *
    omega
  rw [if_neg below, pos]
  by_cases largest : n = uint64Size - 1
  · subst largest
    simp [entry, uint64Size]
  · rw [if_neg largest, if_neg]
    omega

theorem getHeader_entry (more : last < ref.number) :
    getHeader (entry ref ancestor last) (sub64 ref.numberU64 (last + 1)) =
      some (ancestor (ref.number - (last + 1))) := by
  have above : ref.number - last = ref.number - (last + 1) + 1 := by omega
  have number : sub64 ref.numberU64 (last + 1) = ref.number - (last + 1) := by
    unfold sub64 Header.numberU64 uint64Size at *
    omega
  rw [entry, above, line.parent _ (by omega), number, line.stored _ (by omega)]

include rootless

/-- The cache holds the first entries, and the one in question is not among them. -/
theorem walk_eq (ranged : n < uint64Size) (within : last ≤ ref.number)
    (enough : ref.number < fuel + last) (missing : last < index n ref) :
    ∃ after, Cached ref ancestor after ∧
      walk getHeader n fuel (entries ref ancestor (last + 1)) (entry ref ancestor last)
        (sub64 ref.numberU64 (last + 1)) = some (answer ref ancestor n, after) := by
  induction fuel generalizing last with
  | zero => omega
  | succ _ ih =>
    rw [walk]
    rcases within.lt_or_eq with more | rfl
    · have lower : sub64 (ancestor (ref.number - (last + 1))).numberU64 1 =
          sub64 ref.numberU64 (last + 1 + 1) := by
        rw [Header.numberU64, line.number _ (Nat.sub_le _ _)]
        unfold sub64 Header.numberU64 uint64Size at *
        omega
      have next : (ancestor (ref.number - (last + 1))).parentHash = entry ref ancestor (last + 1) :=
        rfl
      simp only [getHeader_entry line small more, lower, next, ← entries_succ]
      by_cases here : n = sub64 ref.numberU64 (last + 1 + 1)
      · have pos : index n ref = last + 1 := by
          unfold index sub64 Header.numberU64 uint64Size at *
          omega
        refine ⟨_, ⟨last + 1, more, rfl⟩, ?_⟩
        rw [if_pos here, answer_eq line small ranged, pos, if_pos (Nat.succ_le_of_lt more)]
      have elsewhere : index n ref ≠ last + 1 := by
        unfold index sub64 Header.numberU64 uint64Size at *
        omega
      rw [if_neg here]
      exact ih more (by omega) (by omega)
    · have number : sub64 ref.numberU64 (ref.number + 1) = uint64Size - 1 := by
        unfold sub64 Header.numberU64 uint64Size at *
        omega
      have bottom : entry ref ancestor ref.number = (ancestor 0).parentHash := by
        rw [entry, Nat.sub_self]
      rw [bottom, number, rootless, answer_eq line small ranged, if_neg (by omega)]
      exact ⟨_, ⟨_, le_rfl, rfl⟩, rfl⟩

theorem query_eq (ranged : n < uint64Size) (enough : ref.number < fuel)
    (cached : cache = [] ∨ Cached ref ancestor cache) :
    ∃ after, Cached ref ancestor after ∧
      query getHeader n fuel ref cache = some (answer ref ancestor n, after) := by
  have filled : Cached ref ancestor (if cache = [] then [ref.parentHash] else cache) := by
    rcases cached with rfl | ⟨last, within, rfl⟩
    · refine ⟨0, Nat.zero_le _, ?_⟩
      simp [entries, entry, line.last]
    · exact ⟨last, within, if_neg (by simp [entries])⟩
  rcases filled with ⟨last, within, filled⟩
  have length : (entries ref ancestor (last + 1)).length = last + 1 := by simp [entries]
  have newest : (entries ref ancestor (last + 1)).getLastD 0 = entry ref ancestor last := by
    simp [entries_succ]
  simp only [query, filled, length, newest]
  by_cases known : index n ref ≤ last
  · have hit : (entries ref ancestor (last + 1))[index n ref]? = some (answer ref ancestor n) := by
      rw [answer_eq line small ranged, if_pos (known.trans within)]
      simp [entries, List.getElem?_range (Nat.lt_succ_of_le known)]
    rw [hit]
    exact ⟨_, ⟨last, within, rfl⟩, rfl⟩
  have miss : (entries ref ancestor (last + 1))[index n ref]? = none := by
    rw [List.getElem?_eq_none_iff, length]
    omega
  rw [miss]
  exact walk_eq line small rootless ranged within (by omega) (by omega)

theorem queries_eq (enough : ref.number < fuel) (numbers : List Nat)
    (ranged : ∀ n ∈ numbers, n < uint64Size) (cached : cache = [] ∨ Cached ref ancestor cache) :
    queries getHeader fuel ref cache numbers = some (numbers.map (answer ref ancestor)) := by
  induction numbers generalizing cache with
  | nil => rfl
  | cons _ _ ih =>
    rcases List.forall_mem_cons.mp ranged with ⟨first, others⟩
    rcases query_eq line small rootless first enough cached with ⟨after, grown, asked⟩
    simp [queries, asked, ih others (.inr grown)]

/-- Queries in any order get the parent hashes, whatever was cached before. -/
theorem queries_answered (enough : ref.number < fuel) (numbers : List Nat)
    (ranged : ∀ n ∈ numbers, n < uint64Size) :
    queries getHeader fuel ref [] numbers = some (numbers.map (answer ref ancestor)) :=
  queries_eq line small rootless enough numbers ranged (.inl rfl)

end

@[reducible]
def numberEncoding : Encoding :=
  { blankEncoding with
    headerHash := fun header => BitVec.ofNat 256 (header.number + 1)
    headerHash_stored := fun _ => rfl }

attribute [local instance] numberEncoding

def sampleAncestor (number : Nat) : Header where
  parentHash := if number = 0 then 5 else 1
  difficulty := 1
  number := number

def sampleStore (hash : Hash) (number : Nat) : Option Header :=
  if hash = 1 ∧ number = 0 then some (sampleAncestor 0) else none

theorem sampleLine : Line (sampleAncestor 1) sampleAncestor sampleStore where
  last := rfl
  number := fun _ _ => rfl
  parent := by decide
  stored := by decide

theorem sample_queries_answered :
    queries sampleStore 2 (sampleAncestor 1) [] [0, 7, uint64Size - 1, 0] = some [1, 0, 5, 1] :=
  queries_answered sampleLine (by decide) (by decide) (show 1 < 2 by decide)
    [0, 7, uint64Size - 1, 0] (by decide)

/-- The number before zero wraps around: the largest number gets the parent of the genesis. -/
theorem largest_number_names_parent :
    Line (sampleAncestor 1) sampleAncestor sampleStore ∧
      queries sampleStore 2 (sampleAncestor 1) [] [uint64Size - 1] ≠ some [0] :=
  ⟨sampleLine, by decide⟩

end GetHashFn

open Rawdb GetHashFn

section

variable (db : ChainDb)

/-- The loop of `GetAncestor`, with what is left of `maxNonCanonical` at its end. -/
def ancestorLoop : Nat → Hash → Nat → Nat → (Hash × Nat) × Nat
  | 0, hash, number, maxNonCanonical => ((hash, number), maxNonCanonical)
  | ancestor + 1, hash, number, maxNonCanonical =>
    if readCanonicalHash db number = hash then
      ((readCanonicalHash db (number - (ancestor + 1)), number - (ancestor + 1)), maxNonCanonical)
    else if maxNonCanonical = 0 then ((0, 0), 0)
    else
      match readHeader db hash number with
      | none => ((0, 0), maxNonCanonical - 1)
      | some header => ancestorLoop ancestor header.parentHash (number - 1) (maxNonCanonical - 1)

def getAncestor (hash : Hash) (number ancestor maxNonCanonical : Nat) : (Hash × Nat) × Nat :=
  if ancestor > number then ((0, 0), maxNonCanonical)
  else if ancestor = 1 then
    match readHeader db hash number with
    | some header => ((header.parentHash, number - 1), maxNonCanonical)
    | none => ((0, 0), maxNonCanonical)
  else ancestorLoop db ancestor hash number maxNonCanonical

/-- Under every header that it names, the canonical index names the parent. -/
def IndexFollows : Prop :=
  ∀ number header, readHeader db (readCanonicalHash db (number + 1)) (number + 1) = some header →
    readCanonicalHash db number = header.parentHash

variable [Encoding]

/-- How many of the blocks of a line, from a number down, are not canonical. -/
def nonCanonical (line : Nat → Header) (number distance : Nat) : Nat :=
  (List.range distance).countP fun step =>
    decide (readCanonicalHash db (number - step) ≠ (line (number - step)).hash)

variable {db} {ref : Header} {ancestor : Nat → Header} {number distance : Nat}

theorem nonCanonical_succ (stray : readCanonicalHash db number ≠ (ancestor number).hash) :
    nonCanonical db ancestor number (distance + 1) =
      nonCanonical db ancestor (number - 1) distance + 1 := by
  unfold nonCanonical
  rw [List.range_succ_eq_map, List.countP_cons_of_pos (by simpa using stray), List.countP_map]
  congr 2
  funext step
  rw [Function.comp_apply, Nat.succ_eq_add_one, Nat.add_comm step, Nat.sub_add_eq]

variable (line : Line ref ancestor (readHeader db))
  (stored : readHeader db ref.hash ref.number = some ref)
include line stored

theorem readHeader_ancestor (within : number ≤ ref.number) :
    readHeader db (ancestor number).hash number = some (ancestor number) := by
  rcases within.lt_or_eq with below | rfl
  · exact line.stored number below
  · rw [line.last, stored]

variable (follows : IndexFollows db)
include follows

theorem canonical_below (within : number ≤ ref.number)
    (named : readCanonicalHash db number = (ancestor number).hash) (step : Nat) :
    readCanonicalHash db (number - step) = (ancestor (number - step)).hash := by
  induction step with
  | zero => exact named
  | succ step ih =>
    rw [← Nat.sub_sub]
    rcases bottom : number - step with _ | below
    · rwa [bottom] at ih
    rw [bottom] at ih
    have found := readHeader_ancestor line stored (show below + 1 ≤ ref.number by omega)
    rw [← ih] at found
    rw [Nat.add_sub_cancel, follows below _ found, line.parent below (by omega)]

theorem ancestorLoop_eq (within : number ≤ ref.number) (short : distance ≤ number)
    (maxNonCanonical : Nat) :
    (ancestorLoop db distance (ancestor number).hash number maxNonCanonical).1 =
      if nonCanonical db ancestor number distance ≤ maxNonCanonical then
        ((ancestor (number - distance)).hash, number - distance)
      else (0, 0) := by
  induction distance generalizing number maxNonCanonical with
  | zero => simp [ancestorLoop, nonCanonical]
  | succ distance ih =>
    rw [ancestorLoop]
    by_cases named : readCanonicalHash db number = (ancestor number).hash
    · have below := canonical_below line stored follows within named
      have noStray : nonCanonical db ancestor number (distance + 1) = 0 := by
        simp [nonCanonical, below]
      rw [if_pos named, noStray, if_pos (Nat.zero_le _), below]
    rw [if_neg named, nonCanonical_succ named, readHeader_ancestor line stored within]
    rcases maxNonCanonical with _ | left
    · simp
    have parent : (ancestor number).parentHash = (ancestor (number - 1)).hash := by
      rw [← line.parent (number - 1) (by omega), Nat.sub_add_cancel (by omega)]
    have rest := ih (show number - 1 ≤ ref.number by omega) (by omega) left
    rw [← parent, Nat.sub_sub, Nat.add_comm 1] at rest
    simpa using rest

/-- The ancestor is found if the budget covers the blocks that are not canonical; the parent
without a budget. -/
theorem getAncestor_eq (distance maxNonCanonical : Nat) :
    (getAncestor db ref.hash ref.number distance maxNonCanonical).1 =
      if distance ≤ ref.number ∧
          (distance = 1 ∨ nonCanonical db ancestor ref.number distance ≤ maxNonCanonical) then
        ((ancestor (ref.number - distance)).hash, ref.number - distance)
      else (0, 0) := by
  unfold getAncestor
  by_cases far : distance > ref.number
  · rw [if_pos far, if_neg fun found => absurd found.1 (not_le.mpr far)]
  have short := not_lt.mp far
  rw [if_neg far]
  by_cases one : distance = 1
  · subst one
    have parent : ref.parentHash = (ancestor (ref.number - 1)).hash := by
      rw [← line.parent (ref.number - 1) (by omega), Nat.sub_add_cancel short, line.last]
    rw [if_pos rfl, stored, if_pos ⟨short, .inl rfl⟩, ← parent]
  · have looped := ancestorLoop_eq line stored follows le_rfl short maxNonCanonical
    rw [line.last] at looped
    simpa [short, one] using looped

end

attribute [local instance] numberEncoding

def forkAncestor (number : Nat) : Header :=
  { sampleAncestor 0 with parentHash := BitVec.ofNat 256 number, number := number }

def forkDb : ChainDb where
  lookup
    | .header number hash =>
      if number ≤ 2 ∧ hash = BitVec.ofNat 256 (number + 1) then some (forkAncestor number) else none
    | .canonical number => if number = 0 then some 1 else none
    | _ => none

theorem forkLine : Line (forkAncestor 2) forkAncestor (readHeader forkDb) where
  last := rfl
  number _ _ := rfl
  parent _ _ := rfl
  stored := by decide

theorem forkDb_follows : IndexFollows forkDb := by
  intro number header found
  have zero : readCanonicalHash forkDb (number + 1) = 0 := rfl
  rcases Option.ite_none_right_eq_some.mp found with ⟨⟨small, same⟩, -⟩
  have either : number = 0 ∨ number = 1 := by omega
  rcases either with rfl | rfl <;> exact absurd same (by decide)

theorem fork_ancestor_found : (getAncestor forkDb (forkAncestor 2).hash 2 2 2).1 = (1, 0) := by
  have found := getAncestor_eq forkLine (by decide) forkDb_follows 2 2
  exact found.trans (by decide)

theorem parent_found_without_budget :
    IndexFollows forkDb ∧ Line (forkAncestor 2) forkAncestor (readHeader forkDb) ∧
      readHeader forkDb (forkAncestor 2).hash 2 = some (forkAncestor 2) ∧
      0 < nonCanonical forkDb forkAncestor 2 1 ∧
      (getAncestor forkDb (forkAncestor 2).hash 2 1 0).1 ≠ (0, 0) :=
  ⟨forkDb_follows, forkLine, by decide, by decide, by decide⟩

end Octopus
