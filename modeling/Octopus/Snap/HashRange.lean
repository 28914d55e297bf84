import Octopus.Entity.Basic

/-!
# Ranges of hashes

A range walks from a first hash to the end of the hash space in equal steps; its last
interval is the one whose end does not fit into a hash.
-/

namespace Octopus.Snap

structure HashRange where
  current : Hash
  step : Hash

def hashSpace : Nat := 2 ^ 256

/-- `newHashRange`; the step is cut to 256 bits. -/
def newHashRange (start : Hash) (num : Nat) : Except Fault HashRange :=
  if num = 0 then .error (.panic "division by zero")
  else .ok { current := start, step := .ofNat 256 ((hashSpace - start.toNat + (num - 1)) / num) }

namespace HashRange

variable {range : HashRange}

def overflows (range : HashRange) : Bool :=
  hashSpace ≤ range.current.toNat + range.step.toNat

def next (range : HashRange) : Option HashRange :=
  if range.overflows then none else some { range with current := range.current + range.step }

def interval (range : HashRange) : Hash × Hash :=
  (range.current,
    if range.overflows then .allOnes 256 else range.current + range.step - 1)

def intervals : Nat → HashRange → Option (List (Hash × Hash))
  | 0, _ => none
  | rounds + 1, range =>
    match range.next with
    | none => some [range.interval]
    | some next => (intervals rounds next).map (range.interval :: ·)

/-- The storage tasks of `processStorageResponse`; the response has filled the first one. -/
def storageTasks (rounds : Nat) (range : HashRange) : Option (List (Hash × Hash)) :=
  (range.intervals rounds).map fun
    | [] => []
    | (_, last) :: rest => (0, last) :: rest

end HashRange

/-- Consecutive intervals up to the end of the hash space. -/
def Tiles : Nat → List (Hash × Hash) → Prop
  | start, [] => start = hashSpace
  | start, (first, last) :: rest => first.toNat = start ∧ first ≤ last ∧ Tiles (last.toNat + 1) rest

def occurrences (hash : Hash) (intervals : List (Hash × Hash)) : Nat :=
  intervals.countP fun interval => interval.1 ≤ hash ∧ hash ≤ interval.2

theorem Tiles.occurrences_eq {start : Nat} {intervals : List (Hash × Hash)}
    (tiles : Tiles start intervals) (hash : Hash) :
    occurrences hash intervals = if start ≤ hash.toNat then 1 else 0 := by
  have inSpace : hash.toNat < hashSpace := hash.isLt
  induction intervals generalizing start with
  | nil =>
    cases tiles
    exact (if_neg (by omega)).symm
  | cons interval rest ih =>
    rcases tiles with ⟨rfl, ordered, later⟩
    have tail := ih later
    rw [BitVec.le_def] at ordered
    simp only [occurrences, List.countP_cons, BitVec.le_def, decide_eq_true_eq] at tail ⊢
    rw [tail]
    split_ifs <;> omega

namespace HashRange

variable {range : HashRange} (moves : 0 < range.step.toNat)
include moves

theorem succ_last : range.interval.2.toNat + 1 =
    min hashSpace (range.current.toNat + range.step.toNat) := by
  have space : hashSpace = 2 ^ 256 := rfl
  by_cases ends : range.overflows
  · simp only [interval, ends, if_true, BitVec.toNat_allOnes]
    simp only [overflows, decide_eq_true_eq] at ends
    omega
  · simp only [interval, ends, Bool.false_eq_true, if_false]
    simp only [overflows, decide_eq_true_eq] at ends
    have sum : (range.current + range.step).toNat = range.current.toNat + range.step.toNat :=
      BitVec.toNat_add_of_lt (by omega)
    have one : (1 : Hash).toNat = 1 := rfl
    rw [BitVec.toNat_sub_of_le (by rw [BitVec.le_def, sum]; omega), sum]
    omega

theorem intervals_tile {rounds : Nat}
    (enough : hashSpace - range.current.toNat ≤ rounds * range.step.toNat) :
    ∃ intervals, range.intervals rounds = some intervals ∧ intervals.length ≤ rounds ∧
      Tiles range.current.toNat intervals := by
  induction rounds generalizing range with
  | zero =>
    have inSpace : range.current.toNat < hashSpace := range.current.isLt
    omega
  | succ rounds ih =>
    have inSpace : range.current.toNat < hashSpace := range.current.isLt
    have last := succ_last moves
    have ordered : range.interval.1 ≤ range.interval.2 := by
      change range.current.toNat ≤ _
      omega
    by_cases ends : hashSpace ≤ range.current.toNat + range.step.toNat
    · refine ⟨[range.interval], by simp [intervals, next, overflows, ends], by simp, rfl,
        ordered, ?_⟩
      change range.interval.2.toNat + 1 = hashSpace
      omega
    · have sum : (range.current + range.step).toNat = range.current.toNat + range.step.toNat :=
        BitVec.toNat_add_of_lt (by unfold hashSpace at ends; omega)
      rw [Nat.succ_mul] at enough
      rcases @ih { range with current := range.current + range.step } moves
        (by dsimp only; omega) with ⟨rest, walked, short, tiles⟩
      refine ⟨range.interval :: rest, ?_, by simpa using short, rfl, ordered, ?_⟩
      · simp [intervals, next, overflows, ends, walked]
      · change Tiles (range.interval.2.toNat + 1) rest
        rwa [last, min_eq_right (by omega), ← sum]

end HashRange

theorem newHashRange_eq {start : Hash} {num : Nat} (chunked : 1 ≤ num)
    (proper : ¬ (start = 0 ∧ num = 1)) :
    ∃ range, newHashRange start num = .ok range ∧ range.current = start ∧
      0 < range.step.toNat ∧ hashSpace - start.toNat ≤ num * range.step.toNat := by
  have space : hashSpace = 2 ^ 256 := rfl
  have parts := Nat.div_add_mod (hashSpace - start.toNat + (num - 1)) num
  have remainder := Nat.mod_lt (hashSpace - start.toNat + (num - 1)) chunked
  have small : (hashSpace - start.toNat + (num - 1)) / num < 2 ^ 256 := by
    rw [Nat.div_lt_iff_lt_mul chunked]
    by_cases one : num = 1
    · have nonzero : start.toNat ≠ 0 := fun zero => proper ⟨BitVec.eq_of_toNat_eq zero, one⟩
      omega
    · omega
  refine ⟨_, by rw [newHashRange, if_neg (by omega)], rfl, ?_, ?_⟩
  · simp only [BitVec.toNat_ofNat, Nat.mod_eq_of_lt small]
    rw [Nat.div_pos_iff]
    omega
  · simp only [BitVec.toNat_ofNat, Nat.mod_eq_of_lt small]
    omega

/-- The intervals of a range follow one another to the end of the hash space, there are no more
of them than chunks, and every hash from the start on is in exactly one.  Every hash is in
exactly one of the storage tasks. -/
theorem hashRange_tiles {start : Hash} {num : Nat} (chunked : 1 ≤ num)
    (proper : ¬ (start = 0 ∧ num = 1)) :
    ∃ range intervals tasks, newHashRange start num = .ok range ∧
      range.intervals num = some intervals ∧ intervals.length ≤ num ∧
      Tiles start.toNat intervals ∧
      (∀ hash, occurrences hash intervals = if start ≤ hash then 1 else 0) ∧
      range.storageTasks num = some tasks ∧ ∀ hash, occurrences hash tasks = 1 := by
  rcases newHashRange_eq chunked proper with ⟨range, made, rfl, moves, enough⟩
  rcases HashRange.intervals_tile moves enough with ⟨intervals, walked, short, tiles⟩
  cases intervals with
  | nil =>
    have inSpace : range.current.toNat < hashSpace := range.current.isLt
    exact absurd tiles inSpace.ne
  | cons interval rest =>
    have tasks : Tiles 0 ((0, interval.2) :: rest) :=
      ⟨rfl, by simp [BitVec.le_def], tiles.2.2⟩
    refine ⟨range, interval :: rest, (0, interval.2) :: rest, made, walked, short, tiles,
      tiles.occurrences_eq, ?_, ?_⟩
    · rw [HashRange.storageTasks, walked]
      rfl
    · intro hash
      simpa using tasks.occurrences_eq hash

theorem sixteen_chunks_tile : ∃ range intervals tasks, newHashRange 5 16 = .ok range ∧
    range.intervals 16 = some intervals ∧ intervals.length ≤ 16 ∧
    Tiles 5 intervals ∧ (∀ hash, occurrences hash intervals = if 5 ≤ hash then 1 else 0) ∧
    range.storageTasks 16 = some tasks ∧ ∀ hash, occurrences hash tasks = 1 :=
  @hashRange_tiles 5 16 (by decide) (by decide)

end Octopus.Snap
