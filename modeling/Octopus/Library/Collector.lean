import Mathlib.Data.List.Basic

/-!
# Collecting results in order

A collector marks the positions whose result is known, in any order, and hands out results
from the first position on, as far as they are marked.  Marking and draining keep
`Collector.InOrder`, so what was handed out is always a prefix of all results.
-/

namespace Library

open List

variable {position : Nat}

/-- Marks and results by position, the next one to hand out, what was handed out, and whether
the collector has returned. -/
structure Collector (Value : Type) where
  done : Nat → Bool
  results : Nat → Value
  out : Nat
  sent : List Value
  returned : Bool

namespace Collector

variable {Value : Type} {res : Value}

def start (default : Value) : Collector Value where
  done _ := false
  results _ := default
  out := 0
  sent := []
  returned := false

def filled (count : Nat) (result : Value) : Collector Value where
  done position := position < count
  results _ := result
  out := 0
  sent := List.replicate count result
  returned := true

def store (collector : Collector Value) (position : Nat) (result : Value) : Collector Value :=
  { collector with results := Function.update collector.results position result }

def mark (collector : Collector Value) (position : Nat) : Collector Value :=
  { collector with done := Function.update collector.done position true }

@[simp]
theorem mark_results (collector : Collector Value) (position : Nat) :
    (collector.mark position).results = collector.results := rfl

def settle (collector : Collector Value) (position : Nat) (result : Value) : Collector Value :=
  if collector.done position then collector
  else (collector.store position result).mark position

def fill (collector : Collector Value) (first past : Nat) (result : Value) : Collector Value :=
  { collector with
    done := fun position => decide (first ≤ position ∧ position < past) || collector.done position
    results := fun position =>
      if first ≤ position ∧ position < past then result else collector.results position }

/-- The loop `for ; done[out]; out++` over a batch of `count` positions, of
which at most `fuel` are left. -/
def drainFrom (count : Nat) : Nat → Collector Value → Collector Value
  | 0, collector => collector
  | fuel + 1, collector =>
    if collector.done collector.out then
      let handed := { collector with sent := collector.sent ++ [collector.results collector.out] }
      if collector.out + 1 = count then { handed with returned := true }
      else drainFrom count fuel { handed with out := collector.out + 1 }
    else collector

def drain (count : Nat) (collector : Collector Value) : Collector Value :=
  drainFrom count (count - collector.out) collector

@[simp]
theorem drainFrom_done (count fuel : Nat) (collector : Collector Value) :
    (drainFrom count fuel collector).done = collector.done := by
  induction fuel generalizing collector with
  | zero => rfl
  | succ _ ih =>
    simp only [drainFrom]
    split_ifs <;> simp [ih]

@[simp]
theorem drainFrom_results (count fuel : Nat) (collector : Collector Value) :
    (drainFrom count fuel collector).results = collector.results := by
  induction fuel generalizing collector with
  | zero => rfl
  | succ _ ih =>
    simp only [drainFrom]
    split_ifs <;> simp [ih]

@[simp]
theorem drain_done (count : Nat) (collector : Collector Value) :
    (collector.drain count).done = collector.done :=
  drainFrom_done count _ collector

@[simp]
theorem drain_results (count : Nat) (collector : Collector Value) :
    (collector.drain count).results = collector.results :=
  drainFrom_results count _ collector

/-- What was handed out are the expected results before the next position, and all of them if
the collector has returned; marked positions hold their expected result. -/
structure InOrder (expected : List Value) (collector : Collector Value) : Prop where
  marked : ∀ position, collector.done position = true →
    expected[position]? = some (collector.results position)
  handed : ∀ position < collector.sent.length, collector.done position = true
  sent : collector.returned = false → collector.sent = expected.take collector.out
  pending : collector.returned = false → collector.out < expected.length
  complete : collector.returned = true → collector.sent = expected

variable {expected : List Value} {collector : Collector Value} (kept : collector.InOrder expected)
include kept

theorem InOrder.sent_isPrefix : collector.sent <+: expected := by
  cases ran : collector.returned with
  | false =>
    rw [kept.sent ran]
    exact take_prefix _ _
  | true => simp [kept.complete ran]

omit kept in
theorem inOrder_start (default : Value) (nonempty : expected ≠ []) :
    (start default).InOrder expected where
  marked := by simp [start]
  handed := by simp [start]
  sent := by simp [start]
  pending := by simpa [start] using length_pos_iff.mpr nonempty
  complete := by simp [start]

omit kept in
theorem inOrder_filled (count : Nat) (res : Value) :
    (filled count res).InOrder (replicate count res) where
  marked := by simp [filled, getElem?_replicate]
  handed := by simp [filled]
  sent := by simp [filled]
  pending := by simp [filled]
  complete := by simp [filled]

theorem InOrder.store (right : expected[position]? = some res) :
    (collector.store position res).InOrder expected where
  marked := by
    intro other marked
    by_cases same : other = position
    · subst same
      simpa [Collector.store] using right
    · simpa [Collector.store, same] using kept.marked other marked
  handed := kept.handed
  sent := kept.sent
  pending := kept.pending
  complete := kept.complete

theorem InOrder.mark (right : expected[position]? = some (collector.results position)) :
    (collector.mark position).InOrder expected where
  marked := by
    intro other marked
    by_cases same : other = position
    · subst same
      simpa using right
    · simp only [Collector.mark, ne_eq, same, not_false_eq_true, Function.update_of_ne] at marked
      exact kept.marked other marked
  handed := by
    intro other old
    by_cases same : other = position
    · simp [Collector.mark, same]
    · simpa [Collector.mark, same] using kept.handed other old
  sent := kept.sent
  pending := kept.pending
  complete := kept.complete

theorem InOrder.store_mark (right : expected[position]? = some res) :
    ((collector.store position res).mark position).InOrder expected := by
  apply (kept.store right).mark
  simpa [Collector.store] using right

theorem InOrder.settle
    (right : collector.done position = false → expected[position]? = some res) :
    (collector.settle position res).InOrder expected := by
  rw [Collector.settle]
  split_ifs with marked
  · exact kept
  · exact kept.store_mark (right (by simpa using marked))

section

variable (position : Nat)

omit kept in
@[simp]
theorem mark_done (other : Nat) : (collector.mark position).done other =
    (decide (other = position) || collector.done other) := by
  by_cases same : other = position
  · simp [Collector.mark, same]
  · simp [Collector.mark, same]

variable (res : Value)

omit kept in
@[simp]
theorem store_done : (collector.store position result).done = collector.done := rfl

omit kept in
@[simp]
theorem settle_done (other : Nat) : (collector.settle position result).done other =
      (decide (other = position) || collector.done other) := by
  rw [Collector.settle]
  split_ifs with marked
  · by_cases same : other = position
    · simp [same, marked]
    · simp [same]
  · simp

omit kept in
@[simp]
theorem settle_returned : (collector.settle position result).returned = collector.returned := by
  rw [Collector.settle]
  split_ifs <;> rfl

end

omit kept in
@[simp]
theorem fill_done (first past : Nat) (result : Value) (position : Nat) :
    (collector.fill first past result).done position =
      (decide (first ≤ position ∧ position < past) || collector.done position) := rfl

omit kept in
@[simp]
theorem fill_returned (first past : Nat) (result : Value) :
    (collector.fill first past result).returned = collector.returned := rfl

theorem InOrder.fill {first past : Nat}
    (right : ∀ position, first ≤ position → position < past → expected[position]? = some res) :
    (collector.fill first past res).InOrder expected where
  marked := by
    intro position marked
    by_cases inside : first ≤ position ∧ position < past
    · simpa [Collector.fill, inside] using right position inside.1 inside.2
    · simp only [Collector.fill, inside, decide_false] at marked
      simpa [Collector.fill, inside] using kept.marked position marked
  handed := by
    intro position old
    simp [kept.handed position old]
  sent := kept.sent
  pending := kept.pending
  complete := kept.complete

variable (running : collector.returned = false)
include running

theorem InOrder.next (marked : collector.done collector.out = true) :
    collector.sent ++ [collector.results collector.out] = expected.take (collector.out + 1) := by
  rw [kept.sent running, take_add_one, kept.marked collector.out marked]
  rfl

theorem InOrder.length_sent : collector.sent.length = collector.out := by
  have old := kept.pending running
  rw [kept.sent running, length_take]
  omega

theorem InOrder.handed_next (marked : collector.done collector.out = true) (res : Value) :
    ∀ position < (collector.sent ++ [res]).length, collector.done position = true := by
  intro position old
  simp only [length_append, kept.length_sent running, length_singleton] at old
  by_cases last : position = collector.out
  · rw [last]
    exact marked
  · apply kept.handed
    rw [kept.length_sent running]
    omega

theorem InOrder.drainFrom (fuel : Nat) :
    (drainFrom expected.length fuel collector).InOrder expected := by
  induction fuel generalizing collector with
  | zero => exact kept
  | succ _ ih =>
    simp only [Collector.drainFrom]
    split_ifs with marked last
    · refine ⟨kept.marked, kept.handed_next running marked _, by simp, by simp, ?_⟩
      intro ran
      rw [kept.next running marked, last, take_length]
    · apply ih
      · refine ⟨kept.marked, kept.handed_next running marked _, ?_, ?_, ?_⟩
        · intro still
          exact kept.next running marked
        · have old := kept.pending running
          simp only
          omega
        · intro ran
          simp [running] at ran
      · exact running
    · exact kept

theorem InOrder.drain : (collector.drain expected.length).InOrder expected :=
  kept.drainFrom running _

omit kept running in
theorem drainFrom_waits (fuel : Nat) (collector : Collector Value) {count : Nat}
    (enough : count ≤ fuel + collector.out) (before : collector.out < count) :
    (drainFrom count fuel collector).returned = true ∨
      (drainFrom count fuel collector).done (drainFrom count fuel collector).out = false := by
  induction fuel generalizing collector with
  | zero => omega
  | succ _ ih =>
    simp only [Collector.drainFrom]
    split_ifs with marked last
    · exact .inl rfl
    · apply ih
      · simp only
        omega
      · simp only
        omega
    · exact .inr (by simpa using marked)

theorem InOrder.drain_waits (unfinished : (collector.drain expected.length).returned = false) :
    (collector.drain expected.length).done (collector.drain expected.length).out = false := by
  have old := kept.pending running
  have waits : (collector.drain expected.length).returned = true ∨
      (collector.drain expected.length).done (collector.drain expected.length).out = false := by
    apply drainFrom_waits
    · omega
    · exact old
  rcases waits with ran | waiting
  · simp [ran] at unfinished
  · exact waiting

end Collector

/-- A channel that is filled with a list in order: how many were received, and those waiting. -/
structure Feed (Value : Type) where
  taken : Nat
  buffer : List Value

namespace Feed

variable {Value : Type} {value : Value} {rest : List Value}

def empty : Feed Value :=
  ⟨0, []⟩

def sent (feed : Feed Value) : Nat :=
  feed.taken + feed.buffer.length

def send (feed : Feed Value) (value : Value) : Feed Value :=
  { feed with buffer := feed.buffer ++ [value] }

def receive (feed : Feed Value) : Feed Value :=
  ⟨feed.taken + 1, feed.buffer.tail⟩

def Carries (values : List Value) (feed : Feed Value) : Prop :=
  feed.buffer <+: values.drop feed.taken

variable {values : List Value} {feed : Feed Value}

theorem carries_empty : (empty : Feed Value).Carries values :=
  nil_prefix

variable (carries : feed.Carries values)
include carries

theorem Carries.send (next : values[feed.sent]? = some value) :
    (feed.send value).Carries values := by
  rcases carries with ⟨rest, split⟩
  have new : rest[0]? = some value := by
    rw [sent, ← getElem?_drop, ← split, getElem?_append_right (Nat.le_refl _), Nat.sub_self] at next
    exact next
  rcases rest with _ | ⟨_, rest⟩
  · simp at new
  · simp only [getElem?_cons_zero, Option.some.injEq] at new
    exact ⟨rest, by simpa [Feed.send, new] using split⟩

variable (first : feed.buffer = value :: rest)
include first

theorem Carries.head : values[feed.taken]? = some value := by
  rcases carries with ⟨_, split⟩
  have start : (values.drop feed.taken)[0]? = some value := by
    rw [← split, first]
    rfl
  simpa using start

theorem Carries.receive : feed.receive.Carries values := by
  rcases carries with ⟨later, split⟩
  refine ⟨later, ?_⟩
  rw [Feed.receive, ← tail_drop, ← split, first]
  rfl

end Feed

end Library
