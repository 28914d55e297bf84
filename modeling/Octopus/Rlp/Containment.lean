import Octopus.Rlp.Reader

/-!
# Lists contain what is read inside of them

A session is a stream with, for every open list, the place where it has to end.  All
operations but `List` keep the lists nested as declared; `List` does exactly if the inner
list fits into what is left of the outer one once its header is read.
-/

namespace Octopus

open Library

variable {limits outer : List Nat} {position size : Nat} {mid new : Reader}

namespace Rlp

inductive Op where
  | kind
  | bytes
  | raw
  | uint (maxbits : Nat)
  | bigInt
  | list
  | listEnd

structure OpenList where
  declared : Nat
  ending : Nat

variable {lists : List OpenList}

structure Session where
  reader : Reader
  position : Nat := 0
  opened : List OpenList := []

namespace Session

def advance (session : Session) (after : Reader) : Session :=
  { session with
    reader := after
    position := session.position + (session.reader.input.length - after.input.length) }

def enter (session : Session) (size : Nat) : Session :=
  { session with opened := ⟨size, session.position + size⟩ :: session.opened }

def leave (session : Session) : Session :=
  { session with opened := session.opened.tail }

def step (session : Session) : Op → Session
  | .kind => session.advance (Reader.kind session.reader).2
  | .bytes => session.advance (Reader.bytes session.reader).2
  | .raw => session.advance (Reader.raw session.reader).2
  | .uint maxbits => session.advance (Reader.uint maxbits session.reader).2
  | .bigInt => session.advance (Reader.bigInt session.reader).2
  | .list =>
    match Reader.list session.reader with
    | (.error _, after) => session.advance after
    | (.ok size, after) => (session.advance after).enter size
  | .listEnd =>
    match Reader.listEnd session.reader with
    | (.error _, after) => session.advance after
    | (.ok (), after) => (session.advance after).leave

def run (session : Session) (ops : List Op) : Session :=
  ops.foldl step session

/-- What is left of each list and of those inside of it stays before the end of the list. -/
def Nested : Nat → List Nat → List OpenList → Prop
  | _, [], [] => True
  | position, limit :: limits, list :: lists =>
    limit ≤ list.declared ∧ position + limit ≤ list.ending ∧ Nested (position + limit) limits lists
  | _, _, _ => False

/-- What is left of a list is at most what was declared, and all that has been read lies before
the end of every open list. -/
structure Contained (session : Session) : Prop where
  nested : Nested session.position session.reader.stack session.opened
  before : ∀ list ∈ session.opened, session.position ≤ list.ending

/-- A list that is opened fits into what is left of the list around it. -/
def Fits (session : Session) : Op → Prop
  | .list =>
    match Reader.kind session.reader with
    | (.ok (.list, size), after) => ∀ limit ∈ after.stack.head?, size ≤ limit
    | _ => True
  | _ => True

structure Bounded (session : Session) : Prop where
  sized : session.reader.Sized
  limits : ∀ limit ∈ session.reader.stack, limit < 2 ^ 64
  endings : ∀ list ∈ session.opened, list.ending < session.position + 2 ^ 64

theorem Nested.before (nested : Nested position limits lists) :
    ∀ list ∈ lists, position ≤ list.ending := by
  induction lists generalizing position limits with
  | nil => simp
  | cons _ _ ih =>
    cases limits with
    | nil => exact nested.elim
    | cons =>
      rcases nested with ⟨-, ending, inner⟩
      intro other mem
      rcases List.mem_cons.mp mem with rfl | later
      · omega
      · have bound := ih inner other later
        omega

theorem Nested.mono {earlier : Nat} (nested : Nested position limits lists)
    (lower : earlier ≤ position) : Nested earlier limits lists := by
  induction lists generalizing position earlier limits with
  | nil => cases limits <;> exact nested
  | cons _ _ ih =>
    cases limits with
    | nil => exact nested
    | cons =>
      rcases nested with ⟨declared, _, inner⟩
      exact ⟨declared, by omega, ih inner (by omega)⟩

theorem Nested.takeOff {taken advance : Nat} (nested : Nested position limits lists)
    (covered : advance ≤ taken) (within : ∀ limit ∈ limits.head?, taken ≤ limit) :
    Nested (position + advance) (Reader.takeOff taken limits) lists := by
  cases limits with
  | nil =>
    cases lists with
    | nil => trivial
    | cons => exact nested.elim
  | cons limit _ =>
    cases lists with
    | nil => exact nested.elim
    | cons =>
      rcases nested with ⟨_, _, inner⟩
      have enough := within limit rfl
      refine ⟨by omega, by omega, inner.mono (by omega)⟩

theorem Nested.reserve (nested : Nested position limits lists)
    (small : ∀ limit ∈ limits, limit < 2 ^ 64) (fits : ∀ limit ∈ limits.head?, size ≤ limit) :
    Nested (position + size) (Reader.reserve size limits) lists := by
  rw [← Reader.takeOff_eq_reserve fits small]
  exact nested.takeOff le_rfl fits

theorem not_nested_reserve {limit : Nat} (overrun : limit < size)
    (endings : ∀ list ∈ lists, list.ending < position + 2 ^ 64) :
    ¬ Nested (position + size) (Reader.reserve size (limit :: limits)) lists := by
  intro nested
  cases lists with
  | nil => exact nested.elim
  | cons list _ =>
    rcases nested with ⟨-, ending, -⟩
    have near := endings list (by simp)
    omega

variable {session : Session}

theorem step_cases (session : Session) (op : Op) :
    (∃ new, Reader.Read session.reader new ∧ session.step op = session.advance new ∧
        session.Fits op) ∨ (∃ size mid, Reader.kind session.reader = (.ok (.list, size), mid) ∧
        session.step op = (session.advance { mid with
          stack := size :: Reader.reserve size mid.stack, ahead := none }).enter size ∧
        (session.Fits op ↔ ∀ limit ∈ mid.stack.head?, size ≤ limit)) ∨
      (∃ outer, session.reader.stack = 0 :: outer ∧ session.Fits op ∧
        session.step op =
          (session.advance { session.reader with stack := outer, ahead := none }).leave) := by
  cases op with
  | kind => exact .inl ⟨_, Reader.read_kind session.reader, rfl, trivial⟩
  | bytes => exact .inl ⟨_, Reader.read_bytes session.reader, rfl, trivial⟩
  | raw => exact .inl ⟨_, Reader.read_raw session.reader, rfl, trivial⟩
  | uint maxbits => exact .inl ⟨_, Reader.read_uint maxbits session.reader, rfl, trivial⟩
  | bigInt => exact .inl ⟨_, Reader.read_bigInt session.reader, rfl, trivial⟩
  | list =>
    have ahead := Reader.read_kind session.reader
    rcases tagged : Reader.kind session.reader with ⟨_ | ⟨isKind, size⟩, mid⟩
    · rw [tagged] at ahead
      refine .inl ⟨mid, ahead, ?_, ?_⟩
      · simp [step, Reader.list, tagged]
      · simp [Fits, tagged]
    rw [tagged] at ahead
    by_cases isList : isKind = .list
    · subst isList
      refine .inr (.inl ⟨size, mid, rfl, ?_, ?_⟩)
      · simp [step, Reader.list, tagged]
      · simp [Fits, tagged]
    refine .inl ⟨mid, ahead, ?_, ?_⟩
    · simp [step, Reader.list, tagged, isList]
    · cases isKind with
      | byte | string => simp [Fits, tagged]
      | list => exact absurd rfl isList
  | listEnd =>
    cases stack : session.reader.stack with
    | nil =>
      refine .inl ⟨session.reader, Reader.Read.of_eq rfl rfl id, ?_, trivial⟩
      simp [step, Reader.listEnd, stack]
    | cons limit outer =>
      by_cases left : 0 < limit
      · refine .inl ⟨session.reader, Reader.Read.of_eq rfl rfl id, ?_, trivial⟩
        simp [step, Reader.listEnd, stack, left]
      · have empty : limit = 0 := by omega
        subst empty
        refine .inr (.inr ⟨outer, rfl, trivial, ?_⟩)
        simp [step, Reader.listEnd, stack]

theorem mem_takeOff_lt {taken bound : Nat} (small : ∀ limit ∈ limits, limit < bound) :
    ∀ limit ∈ Reader.takeOff taken limits, limit < bound := by
  cases limits with
  | nil => simp [Reader.takeOff]
  | cons first _ =>
    have below := small first (by simp)
    intro limit mem
    rcases List.mem_cons.mp mem with rfl | later
    · omega
    · exact small limit (by simp [later])

theorem Bounded.advance (bounded : session.Bounded) (read : Reader.Read session.reader new) :
    (session.advance new).Bounded := by
  rcases read with ⟨_, advance, read⟩
  refine ⟨read.sized bounded.sized, ?_, ?_⟩
  · show ∀ limit ∈ new.stack, limit < 2 ^ 64
    rw [read.stack]
    exact mem_takeOff_lt bounded.limits
  · intro list mem
    have near := bounded.endings list mem
    simp only [Session.advance]
    omega

theorem Contained.advance (contained : session.Contained)
    (read : Reader.Read session.reader new) : (session.advance new).Contained := by
  rcases read with ⟨_, advance, read⟩
  have moved : (session.advance new).position = session.position + advance := by
    have available := read.available
    simp only [Session.advance, read.input, List.length_drop]
    omega
  have nested := contained.nested.takeOff read.covered read.within
  rw [← moved, ← read.stack] at nested
  exact ⟨nested, nested.before⟩

theorem Bounded.enter (bounded : session.Bounded)
    (tagged : Reader.kind session.reader = (.ok (.list, size), mid)) :
    ((session.advance { mid with
      stack := size :: Reader.reserve size mid.stack, ahead := none }).enter size).Bounded := by
  have small := Reader.kind_size_lt bounded.sized tagged
  have read := Reader.read_kind session.reader
  rw [tagged] at read
  have advanced := bounded.advance read
  refine ⟨Reader.sized_of_eq_none rfl, ?_, ?_⟩
  · intro limit mem
    rcases List.mem_cons.mp mem with rfl | outer
    · exact small
    have limits := advanced.limits
    simp only [Session.advance] at limits
    cases stack : mid.stack with
    | nil => simp [stack, Reader.reserve] at outer
    | cons =>
      simp only [stack, Reader.reserve, List.mem_cons] at outer
      rcases outer with rfl | later
      · exact Nat.mod_lt _ (by omega)
      · exact limits limit (by simp [stack, later])
  · intro list mem
    rcases List.mem_cons.mp mem with rfl | outer
    · simp only [Session.enter]
      omega
    · exact advanced.endings list outer

theorem contained_enter_iff (bounded : session.Bounded) (contained : session.Contained)
    (tagged : Reader.kind session.reader = (.ok (.list, size), mid)) :
    ((session.advance { mid with
        stack := size :: Reader.reserve size mid.stack, ahead := none }).enter size).Contained ↔
      ∀ limit ∈ mid.stack.head?, size ≤ limit := by
  have small := Reader.kind_size_lt bounded.sized tagged
  have read := Reader.read_kind session.reader
  rw [tagged] at read
  have advanced := bounded.advance read
  have inside := contained.advance read
  constructor
  · intro entered limit isHead
    by_contra overrun
    cases stack : mid.stack with
    | nil => simp [stack] at isHead
    | cons =>
      simp only [stack, List.head?_cons, Option.mem_def, Option.some.injEq] at isHead
      have nested := entered.nested.2.2
      rw [stack] at nested
      exact not_nested_reserve (by omega) advanced.endings nested
  · intro fits
    have nested := inside.nested.reserve advanced.limits fits
    have whole : Nested (session.advance mid).position (size :: Reader.reserve size mid.stack)
        (⟨size, (session.advance mid).position + size⟩ :: session.opened) :=
      ⟨Nat.le_refl _, Nat.le_refl _, nested⟩
    exact ⟨whole, whole.before⟩

theorem Bounded.leave (bounded : session.Bounded) (stack : session.reader.stack = 0 :: outer) :
    (session.advance { session.reader with stack := outer, ahead := none }).leave.Bounded := by
  refine ⟨Reader.sized_of_eq_none rfl, ?_, ?_⟩
  · intro limit mem
    exact bounded.limits limit (by simp [stack, show limit ∈ outer from mem])
  · intro list mem
    have near := bounded.endings list (List.mem_of_mem_tail mem)
    simp only [Session.leave, Session.advance]
    omega

theorem Contained.leave (contained : session.Contained)
    (stack : session.reader.stack = 0 :: outer) :
    (session.advance { session.reader with stack := outer, ahead := none }).leave.Contained := by
  have nested := contained.nested
  rw [stack] at nested
  cases lists : session.opened with
  | nil =>
    rw [lists] at nested
    exact nested.elim
  | cons =>
    rw [lists] at nested
    have inner := nested.2.2
    have kept : Nested
        (session.advance { session.reader with stack := outer, ahead := none }).leave.position
        outer (session.advance
          { session.reader with stack := outer, ahead := none }).leave.opened := by
      simpa [Session.leave, Session.advance, lists] using inner
    exact ⟨kept, kept.before⟩

theorem bounded_step (bounded : session.Bounded) (op : Op) : (session.step op).Bounded := by
  rcases step_cases session op with ⟨_, read, same, -⟩ | ⟨_, _, tagged, same, -⟩ |
    ⟨outer, stack, -, same⟩
  · rw [same]
    exact bounded.advance read
  · rw [same]
    exact bounded.enter tagged
  · rw [same]
    exact bounded.leave stack

theorem contained_step_iff (bounded : session.Bounded) (contained : session.Contained) (op : Op) :
    (session.step op).Contained ↔ session.Fits op := by
  rcases step_cases session op with ⟨_, read, same, fits⟩ | ⟨_, _, tagged, same, fits⟩ |
    ⟨outer, stack, fits, same⟩
  · rw [same]
    exact iff_of_true (contained.advance read) fits
  · rw [same, fits]
    exact contained_enter_iff bounded contained tagged
  · rw [same]
    exact iff_of_true (contained.leave stack) fits

def start (input : Bytes) (limited : Bool) (remaining : Nat) : Session where
  reader := { input, limited, remaining }

theorem bounded_start (input : Bytes) (limited : Bool) (remaining : Nat) :
    (start input limited remaining).Bounded :=
  ⟨Reader.sized_of_eq_none rfl, by simp [start], by simp [start]⟩

theorem contained_start (input : Bytes) (limited : Bool) (remaining : Nat) :
    (start input limited remaining).Contained :=
  ⟨trivial, by simp [start]⟩

theorem bounded_run (bounded : session.Bounded) (ops : List Op) : (session.run ops).Bounded := by
  induction ops generalizing session with
  | nil => exact bounded
  | cons op _ ih => exact ih (bounded_step bounded op)

theorem run_concat (session : Session) (ops : List Op) (op : Op) :
    session.run (ops ++ [op]) = (session.run ops).step op := by
  simp [run]

/-- For every input, limit and sequence of operations, the lists are nested as declared exactly
if every list that is opened inside of another fits into what is left of it. -/
theorem run_contained_iff (input : Bytes) (limited : Bool) (remaining : Nat) (ops : List Op) :
    (∀ front, front <+: ops → ((start input limited remaining).run front).Contained) ↔
      ∀ front op, front ++ [op] <+: ops → ((start input limited remaining).run front).Fits op := by
  constructor
  · intro all front op shorter
    have bounded := bounded_run (bounded_start input limited remaining) front
    have contained := all front ((List.prefix_append front [op]).trans shorter)
    have next := all (front ++ [op]) shorter
    rw [run_concat] at next
    exact (contained_step_iff bounded contained op).mp next
  · intro fits front
    induction front using List.reverseRecOn with
    | nil =>
      intro _
      exact contained_start input limited remaining
    | append_singleton front op ih =>
      intro shorter
      have bounded := bounded_run (bounded_start input limited remaining) front
      have contained := ih ((List.prefix_append front [op]).trans shorter)
      rw [run_concat]
      exact (contained_step_iff bounded contained op).mpr (fits front op shorter)

/-- A list whose one byte is the header of another list of one byte: `2 ^ 64 - 1` bytes are left
of the outer one, and the byte that is read lies behind its end. -/
theorem inner_list_overruns :
    let session := (start [0xc1, 0xc1, 0x05] true 3).run [.list, .list]
    session.reader.stack = [1, 2 ^ 64 - 1] ∧ session.opened.map OpenList.declared = [1, 1] ∧
      (Reader.bytes session.reader).1 = .ok [0x05] ∧
      (session.step .bytes).position = 3 ∧
      (session.step .bytes).opened.map OpenList.ending = [3, 2] := by
  decide

end Session

end Rlp

end Octopus
