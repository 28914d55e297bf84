import Octopus.Rlp.Buffer
import Octopus.Rlp.Numbers

/-!
# The outputs of the encoder buffer

Three consumers put the headers in: `makeBytes`, `writeTo`, and a reader that stops in the
middle of a piece when its slice is full.  What the reader has still to deliver is what
`copyTo` would copy from its place on.
-/

namespace Octopus.Rlp

open List EncBuffer

inductive Scalar where
  | bytes (content : Bytes)
  | uint64 (number : BitVec 64)
  | bigInt (number : Nat)

inductive Write where
  | scalar (value : Scalar)
  | list
  | listEnd

namespace EncBuffer

def writeScalar (buffer : EncBuffer) : Scalar → EncBuffer
  | .bytes content => buffer.write content
  | .uint64 number => { buffer with str := buffer.str ++ writeUint64 number.toNat }
  | .bigInt number => { buffer with str := buffer.str ++ writeBigInt number }

/-- One call; the caller keeps the indices of the lists that are not ended. -/
def perform : EncBuffer × List Nat → Write → EncBuffer × List Nat
  | (buffer, indices), .scalar value => (buffer.writeScalar value, indices)
  | (buffer, indices), .list => (buffer.openList.1, buffer.openList.2 :: indices)
  | (buffer, index :: indices), .listEnd => (buffer.listEnd index, indices)
  | (buffer, []), .listEnd => (buffer, [])

def writeFrom (str : Bytes) (strpos : Nat) : List ListHead → Bytes
  | [] => if strpos < str.length then str.drop strpos else []
  | head :: heads =>
    if strpos < head.offset then
      (str.drop strpos).take (head.offset - strpos) ++ head.encode ++
        writeFrom str head.offset heads
    else head.encode ++ writeFrom str strpos heads

def writeTo (buffer : EncBuffer) : Bytes :=
  writeFrom buffer.str 0 buffer.lheads

end EncBuffer

/-- `encReader`; no piece is empty, so that the empty one stands for `nil`. -/
structure EncReader where
  buf : Option EncBuffer
  lhpos : Nat := 0
  strpos : Nat := 0
  piece : Bytes := []

namespace EncReader

def next (reader : EncReader) : Bytes × EncReader :=
  match reader.buf, reader.piece with
  | none, _ => ([], reader)
  | some _, byte :: rest => (byte :: rest, reader)
  | some buffer, [] =>
    match buffer.lheads.drop reader.lhpos with
    | head :: _ =>
      if reader.strpos < head.offset then
        ((buffer.str.drop reader.strpos).take (head.offset - reader.strpos),
          { reader with strpos := head.offset })
      else (head.encode, { reader with lhpos := reader.lhpos + 1 })
    | [] =>
      if reader.strpos < buffer.str.length then
        (buffer.str.drop reader.strpos, { reader with strpos := buffer.str.length })
      else ([], reader)

/-- `Read` into a slice with the given room: what it copies, and whether it
reports the end. -/
def read (reader : EncReader) (room : Nat) : Bytes × Bool × EncReader :=
  match reader.next with
  | ([], later) => ([], true, { later with buf := none, piece := [] })
  | (byte :: rest, later) =>
    if room < rest.length + 1 then
      ((byte :: rest).take room, false, { later with piece := (byte :: rest).drop room })
    else
      let (copied, ended, last) := read { later with piece := [] } (room - (rest.length + 1))
      (byte :: rest ++ copied, ended, last)
termination_by room

def drain : EncReader → List Nat → Bytes × Bool
  | _, [] => ([], false)
  | reader, size :: sizes =>
    let (copied, ended, later) := reader.read size
    if ended then (copied, true)
    else
      let (rest, ended) := drain later sizes
      (copied ++ rest, ended)

end EncReader

def Scalar.content : Scalar → Bytes
  | bytes content => content
  | uint64 number => digits number.toNat
  | bigInt number => digits number

/-- A well-nested sequence of writes, with the values it spells. -/
inductive Written : List Write → List Item → Prop where
  | nil : Written [] []
  | scalar (value : Scalar) {writes : List Write} {items : List Item}
      (later : Written writes items) :
      Written (.scalar value :: writes) (.bytes value.content :: items)
  | list {inner writes : List Write} {nested items : List Item} (within : Written inner nested)
      (later : Written writes items) :
      Written (.list :: inner ++ .listEnd :: writes) (.list nested :: items)

theorem writeScalar_eq_add (buf : EncBuffer) (value : Scalar) :
    buf.writeScalar value = buf.add (writeBytes value.content) [] := by
  cases value with
  | bytes text => simp [writeScalar, write, add, Scalar.content, headSizes]
  | uint64 num =>
    simp [writeScalar, add, Scalar.content, headSizes, writeUint64_eq num.isLt]
  | bigInt num => simp [writeScalar, add, Scalar.content, headSizes, writeBigInt_eq]

theorem Written.lays {writes : List Write} {items : List Item} (written : Written writes items)
    (buf : EncBuffer) (indices : List Nat) :
    ∃ strings heads, writes.foldl perform (buf, indices) = (buf.add strings heads, indices) ∧
      Lays buf.str.length strings heads (Item.payload items) := by
  induction written generalizing buf indices with
  | nil => exact ⟨[], [], by simp [add, headSizes], .text _ []⟩
  | scalar value _ ih =>
    rcases ih (buf.add (writeBytes value.content) []) indices with ⟨strings, heads, ran, lays⟩
    refine ⟨writeBytes value.content ++ strings, heads, ?_, ?_⟩
    · rw [foldl_cons, perform, writeScalar_eq_add, ran, add_add, nil_append]
    · rw [Item.payload, Item.rlp]
      exact (Lays.text buf.str.length _).append (by simpa [add] using lays)
  | list _ _ ihInner ih =>
    rcases ihInner buf.openList.1 (buf.openList.2 :: indices) with ⟨strings, heads, ran, inner⟩
    rcases ih (buf.add strings (⟨buf.str.length, strings.length + headSizes heads⟩ :: heads))
      indices with ⟨others, more, ranLater, later⟩
    refine ⟨strings ++ others, ⟨buf.str.length, strings.length + headSizes heads⟩ :: heads ++ more,
      ?_, ?_⟩
    · rw [cons_append, foldl_cons, foldl_append, perform, ran, foldl_cons, perform, listEnd_add,
        ranLater, add_add]
    · rw [Item.payload, Item.rlp, inner.length]
      exact inner.list.append (by simpa [add, openList] using later)

theorem Placed.tail {low high : Nat} {head : ListHead} {heads : List ListHead}
    (placed : Placed low high (head :: heads)) : Placed head.offset high heads where
  within later mem := ⟨rel_of_pairwise_cons placed.ascending mem,
    (placed.within later (mem_cons_of_mem _ mem)).2⟩
  ascending := placed.ascending.of_cons

theorem writeFrom_eq {str : Bytes} {strpos : Nat} {heads : List ListHead}
    (placed : Placed strpos str.length heads) :
    writeFrom str strpos heads = copyFrom str strpos heads := by
  induction heads generalizing strpos with
  | nil =>
    rw [writeFrom, copyFrom]
    split_ifs with more
    · rfl
    · rw [drop_eq_nil_of_le (Nat.not_lt.mp more)]
  | cons head heads ih =>
    rw [writeFrom, copyFrom]
    split_ifs with before
    · rw [ih placed.tail]
    · have here := placed.within head mem_cons_self
      have same : strpos = head.offset := by omega
      subst same
      simp [ih placed.tail]

namespace EncReader

inductive Holds : EncReader → Bytes → Prop where
  | done (lhpos strpos : Nat) (piece : Bytes) : Holds ⟨none, lhpos, strpos, piece⟩ []
  | left {buffer : EncBuffer} {lhpos strpos : Nat} {heads : List ListHead} (piece : Bytes)
      (drops : buffer.lheads.drop lhpos = heads) (placed : Placed strpos buffer.str.length heads) :
      Holds ⟨some buffer, lhpos, strpos, piece⟩ (piece ++ copyFrom buffer.str strpos heads)

variable {reader : EncReader} {bytes : Bytes}

theorem Holds.next (holds : Holds reader bytes) :
    reader.next.1 = [] ∧ bytes = [] ∨ ∃ rest, reader.next.1 ≠ [] ∧ bytes = reader.next.1 ++ rest ∧
      ∀ kept, Holds { reader.next.2 with piece := kept } (kept ++ rest) := by
  rcases holds with _ | @⟨buf, lhpos, strpos, heads, _ | ⟨byte, piece⟩, drops, placed⟩
  · exact .inl ⟨rfl, rfl⟩
  · cases heads with
    | nil =>
      simp only [EncReader.next, drops]
      split_ifs with more
      · exact .inr ⟨copyFrom buf.str buf.str.length [], by simpa using more, by simp [copyFrom],
          fun kept => .left kept drops ⟨by simp, .nil⟩⟩
      · exact .inl ⟨rfl, by simpa [copyFrom] using more⟩
    | cons head heads =>
      have here := placed.within head mem_cons_self
      simp only [EncReader.next, drops]
      split_ifs with more
      · refine .inr ⟨copyFrom buf.str head.offset (head :: heads), ?_, by simp [copyFrom],
          fun kept => .left kept drops ?_⟩
        · rw [← length_pos_iff, length_take, length_drop]
          omega
        · exact ⟨forall_mem_cons.mpr ⟨⟨le_rfl, here.2⟩, placed.tail.within⟩, placed.ascending⟩
      · have same : strpos = head.offset := by omega
        subst same
        refine .inr ⟨copyFrom buf.str head.offset heads, ?_, by simp [copyFrom],
          fun kept => .left kept ?_ placed.tail⟩
        · rw [ListHead.encode, puthead]
          split <;> simp
        · rw [← tail_drop, drops, tail_cons]
  · exact .inr ⟨_, by simp [EncReader.next], rfl, fun kept => .left kept drops placed⟩

theorem Holds.read (holds : Holds reader bytes) (room : Nat) :
    ∃ later, reader.read room = (bytes.take room, decide (bytes.length ≤ room), later) ∧
      Holds later (bytes.drop room) := by
  induction room using Nat.strong_induction_on generalizing reader bytes with
  | _ room ih =>
    have cases := holds.next
    rw [EncReader.read]
    generalize reader.next = found at cases ⊢
    rcases found with ⟨_ | ⟨byte, piece⟩, later⟩
    · rcases cases with ⟨-, rfl⟩ | ⟨_, nonempty, -⟩
      · exact ⟨_, by simp; rfl, by simpa using .done ..⟩
      · exact absurd rfl nonempty
    rcases cases with ⟨⟨⟩, -⟩ | ⟨rest, -, rfl, after⟩
    dsimp only
    split_ifs with short
    · have split := after ((byte :: piece).drop room)
      rw [← drop_append_of_le_length (by simp; omega)] at split
      refine ⟨_, ?_, split⟩
      rw [take_append_of_le_length (by simp; omega)]
      simp
      omega
    · rcases ih (room - (piece.length + 1)) (by omega) (after []) with ⟨last, ran, left⟩
      have whole : (byte :: piece).length ≤ room := by simpa using short
      refine ⟨last, ?_, ?_⟩
      · rw [ran, nil_append, take_append, take_of_length_le whole]
        simp
        omega
      · rw [drop_append, drop_eq_nil_of_le whole]
        exact left

theorem Holds.drain (holds : Holds reader bytes) (sizes : List Nat) :
    reader.drain sizes =
      (bytes.take sizes.sum, decide (sizes ≠ [] ∧ bytes.length ≤ sizes.sum)) := by
  induction sizes generalizing reader bytes with
  | nil => simp [EncReader.drain]
  | cons size sizes ih =>
    rcases holds.read size with ⟨later, ran, left⟩
    simp only [EncReader.drain, ran, ih left]
    by_cases ended : bytes.length ≤ size
    · simp [ended]
      omega
    · rcases sizes with _ | _
      · simp [ended]
      · simp [ended, take_add, Nat.add_comm]

end EncReader

/-- All consumers of a buffer produce the same bytes, the reader for slices of any sizes. -/
structure EncBuffer.Outputs (buffer : EncBuffer) (bytes : Bytes) : Prop where
  placed : Placed 0 buffer.str.length buffer.lheads
  size : buffer.size = bytes.length
  makeBytes : buffer.makeBytes = bytes
  writeTo : buffer.writeTo = bytes
  drain : ∀ sizes, EncReader.drain { buf := some buffer } sizes =
    (bytes.take sizes.sum, decide (sizes ≠ [] ∧ bytes.length ≤ sizes.sum))

/-- After every well-nested sequence of writes, all outputs are the encoding of the values. -/
theorem written_outputs {writes : List Write} {items : List Item}
    (written : Written writes items) :
    ∃ buffer, writes.foldl perform ({}, []) = (buffer, []) ∧
      buffer.Outputs (Item.payload items) := by
  rcases written.lays {} [] with ⟨strings, heads, ran, lays⟩
  rcases lays.makeBytes with ⟨size, copied, made⟩
  have placed : Placed 0 strings.length heads := by simpa using lays.toPlaced
  refine ⟨_, ran, placed, size, made, ?_, ?_⟩
  · exact (writeFrom_eq placed).trans copied
  · intro sizes
    rw [← copied]
    exact EncReader.Holds.drain (.left [] rfl placed) sizes

theorem nested_list_outputs : ∃ buffer,
    [.list, .scalar (.uint64 5), .list, .listEnd, .listEnd].foldl perform ({}, []) = (buffer, []) ∧
      buffer.Outputs (Item.payload [.list [.bytes (digits 5), .list []]]) :=
  written_outputs (.list (.scalar (.uint64 5) (.list .nil .nil)) .nil)

end Octopus.Rlp
