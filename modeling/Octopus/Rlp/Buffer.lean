import Octopus.Rlp.Decode

/-!
# The encoder buffer

The headers of lists are kept apart from the strings, each with its place among them, and
put in at the end.  The result is the encoding that is defined from the inside out.
-/

namespace Octopus

open List

namespace Rlp

/-- A value of type `[]byte` or `[]interface{}`. -/
inductive Item where
  | bytes (content : Bytes)
  | list (items : List Item)

namespace Item

mutual

/-- The encoding of a value, with the header of a list before its payload. -/
def rlp : Item → Bytes
  | bytes content => writeBytes content
  | list items => Rlp.list (payload items)

def payload : List Item → Bytes
  | [] => []
  | item :: items => item.rlp ++ payload items

end

theorem payload_eq_flatMap (items : List Item) : payload items = items.flatMap rlp := by
  induction items with
  | nil => simp [payload]
  | cons _ _ ih => simp [payload, ih]

end Item

structure ListHead where
  offset : Nat
  size : Nat

def ListHead.encode (head : ListHead) : Bytes :=
  puthead 0xc0 0xf7 head.size

def headsize (size : Nat) : Nat :=
  if size < 56 then 1 else 1 + intsize size

structure EncBuffer where
  str : Bytes := []
  lheads : List ListHead := []
  lhsize : Nat := 0

open EncBuffer

namespace EncBuffer

def size (buffer : EncBuffer) : Nat :=
  buffer.str.length + buffer.lhsize

def write (buffer : EncBuffer) (content : Bytes) : EncBuffer :=
  { buffer with str := buffer.str ++ writeBytes content }

def openList (buffer : EncBuffer) : EncBuffer × Nat :=
  ({ buffer with lheads := buffer.lheads ++ [⟨buffer.str.length, buffer.lhsize⟩] },
    buffer.lheads.length)

def listEnd (buffer : EncBuffer) (index : Nat) : EncBuffer :=
  match buffer.lheads[index]? with
  | none => buffer
  | some head =>
    let size := buffer.size - head.offset - head.size
    { buffer with
      lheads := buffer.lheads.set index { head with size }
      lhsize := buffer.lhsize + headsize size }

mutual

def encode (buffer : EncBuffer) : Item → EncBuffer
  | .bytes content => buffer.write content
  | .list items =>
    match items with
    | [] => { buffer with str := buffer.str ++ [0xc0] }
    | item :: items =>
      let (opened, index) := buffer.openList
      listEnd (encodeAll (encode opened item) items) index

def encodeAll (buffer : EncBuffer) : List Item → EncBuffer
  | [] => buffer
  | item :: items => encodeAll (encode buffer item) items

end

def copyFrom (str : Bytes) (strpos : Nat) : List ListHead → Bytes
  | [] => str.drop strpos
  | head :: heads =>
    (str.drop strpos).take (head.offset - strpos) ++ head.encode ++
      copyFrom str head.offset heads

def makeBytes (buffer : EncBuffer) : Bytes :=
  (copyFrom buffer.str 0 buffer.lheads ++ List.replicate buffer.size 0).take buffer.size

end EncBuffer

def encodeItem (item : Item) : Bytes :=
  (encode {} item).makeBytes

namespace Item

mutual

def strings : Item → Bytes
  | bytes content => writeBytes content
  | list [] => [0xc0]
  | list (item :: items) => item.strings ++ stringsAll items

def stringsAll : List Item → Bytes
  | [] => []
  | item :: items => item.strings ++ stringsAll items

end

mutual

def heads (base : Nat) : Item → List ListHead
  | bytes _ => []
  | list [] => []
  | list (item :: items) =>
    ⟨base, (payload (item :: items)).length⟩ ::
      (item.heads base ++ headsAll (base + item.strings.length) items)

def headsAll (base : Nat) : List Item → List ListHead
  | [] => []
  | item :: items => item.heads base ++ headsAll (base + item.strings.length) items

end

variable {items : List Item} (nonempty : items ≠ [])
include nonempty

theorem heads_list {base : Nat} :
    (list items).heads base = ⟨base, (payload items).length⟩ :: headsAll base items := by
  cases items with
  | nil => exact absurd rfl nonempty
  | cons => simp [heads, headsAll]

theorem strings_list : (list items).strings = stringsAll items := by
  cases items with
  | nil => exact absurd rfl nonempty
  | cons => simp [strings, stringsAll]

end Item

def headSizes (heads : List ListHead) : Nat :=
  (heads.map fun head => headsize head.size).sum

theorem headSizes_append (first second : List ListHead) :
    headSizes (first ++ second) = headSizes first + headSizes second := by
  simp [headSizes]

theorem length_puthead (smalltag largetag : Byte) (size : Nat) :
    (puthead smalltag largetag size).length = headsize size := by
  rw [puthead, headsize]
  split_ifs
  · rfl
  · simp only [length_cons, putint, length_bigEndian]
    omega

def EncBuffer.add (buffer : EncBuffer) (strings : Bytes) (heads : List ListHead) : EncBuffer where
  str := buffer.str ++ strings
  lheads := buffer.lheads ++ heads
  lhsize := buffer.lhsize + headSizes heads

theorem EncBuffer.add_add (buf : EncBuffer) (strings others : Bytes)
    (heads more : List ListHead) : (buf.add strings heads).add others more =
      buf.add (strings ++ others) (heads ++ more) := by
  simp [add, headSizes_append, Nat.add_assoc]

theorem EncBuffer.listEnd_add (buf : EncBuffer) (strings : Bytes) (heads : List ListHead) :
    listEnd (buf.openList.1.add strings heads) buf.openList.2 =
      buf.add strings (⟨buf.str.length, strings.length + headSizes heads⟩ :: heads) := by
  have found : (buf.openList.1.add strings heads).lheads[buf.lheads.length]? =
      some ⟨buf.str.length, buf.lhsize⟩ := by
    simp [openList, add]
  have size : (buf.openList.1.add strings heads).size - buf.str.length - buf.lhsize =
      strings.length + headSizes heads := by
    simp only [openList, add, size, length_append]
    omega
  have placed : (buf.openList.1.add strings heads).lheads.set buf.lheads.length
      ⟨buf.str.length, strings.length + headSizes heads⟩ =
        buf.lheads ++ ⟨buf.str.length, strings.length + headSizes heads⟩ :: heads := by
    simp [openList, add]
  rw [listEnd]
  simp only [openList] at found size placed ⊢
  simp only [found, size, placed]
  simp only [add, headSizes, map_cons, sum_cons, mk.injEq, true_and]
  omega

def StartsAt (place : Nat) (heads : List ListHead) : Prop :=
  ∀ head ∈ heads, place ≤ head.offset

theorem copyFrom_append {front strings rest : Bytes} {heads : List ListHead}
    (place : StartsAt (front ++ strings).length heads) :
    copyFrom (front ++ strings ++ rest) front.length heads =
      strings ++ copyFrom (front ++ strings ++ rest) (front ++ strings).length heads := by
  have later : (front ++ strings ++ rest).drop front.length = strings ++ rest := by
    rw [append_assoc, drop_left]
  cases heads with
  | nil => rw [copyFrom, copyFrom, later, drop_left]
  | cons head _ =>
    have far := place head (by simp)
    rw [length_append] at far
    have split : head.offset - front.length =
        strings.length + (head.offset - (front ++ strings).length) := by
      rw [length_append]
      omega
    rw [copyFrom, copyFrom, later, drop_left, split, take_length_add_append]
    simp

/-- The headers between two places can be put in one after the other. -/
structure Placed (low high : Nat) (heads : List ListHead) : Prop where
  within : ∀ head ∈ heads, low ≤ head.offset ∧ head.offset ≤ high
  ascending : heads.Pairwise fun first second => first.offset ≤ second.offset

structure Lays (base : Nat) (strings : Bytes) (heads : List ListHead) (output : Bytes) : Prop
    extends Placed base (base + strings.length) heads where
  length : strings.length + headSizes heads = output.length
  copied : ∀ front rest more, front.length = base → StartsAt (front ++ strings).length more →
    copyFrom (front ++ strings ++ rest) base (heads ++ more) =
      output ++ copyFrom (front ++ strings ++ rest) (front ++ strings).length more

namespace Lays

theorem text (base : Nat) (strings : Bytes) : Lays base strings [] strings where
  within := by simp
  ascending := .nil
  length := rfl
  copied := by
    rintro front rest more rfl place
    exact copyFrom_append place

variable {base : Nat} {strings others output rest : Bytes} {heads more : List ListHead}

theorem append (first : Lays base strings heads output)
    (second : Lays (base + strings.length) others more rest) :
    Lays base (strings ++ others) (heads ++ more) (output ++ rest) where
  within := by
    intro head mem
    rw [length_append]
    rcases mem_append.mp mem with here | later
    · have placed := first.within head here
      omega
    · have placed := second.within head later
      omega
  ascending := pairwise_append.mpr ⟨first.ascending, second.ascending,
    fun head here later there => (first.within head here).2.trans (second.within later there).1⟩
  length := by
    rw [length_append, length_append, headSizes_append, ← first.length, ← second.length]
    omega
  copied := by
    rintro front tail last rfl place
    have next : StartsAt (front ++ strings).length (more ++ last) := by
      intro head mem
      rcases mem_append.mp mem with here | later
      · exact length_append ▸ (second.within head here).1
      · have far := place head later
        simp only [length_append] at far ⊢
        omega
    have one := first.copied front (others ++ tail) _ rfl next
    have two := second.copied (front ++ strings) tail last length_append (by
      simpa using place)
    simp only [append_assoc, length_append] at one two ⊢
    rw [one, two]

theorem list (inner : Lays base strings heads output) :
    Lays base strings (⟨base, output.length⟩ :: heads) (Rlp.list output) where
  within := forall_mem_cons.mpr ⟨⟨Nat.le_refl _, Nat.le_add_right ..⟩, inner.within⟩
  ascending := pairwise_cons.mpr ⟨fun head mem => (inner.within head mem).1, inner.ascending⟩
  length := by
    have sizes := inner.length
    rw [Rlp.list, length_append, length_puthead]
    simp only [headSizes, map_cons, sum_cons] at sizes ⊢
    omega
  copied := by
    rintro front tail last rfl place
    rw [cons_append, copyFrom, inner.copied front tail last rfl place, Rlp.list]
    simp [ListHead.encode]

end Lays

mutual

theorem lays_item (base : Nat) (item : Item) :
    Lays base item.strings (item.heads base) item.rlp := by
  match item with
  | .bytes text => exact .text base _
  | .list [] => exact .text base _
  | .list (first :: items) =>
    exact (lays_items base (first :: items)).list

theorem lays_items (base : Nat) (items : List Item) :
    Lays base (Item.stringsAll items) (Item.headsAll base items) (Item.payload items) := by
  match items with
  | [] => exact .text base []
  | item :: items =>
    rw [Item.stringsAll, Item.headsAll, Item.payload]
    exact (lays_item base item).append (lays_items _ items)

end

mutual

theorem encode_eq_add (buf : EncBuffer) (item : Item) :
    buf.encode item = buf.add item.strings (item.heads buf.str.length) := by
  match item with
  | .bytes text => simp [encode, write, add, Item.strings, Item.heads, headSizes]
  | .list [] => simp [encode, add, Item.strings, Item.heads, headSizes]
  | .list (first :: items) =>
    have inner := encodeAll_eq_add (buf.openList.1.encode first) items
    have start : buf.openList.1.str = buf.str := rfl
    rw [encode_eq_add buf.openList.1 first, add_add] at inner
    rw [Item.heads_list (by simp), Item.strings_list (by simp),
      ← (lays_items buf.str.length (first :: items)).length, ← listEnd_add]
    rw [encode]
    simp only
    rw [encode_eq_add buf.openList.1 first, inner]
    simp [Item.stringsAll, Item.headsAll, add, start]

theorem encodeAll_eq_add (buf : EncBuffer) (items : List Item) :
    buf.encodeAll items = buf.add (Item.stringsAll items) (Item.headsAll buf.str.length items) := by
  match items with
  | [] => simp [encodeAll, add, Item.stringsAll, Item.headsAll, headSizes]
  | item :: items =>
    rw [encodeAll, encode_eq_add buf item, encodeAll_eq_add _ items, add_add]
    simp [Item.stringsAll, Item.headsAll, add]

end

theorem Lays.makeBytes {strings output : Bytes} {heads : List ListHead}
    (lays : Lays 0 strings heads output) : (add {} strings heads).size = output.length ∧
      copyFrom strings 0 heads = output ∧ (add {} strings heads).makeBytes = output := by
  have whole := lays.copied [] [] [] rfl (by simp [StartsAt])
  have size : (add {} strings heads).size = output.length := by
    simpa [add, EncBuffer.size] using lays.length
  simp only [nil_append, append_nil, copyFrom, drop_length] at whole
  refine ⟨size, whole, ?_⟩
  rw [EncBuffer.makeBytes, size]
  simp only [add, nil_append, whole]
  exact take_left

theorem encodeItem_eq (item : Item) : encodeItem item = item.rlp := by
  rw [encodeItem, encode_eq_add]
  exact (lays_item 0 item).makeBytes.2.2

end Rlp

end Octopus
