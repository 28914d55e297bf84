import Octopus.Rlp.Buffer
import Octopus.Rlp.SliceReader

/-!
# Decoding into an interface

`DecodeBytes` of strings and lists nested to any depth.  The decoder runs on the stream
with its stack of lists, where what is left of a list may wrap around, and still accepts
exactly the encodings.
-/

namespace Octopus

open List

variable {mid src : Reader} {size fuel : Nat} {item : Item} {items : List Item} {Value : Type}
  {elems : Reader → Except StreamError (List Value) × Reader} {isKind : Kind} {rest : Bytes}

namespace Rlp

def decodeListSlice {Value : Type} (elems : Reader → Except StreamError (List Value) × Reader)
    (reader : Reader) : Except StreamError (List Value) × Reader :=
  match reader.list with
  | (.error error, reader) => (.error error, reader)
  | (.ok size, reader) =>
    if size = 0 then
      match reader.listEnd with
      | (.error error, reader) => (.error error, reader)
      | (.ok (), reader) => (.ok [], reader)
    else
      match elems reader with
      | (.error error, reader) => (.error error, reader)
      | (.ok values, reader) =>
        match reader.listEnd with
        | (.error error, reader) => (.error error, reader)
        | (.ok (), reader) => (.ok values, reader)

def decodeString (reader : Reader) : Except StreamError Item × Reader :=
  match reader.bytes with
  | (.error error, reader) => (.error error, reader)
  | (.ok content, reader) => (.ok (.bytes content), reader)

mutual

/-- `decodeInterface`.  The fuel bounds the depth of the recursion and the rounds
of the loops. -/
def decodeInterface (fuel : Nat) (reader : Reader) : Except StreamError Item × Reader :=
  match fuel with
  | 0 => (.error .outOfFuel, reader)
  | fuel + 1 =>
    match reader.kind with
    | (.error error, reader) => (.error error, reader)
    | (.ok (.list, _), reader) =>
      match decodeListSlice (decodeSliceElems fuel) reader with
      | (.error error, reader) => (.error error, reader)
      | (.ok items, reader) => (.ok (.list items), reader)
    | (.ok _, reader) => decodeString reader

def decodeSliceElems (fuel : Nat) (reader : Reader) : Except StreamError (List Item) × Reader :=
  match fuel with
  | 0 => (.error .outOfFuel, reader)
  | fuel + 1 =>
    match decodeInterface fuel reader with
    | (.error .eol, reader) => (.ok [], reader)
    | (.error error, reader) => (.error error, reader)
    | (.ok item, reader) =>
      match decodeSliceElems fuel reader with
      | (.error error, reader) => (.error error, reader)
      | (.ok items, reader) => (.ok (item :: items), reader)

end

def decodeItemWith (fuel : Nat) (bytes : Bytes) : Except StreamError Item :=
  match decodeInterface fuel (Reader.ofBytes bytes) with
  | (.error error, _) => .error error
  | (.ok item, reader) => if reader.input ≠ [] then .error .moreThanOneValue else .ok item

/-- `DecodeBytes` into an interface; every round of a loop reads a value or ends the loop. -/
def decodeItem (bytes : Bytes) : Except StreamError Item :=
  decodeItemWith (2 * bytes.length + 1) bytes

namespace Reader

variable {src new : Reader}

theorem consumed_of_decodeString (between : src.Between)
    (tagged : kind src = (.ok (isKind, size), mid)) (notList : isKind ≠ .list)
    (decoded : decodeString mid = (.ok item, new)) : Consumed src new item.rlp := by
  have again := kind_again between tagged
  rcases kind_eq_ok between.isExact between.rearmed tagged with
    ⟨count, byteval, room, isMiddle, -, ⟨rfl, single, spelled⟩ | ⟨several, -⟩⟩
  · simp only [decodeString, bytes, again] at decoded
    cases decoded
    have isRest : mid.input = src.input.drop count := by rw [isMiddle]; rfl
    have text : src.input.take count = [byteval] :=
      take_eq_of_append spelled isRest
    have consumed := consumed_skip between room byteval
    have encoded : (Item.bytes [mid.byteval]).rlp = [byteval] := by
      rw [isMiddle]
      simp only [Item.rlp, writeBytes]
      rw [if_pos (by omega)]
    rw [text] at consumed
    rw [encoded, isMiddle]
    exact consumed
  · have isString : isKind = .string := by
      cases isKind with
      | byte => exact absurd rfl several
      | string => rfl
      | list => exact absurd rfl notList
    subst isString
    simp only [decodeString, bytes, again] at decoded
    split_ifs at decoded with huge
    · simp at decoded
    rcases full : readFull size mid with ⟨_ | _, _⟩
    · simp [full] at decoded
    simp only [full] at decoded
    split_ifs at decoded with short
    · simp at decoded
    cases decoded
    rcases consumed_of_readFull between tagged several full with ⟨length, consumed⟩
    rw [Item.rlp, Stream.writeBytes_of_not_shortForm (by simpa using short), length]
    exact consumed

theorem consumed_of_decodeListSlice (between : src.Between) {values : List Value}
    {payload : List Value → Bytes} {Good : List Value → Prop} (empty : payload [] = [] ∧ Good [])
    (tagged : kind src = (.ok (.list, size), mid))
    (elements : ∀ inner last values, inner.Between → elems inner = (.ok values, last) →
      Consumed inner last (payload values) ∧ Good values)
    (decoded : decodeListSlice elems mid = (.ok values, new)) :
    Consumed src new (Rlp.list (payload values)) ∧ Good values := by
  have inner := (between_list between tagged).1
  have again := kind_again between tagged
  simp only [decodeListSlice, list, again, ne_eq, not_true_eq_false, if_false] at decoded
  split_ifs at decoded with nothing
  · rcases ended : listEnd { mid with stack := size :: reserve size mid.stack, ahead := none }
      with ⟨error | _, final⟩
    · simp [ended] at decoded
    simp only [ended] at decoded
    cases decoded
    rcases listEnd_eq_ok ended with ⟨outer, stack, rfl⟩
    refine ⟨consumed_of_list between tagged ⟨?_, inner.isExact, rfl, ?_⟩ stack, empty.2⟩
    · simp [empty]
    have same : reserve 0 (size :: reserve size mid.stack) = size :: reserve size mid.stack := by
      simp only [reserve, cons.injEq, and_true]
      omega
    simpa [empty] using same.symm
  · rcases ran : elems { mid with stack := size :: reserve size mid.stack, ahead := none }
      with ⟨error | found, last⟩
    · simp [ran] at decoded
    simp only [ran] at decoded
    rcases ended : listEnd last with ⟨error | _, final⟩
    · simp [ended] at decoded
    · simp only [ended] at decoded
      cases decoded
      rcases listEnd_eq_ok ended with ⟨outer, stack, rfl⟩
      have consumed := elements _ last _ inner ran
      exact ⟨consumed_of_list between tagged consumed.1 stack, consumed.2⟩

theorem decodeString_ne_eol (again : kind mid = (.ok (isKind, size), mid)) :
    (decodeString mid).1 ≠ .error .eol := by
  have full := readFull_ne_eol size mid
  cases isKind with
  | byte | list => simp [decodeString, bytes, again]
  | string =>
    simp only [decodeString, bytes, again]
    split_ifs
    · simp
    · rcases read : readFull size mid with ⟨error | _, _⟩
      · simp_all
      · simp only
        split_ifs <;> simp

theorem decodeListSlice_ne_eol (again : kind mid = (.ok (.list, size), mid))
    (elements : ∀ inner, (elems inner).1 ≠ .error .eol) :
    (decodeListSlice elems mid).1 ≠ .error .eol := by
  simp only [decodeListSlice, list, again, ne_eq, not_true_eq_false, if_false]
  split_ifs
  · have ended := listEnd_ne_eol
      { mid with stack := size :: reserve size mid.stack, ahead := none }
    split <;> simp_all
  · have ran := elements { mid with stack := size :: reserve size mid.stack, ahead := none }
    split
    · simp_all
    · next items last _ =>
      have ended := listEnd_ne_eol last
      split <;> simp_all

end Reader

theorem decodeSliceElems_ne_eol (fuel : Nat) (src : Reader) :
    (decodeSliceElems fuel src).1 ≠ .error .eol := by
  induction fuel generalizing src with
  | zero => simp [decodeSliceElems]
  | succ _ ih =>
    rw [decodeSliceElems]
    split
    · simp
    · simp_all
    · next item new _ =>
      have rest := ih new
      split <;> simp_all

theorem eq_of_decodeInterface_eol {new : Reader} (between : src.Between)
    (ended : decodeInterface fuel src = (.error .eol, new)) : new = src := by
  cases fuel with
  | zero => simp [decodeInterface] at ended
  | succ fuel =>
    rcases tagged : src.kind with ⟨error | ⟨isKind, _⟩, _⟩
    · simp only [decodeInterface, tagged] at ended
      cases ended
      exact Reader.eq_of_kind_eol between.rearmed tagged
    have again := Reader.kind_again between tagged
    have string := Reader.decodeString_ne_eol again
    cases isKind with
    | byte | string =>
      simp only [decodeInterface, tagged] at ended
      rw [ended] at string
      exact absurd rfl string
    | list =>
      have slice := Reader.decodeListSlice_ne_eol again (decodeSliceElems_ne_eol fuel)
      simp only [decodeInterface, tagged] at ended
      split at ended <;> simp_all

theorem consumed_of_decode (fuel : Nat) :
    (∀ src item new, Reader.Between src →
      decodeInterface fuel src = (.ok item, new) → Reader.Consumed src new item.rlp) ∧
    (∀ src items new, Reader.Between src → decodeSliceElems fuel src = (.ok items, new) →
      Reader.Consumed src new (Item.payload items)) := by
  induction fuel with
  | zero => simp [decodeInterface, decodeSliceElems]
  | succ fuel ih =>
    rcases ih with ⟨single, several⟩
    refine ⟨?_, ?_⟩
    · intro src item new between decoded
      rcases tagged : src.kind with ⟨error | ⟨isKind, _⟩, mid⟩
      · simp [decodeInterface, tagged] at decoded
      cases isKind with
      | byte | string =>
        simp only [decodeInterface, tagged] at decoded
        exact Reader.consumed_of_decodeString between tagged (by simp) decoded
      | list =>
        simp only [decodeInterface, tagged] at decoded
        rcases ran : decodeListSlice (decodeSliceElems fuel) mid with ⟨error | items, last⟩
        · simp [ran] at decoded
        · simp only [ran] at decoded
          cases decoded
          exact (Reader.consumed_of_decodeListSlice between ⟨Item.payload.eq_1, trivial⟩ tagged
            (fun inner last items inside ran => ⟨several inner items last inside ran, trivial⟩)
            ran).1
    · intro src items new between decoded
      rw [decodeSliceElems] at decoded
      split at decoded
      · next mid ended =>
        cases decoded
        rw [eq_of_decodeInterface_eol between ended]
        exact Reader.consumed_nil between
      · simp at decoded
      · next item mid first =>
        have consumed := single src item mid between first
        rcases rest : decodeSliceElems fuel mid with ⟨error | others, last⟩
        · simp [rest] at decoded
        · simp only [rest] at decoded
          cases decoded
          have later := several mid others _ (consumed.between between) rest
          exact consumed.trans between later

theorem eq_rlp_of_decodeItemWith {bytes : Bytes} (short : bytes.length < 2 ^ 63)
    (decoded : decodeItemWith fuel bytes = .ok item) : bytes = item.rlp := by
  rcases ran : decodeInterface fuel (Reader.ofBytes bytes) with ⟨_ | _, new⟩
  · simp [decodeItemWith, ran] at decoded
  simp only [decodeItemWith, ran] at decoded
  split_ifs at decoded with left
  cases decoded
  have consumed := (consumed_of_decode fuel).1 _ _ _ (between_ofBytes short) ran
  have nothing : new.input = [] := by simpa using left
  have input := consumed.input
  rw [nothing, append_nil] at input
  exact input

theorem one_le_headsize (size : Nat) : 1 ≤ headsize size := by
  rw [headsize]
  split_ifs <;> omega

theorem one_le_length_rlp (item : Item) : 1 ≤ item.rlp.length := by
  cases item with
  | bytes content =>
    rw [Item.rlp]
    by_cases short : Stream.shortForm content = true
    · rcases Stream.exists_of_shortForm short with ⟨_, -, -, wrote⟩
      simp [wrote]
    · rw [Stream.writeBytes_of_not_shortForm (by simpa using short), length_append,
        Stream.header, length_puthead]
      have one := one_le_headsize content.length
      omega
  | list items =>
    have one := one_le_headsize (Item.payload items).length
    rw [Item.rlp, list, length_append, length_puthead]
    omega

theorem decodeInterface_bytes {content : Bytes} (between : src.Between)
    (input : src.input = writeBytes content ++ rest) (small : src.input.length ≤ maxAlloc)
    (room : src.Room (writeBytes content).length) (fuel : Nat) :
    ∃ byteval, decodeInterface (fuel + 1) src =
      (.ok (.bytes content), { src.skip (writeBytes content).length with byteval }) := by
  have limit : maxAlloc = 2 ^ 48 := rfl
  by_cases short : Stream.shortForm content = true
  · rcases Stream.exists_of_shortForm short with ⟨byte, rfl, single, wrote⟩
    rw [wrote] at input room ⊢
    have tag : Reader.tagLength byte = 1 := by simp [Reader.tagLength, if_pos single]
    have functional : Stream.readTag byte rest = .ok ⟨.byte, 0, byte, rest⟩ := by
      simp [Stream.readTag, if_pos single]
    have tagged := Reader.kind_of_readTag between.isExact between.rearmed input functional
      (by rw [tag]; exact room)
    rw [tag] at tagged
    refine ⟨byte, ?_⟩
    simp only [decodeInterface, tagged]
    rfl
  · rw [Stream.writeBytes_of_not_shortForm (by simpa using short)] at input room ⊢
    rw [append_assoc] at input
    rw [length_append] at room ⊢
    have fits : content.length ≤ maxAlloc := by
      rw [input, length_append, length_append] at small
      omega
    have tagged := Reader.kind_of_header between.isExact between.rearmed (by simp) (by omega) input
      room
    have again := Reader.kind_again between tagged
    have later : Reader.Exact { src.skip (Stream.header .string content.length).length with
        ahead := some ⟨.string, content.length, none⟩, byteval := 0 } := between.isExact.skipped _
    have full := Reader.readFull_of_room later ⟨room.skip.available, room.skip.within⟩
    have text : ((src.skip (Stream.header .string content.length).length).input.take
        content.length) = content := by
      simp [Reader.skip, input]
    refine ⟨0, ?_⟩
    simp only [decodeInterface, tagged, decodeString, Reader.bytes, again,
      if_neg (show ¬ maxAlloc < content.length by omega), full, text,
      if_neg short, ← Reader.skip_skip]
    rfl

theorem decodeInterface_eol (between : src.Between) (ended : src.stack.head? = some 0)
    (fuel : Nat) : decodeInterface (fuel + 1) src = (.error .eol, src) := by
  simp [decodeInterface, Reader.kind, between.rearmed, if_pos ended]

theorem eq_nil_of_payload (empty : (Item.payload items).length = 0) : items = [] := by
  cases items with
  | nil => rfl
  | cons item _ =>
    have one := one_le_length_rlp item
    rw [Item.payload, length_append] at empty
    omega

theorem decodeInterface_list (between : src.Between)
    (input : src.input = (Item.list items).rlp ++ rest)
    (room : src.Room (Item.list items).rlp.length)
    (elements : ∀ inner : Reader, inner.Between → inner.input = Item.payload items ++ rest →
      inner.stack.head? = some (Item.payload items).length →
      ∃ byteval, decodeSliceElems fuel inner =
        (.ok items, { inner.skip (Item.payload items).length with byteval })) :
    ∃ byteval, decodeInterface (fuel + 1) src =
      (.ok (.list items), { src.skip (Item.list items).rlp.length with byteval }) := by
  have spelled : (Item.list items).rlp =
      Stream.header .list (Item.payload items).length ++ Item.payload items := rfl
  have short := between.short
  rw [spelled, append_assoc] at input
  rw [spelled, length_append] at room ⊢
  generalize isSize : (Item.payload items).length = size at *
  have total := congrArg length input
  rw [length_append, length_append, isSize] at total
  have tagged := Reader.kind_of_header between.isExact between.rearmed (by simp) (by omega) input
    room
  have innerInput : (src.skip (Stream.header .list size).length).input =
      Item.payload items ++ rest := by
    simp [Reader.skip, input]
  rcases Reader.between_list between tagged with ⟨inner, -, consumed⟩
  have limits := (consumed.between between).limits
  generalize (Stream.header .list size).length = length at *
  have again := Reader.kind_again between tagged
  -- the outer list has lost the header and the payload
  have outer : Reader.reserve size (src.skip length).stack =
      Reader.takeOff (length + size) src.stack := by
    rw [← Reader.takeOff_eq_reserve room.skip.within limits]
    exact Reader.takeOff_takeOff length size src.stack
  rcases elements _ inner innerInput rfl with ⟨byteval, decoded⟩
  generalize isNested : Reader.mk _ _ _ (size :: _) _ _ = nested at inner decoded
  have opened : Reader.list { src.skip length with
      ahead := some ⟨.list, size, none⟩, byteval := 0 } = (.ok size, nested) := by
    simp only [Reader.list, again, ne_eq, not_true_eq_false, if_false, ← isNested]
  have closed : ∀ byteval, Reader.listEnd { nested.skip size with byteval := byteval } =
      (.ok (), { src.skip (length + size) with byteval := byteval }) := by
    intro byteval
    have stack : (nested.skip size).stack = 0 :: Reader.takeOff (length + size) src.stack := by
      rw [← outer, ← isNested]
      simp [Reader.skip, Reader.takeOff]
    simp only [Reader.listEnd, stack]
    simp [Reader.skip, Nat.sub_sub, ← isNested]
  by_cases empty : size = 0
  · subst empty isNested
    have isNil := eq_nil_of_payload isSize
    subst isNil
    have ended := closed 0
    refine ⟨0, ?_⟩
    simp only [decodeInterface, tagged, decodeListSlice, opened, if_true]
    simp only [Reader.skip, Reader.takeOff, Nat.sub_zero, drop_zero] at ended ⊢
    rw [ended]
  · refine ⟨byteval, ?_⟩
    simp only [decodeInterface, tagged, decodeListSlice, opened, if_neg empty, decoded,
      closed byteval]

mutual

theorem decodeInterface_rlp (item : Item) {rest : Bytes} {src : Reader}
    (between : src.Between) (input : src.input = item.rlp ++ rest)
    (small : src.input.length ≤ maxAlloc) (room : src.Room item.rlp.length) {fuel : Nat}
    (enough : 2 * item.rlp.length + 1 ≤ fuel) :
    ∃ byteval, decodeInterface fuel src =
      (.ok item, { src.skip item.rlp.length with byteval }) := by
  obtain ⟨fuel, rfl⟩ : ∃ less, fuel = less + 1 := ⟨fuel - 1, by omega⟩
  match item with
  | .bytes content => exact decodeInterface_bytes between input small room fuel
  | .list items =>
    apply decodeInterface_list between input room
    intro inner innerBetween innerInput whole
    have header := one_le_headsize (Item.payload items).length
    have length : (Item.list items).rlp.length =
        headsize (Item.payload items).length + (Item.payload items).length := by
      rw [Item.rlp, list, length_append, length_puthead]
    have shorter : inner.input.length ≤ src.input.length := by
      rw [innerInput, input, length_append, length_append]
      omega
    exact decodeSliceElems_payload items innerBetween innerInput (shorter.trans small) whole
      (by omega)

theorem decodeSliceElems_payload (items : List Item) {rest : Bytes} {src : Reader}
    (between : src.Between) (input : src.input = Item.payload items ++ rest)
    (small : src.input.length ≤ maxAlloc)
    (whole : src.stack.head? = some (Item.payload items).length) {fuel : Nat}
    (enough : 2 * (Item.payload items).length + 2 ≤ fuel) :
    ∃ byteval, decodeSliceElems fuel src =
      (.ok items, { src.skip (Item.payload items).length with byteval }) := by
  obtain ⟨fuel, rfl⟩ : ∃ less, fuel = less + 2 := ⟨fuel - 2, by omega⟩
  match items with
  | [] =>
    refine ⟨src.byteval, ?_⟩
    have ended := decodeInterface_eol between whole fuel
    have same : src.skip 0 = src := by
      have nothing : Reader.takeOff 0 src.stack = src.stack := by cases src.stack <;> rfl
      simp [Reader.skip, nothing, ← between.rearmed]
    simp [decodeSliceElems, ended, Item.payload, same]
  | item :: items =>
    have one := one_le_length_rlp item
    have spelled : Item.payload (item :: items) = item.rlp ++ Item.payload items := by
      rw [Item.payload]
    rw [spelled] at input whole enough ⊢
    rw [length_append] at whole enough ⊢
    rw [append_assoc] at input
    have room : src.Room item.rlp.length := by
      refine ⟨?_, ?_⟩
      · rw [input, length_append]
        omega
      · intro _ isHead
        rw [whole] at isHead
        simp only [Option.mem_def, Option.some.injEq] at isHead
        omega
    rcases decodeInterface_rlp item between input small room
      (show 2 * item.rlp.length + 1 ≤ fuel + 1 by omega) with ⟨byteval, first⟩
    have consumed := Reader.consumed_skip between room byteval
    have laterInput : (src.skip item.rlp.length).input = Item.payload items ++ rest := by
      simp [Reader.skip, input]
    have shorter : (src.skip item.rlp.length).input.length ≤ maxAlloc := by
      simp only [Reader.skip, length_drop]
      omega
    have laterWhole : (src.skip item.rlp.length).stack.head? =
        some (Item.payload items).length := by
      have left := Reader.mem_head?_takeOff whole item.rlp.length
      rw [Nat.add_sub_cancel_left] at left
      exact left
    rcases decodeSliceElems_payload items (consumed.between between) laterInput shorter laterWhole
      (show 2 * (Item.payload items).length + 2 ≤ fuel + 1 by omega) with ⟨last, others⟩
    refine ⟨last, ?_⟩
    rw [decodeSliceElems]
    simp only [first, others, ← Reader.skip_skip]
    rfl

end

theorem decodeItem_rlp (small : item.rlp.length ≤ maxAlloc) : decodeItem item.rlp = .ok item := by
  have limit : maxAlloc = 2 ^ 48 := rfl
  rcases decodeInterface_rlp item (between_ofBytes (by omega)) (append_nil _).symm small
    (room_ofBytes item.rlp) (Nat.le_refl _) with ⟨byteval, decoded⟩
  simp only [decodeItem, decodeItemWith, decoded]
  simp [Reader.skip, Reader.ofBytes]

/-- A value comes back from its encoding, and what is decoded is encoded as it
was. -/
theorem interface_round_trip (item : Item) (bytes : Bytes) :
    ((encodeItem item).length ≤ maxAlloc → decodeItem (encodeItem item) = .ok item) ∧
      (bytes.length < 2 ^ 63 → decodeItem bytes = .ok item → encodeItem item = bytes) := by
  rw [encodeItem_eq]
  refine ⟨decodeItem_rlp, ?_⟩
  intro short decoded
  exact (eq_rlp_of_decodeItemWith short decoded).symm

def sampleItem : Item :=
  .list [.bytes [0x63, 0x61, 0x74], .list [], .list [.bytes [0x05]]]

theorem sample_interface_round_trip :
    encodeItem sampleItem = [0xc7, 0x83, 0x63, 0x61, 0x74, 0xc0, 0xc1, 0x05] ∧
      decodeItem (encodeItem sampleItem) = .ok sampleItem := by
  have encoded : encodeItem sampleItem = [0xc7, 0x83, 0x63, 0x61, 0x74, 0xc0, 0xc1, 0x05] := by
    decide
  refine ⟨encoded, (interface_round_trip sampleItem []).1 ?_⟩
  decide

end Rlp

end Octopus
