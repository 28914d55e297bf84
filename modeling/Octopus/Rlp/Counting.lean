import Octopus.Rlp.Interface

/-!
# Splitting and counting

`Split` and `CountValues` work on a slice by indices, which are checked here as the language
checks them; `Stream` reads byte by byte.  They agree on headers, but `Raw` does not look at
the contents: a byte below 128 behind the tag `0x81` is refused by `Split` and not by `Raw`.
-/

namespace Octopus

open List

variable {buf bytes value content rest : Bytes} {values : List Bytes} {Value : Type}
  {elems : Reader → Except StreamError (List Value) × Reader}
  {fuel size tagsize slen count rounds low : Nat} {first : Byte}

namespace Rlp

namespace Checked

inductive Failure
  | panic
  | refused (error : SplitError)
  deriving DecidableEq

def index (bytes : Bytes) (place : Nat) : Except Failure Byte :=
  match bytes[place]? with
  | some byte => .ok byte
  | none => .error .panic

def slice (bytes : Bytes) (low high : Nat) : Except Failure Bytes :=
  if low ≤ high ∧ high ≤ bytes.length then .ok ((bytes.take high).drop low) else .error .panic

def number (bytes : Bytes) : Nat → Except Failure Nat
  | 0 => .ok 0
  | count + 1 => do
      let high ← number bytes count
      let low ← index bytes count
      .ok (high * 256 + low.toNat)

def readSize (bytes : Bytes) (slen : Nat) : Except Failure Nat :=
  if slen > bytes.length then .error (.refused .unexpectedEOF)
  else do
    -- the switch has no other sizes
    let size ← if 1 ≤ slen ∧ slen ≤ 8 then number bytes slen else .ok 0
    if size < 56 then .error (.refused .canonSize)
    else do
      let first ← index bytes 0
      if first = 0 then .error (.refused .canonSize) else .ok size

def readTag (buffer : Bytes) (tag : Nat) : Except Failure (Kind × Nat × Nat) :=
  if tag < 0x80 then .ok (.byte, 0, 1)
  else if tag < 0xb8 then
    if tag - 0x80 = 1 ∧ 1 < buffer.length then do
      let second ← index buffer 1
      if second.toNat < 128 then .error (.refused .canonSize) else .ok (.string, 1, tag - 0x80)
    else .ok (.string, 1, tag - 0x80)
  else if tag < 0xc0 then do
    let rest ← slice buffer 1 buffer.length
    let size ← readSize rest (tag - 0xb7)
    .ok (.string, tag - 0xb7 + 1, size)
  else if tag < 0xf8 then .ok (.list, 1, tag - 0xc0)
  else do
    let rest ← slice buffer 1 buffer.length
    let size ← readSize rest (tag - 0xf7)
    .ok (.list, tag - 0xf7 + 1, size)

def readKind (buffer : Bytes) : Except Failure (Kind × Nat × Nat) :=
  if buffer.length = 0 then .error (.refused .unexpectedEOF)
  else do
    let first ← index buffer 0
    let (kind, tagsize, contentsize) ← readTag buffer first.toNat
    if contentsize > (buffer.length + 2 ^ 64 - tagsize) % 2 ^ 64 then
      .error (.refused .valueTooLarge)
    else .ok (kind, tagsize, contentsize)

def split (buffer : Bytes) : Except Failure (Kind × Bytes × Bytes) := do
  let (kind, tagsize, contentsize) ← readKind buffer
  let content ← slice buffer tagsize ((tagsize + contentsize) % 2 ^ 64)
  let rest ← slice buffer ((tagsize + contentsize) % 2 ^ 64) buffer.length
  .ok (kind, content, rest)

def splitList (buffer : Bytes) : Except Failure (Bytes × Bytes) := do
  let (kind, content, rest) ← split buffer
  if kind ≠ .list then .error (.refused .expectedList) else .ok (content, rest)

def countFrom : Nat → Bytes → Except Failure Nat
  | 0, _ => .ok 0
  | rounds + 1, buffer =>
    if buffer = [] then .ok 0
    else do
      let (_, tagsize, size) ← readKind buffer
      let rest ← slice buffer ((tagsize + size) % 2 ^ 64) buffer.length
      let count ← countFrom rounds rest
      .ok (count + 1)

def countValues (buffer : Bytes) : Except Failure Nat :=
  countFrom buffer.length buffer

end Checked

theorem readSize_within (read : readSize bytes slen = .ok size) : slen ≤ bytes.length := by
  simp only [readSize] at read
  split_ifs at read with short
  omega

theorem stream_of_readSize (positive : 0 < slen) (read : readSize bytes slen = .ok size) :
    Stream.readSize slen bytes = .ok (size, bytes.drop slen) := by
  simp only [readSize] at read
  split_ifs at read with short bad
  cases read
  simp only [not_or] at bad
  simp only [Stream.readSize, Stream.readUint]
  rw [if_neg (by omega), if_neg short, if_neg (fun zero => bad.2 zero.2)]
  simp [if_neg bad.1]

theorem stream_of_readTag {kind : Kind} (read : readTag first rest = .ok (kind, tagsize, size)) :
    (first.toNat < 128 ∧ kind = .byte ∧ tagsize = 0 ∧ size = 1) ∨
      128 ≤ first.toNat ∧ ∃ slen, tagsize = slen + 1 ∧ slen ≤ rest.length ∧
        Stream.readTag first rest = .ok ⟨kind, size, 0, rest.drop slen⟩ := by
  have long : ∀ slen (isKind : Kind), 0 < slen →
      (readSize rest slen).map (fun size => (isKind, slen + 1, size)) = .ok (kind, tagsize, size) →
      tagsize = slen + 1 ∧ slen ≤ rest.length ∧
        (Stream.readSize slen rest).map (fun read => (⟨isKind, read.1, 0, read.2⟩ :
          Stream.Head)) = .ok ⟨kind, size, 0, rest.drop slen⟩ := by
    intro slen isKind positive mapped
    rcases sized : readSize rest slen with error | found
    · simp [sized, Except.map] at mapped
    simp only [sized] at mapped
    cases mapped
    refine ⟨rfl, readSize_within sized, ?_⟩
    rw [stream_of_readSize positive sized]
    rfl
  simp only [readTag] at read
  split_ifs at read with single short canon longString shortList
  · simp only [Except.ok.injEq, Prod.mk.injEq] at read
    exact .inl ⟨single, read.1.symm, read.2.1.symm, read.2.2.symm⟩
  · cases read
    refine .inr ⟨by omega, 0, rfl, by omega, ?_⟩
    simp [Stream.readTag, if_neg single, if_pos short]
  · have found := long _ _ (by omega) read
    refine .inr ⟨by omega, _, found.1, found.2.1, ?_⟩
    simp only [Stream.readTag, if_neg single, if_neg short, if_pos longString]
    exact found.2.2
  · cases read
    refine .inr ⟨by omega, 0, rfl, by omega, ?_⟩
    simp [Stream.readTag, if_neg single, if_neg short, if_neg longString, if_pos shortList]
  · have found := long _ _ (by omega) read
    refine .inr ⟨by omega, _, found.1, found.2.1, ?_⟩
    simp only [Stream.readTag, if_neg single, if_neg short, if_neg longString, if_neg shortList]
    exact found.2.2

theorem readTag_within {kind : Kind} (read : readTag first rest = .ok (kind, tagsize, size)) :
    tagsize ≤ rest.length + 1 := by
  rcases stream_of_readTag read with ⟨-, -, rfl, -⟩ | ⟨-, _, rfl, within, -⟩
  · omega
  · omega

theorem readKind_eq_ok {kind : Kind} (read : readKind buf = .ok (kind, tagsize, size)) :
    ∃ first tail, buf = first :: tail ∧ readTag first tail = .ok (kind, tagsize, size) ∧
      tagsize + size ≤ buf.length := by
  cases buf with
  | nil => simp [readKind] at read
  | cons first rest =>
    rcases tagged : readTag first rest with error | ⟨_, _, _⟩
    · simp [readKind, tagged, bind, Except.bind] at read
    have within := readTag_within tagged
    simp only [readKind, tagged, bind, Except.bind] at read
    split_ifs at read with large
    cases read
    refine ⟨first, rest, rfl, tagged, ?_⟩
    simp only [List.length_cons] at large ⊢
    omega

theorem readKind_within {kind : Kind} (read : readKind buf = .ok (kind, tagsize, size)) :
    tagsize + size ≤ buf.length := by
  rcases readKind_eq_ok read with ⟨_, _, -, -, within⟩
  exact within

namespace Checked

theorem index_of_lt {place : Nat} (inside : place < bytes.length) :
    index bytes place = .ok bytes[place] := by
  simp [index, inside]

theorem slice_of_le {high : Nat} (order : low ≤ high) (inside : high ≤ bytes.length) :
    slice bytes low high = .ok ((bytes.take high).drop low) := by
  rw [slice, if_pos ⟨order, inside⟩]

theorem slice_length (inside : low ≤ bytes.length) :
    slice bytes low bytes.length = .ok (bytes.drop low) := by
  rw [slice_of_le inside (Nat.le_refl _), take_length]

theorem number_eq (inside : count ≤ bytes.length) :
    number bytes count = .ok (Bytes.toNat (bytes.take count)) := by
  induction count with
  | zero => rfl
  | succ count ih =>
    have here : count < bytes.length := inside
    have taken : bytes.take (count + 1) = bytes.take count ++ [bytes[count]] := by
      rw [List.take_add_one, List.getElem?_eq_getElem here, Option.toList_some]
    rw [number, ih (by omega), index_of_lt here, taken]
    simp only [bind, Except.bind, Bytes.toNat, foldl_append, foldl_cons, foldl_nil]

def refuse {Value : Type} (result : Except SplitError Value) : Except Failure Value :=
  result.mapError .refused

theorem readSize_eq (positive : 1 ≤ slen) (few : slen ≤ 8) :
    readSize bytes slen = refuse (Rlp.readSize bytes slen) := by
  simp only [readSize, Rlp.readSize]
  split_ifs with short bad bad
  · rfl
  · rw [number_eq (by omega)]
    simp only [bind, Except.bind]
    rcases bad with small | zero
    · rw [if_pos small]
      rfl
    rcases bytes with _ | ⟨first, rest⟩
    · simp at zero
    · simp only [List.head?_cons, Option.some.injEq] at zero
      subst zero
      split_ifs <;> rfl
  · rw [number_eq (by omega)]
    rcases bytes with _ | ⟨first, rest⟩
    · simp only [List.length_nil] at short
      omega
    simp only [List.head?_cons, Option.some.injEq, not_or] at bad
    simp only [bind, Except.bind, if_neg bad.1]
    rw [index_of_lt (by simp)]
    simp only [List.getElem_cons_zero, if_neg bad.2]
    rfl
  · omega
  · omega

theorem readTag_eq (first : Byte) (rest : Bytes) :
    readTag (first :: rest) first.toNat = refuse (Rlp.readTag first rest) := by
  have tail : slice (first :: rest) 1 (first :: rest).length = .ok rest :=
    slice_length (by simp)
  have long : ∀ slen (isKind : Kind), 1 ≤ slen → slen ≤ 8 → (do
        let rest ← slice (first :: rest) 1 (first :: rest).length
        let size ← readSize rest slen
        .ok (isKind, slen + 1, size)) =
      refuse ((Rlp.readSize rest slen).map fun size => (isKind, slen + 1, size)) := by
    intro slen isKind positive few
    rw [tail]
    simp only [bind, Except.bind, readSize_eq positive few]
    cases Rlp.readSize rest slen <;> rfl
  simp only [readTag, Rlp.readTag]
  by_cases single : first.toNat < 0x80
  · simp only [if_pos single]
    rfl
  by_cases short : first.toNat < 0xb8
  · simp only [if_neg single, if_pos short]
    cases rest with
    | nil => simp [refuse, Except.mapError]
    | cons =>
      rw [index_of_lt (by simp)]
      simp only [List.length_cons, List.getElem_cons_succ, List.getElem_cons_zero, bind,
        Except.bind, List.head?_cons, Option.mem_def, Option.some.injEq, exists_eq_left',
        Nat.lt_add_left_iff_pos, Nat.zero_lt_succ, and_true]
      split_ifs <;> first | rfl | omega
  by_cases longString : first.toNat < 0xc0
  · simp only [if_neg single, if_neg short, if_pos longString]
    exact long _ _ (by omega) (by omega)
  by_cases shortList : first.toNat < 0xf8
  · simp only [if_neg single, if_neg short, if_neg longString, if_pos shortList]
    rfl
  · simp only [if_neg single, if_neg short, if_neg longString, if_neg shortList]
    exact long _ _ (by omega) (by omega)

section

variable (fits : buf.length < 2 ^ 63)
include fits

theorem readKind_eq : readKind buf = refuse (Rlp.readKind buf) := by
  cases buf with
  | nil => rfl
  | cons first rest =>
    rw [readKind, if_neg (by simp), index_of_lt (by simp)]
    simp only [List.getElem_cons_zero, bind, Except.bind, readTag_eq, Rlp.readKind]
    rcases tagged : Rlp.readTag first rest with error | ⟨_, tagsize, _⟩
    · rfl
    have within := readTag_within tagged
    have room : ((first :: rest).length + 2 ^ 64 - tagsize) % 2 ^ 64 =
        (first :: rest).length - tagsize := by
      simp only [List.length_cons] at fits ⊢
      omega
    simp only [refuse, Except.mapError, room]
    split_ifs <;> rfl

theorem split_eq : split buf = refuse (Rlp.split buf) := by
  rw [split, Rlp.split, readKind_eq fits]
  rcases read : Rlp.readKind buf with error | ⟨_, tagsize, size⟩
  · rfl
  · have within := readKind_within read
    have sum : (tagsize + size) % 2 ^ 64 = tagsize + size := Nat.mod_eq_of_lt (by omega)
    simp only [refuse, Except.mapError, bind, Except.bind, sum, slice_length within]
    rw [slice_of_le (by omega) within, List.drop_take, Nat.add_sub_cancel_left]

theorem splitList_eq : splitList buf = refuse (Rlp.splitList buf) := by
  rw [splitList, Rlp.splitList, split_eq fits]
  rcases Rlp.split buf with error | ⟨_, _, _⟩
  · rfl
  · simp only [refuse, Except.mapError, bind, Except.bind]
    split_ifs <;> rfl

theorem countFrom_eq (rounds : Nat) : countFrom rounds buf = refuse (Rlp.countFrom rounds buf) := by
  induction rounds generalizing buf with
  | zero => rfl
  | succ rounds ih =>
    rw [countFrom, Rlp.countFrom, readKind_eq fits]
    split_ifs with empty
    · rfl
    rcases read : Rlp.readKind buf with error | ⟨_, tagsize, size⟩
    · rfl
    have within := readKind_within read
    have sum : (tagsize + size) % 2 ^ 64 = tagsize + size := Nat.mod_eq_of_lt (by omega)
    have shorter : (buf.drop (tagsize + size)).length < 2 ^ 63 := by
      rw [List.length_drop]
      omega
    simp only [refuse, Except.mapError, bind, Except.bind, sum, slice_length within, ih shorter]
    rcases Rlp.countFrom rounds (buf.drop (tagsize + size)) with error | count <;> rfl

theorem countValues_eq : countValues buf = refuse (Rlp.countValues buf) :=
  countFrom_eq fits buf.length

end

theorem refuse_eq_ok {res : Except SplitError Value} {value : Value} :
    refuse res = .ok value ↔ res = .ok value := by
  cases res <;> simp [refuse, Except.mapError]

theorem refuse_ne_panic (res : Except SplitError Value) : refuse res ≠ .error .panic := by
  cases res <;> simp [refuse, Except.mapError]

end Checked

def Admits : Kind → Bytes → Prop
  | .byte, content => Stream.shortForm content = true
  | .string, content => Stream.shortForm content = false
  | .list, _ => True

theorem split_eq_ok {kind : Kind} (read : split buf = .ok (kind, content, rest)) :
    buf = Stream.header kind content.length ++ content ++ rest ∧ Admits kind content := by
  rcases found : readKind buf with error | ⟨_, _, size⟩
  · simp [split, found, bind, Except.bind] at read
  simp only [split, found, bind, Except.bind] at read
  cases read
  rcases readKind_eq_ok found with ⟨first, tail, rfl, tagged, within⟩
  rcases stream_of_readTag tagged with ⟨single, rfl, rfl, rfl⟩ | ⟨_, slen, rfl, _, parsed⟩
  · refine ⟨by simp [Stream.header], ?_⟩
    simpa [Admits, Stream.shortForm] using single
  rcases Stream.readTag_eq_ok parsed with ⟨-, single⟩ | ⟨several, -, spelled⟩
  · omega
  simp only at several spelled
  have content : ((first :: tail).drop (slen + 1)).take size = (tail.drop slen).take size := rfl
  have length : ((tail.drop slen).take size).length = size := by
    simp only [length_take, List.length_drop, List.length_cons] at within ⊢
    omega
  have back : (first :: tail).drop (slen + 1 + size) = (tail.drop slen).drop size := by
    rw [← drop_drop]
    rfl
  rw [content, back, length, append_assoc, List.take_append_drop]
  refine ⟨spelled, ?_⟩
  cases kind with
  | byte => exact absurd rfl several
  | list => trivial
  | string =>
    by_contra short
    have isShort : Stream.shortForm ((tail.drop slen).take size) = true := by
      simpa [Admits] using short
    rcases Stream.exists_of_shortForm isShort with ⟨byte, isByte, small, -⟩
    rw [isByte] at length
    have one : size = 1 := by simpa using length.symm
    subst one
    -- the tag is 0x81, and the byte behind it is looked at
    have whole : first :: tail = 0x81 :: byte :: (tail.drop slen).drop 1 := by
      rw [spelled]
      nth_rewrite 1 [← List.take_append_drop 1 (tail.drop slen), isByte]
      rfl
    rw [cons.injEq] at whole
    rw [whole.1, whole.2] at tagged
    simp [readTag, small] at tagged

theorem spells_of_admits {kind : Kind} (small : content.length < 2 ^ 64)
    (admits : Admits kind content) : Spells kind (Stream.header kind content.length) content := by
  cases kind with
  | byte =>
    rcases Stream.exists_of_shortForm admits with ⟨byte, rfl, single, -⟩
    refine ⟨by simp, ?_⟩
    simp [Stream.header, readKind, readTag, single, bind, Except.bind]
  | string =>
    apply spells_string small
    rintro byte rfl
    simpa [Admits, Stream.shortForm] using admits
  | list => exact spells_list small

def Accepted (value : Bytes) : Prop :=
  ∃ kind content, split value = .ok (kind, content, [])

theorem isValue_of_accepted (small : value.length < 2 ^ 64) (accepted : Accepted value) :
    IsValue value := by
  rcases accepted with ⟨kind, content, read⟩
  rcases split_eq_ok read with ⟨spelled, admits⟩
  rw [append_nil] at spelled
  have fits : content.length < 2 ^ 64 := by
    rw [spelled, length_append] at small
    omega
  exact ⟨kind, _, content, spelled, spells_of_admits fits admits⟩

theorem accepted_of_isValue (isValue : IsValue value) : Accepted value := by
  rcases isValue with ⟨kind, _, content, rfl, spells⟩
  have read := split_of_spells spells []
  rw [append_nil] at read
  exact ⟨kind, content, read⟩

section

variable (small : buf.length < 2 ^ 64)
include small

theorem accepted_take {kind : Kind} (read : readKind buf = .ok (kind, tagsize, size)) :
    Accepted (buf.take (tagsize + size)) ∧ 0 < tagsize + size := by
  have found : split buf = .ok (kind, (buf.drop tagsize).take size, buf.drop (tagsize + size)) := by
    simp [split, read, bind, Except.bind]
  rcases split_eq_ok found with ⟨spelled, admits⟩
  have text := Reader.take_eq_of_append spelled rfl
  have fits : ((buf.drop tagsize).take size).length < 2 ^ 64 := by
    rw [length_take, List.length_drop]
    omega
  have spells := spells_of_admits fits admits
  rw [text]
  refine ⟨accepted_of_isValue ⟨kind, _, _, rfl, spells⟩, ?_⟩
  have positive := length_pos_iff.mpr spells.nonempty
  rw [← text, length_take] at positive
  omega

theorem exists_values_of_countFrom (enough : buf.length ≤ rounds)
    (counted : countFrom rounds buf = .ok count) :
    ∃ values : List Bytes, values.length = count ∧ buf = values.flatten ∧
      ∀ value ∈ values, Accepted value := by
  induction rounds generalizing buf count with
  | zero =>
    have empty : buf = [] := eq_nil_of_length_eq_zero (by omega)
    cases counted
    exact ⟨[], rfl, empty, by simp⟩
  | succ rounds ih =>
    rw [countFrom] at counted
    split_ifs at counted with empty
    · cases counted
      exact ⟨[], rfl, empty, by simp⟩
    rcases read : readKind buf with error | ⟨_, tagsize, size⟩
    · simp [read, bind, Except.bind] at counted
    rcases accepted_take small read with ⟨accepted, _⟩
    rcases rest : countFrom rounds (buf.drop (tagsize + size)) with error | others
    · simp [read, rest, bind, Except.bind] at counted
    simp only [read, rest, bind, Except.bind, Except.ok.injEq] at counted
    have shorter : (buf.drop (tagsize + size)).length ≤ rounds := by
      rw [List.length_drop]
      omega
    rcases ih (by rw [List.length_drop]; omega) shorter rest with ⟨values, length, flat, all⟩
    refine ⟨buf.take (tagsize + size) :: values, by simp [length, counted], ?_, ?_⟩
    · rw [List.flatten_cons, ← flat, List.take_append_drop]
    · simp only [List.mem_cons, forall_eq_or_imp]
      exact ⟨accepted, all⟩

theorem countValues_eq_ok_iff (count : Nat) :
    countValues buf = .ok count ↔
      ∃ values : List Bytes, values.length = count ∧ buf = values.flatten ∧
        ∀ value ∈ values, Accepted value := by
  refine ⟨exists_values_of_countFrom small (Nat.le_refl _), ?_⟩
  rintro ⟨values, rfl, rfl, all⟩
  have isValue : ∀ value ∈ values, IsValue (id value) := by
    intro value mem
    apply isValue_of_accepted _ (all value mem)
    exact Nat.lt_of_le_of_lt (sublist_flatten_of_mem mem).length_le small
  have counted := countValues_flatMap isValue
  rwa [flatMap_id] at counted

end

theorem isValue_rlp {item : Item} (small : item.rlp.length < 2 ^ 64) : IsValue item.rlp := by
  cases item with
  | bytes content =>
    rw [Item.rlp] at small ⊢
    apply isValue_writeBytes
    by_cases short : Stream.shortForm content = true
    · rcases Stream.exists_of_shortForm short with ⟨_, rfl, -, -⟩
      simp
    · rw [Stream.writeBytes_of_not_shortForm (by simpa using short), length_append] at small
      omega
  | list =>
    rw [Item.rlp] at small ⊢
    apply isValue_list
    rw [list, length_append] at small
    omega

theorem splitList_of_eq_list (fits : buf.length < 2 ^ 63) (spelled : buf = list content) :
    content.length < 2 ^ 63 ∧ splitList buf = .ok (content, []) := by
  have small : content.length < 2 ^ 63 := by
    rw [spelled, list, length_append] at fits
    omega
  have split := splitList_list (show content.length < 2 ^ 64 by omega) []
  rw [append_nil, ← spelled] at split
  exact ⟨small, split⟩

theorem countValues_of_decodeItemWith {items : List Item} (fits : buf.length < 2 ^ 63)
    (decoded : decodeItemWith fuel buf = .ok (.list items)) :
    splitList buf = .ok (Item.payload items, []) ∧
      countValues (Item.payload items) = .ok items.length := by
  have spelled := eq_rlp_of_decodeItemWith fits decoded
  rcases splitList_of_eq_list fits spelled with ⟨small, split⟩
  refine ⟨split, ?_⟩
  rw [Item.payload_eq_flatMap] at small ⊢
  apply countValues_flatMap
  intro _ mem
  apply isValue_rlp
  have shorter :=
    (sublist_flatten_of_mem (mem_map_of_mem (f := Item.rlp) mem)).length_le
  rw [← flatMap_def] at shorter
  omega

def decodeElems {Value : Type} (elemdec : Reader → Except StreamError Value × Reader) :
    Nat → Reader → Except StreamError (List Value) × Reader
  | 0, reader => (.error .outOfFuel, reader)
  | fuel + 1, reader =>
    match elemdec reader with
    | (.error .eol, reader) => (.ok [], reader)
    | (.error error, reader) => (.error error, reader)
    | (.ok value, reader) =>
      match decodeElems elemdec fuel reader with
      | (.error error, reader) => (.error error, reader)
      | (.ok values, reader) => (.ok (value :: values), reader)

def decodeRawsWith (fuel : Nat) (bytes : Bytes) : Except StreamError (List Bytes) :=
  match decodeListSlice (decodeElems Reader.raw fuel) (Reader.ofBytes bytes) with
  | (.error error, _) => .error error
  | (.ok values, reader) => if reader.input ≠ [] then .error .moreThanOneValue else .ok values

def Overlong (value : Bytes) : Prop :=
  ∃ byte : Byte, byte.toNat < 128 ∧ value = [0x81, byte]

theorem Overlong.not_accepted (overlong : Overlong value) (rest : Bytes) :
    readKind (value ++ rest) = .error .canonSize := by
  rcases overlong with ⟨_, small, rfl⟩
  simp [readKind, readTag, small, bind, Except.bind]

theorem accepted_or_overlong {isKind : Kind} (several : isKind ≠ .byte)
    (small : content.length < 2 ^ 64) :
    Accepted (Stream.header isKind content.length ++ content) ∨
      Overlong (Stream.header isKind content.length ++ content) := by
  by_cases admits : Admits isKind content
  · exact .inl (accepted_of_isValue ⟨isKind, _, content, rfl, spells_of_admits small admits⟩)
  right
  cases isKind with
  | byte => exact absurd rfl several
  | list => exact absurd trivial admits
  | string =>
    have short : Stream.shortForm content = true := by simpa [Admits] using admits
    rcases Stream.exists_of_shortForm short with ⟨byte, rfl, below, -⟩
    exact ⟨byte, below, rfl⟩

namespace Reader

variable {src new : Reader} (between : src.Between)
include between

theorem consumed_of_raw {text : Bytes} (decoded : raw src = (.ok text, new)) :
    Consumed src new text ∧ (Accepted text ∨ Overlong text) := by
  rcases tagged : kind src with ⟨error | ⟨isKind, size⟩, mid⟩
  · simp [raw, tagged] at decoded
  rcases kind_eq_ok between.isExact between.rearmed tagged with
    ⟨count, byteval, room, isMiddle, enough, spelled⟩
  have isRest : mid.input = src.input.drop count := by rw [isMiddle]; rfl
  rcases spelled with ⟨rfl, single, spelled⟩ | ⟨several, spelled⟩
  · simp only [raw, tagged] at decoded
    cases decoded
    have same : mid.byteval = byteval := by rw [isMiddle]
    have consumed := consumed_skip between room byteval
    have text : src.input.take count = [byteval] := take_eq_of_append spelled isRest
    rw [text] at consumed
    refine ⟨?_, .inl ?_⟩
    · rw [same, isMiddle]
      exact consumed
    · rw [same]
      exact ⟨.byte, [byteval], by
        simp [split, Rlp.readKind, readTag, single, bind, Except.bind]⟩
  · rcases full : readFull size mid with ⟨error | content, last⟩
    · cases isKind with
      | byte => exact absurd rfl several
      | string | list =>
        simp only [raw, tagged, full] at decoded
        split_ifs at decoded <;> simp at decoded
    have unfolded : raw src =
        if maxAlloc < (Stream.header isKind size).length + size then (.error .panic, mid)
        else (.ok (Stream.header isKind size ++ content), last) := by
      cases isKind with
      | byte => exact absurd rfl several
      | string | list => simp [raw, tagged, full]
    rw [unfolded] at decoded
    split_ifs at decoded
    · simp at decoded
    cases decoded
    rcases consumed_of_readFull between tagged several full with ⟨length, consumed⟩
    refine ⟨consumed, ?_⟩
    have short := between.short
    rw [spelled, length_append] at short
    rw [← length]
    exact accepted_or_overlong several (by omega)

theorem eq_of_raw_eol (ended : raw src = (.error .eol, new)) : new = src := by
  rcases tagged : kind src with ⟨error | ⟨isKind, size⟩, mid⟩
  · simp only [raw, tagged] at ended
    cases ended
    exact eq_of_kind_eol between.rearmed tagged
  have full := readFull_ne_eol size mid
  cases isKind with
  | byte => simp [raw, tagged] at ended
  | string | list =>
    simp only [raw, tagged] at ended
    split_ifs at ended
    · simp at ended
    · split at ended <;> simp_all

theorem consumed_of_decodeRaws (decoded : decodeElems raw fuel src = (.ok values, new)) :
    Consumed src new values.flatten ∧ ∀ value ∈ values, Accepted value ∨ Overlong value := by
  induction fuel generalizing src values with
  | zero => simp [decodeElems] at decoded
  | succ fuel ih =>
    rw [decodeElems] at decoded
    split at decoded
    · next mid ended =>
      cases decoded
      rw [eq_of_raw_eol between ended]
      exact ⟨consumed_nil between, by simp⟩
    · simp at decoded
    · next value mid first =>
      rcases consumed_of_raw between first with ⟨consumed, form⟩
      rcases rest : decodeElems raw fuel mid with ⟨_ | _, _⟩
      · simp [rest] at decoded
      simp only [rest] at decoded
      cases decoded
      rcases ih (consumed.between between) rest with ⟨later, forms⟩
      refine ⟨consumed.trans between later, ?_⟩
      simp only [List.mem_cons, forall_eq_or_imp]
      exact ⟨form, forms⟩

theorem exists_kind_of_decodeListSlice {values : List Value}
    (decoded : decodeListSlice elems src = (.ok values, new)) :
    ∃ size mid, kind src = (.ok (.list, size), mid) ∧
      decodeListSlice elems mid = (.ok values, new) := by
  rcases tagged : kind src with ⟨_ | ⟨isKind, size⟩, mid⟩
  · simp [decodeListSlice, list, tagged] at decoded
  have again := kind_again between tagged
  have same : list mid = list src := by simp [list, tagged, again]
  cases isKind with
  | byte | string => simp [decodeListSlice, list, tagged] at decoded
  | list =>
    refine ⟨size, mid, rfl, ?_⟩
    simp only [decodeListSlice] at decoded ⊢
    rw [same]
    exact decoded

end Reader

theorem eq_list_of_decodeRawsWith (fits : buf.length < 2 ^ 63)
    (decoded : decodeRawsWith fuel buf = .ok values) :
    buf = list values.flatten ∧ ∀ value ∈ values, Accepted value ∨ Overlong value := by
  have between := between_ofBytes fits
  rcases ran : decodeListSlice (decodeElems Reader.raw fuel) (Reader.ofBytes buf) with
    ⟨error | found, new⟩
  · simp [decodeRawsWith, ran] at decoded
  simp only [decodeRawsWith, ran] at decoded
  split_ifs at decoded with left
  cases decoded
  rcases Reader.exists_kind_of_decodeListSlice between ran with ⟨_, _, tagged, elements⟩
  rcases Reader.consumed_of_decodeListSlice between ⟨List.flatten_nil, by simp⟩ tagged
    (fun inner last values => Reader.consumed_of_decodeRaws) elements with ⟨consumed, forms⟩
  have nothing : new.input = [] := by simpa using left
  have input := consumed.input
  rw [nothing, append_nil] at input
  exact ⟨input, forms⟩

theorem accepted_of_countFrom (forms : ∀ value ∈ values, Accepted value ∨ Overlong value)
    (small : values.flatten.length < 2 ^ 64) (enough : values.flatten.length ≤ rounds)
    (counted : countFrom rounds values.flatten = .ok count) :
    ∀ value ∈ values, ¬ Overlong value := by
  induction values generalizing rounds count with
  | nil => simp
  | cons value values ih =>
    simp only [List.mem_cons, forall_eq_or_imp] at forms ⊢
    rw [List.flatten_cons] at small enough counted
    rw [length_append] at small enough
    rcases forms with ⟨accepted | overlong, forms⟩
    · rcases isValue_of_accepted (by omega) accepted with ⟨_, header, content, rfl, spells⟩
      have positive := length_pos_of_ne_nil spells.nonempty
      have refuted : ¬ Overlong (header ++ content) := by
        intro overlong
        have refused := overlong.not_accepted []
        rw [spells.reads] at refused
        simp at refused
      refine ⟨refuted, ?_⟩
      cases rounds with
      | zero => omega
      | succ rounds =>
        have nonempty : header ++ content ++ values.flatten ≠ [] := by
          intro nothing
          exact spells.nonempty (append_eq_nil_iff.mp nothing).1
        rw [countFrom, if_neg nonempty, spells.reads] at counted
        simp only [bind, Except.bind] at counted
        rcases rest : countFrom rounds values.flatten with error | others
        · simp [rest] at counted
        · exact ih forms (by omega) (by omega) rest
    · cases rounds with
      | zero =>
        rcases overlong with ⟨byte, -, rfl⟩
        simp at enough
      | succ =>
        have nonempty : value ++ values.flatten ≠ [] := by
          rcases overlong with ⟨byte, -, rfl⟩
          simp
        rw [countFrom, if_neg nonempty, overlong.not_accepted] at counted
        simp [bind, Except.bind] at counted

theorem countValues_of_decodeRawsWith (fits : buf.length < 2 ^ 63)
    (decoded : decodeRawsWith fuel buf = .ok values) :
    splitList buf = .ok (values.flatten, []) ∧
      (countValues values.flatten = .ok values.length ↔ ∀ value ∈ values, ¬ Overlong value) := by
  rcases eq_list_of_decodeRawsWith fits decoded with ⟨spelled, forms⟩
  rcases splitList_of_eq_list fits spelled with ⟨small, split⟩
  refine ⟨split, accepted_of_countFrom forms (by omega) (Nat.le_refl _), ?_⟩
  intro canon
  rw [countValues_eq_ok_iff (by omega)]
  refine ⟨values, rfl, rfl, ?_⟩
  intro value mem
  exact (forms value mem).resolve_right (canon value mem)

theorem accepted_iff_checked (fits : value.length < 2 ^ 63) :
    Accepted value ↔ ∃ kind content, Checked.split value = .ok (kind, content, []) := by
  simp [Accepted, Checked.split_eq fits, Checked.refuse_eq_ok]

/-- No index is out of range, what is accepted has canonical headers, and the elements of a
decoded list are counted; raw values are counted if none of them is overlong. -/
theorem split_and_count (buffer : Bytes) (fits : buffer.length < 2 ^ 63) :
    Checked.split buffer ≠ .error .panic ∧ Checked.countValues buffer ≠ .error .panic ∧
    (∀ kind content rest, Checked.split buffer = .ok (kind, content, rest) →
      buffer = Stream.header kind content.length ++ content ++ rest ∧ Admits kind content) ∧
    (∀ count, Checked.countValues buffer = .ok count ↔
      ∃ values : List Bytes, values.length = count ∧ buffer = values.flatten ∧
        ∀ value ∈ values, ∃ kind content, Checked.split value = .ok (kind, content, [])) ∧
    (∀ fuel items, decodeItemWith fuel buffer = .ok (.list items) →
      ∃ content, Checked.splitList buffer = .ok (content, []) ∧
        Checked.countValues content = .ok items.length) ∧
    (∀ fuel values, decodeRawsWith fuel buffer = .ok values →
      ∃ content, Checked.splitList buffer = .ok (content, []) ∧
        (Checked.countValues content = .ok values.length ↔
          ∀ value ∈ values, ¬ Overlong value)) := by
  have listed : ∀ {content : Bytes}, splitList buffer = .ok (content, []) →
      Checked.splitList buffer = .ok (content, []) ∧
        Checked.countValues content = Checked.refuse (countValues content) := by
    intro content found
    refine ⟨by rw [Checked.splitList_eq fits, found]; rfl, Checked.countValues_eq ?_⟩
    rcases read : split buffer with error | ⟨kind, _, rest⟩
    · simp [splitList, read, bind, Except.bind] at found
    have spelled := (split_eq_ok read).1
    simp only [splitList, read, bind, Except.bind] at found
    split_ifs at found
    simp only [Except.ok.injEq, Prod.mk.injEq] at found
    rw [spelled, found.1, List.length_append, List.length_append] at fits
    omega
  refine ⟨?_, ?_, ?_, ?_, ?_, ?_⟩
  · rw [Checked.split_eq fits]
    exact Checked.refuse_ne_panic _
  · rw [Checked.countValues_eq fits]
    exact Checked.refuse_ne_panic _
  · intro kind content rest read
    rw [Checked.split_eq fits, Checked.refuse_eq_ok] at read
    exact split_eq_ok read
  · intro count
    rw [Checked.countValues_eq fits, Checked.refuse_eq_ok, countValues_eq_ok_iff (by omega)]
    apply exists_congr
    intro values
    apply and_congr_right
    intro _
    apply and_congr_right
    rintro rfl
    apply forall₂_congr
    intro value mem
    have shorter := (List.sublist_flatten_of_mem mem).length_le
    exact accepted_iff_checked (by omega)
  · intro fuel items decoded
    rcases countValues_of_decodeItemWith fits decoded with ⟨split, counted⟩
    rcases listed split with ⟨isList, same⟩
    exact ⟨_, isList, by rw [same, Checked.refuse_eq_ok]; exact counted⟩
  · intro fuel values decoded
    rcases countValues_of_decodeRawsWith fits decoded with ⟨split, counted⟩
    rcases listed split with ⟨isList, same⟩
    exact ⟨_, isList, by rw [same, Checked.refuse_eq_ok]; exact counted⟩

theorem two_elements_counted :
    decodeItem [0xc2, 0x05, 0x80] = .ok (.list [.bytes [0x05], .bytes []]) ∧
      ∃ content, Checked.splitList [0xc2, 0x05, 0x80] = .ok (content, []) ∧
        Checked.countValues content = .ok 2 := by
  have decoded : decodeItem (Item.list [.bytes [0x05], .bytes []]).rlp =
      .ok (.list [.bytes [0x05], .bytes []]) := by
    apply decodeItem_rlp
    decide
  exact ⟨decoded, (split_and_count [0xc2, 0x05, 0x80] (by decide)).2.2.2.2.1 _ _ decoded⟩

theorem overlong_raw_value_not_counted :
    decodeRawsWith 2 [0xc2, 0x81, 0x05] = .ok [[0x81, 0x05]] ∧
      Checked.splitList [0xc2, 0x81, 0x05] = .ok ([0x81, 0x05], []) ∧
      Checked.countValues [0x81, 0x05] = .error (.refused .canonSize) := by
  decide +kernel

end Rlp

end Octopus
