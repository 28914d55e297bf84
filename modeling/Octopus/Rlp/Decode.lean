import Mathlib.Tactic.Ring
import Octopus.Entity.Basic

/-!
# RLP encoding and decoding

The encoding of byte strings and lists, a list from its payload.  What the encoder writes is
split again into the contents it was written from, whatever follows it in the buffer.
-/

namespace Octopus

open List

theorem bigEndian_succ {width : Nat} (value : BitVec width) (count : Nat) :
    bigEndian value (count + 1) = (value >>> (8 * count)).setWidth 8 :: bigEndian value count := by
  simp only [bigEndian, range_succ_eq_map, map_cons, map_map]
  congr 1
  apply map_congr_left
  intro index _
  have pos : count + 1 - 1 - (index + 1) = count - 1 - index := by omega
  simp only [Function.comp_apply, pos]

@[simp]
theorem length_bigEndian {width : Nat} (value : BitVec width) (count : Nat) :
    (bigEndian value count).length = count := by
  simp [bigEndian]

@[simp]
theorem length_wordBytes (word : Word) : (wordBytes word).length = 32 :=
  length_bigEndian word 32

namespace Bytes

theorem foldl_toNat (bytes : Bytes) (start : Nat) :
    bytes.foldl (fun number byte => number * 256 + byte.toNat) start =
      start * 256 ^ bytes.length + toNat bytes := by
  induction bytes generalizing start with
  | nil => simp [toNat]
  | cons byte _ ih =>
    simp only [toNat, foldl_cons, length_cons]
    rw [ih, ih (0 * 256 + byte.toNat)]
    ring

theorem toNat_cons (byte : Byte) (bytes : Bytes) :
    toNat (byte :: bytes) = byte.toNat * 256 ^ bytes.length + toNat bytes := by
  rw [toNat, foldl_cons, foldl_toNat]
  simp

theorem toNat_bigEndian {width : Nat} (value : BitVec width) (count : Nat) :
    toNat (bigEndian value count) = value.toNat % 256 ^ count := by
  induction count with
  | zero => simp [bigEndian, toNat, Nat.mod_one]
  | succ count ih =>
    have power : 2 ^ (8 * count) = 256 ^ count := by rw [Nat.pow_mul]
    have digits : value.toNat % 256 ^ (count + 1) =
        value.toNat / 256 ^ count % 256 * 256 ^ count + value.toNat % 256 ^ count := by
      rw [Nat.pow_succ, Nat.mod_mul, Nat.mul_comm, Nat.add_comm]
    rw [bigEndian_succ, toNat_cons, ih, length_bigEndian, BitVec.toNat_setWidth,
      BitVec.toNat_ushiftRight, Nat.shiftRight_eq_div_pow, power, digits]

@[simp]
theorem toWord_wordBytes (word : Word) : toWord (wordBytes word) = word := by
  apply BitVec.eq_of_toNat_eq
  rw [toWord, wordBytes, toNat_bigEndian, BitVec.toNat_ofNat]
  omega

end Bytes

theorem wordBytes_injective : Function.Injective wordBytes := by
  intro first _ same
  rw [← Bytes.toWord_wordBytes first, same, Bytes.toWord_wordBytes]

def maxAlloc : Nat := 2 ^ 48

namespace Rlp

def intsize (number : Nat) : Nat :=
  if number < 2 ^ 8 then 1
  else if number < 2 ^ 16 then 2
  else if number < 2 ^ 24 then 3
  else if number < 2 ^ 32 then 4
  else if number < 2 ^ 40 then 5
  else if number < 2 ^ 48 then 6
  else if number < 2 ^ 56 then 7
  else 8

def putint (number : Nat) : Bytes :=
  bigEndian (BitVec.ofNat 64 number) (intsize number)

def puthead (smalltag largetag : Byte) (size : Nat) : Bytes :=
  if size < 56 then [smalltag + BitVec.ofNat 8 size]
  else (largetag + BitVec.ofNat 8 (intsize size)) :: putint size

def emptyString : Bytes := [0x80]

def writeBytes (bytes : Bytes) : Bytes :=
  match bytes with
  | [byte] => if byte.toNat ≤ 0x7f then [byte] else puthead 0x80 0xb7 1 ++ bytes
  | _ => puthead 0x80 0xb7 bytes.length ++ bytes

def list (payload : Bytes) : Bytes :=
  puthead 0xc0 0xf7 payload.length ++ payload

theorem length_puthead_le (smalltag largetag : Byte) (size : Nat) :
    (puthead smalltag largetag size).length ≤ 9 := by
  rw [puthead]
  split
  · simp
  · simp only [length_cons, putint, length_bigEndian, intsize]
    split_ifs <;> omega

theorem length_writeBytes_le (bytes : Bytes) : (writeBytes bytes).length ≤ bytes.length + 9 := by
  have header := length_puthead_le 0x80 0xb7
  match bytes with
  | [] => simpa [writeBytes] using header 0
  | [byte] =>
    simp only [writeBytes]
    split
    · simp
    · have := header 1
      simp only [length_append, length_cons]
      omega
  | first :: second :: rest =>
    have := header (first :: second :: rest).length
    simp only [writeBytes, length_append]
    omega

variable {bytes payload : Bytes} {Item : Type} {encoded : Item → Bytes} {items : List Item}
  {size : Nat}

inductive Kind where
  | byte
  | string
  | list
  deriving DecidableEq

inductive SplitError where
  | unexpectedEOF
  | canonSize
  | valueTooLarge
  | expectedString
  | expectedList
  deriving DecidableEq

def readSize (bytes : Bytes) (slen : Nat) : Except SplitError Nat :=
  if slen > bytes.length then .error .unexpectedEOF
  else
    let size := Bytes.toNat (bytes.take slen)
    if size < 56 ∨ bytes.head? = some 0 then .error .canonSize else .ok size

def readTag (first : Byte) (rest : Bytes) : Except SplitError (Kind × Nat × Nat) :=
  let tag := first.toNat
  if tag < 0x80 then .ok (.byte, 0, 1)
  else if tag < 0xb8 then
    -- a single byte below 128 is its own encoding
    if tag - 0x80 = 1 ∧ ∃ second ∈ rest.head?, second.toNat < 128 then .error .canonSize
    else .ok (.string, 1, tag - 0x80)
  else if tag < 0xc0 then
    (readSize rest (tag - 0xb7)).map fun size => (.string, tag - 0xb7 + 1, size)
  else if tag < 0xf8 then .ok (.list, 1, tag - 0xc0)
  else (readSize rest (tag - 0xf7)).map fun size => (.list, tag - 0xf7 + 1, size)

def readKind (buffer : Bytes) : Except SplitError (Kind × Nat × Nat) :=
  match buffer with
  | [] => .error .unexpectedEOF
  | first :: rest => do
      let (kind, tagsize, contentsize) ← readTag first rest
      if contentsize > buffer.length - tagsize then .error .valueTooLarge
      else .ok (kind, tagsize, contentsize)

/-- `Split`: the kind and the contents of the first value, and the rest. -/
def split (buffer : Bytes) : Except SplitError (Kind × Bytes × Bytes) := do
  let (kind, tagsize, contentsize) ← readKind buffer
  .ok (kind, (buffer.drop tagsize).take contentsize, buffer.drop (tagsize + contentsize))

def splitString (buffer : Bytes) : Except SplitError (Bytes × Bytes) := do
  let (kind, content, rest) ← split buffer
  if kind = .list then .error .expectedString else .ok (content, rest)

def splitList (buffer : Bytes) : Except SplitError (Bytes × Bytes) := do
  let (kind, content, rest) ← split buffer
  if kind ≠ .list then .error .expectedList else .ok (content, rest)

def countFrom : Nat → Bytes → Except SplitError Nat
  | 0, _ => .ok 0
  | rounds + 1, buffer =>
    if buffer = [] then .ok 0
    else do
      let (_, tagsize, size) ← readKind buffer
      let count ← countFrom rounds (buffer.drop (tagsize + size))
      .ok (count + 1)

/-- `CountValues`; every value has at least one byte, so the length of the
buffer bounds the rounds. -/
def countValues (buffer : Bytes) : Except SplitError Nat :=
  countFrom buffer.length buffer

theorem intsize_spec {num : Nat} (positive : 0 < num) (small : num < 2 ^ 64) :
    ∃ count, intsize num = count + 1 ∧ count < 8 ∧ 256 ^ count ≤ num ∧ num < 256 ^ (count + 1) := by
  unfold intsize
  split_ifs
  · exact ⟨0, rfl, by omega, by simpa using Nat.succ_le_of_lt positive, by simpa⟩
  · exact ⟨1, rfl, by omega, by omega, by omega⟩
  · exact ⟨2, rfl, by omega, by omega, by omega⟩
  · exact ⟨3, rfl, by omega, by omega, by omega⟩
  · exact ⟨4, rfl, by omega, by omega, by omega⟩
  · exact ⟨5, rfl, by omega, by omega, by omega⟩
  · exact ⟨6, rfl, by omega, by omega, by omega⟩
  · exact ⟨7, rfl, by omega, by omega, by omega⟩

theorem readSize_putint (large : 56 ≤ size) (small : size < 2 ^ 64) (rest : Bytes) :
    readSize (putint size ++ rest) (intsize size) = .ok size := by
  rcases intsize_spec (by omega) small with ⟨count, isCount, _, atLeast, below⟩
  have value : Bytes.toNat (bigEndian (BitVec.ofNat 64 size) (count + 1)) = size := by
    rw [Bytes.toNat_bigEndian, BitVec.toNat_ofNat, Nat.mod_eq_of_lt small, Nat.mod_eq_of_lt below]
  have leading : ((BitVec.ofNat 64 size) >>> (8 * count)).setWidth 8 ≠ (0 : Byte) := by
    intro isZero
    have asNat := congrArg BitVec.toNat isZero
    have power : 2 ^ (8 * count) = 256 ^ count := by rw [Nat.pow_mul]
    simp only [BitVec.toNat_setWidth, BitVec.toNat_ushiftRight, BitVec.toNat_ofNat,
      Nat.mod_eq_of_lt small, Nat.shiftRight_eq_div_pow, power] at asNat
    have quotient : size / 256 ^ count < 256 := by
      apply Nat.div_lt_of_lt_mul
      exact below
    have positive : 0 < size / 256 ^ count := Nat.div_pos atLeast (Nat.pow_pos (by omega))
    rw [Nat.mod_eq_of_lt quotient] at asNat
    exact absurd asNat (Nat.ne_of_gt positive)
  have taken : (putint size ++ rest).take (intsize size) = putint size := by simp [putint]
  have head : (putint size ++ rest).head? =
      some (((BitVec.ofNat 64 size) >>> (8 * count)).setWidth 8) := by
    simp [putint, isCount, bigEndian_succ]
  have long : ¬ intsize size > (putint size ++ rest).length := by simp [putint]
  simp only [readSize, if_neg long, taken, head]
  rw [putint, isCount, value, if_neg]
  rintro (less | zero)
  · omega
  · exact leading (Option.some.inj zero)

theorem toNat_tag (base : Nat) (small : base + size < 256) :
    (BitVec.ofNat 8 base + BitVec.ofNat 8 size : Byte).toNat = base + size := by
  simp only [BitVec.toNat_add, BitVec.toNat_ofNat]
  omega

structure Spells (kind : Kind) (header content : Bytes) : Prop where
  nonempty : header ++ content ≠ []
  reads : ∀ rest, readKind (header ++ content ++ rest) = .ok (kind, header.length, content.length)

section Spells

variable {kind : Kind} {header content : Bytes}

theorem split_of_spells (spells : Spells kind header content) (rest : Bytes) :
    split (header ++ content ++ rest) = .ok (kind, content, rest) := by
  have back : (header ++ content ++ rest).drop (header.length + content.length) = rest := by
    rw [← List.length_append, List.drop_left]
  have inner : ((header ++ content ++ rest).drop header.length).take content.length = content := by
    rw [List.append_assoc, List.drop_left, List.take_left]
  simp only [split, spells.reads, bind, Except.bind, back, inner]

theorem readKind_of_readTag {first : Byte} {front : Bytes}
    (tagged : ∀ rest, readTag first (front ++ content ++ rest) =
      .ok (kind, front.length + 1, content.length)) : Spells kind (first :: front) content where
  nonempty := by simp
  reads rest := by
    have fits : ¬ content.length > (front ++ content ++ rest).length + 1 - (front.length + 1) := by
      simp only [List.length_append]
      omega
    simp only [List.cons_append, readKind, tagged, bind, Except.bind, List.length_cons, if_neg fits]

variable (small : content.length < 2 ^ 64)
include small

theorem spells_long {smalltag : Byte} {base : Nat} (long : ¬ content.length < 56)
    (tags : kind = .string ∧ base = 0xb7 ∨ kind = .list ∧ base = 0xf7) :
    Spells kind (puthead smalltag (BitVec.ofNat 8 base) content.length) content := by
  rw [puthead, if_neg long]
  rcases intsize_spec (by omega) small with ⟨_, _, _, _, _⟩
  apply readKind_of_readTag
  intro rest
  have tag : (BitVec.ofNat 8 base + BitVec.ofNat 8 (intsize content.length) : Byte).toNat =
      base + intsize content.length := toNat_tag base (by omega)
  have size := readSize_putint (by omega) small (content ++ rest)
  have width : (putint content.length).length = intsize content.length := by simp [putint]
  simp only [readTag, tag, width]
  rw [if_neg (by omega), if_neg (by omega)]
  rcases tags with ⟨rfl, rfl⟩ | ⟨rfl, rfl⟩
  · rw [if_pos (by omega), List.append_assoc, Nat.add_sub_cancel_left, size]
    rfl
  · rw [if_neg (by omega), if_neg (by omega), List.append_assoc, Nat.add_sub_cancel_left, size]
    rfl

theorem spells_string (canon : ∀ byte, content = [byte] → 128 ≤ byte.toNat) :
    Spells .string (puthead 0x80 0xb7 content.length) content := by
  by_cases short : content.length < 56
  · rw [puthead, if_pos short]
    apply readKind_of_readTag
    intro rest
    have tag : ((0x80 : Byte) + BitVec.ofNat 8 content.length).toNat = 0x80 + content.length :=
      toNat_tag 0x80 (by omega)
    have canon : ¬ (0x80 + content.length - 0x80 = 1 ∧
        ∃ second ∈ ([] ++ content ++ rest).head?, second.toNat < 128) := by
      rintro ⟨_, second, isHead, _⟩
      rcases List.length_eq_one_iff.mp (show content.length = 1 by omega) with ⟨byte, rfl⟩
      have large := canon byte rfl
      cases isHead
      omega
    simp only [readTag, tag, if_neg canon]
    rw [if_neg (by omega), if_pos (by omega)]
    simp
  · exact spells_long small short (.inl ⟨rfl, rfl⟩)

theorem spells_list : Spells .list (puthead 0xc0 0xf7 content.length) content := by
  by_cases short : content.length < 56
  · rw [puthead, if_pos short]
    apply readKind_of_readTag
    intro rest
    have tag : ((0xc0 : Byte) + BitVec.ofNat 8 content.length).toNat = 0xc0 + content.length :=
      toNat_tag 0xc0 (by omega)
    simp only [readTag, tag]
    rw [if_neg (by omega), if_neg (by omega), if_neg (by omega), if_pos (by omega)]
    simp
  · exact spells_long small short (.inr ⟨rfl, rfl⟩)

end Spells

def stringKind : Bytes → Kind
  | [byte] => if byte.toNat ≤ 0x7f then .byte else .string
  | _ => .string

@[simp]
theorem stringKind_ne_list (bytes : Bytes) : stringKind bytes ≠ .list := by
  match bytes with
  | [] => simp [stringKind]
  | [byte] =>
    simp only [stringKind]
    split <;> simp
  | _ :: _ :: _ => simp [stringKind]

theorem stringKind_of_length (several : bytes.length ≠ 1) : stringKind bytes = .string := by
  match bytes with
  | [] => rfl
  | [byte] => simp at several
  | _ :: _ :: _ => rfl

section

variable (small : bytes.length < 2 ^ 64)
include small

theorem writeBytes_spells :
    ∃ header, writeBytes bytes = header ++ bytes ∧ Spells (stringKind bytes) header bytes := by
  match bytes with
  | [] => exact ⟨_, rfl, spells_string small (by simp)⟩
  | [byte] =>
    by_cases own : byte.toNat ≤ 0x7f
    · refine ⟨[], by simp [writeBytes, own], by simp, ?_⟩
      have tag : byte.toNat < 0x80 := by omega
      simp [readKind, readTag, tag, bind, Except.bind, stringKind, own]
    refine ⟨puthead 0x80 0xb7 1, by simp [writeBytes, own], ?_⟩
    rw [stringKind, if_neg own]
    apply spells_string small
    rintro _ ⟨⟩
    omega
  | first :: second :: rest => exact ⟨_, rfl, spells_string small (by simp)⟩

theorem split_writeBytes (rest : Bytes) :
    split (writeBytes bytes ++ rest) = .ok (stringKind bytes, bytes, rest) := by
  rcases writeBytes_spells small with ⟨_, wrote, spells⟩
  rw [wrote]
  exact split_of_spells spells rest

theorem splitString_writeBytes (rest : Bytes) :
    splitString (writeBytes bytes ++ rest) = .ok (bytes, rest) := by
  simp [splitString, split_writeBytes small, bind, Except.bind]

end

theorem split_list (small : payload.length < 2 ^ 64) (rest : Bytes) :
    split (list payload ++ rest) = .ok (.list, payload, rest) :=
  split_of_spells (spells_list small) rest

theorem splitList_list (small : payload.length < 2 ^ 64) (rest : Bytes) :
    splitList (list payload ++ rest) = .ok (payload, rest) := by
  simp [splitList, split_list small, bind, Except.bind]

def IsValue (value : Bytes) : Prop :=
  ∃ kind header content, value = header ++ content ∧ Spells kind header content

theorem isValue_writeBytes (small : bytes.length < 2 ^ 64) : IsValue (writeBytes bytes) := by
  rcases writeBytes_spells small with ⟨header, wrote, spells⟩
  exact ⟨_, header, bytes, wrote, spells⟩

theorem isValue_list (small : payload.length < 2 ^ 64) : IsValue (list payload) :=
  ⟨_, _, payload, rfl, spells_list small⟩

variable (values : ∀ item ∈ items, IsValue (encoded item))
include values

theorem countFrom_flatMap {rounds : Nat} (enough : (items.flatMap encoded).length ≤ rounds) :
    countFrom rounds (items.flatMap encoded) = .ok items.length := by
  induction items generalizing rounds with
  | nil => cases rounds <;> simp [countFrom]
  | cons _ items ih =>
    simp only [List.mem_cons, forall_eq_or_imp] at values
    rcases values.1 with ⟨_, header, content, split, spells⟩
    have positive := List.length_pos_of_ne_nil spells.nonempty
    simp only [List.flatMap_cons, split] at enough ⊢
    simp only [List.length_append] at enough positive
    cases rounds with
    | zero => omega
    | succ rounds =>
      have some : header ++ content ++ items.flatMap encoded ≠ [] := by
        intro nothing
        exact spells.nonempty (List.append_eq_nil_iff.mp nothing).1
      have back : (header ++ content ++ items.flatMap encoded).drop
          (header.length + content.length) = items.flatMap encoded := by
        rw [← List.length_append, List.drop_left]
      simp only [countFrom, if_neg some, spells.reads, bind, Except.bind, back,
        ih values.2 (show _ ≤ rounds by omega), List.length_cons]

theorem countValues_flatMap : countValues (items.flatMap encoded) = .ok items.length :=
  countFrom_flatMap values (Nat.le_refl _)

end Rlp

end Octopus
