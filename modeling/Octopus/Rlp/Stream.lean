import Octopus.Library.Codec
import Octopus.Rlp.Numbers

/-!
# Decoding from a stream

The buffer is what is left of the innermost list.  The texts that name types and fields of
a failed decoding are left out, and the two errors for a value that does not fit, into its
list or into the input, are one.  Every decoder accepts exactly what the encoder writes.
-/

namespace Octopus

open Library Bytes List

variable {num size length : Nat} {rest buf content payload : Bytes} {first : Byte}

namespace Rlp

inductive DecodeError where
  | eof
  | endOfList
  | canonInt
  | canonSize
  | tooLarge
  | expectedString
  | expectedList
  | uintOverflow
  | wrongLength
  | wrongNilKind
  | tooFewElements
  | notAtEndOfList
  | moreThanOneValue
  deriving DecidableEq

namespace Stream

def readUint (size : Nat) (buffer : Bytes) : Except DecodeError (Nat × Bytes) :=
  if size = 0 then .ok (0, buffer)
  else if buffer.length < size then .error .tooLarge
  -- a single byte is returned as it is
  else if 1 < size ∧ buffer.head? = some 0 then .error .canonSize
  else .ok (Bytes.toNat (buffer.take size), buffer.drop size)

def readSize (size : Nat) (buffer : Bytes) : Except DecodeError (Nat × Bytes) :=
  match readUint size buffer with
  | .error error => .error error
  | .ok (number, rest) => if number < 56 then .error .canonSize else .ok (number, rest)

/-- What `readKind` returns, and the input after the tag.  The value of a single
byte is in its tag. -/
structure Head where
  kind : Kind
  size : Nat
  byteval : Byte
  rest : Bytes

variable {head : Head}

def readTag (first : Byte) (rest : Bytes) : Except DecodeError Head :=
  let tag := first.toNat
  if tag < 0x80 then .ok ⟨.byte, 0, first, rest⟩
  else if tag < 0xb8 then .ok ⟨.string, tag - 0x80, 0, rest⟩
  else if tag < 0xc0 then
    (readSize (tag - 0xb7) rest).map fun (size, rest) => ⟨.string, size, 0, rest⟩
  else if tag < 0xf8 then .ok ⟨.list, tag - 0xc0, 0, rest⟩
  else (readSize (tag - 0xf7) rest).map fun (size, rest) => ⟨.list, size, 0, rest⟩

/-- `Kind`.  The size is compared with what was left before the tag was read. -/
def kind (buffer : Bytes) : Except DecodeError Head :=
  match buffer with
  | [] => .error .endOfList
  | first :: rest =>
    match readTag first rest with
    | .error error => .error error
    | .ok head => if buffer.length < head.size then .error .tooLarge else .ok head

def readFull (head : Head) : Except DecodeError (Bytes × Bytes) :=
  if head.rest.length < head.size then .error .tooLarge
  else .ok (head.rest.take head.size, head.rest.drop head.size)

def shortForm (content : Bytes) : Bool :=
  match content with
  | [byte] => byte.toNat < 128
  | _ => false

def bytes (buffer : Bytes) : Except DecodeError (Bytes × Bytes) :=
  match kind buffer with
  | .error error => .error error
  | .ok head =>
    match head.kind with
    | .byte => .ok ([head.byteval], head.rest)
    | .string =>
      match readFull head with
      | .error error => .error error
      | .ok (content, rest) => if shortForm content then .error .canonSize else .ok (content, rest)
    | .list => .error .expectedString

def uint (width : Nat) (buffer : Bytes) : Except DecodeError (Nat × Bytes) :=
  match kind buffer with
  | .error error => .error error
  | .ok head =>
    match head.kind with
    | .byte => if head.byteval = 0 then .error .canonInt else .ok (head.byteval.toNat, head.rest)
    | .string =>
      if width < head.size then .error .uintOverflow
      else
        match readUint head.size head.rest with
        | .error .canonSize => .error .canonInt
        | .error error => .error error
        | .ok (number, rest) =>
          if 0 < head.size ∧ number < 128 then .error .canonSize else .ok (number, rest)
    | .list => .error .expectedString

def bigInt (buffer : Bytes) : Except DecodeError (Nat × Bytes) :=
  match kind buffer with
  | .error error => .error error
  | .ok head =>
    match head.kind with
    | .list => .error .expectedString
    | .byte => if head.byteval = 0 then .error .canonInt else .ok (head.byteval.toNat, head.rest)
    | .string =>
      match readFull head with
      | .error error => .error error
      | .ok (content, rest) =>
        if shortForm content then .error .canonSize
        else if content.head? = some 0 then .error .canonInt
        else .ok (Bytes.toNat content, rest)

def byteArray (length : Nat) (buffer : Bytes) : Except DecodeError (Bytes × Bytes) :=
  match kind buffer with
  | .error error => .error error
  | .ok head =>
    match head.kind with
    | .byte => .error .wrongLength
    | .string => if head.size = length then readFull head else .error .wrongLength
    | .list => .error .expectedString

def nilByteArray (length : Nat) (buffer : Bytes) : Except DecodeError (Option Bytes × Bytes) :=
  match kind buffer with
  | .error error => .error error
  | .ok head =>
    if head.kind ≠ .byte ∧ head.size = 0 then
      if head.kind ≠ .string then .error .wrongNilKind else .ok (none, head.rest)
    else (byteArray length buffer).map fun (content, rest) => (some content, rest)

def list (buffer : Bytes) : Except DecodeError (Bytes × Bytes) :=
  match kind buffer with
  | .error error => .error error
  | .ok head => if head.kind ≠ .list then .error .expectedList else readFull head

theorem readUint_eq_ok (positive : 0 < size) (parsed : readUint size buf = .ok (num, rest)) :
    ∃ content, buf = content ++ rest ∧ content.length = size ∧ toNat content = num ∧
      (0 < num → Bytes.Canonical content) := by
  rw [readUint, if_neg (by omega)] at parsed
  split_ifs at parsed with short zero
  cases parsed
  refine ⟨buf.take size, (take_append_drop size buf).symm, ?_, rfl, ?_⟩
  · rw [length_take]
    omega
  · intro _ isZero
    rcases buf with _ | ⟨first, buf⟩
    · simp at isZero
    rcases size with _ | _ | size
    · omega
    · simp_all [Bytes.toNat]
    · exact zero ⟨by omega, by simpa using isZero⟩

theorem readUint_append (positive : content ≠ []) (canon : Bytes.Canonical content) :
    readUint content.length (content ++ rest) = .ok (toNat content, rest) := by
  have nonempty := length_pos_iff.mpr positive
  rw [readUint, if_neg (by omega), if_neg (by simp), if_neg]
  · simp
  · rintro ⟨-, zero⟩
    apply canon
    rcases content with _ | ⟨_, content⟩
    · exact absurd rfl positive
    · simpa using zero

theorem readSize_eq_ok (positive : 0 < size) (parsed : readSize size buf = .ok (num, rest))
    (few : size ≤ 8) : 56 ≤ num ∧ num < 2 ^ 64 ∧ intsize num = size ∧ buf = putint num ++ rest := by
  rcases read : readUint size buf with error | ⟨_, _⟩
  · simp [readSize, read] at parsed
  simp only [readSize, read] at parsed
  split_ifs at parsed with small
  cases parsed
  rcases readUint_eq_ok positive read with ⟨content, rfl, length, rfl, canon⟩
  have isCanonical := canon (by omega)
  have below : toNat content < 2 ^ 64 := toNat_lt_of_length (by omega)
  have spelled : putint (toNat content) = content := by
    rw [putint_eq_digits (by omega) below, digits_toNat isCanonical]
  refine ⟨by omega, below, ?_, by rw [spelled]⟩
  have sizes := congrArg List.length spelled
  rw [putint, length_bigEndian] at sizes
  omega

theorem readSize_putint (large : 56 ≤ num) (small : num < 2 ^ 64) (rest : Bytes) :
    readSize (intsize num) (putint num ++ rest) = .ok (num, rest) := by
  have spelled := putint_eq_digits (by omega) small
  have length : (putint num).length = intsize num := by simp [putint]
  have nonempty : putint num ≠ [] := by
    intro empty
    rcases intsize_spec (by omega) small with ⟨_, _, -⟩
    rw [empty] at length
    simp only [length_nil] at length
    omega
  have canon : Bytes.Canonical (putint num) := by
    rw [spelled]
    exact canonical_digits num
  rw [readSize, ← length, readUint_append nonempty canon, spelled, toNat_digits]
  simp only
  rw [if_neg (by omega)]

def header : Kind → Nat → Bytes
  | .byte, _ => []
  | .string, size => puthead 0x80 0xb7 size
  | .list, size => puthead 0xc0 0xf7 size

theorem eq_tag {base : Byte} (tag : first.toNat = base.toNat + size) :
    first = base + BitVec.ofNat 8 size := by
  apply BitVec.eq_of_toNat_eq
  simp only [BitVec.toNat_add, BitVec.toNat_ofNat]
  omega

theorem cons_eq_short {smalltag : Byte} (largetag : Byte)
    (tag : first.toNat = smalltag.toNat + size) (short : size < 56) (rest : Bytes) :
    first :: rest = puthead smalltag largetag size ++ rest := by
  rw [puthead, if_pos short, ← eq_tag tag, List.singleton_append]

theorem cons_eq_long {largetag : Byte} (smalltag : Byte)
    (tag : first.toNat = largetag.toNat + intsize size) (long : 56 ≤ size) (rest : Bytes) :
    first :: (putint size ++ rest) = puthead smalltag largetag size ++ rest := by
  rw [puthead, if_neg (by omega), ← eq_tag tag, cons_append]

theorem readLong_eq_ok {kind : Kind} (smalltag largetag : Byte)
    (above : largetag.toNat < first.toNat) (near : first.toNat ≤ largetag.toNat + 8)
    (parsed : (readSize (first.toNat - largetag.toNat) rest).map
      (fun (size, rest) => (⟨kind, size, 0, rest⟩ : Head)) = .ok head) :
    head.kind = kind ∧ head.size < 2 ^ 64 ∧
      first :: rest = puthead smalltag largetag head.size ++ head.rest := by
  rcases sized : readSize (first.toNat - largetag.toNat) rest with error | ⟨size, tail⟩
  · simp [sized, Except.map] at parsed
  simp only [sized, Except.map, Except.ok.injEq] at parsed
  subst parsed
  rcases readSize_eq_ok (by omega) sized (by omega) with ⟨large, small, _, rfl⟩
  exact ⟨rfl, small, cons_eq_long smalltag (by omega) large tail⟩

theorem readTag_eq_ok (parsed : readTag first rest = .ok head) :
    (head = ⟨.byte, 0, first, rest⟩ ∧ first.toNat < 128) ∨ (head.kind ≠ .byte ∧ head.size < 2 ^ 64 ∧
        first :: rest = header head.kind head.size ++ head.rest) := by
  have stringTag : (0x80 : Byte).toNat = 0x80 := rfl
  have longStringTag : (0xb7 : Byte).toNat = 0xb7 := rfl
  have listTag : (0xc0 : Byte).toNat = 0xc0 := rfl
  have longListTag : (0xf7 : Byte).toNat = 0xf7 := rfl
  simp only [readTag] at parsed
  split_ifs at parsed with single short long shortList
  · cases parsed
    exact .inl ⟨rfl, single⟩
  · cases parsed
    have spelled : first :: rest = puthead 0x80 0xb7 (first.toNat - 0x80) ++ rest :=
      cons_eq_short 0xb7 (by omega) (by omega) rest
    refine .inr ⟨by simp, ?_, spelled⟩
    show first.toNat - 0x80 < 2 ^ 64
    omega
  · rcases readLong_eq_ok 0x80 0xb7 (by omega) (by omega) parsed with ⟨isString, small, spelled⟩
    exact .inr ⟨by simp [isString], small, by rw [isString]; exact spelled⟩
  · cases parsed
    have spelled : first :: rest = puthead 0xc0 0xf7 (first.toNat - 0xc0) ++ rest :=
      cons_eq_short 0xf7 (by omega) (by omega) rest
    refine .inr ⟨by simp, ?_, spelled⟩
    show first.toNat - 0xc0 < 2 ^ 64
    omega
  · rcases readLong_eq_ok 0xc0 0xf7 (by omega) (by omega) parsed with ⟨isList, small, spelled⟩
    exact .inr ⟨by simp [isList], small, by rw [isList]; exact spelled⟩

theorem kind_eq_ok (parsed : kind buf = .ok head) :
    (head.kind = .byte ∧ head.byteval.toNat < 128 ∧ buf = head.byteval :: head.rest) ∨
      (head.kind ≠ .byte ∧ head.size < 2 ^ 64 ∧ buf = header head.kind head.size ++ head.rest) := by
  rcases buf with _ | ⟨first, rest⟩
  · simp [kind] at parsed
  rcases tagged : readTag first rest with error | found
  · simp [kind, tagged] at parsed
  simp only [kind, tagged] at parsed
  split_ifs at parsed
  cases parsed
  rcases readTag_eq_ok tagged with ⟨rfl, single⟩ | spelled
  · exact .inl ⟨rfl, single, rfl⟩
  · exact .inr spelled

theorem kind_of_readTag (tagged : readTag first rest = .ok head) (fits : head.size ≤ rest.length) :
    kind (first :: rest) = .ok head := by
  simp only [kind, tagged]
  rw [if_neg]
  rw [List.length_cons]
  omega

theorem kind_single {byte : Byte} (single : byte.toNat < 128) (rest : Bytes) :
    kind (byte :: rest) = .ok ⟨.byte, 0, byte, rest⟩ :=
  kind_of_readTag (by simp [readTag, if_pos single]) (Nat.zero_le _)

theorem kind_header {isKind : Kind} (several : isKind ≠ .byte) (small : size < 2 ^ 64)
    (fits : size ≤ rest.length) :
    kind (header isKind size ++ rest) = .ok ⟨isKind, size, 0, rest⟩ := by
  by_cases short : size < 56
  · have stringTag : ((0x80 : Byte) + BitVec.ofNat 8 size).toNat = 0x80 + size :=
      toNat_tag 0x80 (by omega)
    have listTag : ((0xc0 : Byte) + BitVec.ofNat 8 size).toNat = 0xc0 + size :=
      toNat_tag 0xc0 (by omega)
    cases isKind with
    | byte => exact absurd rfl several
    | string =>
      rw [header, puthead, if_pos short, List.singleton_append]
      apply kind_of_readTag _ fits
      simp only [readTag, stringTag]
      rw [if_neg (by omega), if_pos (by omega), Nat.add_sub_cancel_left]
    | list =>
      rw [header, puthead, if_pos short, List.singleton_append]
      apply kind_of_readTag _ fits
      simp only [readTag, listTag]
      rw [if_neg (by omega), if_neg (by omega), if_neg (by omega), if_pos (by omega),
        Nat.add_sub_cancel_left]
  · rcases intsize_spec (by omega) small with ⟨_, _, _, _, _⟩
    have stringTag : ((0xb7 : Byte) + BitVec.ofNat 8 (intsize size)).toNat = 0xb7 + intsize size :=
      toNat_tag 0xb7 (by omega)
    have listTag : ((0xf7 : Byte) + BitVec.ofNat 8 (intsize size)).toNat = 0xf7 + intsize size :=
      toNat_tag 0xf7 (by omega)
    have sized := readSize_putint (by omega) small rest
    have longer : size ≤ (putint size ++ rest).length := by
      rw [length_append]
      omega
    cases isKind with
    | byte => exact absurd rfl several
    | string =>
      rw [header, puthead, if_neg short, cons_append]
      apply kind_of_readTag _ longer
      simp only [readTag, stringTag]
      rw [if_neg (by omega), if_neg (by omega), if_pos (by omega), Nat.add_sub_cancel_left, sized]
      rfl
    | list =>
      rw [header, puthead, if_neg short, cons_append]
      apply kind_of_readTag _ longer
      simp only [readTag, listTag]
      rw [if_neg (by omega), if_neg (by omega), if_neg (by omega), if_neg (by omega),
        Nat.add_sub_cancel_left, sized]
      rfl

theorem kind_content {isKind : Kind} (several : isKind ≠ .byte) (small : content.length < 2 ^ 64)
    (rest : Bytes) : kind (header isKind content.length ++ (content ++ rest)) =
      .ok ⟨isKind, content.length, 0, content ++ rest⟩ :=
  kind_header several small (by simp)

theorem readFull_eq_ok (parsed : readFull head = .ok (content, rest)) :
    content.length = head.size ∧ head.rest = content ++ rest := by
  rw [readFull] at parsed
  split_ifs at parsed with short
  cases parsed
  refine ⟨?_, (take_append_drop _ _).symm⟩
  rw [length_take]
  omega

@[simp]
theorem readFull_append (isKind : Kind) (byteval : Byte) (content rest : Bytes) :
    readFull ⟨isKind, content.length, byteval, content ++ rest⟩ = .ok (content, rest) := by
  simp [readFull]

theorem writeBytes_of_not_shortForm (long : shortForm content = false) :
    writeBytes content = header .string content.length ++ content := by
  match content with
  | [] => rfl
  | [byte] =>
    simp only [shortForm, decide_eq_false_iff_not] at long
    simp only [writeBytes]
    rw [if_neg (by omega)]
    rfl
  | _ :: _ :: _ => rfl

theorem exists_of_shortForm (short : shortForm content = true) :
    ∃ byte, content = [byte] ∧ byte.toNat < 128 ∧ writeBytes content = [byte] := by
  match content with
  | [] => simp [shortForm] at short
  | [byte] =>
    simp only [shortForm, decide_eq_true_eq] at short
    refine ⟨byte, rfl, short, ?_⟩
    simp only [writeBytes]
    rw [if_pos (by omega)]
  | _ :: _ :: _ => simp [shortForm] at short

theorem bytes_writeBytes (small : content.length < 2 ^ 64) (rest : Bytes) :
    bytes (writeBytes content ++ rest) = .ok (content, rest) := by
  cases short : shortForm content with
  | true =>
    rcases exists_of_shortForm short with ⟨_, rfl, single, wrote⟩
    rw [wrote, List.singleton_append]
    simp [bytes, kind_single single]
  | false =>
    have headed := kind_content (show Kind.string ≠ .byte by simp) small rest
    rw [writeBytes_of_not_shortForm short, List.append_assoc]
    simp [bytes, headed, short]

theorem bytes_eq_ok (parsed : bytes buf = .ok (content, rest)) :
    content.length < 2 ^ 64 ∧ buf = writeBytes content ++ rest := by
  rcases headed : kind buf with error | head
  · simp [bytes, headed] at parsed
  rcases kind_eq_ok headed with ⟨isByte, _, spelled⟩ | ⟨several, small, spelled⟩
  · simp only [bytes, headed, isByte] at parsed
    cases parsed
    refine ⟨by simp, ?_⟩
    simp only [writeBytes]
    rw [if_pos (by omega), List.singleton_append, spelled]
  rcases isKind : head.kind with _ | _ | _
  · exact absurd isKind several
  · rcases full : readFull head with error | ⟨_, _⟩
    · simp [bytes, headed, isKind, full] at parsed
    simp only [bytes, headed, isKind, full] at parsed
    split_ifs at parsed with short
    cases parsed
    rcases readFull_eq_ok full with ⟨length, contents⟩
    rw [writeBytes_of_not_shortForm (by simpa using short), spelled, contents, length, isKind,
      List.append_assoc]
    exact ⟨small, rfl⟩
  · simp [bytes, headed, isKind] at parsed

theorem bigInt_eq (buf : Bytes) :
    bigInt buf =
      match bytes buf with
      | .error error => .error error
      | .ok (content, rest) =>
        if content.head? = some 0 then .error .canonInt
        else .ok (toNat content, rest) := by
  rcases headed : kind buf with error | head
  · simp [bigInt, bytes, headed]
  rcases isKind : head.kind with _ | _ | _
  · simp [bigInt, bytes, headed, isKind, Bytes.toNat]
  · rcases full : readFull head with error | ⟨content, rest⟩
    · simp [bigInt, bytes, headed, isKind, full]
    · cases short : shortForm content <;> simp [bigInt, bytes, headed, isKind, full, short]
  · simp [bigInt, bytes, headed, isKind]

theorem bigInt_writeBigInt (small : (digits num).length < 2 ^ 64) (rest : Bytes) :
    bigInt (writeBigInt num ++ rest) = .ok (num, rest) := by
  have canon := canonical_digits num
  rw [bigInt_eq, writeBigInt_eq, bytes_writeBytes small]
  simp only
  rw [if_neg canon, toNat_digits]

theorem bigInt_eq_ok (parsed : bigInt buf = .ok (num, rest)) :
    (digits num).length < 2 ^ 64 ∧ buf = writeBigInt num ++ rest := by
  rw [bigInt_eq] at parsed
  rcases read : bytes buf with error | ⟨_, _⟩
  · simp [read] at parsed
  simp only [read] at parsed
  split_ifs at parsed with zero
  cases parsed
  rcases bytes_eq_ok read with ⟨small, rfl⟩
  rw [writeBigInt_eq, digits_toNat zero]
  exact ⟨small, rfl⟩

theorem length_digits_le_one (small : num < 128) : (digits num).length ≤ 1 := by
  have few := (bitLen_le_iff num 7).mpr small
  rw [length_digits]
  omega

theorem length_digits_le_eight (small : num < 2 ^ 64) : (digits num).length ≤ 8 := by
  have few := (bitLen_le_iff num 64).mpr small
  rw [length_digits]
  omega

theorem le_of_not_shortForm (long : shortForm (digits num) = false)
    (positive : 0 < (digits num).length) : 128 ≤ num := by
  by_contra small
  have few := length_digits_le_one (show num < 128 by omega)
  rcases length_eq_one_iff.mp (show (digits num).length = 1 by omega) with ⟨_, single⟩
  have value := toNat_digits num
  rw [single] at long value
  simp only [shortForm, decide_eq_false_iff_not] at long
  simp only [Bytes.toNat, foldl_cons, foldl_nil] at value
  omega

theorem readUint_digits (num : Nat) (rest : Bytes) :
    readUint (digits num).length (digits num ++ rest) = .ok (num, rest) := by
  by_cases zero : digits num = []
  · have value := toNat_digits num
    rw [zero] at value ⊢
    simp [readUint, ← value]
  · rw [readUint_append zero (canonical_digits num), toNat_digits]

theorem uint_writeUint64 {width : Nat} (small : num < 2 ^ 64)
    (narrow : (digits num).length ≤ width) (rest : Bytes) :
    uint width (writeUint64 num ++ rest) = .ok (num, rest) := by
  have canon := canonical_digits num
  have value := toNat_digits num
  have few := length_digits_le_eight small
  rw [writeUint64_eq small]
  cases short : shortForm (digits num) with
  | true =>
    rcases exists_of_shortForm short with ⟨byte, isByte, single, wrote⟩
    rw [isByte] at canon value
    have positive : byte ≠ 0 := by
      rintro rfl
      exact canon rfl
    simp only [Bytes.toNat, foldl_cons, foldl_nil, Nat.zero_mul, Nat.zero_add] at value
    rw [wrote, List.singleton_append]
    simp only [uint, kind_single single]
    rw [if_neg positive, value]
  | false =>
    have headed := kind_content (show Kind.string ≠ .byte by simp)
      (show (digits num).length < 2 ^ 64 by omega) rest
    have large : ¬ (0 < (digits num).length ∧ num < 128) := by
      rintro ⟨positive, _⟩
      have := le_of_not_shortForm short positive
      omega
    rw [writeBytes_of_not_shortForm short, List.append_assoc]
    simp only [uint, headed, readUint_digits]
    rw [if_neg (by omega), if_neg large]

theorem readUint_spelled (parsed : readUint size buf = .ok (num, rest))
    (large : ¬ (0 < size ∧ num < 128)) :
    buf = digits num ++ rest ∧ (digits num).length = size ∧ shortForm (digits num) = false := by
  rcases Nat.eq_zero_or_pos size with rfl | positive
  · cases parsed
    have empty : digits 0 = [] := by decide
    simp [empty, shortForm]
  rcases readUint_eq_ok positive parsed with ⟨content, rfl, length, rfl, canon⟩
  rw [digits_toNat (canon (by omega))]
  refine ⟨rfl, length, ?_⟩
  rw [← Bool.not_eq_true]
  intro short
  rcases exists_of_shortForm short with ⟨byte, rfl, single, -⟩
  apply large
  refine ⟨positive, ?_⟩
  simpa [Bytes.toNat] using single

theorem uint64_eq_ok (parsed : uint 8 buf = .ok (num, rest)) :
    num < 2 ^ 64 ∧ buf = writeUint64 num ++ rest := by
  rcases headed : kind buf with error | head
  · simp [uint, headed] at parsed
  rcases kind_eq_ok headed with ⟨isByte, _, spelled⟩ | ⟨several, _, spelled⟩
  · simp only [uint, headed, isByte] at parsed
    split_ifs at parsed with zero
    cases parsed
    have below : head.byteval.toNat < 2 ^ 64 := by omega
    have canon : Bytes.Canonical [head.byteval] := by
      intro isZero
      exact zero (by simpa using isZero)
    have isDigit : digits head.byteval.toNat = [head.byteval] := by
      have back := digits_toNat canon
      simpa [Bytes.toNat] using back
    refine ⟨below, ?_⟩
    rw [writeUint64_eq below, isDigit]
    simp only [writeBytes]
    rw [if_pos (by omega), List.singleton_append, spelled]
  · rcases isKind : head.kind with _ | _ | _
    · exact absurd isKind several
    · rcases read : readUint head.size head.rest with error | ⟨_, _⟩
      · simp only [uint, headed, isKind, read] at parsed
        split_ifs at parsed
        cases error <;> simp at parsed
      simp only [uint, headed, isKind, read] at parsed
      split_ifs at parsed with wide low
      cases parsed
      rcases readUint_spelled read low with ⟨contents, length, long⟩
      have below : num < 2 ^ 64 := by
        rw [← toNat_digits num]
        exact toNat_lt_of_length (by omega)
      refine ⟨below, ?_⟩
      rw [writeUint64_eq below, writeBytes_of_not_shortForm long, spelled, contents, length, isKind,
        List.append_assoc]
    · simp [uint, headed, isKind] at parsed

theorem not_shortForm_of_length (several : 1 < content.length) : shortForm content = false := by
  rw [← Bool.not_eq_true]
  intro short
  rcases exists_of_shortForm short with ⟨_, rfl, -, -⟩
  simp at several

theorem byteArray_writeBytes (isLength : content.length = length) (several : 1 < length)
    (small : length < 2 ^ 64) (rest : Bytes) :
    byteArray length (writeBytes content ++ rest) = .ok (content, rest) := by
  have long := not_shortForm_of_length (isLength ▸ several)
  have headed := kind_content (show Kind.string ≠ .byte by simp) (isLength ▸ small) rest
  rw [writeBytes_of_not_shortForm long, List.append_assoc]
  simp [byteArray, headed, isLength.symm]

theorem byteArray_eq_ok (several : 1 < length)
    (parsed : byteArray length buf = .ok (content, rest)) :
    content.length = length ∧ buf = writeBytes content ++ rest := by
  rcases headed : kind buf with error | head
  · simp [byteArray, headed] at parsed
  rcases kind_eq_ok headed with ⟨isByte, _, spelled⟩ | ⟨notByte, _, spelled⟩
  · simp [byteArray, headed, isByte] at parsed
  rcases isKind : head.kind with _ | _ | _
  · exact absurd isKind notByte
  · simp only [byteArray, headed, isKind] at parsed
    split_ifs at parsed with isLength
    rcases readFull_eq_ok parsed with ⟨size, contents⟩
    have long : shortForm content = false := not_shortForm_of_length (by omega)
    refine ⟨by omega, ?_⟩
    rw [writeBytes_of_not_shortForm long, spelled, contents, size, isKind, List.append_assoc]
  · simp [byteArray, headed, isKind] at parsed

def writeNilByteArray : Option Bytes → Bytes
  | none => emptyString
  | some content => writeBytes content

theorem nilByteArray_writeNilByteArray {content : Option Bytes}
    (isLength : ∀ array ∈ content, array.length = length) (several : 1 < length)
    (small : length < 2 ^ 64) (rest : Bytes) :
    nilByteArray length (writeNilByteArray content ++ rest) = .ok (content, rest) := by
  cases content with
  | none =>
    have headed : kind (header .string 0 ++ rest) = .ok ⟨.string, 0, 0, rest⟩ :=
      kind_header (by simp) (by omega) (Nat.zero_le _)
    have wrote : writeNilByteArray none = header .string 0 := rfl
    rw [wrote]
    simp [nilByteArray, headed]
  | some array =>
    have read := byteArray_writeBytes (isLength array rfl) several small rest
    rcases headed : kind (writeBytes array ++ rest) with error | head
    · simp [byteArray, headed] at read
    have notEmpty : ¬ (head.kind ≠ .byte ∧ head.size = 0) := by
      simp only [byteArray, headed] at read
      rcases isKind : head.kind with _ | _ | _
      · simp [isKind] at read
      · simp only [isKind] at read
        split_ifs at read
        omega
      · simp [isKind] at read
    simp only [nilByteArray, writeNilByteArray, headed]
    rw [if_neg notEmpty, read]
    rfl

theorem nilByteArray_eq_ok {content : Option Bytes} (several : 1 < length)
    (parsed : nilByteArray length buf = .ok (content, rest)) :
    (∀ array ∈ content, array.length = length) ∧ buf = writeNilByteArray content ++ rest := by
  rcases headed : kind buf with error | head
  · simp [nilByteArray, headed] at parsed
  simp only [nilByteArray, headed] at parsed
  split_ifs at parsed with empty wrongKind
  · cases parsed
    rcases kind_eq_ok headed with ⟨isByte, -, -⟩ | ⟨-, -, spelled⟩
    · exact absurd isByte empty.1
    · rw [not_not.mp wrongKind, empty.2] at spelled
      exact ⟨by simp, spelled⟩
  · rcases read : byteArray length buf with error | ⟨array, _⟩
    · simp [read, Except.map] at parsed
    simp only [read] at parsed
    cases parsed
    rcases byteArray_eq_ok several read with ⟨count, spelled⟩
    exact ⟨by simpa using count, spelled⟩

theorem list_list (small : payload.length < 2 ^ 64) (rest : Bytes) :
    list (Rlp.list payload ++ rest) = .ok (payload, rest) := by
  have headed := kind_content (show Kind.list ≠ .byte by simp) small rest
  have wrote : Rlp.list payload = header .list payload.length ++ payload := rfl
  rw [wrote, List.append_assoc]
  simp [list, headed]

theorem list_eq_ok (parsed : list buf = .ok (payload, rest)) :
    payload.length < 2 ^ 64 ∧ buf = Rlp.list payload ++ rest := by
  rcases headed : kind buf with error | head
  · simp [list, headed] at parsed
  simp only [list, headed] at parsed
  split_ifs at parsed with notList
  have isList := not_not.mp notList
  rcases readFull_eq_ok parsed with ⟨size, contents⟩
  rcases kind_eq_ok headed with ⟨isByte, -, -⟩ | ⟨-, _, spelled⟩
  · rw [isList] at isByte
    exact absurd isByte (by simp)
  · refine ⟨by omega, ?_⟩
    rw [spelled, contents, isList, ← size, ← List.append_assoc]
    rfl

end Stream

end Rlp

end Octopus
