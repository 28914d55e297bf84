import Octopus.Rlp.Stream

/-!
# Codecs of fields and structures

All of them are exact: a decoder accepts only what the encoder writes for the value it
returns.
-/

namespace Octopus

open Library Bytes

variable {num : Nat} {content : Bytes}

namespace Rlp

abbrev FieldCodec := Codec Byte DecodeError

namespace FieldCodec

def uint64 : FieldCodec (BitVec 64) where
  write number := some (writeUint64 number.toNat)
  read buffer :=
    match Stream.uint 8 buffer with
    | .error error => .error error
    | .ok (number, rest) => .ok (BitVec.ofNat 64 number, rest)

/-- A `big.Int`; the encoder refuses a negative one with `ErrNegativeBigInt`. -/
def bigInt : FieldCodec Int where
  write number := if number < 0 then none else some (writeBigInt number.toNat)
  read buffer :=
    match Stream.bigInt buffer with
    | .error error => .error error
    | .ok (number, rest) => .ok (number, rest)

def bytes : FieldCodec Bytes where
  write content := some (writeBytes content)
  read := Stream.bytes

def recipient : FieldCodec (Option Address) where
  write address := some (Stream.writeNilByteArray (address.map addressBytes))
  read buffer :=
    match Stream.nilByteArray 20 buffer with
    | .error error => .error error
    | .ok (content, rest) => .ok (content.map Bytes.toAddress, rest)

theorem string_within {Value : Type} {codec : FieldCodec Value} {value : Value}
    (small : content.length < 2 ^ 64) (writes : codec.write value = some (writeBytes content))
    (reads : ∀ rest, codec.read (writeBytes content ++ rest) = .ok (value, rest)) :
    codec.CompletesWithin value (content.length + 9) := by
  refine ⟨⟨_, writes, writeBytes_ne_nil small, reads⟩, ?_⟩
  intro _ wrote
  cases writes.symm.trans wrote
  exact length_writeBytes_le content

theorem uint64_within (num : BitVec 64) : uint64.CompletesWithin num 17 := by
  have small := num.isLt
  have few := Stream.length_digits_le_eight small
  refine (@string_within (digits num.toNat) _ _ _ (by omega) ?_ ?_).mono (by omega)
  · simp [uint64, writeUint64_eq small]
  · rw [← writeUint64_eq small]
    simp [uint64, Stream.uint_writeUint64 small few]

theorem uint64_exact : uint64.Exact := by
  intro buffer _ _ parsed
  rcases read : Stream.uint 8 buffer with error | ⟨_, _⟩
  · simp [uint64, read] at parsed
  simp only [uint64, read] at parsed
  cases parsed
  rcases Stream.uint64_eq_ok read with ⟨small, rfl⟩
  refine ⟨_, rfl, ?_⟩
  rw [BitVec.toNat_ofNat, Nat.mod_eq_of_lt small]

theorem bigInt_write_isSome (num : Int) : (bigInt.write num).isSome ↔ 0 ≤ num := by
  simp only [bigInt]
  split_ifs with negative <;> simp <;> omega

theorem bigInt_within {num : Int} (positive : 0 ≤ num)
    (small : (digits num.toNat).length < 2 ^ 64) :
    bigInt.CompletesWithin num ((digits num.toNat).length + 9) := by
  apply string_within small
  · simp only [bigInt]
    rw [if_neg (by omega), writeBigInt_eq]
  · intro _
    rw [← writeBigInt_eq]
    simp only [bigInt, Stream.bigInt_writeBigInt small]
    rw [Int.toNat_of_nonneg positive]

theorem bigInt_exact : bigInt.Exact := by
  intro buffer _ _ parsed
  rcases read : Stream.bigInt buffer with error | ⟨value, _⟩
  · simp [bigInt, read] at parsed
  simp only [bigInt, read] at parsed
  cases parsed
  rcases Stream.bigInt_eq_ok read with ⟨-, rfl⟩
  refine ⟨writeBigInt value, ?_, rfl⟩
  simp only [bigInt]
  rw [if_neg (by omega), Int.toNat_natCast]

theorem bytes_within (small : content.length < 2 ^ 64) :
    bytes.CompletesWithin content (content.length + 9) :=
  string_within small rfl (Stream.bytes_writeBytes small)

theorem bytes_exact : bytes.Exact := by
  intro _ _ _ parsed
  exact ⟨_, rfl, (Stream.bytes_eq_ok parsed).2⟩

theorem toAddress_addressBytes (addr : Address) : toAddress (addressBytes addr) = addr := by
  apply BitVec.eq_of_toNat_eq
  rw [toAddress, addressBytes, toNat_bigEndian, BitVec.toNat_ofNat]
  omega

theorem addressBytes_toAddress (length : content.length = 20) :
    addressBytes (toAddress content) = content := by
  apply eq_of_toNat_eq (by simp [length])
  have small := toNat_lt content
  rw [length] at small
  rw [toAddress, addressBytes, toNat_bigEndian, BitVec.toNat_ofNat]
  omega

theorem recipient_within (addr : Option Address) : recipient.CompletesWithin addr 29 := by
  have lengths : ∀ array ∈ addr.map addressBytes, array.length = 20 := by cases addr <;> simp
  refine ⟨⟨_, rfl, ?_, ?_⟩, ?_⟩
  · cases addr with
    | none => simp [Stream.writeNilByteArray, emptyString]
    | some addr =>
      have few : (addressBytes addr).length < 2 ^ 64 := by simp
      exact writeBytes_ne_nil few
  · intro rest
    have read := Stream.nilByteArray_writeNilByteArray lengths (by omega) (by omega) rest
    have back : toAddress ∘ addressBytes = id := funext toAddress_addressBytes
    simp [recipient, read, back]
  · intro _ wrote
    cases wrote
    cases addr with
    | none => simp [Stream.writeNilByteArray, emptyString]
    | some addr =>
      have bound := length_writeBytes_le (addressBytes addr)
      simpa [Stream.writeNilByteArray] using bound

theorem recipient_exact : recipient.Exact := by
  intro buffer _ _ parsed
  rcases read : Stream.nilByteArray 20 buffer with error | ⟨content, _⟩
  · simp [recipient, read] at parsed
  simp only [recipient, read] at parsed
  cases parsed
  rcases Stream.nilByteArray_eq_ok (by omega) read with ⟨lengths, rfl⟩
  refine ⟨_, rfl, ?_⟩
  cases content with
  | none => rfl
  | some array => simp [addressBytes_toAddress (lengths array rfl)]

def uint (width : Nat) : FieldCodec Nat where
  write number := some (writeUint64 number)
  read := Stream.uint width

def bigNat : FieldCodec Nat where
  write number := some (writeBigInt number)
  read := Stream.bigInt

def array (length : Nat) : FieldCodec (BitVec (8 * length)) where
  write value := some (writeBytes (bigEndian value length))
  read buffer :=
    match Stream.byteArray length buffer with
    | .error error => .error error
    | .ok (content, rest) => .ok (BitVec.ofNat (8 * length) (Bytes.toNat content), rest)

theorem uint_within {width : Nat} (small : num < 2 ^ 64)
    (narrow : (digits num).length ≤ width) : (uint width).CompletesWithin num 17 := by
  have few := Stream.length_digits_le_eight small
  refine (@string_within (digits num) _ _ _ (by omega) ?_ ?_).mono (by omega)
  · rw [← writeUint64_eq small]
    rfl
  · rw [← writeUint64_eq small]
    exact Stream.uint_writeUint64 small narrow

theorem bigNat_within (small : (digits num).length < 2 ^ 64) :
    bigNat.CompletesWithin num ((digits num).length + 9) := by
  apply string_within small
  · rw [← writeBigInt_eq]
    rfl
  · rw [← writeBigInt_eq]
    exact Stream.bigInt_writeBigInt small

theorem ofNat_toNat_bigEndian {length : Nat} (value : BitVec (8 * length)) :
    BitVec.ofNat (8 * length) (Bytes.toNat (bigEndian value length)) = value := by
  have small := value.isLt
  have power : 2 ^ (8 * length) = 256 ^ length := by rw [Nat.pow_mul]
  apply BitVec.eq_of_toNat_eq
  rw [toNat_bigEndian, BitVec.toNat_ofNat, ← power, Nat.mod_mod, Nat.mod_eq_of_lt small]

theorem array_within (length : Nat) (several : 1 < length) (small : length < 2 ^ 64)
    (value : BitVec (8 * length)) : (array length).CompletesWithin value (length + 9) := by
  have isLength : (bigEndian value length).length = length := length_bigEndian value length
  refine (@string_within (bigEndian value length) _ _ _ (by omega) rfl ?_).mono (by omega)
  simp [array, Stream.byteArray_writeBytes isLength several small, ofNat_toNat_bigEndian]

end FieldCodec

def listFrame : Codec.Frame Byte DecodeError where
  wrap := list
  unwrap := Stream.list

theorem list_ne_nil (payload : Bytes) : list payload ≠ [] := by
  simp only [list, puthead]
  split_ifs <;> simp

theorem listFrame_completes {payload : Bytes} (small : payload.length < 2 ^ 64) :
    listFrame.Completes payload :=
  ⟨list_ne_nil payload, Stream.list_list small⟩

theorem listFrame_exact : listFrame.Exact := by
  intro _ _ _ parsed
  exact (Stream.list_eq_ok parsed).2

def reportTooFew : DecodeError → DecodeError
  | .endOfList => .tooFewElements
  | error => error

/-- A structure, from the codec of its fields in order: `makeStructWriter` and
`makeStructDecoder`. -/
def structCodec {Value : Type} (fields : FieldCodec Value) : FieldCodec Value :=
  fields.framed listFrame reportTooFew .notAtEndOfList

/-- `makeSliceWriter` and `decodeListSlice`.  Every value takes at least one byte. -/
def sliceCodec {Value : Type} (codec : FieldCodec Value) : FieldCodec (List Value) :=
  codec.sliced listFrame .notAtEndOfList

def encodeToBytes {Value : Type} (codec : FieldCodec Value) (value : Value) : Option Bytes :=
  codec.write value

def decodeBytes {Value : Type} (codec : FieldCodec Value) (bytes : Bytes) :
    Except DecodeError Value :=
  if bytes = [] then .error .eof
  else
    match codec.read bytes with
    | .error error => .error error
    | .ok (value, []) => .ok value
    | .ok (_, _ :: _) => .error .moreThanOneValue

def decode {Value : Type} (codec : FieldCodec Value) (bytes : Bytes) : Except DecodeError Value :=
  if bytes = [] then .error .eof
  else
    match codec.read bytes with
    | .error error => .error error
    | .ok (value, _) => .ok value

variable {Value : Type} {codec : FieldCodec Value} {value : Value} {values : List Value}

theorem length_listFrame_le (payload : Bytes) :
    (listFrame.wrap payload).length ≤ payload.length + 9 := by
  have header := length_puthead_le 0xc0 0xf7 payload.length
  simp only [listFrame, list, List.length_append]
  omega

theorem structCodec_within {bound : Nat} (within : codec.CompletesWithin value bound)
    (small : bound < 2 ^ 64) : (structCodec codec).CompletesWithin value (bound + 9) := by
  constructor
  · apply within.completes.framed
    intro text wrote
    have length := within.atMost text wrote
    exact listFrame_completes (by omega)
  · intro _ wrote
    rcases Option.map_eq_some_iff.mp wrote with ⟨payload, isPayload, rfl⟩
    exact (length_listFrame_le payload).trans
      (Nat.add_le_add_right (within.atMost payload isPayload) 9)

theorem sliceCodec_within (size : Value → Nat)
    (within : ∀ value ∈ values, codec.CompletesWithin value (size value))
    (small : (values.map size).sum < 2 ^ 64) :
    (sliceCodec codec).CompletesWithin values ((values.map size).sum + 9) := by
  have atMost : ∀ value ∈ values, codec.AtMost value (size value) :=
    fun value mem => (within value mem).atMost
  constructor
  · apply Codec.Completes.sliced fun value mem => (within value mem).completes
    intro _ wrote
    have length := Codec.length_writeAll_le atMost wrote
    exact listFrame_completes (by omega)
  · intro _ wrote
    rcases Option.map_eq_some_iff.mp wrote with ⟨payload, isPayload, rfl⟩
    exact (length_listFrame_le payload).trans
      (Nat.add_le_add_right (Codec.length_writeAll_le atMost isPayload) 9)

theorem decode_of_completes (completes : codec.Completes value) :
    ∃ text, encodeToBytes codec value = some text ∧ text ≠ [] ∧ decode codec text = .ok value := by
  rcases completes with ⟨text, writes, nonempty, reads⟩
  have alone := reads []
  rw [List.append_nil] at alone
  exact ⟨text, writes, nonempty, by simp [decode, nonempty, alone]⟩

theorem decodeBytes_of_completes (completes : codec.Completes value) :
    ∃ text, encodeToBytes codec value = some text ∧ decodeBytes codec text = .ok value := by
  rcases completes with ⟨text, writes, nonempty, reads⟩
  have alone := reads []
  rw [List.append_nil] at alone
  exact ⟨text, writes, by simp [decodeBytes, nonempty, alone]⟩

theorem encodeToBytes_of_decodeBytes (isExact : codec.Exact) {bytes : Bytes}
    (decoded : decodeBytes codec bytes = .ok value) : encodeToBytes codec value = some bytes := by
  rw [decodeBytes] at decoded
  split_ifs at decoded with empty
  rcases read : codec.read bytes with error | ⟨_, _ | ⟨_, _⟩⟩
  · simp [read] at decoded
  · simp only [read, Except.ok.injEq] at decoded
    subst decoded
    rcases isExact _ _ _ read with ⟨_, writes, rfl⟩
    simpa [encodeToBytes] using writes
  · simp [read] at decoded

end Rlp

end Octopus
