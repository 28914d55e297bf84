import Octopus.Rlp.Decode

/-!
# Numbers in RLP

Unsigned and non-negative big integers are written as their big-endian bytes without
leading zeros.  The two writers of the source take different ways to the same string.
-/

namespace Octopus

open List Bytes

variable {num : Nat} {bytes second first : Bytes}

namespace Bytes

@[simp]
theorem toNat_nil : toNat [] = 0 := rfl

theorem toNat_lt (bytes : Bytes) : toNat bytes < 256 ^ bytes.length := by
  induction bytes with
  | nil => simp
  | cons byte bytes _ =>
    rw [toNat_cons, length_cons, Nat.pow_succ]
    calc byte.toNat * 256 ^ bytes.length + toNat bytes
        < byte.toNat * 256 ^ bytes.length + 256 ^ bytes.length := by omega
      _ = (byte.toNat + 1) * 256 ^ bytes.length := by ring
      _ ≤ 256 * 256 ^ bytes.length := Nat.mul_le_mul_right _ (by omega)
      _ = 256 ^ bytes.length * 256 := Nat.mul_comm _ _

theorem toNat_lt_of_length (few : bytes.length ≤ 8) : toNat bytes < 2 ^ 64 :=
  (toNat_lt bytes).trans_le (Nat.pow_le_pow_right (by omega) few)

theorem eq_of_toNat_eq (sameLength : first.length = second.length)
    (same : toNat first = toNat second) : first = second := by
  induction first generalizing second with
  | nil => exact (length_eq_zero_iff.mp sameLength.symm).symm
  | cons byte bytes ih =>
    rcases second with _ | ⟨other, others⟩
    · simp at sameLength
    simp only [length_cons, Nat.add_right_cancel_iff] at sameLength
    rw [toNat_cons, toNat_cons, sameLength] at same
    have below := toNat_lt bytes
    have otherBelow := toNat_lt others
    rw [sameLength] at below
    have positive : 0 < 256 ^ others.length := Nat.pow_pos (by omega)
    have leading : byte.toNat = other.toNat := by
      have left := Nat.add_mul_div_right (toNat bytes) byte.toNat positive
      have right := Nat.add_mul_div_right (toNat others) other.toNat positive
      rw [Nat.div_eq_of_lt below] at left
      rw [Nat.div_eq_of_lt otherBelow] at right
      rw [Nat.add_comm, same, Nat.add_comm] at left
      omega
    have trailing : toNat bytes = toNat others := by
      rw [leading] at same
      omega
    rw [BitVec.eq_of_toNat_eq leading, ih sameLength trailing]

def Canonical (bytes : Bytes) : Prop :=
  bytes.head? ≠ some 0

instance (bytes : Bytes) : Decidable (Canonical bytes) :=
  inferInstanceAs (Decidable (_ ≠ _))

theorem Canonical.pow_le {byte : Byte} (canon : Canonical (byte :: bytes)) :
    256 ^ bytes.length ≤ toNat (byte :: bytes) := by
  have nonzero : 0 < byte.toNat := by
    apply Nat.pos_of_ne_zero
    intro isZero
    apply canon
    rw [head?_cons, BitVec.eq_of_toNat_eq (y := 0) isZero]
  rw [toNat_cons]
  have scaled := Nat.mul_le_mul_right (256 ^ bytes.length) nonzero
  omega

theorem Canonical.length_le (canon : Canonical first) (same : toNat first = toNat second) :
    first.length ≤ second.length := by
  rcases first with _ | ⟨_, bytes⟩
  · simp
  have low := canon.pow_le
  have high := toNat_lt second
  have power : 256 ^ bytes.length < 256 ^ second.length := by omega
  have shorter := (Nat.pow_lt_pow_iff_right (by omega : 1 < 256)).mp power
  simp only [length_cons]
  omega

theorem Canonical.unique (canon : Canonical first) (other : Canonical second)
    (same : toNat first = toNat second) : first = second := by
  apply eq_of_toNat_eq _ same
  exact Nat.le_antisymm (canon.length_le same) (other.length_le same.symm)

end Bytes

namespace Rlp

open Bytes (Canonical)

def bitLen (number : Nat) : Nat :=
  if number = 0 then 0 else number.log2 + 1

def writeUint64 (number : Nat) : Bytes :=
  if number = 0 then [0x80]
  else if number < 128 then [BitVec.ofNat 8 number]
  else (0x80 + BitVec.ofNat 8 (intsize number)) :: putint number

/-- `Bytes` of a big integer: its digits to the base 256, the most significant
one first. -/
def digits (number : Nat) : Bytes :=
  let length := (bitLen number + 7) / 8
  bigEndian (BitVec.ofNat (8 * length) number) length

def writeBigInt (number : Nat) : Bytes :=
  if bitLen number ≤ 64 then writeUint64 number
  else puthead 0x80 0xb7 ((bitLen number + 7) / 8) ++ digits number

theorem lt_two_pow_bitLen (num : Nat) : num < 2 ^ bitLen num := by
  rw [bitLen]
  split_ifs with isZero
  · omega
  · exact Nat.lt_log2_self

theorem two_pow_le_of_bitLen (positive : num ≠ 0) : 2 ^ (bitLen num - 1) ≤ num := by
  rw [bitLen, if_neg positive]
  exact Nat.log2_self_le positive

theorem bitLen_le_iff (num width : Nat) : bitLen num ≤ width ↔ num < 2 ^ width := by
  constructor
  · intro short
    exact (lt_two_pow_bitLen num).trans_le (Nat.pow_le_pow_right (by omega) short)
  · intro small
    by_cases isZero : num = 0
    · simp [bitLen, isZero]
    · have low := two_pow_le_of_bitLen isZero
      have power := (Nat.pow_lt_pow_iff_right (by omega : 1 < 2)).mp (low.trans_lt small)
      omega

@[simp]
theorem length_digits (num : Nat) : (digits num).length = (bitLen num + 7) / 8 := by
  simp [digits]

@[simp]
theorem toNat_digits (num : Nat) : toNat (digits num) = num := by
  have small : num < 2 ^ (8 * ((bitLen num + 7) / 8)) :=
    (lt_two_pow_bitLen num).trans_le (Nat.pow_le_pow_right (by omega) (by omega))
  have bytes : num < 256 ^ ((bitLen num + 7) / 8) := by
    rw [Nat.pow_mul] at small
    exact small
  rw [digits, toNat_bigEndian, BitVec.toNat_ofNat, Nat.mod_eq_of_lt small, Nat.mod_eq_of_lt bytes]

theorem canonical_bigEndian {width count : Nat} (small : num < 2 ^ width)
    (below : num < 256 ^ (count + 1)) (atLeast : 256 ^ count ≤ num) :
    Canonical (bigEndian (BitVec.ofNat width num) (count + 1)) := by
  have value : toNat (bigEndian (BitVec.ofNat width num) (count + 1)) = num := by
    rw [toNat_bigEndian, BitVec.toNat_ofNat, Nat.mod_eq_of_lt small, Nat.mod_eq_of_lt below]
  rw [bigEndian_succ] at value ⊢
  intro zero
  rw [head?_cons, Option.some.injEq] at zero
  have less := toNat_lt (bigEndian (BitVec.ofNat width num) count)
  rw [toNat_cons, zero] at value
  simp only [BitVec.ofNat_eq_ofNat, BitVec.toNat_ofNat, Nat.zero_mod, Nat.zero_mul,
    Nat.zero_add] at value
  rw [value, length_bigEndian] at less
  omega

theorem canonical_digits (num : Nat) : Canonical (digits num) := by
  by_cases isZero : num = 0
  · subst isZero
    decide
  have low := two_pow_le_of_bitLen isZero
  have high := lt_two_pow_bitLen num
  have positive : 0 < bitLen num := by simp [bitLen, isZero]
  have count : (bitLen num + 7) / 8 = (bitLen num + 7) / 8 - 1 + 1 := by omega
  have power : ∀ bytes : Nat, 256 ^ bytes = 2 ^ (8 * bytes) := by
    intro bytes
    rw [Nat.pow_mul]
  rw [digits, count]
  apply canonical_bigEndian
  · exact high.trans_le (Nat.pow_le_pow_right (by omega) (by omega))
  · rw [power]
    exact high.trans_le (Nat.pow_le_pow_right (by omega) (by omega))
  · rw [power]
    exact (Nat.pow_le_pow_right (by omega) (by omega)).trans low

theorem digits_toNat (canon : Canonical bytes) : digits (toNat bytes) = bytes :=
  (canonical_digits _).unique canon (toNat_digits _)

theorem putint_eq_digits (positive : 0 < num) (small : num < 2 ^ 64) : putint num = digits num := by
  rcases intsize_spec positive small with ⟨_, isCount, _, atLeast, below⟩
  rw [putint, isCount]
  apply (canonical_bigEndian small below atLeast).unique (canonical_digits num)
  rw [toNat_digits, toNat_bigEndian, BitVec.toNat_ofNat, Nat.mod_eq_of_lt small,
    Nat.mod_eq_of_lt below]

theorem writeUint64_eq (small : num < 2 ^ 64) : writeUint64 num = writeBytes (digits num) := by
  by_cases isZero : num = 0
  · subst isZero
    rfl
  have positive : 0 < num := Nat.pos_of_ne_zero isZero
  rcases intsize_spec positive small with ⟨_, _, _, _, _⟩
  have spelled := putint_eq_digits positive small
  have length : (putint num).length = intsize num := by simp [putint]
  rw [← spelled, writeUint64, if_neg isZero]
  split_ifs with single
  · have one : num < 2 ^ 8 := by omega
    have bytes : putint num = [BitVec.ofNat 8 num] := by
      apply eq_of_toNat_eq
      · rw [length, intsize, if_pos one]
        rfl
      · rw [spelled, toNat_digits]
        simp only [Bytes.toNat, foldl_cons, foldl_nil, BitVec.toNat_ofNat]
        omega
    rw [bytes, writeBytes, if_pos]
    simp only [BitVec.toNat_ofNat]
    omega
  · have head : puthead 0x80 0xb7 (putint num).length = [0x80 + BitVec.ofNat 8 (intsize num)] := by
      rw [puthead, if_pos (by omega), length]
    rcases bytes : putint num with _ | ⟨byte, _ | ⟨_, _⟩⟩
    · rw [bytes] at length
      simp at length
      omega
    · have own : ¬ byte.toNat ≤ 0x7f := by
        have value : toNat (putint num) = num := by rw [spelled, toNat_digits]
        rw [bytes] at value
        simp only [Bytes.toNat, foldl_cons, foldl_nil] at value
        omega
      rw [bytes] at head
      simp only [writeBytes, if_neg own]
      rw [show (1 : Nat) = [byte].length from rfl, head]
      rfl
    · rw [bytes] at head
      rw [writeBytes, head]
      · rfl
      · simp

theorem writeBigInt_eq (num : Nat) : writeBigInt num = writeBytes (digits num) := by
  rw [writeBigInt]
  split_ifs with short
  · exact writeUint64_eq ((bitLen_le_iff num 64).mp short)
  · have several : 2 ≤ (digits num).length := by
      rw [length_digits]
      omega
    rw [← length_digits]
    rcases bytes : digits num with _ | ⟨_, _ | ⟨_, _⟩⟩
    · simp [bytes] at several
    · simp [bytes] at several
    · rw [writeBytes]
      simp

theorem digits_injective : Function.Injective digits := by
  intro first _ same
  rw [← toNat_digits first, same, toNat_digits]

theorem writeBytes_append_inj {firstRest secondRest : Bytes} (small : first.length < 2 ^ 64)
    (otherSmall : second.length < 2 ^ 64)
    (same : writeBytes first ++ firstRest = writeBytes second ++ secondRest) :
    first = second ∧ firstRest = secondRest := by
  have left := splitString_writeBytes small firstRest
  rw [same, splitString_writeBytes otherSmall secondRest] at left
  simp only [Except.ok.injEq, Prod.mk.injEq] at left
  exact ⟨left.1.symm, left.2.symm⟩

theorem writeBytes_ne_nil (small : bytes.length < 2 ^ 64) : writeBytes bytes ≠ [] := by
  rcases writeBytes_spells small with ⟨_, wrote, spells⟩
  rw [wrote]
  exact spells.nonempty

theorem flatMap_writeBytes_inj {first second : List Bytes}
    (small : ∀ bytes ∈ first, bytes.length < 2 ^ 64)
    (otherSmall : ∀ bytes ∈ second, bytes.length < 2 ^ 64)
    (same : first.flatMap writeBytes = second.flatMap writeBytes) : first = second := by
  induction first generalizing second with
  | nil =>
    rcases second with _ | ⟨bytes, rest⟩
    · rfl
    · have empty : writeBytes bytes = [] := (append_eq_nil_iff.mp same.symm).1
      exact absurd empty (writeBytes_ne_nil (otherSmall bytes (by simp)))
  | cons bytes _ ih =>
    rcases second with _ | ⟨other, _⟩
    · have empty : writeBytes bytes = [] := (append_eq_nil_iff.mp same).1
      exact absurd empty (writeBytes_ne_nil (small bytes (by simp)))
    · rcases writeBytes_append_inj (small bytes (by simp)) (otherSmall other (by simp)) same with
        ⟨rfl, sameRest⟩
      rw [ih (fun bytes mem => small bytes (by simp [mem]))
        (fun bytes mem => otherSmall bytes (by simp [mem])) sameRest]

theorem list_inj (small : first.length < 2 ^ 64) (otherSmall : second.length < 2 ^ 64)
    (same : list first = list second) : first = second := by
  have left := splitList_list small []
  rw [same, splitList_list otherSmall []] at left
  simp only [Except.ok.injEq, Prod.mk.injEq] at left
  exact left.1.symm

end Rlp

theorem addressBytes_injective : Function.Injective addressBytes := by
  intro first second same
  apply BitVec.eq_of_toNat_eq
  have left := toNat_bigEndian first 20
  rw [← addressBytes, same, addressBytes, toNat_bigEndian] at left
  omega

@[simp]
theorem length_addressBytes (addr : Address) : (addressBytes addr).length = 20 :=
  length_bigEndian addr 20

end Octopus
