import Octopus.Entity.Basic
import Octopus.Library.Radix

/-!
# Key encodings

The hex form of a key ends with a terminator, so no key is an initial segment of another.
The compact form packs the nibbles into bytes, behind a byte of flags for the terminator
and for an odd number of nibbles.
-/

namespace Octopus

variable {ended : Bool} {pos : Nat} {front : Bytes} {first : Byte}

/-- An entry of a key in hex form: a nibble, or the terminator `16`. -/
abbrev Nibble := Fin 17

instance nibbleNeZero : NeZero 17 :=
  ⟨by decide⟩

variable {hex body : List Nibble}

def terminator : Nibble := 16

def isTerminator (nibble : Nibble) : Bool :=
  nibble == terminator

def byteNibbles (byte : Byte) : List Nibble :=
  [⟨byte.toNat / 16, by omega⟩, ⟨byte.toNat % 16, by omega⟩]

def keybytesToHex (key : Bytes) : List Nibble :=
  key.flatMap byteNibbles ++ [terminator]

def hasTerm (hex : List Nibble) : Bool :=
  hex.getLast? == some terminator

def nibbleByte (nibble : Nibble) : Byte :=
  BitVec.ofNat 8 nibble.val

def decodeNibbles : List Nibble → Bytes
  | high :: low :: rest => (nibbleByte high <<< 4 ||| nibbleByte low) :: decodeNibbles rest
  | _ => []

def hexToCompact (hex : List Nibble) : Bytes :=
  let flag : Byte := if hasTerm hex then 1 <<< 5 else 0
  let hex := if hasTerm hex then hex.dropLast else hex
  match hex with
  | first :: rest =>
    if hex.length % 2 = 1 then (flag ||| 1 <<< 4 ||| nibbleByte first) :: decodeNibbles rest
    else flag :: decodeNibbles hex
  | [] => [flag]

/-- The loop of `hexToCompactInPlace`: pairs of nibbles are packed into the
front of the buffer they are read from. -/
def packInPlace (hexLen : Nat) : Nat → Nat → Nat → Bytes → Bytes
  | 0, _, _, buffer => buffer
  | rounds + 1, bi, ni, buffer =>
    if ni < hexLen then
      packInPlace hexLen rounds (bi + 1) (ni + 2)
        (buffer.set bi (buffer.getD ni 0 <<< 4 ||| buffer.getD (ni + 1) 0))
    else buffer

def hexToCompactInPlace (hex : List Nibble) : Bytes :=
  let buffer := hex.map nibbleByte
  let flag : Byte := if hasTerm hex then 1 <<< 5 else 0
  let hexLen := if hasTerm hex then hex.length - 1 else hex.length
  let odd := hexLen % 2 = 1
  let firstByte := if odd then flag ||| 1 <<< 4 ||| buffer.getD 0 0 else flag
  let packed := packInPlace hexLen hexLen 1 (if odd then 1 else 0) buffer
  (packed.set 0 firstByte).take (hexLen / 2 + 1)

/-- Whether the indices of the loop of `hexToCompactInPlace` are within the buffer. -/
def packBounds (hexLen size : Nat) : Nat → Nat → Nat → Bool
  | 0, _, _ => true
  | rounds + 1, bi, ni =>
    if ni < hexLen then
      bi < size && ni + 1 < size && packBounds hexLen size rounds (bi + 1) (ni + 2)
    else true

/-- `hexToCompactInPlace` with its bounds checks: the length and the part of the buffer. -/
def hexToCompactInPlaceChecked (hex : List Nibble) : Except Fault (Nat × Bytes) :=
  let hexLen := if hasTerm hex then hex.length - 1 else hex.length
  if packBounds hexLen hex.length hexLen 1 (hexLen % 2) ∧ 0 < hex.length then
    .ok (hexLen / 2 + 1, hexToCompactInPlace hex)
  else .error (.panic "index out of range")

def hexToKeybytes (hex : List Nibble) : Except Fault Bytes :=
  let hex := if hasTerm hex then hex.dropLast else hex
  if hex.length % 2 ≠ 0 then .error (.panic "can't convert hex key of odd length")
  else .ok (decodeNibbles hex)

def compactToHex (compact : Bytes) : List Nibble :=
  match compact with
  | [] => []
  | first :: _ =>
    let base := keybytesToHex compact
    let base := if first.toNat / 16 < 2 then base.dropLast else base
    base.drop (2 - first.toNat / 16 % 2)

def prefixLen : List Nibble → List Nibble → Nat
  | first :: left, second :: right => if first = second then prefixLen left right + 1 else 0
  | _, _ => 0

open Library RadixTree

abbrev readsKey (ended : Bool) (hex : List Nibble) : Prop :=
  RadixTree.after isTerminator ended hex = some true

theorem after_byteNibbles (byte : Byte) (rest : List Nibble) :
    after isTerminator false (byteNibbles byte ++ rest) = after isTerminator false rest := by
  have high : isTerminator (⟨byte.toNat / 16, by omega⟩ : Nibble) = false := by
    simp only [isTerminator, terminator, beq_eq_false_iff_ne, ne_eq, Fin.ext_iff]
    omega
  have low : isTerminator (⟨byte.toNat % 16, by omega⟩ : Nibble) = false := by
    simp only [isTerminator, terminator, beq_eq_false_iff_ne, ne_eq, Fin.ext_iff]
    omega
  simp [byteNibbles, after, high, low]

theorem readsKey_keybytesToHex (key : Bytes) : readsKey false (keybytesToHex key) := by
  induction key with
  | nil => rfl
  | cons _ _ ih =>
    simpa only [readsKey, keybytesToHex, List.flatMap_cons, List.append_assoc,
      after_byteNibbles] using ih

theorem byteNibbles_injective {second : Byte} (same : byteNibbles first = byteNibbles second) :
    first = second := by
  simp only [byteNibbles, List.cons.injEq, Fin.mk.injEq] at same
  apply BitVec.eq_of_toNat_eq
  omega

theorem keybytesToHex_injective : Function.Injective keybytesToHex := by
  intro first second same
  induction first generalizing second with
  | nil =>
    cases second with
    | nil => rfl
    | cons =>
      have lengths := congrArg List.length same
      simp [keybytesToHex, byteNibbles] at lengths
  | cons byte first ih =>
    cases second with
    | nil =>
      have lengths := congrArg List.length same
      simp [keybytesToHex, byteNibbles] at lengths
    | cons other second =>
      have split : byteNibbles byte ++ keybytesToHex first =
          byteNibbles other ++ keybytesToHex second := by
        simpa [keybytesToHex] using same
      rcases List.append_inj split rfl with ⟨heads, tails⟩
      rw [byteNibbles_injective heads, ih tails]

theorem prefixLen_meet (key label : List Nibble) :
    prefixLen key label =
      match meet label key with
      | .through _ => label.length
      | .fork common _ _ _ _ => common.length
      | .within => key.length := by
  induction label generalizing key with
  | nil => cases key <;> rfl
  | cons symbol label ih =>
    cases key with
    | nil => rfl
    | cons head key =>
      by_cases same : symbol = head
      · subst same
        simp only [prefixLen, meet, ih key]
        cases meet label key <;> rfl
      · simp [prefixLen, meet, same, Ne.symm same]

theorem strip_of_not_isPrefix {label key : List Nibble} (apart : ¬ label <+: key) :
    strip label key = none := by
  cases stripped : strip label key with
  | none => rfl
  | some rest =>
    rw [strip_eq_some] at stripped
    exact absurd ⟨rest, stripped.symm⟩ apart

theorem getD_append_pair (atFront : front.length = pos) (first second : Byte) (rest : Bytes) :
    (front ++ first :: second :: rest).getD pos 0 = first ∧
      (front ++ first :: second :: rest).getD (pos + 1) 0 = second := by
  subst atFront
  simp

theorem set_append_gap (atFront : front.length = pos) (gap : Bytes) (first second : Byte)
    (rest : Bytes) (wrote : Byte) :
    (front ++ gap ++ first :: second :: rest).set pos wrote =
      (front ++ [wrote]) ++ (gap ++ [first, second]).tail ++ rest := by
  subst atFront
  cases gap <;> simp

theorem take_packInPlace (front gap tail : Bytes) (rest : List Nibble) {hexLen rounds bi ni : Nat}
    (even : rest.length % 2 = 0) (atFront : front.length = bi)
    (atGap : (front ++ gap).length = ni) (whole : hexLen = ni + rest.length)
    (enough : rest.length / 2 ≤ rounds) :
    (packInPlace hexLen rounds bi ni (front ++ gap ++ (rest.map nibbleByte ++ tail))).take
      (bi + rest.length / 2) = front ++ decodeNibbles rest := by
  induction rest using decodeNibbles.induct generalizing front gap rounds bi ni with
  | case1 high low rest ih =>
    simp only [List.length_cons] at even whole enough
    cases rounds with
    | zero => omega
    | succ rounds =>
      have within : ni < hexLen := by omega
      simp only [List.map_cons, List.cons_append, packInPlace, within, if_true]
      rcases getD_append_pair atGap (nibbleByte high) (nibbleByte low)
        (rest.map nibbleByte ++ tail) with ⟨readHigh, readLow⟩
      rw [readHigh, readLow, set_append_gap atFront]
      have packed := ih (front ++ [nibbleByte high <<< 4 ||| nibbleByte low])
        (gap ++ [nibbleByte high, nibbleByte low]).tail (by omega)
        (show _ = bi + 1 by simp [atFront])
        (show _ = ni + 2 by simp [← atGap]; omega) (by omega)
        (show rest.length / 2 ≤ rounds by omega)
      have size : bi + (rest.length + 1 + 1) / 2 = bi + 1 + rest.length / 2 := by omega
      rw [List.length_cons, List.length_cons, size, packed]
      simp [decodeNibbles]
  | case2 rest single =>
    have nothing : rest = [] := by
      match rest with
      | [] => rfl
      | [_] => simp at even
      | high :: low :: more => exact absurd rfl (single high low more)
    subst nothing
    subst whole
    cases rounds with
    | zero | succ => simp [packInPlace, decodeNibbles, ← atFront]

theorem pack_odd (first : Nibble) (rest ending : List Nibble) (even : rest.length % 2 = 0) :
    (packInPlace (rest.length + 1) (rest.length + 1) 1 1
      ((first :: rest ++ ending).map nibbleByte)).take ((rest.length + 1) / 2 + 1) =
      nibbleByte first :: decodeNibbles rest := by
  have packed := take_packInPlace [nibbleByte first] [] (ending.map nibbleByte) rest even rfl rfl
    (show rest.length + 1 = 1 + rest.length by omega) (show _ ≤ rest.length + 1 by omega)
  have size : (rest.length + 1) / 2 + 1 = 1 + rest.length / 2 := by omega
  simpa [size] using packed

/-- An even number of nibbles: the first round overwrites a nibble that it has
just read. -/
theorem pack_even (first second : Nibble) (rest ending : List Nibble) (even : rest.length % 2 = 0) :
    (packInPlace (rest.length + 2) (rest.length + 2) 1 0
      ((first :: second :: rest ++ ending).map nibbleByte)).take ((rest.length + 2) / 2 + 1) =
      nibbleByte first :: decodeNibbles (first :: second :: rest) := by
  have packed := take_packInPlace
    [nibbleByte first, nibbleByte first <<< 4 ||| nibbleByte second] [] (ending.map nibbleByte)
    rest even rfl rfl (show rest.length + 2 = 2 + rest.length by omega)
    (show _ ≤ rest.length + 1 by omega)
  have size : (rest.length + 2) / 2 + 1 = 2 + rest.length / 2 := by omega
  rw [size, packInPlace, if_pos (by omega)]
  simpa [decodeNibbles] using packed

theorem hexToCompactInPlace_eq (here : hex ≠ []) : hexToCompactInPlace hex = hexToCompact hex := by
  have parts : ∃ body ending, hex = body ++ ending ∧
      (if hasTerm hex then hex.dropLast else hex) = body ∧
      (if hasTerm hex then hex.length - 1 else hex.length) = body.length := by
    cases hasTerm hex with
    | true => exact ⟨hex.dropLast, [hex.getLast here],
          (List.dropLast_append_getLast here).symm, rfl, List.length_dropLast.symm⟩
    | false => exact ⟨hex, [], (List.append_nil hex).symm, rfl, rfl⟩
  rcases parts with ⟨body, ending, split, isBody, isLength⟩
  simp only [hexToCompactInPlace, hexToCompact, isBody, isLength, List.take_set]
  rw [split] at here ⊢
  match body with
  | [] =>
    cases ending with
    | nil => exact absurd rfl here
    | cons => simp [packInPlace]
  | first :: rest =>
    by_cases odd : (rest.length + 1) % 2 = 1
    · simp only [List.length_cons, odd, if_true]
      rw [pack_odd first rest ending (by omega)]
      simp
    simp only [List.length_cons, odd, if_false]
    match rest with
    | [] => simp at odd
    | second :: rest =>
      rw [List.length_cons, pack_even first second rest ending (by simp at odd; omega)]
      simp

theorem parts_of_after (reads : after isTerminator false hex = some ended) :
    ∃ body : List Nibble, (∀ nibble ∈ body, nibble.val < 16) ∧
      hex = body ++ (if ended then [terminator] else []) := by
  induction hex with
  | nil =>
    cases reads
    exact ⟨[], by simp⟩
  | cons nibble rest ih =>
    by_cases last : isTerminator nibble
    · simp only [after, last] at reads
      cases rest with
      | nil =>
        cases reads
        exact ⟨[], by simp, by simpa [isTerminator] using last⟩
      | cons => cases reads
    simp only [Bool.not_eq_true] at last
    simp only [after, last] at reads
    rcases ih reads with ⟨body, small, rfl⟩
    refine ⟨nibble :: body, ?_, rfl⟩
    have below : nibble.val < 16 := by
      simp only [isTerminator, terminator, beq_eq_false_iff_ne, ne_eq, Fin.ext_iff] at last
      omega
    simpa [below] using small

theorem byteNibbles_packed (high low : Nibble) (highSmall : high.val < 16)
    (lowSmall : low.val < 16) :
    byteNibbles (nibbleByte high <<< 4 ||| nibbleByte low) = [high, low] := by
  revert high low
  decide +kernel

theorem flatMap_decodeNibbles {nibbles : List Nibble} (even : nibbles.length % 2 = 0)
    (small : ∀ nibble ∈ nibbles, nibble.val < 16) :
    (decodeNibbles nibbles).flatMap byteNibbles = nibbles := by
  induction nibbles using decodeNibbles.induct with
  | case1 high low _ ih =>
    simp only [List.mem_cons, forall_eq_or_imp] at small
    simp only [List.length_cons] at even
    rw [decodeNibbles, List.flatMap_cons, byteNibbles_packed high low small.1 small.2.1,
      ih (by omega) small.2.2]
    rfl
  | case2 rest single =>
    match rest with
    | [] => rfl
    | [_] => simp at even
    | high :: low :: more => exact absurd rfl (single high low more)

theorem hasTerm_parts (small : ∀ nibble ∈ body, nibble.val < 16) (ended : Bool) :
    hasTerm (body ++ if ended then [terminator] else []) = ended := by
  cases ended with
  | true => simp [hasTerm]
  | false =>
    simp only [hasTerm, Bool.false_eq_true, if_false, List.append_nil, beq_eq_false_iff_ne]
    intro last
    have := small _ (List.mem_of_getLast? last)
    simp [terminator] at this

theorem byteNibbles_flags (ended : Bool) (first : Nibble) (small : first.val < 16) :
    byteNibbles ((if ended then (1 <<< 5 : Byte) else 0) ||| 1 <<< 4 ||| nibbleByte first) =
        [if ended then 3 else 1, first] ∧
      byteNibbles (if ended then (1 <<< 5 : Byte) else 0) = [if ended then 2 else 0, 0] := by
  revert ended first
  decide +kernel

theorem hexToCompact_parts (small : ∀ nibble ∈ body, nibble.val < 16) (ended : Bool) :
    hexToCompact (body ++ if ended then [terminator] else []) =
      if body.length % 2 = 1 then
        ((if ended then (1 <<< 5 : Byte) else 0) ||| 1 <<< 4 ||| nibbleByte (body.headD 0)) ::
          decodeNibbles body.tail
      else (if ended then (1 <<< 5 : Byte) else 0) :: decodeNibbles body := by
  have body_eq : (if hasTerm (body ++ if ended then [terminator] else []) then
      (body ++ if ended then [terminator] else []).dropLast
      else body ++ if ended then [terminator] else []) = body := by
    rw [hasTerm_parts small ended]
    cases ended <;> simp
  rw [hexToCompact]
  simp only [hasTerm_parts small ended] at body_eq ⊢
  rw [body_eq]
  cases body <;> rfl

theorem compactToHex_cons {high low : Nibble} (nibbles : byteNibbles first = [high, low])
    (rest : Bytes) :
    compactToHex (first :: rest) =
      (high :: low :: rest.flatMap byteNibbles ++
        (if high.val < 2 then [] else [terminator])).drop (2 - high.val % 2) := by
  have isHigh : high.val = first.toNat / 16 := by
    simp only [byteNibbles, List.cons.injEq] at nibbles
    rw [← nibbles.1]
  have cut : (high :: low :: rest.flatMap byteNibbles ++ [terminator]).dropLast =
      high :: low :: rest.flatMap byteNibbles :=
    List.dropLast_concat
  simp only [compactToHex, keybytesToHex, List.flatMap_cons, nibbles, isHigh]
  split
  · exact congrArg _ (cut.trans (List.append_nil _).symm)
  · rfl

theorem compactToHex_parts (small : ∀ nibble ∈ body, nibble.val < 16) (ended : Bool) :
    compactToHex (hexToCompact (body ++ if ended then [terminator] else [])) =
      body ++ if ended then [terminator] else [] := by
  rw [hexToCompact_parts small ended]
  by_cases odd : body.length % 2 = 1
  · cases body with
    | nil => simp at odd
    | cons first rest =>
      simp only [List.mem_cons, forall_eq_or_imp] at small
      simp only [List.length_cons] at odd
      have unpacked := flatMap_decodeNibbles (show rest.length % 2 = 0 by omega) small.2
      rw [List.length_cons, if_pos odd, List.headD_cons, List.tail_cons,
        compactToHex_cons (byteNibbles_flags ended first small.1).1, unpacked]
      cases ended <;> rfl
  · have unpacked := flatMap_decodeNibbles (show body.length % 2 = 0 by omega) small
    rw [if_neg odd, compactToHex_cons (byteNibbles_flags ended 0 (by decide)).2, unpacked]
    cases ended <;> rfl

theorem compactToHex_hexToCompact (reads : after isTerminator false hex = some ended) :
    compactToHex (hexToCompact hex) = hex := by
  rcases parts_of_after reads with ⟨body, small, rfl⟩
  exact compactToHex_parts small ended

theorem length_decodeNibbles (nibbles : List Nibble) :
    (decodeNibbles nibbles).length = nibbles.length / 2 := by
  fun_induction decodeNibbles nibbles with
  | case1 high low rest ih =>
    simp only [List.length_cons]
    omega
  | case2 rest single =>
    rcases rest with _ | ⟨high, _ | ⟨low, rest⟩⟩
    · rfl
    · simp
    · exact absurd rfl (single high low rest)

theorem length_hexToCompact (hex : List Nibble) : (hexToCompact hex).length =
    (if hasTerm hex then hex.length - 1 else hex.length) / 2 + 1 := by
  have cut : (if hasTerm hex then hex.dropLast else hex).length =
      if hasTerm hex then hex.length - 1 else hex.length := by
    split <;> simp
  rw [← cut, hexToCompact]
  rcases (if hasTerm hex then hex.dropLast else hex) with _ | ⟨first, rest⟩
  · rfl
  · dsimp only
    split
    · next odd =>
      simp only [List.length_cons, length_decodeNibbles] at odd ⊢
      omega
    · simp only [List.length_cons, length_decodeNibbles]

theorem packBounds_eq_true {hexLen size rounds bi ni : Nat} (behind : bi ≤ ni + 1)
    (even : hexLen % 2 = ni % 2) (fits : hexLen ≤ size) :
    packBounds hexLen size rounds bi ni = true := by
  induction rounds generalizing bi ni with
  | zero => rfl
  | succ rounds ih =>
    unfold packBounds
    split
    · simp only [Bool.and_eq_true, decide_eq_true_eq]
      exact ⟨by omega, ih (by omega) (by omega)⟩
    · rfl

theorem hexToCompactInPlaceChecked_eq (here : hex ≠ []) :
    hexToCompactInPlaceChecked hex = .ok ((hexToCompact hex).length, hexToCompact hex) := by
  have within : (if hasTerm hex then hex.length - 1 else hex.length) ≤ hex.length := by
    split <;> omega
  rw [length_hexToCompact, ← hexToCompactInPlace_eq here]
  exact if_pos ⟨packBounds_eq_true (by omega) (by omega) within, List.length_pos_of_ne_nil here⟩

def hexKey (body : List (Fin 16)) (ended : Bool) : List Nibble :=
  body.map Fin.castSucc ++ if ended then [terminator] else []

theorem compactToHex_hexKey (body : List (Fin 16)) (ended : Bool) :
    compactToHex (hexToCompact (hexKey body ended)) = hexKey body ended :=
  compactToHex_parts (by simp) ended

theorem hexToKeybytes_keybytesToHex (key : Bytes) :
    hexToKeybytes (keybytesToHex key) = .ok key := by
  have back : decodeNibbles (key.flatMap byteNibbles) = key ∧
      (key.flatMap byteNibbles).length % 2 = 0 := by
    induction key with
    | nil => exact ⟨rfl, rfl⟩
    | cons byte rest ih =>
      have packed := @byteNibbles_injective _ byte (byteNibbles_packed
        ⟨byte.toNat / 16, by omega⟩ ⟨byte.toNat % 16, by omega⟩ (by dsimp only; omega)
        (by dsimp only; omega))
      simp only [List.flatMap_cons, byteNibbles, List.cons_append, List.nil_append,
        decodeNibbles, packed, List.length_cons]
      exact ⟨by rw [ih.1], by omega⟩
  simp only [hexToKeybytes, keybytesToHex, hasTerm, List.getLast?_concat, BEq.rfl, if_true,
    List.dropLast_concat, back.1, back.2]
  rfl

/-- The compact form of a hex key is read back and tells keys apart, the key is packed in place
exactly if it is not empty, and the hex form of a byte string is turned back into it. -/
theorem hex_key_coding (body : List (Fin 16)) (ended : Bool) :
    compactToHex (hexToCompact (hexKey body ended)) = hexKey body ended ∧
      (hexToCompactInPlaceChecked (hexKey body ended) =
          .ok ((hexToCompact (hexKey body ended)).length, hexToCompact (hexKey body ended)) ↔
        hexKey body ended ≠ []) ∧
      (∀ other otherEnded,
        hexToCompact (hexKey body ended) = hexToCompact (hexKey other otherEnded) →
          hexKey body ended = hexKey other otherEnded) ∧
      ∀ key, hexToKeybytes (keybytesToHex key) = .ok key := by
  refine ⟨compactToHex_hexKey body ended, ⟨?_, hexToCompactInPlaceChecked_eq⟩, ?_,
    hexToKeybytes_keybytesToHex⟩
  · intro packed isEmpty
    rw [isEmpty] at packed
    cases packed
  · intro other otherEnded same
    rw [← compactToHex_hexKey body ended, same, compactToHex_hexKey]

theorem empty_key_not_packed :
    hexToCompactInPlaceChecked (hexKey [] false) = .error (.panic "index out of range") :=
  rfl

end Octopus
