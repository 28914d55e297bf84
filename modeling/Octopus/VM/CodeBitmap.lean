import Octopus.VM.Step

/-!
# The jump destination analysis

The analysis marks the positions inside the immediate data of a push.  It is written in
chunks, and the last byte of a chunk is assigned, not added to, which is no loss because
everything behind the chunk is still unmarked.
-/

namespace Octopus

variable {pos width pc rounds : Nat} {code bits : Bytes}

/-- The positions at which an instruction starts when the code is decoded from
its first byte on. -/
inductive Boundary (code : Bytes) : Nat → Prop
  | start : Boundary code 0
  | next {pc : Nat} (boundary : Boundary code pc) (inside : pc < code.length) :
      Boundary code (pc + (opAt code pc).immediate + 1)

def PushData (code : Bytes) (position : Nat) : Prop :=
  ∃ pc, Boundary code pc ∧ pc < code.length ∧ pc < position ∧
    position ≤ pc + (opAt code pc).immediate

theorem Boundary.spaced {later : Nat} (first : Boundary code pc) (second : Boundary code later)
    (before : pc < later) : pc + (opAt code pc).immediate + 1 ≤ later := by
  induction later using Nat.strong_induction_on generalizing pc with
  | _ _ ih =>
    cases second with
    | start => omega
    | @next previous boundary _ =>
      rcases Nat.lt_trichotomy pc previous with less | rfl | more
      · have := ih previous (by omega) first boundary less
        omega
      · exact le_rfl
      · have := ih pc before boundary first more
        omega

theorem not_pushData (boundary : Boundary code pos) : ¬ PushData code pos := by
  rintro ⟨pc, first, -, old, within⟩
  have := first.spaced boundary old
  omega

theorem boundary_or_pushData (inside : pos < code.length) :
    Boundary code pos ∨ PushData code pos := by
  induction pos with
  | zero => exact .inl .start
  | succ pos ih =>
    have covered : ∀ pc, Boundary code pc → pc < code.length → pc ≤ pos →
        pos ≤ pc + (opAt code pc).immediate →
          Boundary code (pos + 1) ∨ PushData code (pos + 1) := by
      intro pc boundary present least within
      by_cases last : pos = pc + (opAt code pc).immediate
      · rw [last]
        exact .inl (boundary.next present)
      · exact .inr ⟨pc, boundary, present, by omega, by omega⟩
    rcases ih (by omega) with boundary | ⟨pc, boundary, present, old, within⟩
    · exact covered pos boundary (by omega) le_rfl (Nat.le_add_right _ _)
    · exact covered pc boundary present old.le within

def marked (bits : Bytes) (position : Nat) : Bool :=
  bits[position / 8]?.any (·.getLsbD (position % 8))

theorem not_marked_of_unmarked (unmarked : Unmarked bits pos) : marked bits pos = false := by
  rcases unmarked with ⟨_, found, clear⟩
  simp [marked, found, clear]

def Clear (bits : Bytes) (position : Nat) : Prop :=
  ∀ other, position ≤ other → marked bits other = false

structure Marks (bits after : Bytes) (position width : Nat) : Prop where
  length : after.length = bits.length
  exact : Clear bits position → ∀ other, marked after other = true ↔
    marked bits other = true ∨ position ≤ other ∧ other < position + width ∧ other / 8 < bits.length

theorem Marks.clear {new : Bytes} (marks : Marks bits new pos width)
    (clear : Clear bits pos) : Clear new (pos + width) := by
  intro other far
  rw [← Bool.not_eq_true, marks.exact clear, clear other (by omega)]
  simp
  omega

theorem Marks.none (bits : Bytes) (pos : Nat) : Marks bits bits pos 0 := by
  refine ⟨rfl, fun _ other => ?_⟩
  simp
  omega

theorem Marks.trans {mid new : Bytes} {first second : Nat}
    (left : Marks bits mid pos first)
    (right : Marks mid new (pos + first) second) : Marks bits new pos (first + second) := by
  refine ⟨right.length.trans left.length, fun clear other => ?_⟩
  rw [right.exact (left.clear clear), left.exact clear, left.length, or_assoc]
  exact or_congr_right (by omega)

section

variable {bits : Bytes} {index other : Nat} {mask byte : Byte}

theorem marked_modify :
    marked (bits.modify index fun byte => byte ||| mask) other = true ↔
      marked bits other = true ∨
        index = other / 8 ∧ other / 8 < bits.length ∧ mask.getLsbD (other % 8) = true := by
  unfold marked
  by_cases present : other / 8 < bits.length
  · by_cases same : index = other / 8 <;> simp [present, same]
  · simp [present]

theorem marked_set : marked (bits.set index byte) other = true ↔
    if index = other / 8 then other / 8 < bits.length ∧ byte.getLsbD (other % 8) = true
    else marked bits other = true := by
  unfold marked
  by_cases same : index = other / 8
  · subst same
    by_cases present : other / 8 < bits.length <;> simp [present]
  · simp [same]

end

section

variable (bits : Bytes) (pos : Nat) {low high : Byte}

theorem marks_low (within : pos % 8 + width ≤ 8) (lower : ∀ bit < 8, low.getLsbD bit = true ↔
      pos % 8 ≤ bit ∧ bit < pos % 8 + width) :
    Marks bits (bits.modify (pos / 8) fun byte => byte ||| low) pos width := by
  refine ⟨by simp, fun _ other => ?_⟩
  rw [marked_modify, lower _ (Nat.mod_lt _ (by decide))]
  exact or_congr_right (by omega)

theorem marks_byte (small : width ≤ 8) (lower : ∀ bit < 8, low.getLsbD bit = true ↔
      pos % 8 ≤ bit ∧ bit < pos % 8 + width)
    (upper : ∀ bit < 8, high.getLsbD bit = true ↔ bit + 8 < pos % 8 + width) :
    Marks bits ((bits.modify (pos / 8) fun byte => byte ||| low).set (pos / 8 + 1) high)
      pos width := by
  refine ⟨by simp, fun clear other => ?_⟩
  have bound : other % 8 < 8 := Nat.mod_lt _ (by decide)
  rw [marked_set, marked_modify, lower _ bound, upper _ bound, List.length_modify]
  split_ifs with second
  · rw [clear other (by omega)]
    simp
    omega
  · exact or_congr_right (by omega)

theorem marks_set1 : Marks bits (set1 bits pos) pos 1 := by
  have lower : ∀ r < 8, ∀ bit < 8, ((1 : Byte) <<< r).getLsbD bit = true ↔
      r ≤ bit ∧ bit < r + 1 := by
    decide
  have bound : pos % 8 < 8 := Nat.mod_lt _ (by decide)
  exact marks_low bits pos (by omega) (lower _ bound)

theorem marks_set8 : Marks bits (set8 bits pos) pos 8 := by
  have lower : ∀ r < 8, ∀ bit < 8,
      ((0xff : Byte) <<< r).getLsbD bit = true ↔ r ≤ bit ∧ bit < r + 8 := by decide
  have upper : ∀ r < 8, ∀ bit < 8,
      (~~~((0xff : Byte) <<< r)).getLsbD bit = true ↔ bit + 8 < r + 8 := by decide
  have bound : pos % 8 < 8 := Nat.mod_lt _ (by decide)
  exact marks_byte bits pos le_rfl (lower _ bound) (upper _ bound)

theorem marks_set16 : Marks bits (set16 bits pos) pos 16 := by
  have lower : ∀ r < 8, ∀ bit < 8, ((0xff <<< r : Nat) : Byte).getLsbD bit = true ↔ r ≤ bit := by
    decide
  have upper : ∀ r < 8, ∀ bit < 8, (~~~((0xff <<< r : Nat) : Byte)).getLsbD bit = true ↔
      bit < r := by
    decide
  have full : ∀ bit < 8, (0xff : Byte).getLsbD bit = true := by decide
  have bound : pos % 8 < 8 := Nat.mod_lt _ (by decide)
  refine ⟨by simp [set16], fun clear other => ?_⟩
  have inner : other % 8 < 8 := Nat.mod_lt _ (by decide)
  unfold set16
  rw [marked_set, marked_set, marked_modify, lower _ bound _ inner, upper _ bound _ inner,
    full _ inner, List.length_set, List.length_modify]
  split_ifs with third second
  · rw [clear other (by omega)]
    simp
    omega
  · rw [clear other (by omega)]
    simp
    omega
  · exact or_congr_right (by omega)

theorem marks_setN (small : width < 8) :
    Marks bits (setN (BitVec.ofNat 16 (2 ^ width - 1)) bits pos) pos width := by
  have lower : ∀ width < 8, ∀ r < 8, ∀ bit < 8,
      (BitVec.setWidth 8 (BitVec.ofNat 16 (2 ^ width - 1) <<< r)).getLsbD bit = true ↔
        r ≤ bit ∧ bit < r + width := by
    decide +kernel
  have upper : ∀ width < 8, ∀ r < 8, ∀ bit < 8,
      (BitVec.setWidth 8
        ((BitVec.ofNat 16 (2 ^ width - 1) <<< r : BitVec 16) >>> (8 : Nat))).getLsbD bit = true ↔
      bit + 8 < r + width := by
    decide +kernel
  have bound : pos % 8 < 8 := Nat.mod_lt _ (by decide)
  unfold setN
  dsimp only
  split
  · exact marks_byte bits pos (by omega) (lower _ small _ bound) (upper _ small _ bound)
  · next zero =>
    -- Nothing spills over into the next byte.
    have spills := upper _ small _ bound 0 (by decide)
    rw [not_not.mp zero] at spills
    simp at spills
    exact marks_low bits pos (by omega) (lower _ small _ bound)

end

theorem markPush_marks {numbits : Nat} (enough : numbits / 16 + numbits % 16 / 8 < rounds)
    (pc : Nat) (bits : Bytes) : (markPush rounds numbits (pc, bits)).1 = pc + numbits ∧
      Marks bits (markPush rounds numbits (pc, bits)).2 pc numbits := by
  induction rounds generalizing numbits pc bits with
  | zero => omega
  | succ rounds ih =>
    unfold markPush
    split_ifs with sixteen eight zero one
    · have fewer : (numbits - 16) / 16 + (numbits - 16) % 16 / 8 < rounds := by omega
      rcases ih fewer (pc + 16) (set16 bits pc) with ⟨moved, rest⟩
      have all := (marks_set16 bits pc).trans rest
      rw [Nat.add_sub_cancel' sixteen] at all
      exact ⟨by omega, all⟩
    · have fewer : (numbits - 8) / 16 + (numbits - 8) % 16 / 8 < rounds := by omega
      rcases ih fewer (pc + 8) (set8 bits pc) with ⟨moved, rest⟩
      have all := (marks_set8 bits pc).trans rest
      rw [Nat.add_sub_cancel' eight] at all
      exact ⟨by omega, all⟩
    · subst zero
      exact ⟨rfl, .none bits pc⟩
    · subst one
      exact ⟨rfl, marks_set1 bits pc⟩
    · exact ⟨rfl, marks_setN bits pc (by omega)⟩

theorem ofPlainByte_immediate (number : Nat) : (OpCode.ofPlainByte number).immediate = 0 := by
  unfold OpCode.ofPlainByte
  split <;> rfl

theorem opAt_immediate (inside : pc < code.length) : (opAt code pc).immediate =
      if 0x60 ≤ (code.getD pc 0).toNat ∧ (code.getD pc 0).toNat ≤ 0x7f then
        (code.getD pc 0).toNat - 0x60 + 1
      else 0 := by
  unfold opAt
  rw [List.getD_eq_getElem?_getD, List.getElem?_eq_getElem inside]
  simp only [Option.getD_some]
  generalize code[pc] = byte
  unfold OpCode.ofByte
  dsimp only
  split_ifs with push dup swap log
  · change byte.toNat - 0x5f = byte.toNat - 0x60 + 1
    omega
  · rfl
  · rfl
  · rfl
  · exact ofPlainByte_immediate _

/-- Up to the position that the analysis has reached, the push data is marked, and
nothing else is. -/
def Analysed (code : Bytes) (pc : Nat) (bits : Bytes) : Prop :=
  ∀ position, marked bits position = true ↔
    position < pc ∧ PushData code position ∧ position / 8 < bits.length

theorem Analysed.extend {new : Bytes} (analysed : Analysed code pc bits)
    (here : Boundary code pc) (inside : pc < code.length)
    (marks : Marks bits new (pc + 1) (opAt code pc).immediate) :
    Analysed code (pc + 1 + (opAt code pc).immediate) new := by
  have clear : Clear bits (pc + 1) := by
    intro other far
    rw [← Bool.not_eq_true, analysed]
    omega
  intro pos
  rw [marks.exact clear, analysed, marks.length]
  constructor
  · rintro (⟨old, data, present⟩ | ⟨least, old, present⟩)
    · exact ⟨by omega, data, present⟩
    · exact ⟨old, ⟨pc, here, inside, least, by omega⟩, present⟩
  · rintro ⟨old, data, present⟩
    rcases Nat.lt_trichotomy pos pc with earlier | rfl | later
    · exact .inl ⟨earlier, data, present⟩
    · exact absurd data (not_pushData here)
    · exact .inr ⟨later, old, present⟩

theorem codeBitmapInternal_analysed (enough : code.length ≤ pc + rounds)
    (boundary : code.length ≤ pc ∨ Boundary code pc) (analysed : Analysed code pc bits) :
    (codeBitmapInternal code rounds pc bits).length = bits.length ∧
      ∃ reached, code.length ≤ reached ∧
        Analysed code reached (codeBitmapInternal code rounds pc bits) := by
  induction rounds generalizing pc bits with
  | zero => exact ⟨rfl, pc, enough, analysed⟩
  | succ _ ih =>
    unfold codeBitmapInternal
    by_cases inside : pc < code.length
    · have here : Boundary code pc := boundary.resolve_left (by omega)
      have following := here.next inside
      have extended : ∀ new, Marks bits new (pc + 1) (opAt code pc).immediate →
          Analysed code (pc + 1 + (opAt code pc).immediate) new :=
        fun _ marks => analysed.extend here inside marks
      rw [Nat.add_right_comm] at following
      rw [opAt_immediate inside] at following extended
      dsimp only
      split_ifs at following extended ⊢ with push
      · have bound : (code.getD pc 0).toNat - 0x60 + 1 ≤ 32 := by omega
        generalize (code.getD pc 0).toNat - 0x60 + 1 = size at following extended bound ⊢
        have pushed := markPush_marks (show size / 16 + size % 16 / 8 < 4 by omega) (pc + 1) bits
        generalize markPush 4 size (pc + 1, bits) = marking at pushed ⊢
        rcases marking with ⟨_, new⟩
        rcases pushed with ⟨rfl, marks⟩
        rw [← marks.length]
        exact ih (by omega) (.inr following) (extended new marks)
      · exact ih (by omega) (.inr following) (extended bits (.none bits (pc + 1)))
    · rw [if_neg inside]
      exact ⟨rfl, pc, by omega, analysed⟩

theorem codeBitmap_marked : (codeBitmap code).length = code.length / 8 + 5 ∧
    ∀ pos < code.length, marked (codeBitmap code) pos = true ↔ PushData code pos := by
  have blank : Analysed code 0 (List.replicate (code.length / 8 + 1 + 4) 0) := by
    intro pos
    simp [marked, List.getElem?_replicate]
    split_ifs <;> simp
  rcases codeBitmapInternal_analysed (Nat.le_add_left _ _) (.inr .start) blank with
    ⟨length, reached, complete, analysed⟩
  rw [List.length_replicate] at length
  refine ⟨length, fun pos inside => ?_⟩
  unfold codeBitmap
  rw [analysed, length]
  exact ⟨fun data => data.2.1, fun data => ⟨by omega, data, by omega⟩⟩

theorem boundary_of_unmarked (inside : pos < code.length)
    (unmarked : Unmarked (codeBitmap code) pos) : Boundary code pos := by
  apply (boundary_or_pushData inside).resolve_right
  rw [← codeBitmap_marked.2 pos inside, not_marked_of_unmarked unmarked]
  exact Bool.false_ne_true

theorem codeBitmap_covers (inside : pos < code.length) : pos / 8 < (codeBitmap code).length := by
  rw [codeBitmap_marked.1]
  omega

/-- A write to some bytes of the vector, which panics if one of them is not there. -/
def checked (indices : List Nat) (bits after : Bytes) : Option Bytes :=
  if ∀ index ∈ indices, index < bits.length then some after else none

def set1Checked (bits : Bytes) (position : Nat) : Option Bytes :=
  checked [position / 8] bits (set1 bits position)

def setNChecked (flag : BitVec 16) (bits : Bytes) (position : Nat) : Option Bytes :=
  let high : Byte := ((flag <<< (position % 8)) >>> 8).setWidth 8
  checked (if high ≠ 0 then [position / 8, position / 8 + 1] else [position / 8]) bits
    (setN flag bits position)

def set8Checked (bits : Bytes) (position : Nat) : Option Bytes :=
  checked [position / 8, position / 8 + 1] bits (set8 bits position)

def set16Checked (bits : Bytes) (position : Nat) : Option Bytes :=
  checked [position / 8, position / 8 + 1, position / 8 + 2] bits (set16 bits position)

def markPushChecked : Nat → Nat → Nat × Bytes → Option (Nat × Bytes)
  | 0, _, state => some state
  | rounds + 1, numbits, (pc, bits) =>
    if 16 ≤ numbits then
      (set16Checked bits pc).bind fun bits => markPushChecked rounds (numbits - 16) (pc + 16, bits)
    else if 8 ≤ numbits then
      (set8Checked bits pc).bind fun bits => markPushChecked rounds (numbits - 8) (pc + 8, bits)
    else if numbits = 0 then some (pc, bits)
    else if numbits = 1 then (set1Checked bits pc).map fun bits => (pc + 1, bits)
    else (setNChecked (BitVec.ofNat 16 (2 ^ numbits - 1)) bits pc).map fun bits =>
      (pc + numbits, bits)

def codeBitmapChecked (code : Bytes) : Nat → Nat → Bytes → Option Bytes
  | 0, _, bits => some bits
  | rounds + 1, pc, bits =>
    if pc < code.length then
      let op := (code.getD pc 0).toNat
      if 0x60 ≤ op ∧ op ≤ 0x7f then
        (markPushChecked 4 (op - 0x60 + 1) (pc + 1, bits)).bind fun state =>
          codeBitmapChecked code rounds state.1 state.2
      else codeBitmapChecked code rounds (pc + 1) bits
    else some bits

section

variable {size numbits : Nat} (long : bits.length = size / 8 + 5)
include long

/-- The last chunk of a push begins at most 24 positions behind the code, and one of
sixteen at most 16 behind it. -/
theorem markPushChecked_eq (room : pc + (numbits + 7) / 8 * 8 ≤ size + 32) :
    markPushChecked rounds numbits (pc, bits) = some (markPush rounds numbits (pc, bits)) := by
  induction rounds generalizing numbits pc bits with
  | zero => rfl
  | succ _ ih =>
    unfold markPushChecked markPush
    split_ifs with sixteen eight zero one
    · rw [set16Checked, checked, if_pos (by simp; omega)]
      exact ih ((marks_set16 bits pc).length.trans long) (by omega)
    · rw [set8Checked, checked, if_pos (by simp; omega)]
      exact ih ((marks_set8 bits pc).length.trans long) (by omega)
    · rfl
    · rw [set1Checked, checked, if_pos (by simp; omega)]
      rfl
    · rw [setNChecked, checked, if_pos (by split_ifs <;> simp <;> omega)]
      rfl

end

theorem codeBitmapChecked_eq (long : bits.length = code.length / 8 + 5) :
    codeBitmapChecked code rounds pc bits = some (codeBitmapInternal code rounds pc bits) := by
  induction rounds generalizing pc bits with
  | zero => rfl
  | succ _ ih =>
    unfold codeBitmapChecked codeBitmapInternal
    split_ifs with inside
    · dsimp only
      split_ifs
      · have bound : (code.getD pc 0).toNat - 0x60 + 1 ≤ 32 := by omega
        generalize (code.getD pc 0).toNat - 0x60 + 1 = width at bound ⊢
        have marks := (markPush_marks (show width / 16 + width % 16 / 8 < 4 by omega)
          (pc + 1) bits).2
        rw [markPushChecked_eq long (by omega)]
        exact ih (marks.length.trans long)
      · exact ih long
    · rfl

/-- No write of the analysis is out of range, and it tells immediate data from
instructions. -/
theorem codeBitmap_exact (code : Bytes) :
    codeBitmapChecked code code.length 0 (List.replicate (code.length / 8 + 1 + 4) 0) =
        some (codeBitmap code) ∧
      ∀ position < code.length, ∃ isCode : Bool,
        codeSegment (codeBitmap code) position = pure isCode ∧
          (isCode = false ↔ PushData code position) := by
  refine ⟨codeBitmapChecked_eq (List.length_replicate ..), fun position inside => ?_⟩
  refine ⟨!marked (codeBitmap code) position, ?_, ?_⟩
  · unfold codeSegment marked
    rw [List.getElem?_eq_getElem (codeBitmap_covers inside)]
    simp
  · rw [← codeBitmap_marked.2 position inside, Bool.not_eq_false']

end Octopus
