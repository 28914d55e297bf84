import Octopus.Library.Runs
import Octopus.Rlp.Stream

/-!
# The stream with its stack of lists

`Stream` as a state machine; errors leave the state changed.  `Kind` compares the size of an
inner list with what was left of the outer one before the header of the inner one was
read, so the inner list may be longer by its header; then the subtraction in `List` wraps
around, and the outer list is open without an end.
-/

namespace Octopus

open Library

variable {size : Nat}

namespace Rlp

inductive StreamError where
  | eof
  | unexpectedEOF
  | eol
  | canonInt
  | canonSize
  | elemTooLarge
  | valueTooLarge
  | expectedString
  | expectedList
  | uintOverflow
  | notInList
  | notAtEOL
  | moreThanOneValue
  | panic
  | outOfFuel
  deriving DecidableEq

/-- The header that `Kind` has read ahead, with the error of the reading. -/
structure Ahead where
  kind : Kind
  size : Nat
  kinderr : Option StreamError
  deriving DecidableEq

def Ahead.result (ahead : Ahead) : Except StreamError (Kind × Nat) :=
  match ahead.kinderr with
  | some error => .error error
  | none => .ok (ahead.kind, ahead.size)

/-- `Stream`.  The innermost list is the first one of the stack. -/
structure Reader where
  input : Bytes
  limited : Bool
  remaining : Nat
  stack : List Nat := []
  ahead : Option Ahead := none
  byteval : Byte := 0

variable {src new old : Reader}

namespace Reader

def takeRemaining (count : Nat) (reader : Reader) : Except StreamError Unit × Reader :=
  if reader.limited then
    if reader.remaining < count then (.error .valueTooLarge, reader)
    else (.ok (), { reader with remaining := reader.remaining - count })
  else (.ok (), reader)

def willRead (count : Nat) (reader : Reader) : Except StreamError Unit × Reader :=
  match reader.stack with
  | [] => takeRemaining count { reader with ahead := none }
  | limit :: outer =>
    if limit < count then (.error .elemTooLarge, { reader with ahead := none })
    else takeRemaining count { reader with ahead := none, stack := (limit - count) :: outer }

def readByte (reader : Reader) : Except StreamError Byte × Reader :=
  match willRead 1 reader with
  | (.error error, reader) => (.error error, reader)
  | (.ok (), reader) =>
    match reader.input with
    | [] => (.error .unexpectedEOF, reader)
    | byte :: rest => (.ok byte, { reader with input := rest })

def readFull (count : Nat) (reader : Reader) : Except StreamError Bytes × Reader :=
  match willRead count reader with
  | (.error error, reader) => (.error error, reader)
  | (.ok (), reader) =>
    if reader.input.length < count then (.error .unexpectedEOF, { reader with input := [] })
    else (.ok (reader.input.take count), { reader with input := reader.input.drop count })

def readUint (size : Nat) (reader : Reader) : Except StreamError Nat × Reader :=
  if size = 0 then (.ok 0, { reader with ahead := none })
  else if size = 1 then
    match readByte reader with
    | (.error error, reader) => (.error error, reader)
    | (.ok byte, reader) => (.ok byte.toNat, reader)
  else
    match readFull size reader with
    | (.error error, reader) => (.error error, reader)
    | (.ok buffer, reader) =>
      if buffer.head? = some 0 then (.error .canonSize, reader)
      else (.ok (Bytes.toNat buffer), reader)

def readLong (kind : Kind) (size : Nat) (reader : Reader) : Ahead × Reader :=
  match readUint size reader with
  | (.error error, reader) => (⟨kind, 0, some error⟩, reader)
  | (.ok size, reader) => (⟨kind, size, if size < 56 then some .canonSize else none⟩, reader)

/-- An error on the first byte of a value outside of lists is the end of the
input. -/
def tagError (reader : Reader) (error : StreamError) : StreamError :=
  if reader.stack = [] ∧ (error = .unexpectedEOF ∨ error = .valueTooLarge) then .eof else error

def readKind (reader : Reader) : Ahead × Reader :=
  match readByte reader with
  | (.error error, reader) => (⟨.byte, 0, some (tagError reader error)⟩, reader)
  | (.ok byte, reader) =>
    let tag := byte.toNat
    if tag < 0x80 then (⟨.byte, 0, none⟩, { reader with byteval := byte })
    else if tag < 0xb8 then (⟨.string, tag - 0x80, none⟩, { reader with byteval := 0 })
    else if tag < 0xc0 then readLong .string (tag - 0xb7) { reader with byteval := 0 }
    else if tag < 0xf8 then (⟨.list, tag - 0xc0, none⟩, { reader with byteval := 0 })
    else readLong .list (tag - 0xf7) { reader with byteval := 0 }

/-- The check of `Kind` on a header, with what was left of the list before and after it. -/
def checkSize (limit : Option Nat) (reader : Reader) (ahead : Ahead) : Ahead :=
  if ahead.kinderr ≠ none then ahead
  else if limit.any (· < ahead.size) then { ahead with kinderr := some .elemTooLarge }
  else if reader.limited ∧ reader.remaining < ahead.size then
    { ahead with kinderr := some .valueTooLarge }
  else ahead

def kind (reader : Reader) : Except StreamError (Kind × Nat) × Reader :=
  match reader.ahead with
  | some ahead => (ahead.result, reader)
  | none =>
    if reader.stack.head? = some 0 then (.error .eol, reader)
    else
      let (ahead, after) := readKind reader
      let checked := checkSize reader.stack.head? after ahead
      (checked.result, { after with ahead := some checked })

def bytes (reader : Reader) : Except StreamError Bytes × Reader :=
  match kind reader with
  | (.error error, reader) => (.error error, reader)
  | (.ok (.byte, _), reader) => (.ok [reader.byteval], { reader with ahead := none })
  | (.ok (.string, size), reader) =>
    if maxAlloc < size then (.error .panic, reader)
    else
      match readFull size reader with
      | (.error error, reader) => (.error error, reader)
      | (.ok content, reader) =>
        if Stream.shortForm content then (.error .canonSize, reader) else (.ok content, reader)
  | (.ok (.list, _), reader) => (.error .expectedString, reader)

def raw (reader : Reader) : Except StreamError Bytes × Reader :=
  match kind reader with
  | (.error error, reader) => (.error error, reader)
  | (.ok (.byte, _), reader) => (.ok [reader.byteval], { reader with ahead := none })
  | (.ok (isKind, size), reader) =>
    let head := Stream.header isKind size
    if maxAlloc < head.length + size then (.error .panic, reader)
    else
      match readFull size reader with
      | (.error error, reader) => (.error error, reader)
      | (.ok content, reader) => (.ok (head ++ content), reader)

def uint (maxbits : Nat) (reader : Reader) : Except StreamError Nat × Reader :=
  match kind reader with
  | (.error error, reader) => (.error error, reader)
  | (.ok (.byte, _), reader) =>
    if reader.byteval = 0 then (.error .canonInt, reader)
    else (.ok reader.byteval.toNat, { reader with ahead := none })
  | (.ok (.string, size), reader) =>
    if maxbits / 8 < size then (.error .uintOverflow, reader)
    else
      match readUint size reader with
      | (.error .canonSize, reader) => (.error .canonInt, reader)
      | (.error error, reader) => (.error error, reader)
      | (.ok number, reader) =>
        if 0 < size ∧ number < 128 then (.error .canonSize, reader) else (.ok number, reader)
  | (.ok (.list, _), reader) => (.error .expectedString, reader)

def bigInt (reader : Reader) : Except StreamError Nat × Reader :=
  match kind reader with
  | (.error error, reader) => (.error error, reader)
  | (.ok (.list, _), reader) => (.error .expectedString, reader)
  | (.ok (.byte, _), reader) =>
    if reader.byteval = 0 then (.error .canonInt, { reader with ahead := none })
    else (.ok reader.byteval.toNat, { reader with ahead := none })
  | (.ok (.string, size), reader) =>
    if size = 0 then (.ok 0, { reader with ahead := none })
    else if maxAlloc < size then (.error .panic, reader)
    else
      match readFull size reader with
      | (.error error, reader) => (.error error, reader)
      | (.ok content, reader) =>
        if Stream.shortForm content then (.error .canonSize, reader)
        else if content.head? = some 0 then (.error .canonInt, reader)
        else (.ok (Bytes.toNat content), reader)

/-- The size of an inner list is taken off the outer one, as a `uint64`. -/
def reserve (size : Nat) : List Nat → List Nat
  | [] => []
  | limit :: outer => (limit + 2 ^ 64 - size) % 2 ^ 64 :: outer

def list (reader : Reader) : Except StreamError Nat × Reader :=
  match kind reader with
  | (.error error, reader) => (.error error, reader)
  | (.ok (isKind, size), reader) =>
    if isKind ≠ .list then (.error .expectedList, reader)
    else (.ok size, { reader with stack := size :: reserve size reader.stack, ahead := none })

def listEnd (reader : Reader) : Except StreamError Unit × Reader :=
  match reader.stack with
  | [] => (.error .notInList, reader)
  | limit :: outer =>
    if 0 < limit then (.error .notAtEOL, reader)
    else (.ok (), { reader with stack := outer, ahead := none })

def takeOff (count : Nat) : List Nat → List Nat
  | [] => []
  | limit :: outer => (limit - count) :: outer

theorem takeOff_eq_reserve {count : Nat} {stack : List Nat}
    (within : ∀ limit ∈ stack.head?, count ≤ limit) (small : ∀ limit ∈ stack, limit < 2 ^ 64) :
    takeOff count stack = reserve count stack := by
  cases stack with
  | nil => rfl
  | cons limit _ =>
    have enough := within limit rfl
    have below := small limit (by simp)
    simp only [takeOff, reserve, List.cons.injEq, and_true]
    omega

theorem takeOff_takeOff (first second : Nat) (stack : List Nat) :
    takeOff second (takeOff first stack) = takeOff (first + second) stack := by
  cases stack <;> simp [takeOff, Nat.sub_sub]

theorem mem_head?_takeOff {limit : Nat} {stack : List Nat} (isHead : limit ∈ stack.head?)
    (taken : Nat) : limit - taken ∈ (takeOff taken stack).head? := by
  cases stack with
  | nil => simp at isHead
  | cons =>
    simp only [List.head?_cons, Option.mem_def, Option.some.injEq] at isHead
    simp [takeOff, isHead]

def Sized (reader : Reader) : Prop :=
  ∀ ahead ∈ reader.ahead, ahead.size < 2 ^ 64

theorem sized_of_eq_none (unpeeked : src.ahead = none) : src.Sized := by
  simp [Sized, unpeeked]

/-- No more bytes have left the input than were taken off the innermost list, which had them. -/
structure Reads (before after : Reader) (taken advance : Nat) : Prop where
  covered : advance ≤ taken
  available : advance ≤ before.input.length
  input : after.input = before.input.drop advance
  stack : after.stack = takeOff taken before.stack
  within : ∀ limit ∈ before.stack.head?, taken ≤ limit
  sized : before.Sized → after.Sized

def Read (before after : Reader) : Prop :=
  ∃ taken advance, Reads before after taken advance

theorem Read.of_eq (input : new.input = old.input) (stack : new.stack = old.stack)
    (sized : old.Sized → new.Sized) : Read old new := by
  refine ⟨0, 0, Nat.le_refl _, Nat.zero_le _, by simpa using input, ?_, by simp, sized⟩
  rw [stack]
  cases old.stack <;> simp [takeOff]

theorem Read.trans {mid : Reader} (first : Read old mid) (second : Read mid new) :
    Read old new := by
  rcases first with ⟨taken, advance, first⟩
  rcases second with ⟨more, further, second⟩
  have covered := first.covered
  have furtherCovered := second.covered
  have available := first.available
  have furtherAvailable := second.available
  rw [first.input, List.length_drop] at furtherAvailable
  refine ⟨taken + more, advance + further, by omega, by omega, ?_, ?_, ?_,
    fun sized => second.sized (first.sized sized)⟩
  · rw [second.input, first.input, List.drop_drop]
  · rw [second.stack, first.stack, takeOff_takeOff]
  · intro limit isHead
    have enough := first.within limit isHead
    have left : more ≤ limit - taken := by
      apply second.within
      rw [first.stack]
      exact mem_head?_takeOff isHead taken
    omega

section

variable (count : Nat)

theorem willRead_spec (src : Reader) :
    (willRead count src).2.ahead = none ∧ (willRead count src).2.input = src.input ∧
      ((willRead count src).2.stack = src.stack ∧ (willRead count src).1 ≠ .ok () ∨
        (willRead count src).2.stack = takeOff count src.stack ∧
          ∀ limit ∈ src.stack.head?, count ≤ limit) := by
  cases stack : src.stack with
  | nil =>
    simp only [willRead, stack, takeRemaining]
    split_ifs <;> simp [takeOff]
  | cons =>
    simp only [willRead, stack, takeRemaining]
    split_ifs <;> simp_all [takeOff]

theorem read_of_willRead (advance : Nat) (granted : (willRead count src).1 = .ok ())
    (covered : advance ≤ count) (available : advance ≤ src.input.length)
    (input : new.input = (willRead count src).2.input.drop advance)
    (stack : new.stack = (willRead count src).2.stack)
    (ahead : new.ahead = (willRead count src).2.ahead) : Read src new := by
  rcases willRead_spec count src with ⟨nothing, kept, ⟨-, refused⟩ | ⟨taken, within⟩⟩
  · exact absurd granted refused
  · exact ⟨count, advance, covered, available, by rw [input, kept], by rw [stack, taken], within,
      fun _ => sized_of_eq_none (ahead.trans nothing)⟩

variable (src : Reader)

theorem read_willRead : Read src (willRead count src).2 := by
  rcases willRead_spec count src with ⟨nothing, kept, ⟨same, -⟩ | ⟨taken, within⟩⟩
  · exact Read.of_eq kept same fun _ => sized_of_eq_none nothing
  · exact ⟨count, 0, Nat.zero_le _, Nat.zero_le _, by simpa using kept, taken, within,
      fun _ => sized_of_eq_none nothing⟩

theorem read_readByte : Read src (readByte src).2 := by
  have whole := read_willRead 1 src
  have kept := (willRead_spec 1 src).2.1
  rcases granted : willRead 1 src with ⟨_ | _, new⟩
  · simpa only [readByte, granted] using whole
  cases input : new.input with
  | nil => simpa only [readByte, granted, input] using whole
  | cons =>
    simp only [readByte, granted, input]
    simp only [granted] at kept
    refine read_of_willRead 1 1 (by rw [granted]) (Nat.le_refl 1) ?_ ?_ (by rw [granted])
      (by rw [granted])
    · rw [← kept, input]
      simp
    · rw [granted]
      simp [input]

theorem read_readFull : Read src (readFull count src).2 := by
  have whole := read_willRead count src
  have kept := (willRead_spec count src).2.1
  rcases granted : willRead count src with ⟨_ | _, new⟩
  · simpa only [readFull, granted] using whole
  simp only [granted] at kept
  simp only [readFull, granted]
  split_ifs with short
  · refine read_of_willRead count new.input.length (by rw [granted]) ?_ ?_ ?_
      (by rw [granted]) (by rw [granted])
    · omega
    · rw [kept]
    · rw [granted, List.drop_length]
  · refine read_of_willRead count count (by rw [granted]) (Nat.le_refl count) ?_
      (by rw [granted]) (by rw [granted]) (by rw [granted])
    rw [← kept]
    omega

end

theorem Read.rearmed (src : Reader) : Read src { src with ahead := none } :=
  Read.of_eq rfl rfl fun _ => sized_of_eq_none rfl

theorem length_readFull {count : Nat} {buffer : Bytes}
    (read : readFull count src = (.ok buffer, new)) : buffer.length = count := by
  rcases granted : willRead count src with ⟨_ | _, _⟩
  · simp [readFull, granted] at read
  simp only [readFull, granted] at read
  split_ifs at read with short
  · simp at read
  · simp only [Prod.mk.injEq, Except.ok.injEq] at read
    rw [← read.1, List.length_take]
    omega

theorem read_readUint (size : Nat) (src : Reader) : Read src (readUint size src).2 := by
  simp only [readUint]
  split_ifs
  · exact Read.rearmed _
  · have byte := read_readByte src
    rcases read : readByte src with ⟨error | _, new⟩ <;> rw [read] at byte <;> exact byte
  · have full := read_readFull size src
    rcases read : readFull size src with ⟨error | _, new⟩
    · rw [read] at full
      exact full
    · rw [read] at full
      simp only
      split_ifs <;> exact full

theorem read_readLong (isKind : Kind) (size : Nat) (src : Reader) :
    Read src (readLong isKind size src).2 := by
  have num := read_readUint size src
  simp only [readLong]
  rcases read : readUint size src with ⟨_ | _, _⟩ <;> rw [read] at num <;> exact num

theorem read_readKind (src : Reader) : Read src (readKind src).2 := by
  have tagged := read_readByte src
  simp only [readKind]
  rcases read : readByte src with ⟨_ | byte, new⟩
  · rw [read] at tagged
    exact tagged
  rw [read] at tagged
  have same : ∀ byteval, Read src { new with byteval } :=
    fun byteval => tagged.trans (Read.of_eq rfl rfl id)
  simp only
  split_ifs
  · exact same byte
  · exact same 0
  · exact (same 0).trans (read_readLong _ _ _)
  · exact same 0
  · exact (same 0).trans (read_readLong _ _ _)

theorem readUint_lt {num : Nat} (few : size ≤ 8)
    (read : readUint size src = (.ok num, new)) : num < 2 ^ 64 := by
  simp only [readUint] at read
  split_ifs at read with isZero isOne
  · simp only [Prod.mk.injEq, Except.ok.injEq] at read
    omega
  · rcases tagged : readByte src with ⟨error | byte, mid⟩
    · simp [tagged] at read
    · simp only [tagged, Prod.mk.injEq, Except.ok.injEq] at read
      omega
  · rcases full : readFull size src with ⟨error | buffer, mid⟩
    · simp [full] at read
    simp only [full] at read
    split_ifs at read with leading
    · simp at read
    · simp only [Prod.mk.injEq, Except.ok.injEq] at read
      rw [← read.1]
      exact Bytes.toNat_lt_of_length (length_readFull full ▸ few)

theorem readLong_size_lt (isKind : Kind) (few : size ≤ 8) (src : Reader) :
    (readLong isKind size src).1.size < 2 ^ 64 := by
  rcases read : readUint size src with ⟨_ | _, _⟩
  · simp [readLong, read]
  · simpa [readLong, read] using readUint_lt few read

theorem readKind_size_lt (src : Reader) : (readKind src).1.size < 2 ^ 64 := by
  rcases read : readByte src with ⟨_ | byte, _⟩
  · simp [readKind, read]
  simp only [readKind, read]
  split_ifs
  · simp
  · simp only
    omega
  · exact readLong_size_lt _ (by omega) _
  · simp only
    omega
  · exact readLong_size_lt _ (by omega) _

theorem checkSize_size (limit : Option Nat) (src : Reader) (ahead : Ahead) :
    (checkSize limit src ahead).size = ahead.size := by
  simp only [checkSize]
  split_ifs <;> rfl

theorem read_kind (src : Reader) : Read src (kind src).2 := by
  have tagged := read_readKind src
  have small := readKind_size_lt src
  simp only [kind]
  cases src.ahead with
  | some => exact Read.of_eq rfl rfl id
  | none =>
    split_ifs
    · exact Read.of_eq rfl rfl id
    · refine tagged.trans (Read.of_eq rfl rfl ?_)
      intro _ ahead isAhead
      simp only [Option.mem_def, Option.some.injEq] at isAhead
      rw [← isAhead, checkSize_size]
      exact small

theorem kind_size_lt {isKind : Kind} (sized : src.Sized)
    (tagged : kind src = (.ok (isKind, size), new)) : size < 2 ^ 64 := by
  have ofAhead : ∀ ahead : Ahead, ahead.result = .ok (isKind, size) → ahead.size = size := by
    intro ahead result
    simp only [Ahead.result] at result
    split at result
    · cases result
    · cases result
      rfl
  simp only [kind] at tagged
  cases known : src.ahead with
  | some ahead =>
    simp only [known, Prod.mk.injEq] at tagged
    rw [← ofAhead ahead tagged.1]
    exact sized ahead known
  | none =>
    simp only [known] at tagged
    split_ifs at tagged
    · simp at tagged
    · simp only [Prod.mk.injEq] at tagged
      rw [← ofAhead _ tagged.1, checkSize_size]
      exact readKind_size_lt src

variable (src : Reader)

theorem read_bytes : Read src (bytes src).2 := by
  have ahead := read_kind src
  simp only [bytes]
  rcases tagged : kind src with ⟨error | ⟨_ | _ | _, size⟩, new⟩ <;> rw [tagged] at ahead
  · exact ahead
  · exact ahead.trans (Read.rearmed _)
  · have full := ahead.trans (read_readFull size new)
    simp only
    split_ifs
    · exact ahead
    · rcases read : readFull size new with ⟨error | _, _⟩ <;> rw [read] at full
      · exact full
      · simp only
        split_ifs <;> exact full
  · exact ahead

theorem read_raw : Read src (raw src).2 := by
  have ahead := read_kind src
  have rest : ∀ isKind size new, Read src new →
      Read src (if maxAlloc < (Stream.header isKind size).length + size then
          ((.error .panic, new) : Except StreamError Bytes × Reader)
        else
          match readFull size new with
          | (.error error, src) => (.error error, src)
          | (.ok text, src) => (.ok (Stream.header isKind size ++ text), src)).2 := by
    intro isKind size new old
    have full := old.trans (read_readFull size new)
    split_ifs
    · exact old
    · rcases read : readFull size new with ⟨error | text, _⟩ <;> rw [read] at full <;> exact full
  simp only [raw]
  rcases tagged : kind src with ⟨error | ⟨_ | _ | _, size⟩, new⟩ <;> rw [tagged] at ahead
  · exact ahead
  · exact ahead.trans (Read.rearmed _)
  · exact rest _ _ _ ahead
  · exact rest _ _ _ ahead

theorem read_uint (maxbits : Nat) (src : Reader) : Read src (uint maxbits src).2 := by
  have ahead := read_kind src
  simp only [uint]
  rcases tagged : kind src with ⟨error | ⟨_ | _ | _, size⟩, new⟩ <;> rw [tagged] at ahead
  · exact ahead
  · simp only
    split_ifs
    · exact ahead
    · exact ahead.trans (Read.rearmed _)
  · have num := ahead.trans (read_readUint size new)
    simp only
    split_ifs
    · exact ahead
    · rcases read : readUint size new with ⟨error | _, _⟩ <;> rw [read] at num
      · cases error <;> exact num
      · simp only
        split_ifs <;> exact num
  · exact ahead

theorem read_bigInt : Read src (bigInt src).2 := by
  have ahead := read_kind src
  simp only [bigInt]
  rcases tagged : kind src with ⟨error | ⟨_ | _ | _, size⟩, new⟩ <;> rw [tagged] at ahead
  · exact ahead
  · simp only
    split_ifs <;> exact ahead.trans (Read.rearmed _)
  · have full := ahead.trans (read_readFull size new)
    simp only
    split_ifs
    · exact ahead.trans (Read.rearmed _)
    · exact ahead
    · rcases read : readFull size new with ⟨error | _, _⟩ <;> rw [read] at full
      · exact full
      · simp only
        split_ifs <;> exact full
  · exact ahead

end Reader

end Rlp

end Octopus
