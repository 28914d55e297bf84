import Octopus.Rlp.Reader

/-!
# Streams over a byte slice

Where the bytes are there and the innermost list has them, reading succeeds.  What has been
read is taken off the list around it modulo `2 ^ 64`; no input is long enough to come
around, so a list ends only if its elements have the size that was declared.
-/

namespace Octopus

open List

namespace Rlp

def Reader.ofBytes (bytes : Bytes) : Reader where
  input := bytes
  limited := true
  remaining := bytes.length

namespace Reader

variable {size num second : Nat} {rest buf text : Bytes} {isKind : Kind} {head : Stream.Head}
  {first byte : Byte} {mid : Reader} {stack : List Nat} {ahead : Ahead}

structure Exact (reader : Reader) : Prop where
  limited : reader.limited = true
  remaining : reader.remaining = reader.input.length

structure Room (reader : Reader) (count : Nat) : Prop where
  available : count ≤ reader.input.length
  within : ∀ limit ∈ reader.stack.head?, count ≤ limit

def skip (reader : Reader) (count : Nat) : Reader :=
  { reader with
    input := reader.input.drop count
    remaining := reader.remaining - count
    stack := takeOff count reader.stack
    ahead := none }

variable {src new : Reader} {count : Nat}

section

variable (isExact : src.Exact)
include isExact

theorem Exact.skip (count : Nat) : (src.skip count).Exact where
  limited := isExact.limited
  remaining := by
    have remaining := isExact.remaining
    simp only [Reader.skip, List.length_drop]
    omega

theorem Exact.skipped (count : Nat) {byteval : Byte} {ahead : Option Ahead} :
    Exact { src.skip count with byteval, ahead } :=
  ⟨(isExact.skip count).limited, (isExact.skip count).remaining⟩

theorem willRead_of_room (room : src.Room count) :
    willRead count src = (.ok (), { src with
      remaining := src.remaining - count, stack := takeOff count src.stack,
      ahead := none }) := by
  have limited := isExact.limited
  have enough : ¬ src.remaining < count := by
    have available := room.available
    have remaining := isExact.remaining
    omega
  cases stack : src.stack with
  | nil => simp [willRead, stack, takeRemaining, limited, enough, takeOff]
  | cons limit _ =>
    have within : ¬ limit < count := by
      have bound := room.within limit (by simp [stack])
      omega
    simp [willRead, stack, takeRemaining, limited, enough, takeOff, within]

theorem room_of_willRead (granted : (willRead count src).1 = .ok ()) : src.Room count := by
  have limited := isExact.limited
  have remaining := isExact.remaining
  cases stack : src.stack with
  | nil =>
    refine ⟨?_, by simp [stack]⟩
    by_contra short
    have missing : src.remaining < count := by omega
    simp [willRead, stack, takeRemaining, limited, missing] at granted
  | cons limit _ =>
    by_cases within : limit < count
    · simp [willRead, stack, within] at granted
    · refine ⟨?_, by simpa [stack] using within⟩
      by_contra short
      have missing : src.remaining < count := by omega
      simp [willRead, stack, takeRemaining, limited, missing, within] at granted

theorem readFull_of_room (room : src.Room count) :
    readFull count src = (.ok (src.input.take count), src.skip count) := by
  have available := room.available
  simp only [readFull, willRead_of_room isExact room]
  rw [if_neg (by omega)]
  rfl

theorem readFull_eq_ok (read : readFull count src = (.ok buf, new)) :
    src.Room count ∧ buf = src.input.take count ∧ new = src.skip count := by
  have room : src.Room count := by
    apply room_of_willRead isExact
    rcases granted : willRead count src with ⟨_ | _, _⟩
    · simp [readFull, granted] at read
    · rfl
  rw [readFull_of_room isExact room] at read
  simp only [Prod.mk.injEq, Except.ok.injEq] at read
  exact ⟨room, read.1.symm, read.2.symm⟩

theorem readByte_of_room (input : src.input = byte :: rest) (room : src.Room 1) :
    readByte src = (.ok byte, src.skip 1) := by
  simp only [readByte, willRead_of_room isExact room]
  simp [skip, input]

theorem readByte_eq_ok (read : readByte src = (.ok byte, new)) :
    ∃ rest, src.input = byte :: rest ∧ src.Room 1 ∧ new = src.skip 1 := by
  have room : src.Room 1 := by
    apply room_of_willRead isExact
    rcases granted : willRead 1 src with ⟨_ | _, _⟩
    · simp [readByte, granted] at read
    · rfl
  have available := room.available
  cases input : src.input with
  | nil => simp [input] at available
  | cons _ rest =>
    rw [readByte_of_room isExact input room] at read
    simp only [Prod.mk.injEq, Except.ok.injEq] at read
    exact ⟨rest, by rw [read.1], room, read.2.symm⟩

end

theorem skip_skip (src : Reader) (first second : Nat) :
    (src.skip first).skip second = src.skip (first + second) := by
  simp [skip, takeOff_takeOff, Nat.sub_sub]

theorem Room.skip {first : Nat} (room : src.Room (first + second)) :
    (src.skip first).Room second := by
  have available := room.available
  refine ⟨?_, ?_⟩
  · simp only [Reader.skip, List.length_drop]
    omega
  · intro _ isHead
    cases stack : src.stack with
    | nil => simp [Reader.skip, stack, takeOff] at isHead
    | cons outer _ =>
      have within := room.within outer (by simp [stack])
      simp only [Reader.skip, stack, takeOff, head?_cons, Option.mem_def,
        Option.some.injEq] at isHead
      omega

theorem Room.add {first : Nat} (room : src.Room first)
    (later : (src.skip first).Room second) : src.Room (first + second) := by
  have available := room.available
  have laterAvailable := later.available
  simp only [Reader.skip, List.length_drop] at laterAvailable
  refine ⟨by omega, ?_⟩
  intro limit isHead
  have within := room.within limit isHead
  have laterWithin := later.within (limit - first) (mem_head?_takeOff isHead first)
  omega

theorem Room.mono {first : Nat} (room : src.Room second) (less : first ≤ second) : src.Room first :=
  ⟨less.trans room.available, fun limit isHead => less.trans (room.within limit isHead)⟩

theorem readUint_of_room (isExact : src.Exact) (positive : 0 < size) (room : src.Room size) :
    readUint size src =
      ((Stream.readUint size src.input).map Prod.fst |>.mapError fun _ => .canonSize,
        src.skip size) := by
  have available := room.available
  rw [Stream.readUint, if_neg (by omega), if_neg (by omega)]
  by_cases one : size = 1
  · subst one
    cases input : src.input with
    | nil => simp [input] at available
    | cons =>
      simp [readUint, readByte_of_room isExact input room, Bytes.toNat, Except.map, Except.mapError]
  have head : (src.input.take size).head? = src.input.head? := by
    rw [List.head?_take, if_neg (by omega)]
  simp only [readUint, if_neg one, if_neg (show ¬ size = 0 by omega),
    readFull_of_room isExact room, head]
  by_cases zero : src.input.head? = some 0
  · rw [if_pos zero, if_pos ⟨by omega, zero⟩]
    rfl
  · rw [if_neg zero, if_neg fun both => zero both.2]
    rfl

theorem room_of_readUint (isExact : src.Exact) (positive : 0 < size)
    (read : readUint size src = (.ok num, new)) : src.Room size := by
  simp only [readUint, if_neg (show ¬ size = 0 by omega)] at read
  split_ifs at read with one
  · rcases tagged : readByte src with ⟨error | _, mid⟩
    · simp [tagged] at read
    · rcases readByte_eq_ok isExact tagged with ⟨-, -, room, -⟩
      exact one ▸ room
  · rcases full : readFull size src with ⟨error | _, mid⟩
    · simp [full] at read
    · exact (readFull_eq_ok isExact full).1

theorem readUint_rest (positive : 0 < size)
    (parsed : Stream.readUint size buf = .ok (num, rest)) :
    size ≤ buf.length ∧ rest = buf.drop size := by
  rw [Stream.readUint, if_neg (by omega)] at parsed
  split_ifs at parsed with short
  simp only [Except.ok.injEq, Prod.mk.injEq] at parsed
  exact ⟨by omega, parsed.2.symm⟩

theorem readSize_rest (positive : 0 < size)
    (parsed : Stream.readSize size buf = .ok (num, rest)) :
    size ≤ buf.length ∧ rest = buf.drop size := by
  rcases read : Stream.readUint size buf with error | ⟨_, _⟩
  · simp [Stream.readSize, read] at parsed
  simp only [Stream.readSize, read] at parsed
  split_ifs at parsed
  simp only [Except.ok.injEq, Prod.mk.injEq] at parsed
  rw [← parsed.2]
  exact readUint_rest positive read

theorem readLong_of_room (isExact : src.Exact) (isKind : Kind) (positive : 0 < size)
    (room : src.Room size) (sized : Stream.readSize size src.input = .ok (num, rest)) :
    readLong isKind size src = (⟨isKind, num, none⟩, src.skip size) := by
  rw [Stream.readSize] at sized
  rcases read : Stream.readUint size src.input with error | ⟨_, _⟩
  · simp [read] at sized
  simp only [read] at sized
  split_ifs at sized with small
  simp only [Except.ok.injEq, Prod.mk.injEq] at sized
  rw [sized.1] at small read
  simp [readLong, readUint_of_room isExact positive room, read, Except.map, Except.mapError,
    if_neg small]

theorem readLong_eq_ok (isExact : src.Exact) (positive : 0 < size)
    (read : readLong isKind size src = (ahead, new)) (fine : ahead.kinderr = none) :
    src.Room size ∧ new = src.skip size ∧ ahead = ⟨isKind, ahead.size, none⟩ ∧
      Stream.readSize size src.input = .ok (ahead.size, src.input.drop size) := by
  rcases num : readUint size src with ⟨error | value, _⟩
  · simp only [readLong, num, Prod.mk.injEq] at read
    rw [← read.1] at fine
    simp at fine
  have room := room_of_readUint isExact positive num
  simp only [readLong, num] at read
  cases read
  have large : ¬ value < 56 := by
    intro small
    simp [small] at fine
  rw [readUint_of_room isExact positive room] at num
  rcases functional : Stream.readUint size src.input with error | ⟨_, _⟩
  · simp [functional, Except.map, Except.mapError] at num
  simp only [functional] at num
  cases num
  have isTail := (readUint_rest positive functional).2
  refine ⟨room, rfl, by simp [if_neg large], ?_⟩
  simp [Stream.readSize, functional, if_neg large, isTail]

def tagLength (first : Byte) : Nat :=
  let tag := first.toNat
  if tag < 0x80 then 1
  else if tag < 0xb8 then 1
  else if tag < 0xc0 then 1 + (tag - 0xb7)
  else if tag < 0xf8 then 1
  else 1 + (tag - 0xf7)

theorem one_le_tagLength (first : Byte) : 1 ≤ tagLength first := by
  simp only [tagLength]
  split_ifs <;> omega

theorem readTag_rest (tagged : Stream.readTag first rest = .ok head) :
    tagLength first + head.rest.length = (first :: rest).length := by
  have long : ∀ (isKind : Kind) (size : Nat), 0 < size → (Stream.readSize size rest).map
      (fun read => (⟨isKind, read.1, 0, read.2⟩ : Stream.Head)) = .ok head →
      1 + size + head.rest.length = (first :: rest).length := by
    intro isKind size positive mapped
    rcases sized : Stream.readSize size rest with error | ⟨_, _⟩
    · simp [sized, Except.map] at mapped
    simp only [sized, Except.map, Except.ok.injEq] at mapped
    rcases readSize_rest positive sized with ⟨_, rfl⟩
    rw [← mapped]
    simp only [List.length_drop, List.length_cons]
    omega
  simp only [Stream.readTag] at tagged
  simp only [tagLength]
  split_ifs at tagged ⊢
  · cases tagged
    simp [Nat.add_comm]
  · cases tagged
    simp [Nat.add_comm]
  · exact long _ _ (by omega) tagged
  · cases tagged
    simp [Nat.add_comm]
  · exact long _ _ (by omega) tagged

section

variable (isExact : src.Exact)
include isExact

section

variable (input : src.input = first :: rest)
include input

theorem readLong_of_map (positive : 0 < size) (room : src.Room (1 + size))
    (mapped : (Stream.readSize size rest).map
      (fun (size, rest) => (⟨isKind, size, 0, rest⟩ : Stream.Head)) = .ok head) :
    readLong isKind size { src.skip 1 with byteval := 0 } =
        (⟨head.kind, head.size, none⟩, { src.skip (1 + size) with byteval := head.byteval }) ∧
      head.rest = src.input.drop (1 + size) := by
  rcases sized : Stream.readSize size rest with error | ⟨_, _⟩
  · simp [sized, Except.map] at mapped
  simp only [sized, Except.map, Except.ok.injEq] at mapped
  subst mapped
  have laterInput : ({ src.skip 1 with byteval := 0 } : Reader).input = rest := by
    simp [skip, input]
  have isTail := (readSize_rest positive sized).2
  refine ⟨?_, ?_⟩
  · have later : Exact { src.skip 1 with byteval := 0 } := isExact.skipped 1
    rw [readLong_of_room later isKind positive ⟨room.skip.available, room.skip.within⟩
      (laterInput.symm ▸ sized)]
    simp only [← skip_skip]
    rfl
  · simp [isTail, input, Nat.add_comm 1 size]

theorem readKind_of_readTag (tagged : Stream.readTag first rest = .ok head)
    (room : src.Room (tagLength first)) :
    readKind src = (⟨head.kind, head.size, none⟩,
        { src.skip (tagLength first) with byteval := head.byteval }) ∧
      head.rest = src.input.drop (tagLength first) := by
  have one := room.mono (one_le_tagLength first)
  simp only [readKind, readByte_of_room isExact input one]
  simp only [Stream.readTag] at tagged
  simp only [tagLength] at room ⊢
  split_ifs at tagged room ⊢
  · cases tagged
    simp [input]
  · cases tagged
    simp [input]
  · exact readLong_of_map isExact input (by omega) room tagged
  · cases tagged
    simp [input]
  · exact readLong_of_map isExact input (by omega) room tagged

theorem map_of_readLong (one : src.Room 1) (positive : 0 < size)
    (read : readLong isKind size { src.skip 1 with byteval := 0 } = (ahead, new))
    (fine : ahead.kinderr = none) :
    src.Room (1 + size) ∧ (Stream.readSize size rest).map
      (fun (size, rest) => (⟨isKind, size, 0, rest⟩ : Stream.Head)) =
        .ok ⟨isKind, ahead.size, 0, rest.drop size⟩ := by
  have laterInput : ({ src.skip 1 with byteval := 0 } : Reader).input = rest := by
    simp [skip, input]
  rcases readLong_eq_ok (isExact.skipped 1) positive read fine with ⟨room, -, -, sized⟩
  rw [laterInput] at sized
  refine ⟨one.add ⟨room.available, room.within⟩, ?_⟩
  simp [sized, Except.map]

end

theorem readTag_of_readKind (read : readKind src = (ahead, new))
    (fine : ahead.kinderr = none) :
    ∃ first rest head, src.input = first :: rest ∧ Stream.readTag first rest = .ok head ∧
      src.Room (tagLength first) := by
  rcases tagged : readByte src with ⟨_ | byte, _⟩
  · simp only [readKind, tagged, Prod.mk.injEq] at read
    rw [← read.1] at fine
    simp at fine
  rcases readByte_eq_ok isExact tagged with ⟨rest, input, one, rfl⟩
  simp only [readKind, tagged] at read
  refine ⟨byte, rest, ?_⟩
  simp only [Stream.readTag, tagLength]
  split_ifs at read ⊢
  · exact ⟨_, input, rfl, one⟩
  · exact ⟨_, input, rfl, one⟩
  · rcases map_of_readLong isExact input one (by omega) read fine with ⟨room, mapped⟩
    exact ⟨_, input, mapped, room⟩
  · exact ⟨_, input, rfl, one⟩
  · rcases map_of_readLong isExact input one (by omega) read fine with ⟨room, mapped⟩
    exact ⟨_, input, mapped, room⟩

variable (rearmed : src.ahead = none)
include rearmed

theorem kind_eq_ok (tagged : kind src = (.ok (isKind, size), new)) :
    ∃ count byteval, src.Room count ∧
      new = { src.skip count with ahead := some ⟨isKind, size, none⟩, byteval } ∧
      size ≤ new.input.length ∧
      (isKind = .byte ∧ byteval.toNat < 128 ∧ src.input = byteval :: new.input ∨
        isKind ≠ .byte ∧ src.input = Stream.header isKind size ++ new.input) := by
  rcases read : readKind src with ⟨ahead, _⟩
  simp only [kind, rearmed, read] at tagged
  split_ifs at tagged with ended
  · simp at tagged
  have fine : ahead.kinderr = none := by
    by_contra failed
    simp only [checkSize, Ahead.result] at tagged
    cases error : ahead.kinderr with
    | none => exact failed error
    | some => simp_all
  rcases readTag_of_readKind isExact read fine with ⟨first, rest, head, input, functional, room⟩
  rcases readKind_of_readTag isExact input functional room with ⟨same, remains⟩
  rw [read, Prod.mk.injEq] at same
  rcases same with ⟨rfl, rfl⟩
  simp only [checkSize, Ahead.result] at tagged
  split_ifs at tagged with failed large larger
  · simp at failed
  · simp at tagged
  · simp at tagged
  cases tagged
  have enough : head.size ≤ (src.skip (tagLength first)).input.length := by
    have skipped := isExact.skip (tagLength first)
    rw [← skipped.remaining]
    by_contra less
    exact larger ⟨skipped.limited, by simpa using less⟩
  have isRest : (src.skip (tagLength first)).input = head.rest := remains.symm
  refine ⟨tagLength first, head.byteval, room, rfl, enough, ?_⟩
  simp only [isRest]
  rcases Stream.readTag_eq_ok functional with ⟨rfl, single⟩ | ⟨several, -, spelled⟩
  · exact .inl ⟨rfl, single, input⟩
  · exact .inr ⟨several, input.trans spelled⟩

theorem kind_of_readTag (input : src.input = first :: rest)
    (functional : Stream.readTag first rest = .ok head)
    (room : src.Room (tagLength first + head.size)) :
    kind src = (.ok (head.kind, head.size), { src.skip (tagLength first) with
      ahead := some ⟨head.kind, head.size, none⟩, byteval := head.byteval }) := by
  have positive := one_le_tagLength first
  have tagRoom : src.Room (tagLength first) := room.mono (by omega)
  have available := room.skip.available
  rw [← (isExact.skip (tagLength first)).remaining] at available
  have unended : ¬ src.stack.head? = some 0 := by
    intro ended
    have within := room.within 0 ended
    omega
  have fits : ¬ src.stack.head?.any (· < head.size) = true := by
    intro large
    rw [Option.any_eq_true] at large
    rcases large with ⟨limit, isHead, less⟩
    have within := room.within limit isHead
    simp only [decide_eq_true_eq] at less
    omega
  have checked : checkSize src.stack.head?
      { src.skip (tagLength first) with byteval := head.byteval }
      ⟨head.kind, head.size, none⟩ = ⟨head.kind, head.size, none⟩ := by
    have enough : ¬ (src.skip (tagLength first)).remaining < head.size := by omega
    simp [checkSize, if_neg fits, enough]
  simp [kind, rearmed, if_neg unended, (readKind_of_readTag isExact input functional tagRoom).1,
    checked, Ahead.result]

theorem kind_of_header (several : isKind ≠ .byte) (small : size < 2 ^ 64)
    (input : src.input = Stream.header isKind size ++ rest)
    (room : src.Room ((Stream.header isKind size).length + size)) :
    kind src = (.ok (isKind, size), { src.skip (Stream.header isKind size).length with
      ahead := some ⟨isKind, size, none⟩, byteval := 0 }) := by
  have fits : size ≤ rest.length := by
    have available := room.available
    rw [input, length_append] at available
    omega
  have functional := Stream.kind_header several small fits
  rw [← input] at functional
  cases isInput : src.input with
  | nil => simp [isInput, Stream.kind] at functional
  | cons first tail =>
    rw [isInput] at functional
    rcases tagged : Stream.readTag first tail with error | head
    · simp [Stream.kind, tagged] at functional
    simp only [Stream.kind, tagged] at functional
    split_ifs at functional
    cases functional
    have length : tagLength first = (Stream.header isKind size).length := by
      have total := readTag_rest tagged
      rw [← isInput, input, length_append] at total
      exact Nat.add_right_cancel total
    have result := kind_of_readTag isExact rearmed isInput tagged (by rw [length]; exact room)
    rw [length] at result
    exact result

end

theorem reserve_reserve {first : Nat} (small : first + second ≤ 2 ^ 64) :
    reserve second (reserve first stack) = reserve (first + second) stack := by
  cases stack with
  | nil => rfl
  | cons =>
    simp only [reserve, cons.injEq, and_true]
    omega

theorem mem_reserve_lt (limits : ∀ limit ∈ stack, limit < 2 ^ 64) (size : Nat) :
    ∀ limit ∈ reserve size stack, limit < 2 ^ 64 := by
  cases stack with
  | nil => simp [reserve]
  | cons =>
    intro limit mem
    rcases mem_cons.mp mem with rfl | later
    · exact Nat.mod_lt _ (by omega)
    · exact limits limit (by simp [later])

/-- A stream over a byte slice between two values. -/
structure Between (reader : Reader) : Prop where
  isExact : reader.Exact
  rearmed : reader.ahead = none
  limits : ∀ limit ∈ reader.stack, limit < 2 ^ 64
  short : reader.input.length < 2 ^ 63

structure Consumed (reader after : Reader) (text : Bytes) : Prop where
  input : reader.input = text ++ after.input
  isExact : after.Exact
  rearmed : after.ahead = none
  stack : after.stack = reserve text.length reader.stack

theorem Consumed.between (consumed : Consumed src new text) (between : src.Between) :
    new.Between where
  isExact := consumed.isExact
  rearmed := consumed.rearmed
  limits := by
    rw [consumed.stack]
    exact mem_reserve_lt between.limits _
  short := by
    have short := between.short
    rw [consumed.input, length_append] at short
    omega

section

variable (between : src.Between)
include between

theorem Consumed.trans {more : Bytes} (first : Consumed src mid text)
    (second : Consumed mid new more) : Consumed src new (text ++ more) where
  input := by rw [first.input, second.input, append_assoc]
  isExact := second.isExact
  rearmed := second.rearmed
  stack := by
    have short := between.short
    rw [first.input, second.input, length_append, length_append] at short
    rw [second.stack, first.stack, reserve_reserve (by omega), length_append]

theorem consumed_skip (room : src.Room count) (byteval : Byte) :
    Consumed src { src.skip count with byteval } (src.input.take count) where
  input := (take_append_drop count src.input).symm
  isExact := between.isExact.skipped count
  rearmed := rfl
  stack := by
    rw [length_take, Nat.min_eq_left room.available]
    exact takeOff_eq_reserve room.within between.limits

omit between in
theorem take_eq_of_append {input : Bytes} {count : Nat} (spelled : input = text ++ rest)
    (isRest : rest = input.drop count) : input.take count = text := by
  have same : input.take count ++ rest = text ++ rest := by
    rw [isRest, take_append_drop, ← isRest]
    exact spelled
  exact append_cancel_right same

theorem consumed_nil : Consumed src src [] where
  input := rfl
  isExact := between.isExact
  rearmed := between.rearmed
  stack := by
    cases stack : src.stack with
    | nil => rfl
    | cons limit _ =>
      have small := between.limits limit (by simp [stack])
      simp only [length_nil, reserve, cons.injEq, and_true]
      omega

section

variable (tagged : kind src = (.ok (isKind, size), mid))
include tagged

theorem kind_again : kind mid = (.ok (isKind, size), mid) := by
  rcases kind_eq_ok between.isExact between.rearmed tagged with ⟨_, _, -, isMiddle, -⟩
  rw [isMiddle]
  rfl

theorem consumed_of_readFull {text : Bytes} (several : isKind ≠ .byte)
    (full : readFull size mid = (.ok text, new)) :
    text.length = size ∧ Consumed src new (Stream.header isKind size ++ text) := by
  refine ⟨length_readFull full, ?_⟩
  rcases kind_eq_ok between.isExact between.rearmed tagged with
    ⟨count, byteval, room, rfl, -, ⟨isByte, -⟩ | ⟨-, spelled⟩⟩
  · exact absurd isByte several
  rcases readFull_eq_ok (between.isExact.skipped count) full with ⟨later, isContent, isFinal⟩
  have whole : src.Room (count + size) := room.add ⟨later.available, later.within⟩
  have same : new = { src.skip (count + size) with byteval := new.byteval } := by
    rw [isFinal, ← skip_skip]
    rfl
  have text : src.input.take (count + size) = Stream.header isKind size ++ text := by
    rw [take_add, take_eq_of_append spelled rfl, isContent]
    rfl
  have consumed := consumed_skip between whole new.byteval
  rw [text, ← same] at consumed
  exact consumed

end

omit between in
theorem listEnd_eq_ok (ended : listEnd src = (.ok (), new)) :
    ∃ outer, src.stack = 0 :: outer ∧ new = { src with stack := outer, ahead := none } := by
  cases stack : src.stack with
  | nil => simp [listEnd, stack] at ended
  | cons limit outer =>
    simp only [listEnd, stack] at ended
    split_ifs at ended with left
    · simp at ended
    · have empty : limit = 0 := by omega
      subst empty
      simp only [Prod.mk.injEq, true_and] at ended
      exact ⟨outer, rfl, ended.symm⟩

variable (tagged : kind src = (.ok (.list, size), mid))
include tagged

theorem between_list :
    ({ mid with stack := size :: reserve size mid.stack, ahead := none } : Reader).Between ∧
      size ≤ mid.input.length ∧
      Consumed src { mid with ahead := none } (Stream.header .list size) := by
  rcases kind_eq_ok between.isExact between.rearmed tagged with
    ⟨count, byteval, room, rfl, enough, ⟨isByte, -⟩ | ⟨-, spelled⟩⟩
  · cases isByte
  have consumed := consumed_skip between room byteval
  rw [take_eq_of_append spelled rfl] at consumed
  have outer := consumed.between between
  have short := outer.short
  simp only at short enough
  refine ⟨⟨⟨outer.isExact.limited, outer.isExact.remaining⟩, rfl, ?_, outer.short⟩, enough, consumed⟩
  intro limit mem
  rcases mem_cons.mp mem with rfl | later
  · omega
  · exact mem_reserve_lt outer.limits size limit later

theorem consumed_of_list {last : Reader} {outer : List Nat} (consumed : Consumed { mid with
      stack := size :: reserve size mid.stack, ahead := none } last text)
    (ended : last.stack = 0 :: outer) :
    Consumed src { last with stack := outer, ahead := none } (Rlp.list text) := by
  rcases between_list between tagged with ⟨inner, _, header⟩
  have stack := consumed.stack
  rw [ended, reserve, cons.injEq] at stack
  rcases stack with ⟨_, rfl⟩
  have whole : text.length = size := by
    have input := congrArg length consumed.input
    have short := inner.short
    rw [length_append] at input
    simp only at input short
    omega
  have rest : Consumed { mid with ahead := none }
      { last with stack := reserve size mid.stack, ahead := none } text :=
    ⟨consumed.input, ⟨consumed.isExact.limited, consumed.isExact.remaining⟩, rfl, by rw [whole]⟩
  rw [Rlp.list, whole]
  exact header.trans between rest

end

variable (count : Nat)

section

variable (src : Reader)

theorem willRead_ne_eol : (willRead count src).1 ≠ .error .eol := by
  cases stack : src.stack with
  | nil | cons =>
    simp only [willRead, stack, takeRemaining]
    split_ifs <;> simp

theorem readByte_ne_eol : (readByte src).1 ≠ .error .eol := by
  have granted := willRead_ne_eol 1 src
  rcases asked : willRead 1 src with ⟨error | _, mid⟩
  · simpa only [readByte, asked, ne_eq, Except.error.injEq] using granted
  · cases input : mid.input <;> simp [readByte, asked, input]

theorem readFull_ne_eol : (readFull count src).1 ≠ .error .eol := by
  have granted := willRead_ne_eol count src
  rcases asked : willRead count src with ⟨error | _, _⟩
  · simpa only [readFull, asked, ne_eq, Except.error.injEq] using granted
  · simp only [readFull, asked]
    split_ifs <;> simp

theorem readUint_ne_eol (size : Nat) (src : Reader) : (readUint size src).1 ≠ .error .eol := by
  have byte := readByte_ne_eol src
  have full := readFull_ne_eol size src
  simp only [readUint]
  split_ifs
  · simp
  · rcases read : readByte src with ⟨error | _, new⟩ <;> simp_all
  · rcases read : readFull size src with ⟨error | _, new⟩
    · simp_all
    · simp only
      split_ifs <;> simp

theorem readLong_ne_eol (isKind : Kind) (size : Nat) (src : Reader) :
    (readLong isKind size src).1.kinderr ≠ some .eol := by
  have num := readUint_ne_eol size src
  rcases read : readUint size src with ⟨_ | _, _⟩
  · simp_all [readLong]
  · simp only [readLong, read]
    split_ifs <;> simp

theorem readKind_ne_eol : (readKind src).1.kinderr ≠ some .eol := by
  have byte := readByte_ne_eol src
  rcases read : readByte src with ⟨_ | _, _⟩
  · rw [read] at byte
    simp only [readKind, read, tagError]
    split_ifs
    · simp
    · simpa using byte
  simp only [readKind, read]
  split_ifs
  · simp
  · simp
  · exact readLong_ne_eol _ _ _
  · simp
  · exact readLong_ne_eol _ _ _

end

theorem eq_of_kind_eol (rearmed : src.ahead = none)
    (ended : kind src = (.error .eol, new)) : new = src := by
  have header := readKind_ne_eol src
  simp only [kind, rearmed] at ended
  split_ifs at ended
  · simp only [Prod.mk.injEq, true_and] at ended
    exact ended.symm
  · simp only [Prod.mk.injEq, Ahead.result, checkSize] at ended
    have failed := ended.1
    split_ifs at failed <;> split at failed <;> simp_all

theorem listEnd_ne_eol (src : Reader) : (listEnd src).1 ≠ .error .eol := by
  cases stack : src.stack with
  | nil => simp [listEnd, stack]
  | cons =>
    simp only [listEnd, stack]
    split_ifs <;> simp

end Reader

theorem between_ofBytes {bytes : Bytes} (short : bytes.length < 2 ^ 63) :
    (Reader.ofBytes bytes).Between :=
  ⟨⟨rfl, rfl⟩, rfl, by simp [Reader.ofBytes], short⟩

theorem room_ofBytes (bytes : Bytes) : (Reader.ofBytes bytes).Room bytes.length :=
  ⟨Nat.le_refl _, by simp [Reader.ofBytes]⟩

end Rlp

end Octopus
