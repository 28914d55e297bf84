import Mathlib.Algebra.GroupWithZero.Nat
import Mathlib.Data.List.Basic

/-!
# Codecs

A codec writes a value as a text, or refuses to, and reads a value from the front of a
buffer.  It is complete for the values that it reads back as written, and exact if it
reads nothing but what it writes.
-/

namespace Library

open List Option

structure Codec (Symbol Error Value : Type) where
  write : Value → Option (List Symbol)
  read : List Symbol → Except Error (Value × List Symbol)

namespace Codec

variable {Symbol Error Value Other : Type} {values : List Value} {value : Value} {other : Other}

def Completes (codec : Codec Symbol Error Value) (value : Value) : Prop :=
  ∃ text, codec.write value = some text ∧ text ≠ [] ∧
    ∀ rest, codec.read (text ++ rest) = .ok (value, rest)

def Exact (codec : Codec Symbol Error Value) : Prop :=
  ∀ buffer value rest, codec.read buffer = .ok (value, rest) →
    ∃ text, codec.write value = some text ∧ buffer = text ++ rest

def AtMost (codec : Codec Symbol Error Value) (value : Value) (bound : Nat) : Prop :=
  ∀ text, codec.write value = some text → text.length ≤ bound

structure CompletesWithin (codec : Codec Symbol Error Value) (value : Value) (bound : Nat) :
    Prop where
  completes : codec.Completes value
  atMost : codec.AtMost value bound

theorem CompletesWithin.mono {codec : Codec Symbol Error Value} {bound larger : Nat}
    (within : codec.CompletesWithin value bound) (le : bound ≤ larger) :
    codec.CompletesWithin value larger :=
  ⟨within.completes, fun text wrote => Nat.le_trans (within.atMost text wrote) le⟩

def pair (first : Codec Symbol Error Value) (second : Codec Symbol Error Other) :
    Codec Symbol Error (Value × Other) where
  write values :=
    (first.write values.1).bind fun front => (second.write values.2).map fun back => front ++ back
  read buffer :=
    match first.read buffer with
    | .error error => .error error
    | .ok (value, rest) =>
      match second.read rest with
      | .error error => .error error
      | .ok (other, rest) => .ok ((value, other), rest)

variable {first : Codec Symbol Error Value} {second : Codec Symbol Error Other}

theorem Completes.pair (completes : first.Completes value)
    (otherCompletes : second.Completes other) : (first.pair second).Completes (value, other) := by
  rcases completes with ⟨front, writes, nonempty, reads⟩
  rcases otherCompletes with ⟨back, otherWrites, -, otherReads⟩
  refine ⟨front ++ back, by simp [Codec.pair, writes, otherWrites], by simp [nonempty], ?_⟩
  simp [Codec.pair, reads, otherReads]

theorem Exact.pair (isExact : first.Exact) (otherExact : second.Exact) :
    (first.pair second).Exact := by
  rintro buffer ⟨_, _⟩ rest parsed
  rcases front : first.read buffer with error | ⟨read, mid⟩
  · simp [Codec.pair, front] at parsed
  rcases back : second.read mid with error | ⟨_, _⟩
  · simp [Codec.pair, front, back] at parsed
  simp only [Codec.pair, front, back] at parsed
  cases parsed
  rcases isExact _ _ _ front with ⟨text, writes, rfl⟩
  rcases otherExact _ _ _ back with ⟨otherText, otherWrites, rfl⟩
  exact ⟨text ++ otherText, by simp [Codec.pair, writes, otherWrites], by simp⟩

theorem AtMost.pair {bound otherBound : Nat} (atMost : first.AtMost value bound)
    (otherAtMost : second.AtMost other otherBound) :
    (first.pair second).AtMost (value, other) (bound + otherBound) := by
  intro _ wrote
  simp only [Codec.pair, bind_eq_some_iff, map_eq_some_iff] at wrote
  rcases wrote with ⟨front, frontWritten, back, backWritten, rfl⟩
  have frontBound := atMost front frontWritten
  have backBound := otherAtMost back backWritten
  rw [length_append]
  omega

theorem CompletesWithin.pair {bound otherBound : Nat} (within : first.CompletesWithin value bound)
    (otherWithin : second.CompletesWithin other otherBound) :
    (first.pair second).CompletesWithin (value, other) (bound + otherBound) :=
  ⟨within.completes.pair otherWithin.completes, within.atMost.pair otherWithin.atMost⟩

theorem pair_write_isSome (values : Value × Other) : ((first.pair second).write values).isSome ↔
      (first.write values.1).isSome ∧ (second.write values.2).isSome := by
  cases front : first.write values.1 <;> cases back : second.write values.2 <;>
    simp [Codec.pair, front, back]

def via (codec : Codec Symbol Error Value) (into : Other → Value) (back : Value → Other) :
    Codec Symbol Error Other where
  write other := codec.write (into other)
  read buffer :=
    match codec.read buffer with
    | .error error => .error error
    | .ok (value, rest) => .ok (back value, rest)

variable {codec : Codec Symbol Error Value} {into : Other → Value} {back : Value → Other}

theorem Completes.via (completes : codec.Completes (into other))
    (returns : back (into other) = other) : (codec.via into back).Completes other := by
  rcases completes with ⟨text, writes, nonempty, reads⟩
  exact ⟨text, writes, nonempty, fun rest => by simp [Codec.via, reads, returns]⟩

theorem CompletesWithin.via {bound : Nat} (within : codec.CompletesWithin (into other) bound)
    (returns : back (into other) = other) : (codec.via into back).CompletesWithin other bound :=
  ⟨within.completes.via returns, within.atMost⟩

theorem Exact.via (isExact : codec.Exact) (returns : ∀ value, into (back value) = value) :
    (codec.via into back).Exact := by
  intro buffer _ _ parsed
  rcases front : codec.read buffer with error | ⟨value, _⟩
  · simp [Codec.via, front] at parsed
  simp only [Codec.via, front] at parsed
  cases parsed
  rcases isExact _ _ _ front with ⟨text, writes, rfl⟩
  exact ⟨text, by simp [Codec.via, returns, writes], rfl⟩

structure Frame (Symbol Error : Type) where
  wrap : List Symbol → List Symbol
  unwrap : List Symbol → Except Error (List Symbol × List Symbol)

def Frame.Completes (frame : Frame Symbol Error) (payload : List Symbol) : Prop :=
  frame.wrap payload ≠ [] ∧ ∀ rest, frame.unwrap (frame.wrap payload ++ rest) = .ok (payload, rest)

def Frame.Exact (frame : Frame Symbol Error) : Prop :=
  ∀ buffer payload rest, frame.unwrap buffer = .ok (payload, rest) →
    buffer = frame.wrap payload ++ rest

/-- A value that fills the payload of a frame.  The errors inside of the frame
are reported in their own way. -/
def framed (codec : Codec Symbol Error Value) (frame : Frame Symbol Error)
    (report : Error → Error) (leftover : Error) : Codec Symbol Error Value where
  write value := (codec.write value).map frame.wrap
  read buffer :=
    match frame.unwrap buffer with
    | .error error => .error error
    | .ok (payload, rest) =>
      match codec.read payload with
      | .error error => .error (report error)
      | .ok (value, []) => .ok (value, rest)
      | .ok (_, _ :: _) => .error leftover

variable {frame : Frame Symbol Error} {report : Error → Error} {leftover : Error}

theorem Completes.framed (completes : codec.Completes value)
    (frames : ∀ text, codec.write value = some text → frame.Completes text) :
    (codec.framed frame report leftover).Completes value := by
  rcases completes with ⟨text, writes, -, reads⟩
  rcases frames text writes with ⟨nonempty, unwraps⟩
  refine ⟨frame.wrap text, by simp [Codec.framed, writes], nonempty, ?_⟩
  have alone := reads []
  rw [append_nil] at alone
  simp [Codec.framed, unwraps, alone]

theorem Exact.framed (isExact : codec.Exact) (frameExact : frame.Exact) :
    (codec.framed frame report leftover).Exact := by
  intro buffer _ _ parsed
  rcases front : frame.unwrap buffer with error | ⟨payload, _⟩
  · simp [Codec.framed, front] at parsed
  rcases inner : codec.read payload with error | ⟨read, _ | ⟨_, _⟩⟩
  · simp [Codec.framed, front, inner] at parsed
  · simp only [Codec.framed, front, inner] at parsed
    cases parsed
    rcases isExact _ _ _ inner with ⟨_, writes, isPayload⟩
    subst isPayload
    exact ⟨_, by simp [Codec.framed, writes], frameExact _ _ _ front⟩
  · simp [Codec.framed, front, inner] at parsed

def readAll (codec : Codec Symbol Error Value) (exhausted : Error) :
    Nat → List Symbol → Except Error (List Value)
  | _, [] => .ok []
  | 0, _ :: _ => .error exhausted
  | rounds + 1, buffer =>
    match codec.read buffer with
    | .error error => .error error
    | .ok (value, rest) => (codec.readAll exhausted rounds rest).map (value :: ·)

def writeAll (codec : Codec Symbol Error Value) (values : List Value) : Option (List Symbol) :=
  (values.mapM codec.write).map List.flatten

theorem readAll_writeAll (completes : ∀ value ∈ values, codec.Completes value) (exhausted : Error) :
    ∃ text, codec.writeAll values = some text ∧
      ∀ rounds, text.length ≤ rounds → codec.readAll exhausted rounds text = .ok values := by
  induction values with
  | nil => exact ⟨[], rfl, fun rounds _ => by cases rounds <;> rfl⟩
  | cons value values ih =>
    rcases completes value (by simp) with ⟨text, writes, nonempty, reads⟩
    rcases ih fun other mem => completes other (by simp [mem]) with ⟨rest, restWrites, restReads⟩
    refine ⟨text ++ rest, ?_, ?_⟩
    · rcases map_eq_some_iff.mp restWrites with ⟨_, wrote, rfl⟩
      simp [writeAll, writes, wrote]
    · intro rounds enough
      have positive := length_pos_iff.mpr nonempty
      rw [length_append] at enough
      rcases text with _ | ⟨_, _⟩
      · exact absurd rfl nonempty
      rcases rounds with _ | rounds
      · simp at enough
      have others : codec.readAll exhausted rounds rest = .ok values :=
        restReads rounds (by omega)
      have head := reads rest
      rw [cons_append] at head ⊢
      simp [readAll, head, others, Except.map]

theorem length_writeAll_le {size : Value → Nat} {text : List Symbol}
    (atMost : ∀ value ∈ values, codec.AtMost value (size value))
    (wrote : codec.writeAll values = some text) : text.length ≤ (values.map size).sum := by
  induction values generalizing text with
  | nil =>
    cases wrote
    simp
  | cons value values ih =>
    simp only [writeAll, mapM_cons, bind, map_eq_some_iff, bind_eq_some_iff] at wrote
    rcases wrote with ⟨_, ⟨first, isFirst, rest, areRest, same⟩, rfl⟩
    cases same
    have front := atMost value (by simp) first isFirst
    have back := ih (fun other mem => atMost other (by simp [mem]))
      (show codec.writeAll values = some rest.flatten by simp [writeAll, areRest])
    simp only [flatten_cons, length_append, map_cons, sum_cons]
    omega

def sliced (codec : Codec Symbol Error Value) (frame : Frame Symbol Error) (exhausted : Error) :
    Codec Symbol Error (List Value) where
  write values := (codec.writeAll values).map frame.wrap
  read buffer :=
    match frame.unwrap buffer with
    | .error error => .error error
    | .ok (payload, rest) =>
      match codec.readAll exhausted payload.length payload with
      | .error error => .error error
      | .ok values => .ok (values, rest)

theorem Completes.sliced {exhausted : Error} (completes : ∀ value ∈ values, codec.Completes value)
    (frames : ∀ text, codec.writeAll values = some text → frame.Completes text) :
    (codec.sliced frame exhausted).Completes values := by
  rcases readAll_writeAll completes exhausted with ⟨text, writes, reads⟩
  rcases frames text writes with ⟨nonempty, unwraps⟩
  refine ⟨frame.wrap text, by simp [Codec.sliced, writes], nonempty, ?_⟩
  simp [Codec.sliced, unwraps, reads text.length (Nat.le_refl _)]

end Codec

end Library
