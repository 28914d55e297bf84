import Octopus.Rlp.Numbers

/-!
# Frames of the encrypted transport

`readFrame` undoes `writeFrame` with the same key stream and the same chain of MACs, on
bytes that arrive in chunks of any size.  A stream cipher is a key stream with a position,
the state of a hash is what was written to it, and a connection is the list of the chunks
that its reads will find.
-/

namespace Octopus.Rlpx

open List Rlp

/-- What two ends share: the key stream of AES in counter mode, the block cipher of the MAC and
the hash. -/
structure Secrets where
  keyStream : Nat → Byte
  encrypt : Bytes → Bytes
  sum : Bytes → Bytes
  length_sum : ∀ written, (sum written).length = 32

/-- A `readBuffer`: the length of its slice `data`, the bytes between this length and `end`, and
the capacity. -/
structure ReadBuffer where
  processed : Nat := 0
  unprocessed : Bytes := []
  capacity : Nat := 0

/-- The positions in the key streams, what the two hashes were given, and the read buffer. -/
structure Session where
  enc : Nat := 0
  dec : Nat := 0
  egressMAC : Bytes
  ingressMAC : Bytes
  rbuf : ReadBuffer := {}

inductive FrameError
  | plainMessageTooLarge
  | connection
  | badHeaderMAC
  | badFrameMAC

/-- `io.ReadAtLeast` with a buffer of `room` bytes: a read takes what fits of a chunk. -/
def readAtLeast (room need : Nat) : List Bytes → Option (Bytes × List Bytes)
  | [] => none
  | chunk :: rest =>
    if chunk.length < need then
      (readAtLeast (room - chunk.length) (need - chunk.length) rest).map fun got =>
        (chunk ++ got.1, got.2)
    else some (chunk.take room, chunk.drop room :: rest)

namespace ReadBuffer

def reset (buffer : ReadBuffer) : ReadBuffer :=
  { buffer with processed := 0 }

def room (buffer : ReadBuffer) : Nat :=
  buffer.capacity - (buffer.processed + buffer.unprocessed.length)

/-- `append` reserves some `slack` beyond what it is asked for. -/
def grow (slack : Nat → Nat) (buffer : ReadBuffer) (n : Nat) : ReadBuffer :=
  if buffer.room ≥ n then buffer
  else
    let enlarged := buffer.capacity + (n - buffer.room)
    { buffer with capacity := enlarged + slack enlarged }

def read (slack : Nat → Nat) (buffer : ReadBuffer) (conn : List Bytes) (n : Nat) :
    Option (Bytes × ReadBuffer × List Bytes) :=
  if buffer.unprocessed.length ≥ n then
    some (buffer.unprocessed.take n, { buffer with
      processed := buffer.processed + n
      unprocessed := buffer.unprocessed.drop n }, conn)
  else
    let need := n - buffer.unprocessed.length
    let grown := buffer.grow slack need
    (readAtLeast grown.room need conn).map fun got =>
      ((buffer.unprocessed ++ got.1).take n, { grown with
        processed := buffer.processed + n
        unprocessed := (buffer.unprocessed ++ got.1).drop n }, got.2)

end ReadBuffer

section

variable (secrets : Secrets)

def xorKeyStream (position : Nat) (bytes : Bytes) : Bytes :=
  bytes.mapIdx fun index byte => byte ^^^ secrets.keyStream (position + index)

/-- The MAC of a seed of sixteen bytes, and the hash with the seed written to it. -/
def compute (hash sum1 seed : Bytes) : Bytes × Bytes :=
  let hash := hash ++ zipWith (· ^^^ ·) (secrets.encrypt (sum1.take 16)) seed
  ((secrets.sum hash).take 16, hash)

def computeHeader (hash header : Bytes) : Bytes × Bytes :=
  compute secrets hash (secrets.sum hash) header

def computeFrame (hash framedata : Bytes) : Bytes × Bytes :=
  let hash := hash ++ framedata
  compute secrets hash (secrets.sum hash) ((secrets.sum hash).take 16)

def maxUint24 : Nat := 2 ^ 24 - 1

def putUint24 (value : Nat) : Bytes :=
  bigEndian (BitVec.ofNat 32 value) 3

def readUint24 (bytes : Bytes) : Nat :=
  Bytes.toNat (bytes.take 3)

def zeroHeader : Bytes := [0xc2, 0x80, 0x80]

def padding (size : Nat) : Nat :=
  if size % 16 > 0 then 16 - size % 16 else 0

def intSize (number : Nat) : Nat :=
  if number < 0x80 then 1 else 1 + intsize number

/-- The content of a frame: `AppendUint64` writes the code before the data. -/
def content (code : Nat) (data : Bytes) : Bytes :=
  writeUint64 code ++ data

def writeFrame (session : Session) (code : Nat) (data : Bytes) :
    Except FrameError (Bytes × Session) :=
  let fsize := intSize code + data.length
  if fsize > maxUint24 then .error .plainMessageTooLarge
  else
    let header := xorKeyStream secrets session.enc (putUint24 fsize ++ zeroHeader ++ replicate 10 0)
    let headerMAC := computeHeader secrets session.egressMAC header
    let framedata := xorKeyStream secrets (session.enc + 16)
      (content code data ++ replicate (padding fsize) 0)
    let frameMAC := computeFrame secrets headerMAC.2 framedata
    .ok (header ++ headerMAC.1 ++ framedata ++ frameMAC.1, { session with
      enc := session.enc + 16 + framedata.length
      egressMAC := frameMAC.2 })

def readFrame (slack : Nat → Nat) (session : Session) (conn : List Bytes) :
    Except FrameError (Bytes × Session × List Bytes) :=
  match session.rbuf.reset.read slack conn 32 with
  | none => .error .connection
  | some (header, rbuf, conn) =>
    let headerMAC := computeHeader secrets session.ingressMAC (header.take 16)
    if headerMAC.1 ≠ header.drop 16 then .error .badHeaderMAC
    else
      let fsize := readUint24 (xorKeyStream secrets session.dec (header.take 16))
      match rbuf.read slack conn (fsize + padding fsize) with
      | none => .error .connection
      | some (frame, rbuf, conn) =>
        match rbuf.read slack conn 16 with
        | none => .error .connection
        | some (mac, rbuf, conn) =>
          let frameMAC := computeFrame secrets headerMAC.2 frame
          if frameMAC.1 ≠ mac then .error .badFrameMAC
          else .ok ((xorKeyStream secrets (session.dec + 16) frame).take fsize, { session with
            dec := session.dec + 16 + frame.length
            ingressMAC := frameMAC.2
            rbuf := rbuf }, conn)

def writeFrames : Session → List (Nat × Bytes) → Except FrameError (Bytes × Session)
  | session, [] => .ok ([], session)
  | session, (code, data) :: rest => do
    let first ← writeFrame secrets session code data
    let later ← writeFrames first.2 rest
    return (first.1 ++ later.1, later.2)

def readFrames (slack : Nat → Nat) :
    Nat → Session → List Bytes → Except FrameError (List Bytes × Session × List Bytes)
  | 0, session, conn => .ok ([], session, conn)
  | count + 1, session, conn => do
    let first ← readFrame secrets slack session conn
    let later ← readFrames slack count first.2.1 first.2.2
    return (first.1 :: later.1, later.2)

end

theorem readAtLeast_spec (conn : List Bytes) : ∀ room need, 0 < need → need ≤ room →
    need ≤ conn.flatten.length → ∃ got rest, readAtLeast room need conn = some (got, rest) ∧
      got ++ rest.flatten = conn.flatten ∧ need ≤ got.length ∧ got.length ≤ room := by
  induction conn with
  | nil =>
    intro room need wanted _ enough
    exact absurd enough (Nat.not_le.mpr wanted)
  | cons chunk rest ih =>
    intro room need wanted fits enough
    rw [readAtLeast]
    split
    · next short =>
      rw [flatten_cons, length_append] at enough
      rcases ih (room - chunk.length) (need - chunk.length) (by omega) (by omega) (by omega) with
        ⟨got, left, read, same, atLeast, atMost⟩
      refine ⟨chunk ++ got, left, by rw [read, Option.map_some], ?_⟩
      rw [append_assoc, same, flatten_cons, length_append]
      exact ⟨rfl, by omega, by omega⟩
    · refine ⟨_, _, rfl, ?_⟩
      rw [flatten_cons, ← append_assoc, take_append_drop, flatten_cons, length_take]
      exact ⟨rfl, by omega, by omega⟩

def ReadBuffer.Fits (buffer : ReadBuffer) : Prop :=
  buffer.processed + buffer.unprocessed.length ≤ buffer.capacity

theorem ReadBuffer.read_spec {buf : ReadBuffer} (fits : buf.Fits) (slack : Nat → Nat)
    {conn : List Bytes} {front back : Bytes} {n : Nat}
    (stream : buf.unprocessed ++ conn.flatten = front ++ back) (length : front.length = n) :
    ∃ after rest, buf.read slack conn n = some (front, after, rest) ∧ after.Fits ∧
      after.unprocessed ++ rest.flatten = back := by
  subst length
  have divide : ∀ {held rest : Bytes}, held ++ rest = front ++ back → front.length ≤ held.length →
        held.take front.length = front ∧ held.drop front.length ++ rest = back := by
    intro held rest same enough
    have taken := congrArg (take front.length) same
    have left := congrArg (drop front.length) same
    rw [take_append_of_le_length enough, take_left] at taken
    rw [drop_append_of_le_length enough, drop_left] at left
    exact ⟨taken, left⟩
  unfold ReadBuffer.Fits at fits
  unfold ReadBuffer.read
  split
  · next enough =>
    rcases divide stream enough with ⟨taken, left⟩
    refine ⟨_, _, by rw [taken], ?_, left⟩
    simp only [ReadBuffer.Fits, length_drop]
    omega
  · next short =>
    have lengths := congrArg length stream
    simp only [length_append] at lengths
    generalize isNeed : front.length - buf.unprocessed.length = need
    have grown : (buf.grow slack need).processed = buf.processed ∧
        (buf.grow slack need).unprocessed = buf.unprocessed ∧
        buf.processed + buf.unprocessed.length + need ≤ (buf.grow slack need).capacity := by
      unfold grow room
      split
      · exact ⟨rfl, rfl, by omega⟩
      · exact ⟨rfl, rfl, by dsimp only; omega⟩
    rcases grown with ⟨processed, unprocessed, capacity⟩
    have room : (buf.grow slack need).room = (buf.grow slack need).capacity -
        (buf.processed + buf.unprocessed.length) := by
      rw [ReadBuffer.room, processed, unprocessed]
    rcases readAtLeast_spec conn (buf.grow slack need).room need (by omega) (by omega)
      (by omega) with ⟨got, rest, read, same, atLeast, atMost⟩
    rw [← same, ← append_assoc] at stream
    rcases divide stream (by rw [length_append]; omega) with ⟨taken, left⟩
    dsimp only
    rw [read, Option.map_some, taken]
    refine ⟨_, _, rfl, ?_, left⟩
    simp only [ReadBuffer.Fits, length_drop, length_append]
    omega

section

variable (secrets : Secrets)

@[simp]
theorem length_xorKeyStream (pos : Nat) (bytes : Bytes) :
    (xorKeyStream secrets pos bytes).length = bytes.length := by
  simp [xorKeyStream]

@[simp]
theorem xorKeyStream_xorKeyStream (pos : Nat) (bytes : Bytes) :
    xorKeyStream secrets pos (xorKeyStream secrets pos bytes) = bytes := by
  apply ext_getElem
  · simp
  · intro index _ _
    simp only [xorKeyStream, getElem_mapIdx]
    rw [BitVec.xor_assoc, BitVec.xor_self, BitVec.xor_zero]

@[simp]
theorem length_compute (hash sum1 seed : Bytes) :
    (compute secrets hash sum1 seed).1.length = 16 := by
  simp [compute, secrets.length_sum]

theorem length_content (code : Nat) (data : Bytes) :
    (content code data).length = intSize code + data.length := by
  rw [content, length_append]
  congr 1
  unfold writeUint64 intSize
  split
  · next zero => simp [zero]
  · split <;> simp [putint, Nat.add_comm]

theorem readUint24_putUint24 {size : Nat} (small : size ≤ maxUint24) (rest : Bytes) :
    readUint24 (putUint24 size ++ rest) = size := by
  have three : (putUint24 size).length = 3 := length_bigEndian ..
  rw [readUint24, take_left' three, putUint24, Bytes.toNat_bigEndian, BitVec.toNat_ofNat]
  unfold maxUint24 at small
  omega

/-- The reader is where the writer is in the key stream and in the chain of the MACs. -/
structure Matches (sender receiver : Session) : Prop where
  cipher : receiver.dec = sender.enc
  mac : receiver.ingressMAC = sender.egressMAC
  fits : receiver.rbuf.Fits

variable {sender receiver : Session}

theorem readFrame_writeFrame (matching : Matches sender receiver) (slack : Nat → Nat) {code : Nat}
    {data : Bytes} (small : intSize code + data.length ≤ maxUint24) :
    ∃ frame sent, writeFrame secrets sender code data = .ok (frame, sent) ∧
      ∀ conn tail, receiver.rbuf.unprocessed ++ conn.flatten = frame ++ tail →
        ∃ received rest,
          readFrame secrets slack receiver conn = .ok (content code data, received, rest) ∧
          Matches sent received ∧ received.rbuf.unprocessed ++ rest.flatten = tail := by
  rw [writeFrame, if_neg (by omega)]
  refine ⟨_, _, rfl, ?_⟩
  intro conn tail stream
  rcases matching with ⟨cipher, mac, fits⟩
  rw [← length_content] at small stream ⊢
  generalize isHeader : xorKeyStream secrets sender.enc (putUint24 (content code data).length ++
    zeroHeader ++ replicate 10 0) = header at stream ⊢
  generalize isFrame : xorKeyStream secrets (sender.enc + 16) (content code data ++
    replicate (padding (content code data).length) 0) = framedata at stream ⊢
  have headerLength : header.length = 16 := by
    rw [← isHeader]
    simp [putUint24, zeroHeader]
  have frameLength : framedata.length =
      (content code data).length + padding (content code data).length := by
    rw [← isFrame]
    simp
  have size : readUint24 (xorKeyStream secrets receiver.dec header) =
      (content code data).length := by
    rw [cipher, ← isHeader, xorKeyStream_xorKeyStream, append_assoc, readUint24_putUint24 small]
  have plain : (xorKeyStream secrets (receiver.dec + 16) framedata).take
      (content code data).length = content code data := by
    rw [cipher, ← isFrame, xorKeyStream_xorKeyStream, take_left]
  have emptied : receiver.rbuf.reset.Fits := (Nat.zero_add _).trans_le (Nat.le_of_add_left_le fits)
  rw [append_assoc, append_assoc] at stream
  rcases ReadBuffer.read_spec emptied slack stream (n := 32)
    (by simp [headerLength, computeHeader]) with ⟨first, rest, readHeader, fits, stream⟩
  rcases ReadBuffer.read_spec fits slack stream frameLength with
    ⟨second, rest, readContent, fits, stream⟩
  rcases ReadBuffer.read_spec fits slack stream (length_compute ..) with
    ⟨third, rest, readMAC, fits, stream⟩
  let received : Session := { receiver with
    dec := receiver.dec + 16 + framedata.length
    ingressMAC := (computeFrame secrets (computeHeader secrets sender.egressMAC header).2
      framedata).2
    rbuf := third }
  refine ⟨received, rest, ?_, ⟨by rw [← cipher], rfl, fits⟩, stream⟩
  simp only [readFrame, readHeader, take_left' headerLength, drop_left' headerLength, mac, size,
    readContent, readMAC, plain, ne_eq, not_true_eq_false]
  rfl

/-- Every sequence of messages is read as it was written, whatever the chunks; afterwards the
two ends are at the same place, and the reader holds what follows the frames. -/
theorem readFrames_writeFrames (matching : Matches sender receiver) (slack : Nat → Nat)
    (messages : List (Nat × Bytes))
    (small : ∀ msg ∈ messages, intSize msg.1 + msg.2.length ≤ maxUint24) :
    ∃ wire sent, writeFrames secrets sender messages = .ok (wire, sent) ∧
      ∀ conn tail, receiver.rbuf.unprocessed ++ conn.flatten = wire ++ tail →
        ∃ received rest,
          readFrames secrets slack messages.length receiver conn =
            .ok (messages.map fun msg => content msg.1 msg.2, received, rest) ∧
          Matches sent received ∧ received.rbuf.unprocessed ++ rest.flatten = tail := by
  induction messages generalizing sender receiver with
  | nil => exact ⟨[], sender, rfl, fun conn tail stream => ⟨receiver, conn, rfl, matching, stream⟩⟩
  | cons msg later ih =>
    rw [forall_mem_cons] at small
    rcases readFrame_writeFrame secrets matching slack small.1 with ⟨frame, sent, wrote, reads⟩
    -- what is written does not depend on the reader: any matching one will do
    have mirrored : Matches sent ⟨0, sent.enc, [], sent.egressMAC, {}⟩ := ⟨rfl, rfl, le_rfl⟩
    rcases ih mirrored small.2 with ⟨wire, final, wroteLater, -⟩
    refine ⟨frame ++ wire, final, ?_, ?_⟩
    · simp only [writeFrames, wrote, wroteLater, bind, Except.bind]
      rfl
    intro conn tail stream
    rcases reads conn (wire ++ tail) (by rw [stream, append_assoc]) with
      ⟨received, rest, read, matching, stream⟩
    rcases ih matching small.2 with ⟨_, _, again, delivers⟩
    cases wroteLater.symm.trans again
    rcases delivers rest tail stream with ⟨last, left, readLater, matching, stream⟩
    refine ⟨last, left, ?_, matching, stream⟩
    simp only [readFrames, length_cons, read, readLater, bind, Except.bind]
    rfl

end

def plainSecrets : Secrets where
  keyStream := BitVec.ofNat 8
  encrypt := id
  sum written := replicate 32 (BitVec.ofNat 8 written.length)
  length_sum _ := length_replicate

/-- Two messages on a stream that is cut inside the first header. -/
theorem two_messages_read :
    ∃ wire sent received rest,
      writeFrames plainSecrets ⟨0, 0, [1], [2], {}⟩ [(16, [1, 2, 3]), (300, [])] =
        .ok (wire, sent) ∧
      readFrames plainSecrets id 2 ⟨0, 0, [2], [1], {}⟩ [wire.take 5, wire.drop 5] =
        .ok ([content 16 [1, 2, 3], content 300 []], received, rest) ∧
      Matches sent received ∧ received.rbuf.unprocessed ++ rest.flatten = [] := by
  have start : Matches ⟨0, 0, [1], [2], {}⟩ ⟨0, 0, [2], [1], {}⟩ := ⟨rfl, rfl, le_rfl⟩
  rcases readFrames_writeFrames plainSecrets start id [(16, [1, 2, 3]), (300, [])] (by decide) with
    ⟨wire, sent, wrote, delivers⟩
  rcases delivers [wire.take 5, wire.drop 5] [] (by simp) with
    ⟨received, rest, read, matching, left⟩
  exact ⟨wire, sent, received, rest, wrote, read, matching, left⟩

end Octopus.Rlpx
