import Octopus.Consensus.Batches

/-!
# Batches across the merge

`Beacon.VerifyHeaders` splits a batch at its first proof-of-stake header, and a third
goroutine puts the results of the two parts together.  The legacy engine is a parameter
that delivers its verdicts in order, as `verifyHeaders_delivers_iff` shows of `octell`.
-/

namespace Octopus

open Library List Option Feed

variable {preHeaders : List Header} {verdict : Verdict} {terminal index td : Nat}

def Header.isPoSHeader (header : Header) : Bool :=
  header.difficulty = 0

def beaconVerifyHeader [Crypto] (config : ChainConfig) (header parent : Header) :
    Except Fault Verdict :=
  if 32 < header.extra.length then .ok (some (.extraDataTooLong header.extra.length))
  else if header.nonce ≠ 0 then .ok (some .invalidNonce)
  else if header.uncleHash ≠ emptyUncleHash then .ok (some .invalidUncleHash)
  else if header.time ≤ parent.time then .ok (some .invalidTimestamp)
  else if header.difficulty ≠ 0 then .ok (some (.wrongDifficulty header.difficulty 0))
  else if Params.maxGasLimit < header.gasLimit then
    .ok (some (.gasLimitTooLarge header.gasLimit Params.maxGasLimit))
  else if header.gasLimit < header.gasUsed then
    .ok (some (.gasUsedTooLarge header.gasUsed header.gasLimit))
  else if (header.number : Int) - parent.number ≠ 1 then .ok (some .invalidNumber)
  else verifyEip1559Header config parent header

def beaconVerdicts [Crypto] [Encoding] (chain : ChainHeaderReader) (headers : List Header)
    (ancestor : Option Header) : List (Except Fault Verdict) :=
  headers.mapIdx fun index header =>
    match batchParent chain headers ancestor index with
    | none => .ok (some .unknownAncestor)
    | some parent => beaconVerifyHeader chain.config header parent

/-- The first header whose parent's total difficulty reaches the terminal one. -/
def terminalIndex (terminal : Nat) : Nat → List Header → Option Nat
  | _, [] => none
  | td, head :: rest =>
    if terminal ≤ td then some 0
    else (terminalIndex terminal (td + head.difficulty) rest).map (· + 1)

/-- The position from which the headers get an error, and the error.  It panics if no terminal
total difficulty is configured. -/
def verifyTerminalPoWBlock (chain : ChainHeaderReader) (preHeaders : List Header) :
    Except Fault (Option (Nat × ConsensusError)) :=
  match preHeaders with
  | [] => .error (.panic "index out of range [0] with length 0")
  | first :: _ =>
    match chain.getTd first.parentHash first.parentNumber with
    | none => .ok (some (0, .unknownAncestor))
    | some td =>
      match chain.config.terminalTotalDifficulty with
      | none => .error nilDereference
      | some terminal =>
        match terminalIndex terminal td preHeaders with
        | some index => .ok (some (index, .invalidTerminalBlock))
        | none =>
          if td + (preHeaders.map Header.difficulty).sum < terminal then
            .ok (some (preHeaders.length - 1, .invalidTerminalBlock))
          else .ok none

def parentTd (td : Nat) (preHeaders : List Header) (index : Nat) : Nat :=
  td + ((preHeaders.take index).map Header.difficulty).sum

theorem terminalIndex_eq_some (found : terminalIndex terminal td preHeaders = some index) :
    index < preHeaders.length ∧ ∀ pos, terminal ≤ parentTd td preHeaders pos ↔ index ≤ pos := by
  induction preHeaders generalizing td index with
  | nil => cases found
  | cons _ _ ih =>
    rw [terminalIndex] at found
    split_ifs at found with reached
    · cases found
      refine ⟨by simp, ?_⟩
      simp only [parentTd, Nat.zero_le, iff_true]
      omega
    · rcases map_eq_some_iff.mp found with ⟨_, foundLater, rfl⟩
      rcases ih foundLater with ⟨inside, exactly⟩
      refine ⟨by simpa using inside, ?_⟩
      intro pos
      rcases pos with _ | pos
      · simpa [parentTd] using reached
      · have shifted := exactly pos
        simp only [parentTd, take_succ_cons, map_cons, sum_cons] at shifted ⊢
        omega

theorem terminalIndex_eq_none (absent : terminalIndex terminal td preHeaders = none) :
    ∀ pos < preHeaders.length, parentTd td preHeaders pos < terminal := by
  induction preHeaders generalizing td with
  | nil => simp
  | cons _ _ ih =>
    rw [terminalIndex] at absent
    split_ifs at absent with reached
    rw [map_eq_none_iff] at absent
    intro pos inside
    rcases pos with _ | pos
    · simpa [parentTd] using reached
    · have later := ih absent pos (by simpa using inside)
      simp only [parentTd, take_succ_cons, map_cons, sum_cons] at later ⊢
      omega

/-- The error that overrides the verdict of a header before the merge: the total difficulty of
the first parent is unknown, or that of the parent has already reached the terminal one, or
the last header does not reach it. -/
def terminalError (chain : ChainHeaderReader) (preHeaders : List Header) (terminal : Nat)
    (index : Nat) : Option ConsensusError :=
  match preHeaders with
  | [] => none
  | first :: _ =>
    match chain.getTd first.parentHash first.parentNumber with
    | none => some .unknownAncestor
    | some td =>
      if terminal ≤ parentTd td preHeaders index ∨
          (index + 1 = preHeaders.length ∧ parentTd td preHeaders preHeaders.length < terminal) then
        some .invalidTerminalBlock
      else none

def overriding (result : Option (Nat × ConsensusError)) (index : Nat) : Option ConsensusError :=
  result.bind fun (first, error) => if first ≤ index then some error else none

theorem verifyTerminalPoWBlock_spec {chain : ChainHeaderReader}
    (configured : chain.config.terminalTotalDifficulty = some terminal) (nonempty : preHeaders ≠ []) :
    ∃ res, verifyTerminalPoWBlock chain preHeaders = .ok res ∧
      ∀ index < preHeaders.length,
        overriding res index = terminalError chain preHeaders terminal index := by
  rcases preHeaders with _ | ⟨first, rest⟩
  · exact absurd rfl nonempty
  rcases known : chain.getTd first.parentHash first.parentNumber with _ | td
  · refine ⟨some (0, .unknownAncestor), by simp [verifyTerminalPoWBlock, known], ?_⟩
    simp [overriding, terminalError, known]
  have total : parentTd td (first :: rest) (first :: rest).length =
      td + ((first :: rest).map Header.difficulty).sum := by
    rw [parentTd, take_length]
  rcases search : terminalIndex terminal td (first :: rest) with _ | start
  · have below := terminalIndex_eq_none search
    by_cases short : td + ((first :: rest).map Header.difficulty).sum < terminal
    · refine ⟨some ((first :: rest).length - 1, .invalidTerminalBlock), ?_, ?_⟩
      · simp only [verifyTerminalPoWBlock, known, configured, search, if_pos short]
      · intro index inside
        have less := below index inside
        simp only [overriding, terminalError, known, total, bind_some]
        by_cases last : index + 1 = (first :: rest).length
        · rw [if_pos (by omega), if_pos (.inr ⟨last, short⟩)]
        · rw [if_neg (by omega), if_neg]
          rintro (reached | ⟨isLast, -⟩)
          · omega
          · exact last isLast
    · refine ⟨none, ?_, ?_⟩
      · simp only [verifyTerminalPoWBlock, known, configured, search, if_neg short]
      · intro index inside
        have less := below index inside
        simp only [overriding, terminalError, known, total, bind_none]
        rw [if_neg]
        rintro (reached | ⟨-, low⟩)
        · omega
        · exact short low
  · rcases terminalIndex_eq_some search with ⟨inside, exactly⟩
    refine ⟨some (start, .invalidTerminalBlock), ?_, ?_⟩
    · simp [verifyTerminalPoWBlock, known, configured, search]
    · intro index _
      have reached := (exactly (first :: rest).length).mpr (by omega)
      simp only [overriding, terminalError, known, bind_some, exactly]
      by_cases past : start ≤ index
      · rw [if_pos past, if_pos (.inl past)]
      · rw [if_neg past, if_neg]
        rintro (isPast | ⟨-, low⟩)
        · exact past isPast
        · omega

/-- What the goroutines of `Beacon.VerifyHeaders` share: `old` results were received from the
first verifier, and `new` counts those of the second after the headers before the merge. -/
structure BeaconState where
  collector : Collector Verdict
  oldResult : Feed Verdict
  newResult : Feed Verdict
  aborted : Bool
  crash : Option Fault

/-- A verifier sends its next verdict, the collector receives one, or the caller aborts. -/
inductive BeaconLabel where
  | sendOld
  | sendNew
  | receiveOld
  | receiveNew
  | abort
  deriving DecidableEq

inductive BeaconStep (legacy beacon : List (Except Fault Verdict)) :
    BeaconState → BeaconLabel → BeaconState → Prop
  | sendOld {state : BeaconState} {verdict : Verdict} (alive : state.crash = none)
      (next : legacy[state.oldResult.sent]? = some (.ok verdict)) :
      BeaconStep legacy beacon state .sendOld
        { state with oldResult := state.oldResult.send verdict }
  | panicOld {state : BeaconState} {fault : Fault} (alive : state.crash = none)
      (next : legacy[state.oldResult.sent]? = some (.error fault)) :
      BeaconStep legacy beacon state .sendOld { state with crash := some fault }
  | sendNew {state : BeaconState} {verdict : Verdict} (alive : state.crash = none)
      (next : beacon[state.newResult.sent]? = some (.ok verdict)) :
      BeaconStep legacy beacon state .sendNew
        { state with newResult := state.newResult.send verdict }
  | panicNew {state : BeaconState} {fault : Fault} (alive : state.crash = none)
      (next : beacon[state.newResult.sent]? = some (.error fault)) :
      BeaconStep legacy beacon state .sendNew { state with crash := some fault }
  | receiveOld {state : BeaconState} {verdict : Verdict} {rest : List Verdict}
      (alive : state.crash = none) (running : state.collector.returned = false)
      (quiet : state.aborted = false) (first : state.oldResult.buffer = verdict :: rest) :
      BeaconStep legacy beacon state .receiveOld { state with
        collector := (state.collector.settle state.oldResult.taken verdict).drain
          (legacy.length + beacon.length)
        oldResult := state.oldResult.receive }
  | receiveNew {state : BeaconState} {verdict : Verdict} {rest : List Verdict}
      (alive : state.crash = none) (running : state.collector.returned = false)
      (quiet : state.aborted = false) (first : state.newResult.buffer = verdict :: rest) :
      BeaconStep legacy beacon state .receiveNew { state with
        collector := ((state.collector.store (legacy.length + state.newResult.taken) verdict).mark
          (legacy.length + state.newResult.taken)).drain (legacy.length + beacon.length)
        newResult := state.newResult.receive }
  | abort {state : BeaconState} (alive : state.crash = none)
      (running : state.collector.returned = false) (quiet : state.aborted = false) :
      BeaconStep legacy beacon state .abort { state with aborted := true }

def UnabortedBeaconStep (legacy beacon : List (Except Fault Verdict)) (state : BeaconState)
    (label : BeaconLabel) (next : BeaconState) : Prop :=
  label ≠ .abort ∧ BeaconStep legacy beacon state label next

/-- The headers before the merge, which are marked with the error of
`verifyTerminalPoWBlock` from its position on. -/
def terminalMarks (result : Option (Nat × ConsensusError)) (count : Nat) : Collector Verdict :=
  match result with
  | none => Collector.start none
  | some (first, error) => (Collector.start none).fill first count (some error)

def BeaconState.start (result : Except Fault (Option (Nat × ConsensusError)))
    (preCount count : Nat) : BeaconState where
  collector :=
    match result with
    | .ok marks => (terminalMarks marks preCount).drain count
    | .error _ => Collector.start none
  oldResult := .empty
  newResult := .empty
  aborted := false
  crash :=
    match result with
    | .ok _ => none
    | .error fault => some fault

/-- The verdicts of the legacy rules where they are not overridden, and of the beacon rules. -/
def mergedVerdicts (override : Nat → Option ConsensusError)
    (legacy beacon : List (Except Fault Verdict)) : List Verdict :=
  (settled legacy).mapIdx (fun index verdict => (override index).or verdict) ++ settled beacon

section

variable {legacy beacon : List (Except Fault Verdict)}
  {override : Nat → Option ConsensusError} {state next : BeaconState} {label : BeaconLabel}

@[simp]
theorem length_mergedVerdicts :
    (mergedVerdicts override legacy beacon).length = legacy.length + beacon.length := by
  simp [mergedVerdicts]

theorem mergedVerdicts_old (known : (settled legacy)[index]? = some verdict) :
    (mergedVerdicts override legacy beacon)[index]? = some ((override index).or verdict) := by
  have inside : index < legacy.length := by
    rw [← length_settled]
    exact (List.getElem?_eq_some_iff.mp known).1
  rw [mergedVerdicts, getElem?_append_left (by simpa using inside), getElem?_mapIdx, known]
  rfl

theorem mergedVerdicts_new (known : (settled beacon)[index]? = some verdict) :
    (mergedVerdicts override legacy beacon)[legacy.length + index]? = some verdict := by
  rw [mergedVerdicts, getElem?_append_right (by simp)]
  simpa using known

structure BeaconState.Sound (override : Nat → Option ConsensusError)
    (legacy beacon : List (Except Fault Verdict)) (state : BeaconState) : Prop where
  inOrder : state.collector.InOrder (mergedVerdicts override legacy beacon)
  oldCarries : state.oldResult.Carries (settled legacy)
  newCarries : state.newResult.Carries (settled beacon)
  overridden : ∀ index < legacy.length, (override index).isSome → state.collector.done index = true
  oldDone : ∀ index < state.oldResult.taken, state.collector.done index = true
  newDone : ∀ index < state.newResult.taken,
    state.collector.done (legacy.length + index) = true
  waits : state.collector.returned = false → state.collector.done state.collector.out = false
  crashed : ∀ fault, state.crash = some fault → .error fault ∈ legacy ∨ .error fault ∈ beacon

theorem BeaconState.Sound.settle_old (sound : state.Sound override legacy beacon)
    (known : (settled legacy)[state.oldResult.taken]? = some verdict) :
    (state.collector.settle state.oldResult.taken verdict).InOrder
      (mergedVerdicts override legacy beacon) := by
  apply sound.inOrder.settle
  intro unmarked
  have inside : state.oldResult.taken < legacy.length := by
    rw [← length_settled]
    exact (List.getElem?_eq_some_iff.mp known).1
  have plain : override state.oldResult.taken = none := by
    rcases overridden : override state.oldResult.taken with _ | error
    · rfl
    · have marked := sound.overridden _ inside (by simp [overridden])
      simp [unmarked] at marked
  rw [mergedVerdicts_old known, plain]
  rfl

theorem BeaconState.Sound.step (sound : state.Sound override legacy beacon)
    (taken : BeaconStep legacy beacon state label next) : next.Sound override legacy beacon := by
  cases taken with
  | sendOld _ next =>
    exact { sound with oldCarries := sound.oldCarries.send (settled_getElem? next) }
  | panicOld _ next =>
    refine { sound with crashed := ?_ }
    rintro _ ⟨⟩
    exact .inl (mem_of_getElem? next)
  | sendNew _ next =>
    exact { sound with newCarries := sound.newCarries.send (settled_getElem? next) }
  | panicNew _ next =>
    refine { sound with crashed := ?_ }
    rintro _ ⟨⟩
    exact .inr (mem_of_getElem? next)
  | @receiveOld verdict _ _ running _ first =>
    have settles := sound.settle_old (sound.oldCarries.head first)
    have still : (state.collector.settle state.oldResult.taken verdict).returned = false := by
      simpa using running
    have drained := settles.drain still
    have waits := settles.drain_waits still
    rw [length_mergedVerdicts] at drained waits
    refine
      { inOrder := drained, oldCarries := sound.oldCarries.receive first
        newCarries := sound.newCarries, overridden := ?_, oldDone := ?_, newDone := ?_
        waits := waits, crashed := sound.crashed }
    · intro index inside isOverridden
      simp [sound.overridden index inside isOverridden]
    · intro index old
      simp only [receive] at old
      by_cases same : index = state.oldResult.taken
      · simp [same]
      · simp [sound.oldDone index (by omega)]
    · intro index old
      simp [sound.newDone index old]
  | @receiveNew _ _ _ running _ first =>
    have known := sound.newCarries.head first
    have settles := sound.inOrder.store_mark (mergedVerdicts_new known)
    have drained := settles.drain running
    have waits := settles.drain_waits running
    rw [length_mergedVerdicts] at drained waits
    refine
      { inOrder := drained, oldCarries := sound.oldCarries
        newCarries := sound.newCarries.receive first, overridden := ?_, oldDone := ?_
        newDone := ?_, waits := waits, crashed := sound.crashed }
    · intro index inside isOverridden
      simp [sound.overridden index inside isOverridden]
    · intro index old
      simp [sound.oldDone index old]
    · intro index old
      simp only [receive] at old
      by_cases same : index = state.newResult.taken
      · simp [same]
      · simp [sound.newDone index (by omega)]
  | abort => exact { sound with }

theorem BeaconState.sound_start {res : Option (Nat × ConsensusError)}
    (marks : ∀ index < legacy.length, overriding res index = override index)
    (nonempty : 0 < legacy.length + beacon.length) :
    (BeaconState.start (.ok res) legacy.length (legacy.length + beacon.length)).Sound
      override legacy beacon := by
  have nonempty : mergedVerdicts override legacy beacon ≠ [] := by
    intro empty
    have length := congrArg length empty
    simp only [length_mergedVerdicts, length_nil] at length
    omega
  have fresh := Collector.inOrder_start (none : Verdict) nonempty
  have inOrder : (terminalMarks res legacy.length).InOrder
      (mergedVerdicts override legacy beacon) := by
    rcases res with _ | ⟨first, error⟩
    · exact fresh
    apply fresh.fill
    intro pos past inside
    have known : ∃ verdict, (settled legacy)[pos]? = some verdict := by
      have within : pos < (settled legacy).length := by simpa using inside
      exact ⟨_, getElem?_eq_getElem within⟩
    rcases known with ⟨verdict, known⟩
    rw [mergedVerdicts_old known, ← marks pos inside]
    simp [overriding, past]
  have running : (terminalMarks res legacy.length).returned = false := by
    rcases res with _ | ⟨first, error⟩ <;> rfl
  have drained := inOrder.drain running
  have waits := inOrder.drain_waits running
  rw [length_mergedVerdicts] at drained waits
  refine
    { inOrder := drained, oldCarries := carries_empty, newCarries := carries_empty
      overridden := ?_, oldDone := by simp [BeaconState.start, empty]
      newDone := by simp [BeaconState.start, empty], waits := waits
      crashed := by simp [BeaconState.start] }
  intro index inside isOverridden
  rw [← marks index inside] at isOverridden
  rcases res with _ | ⟨first, error⟩
  · simp [overriding] at isOverridden
  · have past : first ≤ index := by
      by_contra old
      simp [overriding, old] at isOverridden
    simp [BeaconState.start, terminalMarks, past, inside]

def BeaconState.measure (legacy beacon : List (Except Fault Verdict)) (state : BeaconState) : Nat :=
  2 * (legacy.length - state.oldResult.sent) + state.oldResult.buffer.length +
    2 * (beacon.length - state.newResult.sent) + state.newResult.buffer.length +
    (if state.aborted then 0 else 1) + if state.crash.isSome then 0 else 1

theorem BeaconStep.measure_lt (taken : BeaconStep legacy beacon state label next) :
    next.measure legacy beacon < state.measure legacy beacon := by
  cases taken with
  | sendOld _ next | sendNew _ next =>
    have inside := (List.getElem?_eq_some_iff.mp next).1
    simp only [BeaconState.measure, send, sent, length_append, length_singleton] at inside ⊢
    omega
  | panicOld alive _ | panicNew alive _ => simp [BeaconState.measure, alive]
  | receiveOld _ _ _ first | receiveNew _ _ _ first =>
    simp only [BeaconState.measure, receive, sent, first, tail_cons, length_cons]
    omega
  | abort _ _ quiet => simp [BeaconState.measure, quiet]

theorem Feed.length_le_taken {feed : Feed Verdict} {verdicts : List (Except Fault Verdict)}
    (received : feed.buffer = []) (isOver : verdicts[feed.sent]? = none) :
    verdicts.length ≤ feed.taken := by
  simpa [sent, received] using isOver

theorem BeaconState.Sound.returned_of_stuck (sound : state.Sound override legacy beacon)
    (quiet : state.aborted = false) (alive : state.crash = none)
    (stuck : ∀ label next, ¬ UnabortedBeaconStep legacy beacon state label next) :
    state.collector.returned = true := by
  by_contra unfinished
  have running : state.collector.returned = false := by simpa using unfinished
  have oldEmpty : state.oldResult.buffer = [] := by
    rcases waiting : state.oldResult.buffer with _ | ⟨verdict, rest⟩
    · rfl
    · exact absurd ⟨by simp, .receiveOld alive running quiet waiting⟩ (stuck .receiveOld _)
  have newEmpty : state.newResult.buffer = [] := by
    rcases waiting : state.newResult.buffer with _ | ⟨verdict, rest⟩
    · rfl
    · exact absurd ⟨by simp, .receiveNew alive running quiet waiting⟩ (stuck .receiveNew _)
  have oldOver : legacy[state.oldResult.sent]? = none := by
    rcases next : legacy[state.oldResult.sent]? with _ | fault | verdict
    · rfl
    · exact absurd ⟨by simp, .panicOld alive next⟩ (stuck .sendOld _)
    · exact absurd ⟨by simp, .sendOld alive next⟩ (stuck .sendOld _)
  have newOver : beacon[state.newResult.sent]? = none := by
    rcases next : beacon[state.newResult.sent]? with _ | fault | verdict
    · rfl
    · exact absurd ⟨by simp, .panicNew alive next⟩ (stuck .sendNew _)
    · exact absurd ⟨by simp, .sendNew alive next⟩ (stuck .sendNew _)
  have oldAll := Feed.length_le_taken oldEmpty oldOver
  have newAll := Feed.length_le_taken newEmpty newOver
  have pending := sound.inOrder.pending running
  rw [length_mergedVerdicts] at pending
  have unmarked := sound.waits running
  -- the position that is waited for is before the merge or after it
  by_cases before : state.collector.out < legacy.length
  · have marked := sound.oldDone state.collector.out (by omega)
    simp [unmarked] at marked
  · have marked := sound.newDone (state.collector.out - legacy.length) (by omega)
    rw [show legacy.length + (state.collector.out - legacy.length) = state.collector.out by omega]
      at marked
    simp [unmarked] at marked

theorem unaborted_beacon_run {start : BeaconState} (sound : start.Sound override legacy beacon)
    (quiet : start.aborted = false) {labels : List BeaconLabel}
    (run : Run (UnabortedBeaconStep legacy beacon) start labels state) :
    state.Sound override legacy beacon ∧ state.aborted = false := by
  apply run.invariant (fun _ state => state.Sound override legacy beacon ∧ state.aborted = false)
  · exact ⟨sound, quiet⟩
  · rintro _ label old new - - ⟨notAbort, taken⟩ ⟨kept, still⟩
    refine ⟨kept.step taken, ?_⟩
    cases taken with
    | abort => exact absurd rfl notAbort
    | _ => exact still

end

/-- A legacy engine as `Beacon.VerifyHeaders` uses it: one verdict for each
header, in order. -/
structure LegacyEngine where
  verdicts : ChainHeaderReader → List (Header × Bool) → List (Except Fault Verdict)
  length_verdicts : ∀ chain batch, (verdicts chain batch).length = batch.length

def PowEngine.legacy [Crypto] [Encoding] (engine : PowEngine) (unixNow : Int) : LegacyEngine where
  verdicts chain batch := engine.verdicts chain batch unixNow
  length_verdicts chain batch := engine.length_verdicts chain batch unixNow

/-- A batch goes to one of the verifiers as a whole, or it is split. -/
inductive BeaconRoute where
  | legacy
  | beacon
  | split (pre : List (Header × Bool)) (post : List Header)
  deriving DecidableEq

def beaconRoute (batch : List (Header × Bool)) : Except Fault BeaconRoute :=
  match batch.getLast? with
  | none => .error (.panic "index out of range [-1]")
  | some last =>
    if last.1.isPoSHeader then
      let pre := batch.takeWhile fun entry => !entry.1.isPoSHeader
      let post := batch.dropWhile fun entry => !entry.1.isPoSHeader
      if pre = [] then .ok .beacon else .ok (.split pre (post.map Prod.fst))
    else .ok .legacy

theorem beaconRoute_split {batch pre : List (Header × Bool)} {post : List Header}
    (route : beaconRoute batch = .ok (.split pre post)) :
    pre ≠ [] ∧ pre.length + post.length = batch.length := by
  rcases ending : batch.getLast? with _ | last
  · simp [beaconRoute, ending] at route
  simp only [beaconRoute, ending] at route
  split_ifs at route with isPoS empty
  · cases route
  · cases route
    refine ⟨empty, ?_⟩
    rw [length_map, ← length_append, takeWhile_append_dropWhile]
  · cases route

section

variable [Crypto] [Encoding]

/-- For every batch that is split, every legacy engine and every interleaving that is not
aborted, if no verification panics: the runs are bounded, what was delivered is always a
prefix of the merged verdicts, and all of them at the end of a run. -/
theorem beacon_verifyHeaders_delivers (engine : LegacyEngine) (chain : ChainHeaderReader)
    {batch pre : List (Header × Bool)} {post : List Header} {terminal : Nat}
    (route : beaconRoute batch = .ok (.split pre post))
    (configured : chain.config.terminalTotalDifficulty = some terminal)
    (legacyReturns : ∀ verdict ∈ engine.verdicts chain pre, ∃ value, verdict = .ok value)
    (beaconReturns : ∀ verdict ∈ beaconVerdicts chain post (pre.getLast?.map Prod.fst),
      ∃ value, verdict = .ok value) (labels : List BeaconLabel) (state : BeaconState) (run : Run
      (UnabortedBeaconStep (engine.verdicts chain pre)
        (beaconVerdicts chain post (pre.getLast?.map Prod.fst)))
      (BeaconState.start (verifyTerminalPoWBlock chain (pre.map Prod.fst)) pre.length batch.length)
      labels state) :
    labels.length ≤ 2 * batch.length + 2 ∧
    state.collector.sent <+:
      mergedVerdicts (terminalError chain (pre.map Prod.fst) terminal)
        (engine.verdicts chain pre) (beaconVerdicts chain post (pre.getLast?.map Prod.fst)) ∧
    ((∀ label next, ¬ UnabortedBeaconStep (engine.verdicts chain pre)
        (beaconVerdicts chain post (pre.getLast?.map Prod.fst)) state label next) →
      state.collector.sent =
        mergedVerdicts (terminalError chain (pre.map Prod.fst) terminal) (engine.verdicts chain pre)
          (beaconVerdicts chain post (pre.getLast?.map Prod.fst))) := by
  rcases beaconRoute_split route with ⟨nonempty, lengths⟩
  have legacyCount := engine.length_verdicts chain pre
  have beaconCount : (beaconVerdicts chain post (pre.getLast?.map Prod.fst)).length =
      post.length := by simp [beaconVerdicts]
  have positive := List.length_pos_iff.mpr nonempty
  have someHeaders : pre.map Prod.fst ≠ [] := by simpa using nonempty
  rcases verifyTerminalPoWBlock_spec configured someHeaders with ⟨res, verified, marks⟩
  generalize engine.verdicts chain pre = legacy at *
  generalize beaconVerdicts chain post (pre.getLast?.map Prod.fst) = beacon at *
  have started : (BeaconState.start (.ok res) legacy.length
      (legacy.length + beacon.length)).Sound (terminalError chain (pre.map Prod.fst) terminal)
        legacy beacon :=
    BeaconState.sound_start (by simpa [legacyCount] using marks) (by omega)
  rw [verified, ← legacyCount, ← lengths, ← legacyCount, ← beaconCount] at run
  rcases unaborted_beacon_run started rfl run with ⟨sound, quiet⟩
  refine ⟨?_, sound.inOrder.sent_isPrefix, ?_⟩
  · have bounded := Run.length_le (BeaconState.measure legacy beacon)
      (fun _ _ _ taken => taken.2.measure_lt) run
    have initial : (BeaconState.start (.ok res) legacy.length
        (legacy.length + beacon.length)).measure legacy beacon =
          2 * legacy.length + 2 * beacon.length + 2 := by
      simp [BeaconState.measure, BeaconState.start, Feed.empty, Feed.sent]
    omega
  · intro stuck
    apply sound.inOrder.complete
    apply sound.returned_of_stuck quiet _ stuck
    rcases crashed : state.crash with _ | fault
    · rfl
    rcases (sound.crashed fault crashed).elim (legacyReturns _) (beaconReturns _) with
      ⟨value, impossible⟩
    cases impossible

end

def mergingChain : ChainHeaderReader where
  config := { londonBlock := some 0, terminalTotalDifficulty := some 100 }
  getHeader _ _ := none
  getTd _ _ := some 0

def acceptingEngine : LegacyEngine where
  verdicts _ batch := batch.map fun _ => .ok none
  length_verdicts := by simp

def mergingBatch : List (Header × Bool) :=
  [({ feeHeader with difficulty := 1 }, false),
    ({ feeHeader with difficulty := 0, number := 3, time := 3 }, false)]

/-- The header before the merge is accepted by its verifier, but its parent is below the
terminal total difficulty. -/
theorem beacon_refuses_early_last_header :
    letI := sampleCrypto
    letI := blankEncoding
    beaconRoute mergingBatch = .ok (.split (mergingBatch.take 1)
      ((mergingBatch.drop 1).map Prod.fst)) ∧
    acceptingEngine.verdicts mergingChain (mergingBatch.take 1) = [.ok none] ∧
    parentTd 0 ((mergingBatch.take 1).map Prod.fst) 0 < 100 ∧
    ∃ final,
      Run (UnabortedBeaconStep (acceptingEngine.verdicts mergingChain (mergingBatch.take 1))
          (beaconVerdicts mergingChain ((mergingBatch.drop 1).map Prod.fst)
            ((mergingBatch.take 1).getLast?.map Prod.fst))) (BeaconState.start
          (verifyTerminalPoWBlock mergingChain ((mergingBatch.take 1).map Prod.fst)) 1 2)
        [.sendNew, .receiveNew, .sendOld] final ∧
      final.collector.returned = true ∧
      final.collector.sent[0]? = some (some .invalidTerminalBlock) := by
  let := sampleCrypto
  let := blankEncoding
  refine ⟨by decide, rfl, by decide, ?_⟩
  have first : Run (UnabortedBeaconStep
        (acceptingEngine.verdicts mergingChain (mergingBatch.take 1))
        (beaconVerdicts mergingChain ((mergingBatch.drop 1).map Prod.fst)
          ((mergingBatch.take 1).getLast?.map Prod.fst)))
      (BeaconState.start
        (verifyTerminalPoWBlock mergingChain ((mergingBatch.take 1).map Prod.fst)) 1 2)
      [.sendNew] _ :=
    .snoc .nil ⟨by simp, .sendNew rfl rfl⟩
  have second : Run _ _ [BeaconLabel.sendNew, BeaconLabel.receiveNew] _ :=
    .snoc first ⟨by simp, .receiveNew rfl rfl rfl rfl⟩
  have third : Run _ _ [BeaconLabel.sendNew, BeaconLabel.receiveNew, BeaconLabel.sendOld] _ :=
    .snoc second ⟨by simp, .sendOld rfl rfl⟩
  exact ⟨_, third, rfl, rfl⟩

/-- Every interleaving ends with the terminal error and the acceptance of the second header. -/
theorem sample_beacon_verifyHeaders_delivers :
    letI := sampleCrypto
    letI := blankEncoding
    beaconRoute mergingBatch =
      .ok (.split (mergingBatch.take 1) ((mergingBatch.drop 1).map Prod.fst)) ∧
    ∀ labels state,
      Run (UnabortedBeaconStep (acceptingEngine.verdicts mergingChain (mergingBatch.take 1))
          (beaconVerdicts mergingChain ((mergingBatch.drop 1).map Prod.fst)
            ((mergingBatch.take 1).getLast?.map Prod.fst))) (BeaconState.start
          (verifyTerminalPoWBlock mergingChain ((mergingBatch.take 1).map Prod.fst)) 1 2)
        labels state →
      (∀ label next, ¬ UnabortedBeaconStep
        (acceptingEngine.verdicts mergingChain (mergingBatch.take 1))
        (beaconVerdicts mergingChain ((mergingBatch.drop 1).map Prod.fst)
          ((mergingBatch.take 1).getLast?.map Prod.fst)) state label next) →
      state.collector.sent = [some .invalidTerminalBlock, none] := by
  let := sampleCrypto
  let := blankEncoding
  have route : beaconRoute mergingBatch =
      .ok (.split (mergingBatch.take 1) ((mergingBatch.drop 1).map Prod.fst)) := by decide
  refine ⟨route, fun labels state run stuck => ?_⟩
  have delivers := beacon_verifyHeaders_delivers acceptingEngine mergingChain route rfl
    (fun verdict mem => ⟨none, List.mem_singleton.mp mem⟩)
    (fun verdict mem => ⟨none, List.mem_singleton.mp mem⟩) labels state run
  exact delivers.2.2 stuck

end Octopus
