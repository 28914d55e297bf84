import Octopus.Consensus.Header
import Octopus.Library.Collector
import Octopus.Library.Runs

/-!
# Verifying a batch of headers

`VerifyHeaders` hands the positions of a batch to workers over an unbuffered channel and
collects their completions from a buffered one.  A step is one communication or one
verification.  Unless a verification panics, every run delivers all verdicts, in order.
-/

namespace Octopus

open Library Collector List Except

variable {fullFake : Bool} {worker count : Nat}

/-- A worker goroutine: waiting for a position, verifying one, about to report
one as done, or returned. -/
inductive Worker where
  | waiting
  | verifying (index : Nat)
  | reporting (index : Nat)
  | stopped
  deriving DecidableEq

variable {workers : List Worker} {old new phase : Worker}

/-- What the goroutines of `VerifyHeaders` share.  The collector holds the errors and the flags
of the checked positions; what it has sent is the contents of the result channel. -/
structure BatchState where
  collector : Collector Verdict
  input : Nat
  /-- The contents of the buffered channel `done`. -/
  reported : List Nat
  workers : List Worker
  aborted : Bool
  /-- The panic that ended the process. -/
  crash : Option Fault

/-- A worker receives a position, verifies it, or reports it; the coordinator receives a report;
a worker finds the inputs closed; the caller closes the abort channel. -/
inductive BatchLabel where
  | assign (worker : Nat)
  | verify (worker : Nat)
  | report (worker : Nat)
  | collect
  | stop (worker : Nat)
  | abort
  deriving DecidableEq

inductive BatchStep (verdicts : List (Except Fault Verdict)) :
    BatchState → BatchLabel → BatchState → Prop
  | assign {state : BatchState} {worker : Nat} (alive : state.crash = none)
      (running : state.collector.returned = false) (quiet : state.aborted = false)
      (more : state.input < verdicts.length)
      (free : state.workers[worker]? = some .waiting) :
      BatchStep verdicts state (.assign worker) { state with
        input := state.input + 1
        workers := state.workers.set worker (.verifying state.input) }
  | verify {state : BatchState} {worker index : Nat} {verdict : Verdict}
      (alive : state.crash = none) (busy : state.workers[worker]? = some (.verifying index))
      (returns : verdicts[index]? = some (.ok verdict)) :
      BatchStep verdicts state (.verify worker) { state with
        collector := state.collector.store index verdict
        workers := state.workers.set worker (.reporting index) }
  | panic {state : BatchState} {worker index : Nat} {fault : Fault}
      (alive : state.crash = none) (busy : state.workers[worker]? = some (.verifying index))
      (panics : verdicts[index]? = some (.error fault)) :
      BatchStep verdicts state (.verify worker) { state with crash := some fault }
  | report {state : BatchState} {worker index : Nat} (alive : state.crash = none)
      (busy : state.workers[worker]? = some (.reporting index))
      (room : state.reported.length < state.workers.length) :
      BatchStep verdicts state (.report worker) { state with
        reported := state.reported ++ [index]
        workers := state.workers.set worker .waiting }
  | collect {state : BatchState} {index : Nat} {rest : List Nat} (alive : state.crash = none)
      (running : state.collector.returned = false) (quiet : state.aborted = false)
      (first : state.reported = index :: rest) :
      BatchStep verdicts state .collect { state with
        reported := rest
        collector := (state.collector.mark index).drain verdicts.length }
  | stop {state : BatchState} {worker : Nat} (alive : state.crash = none)
      (closed : state.collector.returned = true ∨ state.aborted = true)
      (free : state.workers[worker]? = some .waiting) :
      BatchStep verdicts state (.stop worker) { state with
        workers := state.workers.set worker .stopped }
  | abort {state : BatchState} (alive : state.crash = none)
      (running : state.collector.returned = false) (quiet : state.aborted = false) :
      BatchStep verdicts state .abort { state with aborted := true }

def UnabortedStep (verdicts : List (Except Fault Verdict)) (state : BatchState)
    (label : BatchLabel) (next : BatchState) : Prop :=
  label ≠ .abort ∧ BatchStep verdicts state label next

/-- As many workers as processors, but no more than headers.  In the mode `fullFake`, and for an
empty batch, all results are sent at once and nothing is started. -/
def BatchState.start (fullFake : Bool) (count processors : Nat) : BatchState where
  collector :=
    if fullFake ∨ count = 0 then Collector.filled count none else Collector.start none
  input := 0
  reported := []
  workers := if fullFake then [] else List.replicate (min processors count) .waiting
  aborted := false
  crash := none

/-- The verdicts of sequential verification; the nil error for all in the mode `fullFake`. -/
def PowEngine.verdicts [Crypto] [Encoding] (engine : PowEngine) (chain : ChainHeaderReader)
    (batch : List (Header × Bool)) (unixNow : Int) : List (Except Fault Verdict) :=
  if engine.settings.powMode = .fullFake then batch.map fun _ => .ok none
  else engine.sequentialVerdicts chain batch unixNow

def settled (verdicts : List (Except Fault Verdict)) : List Verdict :=
  verdicts.map fun verdict =>
    match verdict with
    | .ok value => value
    | .error _ => none

theorem settled_getElem? {verdicts : List (Except Fault Verdict)} {index : Nat}
    {verdict : Verdict} (returns : verdicts[index]? = some (.ok verdict)) :
    (settled verdicts)[index]? = some verdict := by
  simp [settled, returns]

@[simp]
theorem length_settled (verdicts : List (Except Fault Verdict)) :
    (settled verdicts).length = verdicts.length := by
  simp [settled]

theorem map_take_settled {verdicts : List (Except Fault Verdict)}
    (returns : ∀ index < count, ∃ verdict, verdicts[index]? = some (.ok verdict)) :
    ((settled verdicts).take count).map ok = verdicts.take count := by
  apply ext_getElem?
  intro index
  by_cases before : index < count
  · rcases returns index before with ⟨verdict, known⟩
    simp [before, settled_getElem? known, known]
  · simp [before]

structure BatchState.Sound (verdicts : List (Except Fault Verdict)) (state : BatchState) :
    Prop where
  inOrder : state.collector.InOrder (settled verdicts)
  /-- Marked positions hold the verdict of their header. -/
  checked : ∀ index, state.collector.done index = true →
    verdicts[index]? = some (.ok (state.collector.results index))
  /-- So do the positions that are done but not collected. -/
  reporting : ∀ index, .reporting index ∈ state.workers →
    verdicts[index]? = some (.ok (state.collector.results index))
  reported : ∀ index ∈ state.reported,
    verdicts[index]? = some (.ok (state.collector.results index))
  verifying : ∀ index, .verifying index ∈ state.workers → index < verdicts.length
  /-- No position that was handed out is lost. -/
  located : ∀ index < state.input, .verifying index ∈ state.workers ∨
    .reporting index ∈ state.workers ∨ index ∈ state.reported ∨
    state.collector.done index = true
  input_le : state.input ≤ verdicts.length
  /-- The collector waits for the verdict of its next position. -/
  waits : state.collector.returned = false → state.collector.done state.collector.out = false
  stopped : .stopped ∈ state.workers → state.collector.returned = true ∨ state.aborted = true
  crashed : ∀ fault, state.crash = some fault →
    ∃ index : Nat, verdicts[index]? = some (.error fault)

section

variable {verdicts : List (Except Fault Verdict)} {state next : BatchState} {label : BatchLabel}

theorem mem_set_of_ne (here : workers[worker]? = some old) (different : phase ≠ old)
    (mem : phase ∈ workers) : phase ∈ workers.set worker new := by
  rcases mem_iff_getElem?.mp mem with ⟨pos, found⟩
  have elsewhere : worker ≠ pos := by
    rintro rfl
    rw [here] at found
    exact different (Option.some.inj found).symm
  apply mem_iff_getElem?.mpr
  exact ⟨pos, by rw [getElem?_set_ne elsewhere, found]⟩

theorem mem_of_mem_set (mem : phase ∈ workers.set worker new) (different : phase ≠ new) :
    phase ∈ workers := by
  rcases mem_or_eq_of_mem_set mem with old | same
  · exact old
  · exact absurd same different

theorem mem_set_self (here : workers[worker]? = some old) : new ∈ workers.set worker new := by
  have inside : worker < workers.length := by
    rw [getElem?_eq_some_iff] at here
    exact here.1
  exact mem_set inside new

theorem BatchState.Sound.located_set {index : Nat} (sound : state.Sound verdicts)
    (here : state.workers[worker]? = some old) (handed : index < state.input)
    (verified : .verifying index ≠ old) (done : .reporting index ≠ old) :
    .verifying index ∈ state.workers.set worker new ∨
      .reporting index ∈ state.workers.set worker new ∨ index ∈ state.reported ∨
      state.collector.done index = true := by
  rcases sound.located index handed with verifying | reporting | elsewhere
  · exact .inl (mem_set_of_ne here verified verifying)
  · exact .inr (.inl (mem_set_of_ne here done reporting))
  · exact .inr (.inr elsewhere)

theorem BatchState.Sound.step (sound : state.Sound verdicts)
    (taken : BatchStep verdicts state label next) : next.Sound verdicts := by
  cases taken with
  | @assign _ _ _ _ more free =>
    refine { sound with
      reporting := ?_, verifying := ?_, located := ?_, input_le := more, stopped := ?_ }
    · intro index mem
      exact sound.reporting index (mem_of_mem_set mem (by simp))
    · intro index mem
      rcases mem_or_eq_of_mem_set mem with old | same
      · exact sound.verifying index old
      · cases same
        exact more
    · intro index old
      rcases Nat.lt_succ_iff_lt_or_eq.mp old with earlier | rfl
      · exact sound.located_set free earlier (by simp) (by simp)
      · exact .inl (mem_set_self free)
    · intro mem
      exact sound.stopped (mem_of_mem_set mem (by simp))
  | @verify _ index verdict _ busy returns =>
    have kept : ∀ other, verdicts[other]? = some (ok (state.collector.results other)) →
        verdicts[other]? = some (ok ((state.collector.store index verdict).results other)) := by
      intro other right
      by_cases same : other = index
      · subst same
        simpa [Collector.store] using returns
      · simpa [Collector.store, same] using right
    refine { sound with
      inOrder := sound.inOrder.store (settled_getElem? returns)
      checked := ?_, reporting := ?_, reported := ?_, verifying := ?_, located := ?_
      stopped := ?_ }
    · intro other marked
      exact kept other (sound.checked other marked)
    · intro other mem
      rcases mem_or_eq_of_mem_set mem with old | same
      · exact kept other (sound.reporting other old)
      · cases same
        simpa [Collector.store] using returns
    · intro other mem
      exact kept other (sound.reported other mem)
    · intro other mem
      exact sound.verifying other (mem_of_mem_set mem (by simp))
    · intro other old
      by_cases same : other = index
      · subst same
        exact .inr (.inl (mem_set_self busy))
      · exact sound.located_set busy old (by simpa using same) (by simp)
    · intro mem
      exact sound.stopped (mem_of_mem_set mem (by simp))
  | @panic _ index _ _ _ panics =>
    refine { sound with crashed := ?_ }
    rintro _ ⟨⟩
    exact ⟨index, panics⟩
  | @report _ index _ busy _ =>
    refine { sound with
      reporting := ?_, reported := ?_, verifying := ?_, located := ?_, stopped := ?_ }
    · intro other mem
      exact sound.reporting other (mem_of_mem_set mem (by simp))
    · intro other mem
      rcases mem_append.mp mem with old | last
      · exact sound.reported other old
      · rw [mem_singleton.mp last]
        exact sound.reporting index (mem_of_getElem? busy)
    · intro other mem
      exact sound.verifying other (mem_of_mem_set mem (by simp))
    · intro other old
      by_cases same : other = index
      · subst same
        exact .inr (.inr (.inl (mem_append_right _ (mem_singleton_self _))))
      rcases sound.located_set busy old (by simp) (by simpa using same) with
        verifying | reporting | reported | marked
      · exact .inl verifying
      · exact .inr (.inl reporting)
      · exact .inr (.inr (.inl (mem_append_left _ reported)))
      · exact .inr (.inr (.inr marked))
    · intro mem
      exact sound.stopped (mem_of_mem_set mem (by simp))
  | @collect index _ _ running quiet first =>
    have right := sound.reported index (by simp [first])
    have marked := sound.inOrder.mark (settled_getElem? right)
    have drained := marked.drain running
    have waits := marked.drain_waits running
    rw [length_settled] at drained waits
    refine { sound with
      inOrder := drained, checked := ?_, reporting := ?_, reported := ?_, located := ?_
      waits := waits, stopped := ?_ }
    · intro other isMarked
      rw [drain_results]
      by_cases same : other = index
      · rw [same]
        exact right
      · apply sound.checked
        simpa [same] using isMarked
    · simpa using sound.reporting
    · intro other mem
      simpa using sound.reported other (by simp [first, mem])
    · intro other old
      rcases sound.located other old with verifying | reporting | reported | isMarked
      · exact .inl verifying
      · exact .inr (.inl reporting)
      · rw [first, mem_cons] at reported
        rcases reported with rfl | later
        · exact .inr (.inr (.inr (by simp)))
        · exact .inr (.inr (.inl later))
      · exact .inr (.inr (.inr (by simp [isMarked])))
    · intro mem
      rcases sound.stopped mem with ran | aborted
      · rw [running] at ran
        cases ran
      · rw [quiet] at aborted
        cases aborted
  | @stop _ _ closed free =>
    refine { sound with
      reporting := ?_, verifying := ?_, located := ?_, stopped := fun _ => closed }
    · intro index mem
      exact sound.reporting index (mem_of_mem_set mem (by simp))
    · intro index mem
      exact sound.verifying index (mem_of_mem_set mem (by simp))
    · intro index old
      exact sound.located_set free old (by simp) (by simp)
  | abort => exact { sound with stopped := fun _ => .inr rfl }

def Worker.weight : Worker → Nat
  | waiting => 1
  | verifying _ => 4
  | reporting _ => 3
  | stopped => 0

theorem sum_weight_set (new : Worker) (here : workers[worker]? = some old) :
    ((workers.set worker new).map Worker.weight).sum + old.weight =
      (workers.map Worker.weight).sum + new.weight := by
  induction workers generalizing worker with
  | nil => simp at here
  | cons _ rest ih =>
    rcases worker with _ | worker
    · simp only [getElem?_cons_zero, Option.some.injEq] at here
      subst here
      simp only [set_cons_zero, map_cons, sum_cons]
      omega
    · have rest := ih here
      simp only [set_cons_succ, map_cons, sum_cons]
      omega

def BatchState.measure (count : Nat) (state : BatchState) : Nat :=
  5 * (count - state.input) + (state.workers.map Worker.weight).sum + state.reported.length +
    (if state.aborted then 0 else 1) + if state.crash.isSome then 0 else 1

theorem BatchStep.measure_lt (taken : BatchStep verdicts state label next) :
    next.measure verdicts.length < state.measure verdicts.length := by
  cases taken with
  | assign _ _ _ _ free =>
    have weights := sum_weight_set (.verifying state.input) free
    simp only [BatchState.measure, Worker.weight] at weights ⊢
    omega
  | @verify _ index _ _ busy _ =>
    have weights := sum_weight_set (.reporting index) busy
    simp only [BatchState.measure, Worker.weight] at weights ⊢
    omega
  | panic alive _ _ => simp [BatchState.measure, alive]
  | report _ busy _ =>
    have weights := sum_weight_set .waiting busy
    simp only [BatchState.measure, Worker.weight, length_append, length_singleton] at weights ⊢
    omega
  | collect _ _ _ first =>
    simp only [BatchState.measure, first, length_cons]
    omega
  | stop _ _ free =>
    have weights := sum_weight_set .stopped free
    simp only [BatchState.measure, Worker.weight] at weights ⊢
    omega
  | abort _ _ quiet => simp [BatchState.measure, quiet]

theorem BatchState.measure_start_le (fullFake : Bool) (count processors : Nat) :
    (BatchState.start fullFake count processors).measure count ≤ 5 * count + processors + 2 := by
  cases fullFake <;> simp [BatchState.measure, BatchState.start, Worker.weight]

theorem BatchState.start_collector_atOnce (atOnce : fullFake = true ∨ count = 0)
    (processors : Nat) :
    (BatchState.start fullFake count processors).collector = filled count none :=
  if_pos atOnce

theorem BatchState.start_collector_later (later : ¬ (fullFake = true ∨ count = 0))
    (processors : Nat) :
    (BatchState.start fullFake count processors).collector = Collector.start none :=
  if_neg later

theorem settled_of_nil (nils : ∀ verdict ∈ verdicts, verdict = .ok none) :
    settled verdicts = replicate verdicts.length none := by
  apply eq_replicate_iff.mpr
  refine ⟨length_settled verdicts, ?_⟩
  intro _ mem
  rcases mem_map.mp mem with ⟨verdict, inside, rfl⟩
  rw [nils verdict inside]

section

variable (fake : fullFake = true → ∀ verdict ∈ verdicts, verdict = .ok none)
include fake

theorem BatchState.start_inOrder {processors : Nat} {collector : Collector Verdict}
    (started : (BatchState.start fullFake verdicts.length processors).collector = collector) :
    collector.InOrder (settled verdicts) ∧ (∀ index, collector.done index = true →
      verdicts[index]? = some (.ok (collector.results index))) ∧
    (collector.returned = false → collector.done collector.out = false) := by
  subst started
  by_cases atOnce : fullFake = true ∨ verdicts.length = 0
  · have nils : ∀ verdict ∈ verdicts, verdict = .ok none := by
      rcases atOnce with isFake | empty
      · exact fake isFake
      · simp [length_eq_zero_iff.mp empty]
    rw [BatchState.start_collector_atOnce atOnce, settled_of_nil nils]
    refine ⟨inOrder_filled _ _, ?_, by simp [filled]⟩
    intro index marked
    have inside : index < verdicts.length := by simpa [filled] using marked
    rw [getElem?_eq_getElem inside, nils _ (getElem_mem inside)]
    rfl
  · rw [BatchState.start_collector_later atOnce]
    refine ⟨?_, by simp [Collector.start], by simp [Collector.start]⟩
    apply inOrder_start
    intro empty
    apply atOnce
    right
    simpa using congrArg length empty

theorem BatchState.sound_start (processors : Nat) :
    (BatchState.start fullFake verdicts.length processors).Sound verdicts := by
  rcases @BatchState.start_inOrder _ _ fake processors _ rfl with ⟨inOrder, checked, waits⟩
  have free : ∀ phase ∈ (BatchState.start fullFake verdicts.length processors).workers,
      phase = .waiting := by
    intro phase mem
    cases fullFake <;> simp [BatchState.start] at mem
    exact mem.2
  refine
    { inOrder := inOrder, checked := checked, reporting := ?_
      reported := by simp [BatchState.start], verifying := ?_
      located := by simp [BatchState.start], input_le := Nat.zero_le _
      waits := waits, stopped := ?_, crashed := by simp [BatchState.start] }
  · intro index mem
    exact absurd (free _ mem) (by simp)
  · intro index mem
    exact absurd (free _ mem) (by simp)
  · intro mem
    exact absurd (free _ mem) (by simp)

end

section

variable (sound : state.Sound verdicts)
include sound

/-- Without a crash or an abort, a state without further steps is one that has returned. -/
theorem BatchState.Sound.returned_of_stuck
    (working : state.collector.returned = false → state.workers ≠ [])
    (quiet : state.aborted = false) (alive : state.crash = none)
    (stuck : ∀ label next, ¬ UnabortedStep verdicts state label next) :
    state.collector.returned = true := by
  by_contra unfinished
  have running : state.collector.returned = false := by simpa using unfinished
  have someone := length_pos_iff.mpr (working running)
  have idle : state.reported = [] := by
    rcases reported : state.reported with _ | ⟨index, _⟩
    · rfl
    · exact absurd ⟨by simp, .collect alive running quiet reported⟩ (stuck .collect _)
  have waiting : ∀ phase ∈ state.workers, phase = .waiting := by
    intro phase mem
    rcases mem_iff_getElem?.mp mem with ⟨worker, here⟩
    cases phase with
    | waiting => rfl
    | verifying index =>
      have inside := sound.verifying index mem
      rcases outcome : verdicts[index]? with _ | fault | verdict
      · rw [getElem?_eq_none_iff] at outcome
        omega
      · exact absurd ⟨by simp, .panic alive here outcome⟩ (stuck (.verify worker) _)
      · exact absurd ⟨by simp, .verify alive here outcome⟩ (stuck (.verify worker) _)
    | reporting =>
      have room : state.reported.length < state.workers.length := by simpa [idle] using someone
      exact absurd ⟨by simp, .report alive here room⟩ (stuck (.report worker) _)
    | stopped =>
      rcases sound.stopped mem with ran | aborted
      · simp [running] at ran
      · simp [quiet] at aborted
  have free : state.workers[0]? = some .waiting := by
    rw [getElem?_eq_getElem someone, waiting _ (getElem_mem someone)]
  have exhausted : state.input = verdicts.length := by
    by_contra more
    have less : state.input < verdicts.length := by
      have bound := sound.input_le
      omega
    exact absurd ⟨by simp, .assign alive running quiet less free⟩ (stuck (.assign 0) _)
  -- the position that the collector waits for has been handed out, so it is marked
  have pending := sound.inOrder.pending running
  rw [length_settled, ← exhausted] at pending
  have unmarked := sound.waits running
  rcases sound.located _ pending with verifying | reporting | reported | marked
  · exact absurd (waiting _ verifying) (by simp)
  · exact absurd (waiting _ reporting) (by simp)
  · simp [idle] at reported
  · simp [unmarked] at marked

theorem BatchState.Sound.sent_isPrefix : state.collector.sent.map ok <+: verdicts := by
  have known : ∀ index < state.collector.sent.length,
      ∃ verdict, verdicts[index]? = some (.ok verdict) := by
    intro index old
    exact ⟨_, sound.checked index (sound.inOrder.handed index old)⟩
  have start := prefix_iff_eq_take.mp sound.inOrder.sent_isPrefix
  rw [start, map_take_settled known]
  exact take_prefix _ _

theorem BatchState.Sound.sent_eq (ran : state.collector.returned = true) :
    state.collector.sent.map ok = verdicts := by
  apply sound.sent_isPrefix.eq_of_length
  rw [length_map, sound.inOrder.complete ran, length_settled]

end

theorem unaborted_run {start : BatchState} (sound : start.Sound verdicts)
    (quiet : start.aborted = false) {labels : List BatchLabel}
    (run : Run (UnabortedStep verdicts) start labels state) :
    state.Sound verdicts ∧ state.aborted = false ∧ state.workers.length = start.workers.length ∧
      (start.collector.returned = true → state.collector.returned = true) := by
  apply run.invariant (fun _ state => state.Sound verdicts ∧ state.aborted = false ∧
    state.workers.length = start.workers.length ∧
    (start.collector.returned = true → state.collector.returned = true))
  · exact ⟨sound, quiet, rfl, id⟩
  · rintro _ label old new - - ⟨notAbort, taken⟩ ⟨kept, still, same, done⟩
    refine ⟨kept.step taken, ?_⟩
    cases taken with
    | assign | verify => exact ⟨still, by simpa using same, done⟩
    | panic => exact ⟨still, same, done⟩
    | report | stop => exact ⟨still, by simpa using same, done⟩
    | collect _ running _ _ =>
      refine ⟨still, same, ?_⟩
      intro finished
      rw [done finished] at running
      cases running
    | abort => exact absurd rfl notAbort

end

section

variable [Crypto] [Encoding]

@[simp]
theorem PowEngine.length_verdicts (engine : PowEngine) (chain : ChainHeaderReader)
    (batch : List (Header × Bool)) (unixNow : Int) :
    (engine.verdicts chain batch unixNow).length = batch.length := by
  rw [PowEngine.verdicts]
  split_ifs <;> simp [PowEngine.sequentialVerdicts]

/-- For every batch, every number of processors and every interleaving that is not aborted: the
runs are bounded, what was delivered is always a prefix of the sequential verdicts, and all
of them at the end of a run.  This holds exactly if no verification panics. -/
theorem verifyHeaders_delivers_iff (engine : PowEngine) (chain : ChainHeaderReader)
    (batch : List (Header × Bool)) (unixNow : Int) {processors : Nat} (working : 0 < processors) :
    (∀ labels state,
      Run (UnabortedStep (engine.verdicts chain batch unixNow))
        (BatchState.start (engine.settings.powMode = .fullFake) batch.length processors)
        labels state → labels.length ≤ 5 * batch.length + processors + 2 ∧
      state.collector.sent.map Except.ok <+: engine.verdicts chain batch unixNow ∧
      ((∀ label next, ¬ UnabortedStep (engine.verdicts chain batch unixNow) state label next) →
        state.collector.sent.map Except.ok = engine.verdicts chain batch unixNow)) ↔
    ∀ verdict ∈ engine.verdicts chain batch unixNow, ∃ value, verdict = .ok value := by
  set verdicts := engine.verdicts chain batch unixNow with isVerdicts
  have count : batch.length = verdicts.length := by simp [isVerdicts]
  have fake : decide (engine.settings.powMode = .fullFake) = true →
      ∀ verdict ∈ verdicts, verdict = .ok none := by
    intro isFake verdict mem
    simp only [decide_eq_true_eq] at isFake
    simp only [isVerdicts, PowEngine.verdicts, if_pos isFake, List.mem_map] at mem
    rcases mem with ⟨_, -, rfl⟩
    rfl
  have lowers : ∀ state label next, UnabortedStep verdicts state label next →
      next.measure verdicts.length < state.measure verdicts.length := by
    intro state label next taken
    exact taken.2.measure_lt
  have sound := BatchState.sound_start fake processors
  rw [count]
  constructor
  · intro delivers verdict mem
    rcases Run.exists_stuck (BatchState.measure verdicts.length) lowers with
      ⟨labels, final, run, stuck⟩
    rcases delivers labels final run with ⟨-, -, complete⟩
    rw [← complete stuck] at mem
    rcases List.mem_map.mp mem with ⟨value, -, rfl⟩
    exact ⟨value, rfl⟩
  · intro returns labels state run
    rcases unaborted_run sound rfl run with ⟨kept, quiet, same, finished⟩
    refine ⟨?_, kept.sent_isPrefix, ?_⟩
    · have bounded := Run.length_le (BatchState.measure verdicts.length) lowers run
      have initial := BatchState.measure_start_le (engine.settings.powMode = .fullFake)
        verdicts.length processors
      omega
    · intro stuck
      apply kept.sent_eq
      apply kept.returned_of_stuck _ quiet _ stuck
      · intro running
        have unstarted : ¬ (decide (engine.settings.powMode = .fullFake) = true ∨
            verdicts.length = 0) := by
          intro atOnce
          have isOver := finished (by rw [BatchState.start_collector_atOnce atOnce]; rfl)
          rw [running] at isOver
          cases isOver
        rw [not_or, Bool.not_eq_true] at unstarted
        apply List.ne_nil_of_length_pos
        rw [same]
        simp only [BatchState.start, unstarted.1, Bool.false_eq_true, if_false,
          List.length_replicate]
        omega
      · rcases crashed : state.crash with _ | fault
        · rfl
        · rcases kept.crashed fault crashed with ⟨_, panics⟩
          rcases returns _ (List.mem_of_getElem? panics) with ⟨value, impossible⟩
          cases impossible

end

def londonChain : ChainHeaderReader where
  config := { londonBlock := some 0 }
  getHeader _ _ := none
  getTd _ _ := none

def plainEngine : PowEngine :=
  .alone
    { powMode := .normal
      fakeFail := 0
      generated := fun _ => false
      hashimotoFull := fun _ _ _ => (0, 0)
      hashimotoLight := fun _ _ _ => (0, 0) }

def feelessHeader : Header where
  uncleHash := 1
  difficulty := 131072
  number := 1
  gasLimit := 5000
  time := 1

def feeHeader : Header :=
  { feelessHeader with difficulty := 131136, number := 2, time := 2, baseFee := some 1 }

def crashVerdicts : List (Except Fault Verdict) :=
  letI := sampleCrypto
  letI := blankEncoding
  plainEngine.verdicts londonChain [(feelessHeader, false), (feeHeader, false)] 0

/-- A worker follows the nil base fee of the first header, and nothing is delivered. -/
theorem verifyHeaders_crash_without_base_fee :
    ∃ final,
      Run (UnabortedStep crashVerdicts)
        (BatchState.start (plainEngine.settings.powMode = .fullFake) 2 2)
        [.assign 0, .assign 1, .verify 1] final ∧
      final.crash = some nilDereference ∧ final.collector.sent = [] ∧
      ∀ label next, ¬ UnabortedStep crashVerdicts final label next := by
  have first : Run (UnabortedStep crashVerdicts)
      (BatchState.start (plainEngine.settings.powMode = .fullFake) 2 2) [.assign 0] _ :=
    .snoc .nil ⟨by simp, .assign rfl rfl rfl (by decide) rfl⟩
  have second : Run _ _ [BatchLabel.assign 0, BatchLabel.assign 1] _ :=
    .snoc first ⟨by simp, .assign rfl rfl rfl (by decide) rfl⟩
  have panics : crashVerdicts[1]? = some (.error nilDereference) := rfl
  have third : Run _ _ [BatchLabel.assign 0, BatchLabel.assign 1, BatchLabel.verify 1] _ :=
    .snoc second ⟨by simp, .panic rfl rfl panics⟩
  refine ⟨_, third, rfl, rfl, ?_⟩
  rintro label next ⟨-, taken⟩
  cases taken <;> simp_all

def feePair : List (Header × Bool) :=
  [({ feelessHeader with baseFee := some 1 }, false), (feeHeader, false)]

/-- The first header has no parent and the second one is accepted, on two processors and in
every interleaving. -/
theorem sample_verifyHeaders_delivers_iff :
    letI := sampleCrypto
    letI := blankEncoding
    plainEngine.verdicts londonChain feePair 0 = [.ok (some .unknownAncestor), .ok none] ∧
    ∀ labels state,
      Run (UnabortedStep (plainEngine.verdicts londonChain feePair 0))
        (BatchState.start (plainEngine.settings.powMode = .fullFake) 2 2) labels state →
      (∀ label next, ¬ UnabortedStep (plainEngine.verdicts londonChain feePair 0)
        state label next) →
      state.collector.sent = [some .unknownAncestor, none] := by
  let := sampleCrypto
  let := blankEncoding
  have verdicts : plainEngine.verdicts londonChain feePair 0 =
      [.ok (some .unknownAncestor), .ok none] := rfl
  have returns : ∀ verdict ∈ plainEngine.verdicts londonChain feePair 0,
      ∃ value, verdict = .ok value := by
    simp [verdicts]
  have delivers := (verifyHeaders_delivers_iff plainEngine londonChain feePair 0
    (show 0 < 2 by decide)).mpr returns
  refine ⟨verdicts, fun labels state run stuck => ?_⟩
  have complete := ((delivers labels state run).2.2 stuck).trans verdicts
  exact List.map_injective_iff.mpr (fun _ _ => Except.ok.inj) complete

end Octopus
