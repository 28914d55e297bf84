import Octopus.VM.Loop

/-!
# Whole runs

A regime says which requests a guard lets through, what is assumed of every round, and what
the answers keep.  For every sound regime, a run with all its frames keeps what the regime
keeps, stops only with the faults that it allows, and makes good rounds only.
-/

namespace Octopus

open Library Library.Computation OVM

variable {new old : World} {query : Request} {res : CallResult} {other : Contract}
  {Value : Type} {run : Except Fault (Value × World)} {left : Value → Nat}

def Round.Modest (round : Round) : Prop :=
  round.op.calls = true →
    round.frame.stack[0]?.all (fun requested =>
      requested.toNat < 2 ^ 63 || uint64Size ≤ requested.toNat) = true

instance (round : Round) : Decidable round.Modest :=
  inferInstanceAs (Decidable (_ → _))

/-- What a run is looked at under: machine and guard, the analyses that frames share, the faults
that are allowed for, what is assumed of every round, what the state database keeps, whether
all frames are read-only, and whether the gas is accounted for. -/
structure Regime where
  ovm : OVM
  guard : Guard
  analysed : Hash → Bytes → Prop
  faulty : Fault → Prop
  assumed : Round → Prop
  keeps : OperationDB → Prop
  restricted : Prop
  metered : Prop
  deepest : Nat := Params.callCreateDepth

namespace Regime

variable (regime : Regime)

def Metered : Prop :=
  regime.metered

def view (contract : Contract) : Setting where
  ovm := regime.ovm
  level := { depth := 0, readOnly := false }
  code := contract.code
  codeHash := contract.codeHash
  analysed := regime.analysed
  faulty _ := True
  good _ := True
  metered := regime.metered

/-- A round on a position that the code leads to, not nested too deeply, with a memory that is
paid for, which goes on with the next instruction and with less gas. -/
structure Good (round : Round) : Prop where
  depth : round.level.depth ≤ regime.deepest + 1
  fits : round.frame.memory.Fits
  reached : Relation.ReflTransGen (regime.view round.frame.contract).Flow 0 round.frame.pc
  flow : ∀ next, round.next = some next →
    (regime.view round.frame.contract).Flow round.frame.pc next.pc
  gas : ∀ next, round.next = some next → regime.Metered →
    next.contract.gas + 1 ≤ round.frame.contract.gas

def Fails (fuel gas : Nat) (reason : Fault) : Prop :=
  regime.faulty reason ∨ reason = .outOfFuel ∧ ¬ (regime.Metered ∧ gas + 1 < fuel)

def setting (fuel : Nat) (level : Level) (contract : Contract) : Setting where
  ovm := regime.ovm
  level := level
  code := contract.code
  codeHash := contract.codeHash
  analysed := regime.analysed
  faulty := regime.Fails fuel contract.gas
  good := regime.Good
  metered := regime.metered

structure Holds (world : World) : Prop where
  analysed : ∀ hash bits, world.jumpdests hash = some bits → regime.analysed hash bits
  keeps : regime.keeps world.db

structure Conducted {Value : Type} (left : Value → Nat) (fuel gas : Nat)
    (run : Except Fault (Value × World)) (log : List Round) : Prop where
  returned : ∀ value after, run = .ok (value, after) →
    (regime.Metered → left value ≤ gas ∧ log.length + left value ≤ gas + 1) ∧ regime.Holds after
  failed : ∀ reason, run = .error reason →
    regime.Fails fuel gas reason ∧ (regime.Metered → log.length ≤ gas + 1)
  good : ∀ round ∈ log, regime.Good round

/-- What a round needs to run without a panic. -/
structure Supplied (round : Round) : Prop where
  ranged : ∀ bits position, (regime.view round.frame.contract).Trusted bits →
    position < round.frame.contract.code.length → position / 8 < bits.length
  baseFee : round.op = .basefee → regime.ovm.context.baseFee.isSome = true
  chainID : round.op = .chainid → regime.ovm.chainConfig.chainID.isSome = true

variable [Crypto]

/-- The answers keep what the regime keeps and stop with its faults only, and the assumptions
are enough for the analyses. -/
structure Sound : Prop where
  deepest : Params.callCreateDepth ≤ regime.deepest
  rejected : regime.faulty (.panic "rejected")
  answered : ∀ runner level question world reply after, question.opens = false →
    (regime.restricted → question.writes = false) → regime.guard level question world = true →
      regime.keeps world.db → OVM.answer regime.ovm runner level question world =
        .ok (reply, after) →
        regime.keeps after.db
  refused : ∀ runner level question world reason, question.opens = false →
    regime.guard level question world = true →
      OVM.answer regime.ovm runner level question world = .error reason → regime.faulty reason
  called : ∀ level caller address input gas value world,
    regime.guard level (.call caller address input gas value) world = true →
      (regime.restricted → value = 0) → regime.keeps world.db →
        regime.keeps
          (OVM.callEntry level (.contract caller) address input gas value.toNat world).2.db
  created : regime.restricted ∨ ∀ db, regime.keeps db
  shared : ∀ round, regime.assumed round → round.frame.contract.codeHash ≠ 0 →
    regime.analysed round.frame.contract.codeHash (codeBitmap round.frame.contract.code)
  supplied : (∀ message, regime.faulty (.panic message)) ∨
    ∀ round, regime.assumed round → regime.Supplied round
  modest : regime.Metered → regime.ovm.rules.isEIP150 = true ∨
    ∀ round, regime.assumed round → round.Modest

def Conducts (fuel : Nat) (runner : Runner) (rounds : RoundLog) : Prop :=
  ∀ level contract input readOnly before, level.depth ≤ regime.deepest →
    contract.analysis = none → (regime.Metered → contract.gas < uint64Size) →
    (regime.restricted → (level.enter readOnly).readOnly = true) → regime.Holds before →
    (∀ round ∈ rounds level contract input readOnly before, regime.assumed round) →
      regime.Conducted Prod.snd fuel contract.gas (runner level contract input readOnly before)
        (rounds level contract input readOnly before)

end Regime

variable {regime : Regime} {fuel gas : Nat} {level : Level} {contract : Contract}

theorem landing_view {pos : Nat}
    (landing : (regime.setting fuel level contract).Landing pos)
    (sameCode : other.code = contract.code) (sameHash : other.codeHash = contract.codeHash) :
    (regime.view other).Landing pos := by
  rcases landing with ⟨small, _, bits, _, unmarked⟩
  refine ⟨small, ?_, bits, ?_, unmarked⟩
  · change other.code[pos]? = _
    rwa [sameCode]
  · change bits = codeBitmap other.code ∨ other.codeHash ≠ 0 ∧ regime.analysed other.codeHash bits
    rwa [sameCode, sameHash]

theorem flow_view {pc next : Nat} (flow : (regime.setting fuel level contract).Flow pc next)
    (sameCode : other.code = contract.code) (sameHash : other.codeHash = contract.codeHash) :
    (regime.view other).Flow pc next := by
  change opAt other.code pc ≠ .jump ∧ _ ∨ (opAt other.code pc = .jump ∨ _) ∧ _
  rw [sameCode]
  refine flow.imp ?_ ?_
  · rintro ⟨straight, _⟩
    refine ⟨straight, ?_⟩
    change next = (pc + (opAt other.code pc).immediate + 1) % uint64Size
    rwa [sameCode]
  · rintro ⟨_, landing⟩
    refine ⟨?_, landing_view landing sameCode sameHash⟩
    change opAt contract.code pc = .jump ∨ opAt other.code pc = .jumpi
    rwa [sameCode]

theorem good_of_own {round : Round} (shallow : level.depth ≤ regime.deepest + 1)
    (own : (regime.setting fuel level contract).Own round) : regime.Good round := by
  have sameCode : round.frame.contract.code = contract.code := own.ready.runner.code
  have sameHash : round.frame.contract.codeHash = contract.codeHash := own.ready.runner.codeHash
  refine ⟨?_, own.ready.fits, ?_, ?_, own.gas⟩
  · rw [own.level]
    exact shallow
  · refine Relation.ReflTransGen.mono ?_ _ _ own.reached
    intro _ _ flow
    exact flow_view flow sameCode sameHash
  · intro next isNext
    exact flow_view (own.flow next isNext) sameCode sameHash

theorem startFrame_ready (input : Bytes) (fresh : contract.analysis = none)
    (bounded : regime.Metered → contract.gas < uint64Size) :
    (regime.setting fuel level contract).Ready (startFrame contract input) := by
  refine ⟨⟨rfl, rfl, ?_⟩, Memory.fits_empty, bounded⟩
  intro bits known
  change contract.analysis = some bits at known
  rw [fresh] at known
  cases known

theorem Regime.Holds.same (holds : regime.Holds old)
    (same : new.jumpdests = old.jumpdests) (keeps : regime.keeps new.db) : regime.Holds new :=
  ⟨fun hash bits found => holds.analysed hash bits (same ▸ found), keeps⟩

theorem Regime.Holds.enter {caller : ContractRef} (holds : regime.Holds old)
    (same : new.jumpdests = (old.enter caller).jumpdests) (keeps : regime.keeps new.db) :
    regime.Holds new := by
  cases caller with
  | account =>
    refine ⟨?_, keeps⟩
    intro _ _ found
    rw [same] at found
    cases found
  | contract => exact holds.same same keeps

section

variable {old : World}

theorem conducted_refused (start : regime.Holds old) (handed : ∀ value new, run = .ok (value, new) →
      left value = gas ∧ new.jumpdests = old.jumpdests)
    (keeps : ∀ value new, run = .ok (value, new) → regime.keeps new.db)
    (faulty : ∀ reason, run = .error reason → regime.faulty reason) :
    regime.Conducted left fuel gas run [] := by
  refine ⟨?_, ?_, by simp⟩
  · intro value new ran
    rcases handed value new ran with ⟨same, unshared⟩
    refine ⟨fun _ => ?_, start.same unshared (keeps value new ran)⟩
    rw [same]
    exact ⟨le_rfl, by simp⟩
  · intro reason failed
    exact ⟨.inl (faulty reason failed), fun _ => Nat.zero_le _⟩

theorem Regime.Fails.outer {reason : Fault} {outer : Nat}
    (room : regime.Metered → gas + 1 ≤ outer) (fails : regime.Fails fuel gas reason) :
    regime.Fails (fuel + 1) outer reason := by
  refine fails.imp_right ?_
  rintro ⟨isFuel, short⟩
  refine ⟨isFuel, fun enough => short ⟨enough.1, ?_⟩⟩
  have := room enough.1
  omega

theorem answers_of_conducted {log : List Round} (ran : regime.Conducted left fuel gas run log)
    (room : regime.Metered → gas + 1 ≤ contract.gas) :
    (∀ value new, run = .ok (value, new) → ((∀ round ∈ log, regime.Good round) ∧
        (regime.setting (fuel + 1) level contract).Costs gas (left value) log) ∧ regime.Holds new) ∧
    ∀ reason, run = .error reason →
      (∀ round ∈ log, regime.Good round) ∧ regime.Fails (fuel + 1) contract.gas reason ∧
        (regime.Metered → log.length ≤ gas + 1) := by
  refine ⟨?_, ?_⟩
  · intro value new returned
    rcases ran.returned value new returned with ⟨costs, held⟩
    exact ⟨⟨ran.good, costs⟩, held⟩
  · intro reason failed
    rcases ran.failed reason failed with ⟨blamed, short⟩
    exact ⟨ran.good, blamed.outer room, short⟩

end

variable [Crypto] {input : Bytes} {old : World} {rounds : RoundLog} {runner : Runner}

theorem conducted_runFrame (sound : regime.Sound)
    {handler : Level → (query : Request) → Go World query.Reply}
    {opened : Request → World → List Round} {readOnly : Bool} (upholds : (contract.codeHash ≠ 0 →
        regime.analysed contract.codeHash (codeBitmap contract.code)) →
      Interaction.Upholds
        ((regime.setting (fuel + 1) (level.enter readOnly) contract).protocol contract.gas)
        regime.Holds regime.assumed opened (handler (level.enter readOnly)))
    (shallow : level.depth ≤ regime.deepest) (nonempty : contract.code ≠ [])
    (fresh : contract.analysis = none) (bounded : regime.Metered → contract.gas < uint64Size)
    (start : regime.Holds old) (trusted : ∀ round ∈ loopRounds regime.ovm (level.enter readOnly)
      (handler (level.enter readOnly)) opened fuel (startFrame contract input) old,
        regime.assumed round) :
    regime.Conducted Prod.snd (fuel + 1) contract.gas
      (runFrame regime.ovm fuel handler level contract input readOnly old)
      (loopRounds regime.ovm (level.enter readOnly) (handler (level.enter readOnly)) opened fuel
        (startFrame contract input) old) := by
  rw [runFrame_of_code handler fuel readOnly nonempty]
  cases fuel with
  | zero =>
    refine ⟨?_, ?_, by simp [loopRounds]⟩
    · intro outcome new ran
      cases ran
    · intro reason failed
      cases failed
      exact ⟨.inr ⟨rfl, by omega⟩, fun _ => Nat.zero_le _⟩
  | succ fuel =>
    rcases loopRounds_head regime.ovm (level.enter readOnly) fuel (startFrame contract input)
      old with ⟨next, rest, isLog⟩
    have first := trusted ⟨_, _, next⟩ (by rw [isLog]; exact .head _)
    have ranged : (regime.setting (fuel + 1 + 1) (level.enter readOnly) contract).Ranged := by
      rcases sound.supplied with lenient | supplied
      · exact .inl fun msg => .inl (lenient msg)
      · exact .inr fun bits pos => (supplied _ first).ranged bits pos
    have provided : ∀ round, regime.assumed round → round.frame.contract.code = contract.code →
        (regime.setting (fuel + 1 + 1) (level.enter readOnly) contract).Provided round.op ∧
          (regime.setting (fuel + 1 + 1) (level.enter readOnly) contract).Tempered round.frame := by
      intro round assumed sameCode
      refine ⟨?_, ?_⟩
      · rcases sound.supplied with lenient | supplied
        · exact .inl fun msg => .inl (lenient msg)
        · exact .inr ⟨(supplied round assumed).baseFee, (supplied round assumed).chainID⟩
      · intro metered _ _ found
        refine (sound.modest metered).imp_right fun modest => ?_
        have bounded := modest round assumed (by rwa [Round.op, Contract.getOp, sameCode])
        simpa [found] using bounded
    have looped := loop_runs ranged (upholds (sound.shared _ first)) provided
      (fun round own => good_of_own (Nat.succ_le_succ shallow) own) (fuel + 1)
      (startFrame_ready input fresh bounded) Relation.ReflTransGen.refl (fun _ => le_rfl) start
      trusted
    rcases looped with ⟨ends, fails, good⟩
    refine ⟨?_, ?_, good⟩
    · rintro ⟨outcome, _⟩ new ran
      split at ran
      · cases ran
      · next ended =>
        cases ran
        exact ends _ _ _ ended
    · intro reason failed
      split at failed
      · next broke =>
        cases failed
        rcases fails _ broke with ⟨blamed, short⟩
        refine ⟨?_, short⟩
        rcases blamed with blamed | ⟨isFuel, less⟩
        · exact blamed
        · refine .inr ⟨isFuel, fun enough => less ⟨enough.1, ?_⟩⟩
          exact Nat.lt_of_succ_lt_succ enough.2
      · cases failed

section

variable {caller : ContractRef} {addr : Address} {code : Bytes} {codeHash : Hash} {value : Int}
  (sound : regime.Sound) (conducts : regime.Conducts fuel runner rounds)
  (bounded : regime.Metered → gas < uint64Size)
  (restricted : regime.restricted → level.readOnly = true) (start : regime.Holds old)
include sound conducts bounded restricted start

theorem conducted_call
    (keeps : regime.keeps (callEntry level caller addr input gas value old).2.db)
    (trusted : ∀ round ∈ callRounds rounds level caller addr input gas value old,
      regime.assumed round) :
    regime.Conducted CallResult.leftOverGas fuel gas
      (OVM.call runner level caller addr input gas value old)
      (callRounds rounds level caller addr input gas value old) := by
  rw [call_eq]
  unfold callRounds at trusted ⊢
  rcases entered : callEntry level caller addr input gas value old with ⟨res | contract, entry⟩
  · rw [entered] at keeps
    rcases callEntry_error entered with ⟨left, same⟩
    refine ⟨?_, ?_, by simp⟩
    · intro _ new returned
      cases returned
      exact ⟨fun _ => ⟨left, by simpa using Nat.le_succ_of_le left⟩, start.same same keeps⟩
    · intro reason failed
      cases failed
  · rw [entered] at trusted keeps
    rcases callEntry_ok entered with ⟨shallow, rfl, fresh, same⟩
    have ran := conducts level contract input false entry (shallow.trans sound.deepest) fresh
      bounded (fun holds => by simp [Level.enter, restricted holds]) (start.enter same keeps)
      trusted
    dsimp only
    rw [bind_apply]
    refine ⟨?_, ?_, ran.good⟩
    · intro res new returned
      split at returned
      · cases returned
      · next finished =>
        cases returned
        exact ran.returned _ _ finished
    · intro reason failed
      split at failed
      · next broke =>
        cases failed
        exact ran.failed _ broke
      · cases failed

variable (keeps : ∀ db, regime.keeps db)
include keeps

theorem conducted_create
    (trusted : ∀ round ∈ createRounds regime.ovm rounds level caller code codeHash gas value
      addr old, regime.assumed round) :
    regime.Conducted CreateResult.leftOverGas fuel gas
      (OVM.create regime.ovm runner level caller code codeHash gas value addr old)
      (createRounds regime.ovm rounds level caller code codeHash gas value addr old) := by
  rw [create_eq]
  unfold createRounds at trusted ⊢
  rcases entered : createEntry regime.ovm level caller code codeHash gas value addr old
    with ⟨res | contract, entry⟩
  · rcases createEntry_error entered with ⟨left, same⟩
    refine ⟨?_, ?_, by simp⟩
    · intro other new returned
      cases returned
      exact ⟨fun _ => ⟨left, by simpa using Nat.le_succ_of_le left⟩, start.same same (keeps _)⟩
    · intro reason failed
      cases failed
  · rw [entered] at trusted
    rcases createEntry_ok entered with ⟨shallow, rfl, fresh, same⟩
    have ran := conducts level contract [] false entry (shallow.trans sound.deepest) fresh bounded
      (fun holds => by simp [Level.enter, restricted holds]) (start.enter same (keeps _)) trusted
    dsimp only
    rw [bind_apply]
    rcases finished : runner level contract [] false entry with reason | ⟨⟨⟨ret, err⟩, left⟩, mid⟩
    · refine ⟨?_, ?_, ran.good⟩
      · intro res new returned
        cases returned
      · intro other failed
        cases failed
        exact ran.failed _ finished
    have stores : ∃ res new, storeCode regime.ovm addr ret err left mid =
        .ok (res, new) ∧ res.leftOverGas ≤ left ∧ new.jumpdests = mid.jumpdests :=
      storeCode_eq_ok ret err
    rcases stores with ⟨res, new, stored, _, kept⟩
    rcases ran.returned _ _ finished with ⟨costs, held⟩
    dsimp only
    rw [stored]
    refine ⟨?_, ?_, ran.good⟩
    · intro other _ returned
      cases returned
      refine ⟨fun metered => ?_, held.same kept (keeps _)⟩
      have := costs metered
      omega
    · intro reason failed
      cases failed

theorem conducted_createWithNonce
    (trusted : ∀ round ∈ createWithNonceRounds regime.ovm rounds level caller code gas value
      old, regime.assumed round) :
    regime.Conducted CreateResult.leftOverGas fuel gas
      (createWithNonce regime.ovm runner level caller code gas value old)
      (createWithNonceRounds regime.ovm rounds level caller code gas value old) :=
  conducted_create sound conducts bounded restricted (start.same rfl (keeps _)) keeps trusted

end

theorem upholds_silent (sound : regime.Sound) {limit : Nat} (silent : query.silent = true)
    (asked : (regime.setting (fuel + 1) level contract).Asks limit query)
    (restricted : regime.restricted → level.readOnly = true) (start : regime.Holds old)
    (passes : regime.guard level query old = true)
    (analyses : ∀ reply new, answer regime.ovm runner level query old =
      .ok (reply, new) → ∀ hash bits, new.jumpdests hash = some bits → regime.analysed hash bits) :
    (∀ reply new, answer regime.ovm runner level query old = .ok (reply, new) →
      (regime.setting (fuel + 1) level contract).Answers query (.ok reply) [] ∧ regime.Holds new) ∧
    ∀ reason, answer regime.ovm runner level query old = .error reason →
      (regime.setting (fuel + 1) level contract).Answers query (.error reason) [] := by
  have unopened : query.opens = false := by cases query <;> first | rfl | cases silent
  refine ⟨?_, ?_⟩
  · intro reply new ran
    refine ⟨⟨by simp, ?_⟩, analyses reply new ran, ?_⟩
    · cases query <;> first | rfl | cases silent
    · exact sound.answered runner level query old reply new unopened
        (fun holds => asked.readOnly (restricted holds)) passes start.keeps ran
  · intro reason failed
    have faulty := sound.refused runner level query old reason unopened passes failed
    exact ⟨by simp, .inl faulty, fun _ => Nat.zero_le _⟩

def guardedRequestRounds (regime : Regime) (rounds : RoundLog) (level : Level) (question : Request)
    (world : World) : List Round :=
  if regime.guard level question world then OVM.requestRounds regime.ovm rounds level question world
  else []

theorem answer_jumpdests (silent : query.silent = true)
    (reads : ∀ hash bits, query ≠ .shareAnalysis hash bits) {reply : query.Reply}
    (ran : answer regime.ovm runner level query old = .ok (reply, new)) :
    new.jumpdests = old.jumpdests := by
  cases query with
  | shareAnalysis hash bits => exact absurd rfl (reads hash bits)
  | subRefund =>
    rw [answer_subRefund] at ran
    split at ran
    · cases ran
    · cases ran
      rfl
  | _ => first | (cases silent; done) | (cases ran; done) | (cases ran; rfl)

variable (sound : regime.Sound)
include sound

section

variable (conducts : regime.Conducts fuel runner rounds)
  (bounded : regime.Metered → contract.gas < uint64Size)
  (restricted : regime.restricted → level.readOnly = true)
include conducts bounded restricted

variable
  (shares : contract.codeHash ≠ 0 → regime.analysed contract.codeHash (codeBitmap contract.code))
include shares

theorem answers_of_passed
    (asked : (regime.setting (fuel + 1) level contract).Asks contract.gas query)
    (start : regime.Holds old) (passes : regime.guard level query old = true)
    (trusted : ∀ round ∈ requestRounds regime.ovm rounds level query old, regime.assumed round) :
    (∀ reply new, answer regime.ovm runner level query old = .ok (reply, new) →
      (regime.setting (fuel + 1) level contract).Answers query (.ok reply)
          (requestRounds regime.ovm rounds level query old) ∧ regime.Holds new) ∧
    ∀ reason, answer regime.ovm runner level query old = .error reason →
      (regime.setting (fuel + 1) level contract).Answers query (.error reason)
        (requestRounds regime.ovm rounds level query old) := by
  have keeps : ∀ reply new, query.opens = false →
      answer regime.ovm runner level query old = .ok (reply, new) → regime.keeps new.db :=
    fun reply new unopened => sound.answered runner level query old reply new unopened
      (fun holds => asked.readOnly (restricted holds)) passes start.keeps
  have faulty : ∀ reason, query.opens = false →
      answer regime.ovm runner level query old = .error reason → regime.faulty reason :=
    fun reason unopened => sound.refused runner level query old reason unopened passes
  have smaller : ∀ gas, query.frameGas = some gas → regime.Metered → gas + 1 ≤ contract.gas :=
    asked.gas
  have small : ∀ gas, query.frameGas = some gas → regime.Metered → gas < uint64Size := by
    intro gas handed metered
    have := smaller gas handed metered
    have := bounded metered
    omega
  have anything : query.writes = true → ∀ db, regime.keeps db := by
    intro writes
    rcases sound.created with holds | anything
    · rw [asked.readOnly (restricted holds)] at writes
      cases writes
    · exact anything
  cases query with
  | call caller addr input gas value =>
    have zero : regime.restricted → value = 0 := by
      intro holds
      simpa [Request.writes] using asked.readOnly (restricted holds)
    have ran := conducted_call sound conducts (small gas rfl) restricted start
      (sound.called level caller addr input gas value old passes zero start.keeps) trusted
    exact answers_of_conducted ran (smaller gas rfl)
  | create _ _ gas _ =>
    have ran := conducted_createWithNonce sound conducts (small gas rfl) restricted start
      (anything rfl) trusted
    exact answers_of_conducted ran (smaller gas rfl)
  | create2 _ _ gas _ _ =>
    have ran := conducted_create sound conducts (small gas rfl) restricted start (anything rfl)
      trusted
    exact answers_of_conducted ran (smaller gas rfl)
  | callCode caller _ _ gas value =>
    have ran : regime.Conducted CallResult.leftOverGas fuel gas
        (OVM.callCode level caller gas value.toNat old) [] :=
      conducted_refused start (fun _ _ returned => by
        rcases callCode_eq_ok returned with ⟨left, rfl | rfl⟩ <;> exact ⟨left, rfl⟩)
        (fun reply new => keeps reply new rfl) fun reason => faulty reason rfl
    exact answers_of_conducted ran (smaller gas rfl)
  | delegateCall _ _ _ gas | staticCall _ _ _ gas =>
    have ran : regime.Conducted CallResult.leftOverGas fuel gas (snapshotCall level gas old) [] :=
      conducted_refused start (fun _ _ returned => by
        rcases snapshotCall_eq_ok returned with ⟨left, rfl⟩
        exact ⟨left, rfl⟩)
        (fun reply new => keeps reply new rfl) fun reason => faulty reason rfl
    exact answers_of_conducted ran (smaller gas rfl)
  | sharedAnalysis hash =>
    refine ⟨?_, ?_⟩
    · intro reply new returned
      cases returned
      exact ⟨⟨by simp [requestRounds], rfl, start.analysed hash⟩, start⟩
    · intro reason failed
      cases failed
  | shareAnalysis hash bits =>
    apply upholds_silent sound rfl asked restricted start passes
    intro reply new returned other found isFound
    cases returned
    rcases asked.analysis hash bits rfl with ⟨rfl, hashed, rfl⟩
    change Function.update old.jumpdests contract.codeHash _ other = some found at isFound
    by_cases same : other = contract.codeHash
    · subst same
      rw [Function.update_self] at isFound
      cases isFound
      exact shares hashed
    · rw [Function.update_of_ne same] at isFound
      exact start.analysed other found isFound
  | _ =>
    apply upholds_silent sound rfl asked restricted start passes
    intro reply new returned hash bits found
    rw [answer_jumpdests rfl (by simp) returned] at found
    exact start.analysed hash bits found

theorem upholds_guardedAnswer :
    Interaction.Upholds ((regime.setting (fuel + 1) level contract).protocol contract.gas)
      regime.Holds regime.assumed (guardedRequestRounds regime rounds level)
      (guardedAnswer regime.guard regime.ovm runner level) := by
  intro query old asked start trusted
  unfold guardedRequestRounds guardedAnswer restrict at *
  by_cases passes : regime.guard level query old = true
  · simp only [if_pos passes] at trusted ⊢
    exact answers_of_passed sound conducts bounded restricted shares asked start passes trusted
  simp only [if_neg passes]
  refine ⟨?_, ?_⟩
  · intro _ _ ran
    cases ran
  · intro _ failed
    cases failed
    exact ⟨by simp, .inl sound.rejected, fun _ => Nat.zero_le _⟩

end

theorem conducts_guardedRun (fuel : Nat) :
    regime.Conducts fuel (guardedRun regime.guard regime.ovm fuel)
      (guardedRounds regime.guard regime.ovm fuel) := by
  induction fuel with
  | zero =>
    intro level contract input readOnly old _ _ _ _ _ _
    refine ⟨?_, ?_, by simp [guardedRounds]⟩
    · intro outcome new ran
      cases ran
    · intro reason failed
      cases failed
      exact ⟨.inr ⟨rfl, by omega⟩, fun _ => Nat.zero_le _⟩
  | succ _ ih =>
    intro level contract input readOnly old shallow fresh bounded restricted start trusted
    rw [guardedRun_succ]
    unfold guardedRounds at trusted ⊢
    by_cases empty : contract.code = []
    · unfold runFrame
      simp only [if_pos empty]
      refine ⟨?_, ?_, by simp⟩
      · intro outcome new ran
        cases ran
        exact ⟨fun _ => ⟨le_rfl, by simp⟩, start⟩
      · intro reason failed
        cases failed
    · simp only [if_neg empty] at trusted ⊢
      exact conducted_runFrame sound
        (fun shares => upholds_guardedAnswer sound ih bounded restricted shares) shallow
        empty fresh bounded start trusted

end Octopus
