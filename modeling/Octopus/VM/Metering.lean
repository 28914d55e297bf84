import Octopus.VM.Regime

/-!
# Gas

A run hands back no more gas than it was given, and ends after at most as many rounds as it
has gas, if no call asks for an amount close to the end of the number range: the price of a
call on a cold account can wrap around, unless EIP-150 cuts the amount beforehand.  The
subtraction in `callGas` wraps around if the base price is not affordable; under EIP-150 the
whole price is not affordable then either.

The fees of a frame add up to the price of its memory.  The price is remembered before the
fee is paid: an instruction that cannot pay leaves it ahead of the memory, and ends the
frame.
-/

namespace Octopus

open Library Library.Computation

def Round.Metered (ovm : OVM) (round : Round) : Prop :=
  ovm.rules.isEIP150 = true ∨ round.Modest

instance (ovm : OVM) (round : Round) : Decidable (round.Metered ovm) :=
  inferInstanceAs (Decidable (_ ∨ _))

def Regime.gas (ovm : OVM) : Regime where
  ovm := ovm
  guard _ _ _ := true
  analysed _ _ := True
  faulty reason := ∃ message, reason = .panic message
  assumed := Round.Metered ovm
  keeps _ := True
  restricted := False
  metered := True

def panicless [Crypto] : Guard
  | level, .callCode caller _ _ _ value, world =>
    level.depth > Params.callCreateDepth || !(canTransfer world.db caller value.toNat).1
  | level, .delegateCall _ _ _ _, _ => level.depth > Params.callCreateDepth
  | level, .staticCall _ _ _ _, _ => level.depth > Params.callCreateDepth
  | _, .addPreimage _ _, _ => false
  | _, .subRefund gas, world => gas ≤ world.db.refund
  | _, _, _ => true

section

variable [Crypto]

/-- A request that opens no frame fails with a panic, where the guard against
panics would have stopped it. -/
theorem answer_fails {ovm : OVM} {runner : Runner} {level : Level} {query : Request}
    {world : World} {reason : Fault} (unopened : query.opens = false)
    (failed : OVM.answer ovm runner level query world = .error reason) :
    (∃ msg, reason = .panic msg) ∧ panicless level query world = false := by
  cases query with
  | subRefund =>
    rw [OVM.answer_subRefund] at failed
    split at failed
    · next short =>
      cases failed
      exact ⟨⟨_, rfl⟩, decide_eq_false (not_le.mpr short)⟩
    · cases failed
  | callCode caller _ _ gas value =>
    change OVM.callCode level caller gas value.toNat world = _ at failed
    unfold OVM.callCode at failed
    split at failed
    · cases failed
    next shallow =>
    rw [readDB_bind] at failed
    split at failed
    · next covered =>
      cases failed
      exact ⟨⟨_, rfl⟩, by simp only [panicless, covered, shallow]; rfl⟩
    · cases failed
  | delegateCall _ _ _ gas | staticCall _ _ _ gas =>
    change OVM.snapshotCall level gas world = _ at failed
    unfold OVM.snapshotCall at failed
    split at failed
    · cases failed
    · next shallow =>
      cases failed
      exact ⟨⟨_, rfl⟩, decide_eq_false shallow⟩
  | _ =>
    first
      | (cases unopened; done)
      | (cases failed; done)
      | (cases failed; exact ⟨⟨_, rfl⟩, rfl⟩)

theorem gas_sound (ovm : OVM) : (Regime.gas ovm).Sound where
  deepest := le_rfl
  rejected := ⟨_, rfl⟩
  answered _ _ _ _ _ _ _ _ _ _ _ := trivial
  refused _ _ _ _ _ unopened _ failed := (answer_fails unopened failed).1
  called _ _ _ _ _ _ _ _ _ _ := trivial
  created := .inr fun _ => trivial
  shared _ _ _ := trivial
  supplied := .inl fun msg => ⟨msg, rfl⟩
  modest _ := by
    by_cases capped : ovm.rules.isEIP150 = true
    · exact .inl capped
    · exact .inr fun _ assumed => assumed.resolve_left capped

theorem gas_conducts (ovm : OVM) (fuel : Nat) :
    (Regime.gas ovm).Conducts fuel (ovm.run fuel) (ovm.rounds fuel) := by
  rw [← OVM.guardedRun_accept]
  exact conducts_guardedRun (gas_sound ovm) fuel

namespace OVM

variable (ovm : OVM) (fuel : Nat) (level : Level)

/-- Neither a call nor a creation hands back more gas than it was given. -/
theorem leftOverGas_le (caller : ContractRef) (gas : Nat) (value : Int) (before : World)
    (bounded : gas < 2 ^ 63) :
    (∀ addr input result after,
      (∀ round ∈ callRounds (ovm.rounds fuel) level caller addr input gas value before,
        round.Metered ovm) →
      call (ovm.run fuel) level caller addr input gas value before = .ok (result, after) →
        result.leftOverGas ≤ gas) ∧
    ∀ code result after,
      (∀ round ∈ createWithNonceRounds ovm (ovm.rounds fuel) level caller code gas value before,
        round.Metered ovm) →
      createWithNonce ovm (ovm.run fuel) level caller code gas value before = .ok (result, after) →
        result.leftOverGas ≤ gas := by
  have small : (Regime.gas ovm).Metered → gas < uint64Size := by
    unfold uint64Size
    omega
  -- The analyses that the frames start with do not matter for their gas.
  have start : (Regime.gas ovm).Holds before := ⟨fun _ _ _ => trivial, trivial⟩
  refine ⟨?_, ?_⟩
  · intro addr input result after metered returned
    have ran := conducted_call (gas_sound ovm) (gas_conducts ovm fuel) small False.elim start
      trivial metered
    exact ((ran.returned result after returned).1 trivial).1
  · intro code result after metered returned
    have ran := conducted_createWithNonce (gas_sound ovm) (gas_conducts ovm fuel) small False.elim
      start (fun _ => trivial) metered
    exact ((ran.returned result after returned).1 trivial).1

/-- A run ends: every round that goes on lowers the gas, with all that its frames handed back,
frames are nested up to a limit, and there are no more rounds than gas. -/
theorem run_terminates (contract : Contract) (input : Bytes) (readOnly : Bool) (before : World)
    (shallow : level.depth ≤ Params.callCreateDepth) (fresh : contract.analysis = none)
    (bounded : contract.gas < uint64Size)
    (metered : ∀ round ∈ ovm.rounds fuel level contract input readOnly before, round.Metered ovm) :
    (contract.gas + 2 ≤ fuel →
      ovm.run fuel level contract input readOnly before ≠ .error .outOfFuel) ∧
    (ovm.rounds fuel level contract input readOnly before).length ≤ contract.gas + 1 ∧
    ∀ round ∈ ovm.rounds fuel level contract input readOnly before,
      round.level.depth ≤ Params.callCreateDepth + 1 ∧ ∀ next, round.next = some next →
          next.contract.gas + 1 ≤ round.frame.contract.gas := by
  have ran := gas_conducts ovm fuel level contract input readOnly before shallow fresh
    (fun _ => bounded) False.elim ⟨fun _ _ _ => trivial, trivial⟩ metered
  refine ⟨?_, ?_, ?_⟩
  · intro enough failed
    rcases (ran.failed _ failed).1 with ⟨_, isPanic⟩ | ⟨-, short⟩
    · cases isPanic
    · exact short ⟨trivial, enough⟩
  · rcases returned : ovm.run fuel level contract input readOnly before with
      reason | ⟨⟨outcome, left⟩, after⟩
    · exact (ran.failed reason returned).2 trivial
    · have := ((ran.returned _ _ returned).1 trivial).2
      omega
  · intro round inside
    exact ⟨(ran.good round inside).depth, fun next isNext =>
      (ran.good round inside).gas next isNext trivial⟩

end OVM

end

def callCalculators (ovm : OVM) : List (Nat → GasExec Nat) :=
  [gasCall ovm, gasCallCode ovm, gasDelegateCall ovm, gasStaticCall ovm]

/-- A price that can be paid is a surcharge, a base price that can be paid after it, and gas that
is handed out within the share of what these two leave. -/
def Shares (cold gas passed price : Nat) : Prop :=
  price ≤ gas → ∃ base, cold ≤ gas ∧ base ≤ gas - cold ∧ price = cold + base + passed ∧
    passed ≤ (gas - cold - base) - (gas - cold - base) / 64

variable {setting : Setting} {limit memorySize gas surcharge : Nat} {requested : Word}
  {calculator : Nat → GasExec Nat} {frame : Frame} {floor : Nat → Nat → Prop}

theorem priced_shares (capped : setting.ovm.rules.isEIP150 = true) (small : gas < uint64Size) :
    setting.Priced gas surcharge requested fun passed price =>
      price + coldAccountCost < uint64Size ∧ Shares 0 gas passed price := by
  intro base passed _ cheap granted
  rw [Setting.Grants, if_pos capped] at granted
  have bound := callShare_lt gas cheap
  refine ⟨by omega, fun payable => ⟨base, Nat.zero_le _, by omega, by omega, ?_⟩⟩
  have left : sub64 gas base = gas - base := by
    unfold sub64 uint64Size at *
    omega
  rwa [callShare, left] at granted

theorem quotes_calculator (mem : calculator ∈ callCalculators setting.ovm)
    (fits : frame.memory.Fits) (enough : 3 ≤ frame.stack.length)
    (priced : ∀ requested, setting.Priced frame.contract.gas 0 requested floor) :
    setting.Quotes limit memorySize floor (calculator memorySize) frame := by
  cases frame
  rcases exists_three enough with ⟨requested, _, value, _, rfl, -⟩
  have transfers : setting.Priced _ (surcharge value) requested floor :=
    fun base passed _ => priced requested base passed (Nat.zero_le _)
  simp only [callCalculators, List.mem_cons, List.not_mem_nil, or_false] at mem
  rcases mem with rfl | rfl | rfl | rfl
  · exact quotes_gasCall fits rfl transfers rfl rfl
  · exact quotes_gasCallCode fits rfl transfers rfl
  · exact quotes_gasDelegateCall fits rfl (priced requested)
  · exact quotes_gasDelegateCall fits rfl (priced requested)

def greedyFrame (gas : Nat) (requested : Word) : Frame where
  contract :=
    { callerAddress := 0x11, self := 0xc0, code := [], codeHash := 0, gas := gas, value := 0 }
  stack := [requested, 0x22, 1]

/-- Every call calculator hands out gas within its share exactly under EIP-150. -/
theorem handed_out_within_share_iff (setting : Setting) (limit : Nat) :
    (∀ calculator ∈ callCalculators setting.ovm, ∀ (frame : Frame) memorySize, frame.memory.Fits →
      3 ≤ frame.stack.length → frame.contract.gas < uint64Size →
        setting.Quotes limit memorySize (Shares 0 frame.contract.gas) (calculator memorySize)
            frame ∧
          setting.Quotes limit memorySize (fun passed price =>
              Shares 0 frame.contract.gas passed price ∨
                Shares coldAccountCost frame.contract.gas passed price)
            (makeCallVariantGasCallEIP2929 calculator memorySize) frame) ↔
      setting.ovm.rules.isEIP150 = true := by
  constructor
  · intro shared
    by_contra uncapped
    have asked : gasDelegateCall setting.ovm ∈ callCalculators setting.ovm := by
      simp [callCalculators]
    have ran : (gasDelegateCall setting.ovm 0).run (greedyFrame 64 64) =
        .done (.ok 64, { greedyFrame 64 64 with callGasTemp := 64 }) := by
      unfold gasDelegateCall chargeCallGas callGas
      rw [Bool.not_eq_true] at uncapped
      simp only [uncapped]
      rfl
    have quoted := (shared _ asked (greedyFrame 64 64) 0 ⟨by decide, by decide⟩ (by decide)
      (by decide)).1
    unfold Setting.Quotes at quoted
    rw [ran] at quoted
    rcases quoted with ⟨-, -, _, _, passed, same, -, -, shares⟩
    have handed : 64 = passed := congrArg Frame.callGasTemp same
    rcases shares le_rfl with ⟨base, -, -, sum, within⟩
    change passed ≤ (64 - 0 - base) - (64 - 0 - base) / 64 at within
    omega
  · intro capped calculator mem frame memorySize fits enough small
    have quotes : ∀ gas ≤ frame.contract.gas, setting.Quotes limit memorySize
        (fun passed price => price + coldAccountCost < uint64Size ∧ Shares 0 gas passed price)
        (calculator memorySize) { frame with contract := { frame.contract with gas := gas } } :=
      fun gas less => quotes_calculator mem fits enough fun _ =>
        priced_shares capped (Nat.lt_of_le_of_lt less small)
    refine ⟨(quotes _ le_rfl).widen fun _ _ floored => floored.2,
      quotes_makeCallVariant (List.getElem?_eq_getElem (by omega))
        (fun _ _ floored => .inl floored.2)
        ?_ quotes⟩
    rintro passed price affordable ⟨room, shares⟩
    refine .inr fun payable => ?_
    rw [Nat.mod_eq_of_lt room] at payable ⊢
    rcases shares (by omega) with ⟨base, -, within, sum, passes⟩
    rw [Nat.sub_zero] at within passes
    exact ⟨base, affordable, within, by omega, passes⟩

/-- Expansions in one frame, with the sum of their fees; nothing else changes the memory. -/
inductive Expansions : Frame → Nat → Prop where
  | fresh {frame : Frame} (new : frame.memory = {}) : Expansions frame 0
  | between {frame after : Frame} {total : Nat} (earlier : Expansions frame total)
      (length : after.memory.store.length = frame.memory.store.length)
      (lastGasCost : after.memory.lastGasCost = frame.memory.lastGasCost) : Expansions after total
  | expand {frame charged : Frame} {total size memorySize fee : Nat}
      (earlier : Expansions frame total) (rounded : safeMul (toWordSize size) 32 = some memorySize)
      (priced : (memoryGasCost memorySize).run frame = .done (.ok fee, charged)) :
      Expansions { charged with memory := charged.memory.resize memorySize } (total + fee)

/-- No number that `memoryGasCost` computes for a size leaves the number range. -/
structure Memory.InRange (memory : Memory) (size : Nat) : Prop where
  rounded : size + 31 < uint64Size
  bytes : toWordSize size * 32 < uint64Size
  square : toWordSize size * toWordSize size < uint64Size
  newTotalFee : memoryFee (toWordSize size) < uint64Size
  fee : toWordSize size * 32 > memory.store.length →
    memory.lastGasCost ≤ memoryFee (toWordSize size)

theorem Memory.Fits.inRange {memory : Memory} {size : Nat} (fits : memory.Fits)
    (accepted : size ≤ memoryLimit) : memory.InRange size := by
  have words := toWordSize_of_le accepted
  have small : toWordSize size < 2 ^ 32 := by
    unfold memoryLimit at accepted
    omega
  have fee := memoryFee_le accepted
  refine ⟨?_, ?_, ?_, ?_, ?_⟩
  · unfold memoryLimit uint64Size at *
    omega
  · unfold uint64Size
    omega
  · exact (Nat.mul_lt_mul'' small small).trans_eq (by decide)
  · unfold uint64Size
    omega
  · intro expands
    rw [fits.lastGasCost_eq]
    apply memoryFee_mono
    rw [toWordSize_of_le fits.length_le]
    omega

variable {frame : Frame} {total : Nat}

theorem Expansions.paid (run : Expansions frame total) :
    frame.memory.Fits ∧ 32 ∣ frame.memory.store.length ∧ total = frame.memory.lastGasCost := by
  induction run with
  | fresh new =>
    rw [new]
    exact ⟨Memory.fits_empty, Nat.dvd_zero 32, rfl⟩
  | between _ length lastGasCost ih =>
    rcases ih with ⟨fits, aligned, sum⟩
    rw [length, lastGasCost]
    refine ⟨⟨?_, ?_⟩, aligned, sum⟩
    · exact length.trans_le fits.length_le
    · rw [length, lastGasCost]
      exact fits.lastGasCost_eq
  | @expand frame charged total size memorySize fee _ rounded priced ih =>
    rcases ih with ⟨fits, aligned, sum⟩
    rcases memoryGasCost_run fits memorySize with
      ⟨_, failed⟩ | ⟨_, lastGasCost, ran, accepted, -, cost, difference⟩
    · rw [failed] at priced
      cases priced
    rw [ran] at priced
    cases priced
    have whole : 32 ∣ memorySize := by
      unfold safeMul at rounded
      split at rounded
      · cases rounded
        exact Nat.dvd_mul_left 32 _
      · cases rounded
    have length := Memory.length_resize ⟨frame.memory.store, lastGasCost⟩ memorySize
    refine ⟨⟨?_, ?_⟩, ?_, ?_⟩
    · exact length.trans_le (max_le fits.length_le accepted)
    · exact cost.trans (congrArg (memoryFee <| toWordSize ·) length.symm)
    · change 32 ∣ (Memory.resize ⟨_, _⟩ memorySize).store.length
      rw [length]
      rcases max_choice frame.memory.store.length memorySize with same | same
      · rwa [same]
      · rwa [same]
    · rw [sum, Nat.add_comm]
      exact difference

def Regime.unmetered (ovm : OVM) : Regime :=
  { Regime.gas ovm with assumed := fun _ => True, metered := False }

section

variable [Crypto]

theorem unmetered_sound (ovm : OVM) : (Regime.unmetered ovm).Sound :=
  { gas_sound ovm with
    shared := fun _ _ _ => trivial
    supplied := .inl fun msg => ⟨msg, rfl⟩
    modest := False.elim }

/-- The fees of a frame add up to the price of its memory, and in every run that a call or a
creation starts, that price is what has been charged whenever a round starts. -/
theorem OVM.memory_fees_add_up (ovm : OVM) (fuel : Nat) (level : Level) (caller : ContractRef)
    (gas : Nat) (value : Int) (before : World) :
    (∀ frame total, Expansions frame total →
      ∃ words, frame.memory.store.length = 32 * words ∧ total = 3 * words + words * words / 512 ∧
        frame.memory.lastGasCost = 3 * words + words * words / 512 ∧
        ∀ size fee charged, (memoryGasCost size).run frame = .done (.ok fee, charged) →
          frame.memory.InRange size) ∧
    (∀ addr input, ∀ round ∈ callRounds (ovm.rounds fuel) level caller addr input gas value before,
      round.frame.memory.Fits) ∧
    (∀ code, ∀ round ∈ createWithNonceRounds ovm (ovm.rounds fuel) level caller code gas value
      before, round.frame.memory.Fits) ∧
    ∀ code salt, ∀ round ∈ createWithSaltRounds ovm (ovm.rounds fuel) level caller code gas value
      salt before, round.frame.memory.Fits := by
  have sound := unmetered_sound ovm
  have conducts : (Regime.unmetered ovm).Conducts fuel (ovm.run fuel) (ovm.rounds fuel) := by
    rw [← OVM.guardedRun_accept]
    exact conducts_guardedRun sound fuel
  have start : (Regime.unmetered ovm).Holds before := ⟨fun _ _ _ => trivial, trivial⟩
  refine ⟨?_, ?_, ?_, ?_⟩
  · intro frame total run
    rcases run.paid with ⟨fits, ⟨words, length⟩, rfl⟩
    have cost : frame.memory.lastGasCost = 3 * words + words * words / 512 := by
      rw [fits.lastGasCost_eq, toWordSize_of_le fits.length_le, length,
        show (32 * words + 31) / 32 = words by omega, memoryFee, Nat.mul_comm words]
      rfl
    refine ⟨words, length, cost, cost, ?_⟩
    intro size fee charged ran
    rcases memoryGasCost_run fits size with ⟨_, failed⟩ | ⟨_, _, -, accepted, -⟩
    · rw [failed] at ran
      cases ran
    · exact fits.inRange accepted
  · intro addr input round inside
    exact ((conducted_call sound conducts False.elim False.elim start trivial
      fun _ _ => trivial).good round inside).fits
  · intro code round inside
    exact ((conducted_createWithNonce sound conducts False.elim False.elim start
      (fun _ => trivial) fun _ _ => trivial).good round inside).fits
  · intro code salt round inside
    exact ((conducted_create sound conducts False.elim False.elim start (fun _ => trivial)
      fun _ _ => trivial).good round inside).fits

end

attribute [local instance] sampleCrypto

def overflowingCode : Bytes :=
  [0x60, 0, 0x60, 0, 0x60, 0, 0x60, 0, 0x60, 1, 0x60, 0x22, 0x67, 0xff, 0xff, 0xff, 0xff, 0xff,
    0xff, 0xdc, 0xd7, 0xf1, 0x00]

def payingCode : Bytes :=
  [0x60, 0, 0x60, 0, 0x60, 0, 0x60, 0, 0x60, 1, 0x60, 0x22, 0x61, 0xc3, 0x50, 0xf1, 0x00]

def overflowingWorld : World where
  db := contractDB overflowingCode
    0x5da0c3a07d44ebd31fc93a8eb5a76139433ac48f9c025edf33a1298a6d4a247e

def payingWorld : World where
  db := contractDB payingCode
    0x432b021c197934707f2c99c79510a80991e7b57bed43570339cddbe4dae4df5a

theorem paying_leftOverGas_le :
    ∃ result after,
      OVM.call (sampleOVM.run 12) {} (.account 0x11) 0xc0 [] 100000 0 payingWorld =
          .ok (result, after) ∧ result.leftOverGas ≤ 100000 := by
  have metered : (OVM.callRounds (sampleOVM.rounds 12) {} (.account 0x11) 0xc0 [] 100000 0
      payingWorld).all (fun round => decide (round.Metered sampleOVM)) = true := by
    decide +kernel
  simp only [List.all_eq_true, decide_eq_true_eq] at metered
  have ends : returns (fun _ _ => true)
      (OVM.call (sampleOVM.run 12) {} (.account 0x11) 0xc0 [] 100000 0 payingWorld) = true := by
    decide +kernel
  rcases exists_of_returns ends with ⟨result, after, ran, -⟩
  exact ⟨result, after, ran, (OVM.leftOverGas_le sampleOVM 12 {} (.account 0x11) 100000 0
    payingWorld (by decide)).1 0xc0 [] result after metered ran⟩

/-- The price of the call wraps around to less than three thousand. -/
theorem overflowing_call_gains_gas :
    ∃ result after,
      OVM.call (sampleOVM.run 12) {} (.account 0x11) 0xc0 [] 3121 0 overflowingWorld =
          .ok (result, after) ∧ result.leftOverGas = 2 ^ 64 - 6200 := by
  have gained : returns (fun result _ => decide (result.leftOverGas = 2 ^ 64 - 6200))
      (OVM.call (sampleOVM.run 12) {} (.account 0x11) 0xc0 [] 3121 0 overflowingWorld) = true := by
    decide +kernel
  rcases exists_of_returns gained with ⟨result, after, ran, left⟩
  exact ⟨result, after, ran, by simpa using left⟩

def sampleContract (code : Bytes) (codeHash : Hash) (gas : Nat) : Contract where
  callerAddress := 0x11
  self := 0xc0
  code := code
  codeHash := codeHash
  gas := gas
  value := 0

theorem paying_run_terminates :
    sampleOVM.run 34 {} (sampleContract payingCode 1 32) [] false payingWorld ≠ .error .outOfFuel ∧
      (sampleOVM.rounds 34 {} (sampleContract payingCode 1 32) [] false payingWorld).length ≤
        33 := by
  have metered : (sampleOVM.rounds 34 {} (sampleContract payingCode 1 32) [] false payingWorld).all
      (fun round => decide (round.Metered sampleOVM)) = true := by
    decide +kernel
  simp only [List.all_eq_true, decide_eq_true_eq] at metered
  have ended := OVM.run_terminates sampleOVM 34 {} (sampleContract payingCode 1 32) [] false
    payingWorld (by decide) rfl (by decide) metered
  exact ⟨ended.1 (by decide), ended.2.1⟩

theorem overflowing_round_gains_gas :
    ∃ round ∈ sampleOVM.rounds 12 {} (sampleContract overflowingCode 1 3121) [] false
        overflowingWorld,
      ∃ next, round.next = some next ∧ round.frame.contract.gas < next.contract.gas := by
  have gained : (sampleOVM.rounds 12 {} (sampleContract overflowingCode 1 3121) [] false
      overflowingWorld).any (fun round => round.next.any fun next =>
        decide (round.frame.contract.gas < next.contract.gas)) = true := by
    decide +kernel
  simpa only [List.any_eq_true, Option.any_eq_true, decide_eq_true_eq] using gained

/-- A frame with less gas than the transfer costs hands out most of the number range. -/
theorem cold_call_price_wraps :
    Computation.returns (fun result _ =>
        (match result.1 with
          | .ok price => decide (price ≤ result.2.contract.gas)
          | .error _ => false) && decide (result.2.callGasTemp = 2 ^ 64 - 9001))
      (((gasCallEIP2929 sampleOVM 0).run (greedyFrame 3000 (2 ^ 64 - 9001))).perform
        (OVM.answer sampleOVM (sampleOVM.run 0) {}) { db := contractDB [] 0 }) = true := by
  decide +kernel

def poorFrame : Frame where
  contract := { callerAddress := 0x11, self := 0xc0, code := [0x51], codeHash := 0, gas := 5
                value := 0 }
  stack := [0]

theorem unpaid_fee_remembered :
    stepInstruction sampleOVM {} poorFrame = .done (some ([], some .outOfGas),
        { poorFrame with
          contract := { poorFrame.contract with gas := 2 }
          memory := { store := [], lastGasCost := 3 } }) ∧
      3 ≠ memoryFee (toWordSize 0) :=
  ⟨rfl, by decide⟩

end Octopus
