import Octopus.VM.InstructionSpecs

/-!
# What the gas functions do

A gas function either fails, or names a price and changes nothing but what has been
charged for the memory and the gas that a call passes on.  A price has a floor.
-/

namespace Octopus

open Library Params

variable {floor : Nat → Nat → Prop} {new : Frame} {requested word value addr : Word}
  {gas : GasExec Nat} {err : VMError} {price : Nat}

def Frame.quote (frame : Frame) (gas lastGasCost passed : Nat) : Frame :=
  { frame with
    contract := { frame.contract with gas := gas }
    memory := { frame.memory with lastGasCost := lastGasCost }, callGasTemp := passed }

namespace Setting

/-- What a successful gas calculation for a memory size leaves. -/
structure Quoted (memorySize : Nat) (floor : Nat → Nat → Prop) (before after : Frame)
    (price : Nat) : Prop where
  size_le : memorySize ≤ memoryLimit
  frame : ∃ gas lastGasCost passed, after = before.quote gas lastGasCost passed ∧
    gas ≤ before.contract.gas ∧
    lastGasCost = memoryFee (toWordSize (max before.memory.store.length memorySize)) ∧
    floor passed price

def Quotes (setting : Setting) (limit memorySize : Nat) (floor : Nat → Nat → Prop)
    (gas : GasExec Nat) (frame : Frame) : Prop :=
  setting.Runs limit (gas.run frame) fun result log =>
    log = [] ∧
      match result.1 with
      | .error _ => result.2.contract.gas ≤ frame.contract.gas
      | .ok price => Quoted memorySize floor frame result.2 price

end Setting

section

variable {Value Other : Type} (frame : Frame) {next : Value → GasExec Other} {first : GasExec Value}

theorem gas_getThe_bind (next : Frame → GasExec Value) :
    (getThe Frame >>= next).run frame = (next frame).run frame := rfl

theorem gas_modifyThe_bind (change : Frame → Frame) (next : Unit → GasExec Value) :
    (modifyThe Frame change >>= next).run frame = (next ()).run (change frame) := rfl

theorem gas_request_bind (query : Request) (next : query.Reply → GasExec Value) :
    ((liftM (request query) : GasExec query.Reply) >>= next).run frame =
      .ask query fun reply => (next reply).run frame := rfl

theorem gas_orOverflow (value : Option Nat) : (orOverflow value).run frame =
      match value with
      | some value => .done (.ok value, frame)
      | none => .done (.error .gasUintOverflow, frame) := by
  cases value <;> rfl

variable {frame}

theorem gas_bind_ok {value : Value} (ran : first.run frame = .done (.ok value, new)) :
    (first >>= next).run frame = (next value).run new := by
  change (first.run frame).andThen _ = _
  rw [ran]
  rfl

theorem gas_bind_error (ran : first.run frame = .done (.error err, new)) :
    (first >>= next).run frame = .done (.error err, new) := by
  change (first.run frame).andThen _ = _
  rw [ran]
  rfl

theorem gas_lift {first : Exec Value} {value : Value} (ran : first frame = .done (value, new)) :
    (liftM first : GasExec Value).run frame = .done (.ok value, new) := by
  change (first frame).andThen _ = _
  rw [ran]
  rfl

theorem gas_back_bind {pos : Nat} (found : frame.stack[pos]? = some word)
    (next : Word → GasExec Value) :
    ((liftM (back pos) : GasExec Word) >>= next).run frame = (next word).run frame := by
  have executed : back pos frame = .done (word, frame) := by simp [back, found]
  exact gas_bind_ok (gas_lift executed)

theorem gas_peek_bind (found : frame.stack[0]? = some word) (next : Word → GasExec Value) :
    ((liftM peek : GasExec Word) >>= next).run frame = (next word).run frame :=
  gas_back_bind found next

theorem gas_useGas_bind (gas : Nat) (next : Bool → GasExec Value) :
    ((liftM (useGas gas) : GasExec Bool) >>= next).run frame =
      if frame.contract.gas < gas then (next false).run frame
      else (next true).run
        { frame with contract := { frame.contract with gas := frame.contract.gas - gas } } := by
  by_cases short : frame.contract.gas < gas
  · have ran : useGas gas frame = .done (false, frame) := by simp [useGas, if_pos short]
    rw [if_pos short, gas_bind_ok (gas_lift ran)]
  · have ran : useGas gas frame = .done (true,
        { frame with contract := { frame.contract with gas := frame.contract.gas - gas } }) := by
      simp only [useGas, get_bind, if_neg short, modify_bind, pure_apply]
    rw [if_neg short, gas_bind_ok (gas_lift ran)]

end

theorem safeAdd_eq_some {left right sum : Nat} (added : safeAdd left right = some sum) :
    left + right = sum ∧ sum < uint64Size := by
  unfold safeAdd at added
  split at added
  · next small =>
    cases added
    exact ⟨rfl, small⟩
  · cases added

theorem memoryGasCost_run {frame : Frame} (fits : frame.memory.Fits) (size : Nat) :
    (∃ err, (memoryGasCost size).run frame = .done (.error err, frame)) ∨
      ∃ price lastGasCost,
        (memoryGasCost size).run frame =
            .done (.ok price, frame.quote frame.contract.gas lastGasCost frame.callGasTemp) ∧
          size ≤ memoryLimit ∧ price ≤ 2 ^ 56 ∧
          lastGasCost = memoryFee (toWordSize (max frame.memory.store.length size)) ∧
          price + frame.memory.lastGasCost = lastGasCost := by
  have sameFrame : frame.quote frame.contract.gas frame.memory.lastGasCost frame.callGasTemp =
      frame := rfl
  have charged := fits.lastGasCost_eq
  have lengthBound := fits.length_le
  unfold memoryGasCost
  by_cases zero : size = 0
  · refine .inr ⟨0, frame.memory.lastGasCost, ?_, by simp [zero], Nat.zero_le _, ?_, Nat.zero_add _⟩
    · rw [if_pos zero, sameFrame]
      rfl
    · simpa only [zero, Nat.max_zero] using charged
  by_cases large : size > 0x1FFFFFFFE0
  · rw [if_neg zero, if_pos large]
    exact .inl ⟨_, rfl⟩
  have sizeBound : size ≤ memoryLimit := not_lt.mp large
  have maxBound : max frame.memory.store.length size ≤ memoryLimit := max_le lengthBound sizeBound
  rw [if_neg zero, if_neg large, gas_getThe_bind]
  by_cases expands : toWordSize size * 32 > frame.memory.store.length
  · have smaller : frame.memory.lastGasCost ≤ memoryFee (toWordSize size) := by
      refine charged.le.trans (memoryFee_mono ?_)
      rw [toWordSize_of_le lengthBound]
      omega
    have feeBound := memoryFee_le sizeBound
    refine .inr ⟨sub64 (memoryFee (toWordSize size)) frame.memory.lastGasCost,
      memoryFee (toWordSize size), ?_, sizeBound, ?_, ?_, ?_⟩
    · rw [if_pos expands]
      rfl
    · unfold sub64 uint64Size
      omega
    · congr 1
      rw [toWordSize_of_le sizeBound] at expands ⊢
      rw [toWordSize_of_le maxBound]
      omega
    · unfold sub64 uint64Size
      omega
  · refine .inr ⟨0, frame.memory.lastGasCost, ?_, sizeBound, Nat.zero_le _, ?_, Nat.zero_add _⟩
    · rw [if_neg expands, sameFrame]
      rfl
    · rw [charged, toWordSize_of_le lengthBound, toWordSize_of_le maxBound]
      rw [toWordSize_of_le sizeBound] at expands
      congr 1
      omega

variable {env : Setting} {limit : Nat} {frame : Frame} {memorySize : Nat}

def atLeast (least : Nat) : Nat → Nat → Prop :=
  fun _ price => least ≤ price

namespace Setting.Quotes

theorem of_error (ran : gas.run frame = .done (.error err, new))
    (less : new.contract.gas ≤ frame.contract.gas) : env.Quotes limit memorySize floor gas frame :=
  Runs.of_eq ran ⟨rfl, less⟩

theorem of_ok (ran : gas.run frame = .done (.ok price, new))
    (quoted : Quoted memorySize floor frame new price) :
    env.Quotes limit memorySize floor gas frame :=
  Runs.of_eq ran ⟨rfl, quoted⟩

end Setting.Quotes

theorem quotes_memoryWordGas {stackpos perWord : Nat} (fits : frame.memory.Fits)
    (enough : stackpos < frame.stack.length) :
    env.Quotes limit memorySize (atLeast 0) (memoryWordGas stackpos perWord memorySize)
      frame := by
  rcases memoryGasCost_run fits memorySize with
    ⟨err, ran⟩ | ⟨price, lastGasCost, ran, sizeBound, -, charged, -⟩
  · exact .of_error (gas_bind_error ran) le_rfl
  have found : (frame.quote frame.contract.gas lastGasCost frame.callGasTemp).stack[stackpos]? =
      some (frame.stack[stackpos]) := List.getElem?_eq_getElem enough
  unfold Setting.Quotes memoryWordGas
  rw [gas_bind_ok ran, gas_back_bind found]
  split
  · cases safeMul (toWordSize (Word.uint64 frame.stack[stackpos])) perWord with
    | none => exact .of_eq (gas_bind_error (gas_orOverflow _ none)) ⟨rfl, le_rfl⟩
    | some words =>
      rw [gas_bind_ok (gas_orOverflow _ (some words)), gas_orOverflow]
      cases safeAdd price words with
      | none => exact .of_eq rfl ⟨rfl, le_rfl⟩
      | some total =>
        exact .of_eq rfl
          ⟨rfl, sizeBound, _, lastGasCost, _, rfl, le_rfl, charged, Nat.zero_le total⟩
  · exact .of_eq rfl ⟨rfl, le_rfl⟩

section

variable (fits : frame.memory.Fits)
include fits

theorem Setting.Quoted.same (floored : floor frame.callGasTemp price) :
    Setting.Quoted 0 floor frame frame price := by
  refine ⟨Nat.zero_le _, frame.contract.gas, frame.memory.lastGasCost, frame.callGasTemp, rfl,
    le_rfl, ?_, floored⟩
  simpa only [Nat.max_zero] using fits.lastGasCost_eq

theorem quotes_memoryGasCost :
    env.Quotes limit memorySize (atLeast 0) (memoryGasCost memorySize) frame := by
  rcases memoryGasCost_run fits memorySize with
    ⟨err, ran⟩ | ⟨price, lastGasCost, ran, sizeBound, -, charged, -⟩
  · exact .of_error ran le_rfl
  · exact .of_ok ran ⟨sizeBound, _, lastGasCost, _, rfl, le_rfl, charged, Nat.zero_le price⟩

theorem quotes_makeGasLog {topics : Nat} (enough : 1 < frame.stack.length) :
    env.Quotes limit memorySize (atLeast 1) (makeGasLog topics memorySize) frame := by
  have found : frame.stack[1]? = some (frame.stack[1]) := List.getElem?_eq_getElem enough
  unfold Setting.Quotes makeGasLog
  rw [gas_back_bind found]
  split
  · rcases memoryGasCost_run fits memorySize with
      ⟨err, ran⟩ | ⟨price, lastGasCost, ran, sizeBound, -, charged, -⟩
    · exact .of_eq (gas_bind_error ran) ⟨rfl, le_rfl⟩
    rw [gas_bind_ok ran]
    cases added : safeAdd price logGas with
    | none => exact .of_eq (gas_bind_error (gas_orOverflow _ none)) ⟨rfl, le_rfl⟩
    | some first =>
      rw [gas_bind_ok (gas_orOverflow _ (some first))]
      cases more : safeAdd first (topics * logTopicGas) with
      | none => exact .of_eq (gas_bind_error (gas_orOverflow _ none)) ⟨rfl, le_rfl⟩
      | some second =>
        rw [gas_bind_ok (gas_orOverflow _ (some second))]
        cases safeMul (Word.uint64 frame.stack[1]) logDataGas with
        | none => exact .of_eq (gas_bind_error (gas_orOverflow _ none)) ⟨rfl, le_rfl⟩
        | some data =>
          rw [gas_bind_ok (gas_orOverflow _ (some data)), gas_orOverflow]
          cases last : safeAdd second data with
          | none => exact .of_eq rfl ⟨rfl, le_rfl⟩
          | some =>
            refine .of_eq rfl ⟨rfl, sizeBound, _, lastGasCost, _, rfl, le_rfl, charged, ?_⟩
            have base := (safeAdd_eq_some added).1
            have topped := (safeAdd_eq_some more).1
            have summed := (safeAdd_eq_some last).1
            simp only [atLeast, logGas] at *
            omega
  · exact .of_eq rfl ⟨rfl, le_rfl⟩

theorem quotes_gasExpEIP158 (enough : 1 < frame.stack.length) :
    env.Quotes limit 0 (atLeast 1) (gasExpEIP158 0) frame := by
  have found : frame.stack[1]? = some (frame.stack[1]) := List.getElem?_eq_getElem enough
  unfold Setting.Quotes gasExpEIP158
  rw [gas_back_bind found, gas_orOverflow]
  cases added : safeAdd ((Word.bitLen frame.stack[1] + 7) / 8 * expByteEIP158) expGas with
  | none => exact .of_eq rfl ⟨rfl, le_rfl⟩
  | some _ =>
    refine .of_eq rfl ⟨rfl, .same fits ?_⟩
    have summed := (safeAdd_eq_some added).1
    simp only [atLeast, expGas] at *
    omega

theorem quotes_gasEip2929AccountCheck (enough : 0 < frame.stack.length) :
    env.Quotes limit 0 (atLeast 0) (gasEip2929AccountCheck 0) frame := by
  have found : frame.stack[0]? = some (frame.stack[0]) := List.getElem?_eq_getElem enough
  unfold Setting.Quotes gasEip2929AccountCheck
  rw [gas_peek_bind found]
  apply Setting.Runs.plain rfl
  intro listed
  cases listed with
  | true => exact .of_eq rfl ⟨rfl, .same fits (Nat.zero_le _)⟩
  | false =>
    apply Setting.Runs.plain rfl
    intro _
    exact .of_eq rfl ⟨rfl, .same fits (Nat.zero_le _)⟩

theorem quotes_gasSLoadEIP2929 (enough : 0 < frame.stack.length) :
    env.Quotes limit 0 (atLeast 1) (gasSLoadEIP2929 0) frame := by
  have found : frame.stack[0]? = some (frame.stack[0]) := List.getElem?_eq_getElem enough
  unfold Setting.Quotes gasSLoadEIP2929
  rw [gas_peek_bind found]
  apply Setting.Runs.plain rfl
  rintro ⟨_, slotPresent⟩
  cases slotPresent with
  | true => exact .of_eq rfl ⟨rfl, .same fits (Nat.le_of_ble_eq_true rfl)⟩
  | false =>
    apply Setting.Runs.plain rfl
    intro _
    exact .of_eq rfl ⟨rfl, .same fits (Nat.le_of_ble_eq_true rfl)⟩

theorem quotes_gasSelfdestructEIP3529 (enough : 0 < frame.stack.length) :
    env.Quotes limit 0 (atLeast 0) (gasSelfdestructEIP3529 0) frame := by
  have found : frame.stack[0]? = some (frame.stack[0]) := List.getElem?_eq_getElem enough
  -- what is asked once the access is paid for
  have funded : ∀ accessGas, env.Quotes limit 0 (atLeast 0) (do
        if ← request (.empty (wordAddress frame.stack[0])) then
          if (← request (.getBalance frame.contract.self)) ≠ 0 then
            return accessGas + createBySelfdestructGas
          else return accessGas
        else return accessGas) frame := by
    intro accessGas
    apply Setting.Runs.plain rfl
    intro empty
    cases empty with
    | false => exact .of_eq rfl ⟨rfl, Setting.Quoted.same fits (Nat.zero_le accessGas)⟩
    | true =>
      apply Setting.Runs.plain rfl
      intro balance
      change env.Quotes limit 0 (atLeast 0)
        (if balance ≠ 0 then pure (accessGas + createBySelfdestructGas) else pure accessGas) frame
      split
      · exact .of_ok rfl (Setting.Quoted.same fits (Nat.zero_le _))
      · exact .of_ok rfl (Setting.Quoted.same fits (Nat.zero_le _))
  unfold Setting.Quotes gasSelfdestructEIP3529
  rw [gas_peek_bind found, gas_getThe_bind]
  apply Setting.Runs.plain rfl
  intro listed
  cases listed with
  | true => exact funded 0
  | false =>
    apply Setting.Runs.plain rfl
    intro _
    exact funded coldAccountAccessCostEIP2929

end

theorem Setting.Quotes.ask {query : Request} {next : query.Reply → GasExec Nat}
    (plain : query.plain = true)
    (replied : ∀ reply, env.Quotes limit memorySize floor (next reply) frame) :
    env.Quotes limit memorySize floor
      ((liftM (request query) : GasExec query.Reply) >>= next) frame := by
  exact .plain plain replied

theorem Setting.Quotes.widen {wider : Nat → Nat → Prop}
    (quotes : env.Quotes limit memorySize floor gas frame)
    (weaker : ∀ passed price, floor passed price → wider passed price) :
    env.Quotes limit memorySize wider gas frame := by
  apply quotes.mono
  rintro ⟨quote, new⟩ log ⟨unlogged, quoted⟩
  refine ⟨unlogged, ?_⟩
  cases quote with
  | error => exact quoted
  | ok =>
    rcases quoted with ⟨sizeBound, gas, lastGasCost, passed, same, less, charged, floored⟩
    exact ⟨sizeBound, gas, lastGasCost, passed, same, less, charged, weaker _ _ floored⟩

theorem Setting.Quotes.ite {condition : Prop} [Decidable condition]
    {positive negative : GasExec Nat} (first : env.Quotes limit memorySize floor positive frame)
    (second : env.Quotes limit memorySize floor negative frame) :
    env.Quotes limit memorySize floor (if condition then positive else negative) frame := by
  split
  · exact first
  · exact second

/-- Whatever the three values of a slot are, the price is positive; only the
refund counter depends on more. -/
theorem quotes_makeGasSStoreFunc {clearingRefund : Nat} (fits : frame.memory.Fits)
    (enough : 1 < frame.stack.length) :
    env.Quotes limit 0 (atLeast 1) (makeGasSStoreFunc clearingRefund 0) frame := by
  have top : frame.stack[0]? = some (frame.stack[0]) := List.getElem?_eq_getElem (by omega)
  have next : frame.stack[1]? = some (frame.stack[1]) := List.getElem?_eq_getElem enough
  have priced : ∀ price, 1 ≤ price → env.Quotes limit 0 (atLeast 1) (pure price) frame :=
    fun price positive => .of_ok rfl (.same fits positive)
  have warm := priced warmStorageReadCostEIP2929 (by decide)
  have refunded : ∀ gas, env.Quotes limit 0 (atLeast 1)
      (do request (.addRefund gas); return warmStorageReadCostEIP2929) frame :=
    fun gas => .ask rfl fun _ => warm
  have restored : ∀ original value : Hash, env.Quotes limit 0 (atLeast 1)
      (if original = value then
        if original = 0 then do
          request (.addRefund (sstoreSetGasEIP2200 - warmStorageReadCostEIP2929))
          return warmStorageReadCostEIP2929
        else do
          request (.addRefund (sstoreResetGasEIP2200 - coldSloadCostEIP2929 -
              warmStorageReadCostEIP2929))
          return warmStorageReadCostEIP2929
      else return warmStorageReadCostEIP2929) frame :=
    fun original value => .ite (.ite (refunded _) (refunded _)) warm
  unfold Setting.Quotes makeGasSStoreFunc
  rw [gas_getThe_bind]
  by_cases short : frame.contract.gas ≤ sstoreSentryGasEIP2200
  · rw [if_pos short]
    exact .of_eq rfl ⟨rfl, le_rfl⟩
  rw [if_neg short, gas_back_bind next, gas_peek_bind top]
  apply Setting.Quotes.ask rfl
  intro _
  apply Setting.Quotes.ite warm
  apply Setting.Quotes.ask rfl
  intro original
  refine .ite (.ite (priced _ (by decide)) (.ite (.ask rfl fun _ => priced _ (by decide))
    (priced _ (by decide)))) (.ite (.ite ?_ (.ite ?_ ?_)) ?_)
  · exact .ask rfl fun _ => restored original _
  · exact .ask rfl fun _ => restored original _
  · exact restored original _
  · exact restored original _

theorem quotes_gasExtCodeCopyEIP2929 (fits : frame.memory.Fits) (enough : 3 < frame.stack.length) :
    env.Quotes limit memorySize (atLeast 0) (gasExtCodeCopyEIP2929 memorySize) frame := by
  have top : frame.stack[0]? = some (frame.stack[0]) := List.getElem?_eq_getElem (by omega)
  unfold Setting.Quotes gasExtCodeCopyEIP2929
  rw [ExceptT.run_bind]
  apply (quotes_memoryWordGas fits enough).bind
  rintro quote new quoted
  cases quote with
  | error => exact .done ⟨rfl, quoted⟩
  | ok price =>
    rcases quoted with ⟨sizeBound, gas, lastGasCost, passed, rfl, less, charged, -⟩
    have found : (frame.quote gas lastGasCost passed).stack[0]? = some (frame.stack[0]) := top
    dsimp only
    rw [gas_peek_bind found, gas_request_bind]
    apply Setting.Runs.plain rfl
    intro listed
    cases listed with
    | true =>
      exact .of_eq rfl ⟨rfl, sizeBound, gas, lastGasCost, passed, rfl, less, charged,
        Nat.zero_le price⟩
    | false =>
      apply Setting.Runs.plain rfl
      intro _
      cases safeAdd price coldAccountCost with
      | none => exact .done ⟨rfl, less⟩
      | some total =>
        exact .done ⟨rfl, sizeBound, gas, lastGasCost, passed, rfl, less, charged,
          Nat.zero_le total⟩

/-- The price of a call covers the gas passed on and leaves room for that of a cold account. -/
def Setting.callFloor (setting : Setting) (gas surcharge passed price : Nat) : Prop :=
  passed + surcharge ≤ price ∧
    (setting.Metered → gas + coldAccountCost < uint64Size → price + coldAccountCost < uint64Size)

def Setting.callCovered (setting : Setting) (surcharge passed price : Nat) : Prop :=
  setting.Metered → passed + surcharge ≤ price

def callShare (gas base : Nat) : Nat :=
  sub64 gas base - sub64 gas base / 64

def Setting.Grants (setting : Setting) (gas base : Nat) (requested : Word) (passed : Nat) : Prop :=
  if setting.ovm.rules.isEIP150 then passed ≤ callShare gas base
  else passed = requested.toNat ∧ passed < uint64Size

/-- A floor under the price of every call whose base price is not below a surcharge. -/
def Setting.Priced (setting : Setting) (gas surcharge : Nat) (requested : Word)
    (floor : Nat → Nat → Prop) : Prop :=
  ∀ base passed, surcharge ≤ base → base ≤ 2 ^ 57 → setting.Grants gas base requested passed →
    floor passed (base + passed)

theorem callGas_cases (env : Setting) (gas base : Nat) (requested : Word) :
    callGas env.ovm.rules.isEIP150 gas base requested = throw .gasUintOverflow ∨
      ∃ passed, callGas env.ovm.rules.isEIP150 gas base requested = pure passed ∧
        env.Grants gas base requested passed := by
  unfold callGas Setting.Grants callShare
  by_cases fits : requested.toNat < uint64Size
  · have same : Word.uint64 requested = requested.toNat := Nat.mod_eq_of_lt fits
    simp only [Word.isUint64, fits, same, decide_true, Bool.not_true, Bool.false_or]
    cases env.ovm.rules.isEIP150 with
    | false => exact .inr ⟨_, rfl, rfl, fits⟩
    | true =>
      simp only [Bool.true_and, decide_eq_true_eq]
      split
      · exact .inr ⟨_, rfl, le_rfl⟩
      · next enough => exact .inr ⟨_, rfl, not_lt.mp enough⟩
  · simp only [Word.isUint64, fits, decide_false, Bool.not_false, Bool.true_or]
    cases env.ovm.rules.isEIP150 with
    | false => exact .inl rfl
    | true => exact .inr ⟨_, rfl, le_rfl⟩

theorem chargeCallGas_run (env : Setting) (base : Nat)
    (found : frame.stack[0]? = some requested) :
    (∃ err, (chargeCallGas env.ovm base).run frame = .done (.error err, frame)) ∨
      ∃ passed, env.Grants frame.contract.gas base requested passed ∧
        (chargeCallGas env.ovm base).run frame =
          .done (match safeAdd base passed with
            | some price => .ok price
            | none => .error .gasUintOverflow, { frame with callGasTemp := passed }) := by
  rw [chargeCallGas, gas_back_bind found, gas_getThe_bind]
  dsimp only
  rcases callGas_cases env frame.contract.gas base requested with fails | ⟨passed, ran, granted⟩
  · refine .inl ⟨.gasUintOverflow, ?_⟩
    rw [fails]
    rfl
  · refine .inr ⟨passed, granted, ?_⟩
    rw [ran, pure_bind, gas_modifyThe_bind, gas_orOverflow]
    cases safeAdd base passed <;> rfl

/-- Under EIP-150 the price is far from the end of the range, even if the subtraction wraps. -/
theorem callShare_lt (gas : Nat) {base : Nat} (small : base ≤ 2 ^ 57) :
    base + callShare gas base + coldAccountCost < uint64Size := by
  have cold : coldAccountCost = 2500 := rfl
  unfold callShare sub64 uint64Size
  omega

theorem priced_callFloor {gas surcharge : Nat}
    (modest : env.Metered → env.Modest requested) :
    env.Priced gas surcharge requested (env.callFloor gas surcharge) := by
  intro base passed covers small granted
  refine ⟨by omega, fun metered _ => ?_⟩
  unfold Setting.Grants at granted
  split at granted
  · have bound := callShare_lt gas small
    omega
  · next uncapped =>
    have cold : coldAccountCost = 2500 := rfl
    rcases modest metered with capping | low | high
    · exact absurd capping uncapped
    · unfold uint64Size
      omega
    · omega

/-- The common end of the calls: charge for the memory and fix the gas that is passed on. -/
theorem quotes_chargeCall {surcharge : Nat} {rest : Nat → GasExec Nat} (fits : frame.memory.Fits)
    (top : frame.stack[0]? = some requested)
    (priced : env.Priced frame.contract.gas surcharge requested floor)
    (charges : ∀ memoryGas ≤ 2 ^ 56, ∀ new : Frame, new.stack = frame.stack →
      ∃ base, surcharge ≤ base ∧ base ≤ 34000 ∧ (rest memoryGas).run new =
        ((orOverflow (safeAdd base memoryGas) : GasExec Nat) >>= chargeCallGas env.ovm).run new) :
    env.Quotes limit memorySize floor (memoryGasCost memorySize >>= rest) frame := by
  rcases memoryGasCost_run fits memorySize with
    ⟨err, ran⟩ | ⟨memoryGas, lastGasCost, ran, sizeBound, priceBound, charged, -⟩
  · exact .of_error (gas_bind_error ran) le_rfl
  have found : (frame.quote frame.contract.gas lastGasCost frame.callGasTemp).stack[0]? =
      some requested := top
  rcases charges memoryGas priceBound (frame.quote frame.contract.gas lastGasCost
    frame.callGasTemp) rfl with ⟨base, _, _, same⟩
  replace ran := (gas_bind_ok ran).trans same
  cases added : safeAdd base memoryGas with
  | none =>
    rw [added, gas_bind_error (gas_orOverflow _ none)] at ran
    exact .of_error ran le_rfl
  | some total =>
    rw [added, gas_bind_ok (gas_orOverflow _ (some total))] at ran
    have sum := (safeAdd_eq_some added).1
    rcases chargeCallGas_run env total found with ⟨err, ended⟩ | ⟨passed, granted, ended⟩
    · exact .of_error (ran.trans ended) le_rfl
    rw [ended] at ran
    cases last : safeAdd total passed with
    | none =>
      rw [last] at ran
      exact .of_error ran le_rfl
    | some =>
      rw [last] at ran
      refine .of_ok ran
        ⟨sizeBound, frame.contract.gas, lastGasCost, passed, rfl, le_rfl, charged, ?_⟩
      rw [← (safeAdd_eq_some last).1]
      exact priced total passed (by omega) (by omega) granted

theorem quotes_gasDelegateCall (fits : frame.memory.Fits) (top : frame.stack[0]? = some requested)
    (priced : env.Priced frame.contract.gas 0 requested floor) :
    env.Quotes limit memorySize floor (gasDelegateCall env.ovm memorySize) frame := by
  apply quotes_chargeCall fits top priced
  intro _ small _ _
  refine ⟨0, le_rfl, Nat.zero_le _, ?_⟩
  rw [safeAdd, if_pos (by unfold uint64Size; omega), gas_bind_ok (gas_orOverflow _ _),
    Nat.zero_add]

def surcharge (value : Word) : Nat :=
  if value ≠ 0 then Params.callValueTransferGas else 0

theorem surcharge_le (value : Word) : surcharge value ≤ callValueTransferGas := by
  unfold surcharge
  split
  · exact le_rfl
  · exact Nat.zero_le _

theorem quotes_gasCallCode (fits : frame.memory.Fits) (top : frame.stack[0]? = some requested)
    (priced : env.Priced frame.contract.gas (surcharge value) requested floor)
    (found : frame.stack[2]? = some value) :
    env.Quotes limit memorySize floor (gasCallCode env.ovm memorySize) frame := by
  apply quotes_chargeCall fits top priced
  intro _ _ _ sameStack
  refine ⟨surcharge value, le_rfl, (surcharge_le value).trans (by decide), ?_⟩
  rw [gas_back_bind (by rw [sameStack]; exact found)]
  rfl

theorem quotes_gasCall (fits : frame.memory.Fits) (top : frame.stack[0]? = some requested)
    (priced : env.Priced frame.contract.gas (surcharge value) requested floor)
    (second : frame.stack[1]? = some addr) (third : frame.stack[2]? = some value) :
    env.Quotes limit memorySize floor (gasCall env.ovm memorySize) frame := by
  have quotes : ∀ accountGas, accountGas ≤ callNewAccountGas →
      env.Quotes limit memorySize floor (do
          let memoryGas ← memoryGasCost memorySize
          let gas ← orOverflow (safeAdd (accountGas + surcharge value) memoryGas)
          chargeCallGas env.ovm gas) frame := by
    intro accountGas accountBound
    apply quotes_chargeCall fits top priced
    intro _ _ _ _
    refine ⟨accountGas + surcharge value, Nat.le_add_left _ _, ?_, rfl⟩
    have bound := surcharge_le value
    simp only [callNewAccountGas, callValueTransferGas] at accountBound bound
    omega
  unfold Setting.Quotes gasCall
  rw [gas_back_bind third, gas_back_bind second]
  refine Setting.Quotes.ite (.ite ?_ (quotes 0 (Nat.zero_le _))) ?_
  · exact .ask rfl fun empty => .ite (quotes _ le_rfl) (quotes 0 (Nat.zero_le _))
  · exact .ask rfl fun present => .ite (quotes 0 (Nat.zero_le _)) (quotes _ le_rfl)

/-- A cold account is paid for before the old calculation, given back, and paid in the price. -/
theorem quotes_makeCallVariant {oldCalculator : Nat → GasExec Nat} {old : Nat → Nat → Nat → Prop}
    (found : frame.stack[1]? = some addr)
    (warm : ∀ passed price, old frame.contract.gas passed price → floor passed price)
    (cold : ∀ passed price, coldAccountCost ≤ frame.contract.gas →
      old (frame.contract.gas - coldAccountCost) passed price →
        floor passed ((price + coldAccountCost) % uint64Size))
    (quotes : ∀ gas ≤ frame.contract.gas, env.Quotes limit memorySize (old gas)
      (oldCalculator memorySize) { frame with contract := { frame.contract with gas := gas } }) :
    env.Quotes limit memorySize floor (makeCallVariantGasCallEIP2929 oldCalculator memorySize)
      frame := by
  unfold Setting.Quotes makeCallVariantGasCallEIP2929
  rw [gas_back_bind found, gas_request_bind]
  apply Setting.Runs.plain rfl
  intro listed
  cases listed with
  | true => exact (quotes frame.contract.gas le_rfl).widen warm
  | false =>
    rw [if_neg Bool.false_ne_true, gas_request_bind]
    apply Setting.Runs.plain rfl
    intro _
    rw [gas_useGas_bind]
    by_cases short : frame.contract.gas < coldAccountCost
    · rw [if_pos short]
      exact .of_eq rfl ⟨rfl, le_rfl⟩
    rw [if_neg short, if_pos rfl, ExceptT.run_bind]
    apply (quotes (frame.contract.gas - coldAccountCost) (Nat.sub_le _ _)).bind
    rintro quote new quoted
    cases quote with
    | error => exact .done ⟨rfl, le_trans quoted (Nat.sub_le _ _)⟩
    | ok =>
      rcases quoted with ⟨sizeBound, gas, lastGasCost, passed, rfl, less, charged, floored⟩
      have less : gas ≤ frame.contract.gas - coldAccountCost := less
      have wrapped := Nat.mod_le (gas + coldAccountCost) uint64Size
      exact .of_eq rfl ⟨rfl, sizeBound, (gas + coldAccountCost) % uint64Size, lastGasCost, passed,
        rfl, by omega, charged, cold _ _ (not_lt.mp short) floored⟩

theorem quotes_callCovered {oldCalculator : Nat → GasExec Nat} {surcharge : Nat}
    (metered : env.Metered → frame.contract.gas < uint64Size)
    (found : frame.stack[1]? = some addr)
    (old : ∀ gas ≤ frame.contract.gas, env.Quotes limit memorySize
      (env.callFloor gas surcharge) (oldCalculator memorySize)
      { frame with contract := { frame.contract with gas := gas } }) :
    env.Quotes limit memorySize (env.callCovered surcharge)
      (makeCallVariantGasCallEIP2929 oldCalculator memorySize) frame := by
  apply quotes_makeCallVariant found (fun _ _ floored _ => floored.1) _ old
  intro passed price affordable floored isMetered
  have room := floored.2 isMetered (by have := metered isMetered; omega)
  rw [Nat.mod_eq_of_lt room]
  exact floored.1.trans (Nat.le_add_right _ _)

end Octopus
