import Octopus.Consensus.Batches
import Octopus.Entity.Envelope

/-!
# Seals

Under a collision-free hash two headers of one seal hash agree on all the fields that
`SealHash` encodes.  The extra data is not among them.  An engine accepts the blocks that its
own threads seal, because the search and the check look at the same hash and target.
-/

namespace Octopus

open Rlp List

variable {header other : Header} {settings : PowSettings}

namespace Header

def sealedStrings (header : Header) : List Bytes :=
  [wordBytes header.parentHash, wordBytes header.uncleHash, addressBytes header.coinbase,
    wordBytes header.root, wordBytes header.txHash, wordBytes header.receiptHash,
    Rlp.digits header.difficulty, Rlp.digits header.number, Rlp.digits header.gasLimit,
    Rlp.digits header.gasUsed, Rlp.digits header.time] ++
  header.baseFee.toList.map Rlp.digits

def SameSealed (header other : Header) : Prop :=
  { header with extra := other.extra, mixDigest := other.mixDigest, nonce := other.nonce } = other

def SameBesidesSeal (header other : Header) : Prop :=
  { header with mixDigest := other.mixDigest, nonce := other.nonce } = other

instance (header other : Header) : Decidable (header.SameBesidesSeal other) :=
  inferInstanceAs (Decidable (_ = _))

def withSealOf (header other : Header) : Header :=
  { header with mixDigest := other.mixDigest, nonce := other.nonce }

theorem sameBesidesSeal_iff :
    header.SameBesidesSeal other ↔ header.SameSealed other ∧ header.extra = other.extra := by
  rcases other with ⟨⟩
  simp only [SameBesidesSeal, SameSealed, Header.mk.injEq]
  tauto

theorem sealedFields_eq (fits : header.Fits) :
    header.sealedFields = header.sealedStrings.flatMap writeBytes := by
  have gasLimit := writeUint64_eq fits.gasLimit
  have gasUsed := writeUint64_eq fits.gasUsed
  have time := writeUint64_eq fits.time
  rcases fee : header.baseFee with _ | baseFee
  · simp [sealedFields, sealedStrings, writeBigInt_eq, gasLimit, gasUsed, time, fee]
  · simp [sealedFields, sealedStrings, writeBigInt_eq, gasLimit, gasUsed, time, fee]

theorem Fits.sealedStrings_lt (fits : header.Fits) :
    ∀ bytes ∈ header.sealedStrings, bytes.length < maxAlloc := by
  have gasLimit := Rlp.Stream.length_digits_le_eight fits.gasLimit
  have gasUsed := Rlp.Stream.length_digits_le_eight fits.gasUsed
  have time := Rlp.Stream.length_digits_le_eight fits.time
  have baseFee := fits.baseFee
  intro bytes mem
  simp only [sealedStrings, mem_append, mem_cons, not_mem_nil, or_false,
    mem_map, Option.mem_toList] at mem
  rcases mem with
    (rfl | rfl | rfl | rfl | rfl | rfl | rfl | rfl | rfl | rfl | rfl) | ⟨fee, isFee, rfl⟩
  all_goals first
    | exact fits.difficulty
    | exact fits.number
    | exact baseFee fee isFee
    | simp only [length_wordBytes, length_addressBytes, maxAlloc]; omega

theorem Fits.length_sealedFields (fits : header.Fits) : header.sealedFields.length < 2 ^ 64 := by
  have count : header.sealedStrings.length ≤ 12 := by
    rcases fee : header.baseFee with _ | baseFee <;> simp [sealedStrings, fee]
  have bounded : ∀ strings : List Bytes, (∀ bytes ∈ strings, bytes.length < maxAlloc) →
      (strings.flatMap writeBytes).length ≤ strings.length * (maxAlloc + 9) := by
    intro strings
    induction strings with
    | nil => simp
    | cons first _ ih =>
      intro small
      have tail := ih fun bytes mem => small bytes (by simp [mem])
      have head := length_writeBytes_le first
      have short := small first (by simp)
      simp only [flatMap_cons, length_append, length_cons, Nat.add_mul]
      omega
  rw [sealedFields_eq fits]
  have total := bounded _ fits.sealedStrings_lt
  have scaled := Nat.mul_le_mul_right (maxAlloc + 9) count
  simp only [maxAlloc] at total scaled
  omega

theorem sameSealed_of_strings (same : header.sealedStrings = other.sealedStrings) :
    header.SameSealed other := by
  have fees : header.baseFee.toList.map digits = other.baseFee.toList.map digits := by
    simpa [sealedStrings] using congrArg (drop 11) same
  have sameFee : header.baseFee = other.baseFee := by
    have lists := map_injective_iff.mpr digits_injective fees
    rcases left : header.baseFee with _ | fee <;> rcases right : other.baseFee with _ | otherFee <;>
      simp_all
  have front := congrArg (take 11) same
  simp only [sealedStrings, cons_append, nil_append, take_succ_cons,
    take_zero, cons.injEq, and_true, wordBytes_injective.eq_iff,
    addressBytes_injective.eq_iff, Rlp.digits_injective.eq_iff] at front
  simp_all [SameSealed]

theorem sealedStrings_of_same (same : header.SameSealed other) :
    header.sealedStrings = other.sealedStrings := by
  rw [← same]
  rfl

variable [Crypto]

def CollisionFree (header other : Header) : Prop :=
  header.sealHash = other.sealHash → Rlp.list header.sealedFields = Rlp.list other.sealedFields

theorem sealHash_eq_iff (fits : header.Fits) (otherFits : other.Fits)
    (collisionFree : header.CollisionFree other) :
    header.sealHash = other.sealHash ↔ header.SameSealed other := by
  constructor
  · intro sameHash
    have sameFields := list_inj fits.length_sealedFields otherFits.length_sealedFields
      (collisionFree sameHash)
    rw [sealedFields_eq fits, sealedFields_eq otherFits] at sameFields
    apply sameSealed_of_strings
    apply flatMap_writeBytes_inj _ _ sameFields
    · intro bytes mem
      exact (fits.sealedStrings_lt bytes mem).trans (by decide)
    · intro bytes mem
      exact (otherFits.sealedStrings_lt bytes mem).trans (by decide)
  · intro same
    rw [sealHash, sealHash, sealedFields_eq fits, sealedFields_eq otherFits,
      sealedStrings_of_same same]

end Header

section

variable [Crypto]

def PowEngine.checker : PowEngine → Option PowSettings
  | alone settings => if settings.fakes then none else some settings
  | sharing settings shared => if settings.fakes then none else shared.checker

omit [Crypto] in
theorem PowEngine.verifySeal_eq [Crypto] {engine : PowEngine}
    (checks : engine.checker = some settings) (header : Header) (fulldag : Bool) :
    engine.verifySeal header fulldag = settings.verifyOwnSeal header fulldag := by
  induction engine with
  | alone =>
    simp only [checker] at checks
    split_ifs at checks with fakes
    cases checks
    simp [verifySeal, fakes]
  | sharing _ _ ih =>
    simp only [checker] at checks
    split_ifs at checks with fakes
    simp [verifySeal, fakes, ih checks]

theorem PowSettings.mixDigest_of_accepted {fulldag : Bool}
    (accepted : settings.verifyOwnSeal header fulldag = none) :
    header.mixDigest = (settings.hashimoto fulldag header).1 := by
  simp only [verifyOwnSeal] at accepted
  split_ifs at accepted with _ differs
  exact not_not.mp differs

/-- The digest of the proof of work for two seal hashes and one nonce does not
collide. -/
def PowSettings.DigestFree (settings : PowSettings) (fulldag : Bool) (header other : Header) :
    Prop :=
  (settings.hashimoto fulldag header).1 = (settings.hashimoto fulldag (other.withSealOf header)).1 →
    header.sealHash = other.sealHash

/-- Under a collision-free hash, the seal hash determines every field but nonce and mix digest,
and a seal is accepted for another header only if they agree on these fields, exactly if the
two headers do not differ in the extra data alone. -/
theorem seal_binds_iff {header other : Header} (fits : header.Fits) (otherFits : other.Fits)
    (collisionFree : header.CollisionFree other) {engine : PowEngine} {settings : PowSettings}
    (checks : engine.checker = some settings) {fulldag : Bool}
    (digestFree : settings.DigestFree fulldag header other) :
    ((header.sealHash = other.sealHash → header.SameBesidesSeal other) ∧
      (engine.verifySeal header fulldag = none →
        engine.verifySeal (other.withSealOf header) fulldag = none →
        header.SameBesidesSeal other)) ↔
    (header.SameSealed other → header.extra = other.extra) := by
  have sameHash := Header.sealHash_eq_iff fits otherFits collisionFree
  constructor
  · rintro ⟨determined, -⟩ same
    exact (Header.sameBesidesSeal_iff.mp (determined (sameHash.mpr same))).2
  · intro sameExtra
    have determined : header.sealHash = other.sealHash → header.SameBesidesSeal other := by
      intro same
      have fields := sameHash.mp same
      exact Header.sameBesidesSeal_iff.mpr ⟨fields, sameExtra fields⟩
    refine ⟨determined, ?_⟩
    intro accepted transplanted
    rw [PowEngine.verifySeal_eq checks] at accepted transplanted
    apply determined
    apply digestFree
    have own := PowSettings.mixDigest_of_accepted accepted
    have others := PowSettings.mixDigest_of_accepted transplanted
    rw [← own, ← others]
    rfl

end

/-- Two headers with one seal hash, and a seal that is accepted for both, that
differ in the extra data. -/
theorem extra_data_unsealed :
    letI := sampleCrypto
    feelessHeader.sealHash = ({ feelessHeader with extra := [1] } : Header).sealHash ∧
    plainEngine.verifySeal feelessHeader false = none ∧
    plainEngine.verifySeal
      (({ feelessHeader with extra := [1] } : Header).withSealOf feelessHeader) false = none ∧
    ¬ feelessHeader.SameBesidesSeal { feelessHeader with extra := [1] } := by
  refine ⟨rfl, by decide, by decide, by decide⟩

theorem sample_seal_binds_iff :
    letI := sampleCrypto
    ∃ settings, plainEngine.checker = some settings ∧ feelessHeader.Fits ∧
      (feelessHeader.sealHash = ({ feelessHeader with nonce := 7 } : Header).sealHash →
        feelessHeader.SameBesidesSeal { feelessHeader with nonce := 7 }) := by
  let := sampleCrypto
  have fits : feelessHeader.Fits := by
    refine ⟨by decide, by decide, by decide, by decide, by decide, ?_⟩
    rintro _ ⟨⟩
  have otherFits : ({ feelessHeader with nonce := 7 } : Header).Fits :=
    ⟨fits.gasLimit, fits.gasUsed, fits.time, fits.difficulty, fits.number, fits.baseFee⟩
  have checks : plainEngine.checker = some plainEngine.settings := rfl
  have digestFree : plainEngine.settings.DigestFree false feelessHeader
      { feelessHeader with nonce := 7 } := fun _ => rfl
  refine ⟨_, checks, fits, ?_⟩
  exact ((seal_binds_iff fits otherFits (fun _ => rfl) checks digestFree).mpr fun _ => rfl).1

def Header.withSeal (header : Header) (nonce : BitVec 64) (mixDigest : Hash) : Header :=
  { header with nonce, mixDigest }

def Block.withSeal (block : Block) (header : Header) : Block :=
  { block with header }

section

variable [Crypto]

namespace PowSettings

variable (settings : PowSettings) (header : Header)

def full (nonce : BitVec 64) : Hash × Hash :=
  settings.hashimotoFull header.numberU64 header.sealHash nonce

def meets (nonce : BitVec 64) : Bool :=
  (settings.full header nonce).2.toNat ≤ 2 ^ 256 / header.difficulty

/-- The loop of `mine`, with the attempts that it makes before it is aborted. -/
def search (nonce : BitVec 64) : Nat → Option Header
  | 0 => none
  | attempts + 1 =>
    if settings.meets header nonce then
      some (header.withSeal nonce (settings.full header nonce).1)
    else search (nonce + 1) attempts

def mine (block : Block) (seed : BitVec 64) (attempts : Nat) : Except Fault (Option Block) :=
  if block.header.difficulty = 0 then .error (.panic "division by zero")
  else .ok ((settings.search block.header seed attempts).map block.withSeal)

theorem search_eq (seed : BitVec 64) (attempts : Nat) :
    settings.search header seed attempts =
      (((range attempts).map fun tried => seed + BitVec.ofNat 64 tried).find?
        (settings.meets header)).map fun nonce =>
          header.withSeal nonce (settings.full header nonce).1 := by
  induction attempts generalizing seed with
  | zero => rfl
  | succ attempts ih =>
    have later : (fun tried => seed + BitVec.ofNat 64 tried) ∘ Nat.succ =
        fun tried => seed + 1 + BitVec.ofNat 64 tried := by
      funext tried
      rw [Function.comp_apply, Nat.succ_eq_one_add, BitVec.ofNat_add, ← BitVec.add_assoc]
      rfl
    rw [range_succ_eq_map, map_cons, map_map, later, search, find?_cons]
    by_cases good : settings.meets header seed <;> simp [good, ih]

variable {settings header}

theorem verifyOwnSeal_withSeal (agree : settings.hashimotoFull = settings.hashimotoLight)
    {nonce : BitVec 64} {mixDigest : Hash} (fulldag : Bool) :
    settings.verifyOwnSeal (header.withSeal nonce mixDigest) fulldag = none ↔
      header.difficulty ≠ 0 ∧ mixDigest = (settings.full header nonce).1 ∧
        settings.meets header nonce := by
  have computed : settings.hashimoto fulldag (header.withSeal nonce mixDigest) =
      settings.full header nonce := by
    rw [hashimoto, ← agree, ite_self]
    rfl
  simp only [verifyOwnSeal, computed, meets, decide_eq_true_eq]
  constructor
  · intro accepted
    split_ifs at accepted with zero differs above
    exact ⟨zero, not_not.mp differs, Nat.not_lt.mp above⟩
  · rintro ⟨zero, same, good⟩
    exact (if_neg zero).trans ((if_neg (not_not.mpr same)).trans (if_neg (Nat.not_lt.mpr good)))

end PowSettings

namespace PowEngine

/-- The local part of `Seal`, up to the result of the thread that finds a nonce first, or has
made the most attempts when all are aborted.  The remote sealer, to which `Seal` also hands
the block, is left out: it delivers what miners elsewhere submit. -/
def localSeal (block : Block) (seed : BitVec 64) (attempts : Nat) :
    PowEngine → Except Fault (Option Block)
  | alone settings =>
    if settings.fakes then .ok (some (block.withSeal (block.header.withSeal 0 0)))
    else settings.mine block seed attempts
  | sharing settings shared =>
    if settings.fakes then .ok (some (block.withSeal (block.header.withSeal 0 0)))
    else localSeal block seed attempts shared

theorem localSeal_eq (engine : PowEngine) (block : Block) (seed : BitVec 64) (attempts : Nat) :
    engine.localSeal block seed attempts =
      engine.checker.elim (.ok (some (block.withSeal (block.header.withSeal 0 0))))
        fun settings => settings.mine block seed attempts := by
  induction engine with
  | alone settings => by_cases fakes : settings.fakes <;> simp [localSeal, checker, fakes]
  | sharing settings _ ih => by_cases fakes : settings.fakes <;> simp [localSeal, checker, fakes, ih]

theorem verifySeal_of_fake {engine : PowEngine} (fake : engine.checker = none) (header : Header)
    (nonce : BitVec 64) (mixDigest : Hash) (fulldag : Bool) :
    engine.verifySeal (header.withSeal nonce mixDigest) fulldag =
      engine.verifySeal header fulldag := by
  induction engine with
  | alone settings =>
    have fakes : settings.fakes := by simpa [checker] using fake
    simp only [verifySeal, fakes]
    rfl
  | sharing settings _ ih =>
    by_cases fakes : settings.fakes
    · simp only [verifySeal, fakes]
      rfl
    · simp [verifySeal, fakes, ih (by simpa [checker, fakes] using fake)]

/-- A block that was sealed locally is the block with another seal, and its engine accepts it,
with the dataset and without, unless it fakes its checks.  No block is found exactly if no
seal with one of the nonces that were tried is accepted. -/
theorem localSeal_verifies {engine : PowEngine} (agree : ∀ settings,
      engine.checker = some settings → settings.hashimotoFull = settings.hashimotoLight)
    (block : Block) (seed : BitVec 64) (attempts : Nat) :
    (∀ found, engine.localSeal block seed attempts = .ok (some found) →
      ∃ nonce mixDigest, found = block.withSeal (block.header.withSeal nonce mixDigest) ∧
        ∀ fulldag, engine.verifySeal found.header fulldag =
          if engine.checker = none then engine.verifySeal block.header fulldag else none) ∧
    (engine.localSeal block seed attempts = .ok none ↔ engine.checker ≠ none ∧
      block.header.difficulty ≠ 0 ∧ ∀ tried < attempts, ∀ mixDigest fulldag,
        engine.verifySeal (block.header.withSeal (seed + BitVec.ofNat 64 tried) mixDigest)
          fulldag ≠ none) := by
  rw [localSeal_eq]
  cases checks : engine.checker with
  | none =>
    refine ⟨?_, by simp⟩
    rintro _ ⟨⟩
    exact ⟨0, 0, rfl, verifySeal_of_fake checks block.header 0 0⟩
  | some settings =>
    have own := @PowSettings.verifyOwnSeal_withSeal _ _ block.header (agree settings checks)
    simp only [verifySeal_eq checks, Option.elim, PowSettings.mine]
    by_cases zero : block.header.difficulty = 0
    · simp [zero]
    rw [if_neg zero, PowSettings.search_eq]
    constructor
    · intro found sealed
      simp only [Except.ok.injEq, Option.map_eq_some_iff] at sealed
      rcases sealed with ⟨_, ⟨nonce, searched, rfl⟩, rfl⟩
      refine ⟨nonce, _, rfl, fun fulldag => ?_⟩
      simpa [Block.withSeal] using (own fulldag).mpr ⟨zero, rfl, find?_some searched⟩
    · simp [own, zero]

end PowEngine

end

theorem sample_sealed :
    letI := sampleCrypto
    ∃ found, plainEngine.localSeal { header := feelessHeader } 5 1 = .ok (some found) ∧
      plainEngine.verifySeal found.header true = none := by
  let crypto := sampleCrypto
  have agree : ∀ settings, plainEngine.checker = some settings →
      settings.hashimotoFull = settings.hashimotoLight := by
    rintro _ ⟨⟩
    rfl
  have ran : plainEngine.localSeal { header := feelessHeader } 5 1 =
      .ok (some { header := feelessHeader.withSeal 5 0 }) := rfl
  rcases (PowEngine.localSeal_verifies agree { header := feelessHeader } 5 1).1 _ ran with
    ⟨_, _, -, verifies⟩
  exact ⟨_, ran, verifies true⟩

end Octopus
