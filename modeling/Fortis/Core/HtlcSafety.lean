import Fortis.Core.Htlc

/-!
# Who can spend a contract

Consensus' check of an input that spends a contract's output, for an arbitrary
witness.  Both scripts are taken apart branch by branch; an accepted witness
redeems with the secret, refunds after the lock time, or, in the second
version, carries both signatures.
-/

namespace Fortis.Core

open Lib Lib.Script List HtlcContract

section

variable (crypto : Crypto) (tx : Transaction) (index : Nat) (prevout : TxOut)

def spendContext (scriptCode : Bytes) (sequence : Nat) : Spend where
  sha256 item := (crypto.sha256 item).val
  hash160 item := (crypto.hash160 item).val
  checkSig := crypto.checkSig tx index prevout scriptCode
  lockTime := tx.lockTime
  sequence := sequence

/-- The pay-to-witness-script-hash check of input `index` of `tx`, which spends `prevout`. -/
def inputAccepted : Bool :=
  match tx.input[index]?, prevout.scriptPubkey with
  | some input, 0 :: 32 :: program =>
    program.length == 32 && input.scriptSig == [] &&
      accepts (spendContext crypto tx index prevout (input.witness.getLastD []) input.sequence)
        program input.witness
  | _, _ => false

end

structure CollisionFree (crypto : Crypto) (items : List Bytes) : Prop where
  sha256 : ∀ first ∈ items, ∀ second ∈ items,
    crypto.sha256 first = crypto.sha256 second → first = second
  hash160 : ∀ first ∈ items, ∀ second ∈ items,
    crypto.hash160 first = crypto.hash160 second → first = second

def redeemCode (crypto : Crypto) (hashlock : Fixed 32) (redeemPubkey : PublicKey) : Code :=
  .preimage 32 hashlock.val (.keyHash (crypto.pubkeyHash redeemPubkey).val)

def refundCode (crypto : Crypto) (locktime : Nat) (refundPubkey : PublicKey) : Code :=
  .after locktime (.keyHash (crypto.pubkeyHash refundPubkey).val)

def releaseCode (redeemPubkey refundPubkey : PublicKey) : Code :=
  .bothKeys refundPubkey.serialize.val redeemPubkey.serialize.val

section

variable (crypto : Crypto) (hashlock : Fixed 32) (redeemPubkey refundPubkey : PublicKey)
  (locktime : Nat)

/-- The first version: the branches stop at the key hash, the check follows both. -/
def contractCode : Code :=
  let hashOf (key : PublicKey) : Code :=
    .op .dup <| .op .hash160 <| .op (.push (crypto.pubkeyHash key).val) .done
  .branch (.preimage 32 hashlock.val (hashOf redeemPubkey)) (.after locktime (hashOf refundPubkey))
    (.op .equalVerify <| .op .checkSig .done)

def contractCodeV2 : Code :=
  .branch (redeemCode crypto hashlock redeemPubkey)
    (.branch (refundCode crypto locktime refundPubkey) (releaseCode redeemPubkey refundPubkey)
      .done)
    .done

end

section Structure

variable (crypto : Crypto) (hashlock : Fixed 32) (redeemPubkey refundPubkey : PublicKey)
variable (locktime : Nat)

theorem contractTokens_flatten :
    (contractTokens crypto hashlock redeemPubkey refundPubkey locktime).map Token.instr =
      (contractCode crypto hashlock redeemPubkey refundPubkey locktime).flatten :=
  rfl

theorem contractTokensV2_flatten :
    (contractTokensV2 crypto hashlock redeemPubkey refundPubkey locktime).map Token.instr =
      (contractCodeV2 crypto hashlock redeemPubkey refundPubkey locktime).flatten :=
  rfl

theorem contractTokens_direct {locktime : Nat} (u32 : locktime < u32Size) :
    ∀ token ∈ contractTokens crypto hashlock redeemPubkey refundPubkey locktime, token.Direct := by
  have bound : locktime < 4294967296 := u32
  simp [contractTokens, opIf, opElse, opEndif, opSize, opEqualverify, opSha256, opDup, opHash160,
    opCltv, opDrop, opChecksig, Token.Direct, hashlock.property,
    (crypto.pubkeyHash redeemPubkey).property, (crypto.pubkeyHash refundPubkey).property, bound]

theorem contractTokensV2_direct {locktime : Nat} (u32 : locktime < u32Size) :
    ∀ token ∈ contractTokensV2 crypto hashlock redeemPubkey refundPubkey locktime,
      token.Direct := by
  have bound : locktime < 4294967296 := u32
  simp [contractTokensV2, opIf, opElse, opEndif, opSize, opEqualverify, opSha256, opDup, opHash160,
    opCltv, opDrop, opChecksig, opChecksigverify, Token.Direct, hashlock.property,
    (crypto.pubkeyHash redeemPubkey).property, (crypto.pubkeyHash refundPubkey).property,
    redeemPubkey.serialize.property, refundPubkey.serialize.property, bound]

end Structure

section Injective

variable {crypto : Crypto} {hashlock hashlock' : Fixed 32} {locktime locktime' : Nat}
variable {redeemPubkey redeemPubkey' refundPubkey refundPubkey' : PublicKey}

section Locktimes

variable (u32 : locktime < u32Size) (u32' : locktime' < u32Size)

include u32 u32'

theorem contractScript_injective
    (same : contractScript crypto hashlock redeemPubkey refundPubkey locktime =
        contractScript crypto hashlock' redeemPubkey' refundPubkey' locktime' ∨
      contractScriptV2 crypto hashlock redeemPubkey refundPubkey locktime =
        contractScriptV2 crypto hashlock' redeemPubkey' refundPubkey' locktime') :
    hashlock = hashlock' ∧ locktime = locktime' ∧
      crypto.pubkeyHash redeemPubkey = crypto.pubkeyHash redeemPubkey' ∧
        crypto.pubkeyHash refundPubkey = crypto.pubkeyHash refundPubkey' := by
  rcases same with v1 | v2
  · have instrs := build_injective
      (contractTokens_direct crypto hashlock redeemPubkey refundPubkey u32)
      (contractTokens_direct crypto hashlock' redeemPubkey' refundPubkey' u32') v1
    simp only [contractTokens, map_cons, Token.instr, cons.injEq, Instr.op.injEq,
      Op.push.injEq] at instrs
    obtain ⟨_, _, _, _, _, lock, _, _, _, redeem, _, time, _, _, _, _, refund, _⟩ := instrs
    exact ⟨Subtype.ext lock, encodeNum_injective u32 u32' time, Subtype.ext redeem,
      Subtype.ext refund⟩
  have instrs := build_injective
    (contractTokensV2_direct crypto hashlock redeemPubkey refundPubkey u32)
    (contractTokensV2_direct crypto hashlock' redeemPubkey' refundPubkey' u32') v2
  simp only [contractTokensV2, map_cons, Token.instr, cons.injEq, Instr.op.injEq,
    Op.push.injEq] at instrs
  obtain ⟨_, _, _, _, _, lock, _, _, _, redeem, _, _, _, _, time, _, _, _, _, refund, _⟩ := instrs
  exact ⟨Subtype.ext lock, encodeNum_injective u32 u32' time, Subtype.ext redeem,
    Subtype.ext refund⟩

theorem contractScript_ne_contractScriptV2 :
    contractScript crypto hashlock redeemPubkey refundPubkey locktime ≠
      contractScriptV2 crypto hashlock' redeemPubkey' refundPubkey' locktime' := by
  intro same
  have instrs := build_injective
    (contractTokens_direct crypto hashlock redeemPubkey refundPubkey u32)
    (contractTokensV2_direct crypto hashlock' redeemPubkey' refundPubkey' u32') same
  have lengths := congrArg length instrs
  simp [contractTokens, contractTokensV2] at lengths

end Locktimes

/-- The script of a contract tells its version, hashlock, lock time and key hashes. -/
theorem tryBuild_script_injective {params params' : ChainParams} {version version' : Nat}
    {value value' : Nat} {contract contract' : HtlcContract}
    (built : HtlcContract.tryBuild crypto params version hashlock redeemPubkey refundPubkey
      locktime value = .ok contract)
    (built' : HtlcContract.tryBuild crypto params' version' hashlock' redeemPubkey' refundPubkey'
      locktime' value' = .ok contract') (u32 : locktime < u32Size) (u32' : locktime' < u32Size)
    (same : contract.witnessScript = contract'.witnessScript) :
    version = version' ∧ hashlock = hashlock' ∧ locktime = locktime' ∧
      crypto.pubkeyHash redeemPubkey = crypto.pubkeyHash redeemPubkey' ∧
        crypto.pubkeyHash refundPubkey = crypto.pubkeyHash refundPubkey' := by
  rcases tryBuild_script built with ⟨v1, script⟩ | ⟨v2, script⟩ <;>
    rcases tryBuild_script built' with ⟨v1', script'⟩ | ⟨v2', script'⟩ <;>
    rw [script, script'] at same
  · exact ⟨v1.trans v1'.symm, contractScript_injective u32 u32' (.inl same)⟩
  · exact absurd same (contractScript_ne_contractScriptV2 u32 u32')
  · exact absurd same.symm (contractScript_ne_contractScriptV2 u32' u32)
  · exact ⟨v2.trans v2'.symm, contractScript_injective u32 u32' (.inr same)⟩

end Injective

section Branches

variable {crypto : Crypto} {hashlock : Fixed 32} {redeemPubkey refundPubkey : PublicKey}
variable {locktime : Nat} {spend : Spend}

variable {stack : List Item}

theorem succeeds_redeemCode : (redeemCode crypto hashlock redeemPubkey).Succeeds spend stack ↔
      ∃ secret key sig, stack = [secret, key, sig] ∧ encodeNum 32 = encodeNum secret.length ∧
        hashlock.val = spend.sha256 secret ∧
          (crypto.pubkeyHash redeemPubkey).val = spend.hash160 key ∧
            spend.checkSig sig key = true := by
  have short : hashlock.val.length ≤ maxItem := by simp [hashlock.property, maxItem]
  have short' : (crypto.pubkeyHash redeemPubkey).val.length ≤ maxItem := by
    simp [(crypto.pubkeyHash redeemPubkey).property, maxItem]
  unfold redeemCode
  rw [Code.succeeds_preimage (by decide) short]
  simp only [Code.succeeds_keyHash short']
  constructor
  · rintro ⟨secret, below, rfl, _, sized, opens, key, sig, rfl, paid, signed⟩
    exact ⟨secret, key, sig, rfl, sized, opens, paid, signed⟩
  rintro ⟨secret, key, sig, rfl, sized, opens, paid, signed⟩
  exact ⟨secret, [key, sig], rfl, by simp [maxStack], sized, opens, key, sig, rfl, paid, signed⟩

theorem succeeds_refundCode (u32 : locktime < u32Size) :
    (refundCode crypto locktime refundPubkey).Succeeds spend stack ↔
      spend.reached locktime = true ∧ ∃ key sig, stack = [key, sig] ∧
        (crypto.pubkeyHash refundPubkey).val = spend.hash160 key ∧
          spend.checkSig sig key = true := by
  have short : (crypto.pubkeyHash refundPubkey).val.length ≤ maxItem := by
    simp [(crypto.pubkeyHash refundPubkey).property, maxItem]
  unfold refundCode
  rw [Code.succeeds_after u32]
  simp only [Code.succeeds_keyHash short]
  constructor
  · rintro ⟨_, reached, key, sig, rfl, paid, signed⟩
    exact ⟨reached, key, sig, rfl, paid, signed⟩
  rintro ⟨reached, key, sig, rfl, paid, signed⟩
  exact ⟨by simp [maxStack], reached, key, sig, rfl, paid, signed⟩

theorem succeeds_releaseCode : (releaseCode redeemPubkey refundPubkey).Succeeds spend stack ↔
      ∃ refundSig redeemSig, stack = [refundSig, redeemSig] ∧
        spend.checkSig refundSig refundPubkey.serialize.val = true ∧
          spend.checkSig redeemSig redeemPubkey.serialize.val = true :=
  Code.succeeds_bothKeys (by simp [refundPubkey.serialize.property, maxItem])
    (by simp [redeemPubkey.serialize.property, maxItem]) stack

/-- What a stack under a contract's script must do: any true item on top takes the redeem
branch. -/
def Opens (crypto : Crypto) (version : Nat) (hashlock : Fixed 32)
    (redeemPubkey refundPubkey : PublicKey) (locktime : Nat) (spend : Spend)
    (stack : List Item) : Prop :=
  ∃ top below, stack = top :: below ∧
    if castToBool top then (redeemCode crypto hashlock redeemPubkey).Succeeds spend below
    else if version = contractV1 then
      (refundCode crypto locktime refundPubkey).Succeeds spend below
    else ∃ inner rest, below = inner :: rest ∧
      if castToBool inner then (refundCode crypto locktime refundPubkey).Succeeds spend rest
      else (releaseCode redeemPubkey refundPubkey).Succeeds spend rest

theorem succeeds_contractCode :
    (contractCode crypto hashlock redeemPubkey refundPubkey locktime).Succeeds spend stack ↔
      Opens crypto contractV1 hashlock redeemPubkey refundPubkey locktime spend stack :=
  Code.succeeds_branch

theorem succeeds_contractCodeV2 :
    (contractCodeV2 crypto hashlock redeemPubkey refundPubkey locktime).Succeeds spend stack ↔
      Opens crypto contractV2 hashlock redeemPubkey refundPubkey locktime spend stack := by
  refine Code.succeeds_branch.trans (exists_congr fun top => exists_congr fun below => ?_)
  refine and_congr_right fun _ => iff_of_eq (if_congr Iff.rfl rfl ?_)
  exact propext Code.succeeds_branch

theorem runScript_tryBuild {params : ChainParams} {version value : Nat} {contract : HtlcContract}
    (built : HtlcContract.tryBuild crypto params version hashlock redeemPubkey refundPubkey locktime
      value = .ok contract) (u32 : locktime < u32Size) (stack : List Item) :
    runScript spend contract.witnessScript stack = true ↔
      (∀ item ∈ stack, item.length ≤ maxItem) ∧ stack.length ≤ maxStack ∧
        Opens crypto version hashlock redeemPubkey refundPubkey locktime spend stack := by
  unfold tryBuild at built
  split at built
  next v1 =>
    cases built
    rw [v1, ← succeeds_contractCode]
    exact runScript_build (contractTokens_direct crypto hashlock redeemPubkey refundPubkey u32)
      (contractTokens_flatten crypto hashlock redeemPubkey refundPubkey locktime)
      (by simp [contractTokens]) stack
  next =>
  split at built
  next v2 =>
    cases built
    rw [v2, ← succeeds_contractCodeV2]
    exact runScript_build (contractTokensV2_direct crypto hashlock redeemPubkey refundPubkey u32)
      (contractTokensV2_flatten crypto hashlock redeemPubkey refundPubkey locktime)
      (by simp [contractTokensV2]) stack
  next => cases built

end Branches

/-! ## Spends -/

namespace HtlcContract

variable (contract : HtlcContract)

/-- `sig` is a valid signature of `key` for spending the contract with input `index` of `tx`. -/
def Signed (crypto : Crypto) (tx : Transaction) (index : Nat)
    (key : PublicKey) (sig : Bytes) : Prop :=
  sig.length ≤ maxItem ∧ crypto.checkSig tx index contract.fundingOutput contract.witnessScript sig
      key.serialize.val = true

/-- The lock time of `tx` has reached the contract's, and the input's sequence does not disable
it. -/
def Reached (tx : Transaction) (input : TxIn) : Prop :=
  contract.locktime ≤ tx.lockTime ∧
    (contract.locktime < lockTimeThreshold ↔ tx.lockTime < lockTimeThreshold) ∧
      input.sequence ≠ finalSequence

/-- Input `index` of `tx` shows a preimage of the hashlock and a signature of the redeem key. -/
def Redeemed (crypto : Crypto) (redeemPubkey : PublicKey)
    (tx : Transaction) (index : Nat) (input : TxIn) (preimage : Fixed 32) : Prop :=
  preimage.val ∈ input.witness ∧ crypto.sha256 preimage.val = contract.hashlock ∧
    ∃ sig ∈ input.witness, contract.Signed crypto tx index redeemPubkey sig

def Refunded (crypto : Crypto) (refundPubkey : PublicKey)
    (tx : Transaction) (index : Nat) (input : TxIn) : Prop :=
  contract.Reached tx input ∧
    ∃ sig ∈ input.witness, contract.Signed crypto tx index refundPubkey sig

def Released (crypto : Crypto) (redeemPubkey refundPubkey : PublicKey)
    (tx : Transaction) (index : Nat) (input : TxIn) : Prop :=
  (∃ sig ∈ input.witness, contract.Signed crypto tx index redeemPubkey sig) ∧
    ∃ sig ∈ input.witness, contract.Signed crypto tx index refundPubkey sig

end HtlcContract

/-- Among items that do not collide the search finds the preimage itself. -/
theorem preimageFromWitness_eq {crypto : Crypto} {witness : Witness} {hashlock preimage : Fixed 32}
    (unique : ∀ first ∈ witness, ∀ second ∈ witness,
      crypto.sha256 first = crypto.sha256 second → first = second)
    (shown : preimage.val ∈ witness) (opens : crypto.sha256 preimage.val = hashlock) :
    preimageFromWitness crypto witness hashlock = some preimage := by
  have candidate : preimage ∈ witness.filterMap (Fixed.ofBytes? 32) :=
    mem_filterMap.mpr ⟨preimage.val, shown, Fixed.ofBytes?_val preimage⟩
  unfold preimageFromWitness
  rcases search : find? _ (witness.filterMap (Fixed.ofBytes? 32)) with _ | found
  · have missed := find?_eq_none.mp search preimage candidate
    exact absurd (by simpa using opens) missed
  have hashed : crypto.sha256 found.val = hashlock := by
    simpa using find?_some search
  obtain ⟨item, mem, converted⟩ := mem_filterMap.mp (mem_of_find?_eq_some search)
  have item_eq : found.val = item := Fixed.ofBytes?_eq_some_iff.mp converted
  have same := unique _ (item_eq ▸ mem) _ shown (hashed.trans opens.symm)
  rw [Subtype.ext same]

section Spends

variable {crypto : Crypto} {params : ChainParams} {version value locktime : Nat}
variable {hashlock : Fixed 32} {redeemPubkey refundPubkey : PublicKey} {contract : HtlcContract}
variable {tx : Transaction} {index : Nat} {input : TxIn}
variable (built : HtlcContract.tryBuild crypto params version hashlock redeemPubkey refundPubkey
  locktime value = .ok contract)
variable (u32 : locktime < u32Size)
variable (spends : tx.input[index]? = some input)

include built spends in
/-- Consensus on a contract's output: the revealed script has its hash and runs on the rest of
the witness. -/
theorem inputAccepted_tryBuild : inputAccepted crypto tx index contract.fundingOutput = true ↔
      input.scriptSig = [] ∧ ∃ script stack, input.witness = stack.reverse ++ [script] ∧
        crypto.sha256 script = crypto.sha256 contract.witnessScript ∧
          runScript (spendContext crypto tx index contract.fundingOutput script input.sequence)
            script stack = true := by
  have program := (tryBuild_fields built).scriptPubkey_eq
  have size : (crypto.sha256 contract.witnessScript).val.length = 32 :=
    (crypto.sha256 contract.witnessScript).property
  have output : contract.fundingOutput.scriptPubkey =
      0 :: 32 :: (crypto.sha256 contract.witnessScript).val := program
  simp only [inputAccepted, spends, output, size, beq_self_eq_true, Bool.true_and,
    Bool.and_eq_true, beq_iff_eq, accepts_iff]
  refine and_congr_right fun _ => exists_congr fun script => exists_congr fun stack => ?_
  refine and_congr_right fun shape => and_congr Subtype.ext_iff.symm ?_
  rw [shape, getLastD_concat]

section Cases

variable {stack : List Item}
variable (free : CollisionFree crypto (contract.witnessScript :: redeemPubkey.serialize.val ::
  refundPubkey.serialize.val :: input.witness))
variable (shown : ∀ item ∈ stack, item ∈ input.witness)
variable (sizes : ∀ item ∈ stack, item.length ≤ maxItem)

include free shown sizes

theorem redeemed_of_succeeds (ran : (redeemCode crypto contract.hashlock redeemPubkey).Succeeds
      (spendContext crypto tx index contract.fundingOutput contract.witnessScript input.sequence)
      stack) : ∃ preimage, contract.Redeemed crypto redeemPubkey tx index input preimage ∧
      preimageFromWitness crypto input.witness contract.hashlock = some preimage := by
  obtain ⟨secret, key, sig, rfl, sized, opens, paid, signed⟩ := succeeds_redeemCode.mp ran
  have secretSize : secret.length ≤ maxItem := sizes secret (by simp)
  have length : secret.length = 32 :=
    (encodeNum_injective (by decide) (Nat.lt_of_le_of_lt secretSize (by decide)) sized).symm
  have inWitness : secret ∈ input.witness := shown secret (by simp)
  have opened : crypto.sha256 secret = contract.hashlock := (Subtype.ext opens).symm
  have isKey : key = redeemPubkey.serialize.val :=
    free.hash160 _ (by simp [shown key (by simp)]) _ (by simp) (Subtype.ext paid).symm
  refine ⟨⟨secret, length⟩, ⟨inWitness, opened, sig, shown sig (by simp), ?_⟩, ?_⟩
  · exact ⟨sizes sig (by simp), isKey ▸ signed⟩
  refine preimageFromWitness_eq (fun first mem second member' => ?_) inWitness opened
  exact free.sha256 first (by simp [mem]) second (by simp [member'])

theorem refunded_of_succeeds (u32 : contract.locktime < u32Size)
    (ran : (refundCode crypto contract.locktime refundPubkey).Succeeds
      (spendContext crypto tx index contract.fundingOutput contract.witnessScript input.sequence)
      stack) : contract.Refunded crypto refundPubkey tx index input := by
  obtain ⟨reached, key, sig, rfl, paid, signed⟩ := (succeeds_refundCode u32).mp ran
  have isKey : key = refundPubkey.serialize.val :=
    free.hash160 _ (by simp [shown key (by simp)]) _ (by simp) (Subtype.ext paid).symm
  exact ⟨Spend.reached_iff.mp reached, sig, shown sig (by simp), sizes sig (by simp),
    isKey ▸ signed⟩

omit free in
theorem released_of_succeeds (ran : (releaseCode redeemPubkey refundPubkey).Succeeds
      (spendContext crypto tx index contract.fundingOutput contract.witnessScript input.sequence)
      stack) : contract.Released crypto redeemPubkey refundPubkey tx index input := by
  obtain ⟨refundSig, redeemSig, rfl, refundSigned, redeemSigned⟩ := succeeds_releaseCode.mp ran
  exact ⟨⟨redeemSig, shown _ (by simp), sizes _ (by simp), redeemSigned⟩,
    refundSig, shown _ (by simp), sizes _ (by simp), refundSigned⟩

end Cases

include built u32 spends in
/-- A contract's output is spent only by a redeem, a refund or, in the second version, a
release. -/
theorem spent_cases
    (free : CollisionFree crypto (contract.witnessScript :: redeemPubkey.serialize.val ::
      refundPubkey.serialize.val :: input.witness))
    (accepted : inputAccepted crypto tx index contract.fundingOutput = true) :
    (∃ preimage, contract.Redeemed crypto redeemPubkey tx index input preimage ∧
        preimageFromWitness crypto input.witness contract.hashlock = some preimage) ∨
      contract.Refunded crypto refundPubkey tx index input ∨ (version = contractV2 ∧
          contract.Released crypto redeemPubkey refundPubkey tx index input) := by
  have fields := tryBuild_fields built
  obtain ⟨_, script, stack, shape, hashed, ran⟩ := (inputAccepted_tryBuild built spends).mp accepted
  have shown : ∀ item ∈ stack, item ∈ input.witness := by
    intro item mem
    rw [shape]
    exact mem_append_left _ (mem_reverse.mpr mem)
  have same : script = contract.witnessScript :=
    free.sha256 _ (by simp [shape]) _ mem_cons_self hashed
  subst same
  obtain ⟨sizes, _, top, below, rfl, opened⟩ := (runScript_tryBuild built u32 stack).mp ran
  have shownBelow := (forall_mem_cons.mp shown).2
  have sizesBelow := (forall_mem_cons.mp sizes).2
  rw [← fields.hashlock_eq, ← fields.locktime_eq] at opened
  rw [← fields.locktime_eq] at u32
  split at opened
  next => exact .inl (redeemed_of_succeeds free shownBelow sizesBelow opened)
  next =>
  split at opened
  next => exact .inr (.inl (refunded_of_succeeds free shownBelow sizesBelow u32 opened))
  next notV1 =>
  have v2 : version = contractV2 := fields.known.resolve_left notV1
  obtain ⟨inner, rest, rfl, opened⟩ := opened
  have shownRest := (forall_mem_cons.mp shownBelow).2
  have sizesRest := (forall_mem_cons.mp sizesBelow).2
  split at opened
  next => exact .inr (.inl (refunded_of_succeeds free shownRest sizesRest u32 opened))
  next => exact .inr (.inr ⟨v2, released_of_succeeds shownRest sizesRest opened⟩)

/-! ## The built witnesses -/

section

variable (native : input.scriptSig = [])

include built u32 spends native

theorem redeemWitness_accepted {sig : Bytes} {preimage : Fixed 32}
    (carried : input.witness = redeemWitness sig redeemPubkey preimage contract.witnessScript)
    (opens : crypto.sha256 preimage.val = contract.hashlock)
    (signed : contract.Signed crypto tx index redeemPubkey sig) :
    inputAccepted crypto tx index contract.fundingOutput = true := by
  refine (inputAccepted_tryBuild built spends).mpr ⟨native, contract.witnessScript,
    [[1], preimage.val, redeemPubkey.serialize.val, sig], carried, rfl, ?_⟩
  refine (runScript_tryBuild built u32 _).mpr ⟨?_, by simp [maxStack], [1], _, rfl, ?_⟩
  · simpa [preimage.property, redeemPubkey.serialize.property, maxItem] using signed.1
  rw [if_pos (show castToBool [1] = true from rfl), ← (tryBuild_fields built).hashlock_eq,
    succeeds_redeemCode]
  exact ⟨preimage.val, redeemPubkey.serialize.val, sig, rfl, by rw [preimage.property],
    congrArg Subtype.val opens.symm, rfl, signed.2⟩

theorem refundWitness_accepted {sig : Bytes} (carried : input.witness =
      refundWitness contract.version sig refundPubkey.serialize.val contract.witnessScript)
    (reached : contract.Reached tx input)
    (signed : contract.Signed crypto tx index refundPubkey sig) :
    inputAccepted crypto tx index contract.fundingOutput = true := by
  have fields := tryBuild_fields built
  have ran : (refundCode crypto locktime refundPubkey).Succeeds
      (spendContext crypto tx index contract.fundingOutput contract.witnessScript input.sequence)
      [refundPubkey.serialize.val, sig] :=
    (succeeds_refundCode u32).mpr ⟨Spend.reached_iff.mpr (fields.locktime_eq ▸ reached),
      refundPubkey.serialize.val, sig, rfl, rfl, signed.2⟩
  rw [inputAccepted_tryBuild built spends]
  rcases fields.known with v1 | v2
  · refine ⟨native, contract.witnessScript, [[], refundPubkey.serialize.val, sig], ?_, rfl, ?_⟩
    · rw [carried, fields.version_eq, v1]
      rfl
    refine (runScript_tryBuild built u32 _).mpr ⟨?_, by simp [maxStack], [], _, rfl, ?_⟩
    · simpa [refundPubkey.serialize.property, maxItem] using signed.1
    rw [if_neg (by decide), if_pos v1]
    exact ran
  refine ⟨native, contract.witnessScript, [[], [1], refundPubkey.serialize.val, sig], ?_, rfl, ?_⟩
  · rw [carried, fields.version_eq, v2]
    rfl
  refine (runScript_tryBuild built u32 _).mpr ⟨?_, by simp [maxStack], [], _, rfl, ?_⟩
  · simpa [refundPubkey.serialize.property, maxItem] using signed.1
  rw [if_neg (by decide), if_neg (by rw [v2]; decide)]
  exact ⟨[1], _, rfl, ran⟩

omit spends native in
theorem releaseWitness_runs {redeemSig refundSig : Bytes} (release : contract.hasRelease = true)
    (redeemSigned : contract.Signed crypto tx index redeemPubkey redeemSig)
    (refundSigned : contract.Signed crypto tx index refundPubkey refundSig) (sequence : Nat) :
    runScript (spendContext crypto tx index contract.fundingOutput contract.witnessScript sequence)
      contract.witnessScript [[], [], refundSig, redeemSig] = true := by
  have notV1 : version ≠ contractV1 := by
    rintro rfl
    simp [hasRelease, (tryBuild_fields built).version_eq, contractV1, contractV2] at release
  refine (runScript_tryBuild built u32 _).mpr ⟨?_, by simp [maxStack], [], _, rfl, ?_⟩
  · simpa using And.intro refundSigned.1 redeemSigned.1
  rw [if_neg (by decide), if_neg notV1]
  exact ⟨[], _, rfl, succeeds_releaseCode.mpr
    ⟨refundSig, redeemSig, rfl, refundSigned.2, redeemSigned.2⟩⟩

theorem releaseWitness_accepted {redeemSig refundSig : Bytes} (release : contract.hasRelease = true)
    (carried : input.witness = releaseWitness redeemSig refundSig contract.witnessScript)
    (redeemSigned : contract.Signed crypto tx index redeemPubkey redeemSig)
    (refundSigned : contract.Signed crypto tx index refundPubkey refundSig) :
    inputAccepted crypto tx index contract.fundingOutput = true := by
  exact (inputAccepted_tryBuild built spends).mpr ⟨native, contract.witnessScript,
    [[], [], refundSig, redeemSig], carried, rfl,
    releaseWitness_runs built u32 release redeemSigned refundSigned _⟩

end

theorem spendSkeleton_input {prevout : OutPoint} {dest : Bytes} {fee lockTime sequence : Nat}
    {tx : Transaction} (made : contract.spendSkeleton prevout dest fee lockTime sequence = .ok tx)
    (witness : Witness) : (tx.setWitness 0 witness).input[0]? =
        some { previousOutput := prevout, scriptSig := [], sequence, witness } ∧
      (tx.setWitness 0 witness).lockTime = lockTime := by
  unfold spendSkeleton at made
  split at made
  · cases made
  cases made
  exact ⟨rfl, rfl⟩

/-- A contract's output is spent only in the agreed ways, and each built spend is accepted. -/
theorem contract_spends
    (built : HtlcContract.tryBuild crypto params version hashlock redeemPubkey refundPubkey locktime
      value = .ok contract) (u32 : locktime < u32Size) :
    (∀ tx index input, tx.input[index]? = some input →
      CollisionFree crypto (contract.witnessScript :: redeemPubkey.serialize.val ::
        refundPubkey.serialize.val :: input.witness) →
      inputAccepted crypto tx index contract.fundingOutput = true →
        (∃ preimage, contract.Redeemed crypto redeemPubkey tx index input preimage ∧
            preimageFromWitness crypto input.witness contract.hashlock = some preimage) ∨
          contract.Refunded crypto refundPubkey tx index input ∨ (version = contractV2 ∧
              contract.Released crypto redeemPubkey refundPubkey tx index input)) ∧
    (∀ tx index input sig preimage, tx.input[index]? = some input → input.scriptSig = [] →
      input.witness = redeemWitness sig redeemPubkey preimage contract.witnessScript →
      crypto.sha256 preimage.val = contract.hashlock →
      contract.Signed crypto tx index redeemPubkey sig →
        inputAccepted crypto tx index contract.fundingOutput = true) ∧
    (∀ tx index input sig, tx.input[index]? = some input → input.scriptSig = [] → input.witness =
        refundWitness contract.version sig refundPubkey.serialize.val contract.witnessScript →
      contract.Reached tx input → contract.Signed crypto tx index refundPubkey sig →
        inputAccepted crypto tx index contract.fundingOutput = true) ∧
    (∀ tx index input redeemSig refundSig, version = contractV2 →
      tx.input[index]? = some input → input.scriptSig = [] →
      input.witness = releaseWitness redeemSig refundSig contract.witnessScript →
      contract.Signed crypto tx index redeemPubkey redeemSig →
      contract.Signed crypto tx index refundPubkey refundSig →
        inputAccepted crypto tx index contract.fundingOutput = true) ∧
    (∀ prevout dest fee tx sig preimage, contract.redeemTx prevout dest fee = .ok tx →
      crypto.sha256 preimage.val = contract.hashlock →
      contract.Signed crypto (contract.finalizeRedeem tx 0 sig redeemPubkey preimage) 0
        redeemPubkey sig →
        inputAccepted crypto (contract.finalizeRedeem tx 0 sig redeemPubkey preimage) 0
          contract.fundingOutput = true) ∧
    (∀ prevout dest fee tx sig, contract.refundTx prevout dest fee = .ok tx →
      contract.Signed crypto (contract.finalizeRefund tx 0 sig refundPubkey) 0 refundPubkey sig →
        inputAccepted crypto (contract.finalizeRefund tx 0 sig refundPubkey) 0
          contract.fundingOutput = true) ∧ (∀ prevout dest fee tx redeemSig refundSig final,
      contract.releaseTx prevout dest fee = .ok tx →
      contract.finalizeRelease tx 0 redeemSig refundSig = .ok final →
      contract.Signed crypto final 0 redeemPubkey redeemSig →
      contract.Signed crypto final 0 refundPubkey refundSig →
        inputAccepted crypto final 0 contract.fundingOutput = true) := by
  have fields := tryBuild_fields built
  refine ⟨?_, ?_, ?_, ?_, ?_, ?_, ?_⟩
  · intro tx index input spends free accepted
    exact spent_cases built u32 spends free accepted
  · intro tx index input sig preimage spends native carried opens signed
    exact redeemWitness_accepted built u32 spends native carried opens signed
  · intro tx index input sig spends native carried reached signed
    exact refundWitness_accepted built u32 spends native carried reached signed
  · intro tx index input redeemSig refundSig v2 spends native carried redeemSigned refundSigned
    have release : contract.hasRelease = true := by
      simp [hasRelease, fields.version_eq, v2]
    exact releaseWitness_accepted built u32 spends native release carried redeemSigned refundSigned
  · intro prevout dest fee tx sig preimage made opens signed
    have spends := (spendSkeleton_input made
      (redeemWitness sig redeemPubkey preimage contract.witnessScript)).1
    exact redeemWitness_accepted built u32 spends rfl rfl opens signed
  · intro prevout dest fee tx sig made signed
    obtain ⟨spends, lockTime⟩ := spendSkeleton_input made
      (refundWitness contract.version sig refundPubkey.serialize.val contract.witnessScript)
    -- the refund's lock time is the contract's own and its sequence is not final
    refine refundWitness_accepted built u32 spends rfl rfl
      ⟨Nat.le_of_eq lockTime.symm, ?_, ?_⟩ signed
    · exact (iff_of_eq (congrArg (· < lockTimeThreshold) lockTime)).symm
    · exact (by decide : enableRbfNoLocktime ≠ finalSequence)
  intro prevout dest fee tx redeemSig refundSig final made finished redeemSigned refundSigned
  rcases release : contract.hasRelease with _ | _
  · simp only [finalizeRelease, release] at finished
    cases finished
  simp only [releaseTx, finalizeRelease, release] at made finished
  cases finished
  have spends := (spendSkeleton_input made
    (releaseWitness redeemSig refundSig contract.witnessScript)).1
  exact releaseWitness_accepted built u32 spends rfl release rfl redeemSigned refundSigned

end Spends

namespace HtlcSample

/-- The big-endian bytes of a numeral. -/
def fixed (size value : Nat) : Fixed size :=
  ⟨(List.range size).map fun index => UInt8.ofNat (value / 256 ^ (size - 1 - index)), by simp⟩

def preimage : Fixed 32 :=
  fixed 32 0x0102030405060708090a0b0c0d0e0f101112131415161718191a1b1c1d1e1f20

def hashlock : Fixed 32 :=
  fixed 32 0xae216c2ef5247a3782c135efa279a3e4cdc61094270f5d2be58c6204b7a612c9

/-- The public keys of the secrets 1 and 2. -/
def redeemPubkey : PublicKey :=
  ⟨fixed 33 0x0279be667ef9dcbbac55a06295ce870b07029bfcdb2dce28d959f2815b16f81798⟩

def refundPubkey : PublicKey :=
  ⟨fixed 33 0x02c6047f9441ed7d6d3045406e95c07cd85c778e4b8cef3ca7abac09b95c709ee5⟩

/-- The redeem key's signature of the sample spend. -/
def sig : Bytes :=
  (fixed 32 0x3044022022595cd26902027b7c04418bf06f203fdbe4ed52c3ea664500d1a359).val ++
    (fixed 39 0xa32b4af502207e477aee2a33f87ac87590f9ab349791b17f7e8a77ca95eb9e38c19f68cb7cea01).val

/-- The digests of what the sample hashes; the script is the only long item. -/
def crypto : Crypto where
  sha256 item :=
    fixed 32 <|
      if item = preimage.val then
        0xae216c2ef5247a3782c135efa279a3e4cdc61094270f5d2be58c6204b7a612c9
      else if item = redeemPubkey.serialize.val then
        0x0f715baf5d4c2ed329785cef29e562f73488c8a2bb9dbc5700b361d54b9b0554
      else if item = refundPubkey.serialize.val then
        0xb1c9938f01121e159887ac2c8d393a22e4476ff8212de13fe1939de2a236f0a7
      else if item = sig then
        0x5b241b4c9075cb003374030fee48044be2b88baec2a538f9476c3ca2928d4930
      else if item = [2] then
        0xdbc1b4c900ffe48d575b5da5c638040125f65db0fe3e24494b76ea986457d986
      else 0x4eec749b5a3533c0a35f6ce0f54f34291c3a750bfd3b296ab0d1134d999864fa
  hash160 item :=
    fixed 20 <|
      if item = preimage.val then 0xc00f4e3c177f4f4c4aa0cf3d72dc675eabeb74a3
      else if item = redeemPubkey.serialize.val then 0x751e76e8199196d454941c45d1b3a323f1433bd6
      else if item = refundPubkey.serialize.val then 0x06afd46bcdfd22ef94ac122aa11f241244a37ecc
      else if item = sig then 0xf5eee3842347c1cec07722f0f8785a9b356a2df5
      else if item = [2] then 0xa6bb94c8792c395785787280dc188d114e1f339b
      else 0xd92f21771a210d8ec741a9471dd5c3c54b5a6abd
  checkSig _ _ _ _ given key := given == sig && key == redeemPubkey.serialize.val

def contract : HtlcContract :=
  let witnessScript := contractScriptV2 crypto hashlock redeemPubkey refundPubkey 1700000000
  { version := contractV2, witnessScript, scriptPubkey := newP2wsh (crypto.sha256 witnessScript)
    value := 100000, hashlock, locktime := 1700000000, sighashVariant := .segwitV0 }

def prevout : OutPoint :=
  ⟨fixed 32 0x1111111111111111111111111111111111111111111111111111111111111111, 1⟩

def dest : Bytes := (fixed 22 0x00147dd65592d0ab2fe0d0257d571abf032cd9db93dc).val

/-- The redeem as built, but for the branch choice: 2 is as true as 1. -/
def input : TxIn where
  previousOutput := prevout
  scriptSig := []
  sequence := enableRbfNoLocktime
  witness := [sig, redeemPubkey.serialize.val, preimage.val, [2], contract.witnessScript]

def tx : Transaction where
  version := 2
  lockTime := 0
  input := [input]
  output := contract.spendOutputs 99000 dest

end HtlcSample

open HtlcSample in
theorem contract_spends_odd_choice : inputAccepted crypto tx 0 contract.fundingOutput = true ∧
      ((∃ preimage, contract.Redeemed crypto redeemPubkey tx 0 input preimage ∧
          preimageFromWitness crypto input.witness contract.hashlock = some preimage) ∨
        contract.Refunded crypto refundPubkey tx 0 input ∨ (contractV2 = contractV2 ∧
            contract.Released crypto redeemPubkey refundPubkey tx 0 input)) := by
  have accepted : inputAccepted crypto tx 0 contract.fundingOutput = true := by decide +kernel
  have free : CollisionFree crypto (contract.witnessScript :: redeemPubkey.serialize.val ::
      refundPubkey.serialize.val :: input.witness) := ⟨by decide +kernel, by decide +kernel⟩
  have built : tryBuild crypto .bitcoin contractV2 hashlock redeemPubkey refundPubkey
      1700000000 100000 = .ok contract := rfl
  exact ⟨accepted, (contract_spends built (by decide)).1 tx 0 input rfl free accepted⟩

end Fortis.Core
