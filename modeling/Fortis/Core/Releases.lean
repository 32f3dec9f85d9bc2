import Fortis.Core.HtlcSafety
import Fortis.Core.Spends
import Fortis.Core.Progress

/-!
# Cooperative releases

The funder of a second-version contract gets its coins back with the counterparty's
signature, which comes, with the transaction it signs, through an untrusted relay.
-/

namespace Fortis.Core

open Lib List SwapMachine Nat HtlcContract

variable {lib : BitcoinLib} {machine : SwapMachine} {contract : HtlcContract} {key : SwapKey}
  {tx done : Transaction} {outpoint : OutPoint} {dest theirSig : Bytes} {maxFee : Nat}

/-! ## What `finish_release` accepts -/

theorem ok_of_lift {α : Type} {result : Except WalletError α} {value : α}
    (lifted : Outcome.lift result = .ok value) : result = .ok value := by
  rcases result with fault | given
  · cases lifted
  cases lifted
  rfl

/-- The checks a release passes. -/
structure Passes (lib : BitcoinLib) (machine : SwapMachine) (contract : HtlcContract)
    (key : SwapKey) (tx : Transaction) (outpoint : OutPoint) (dest theirSig : Bytes) (maxFee : Nat)
    (message : Fixed 32) : Prop where
  keyed : checkKey lib key machine.params.ourPubkeySend contract = .ok ()
  shaped : ∃ ours, contract.releaseTx outpoint dest 0 = .ok ours ∧
    sameShape tx ours outpoint dest = true
  fits : tx.output.head?.elim 0 TxOut.value + maxFee ≤ u64Max
  pays : contract.value ≤ tx.output.head?.elim 0 TxOut.value + maxFee
  signs : contract.spendSighash lib tx 0 = .ok message
  verified : sigVerifies lib message theirSig key.flag machine.params.theirPubkeySend = true

theorem finishRelease_ok_iff (built : machine.ourContract = some contract)
    (isFee : htlcSpendFee contract .release maxSwapFeerateSatVb = .ok maxFee) :
    machine.finishRelease lib tx outpoint dest theirSig key = .ok done ↔
      ∃ message, Passes lib machine contract key tx outpoint dest theirSig maxFee message ∧
        contract.finalizeRelease tx 0 theirSig (key.sign lib message) = .ok done := by
  constructor
  · intro finished
    rw [finishRelease, builtContract, built] at finished
    obtain ⟨_, same, finished⟩ := ok_of_bind finished
    cases same
    obtain ⟨⟨⟩, keyed, finished⟩ := ok_of_bind finished
    rw [isFee, ok_bind] at finished
    obtain ⟨ours, made, finished⟩ := ok_of_bind finished
    obtain ⟨_, shaped, finished⟩ := ok_of_bind finished
    obtain ⟨_, fits, finished⟩ := ok_of_bind finished
    obtain ⟨_, pays, finished⟩ := ok_of_bind finished
    obtain ⟨message, signs, finished⟩ := ok_of_bind finished
    obtain ⟨_, verified, finished⟩ := ok_of_bind finished
    exact ⟨message, ⟨keyed, ⟨ours, ok_of_lift made, by simpa using not_of_refuseIf shaped⟩,
      not_lt.mp (not_of_refuseIf fits), not_lt.mp (not_of_refuseIf pays), ok_of_lift signs,
      by simpa using not_of_refuseIf verified⟩, ok_of_lift finished⟩
  rintro ⟨message, passes, finalized⟩
  obtain ⟨ours, made, shaped⟩ := passes.shaped
  rw [finishRelease, builtContract, built]
  change (checkKey lib key _ _ >>= _) = _
  rw [passes.keyed, ok_bind, isFee, ok_bind, made]
  change (refuseIf (_ = false) _ >>= _) = _
  rw [shaped, refuseIf_of_not (by decide), ok_bind, refuseIf_of_not (not_lt.mpr passes.fits),
    ok_bind, refuseIf_of_not (not_lt.mpr passes.pays), ok_bind, passes.signs]
  change (refuseIf (_ = false) _ >>= _) = _
  rw [passes.verified, refuseIf_of_not (by decide), ok_bind, finalized]
  rfl

/-! ## Safety and completion -/

/-- The library's signatures verify, and what verifies over a contract's message is a signature
to consensus. -/
structure SignsFor (lib : BitcoinLib) (contract : HtlcContract) : Prop where
  messages :
    ∀ tx input, tx.input = [input] → ∃ message, contract.spendSighash lib tx 0 = .ok message
  verifies : ∀ message secret,
    lib.verifyEcdsa message (lib.signEcdsa message secret) (lib.publicKey secret) = true
  accepted : ∀ tx message sig key witness, contract.spendSighash lib tx 0 = .ok message →
    lib.verifyEcdsa message sig key = true → contract.Signed lib.toCrypto
      (tx.setWitness 0 witness) 0 key (sig ++ [contract.sighashVariant.flag])

theorem flag_of_checkKey {expected : PublicKey} (keyed : checkKey lib key expected contract = .ok
    ()) : key.pubkey lib = expected ∧ key.flag = contract.sighashVariant.flag := by
  simpa using not_of_refuseIf keyed

/-- What pins a release down. -/
theorem shape_of_sameShape {ours : Transaction}
    (made : contract.releaseTx outpoint dest 0 = .ok ours)
    (shaped : sameShape tx ours outpoint dest = true) : ∃ input payout, tx.input = [input] ∧
      input.previousOutput = outpoint ∧ payout.scriptPubkey = dest ∧
      tx.output = payout :: (contract.spendOutputs 0 dest).tail := by
  unfold releaseTx at made
  split at made
  · cases made
  rw [skeleton_eq made] at shaped
  unfold sameShape at shaped
  split at shaped
  next input _ payout extra _ _ inputs _ outputs own =>
    simp only [Bool.and_eq_true, decide_eq_true_eq] at shaped
    obtain ⟨⟨⟨⟨spends, _⟩, _⟩, pays⟩, same⟩ := shaped
    cases own
    exact ⟨input, payout, inputs, spends, pays, outputs.trans (congrArg (payout :: ·) same)⟩
  next => cases shaped

theorem finalizeRelease_eq (release : contract.hasRelease = true) (redeemSig refundSig : Bytes) :
    contract.finalizeRelease tx 0 redeemSig refundSig =
      .ok (tx.setWitness 0 (releaseWitness redeemSig refundSig contract.witnessScript)) := by
  simp [finalizeRelease, release]
  rfl

/-- It spends the outpoint alone, pays the funder all but `maxFee`, and its stack runs the
script. -/
def Protects (lib : BitcoinLib) (contract : HtlcContract) (outpoint : OutPoint) (dest : Bytes)
    (maxFee : Nat) (done : Transaction) : Prop :=
  ∃ input payout stack, done.input = [input] ∧ input.previousOutput = outpoint ∧
    done.output = payout :: (contract.spendOutputs 0 dest).tail ∧ payout.scriptPubkey = dest ∧
    contract.value ≤ payout.value + maxFee ∧
    input.witness = stack.reverse ++ [contract.witnessScript] ∧
    Script.runScript (spendContext lib.toCrypto done 0 contract.fundingOutput contract.witnessScript
      input.sequence) contract.witnessScript stack = true

/-- What the wallet made and the counterparty signs, the wallet finishes exactly when the payout and
the highest fee fit 64 bits together. -/
def Completes (lib : BitcoinLib) (machine : SwapMachine) (contract : HtlcContract)
    (key : SwapKey) (maxFee : Nat) : Prop :=
  ∀ (theirs : SwapMachine) theirKey recvParams outpoint dest rates txs,
    machine.releaseTxs outpoint dest rates = .ok txs →
    theirs.expectedTheirContract lib recvParams = .ok contract →
    checkKey lib theirKey theirs.params.ourPubkeyRecv contract = .ok () →
    theirs.params.ourPubkeyRecv = machine.params.theirPubkeySend → ∀ tx ∈ txs, ∃ fee sig,
      fee ≤ maxFee ∧ fee ≤ contract.value ∧
      tx.output.head?.elim 0 TxOut.value = contract.value - fee ∧
      theirs.signTheirRelease lib tx outpoint theirKey recvParams = .ok sig ∧
      ((∃ done, machine.finishRelease lib tx outpoint dest sig key = .ok done) ↔
        contract.value - fee + maxFee ≤ u64Max)

section

variable (release : contract.hasRelease = true) (signs : SignsFor lib contract)
  (isOurs : machine.ourContract = some contract)
  (isFee : htlcSpendFee contract .release maxSwapFeerateSatVb = .ok maxFee)

include release signs isOurs isFee

theorem finishRelease_pays (sendParams : ChainParams) (built : HtlcContract.tryBuild lib.toCrypto
      sendParams machine.params.contractVersion machine.params.hashlock
      machine.params.theirPubkeySend
      machine.params.ourPubkeySend machine.params.ourContractLocktime machine.params.sendAmount =
        .ok contract) (u32 : machine.params.ourContractLocktime < u32Size)
    (finished : machine.finishRelease lib tx outpoint dest theirSig key = .ok done) :
    Protects lib contract outpoint dest maxFee done := by
  obtain ⟨message, passes, finalized⟩ := (finishRelease_ok_iff isOurs isFee).mp finished
  obtain ⟨ours, made, shaped⟩ := passes.shaped
  obtain ⟨input, payout, inputs, spends, pays, outputs⟩ := shape_of_sameShape made shaped
  obtain ⟨isKey, flag⟩ := flag_of_checkKey passes.keyed
  rw [finalizeRelease_eq release] at finalized
  cases finalized
  have verified := passes.verified
  simp only [sigVerifies, Bool.and_eq_true, decide_eq_true_eq] at verified
  have theirs := signs.accepted tx message theirSig.dropLast _
    (releaseWitness theirSig (key.sign lib message) contract.witnessScript) passes.signs verified.2
  have own := signs.accepted tx message (lib.signEcdsa message key.secret)
    (lib.publicKey key.secret)
    (releaseWitness theirSig (key.sign lib message) contract.witnessScript) passes.signs
    (signs.verifies message key.secret)
  rw [← flag, dropLast_append_getLast? _ verified.1] at theirs
  rw [← flag] at own
  refine ⟨{ input with
    witness := releaseWitness theirSig (key.sign lib message) contract.witnessScript }, payout,
    [[], [], key.sign lib message, theirSig], ?_, spends, outputs, pays, ?_, rfl, ?_⟩
  · rw [Transaction.setWitness, inputs]
    rfl
  · simpa [outputs] using passes.pays
  exact releaseWitness_runs built u32 release theirs (isKey ▸ own) _

theorem finishRelease_completes
    (keyed : checkKey lib key machine.params.ourPubkeySend contract = .ok ()) :
    Completes lib machine contract key maxFee := by
  intro theirs theirKey recvParams outpoint dest rates txs listed expected theirKeyed paired tx mem
  rw [releaseTxs, builtContract, isOurs] at listed
  obtain ⟨_, same, listed⟩ := ok_of_bind listed
  cases same
  obtain ⟨_, _, listed⟩ := ok_of_bind listed
  obtain ⟨fees, isFees, listed⟩ := ok_of_bind listed
  obtain ⟨fee, isListed, made⟩ := mem_of_mapM listed mem
  have lacksNot : ¬ (!contract.hasRelease) = true := by simp [release]
  have made : contract.spendSkeleton outpoint dest fee 0 enableRbfNoLocktime = .ok tx :=
    (if_neg lacksNot).symm.trans (ok_of_lift made)
  have free : contract.releaseTx outpoint dest 0 = .ok _ :=
    (if_neg lacksNot).trans (if_neg (not_lt_zero _))
  obtain ⟨size, fees⟩ := htlcSpendFee_total contract .release
  have bounds := spendFees_le fees isFees isListed
  cases (fees _).symm.trans isFee
  have shape := skeleton_eq made
  obtain ⟨message, signed⟩ := signs.messages tx _ (congrArg Transaction.input shape)
  obtain ⟨isTheirKey, theirFlag⟩ := flag_of_checkKey theirKeyed
  have pays : tx.output.head?.elim 0 TxOut.value = contract.value - fee := by rw [shape]; rfl
  refine ⟨fee, theirKey.sign lib message, bounds.1, by omega, pays, ?_, ?_, ?_⟩
  · unfold signTheirRelease
    rw [expected, ok_bind, release, refuseIf_of_not (by decide), ok_bind, theirKeyed, ok_bind,
      signed]
    simp [shape, refuseIf, Outcome.lift]
  · rintro ⟨done, finished⟩
    obtain ⟨_, passes, _⟩ := (finishRelease_ok_iff isOurs isFee).mp finished
    exact pays ▸ passes.fits
  · intro small
    refine ⟨_, (finishRelease_ok_iff isOurs isFee).mpr
      ⟨message, ⟨keyed, ⟨_, free, ?_⟩, ?_, ?_, signed, ?_⟩, finalizeRelease_eq release _ _⟩⟩
    · simp [sameShape, shape, spendOutputs]
    · omega
    · omega
    · rw [sigVerifies, SwapKey.sign, getLast?_concat, dropLast_concat, ← paired, ← isTheirKey,
        (flag_of_checkKey keyed).2, theirFlag, SwapKey.pubkey, signs.verifies]
      simp

end

/-- Releases protect their funder, and complete unless what they pay is near the largest amount. -/
theorem release_safe {before : SwapMachine} {sendParams : ChainParams}
    (built : before.buildOurContract lib sendParams = .ok (contract, machine))
    (release : contract.version = contractV2) (u32 : machine.params.ourContractLocktime < u32Size)
    (keyed : checkKey lib key machine.params.ourPubkeySend contract = .ok ())
    (signs : SignsFor lib contract) :
    ∃ maxFee, htlcSpendFee contract .release maxSwapFeerateSatVb = .ok maxFee ∧
      Completes lib machine contract key maxFee ∧
      ∀ tx outpoint dest theirSig done,
        machine.finishRelease lib tx outpoint dest theirSig key = .ok done →
          Protects lib contract outpoint dest maxFee done := by
  obtain ⟨size, isFee⟩ := htlcSpendFee_total contract .release
  obtain ⟨_, isContract, built⟩ := ok_of_bind built
  cases built
  have release : contract.hasRelease = true := decide_eq_true release.ge
  refine ⟨_, isFee _, ?_, ?_⟩
  · exact finishRelease_completes release signs rfl (isFee _) keyed
  · intro tx outpoint dest theirSig done finished
    refine finishRelease_pays release signs rfl (isFee _) sendParams ?_ u32 finished
    exact ok_of_lift isContract

namespace ReleaseSample

open SpendSample hiding payee

/-- The two sides of the contract. -/
def funder (value : Nat) : SwapMachine :=
  { new { blank with sendAmount := value } with ourContract := some (worth value) }

def payee (value : Nat) : SwapMachine :=
  new { blank with recvAmount := value, theirContractLocktime := 2 }

theorem signsFor (contract : HtlcContract) : SignsFor trusting contract where
  messages tx input one := by
    refine ⟨OutPoint.null.txid, ?_⟩
    cases h : contract.sighashVariant <;>
      simp [spendSighash, h, sighashAll, trusting, one] <;> rfl
  verifies _ _ := rfl
  accepted tx message sig key witness _ verified := by
    cases sig with
    | nil => exact ⟨by simp [Script.maxItem], rfl⟩
    | cons => cases verified

def release : Transaction := ⟨2, 0, [⟨.null, [], enableRbfNoLocktime, []⟩], [⟨99826, []⟩]⟩

theorem known :
    htlcSpendFee (worth 100000) .release maxSwapFeerateSatVb = .ok 87000 := by decide +kernel

theorem release_safe_sample : (funder 100000).releaseTxs .null [] [1] = .ok [release] ∧
    ∃ sig done, (payee 100000).signTheirRelease trusting release .null anyKey .blake2b = .ok sig ∧
      (funder 100000).finishRelease trusting release .null [] sig anyKey = .ok done := by
  have built : (new { blank with sendAmount := 100000 }).buildOurContract trusting .blake2b =
    .ok (worth 100000, funder 100000) := rfl
  have listed : (funder 100000).releaseTxs .null [] [1] = .ok [release] := by decide +kernel
  obtain ⟨maxFee, isFee, completes, _⟩ := release_safe built rfl (by decide +kernel)
    (show checkKey trusting anyKey _ _ = _ from rfl) (signsFor _)
  cases known.symm.trans isFee
  obtain ⟨fee, sig, _, _, _, signed, finishes⟩ := completes (payee 100000) anyKey .blake2b .null []
    [1] [release] listed rfl rfl rfl release (mem_singleton.mpr rfl)
  have small : (worth 100000).value - fee + 87000 ≤ u64Max :=
    (Nat.add_le_add_right (Nat.sub_le _ fee) 87000).trans (by decide)
  obtain ⟨done, finished⟩ := finishes.mpr small
  exact ⟨listed, sig, done, signed, finished⟩

/-- A release of the largest amount, made and signed: finishing it crashes the wallet. -/
theorem largest_release_panics : (do
      match ← (funder u64Max).releaseTxs .null [] [1] with
      | [tx] =>
        let sig ← (payee u64Max).signTheirRelease trusting tx .null anyKey .blake2b
        some <$> (funder u64Max).finishRelease trusting tx .null [] sig anyKey
      | _ => return none) = Except.error (Fault.panicked "Amount addition error") := by
  decide +kernel

end ReleaseSample

/-! ## Panics -/

variable {text : String}

theorem panicked_of_bind {α β : Type} {first : Outcome α} {next : α → Outcome β}
    (quiet : first ≠ .error (.panicked text)) (panics : first >>= next = .error (.panicked text)) :
    ∃ value, first = .ok value ∧ next value = .error (.panicked text) := by
  cases first with
  | error fault =>
    cases panics
    exact absurd rfl quiet
  | ok value => exact ⟨value, rfl, panics⟩

theorem quiet_refuseIf {condition : Prop} [Decidable condition] {error : WalletError} :
    refuseIf condition (Fault.err error) ≠ .error (.panicked text) := by
  unfold refuseIf
  split <;> exact nofun

theorem quiet_lift {α : Type} {result : Except WalletError α} :
    Outcome.lift result ≠ .error (.panicked text) := by
  cases result <;> exact nofun

/-- The transaction passes every check that `finish_release` makes before it adds the highest fee to
the payout. -/
def ReachesSum (lib : BitcoinLib) (machine : SwapMachine) (tx : Transaction) (outpoint : OutPoint)
    (dest : Bytes) (key : SwapKey) (maxFee : Nat) : Prop :=
  ∃ contract ours, machine.ourContract = some contract ∧
    checkKey lib key machine.params.ourPubkeySend contract = .ok () ∧
    htlcSpendFee contract .release maxSwapFeerateSatVb = .ok maxFee ∧
    contract.releaseTx outpoint dest 0 = .ok ours ∧ sameShape tx ours outpoint dest = true

/-- `finish_release` panics exactly when it comes to the sum of the payout and the highest fee and
the two pass 64 bits together. -/
theorem finishRelease_panics_iff (lib : BitcoinLib) (machine : SwapMachine) (tx : Transaction)
    (outpoint : OutPoint) (dest theirSig : Bytes) (key : SwapKey) :
    (∃ text, machine.finishRelease lib tx outpoint dest theirSig key = .error (.panicked text)) ↔
      ∃ maxFee, ReachesSum lib machine tx outpoint dest key maxFee ∧
        u64Max < tx.output.head?.elim 0 TxOut.value + maxFee := by
  constructor
  · rintro ⟨text, panics⟩
    rw [finishRelease, builtContract] at panics
    cases built : machine.ourContract with
    | none =>
      rw [built] at panics
      cases panics
    | some contract =>
      rw [built] at panics
      obtain ⟨size, isFee⟩ := htlcSpendFee_total contract .release
      obtain ⟨⟨⟩, keyed, panics⟩ :=
        panicked_of_bind quiet_refuseIf (show checkKey lib key _ _ >>= _ = _ from panics)
      rw [isFee, ok_bind] at panics
      obtain ⟨ours, made, panics⟩ := panicked_of_bind quiet_lift panics
      obtain ⟨_, shaped, panics⟩ := panicked_of_bind quiet_refuseIf panics
      refine ⟨_, ⟨contract, ours, built, keyed, isFee _, ok_of_lift made,
        by simpa using not_of_refuseIf shaped⟩, ?_⟩
      -- Nothing after the sum panics.
      by_contra small
      rw [refuseIf_of_not small, ok_bind] at panics
      obtain ⟨_, _, panics⟩ := panicked_of_bind quiet_refuseIf panics
      obtain ⟨_, _, panics⟩ := panicked_of_bind quiet_lift panics
      obtain ⟨_, _, panics⟩ := panicked_of_bind quiet_refuseIf panics
      exact quiet_lift panics
  · rintro ⟨maxFee, ⟨contract, ours, built, keyed, isFee, made, shaped⟩, large⟩
    refine ⟨"Amount addition error", ?_⟩
    rw [finishRelease, builtContract, built]
    change (checkKey lib key _ _ >>= _) = _
    rw [keyed, ok_bind, isFee, ok_bind, made]
    change (refuseIf (_ = false) _ >>= _) = _
    rw [shaped, refuseIf_of_not (by decide), ok_bind, refuseIf, if_pos large]
    rfl

/-- A release whose payout is the largest amount crashes the wallet. -/
theorem largest_payout_panics : (ReleaseSample.funder 100000).finishRelease SpendSample.trusting
        { ReleaseSample.release with output := [⟨u64Max, []⟩] } .null [] [] SpendSample.anyKey =
      .error (.panicked "Amount addition error") := by
  decide +kernel

end Fortis.Core
