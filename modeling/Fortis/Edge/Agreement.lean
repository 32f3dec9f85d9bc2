import Fortis.Edge.Contract
import Fortis.Core.Releases

/-!
# The phones and the edge agree on a swap's contracts

For each side of a match, the contract it funds, the contract the other side expects and the script
the edge rebuilds from what was relayed are one.  Every refund, redeem and release a phone signs for
a leg reveals that script at the leg's outpoint.
-/

namespace Fortis.Edge

open Fortis.Core Lib Option HtlcContract

/-! ## What the phones sign -/

variable {preimage : Fixed 32} {txs : List Transaction} {one : PresignedRedeem} {tx : Transaction}

section Signed

variable {lib : BitcoinLib} {machine : SwapMachine} {contract : HtlcContract}
variable {outpoint : OutPoint} {dest : Bytes} {key : SwapKey} {feerates : List Nat}

theorem signedRefund_reveals (built : machine.ourContract = some contract)
    (signed : machine.signedRefund lib outpoint dest key feerates = .ok txs) (mem : tx ∈ txs) :
    RevealsAt outpoint contract.witnessScript tx := by
  rw [SwapMachine.signedRefund, SwapMachine.builtContract, built] at signed
  obtain ⟨_, same, signed⟩ := ok_of_bind signed
  cases same
  obtain ⟨_, _, signed⟩ := ok_of_bind signed
  obtain ⟨fees, _, signed⟩ := ok_of_bind signed
  obtain ⟨fee, _, variant⟩ := mem_of_mapM signed mem
  obtain ⟨unsigned, made, variant⟩ := ok_of_bind variant
  obtain ⟨message, _, variant⟩ := ok_of_bind variant
  cases variant
  rw [skeleton_eq (ok_of_lift made)]
  exact ⟨_, rfl, rfl, (List.getLast?_append_of_ne_nil _ (by simp))⟩

/-- The library decodes the unsigned redeems at these fees to what it encoded. -/
def RedeemsTrip (lib : BitcoinLib) (machine : SwapMachine) (outpoint : OutPoint) (dest : Bytes)
    (feerates : List Nat) : Prop :=
  ∀ contract fees fee tx, machine.theirContract = some contract →
    spendFees contract .redeem dest feerates = .ok fees → fee ∈ fees →
      contract.redeemTx outpoint dest fee = .ok tx → lib.RoundTrips tx

theorem finishPresignedRedeem_opens (finished : finishPresignedRedeem lib one preimage = .ok tx) :
    ∃ unsigned sig pubkey script, lib.fromHex one.txHex = some unsigned ∧
      hexDecode one.sigHex = some sig ∧ hexDecode one.witnessScriptHex = some script ∧
      scriptHashlock script = some (lib.sha256 preimage.val) ∧
      tx = unsigned.setWitness 0 (redeemWitness sig pubkey preimage script) := by
  rw [finishPresignedRedeem] at finished
  obtain ⟨unsigned, decoded, finished⟩ := ok_of_bind finished
  obtain ⟨sig, signed, finished⟩ := ok_of_bind finished
  obtain ⟨pubkey, _, finished⟩ := ok_of_bind finished
  obtain ⟨script, scripted, finished⟩ := ok_of_bind finished
  obtain ⟨_, _, finished⟩ := ok_of_bind finished
  obtain ⟨_, opens, finished⟩ := ok_of_bind finished
  cases finished
  exact ⟨unsigned, sig, pubkey, script, some_of_orFail decoded, some_of_orFail signed,
    some_of_orFail scripted, not_not.mp (not_of_refuseIf opens), rfl⟩

theorem finishPresignedRedeem_ok (finished : finishPresignedRedeem lib one preimage = .ok tx) :
    ∃ unsigned sig pubkey script, lib.fromHex one.txHex = some unsigned ∧
      hexDecode one.witnessScriptHex = some script ∧
        tx = unsigned.setWitness 0 (redeemWitness sig pubkey preimage script) := by
  obtain ⟨unsigned, sig, pubkey, script, decoded, _, scripted, _, same⟩ :=
    finishPresignedRedeem_opens finished
  exact ⟨unsigned, sig, pubkey, script, decoded, scripted, same⟩

theorem presigned_reveals {presigned : List PresignedRedeem}
    (verified : machine.theirContract = some contract)
    (trips : RedeemsTrip lib machine outpoint dest feerates)
    (signed : machine.presignRedeem lib outpoint dest key feerates = .ok presigned)
    (mem : one ∈ presigned) (finished : finishPresignedRedeem lib one preimage = .ok tx) :
    RevealsAt outpoint contract.witnessScript tx := by
  rw [SwapMachine.presignRedeem, SwapMachine.verifiedContract, verified] at signed
  obtain ⟨_, same, signed⟩ := ok_of_bind signed
  cases same
  obtain ⟨_, _, signed⟩ := ok_of_bind signed
  obtain ⟨fees, priced, signed⟩ := ok_of_bind signed
  obtain ⟨fee, listed, variant⟩ := mem_of_mapM signed mem
  obtain ⟨unsigned, made, variant⟩ := ok_of_bind variant
  obtain ⟨message, _, variant⟩ := ok_of_bind variant
  cases variant
  have made := ok_of_lift made
  have trip := Codec.fromHex_toHex (trips contract fees fee unsigned verified priced listed made)
  obtain ⟨_, sig, pubkey, script, decoded, scripted, rfl⟩ := finishPresignedRedeem_ok finished
  rw [trip] at decoded
  rw [hexDecode_hexEncode] at scripted
  cases decoded
  cases scripted
  rw [skeleton_eq made]
  exact ⟨_, rfl, rfl, rfl⟩

theorem signedRedeem_reveals (verified : machine.theirContract = some contract)
    (trips : RedeemsTrip lib machine outpoint dest feerates)
    (signed : machine.signedRedeem lib outpoint dest key preimage feerates = .ok txs)
    (mem : tx ∈ txs) : RevealsAt outpoint contract.witnessScript tx := by
  rw [SwapMachine.signedRedeem] at signed
  obtain ⟨_, _, signed⟩ := ok_of_bind signed
  obtain ⟨presigned, ahead, signed⟩ := ok_of_bind signed
  obtain ⟨one, listed, finished⟩ := mem_of_mapM signed mem
  exact presigned_reveals verified trips ahead listed finished

theorem finishRelease_reveals {done : Transaction} {theirSig : Bytes}
    (built : machine.ourContract = some contract)
    (finished : machine.finishRelease lib tx outpoint dest theirSig key = .ok done) :
    RevealsAt outpoint contract.witnessScript done := by
  obtain ⟨size, isFee⟩ := htlcSpendFee_total contract .release
  obtain ⟨message, passes, attached⟩ := (finishRelease_ok_iff built (isFee _)).mp finished
  obtain ⟨ours, made, shaped⟩ := passes.shaped
  obtain ⟨input, _, inputs, spends, _, _⟩ := shape_of_sameShape made shaped
  unfold finalizeRelease at attached
  split at attached
  · cases attached
  cases attached
  refine ⟨{ input with
    witness := releaseWitness theirSig (key.sign lib message) contract.witnessScript }, ?_,
    spends, rfl⟩
  rw [Transaction.setWitness, inputs]
  rfl

end Signed

/-! ## Agreement -/

def relayed (keys : KeyPair) : KeysHex :=
  (hexEncode keys.1.serialize.val, hexEncode keys.2.serialize.val)

structure Relayed (terms : SwapTerms) (keys : SwapRole → KeyPair) (hashlock : Fixed 32)
    (m : Match) : Prop where
  terms_eq : m.terms = terms
  keys_eq : m.keys = (some (relayed (keys .initiator)), some (relayed (keys .participant)))
  hashlock_eq : m.hashlock = some (hexEncode hashlock.val)

def KeysTrip (lib : BitcoinLib) (keys : SwapRole → KeyPair) : Prop :=
  ∀ role, lib.fromSlice (keys role).1.serialize.val = some (keys role).1 ∧
    lib.fromSlice (keys role).2.serialize.val = some (keys role).2

def machineOf (terms : SwapTerms) (keys : SwapRole → KeyPair) (hashlock : Fixed 32)
    (swapId : Fixed 16) (role : SwapRole) : SwapMachine :=
  .new (paramsFromTerms terms role (keys role) (keys role.other) hashlock swapId)

/-- Every way a phone builds a spend of the leg at `outpoint`. -/
inductive LegSpend (lib : BitcoinLib) (funder redeemer : SwapMachine) (outpoint : OutPoint) :
    Transaction → Prop
  | refund {dest : Bytes} {key : SwapKey} {feerates : List Nat} {txs : List Transaction}
      {tx : Transaction}
      (signed : funder.signedRefund lib outpoint dest key feerates = .ok txs) (member : tx ∈ txs) :
      LegSpend lib funder redeemer outpoint tx
  | release {dest : Bytes} {key : SwapKey} {theirSig : Bytes} {tx done : Transaction}
      (finished : funder.finishRelease lib tx outpoint dest theirSig key = .ok done) :
      LegSpend lib funder redeemer outpoint done
  | redeem {dest : Bytes} {key : SwapKey} {preimage : Fixed 32} {feerates : List Nat}
      {txs : List Transaction} {tx : Transaction}
      (trips : RedeemsTrip lib redeemer outpoint dest feerates)
      (signed : redeemer.signedRedeem lib outpoint dest key preimage feerates = .ok txs)
      (member : tx ∈ txs) : LegSpend lib funder redeemer outpoint tx
  | presigned {dest : Bytes} {key : SwapKey} {preimage : Fixed 32} {feerates : List Nat}
      {ahead : List PresignedRedeem} {one : PresignedRedeem} {tx : Transaction}
      (trips : RedeemsTrip lib redeemer outpoint dest feerates)
      (signed : redeemer.presignRedeem lib outpoint dest key feerates = .ok ahead)
      (member : one ∈ ahead) (finished : finishPresignedRedeem lib one preimage = .ok tx) :
      LegSpend lib funder redeemer outpoint tx

theorem LegSpend.reveals {lib : BitcoinLib} {funder redeemer : SwapMachine} {outpoint : OutPoint}
    {contract : HtlcContract} (built : funder.ourContract = some contract)
    (verified : redeemer.theirContract = some contract)
    (spend : LegSpend lib funder redeemer outpoint tx) :
    RevealsAt outpoint contract.witnessScript tx := by
  cases spend with
  | refund signed mem => exact signedRefund_reveals built signed mem
  | release finished => exact finishRelease_reveals built finished
  | redeem trips signed mem => exact signedRedeem_reveals verified trips signed mem
  | presigned trips signed mem finished =>
    exact presigned_reveals verified trips signed mem finished

theorem pubkeyFromStr_hexEncode {lib : BitcoinLib} {key : PublicKey}
    (trip : lib.fromSlice key.serialize.val = some key) :
    pubkeyFromStr lib (hexEncode key.serialize.val) = some key := by
  have length : (hexEncode key.serialize.val).length = 66 := by
    rw [length_hexEncode, key.serialize.property]
  rw [pubkeyFromStr, if_pos length, hexDecode_hexEncode]
  exact trip

theorem hex32_hexEncode (hash : Fixed 32) : hex32 (hexEncode hash.val) = some hash := by
  simp [hex32]

variable {m : Match} {funder : SwapRole}

section Agree

variable {lib : BitcoinLib} {terms : SwapTerms} {nets : ChainParams × ChainParams}
variable {keys : SwapRole → KeyPair} {hashlock : Fixed 32}

/-- The contract of the leg `funder` funds, from either side or from what was relayed. -/
def contractOf (lib : BitcoinLib) (terms : SwapTerms) (nets : ChainParams × ChainParams)
    (keys : SwapRole → KeyPair) (hashlock : Fixed 32) : SwapRole → Except WalletError HtlcContract
  | .initiator => HtlcContract.tryBuild lib.toCrypto nets.2 terms.contractVersion hashlock
      (keys .participant).1 (keys .initiator).1 terms.xbtLocktime terms.xbtSat
  | .participant => HtlcContract.tryBuild lib.toCrypto nets.1 terms.contractVersion hashlock
      (keys .initiator).2 (keys .participant).2 terms.btcLocktime terms.btcSat

variable {contract : HtlcContract} (swapId : Fixed 16)

section

variable (built : contractOf lib terms nets keys hashlock funder = .ok contract)
include built

theorem buildOurContract_machineOf :
    (machineOf terms keys hashlock swapId funder).buildOurContract lib (funder.sendParams nets) =
      .ok (contract,
        { machineOf terms keys hashlock swapId funder with ourContract := some contract }) := by
  cases funder with
  | initiator | participant =>
    have made : tryBuild _ _ _ _ _ _ _ _ = .ok contract := built
    simp only [machineOf, SwapMachine.new, paramsFromTerms, SwapMachine.buildOurContract,
      SwapRole.sendParams, SwapRole.other]
    rw [made]
    rfl

theorem expectedTheirContract_machineOf :
    (machineOf terms keys hashlock swapId funder.other).expectedTheirContract lib
      (funder.other.recvParams nets) = .ok contract := by
  cases funder with
  | initiator | participant =>
    have made : tryBuild _ _ _ _ _ _ _ _ = .ok contract := built
    simp only [machineOf, SwapMachine.new, paramsFromTerms, SwapMachine.expectedTheirContract,
      SwapRole.recvParams, SwapRole.other]
    rw [made]
    rfl

end

theorem legContract_relayed
    (network : networkParams terms.network = .ok nets) (trip : KeysTrip lib keys)
    (known : Relayed terms keys hashlock m)
    (built : contractOf lib terms nets keys hashlock funder = .ok contract) :
    legContract lib m funder.sendChain = some contract := by
  have initiator := trip .initiator
  have participant := trip .participant
  rw [legContract, known.keys_eq, known.hashlock_eq, known.terms_eq]
  cases funder with
  | initiator =>
    have made : tryBuild _ _ _ _ _ _ _ _ = .ok contract := built
    simp [relayed, hex32_hexEncode, network, pubkeyFromStr_hexEncode initiator.1,
      pubkeyFromStr_hexEncode participant.1, made, SwapRole.sendChain, Except.toOption]
  | participant =>
    have made : tryBuild _ _ _ _ _ _ _ _ = .ok contract := built
    simp [relayed, hex32_hexEncode, network, pubkeyFromStr_hexEncode initiator.2,
      pubkeyFromStr_hexEncode participant.2, made, SwapRole.sendChain, Except.toOption]

theorem not_sameLeg_of_keys (trip : KeysTrip lib keys) (known : Relayed terms keys hashlock m)
    (ne : (keys .participant).1 ≠ (keys .initiator).2) : ¬ SameLeg lib m .xbt m .btc := by
  have initiator := trip .initiator
  have participant := trip .participant
  rintro ⟨_, _, same, _⟩
  simp only [legKeys, known.keys_eq, relayed, pubkeyFromStr_hexEncode initiator.1,
    pubkeyFromStr_hexEncode initiator.2, pubkeyFromStr_hexEncode participant.1,
    pubkeyFromStr_hexEncode participant.2, bind_eq_bind, bind_some, pure_def,
    some.injEq, Prod.mk.injEq] at same
  exact ne same.1

/-- The contract a side funds, the one the other side expects and the edge's script are one, and the
edge recognises the spends of a leg by it. -/
theorem contracts_agree
    (version : terms.contractVersion = contractV1 ∨ terms.contractVersion = contractV2)
    (network : networkParams terms.network = .ok nets) (trip : KeysTrip lib keys)
    (hashlock : Fixed 32) (ourId theirId : Fixed 16) (funder : SwapRole) : ∃ contract,
      (machineOf terms keys hashlock ourId funder).buildOurContract lib (funder.sendParams nets) =
        .ok (contract,
          { machineOf terms keys hashlock ourId funder with ourContract := some contract }) ∧
      (machineOf terms keys hashlock theirId funder.other).expectedTheirContract lib
        (funder.other.recvParams nets) = .ok contract ∧ (∀ m, Relayed terms keys hashlock m →
        legWitnessScript lib m funder.sendChain = some contract.witnessScript ∧
          newP2wsh (lib.sha256 contract.witnessScript) = contract.scriptPubkey ∧
            m.terms.legSat funder.sendChain = contract.value) ∧
      (∀ store m outpoint scriptPubkey value redeemer tx raw,
        m ∈ store.allMatches → Relayed terms keys hashlock m →
        m.funding funder.sendChain = some (outpoint.txid.toStr, outpoint.vout) →
        (machineOf terms keys hashlock theirId funder.other).verifyTheirOutput lib scriptPubkey
          value (funder.other.recvParams nets) = .ok redeemer → LegSpend lib
          { machineOf terms keys hashlock ourId funder with ourContract := some contract }
          redeemer outpoint tx → lib.fromHex (trim raw) = some tx →
          isSwapSpend lib store funder.sendChain raw = true) ∧
      (∀ store chain outpoint m' chain' script tx raw,
        legWitnessScript lib m' chain' = some script → RevealsAt outpoint script tx →
        lib.fromHex (trim raw) = some tx → m'.terms.legLocktime chain' < u32Size →
        (∀ m ∈ store.matchesFundedBy chain outpoint.txid.toStr outpoint.vout,
          m.terms.legLocktime chain < u32Size ∧ KeysDistinct lib m chain m' chain' ∧
            ¬ SameLeg lib m chain m' chain') → isSwapSpend lib store chain raw = false) ∧
      ((keys .participant).1 ≠ (keys .initiator).2 →
        ∀ m, Relayed terms keys hashlock m → ¬ SameLeg lib m .xbt m .btc) := by
  obtain ⟨contract, built⟩ : ∃ contract, contractOf lib terms nets keys hashlock funder =
      .ok contract := by
    cases funder with
    | initiator | participant => exact tryBuild_known _ _ version _ _ _ _ _
  have expected := expectedTheirContract_machineOf theirId built
  refine ⟨contract, buildOurContract_machineOf ourId built, expected, ?_, ?_, ?_, ?_⟩
  · intro m known
    have found := legContract_relayed network trip known built
    obtain ⟨_, _, _, _, _, _, made⟩ := legContract_eq_some found
    have fields := tryBuild_fields made
    exact ⟨by rw [legWitnessScript, found]; rfl, fields.scriptPubkey_eq.symm, fields.value_eq.symm⟩
  · intro store m outpoint scriptPubkey value redeemer tx raw stored known funded verified spend
      decoded
    have kept : redeemer.theirContract = some contract := by
      rw [SwapMachine.verifyTheirOutput, expected] at verified
      obtain ⟨_, same, verified⟩ := ok_of_bind verified
      cases same
      obtain ⟨_, _, verified⟩ := ok_of_bind verified
      cases verified
      rfl
    have found := legContract_relayed network trip known built
    have here : m ∈ store.matchesFundedBy funder.sendChain outpoint.txid.toStr outpoint.vout := by
      simp [Store.matchesFundedBy, stored, funded]
    exact isSwapSpend_iff.mpr ⟨tx, outpoint, contract.witnessScript, m, decoded, here,
      by rw [legWitnessScript, found]; rfl, spend.reveals rfl kept⟩
  · intro store chain outpoint m' chain' script tx raw scripted' reveals decoded u32' others
    by_contra recognised
    obtain ⟨tx', outpoint', script', m, decoded', here, scripted, input, inputs, rfl, last⟩ :=
      isSwapSpend_iff.mp (by simpa using recognised)
    obtain ⟨input', inputs', rfl, last'⟩ := reveals
    rw [decoded] at decoded'
    cases decoded'
    rw [inputs] at inputs'
    cases inputs'
    rw [last] at last'
    cases last'
    obtain ⟨u32, distinct, ne⟩ := others m here
    exact ne (sameLeg_of_script u32 u32' distinct scripted scripted')
  intro ne m known
  exact not_sameLeg_of_keys trip known ne

end Agree

namespace AgreementSample

open HtlcSample

def keys : SwapRole → KeyPair
  | .initiator =>
    (⟨fixed 33 0x02f9308a019258c31049344f85f89d5229b531c845836f99b08601f113bce036f9⟩, redeemPubkey)
  | .participant =>
    (⟨fixed 33 0x02e493dbf1c10d80f3581e4904930b1404cc6c13900ee0758474fa94abe8c4cd13⟩, refundPubkey)

def terms : SwapTerms where
  matchId := "m"
  network := "bitcoin"
  xbtSat := 200000
  btcSat := 100000
  priceSatPerXbt := 50000000
  feeBps := swapFeeBps
  feeAddress := ""
  matchedAt := 1699913600
  xbtLocktime := 1700086400
  btcLocktime := 1700000000
  xbtConfs := 6
  btcConfs := 2
  acceptBy := 1699913720
  initiatorFundBy := 1699915400
  contractVersion := contractV2

def refundDer : Bytes :=
  (fixed 35 0x3044022041e2256e17dfe0a85626e6025fd3141ad25b8f2484e9ce64fcea7e4b768a62).val ++
    (fixed 35 0xd002206e7d1c6e262669379c3386e0fd57e762c97ae0ced31f7fd1b1e0272f3b1b8274).val

def refund : Transaction where
  version := 2
  lockTime := 1700000000
  input := [{
    previousOutput := prevout
    scriptSig := []
    sequence := enableRbfNoLocktime
    witness := refundWitness contractV2 (refundDer ++ [1]) refundPubkey.serialize.val
      contract.witnessScript }]
  output := contract.spendOutputs 97220 dest

def refundRaw : Bytes :=
  (fixed 7 0x02000000000101).val ++ prevout.txid.val ++ [1, 0, 0, 0, 0] ++
    (fixed 5 0xfdffffff02).val ++ (fixed 8 0xc47b010000000000).val ++ 22 :: dest ++
      (fixed 8 0).val ++ 103 :: (opReturnOutput replayGuard).scriptPubkey ++ [5, 71] ++
        refundDer ++ [1, 33] ++ refundPubkey.serialize.val ++ [1, 1, 0, 172] ++
          contract.witnessScript ++ (fixed 4 0x00f15365).val

def refundKey : SwapKey := ⟨fixed 32 2, 1⟩

def lib : BitcoinLib where
  toCrypto := HtlcSample.crypto
  serialize tx := if tx = refund then refundRaw else []
  deserialize bytes := if bytes = refundRaw then some refund else none
  publicKey _ := refundPubkey
  fromSlice bytes :=
    [(keys .initiator).1, (keys .initiator).2, (keys .participant).1, (keys .participant).2].find?
      fun key => key.serialize.val = bytes
  signEcdsa _ _ := refundDer
  verifyEcdsa _ _ _ := false
  p2wshSignatureHash _ _ _ _ :=
    .ok (fixed 32 0x432a1cbc0b5d2a81c68dd5e1d6155884c2ec1528c69b08cfd64eb43426bb4d40)
  unifiedDigest _ _ _ _ := fixed 32 0

def funded : Match where
  id := "m"
  terms := terms
  initiatorOffer := "seller"
  participantOffer := "buyer"
  initiatorToken := "one"
  participantToken := "two"
  initiatorSecretHash := fixed 32 1
  participantSecretHash := fixed 32 2
  accepted := (true, true)
  status := .participantFunded
  xbtFunding := none
  btcFunding := some (prevout.txid.toStr, prevout.vout)
  participantFundBy := none
  preMatchAmounts := (200000, 100000)
  closedAt := none
  keys := (some (relayed (keys .initiator)), some (relayed (keys .participant)))
  hashlock := some (hexEncode hashlock.val)
  missedParticipantDeadline := false
  releaseTxs := none
  releaseSigs := none

def swapId : Fixed 16 := fixed 16 0

end AgreementSample

open AgreementSample in
theorem contracts_agree_refund : ∃ contract,
      (machineOf terms keys HtlcSample.hashlock swapId .participant).buildOurContract lib .bitcoin =
        .ok (contract, { machineOf terms keys HtlcSample.hashlock swapId .participant with
          ourContract := some contract }) ∧
      (machineOf terms keys HtlcSample.hashlock swapId .initiator).expectedTheirContract lib
        .bitcoin = .ok contract ∧
      legWitnessScript lib funded .btc = some contract.witnessScript ∧
      isSwapSpend lib ((Store.opened []).saveMatch funded) .btc (hexEncode refundRaw) = true := by
  have trip : KeysTrip lib keys := by
    intro role
    cases role <;> decide
  have version : terms.contractVersion = contractV1 ∨ terms.contractVersion = contractV2 := .inr rfl
  have network : networkParams terms.network = .ok (.bitcoin, .blake2b) := rfl
  obtain ⟨contract, built, expected, rebuilt, recognised, _⟩ :=
    contracts_agree version network trip HtlcSample.hashlock swapId swapId .participant
  have made : (machineOf terms keys HtlcSample.hashlock swapId .initiator).expectedTheirContract lib
      .bitcoin = .ok HtlcSample.contract := by decide +kernel
  obtain rfl : contract = HtlcSample.contract := Except.ok.inj (expected.symm.trans made)
  have known : Relayed terms keys HtlcSample.hashlock funded := ⟨rfl, rfl, rfl⟩
  have verified : (machineOf terms keys HtlcSample.hashlock swapId .initiator).verifyTheirOutput lib
      HtlcSample.contract.scriptPubkey terms.btcSat .bitcoin =
        .ok { machineOf terms keys HtlcSample.hashlock swapId .initiator with
          theirContract := some HtlcSample.contract } := by decide +kernel
  have signed : ({ machineOf terms keys HtlcSample.hashlock swapId .participant with
      ourContract := some HtlcSample.contract } : SwapMachine).signedRefund lib HtlcSample.prevout
        HtlcSample.dest refundKey [10] = .ok [refund] := by decide +kernel
  have decoded : lib.fromHex (trim (hexEncode refundRaw)) = some refund := by
    rw [trim_hexEncode, Codec.fromHex, hexDecode_hexEncode]
    simp only [lib, bind_eq_bind, bind_some, if_true]
  have stored : funded ∈ ((Store.opened []).saveMatch funded).allMatches :=
    Table.mem_of_get? (Table.get?_put_self _ funded)
  exact ⟨HtlcSample.contract, built, expected, (rebuilt funded known).1,
    recognised _ funded HtlcSample.prevout _ _ _ refund _ stored known rfl verified
      (.refund signed List.mem_cons_self) decoded⟩

end Fortis.Edge
