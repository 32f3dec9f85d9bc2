import Fortis.Core.Htlc
import Fortis.Lib.Prog

/-!
# One wallet's half of a swap

The swap machine a phone keeps: the parameters both phones derive from the
terms, the contract it funds, the contract it expects, and the refunds, redeems
and releases it signs.
-/

namespace Fortis.Core

open Lib

structure BitcoinLib extends Crypto, Codec where
  publicKey : Fixed 32 → PublicKey
  fromSlice : Bytes → Option PublicKey
  signEcdsa : Fixed 32 → Fixed 32 → Bytes
  verifyEcdsa : Fixed 32 → Bytes → PublicKey → Bool
  p2wshSignatureHash : Transaction → Nat → Bytes → Nat → Except String (Fixed 32)
  unifiedDigest : Transaction → List TxOut → Nat → Bytes → Fixed 32

structure SwapKey where
  secret : Fixed 32
  flag : UInt8

def SighashVariant.flag : SighashVariant → UInt8
  | segwitV0 => 1
  | unified => 33

namespace SwapKey

variable (lib : BitcoinLib)

def pubkey (key : SwapKey) : PublicKey := lib.publicKey key.secret

def sign (key : SwapKey) (message : Fixed 32) : Bytes :=
  lib.signEcdsa message key.secret ++ [key.flag]

end SwapKey

def sighashAll (lib : BitcoinLib) (tx : Transaction) (prevouts : List TxOut) (index : Nat)
    (scriptCode : Bytes) : SighashVariant → Except WalletError (Fixed 32)
  | .segwitV0 =>
    match prevouts[index]? with
    | none => throw (.bitcoin "prevout missing for input")
    | some prevout =>
      match lib.p2wshSignatureHash tx index scriptCode prevout.value with
      | .ok message => pure message
      | .error text => throw (.bitcoin text)
  | .unified =>
    if prevouts.length ≠ tx.input.length then
      throw (.invalidSwapParams "prevouts length must equal input count")
    else if tx.input.length ≤ index then
      throw (.invalidSwapParams "input_index out of range")
    else pure (lib.unifiedDigest tx prevouts index scriptCode)

def HtlcContract.spendSighash (lib : BitcoinLib) (contract : HtlcContract) (tx : Transaction)
    (index : Nat) : Except WalletError (Fixed 32) :=
  sighashAll lib tx [contract.fundingOutput] index contract.witnessScript contract.sighashVariant

/-- A party's keys: `(xbt, btc)`. -/
abbrev KeyPair := PublicKey × PublicKey

structure SwapParams where
  swapId : Fixed 16
  role : SwapRole
  (sendChain recvChain : Chain)
  (sendAmount recvAmount : Nat)
  hashlock : Fixed 32
  (ourPubkeySend theirPubkeySend ourPubkeyRecv theirPubkeyRecv : PublicKey)
  (ourContractLocktime theirContractLocktime requiredIncomingConfs contractVersion : Nat)
  deriving DecidableEq

def paramsFromTerms (terms : SwapTerms) (role : SwapRole) (ours theirs : KeyPair)
    (hashlock : Fixed 32) (swapId : Fixed 16) : SwapParams :=
  match role with
  | .initiator => {
      swapId, role, hashlock
      sendChain := .xbt
      recvChain := .btc
      sendAmount := terms.xbtSat
      recvAmount := terms.btcSat
      ourPubkeySend := ours.1
      theirPubkeySend := theirs.1
      ourPubkeyRecv := ours.2
      theirPubkeyRecv := theirs.2
      ourContractLocktime := terms.xbtLocktime
      theirContractLocktime := terms.btcLocktime
      requiredIncomingConfs := terms.btcConfs
      contractVersion := terms.contractVersion }
  | .participant => {
      swapId, role, hashlock
      sendChain := .btc
      recvChain := .xbt
      sendAmount := terms.btcSat
      recvAmount := terms.xbtSat
      ourPubkeySend := ours.2
      theirPubkeySend := theirs.2
      ourPubkeyRecv := ours.1
      theirPubkeyRecv := theirs.1
      ourContractLocktime := terms.btcLocktime
      theirContractLocktime := terms.xbtLocktime
      requiredIncomingConfs := terms.xbtConfs
      contractVersion := terms.contractVersion }

inductive SwapState
  | negotiated
  | ourFundingBroadcast (txid : Txid)
  | counterpartyFundingConfirmed
  | redeemed (preimage : Fixed 32)
  | settled
  | refunded
  | failed (reason : String)
  deriving DecidableEq

inductive SwapEvent
  | ourFundingBroadcast (txid : Txid)
  | counterpartyFunded (confirmations : Nat)
  | counterpartyRedeemed (preimage : Fixed 32)
  | ourOutputConfirmed (confirmations : Nat)
  | timelockExpired

structure SwapMachine where
  params : SwapParams
  state : SwapState
  (ourContract theirContract : Option HtlcContract)
  (ourOutpoint theirOutpoint : Option OutPoint)
  deriving DecidableEq

namespace SwapMachine

def new (params : SwapParams) : SwapMachine := ⟨params, .negotiated, none, none, none, none⟩

def onEvent (machine : SwapMachine) (event : SwapEvent) : SwapMachine :=
  let state := match machine.state, event with
    | .negotiated, .ourFundingBroadcast txid => .ourFundingBroadcast txid
    | state, .counterpartyFunded confirmations =>
      if machine.params.requiredIncomingConfs ≤ confirmations then .counterpartyFundingConfirmed
      else state
    | _, .counterpartyRedeemed preimage => .redeemed preimage
    | .redeemed preimage, .ourOutputConfirmed confirmations =>
      if machine.params.requiredIncomingConfs ≤ confirmations then .settled
      else .redeemed preimage
    | .ourFundingBroadcast _, .timelockExpired => .refunded
    | state, _ => state
  { machine with state }

variable (lib : BitcoinLib) (machine : SwapMachine)

def buildOurContract (sendParams : ChainParams) : Outcome (HtlcContract × SwapMachine) := do
  let contract ← Outcome.lift <| HtlcContract.tryBuild lib.toCrypto sendParams
    machine.params.contractVersion machine.params.hashlock machine.params.theirPubkeySend
    machine.params.ourPubkeySend machine.params.ourContractLocktime machine.params.sendAmount
  return (contract, { machine with ourContract := some contract })

def expectedTheirContract (recvParams : ChainParams) : Outcome HtlcContract :=
  Outcome.expect "terms carry a known contract version" <|
    HtlcContract.tryBuild lib.toCrypto recvParams machine.params.contractVersion
      machine.params.hashlock machine.params.ourPubkeyRecv machine.params.theirPubkeyRecv
      machine.params.theirContractLocktime machine.params.recvAmount

def verifyTheirOutput (scriptPubkey : Bytes)
    (value : Nat) (recvParams : ChainParams) : Outcome SwapMachine := do
  let expected ← machine.expectedTheirContract lib recvParams
  refuseIf (scriptPubkey ≠ expected.scriptPubkey ∨ value ≠ machine.params.recvAmount)
    (.err .contractMismatch)
  return { machine with theirContract := some expected }

end SwapMachine

def maxSwapFeerateSatVb : Nat := 500

/-- Version 0 to 16 and one push of 2 to 40 bytes. -/
def isWitnessProgram (script : Bytes) : Bool :=
  match script with
  | version :: size :: program =>
    (version = 0 || (81 ≤ version && version ≤ 96)) && (2 ≤ size && size ≤ 40) &&
      program.length = size.toNat
  | _ => false

/-- `Script::minimal_non_dust`. -/
def minimalNonDust (script : Bytes) : Nat :=
  let cost :=
    if script.head? = some 106 then 0
    else if isWitnessProgram script then 32 + 4 + 1 + 107 / 4 + 4 + 8 + varBytesSize script
    else 32 + 4 + 1 + 107 + 4 + 8 + varBytesSize script
  3000 * cost / 1000

def spendFees (contract : HtlcContract) (path : HtlcPath) (dest : Bytes) (feerates : List Nat) :
    Outcome (List Nat) := do
  refuseIf (feerates = []) (.err (.invalidInput "no feerates given"))
  let dust := minimalNonDust dest
  feerates.foldlM (fun fees rate => do
    let fee ← htlcSpendFee contract path (min rate maxSwapFeerateSatVb)
    refuseIf (contract.value ≤ dust) (.err (.insufficientFunds (fee + dust) contract.value))
    let fee := min fee (contract.value - dust)
    return if fee ∈ fees then fees else fees ++ [fee]) []

/-! ## Spends -/

def checkKey (lib : BitcoinLib) (key : SwapKey) (expected : PublicKey) (contract : HtlcContract) :
    Outcome Unit :=
  refuseIf (key.pubkey lib ≠ expected ∨ key.flag ≠ contract.sighashVariant.flag)
    (.err (.invalidSwapParams "swap key does not match contract"))

/-- A redeem signed before the preimage is known. -/
structure PresignedRedeem where
  (txHex sigHex pubkeyHex witnessScriptHex : String)

def badPresigned (what : String) : Fault :=
  .err (.invalidInput ("presigned redeem: bad " ++ what))

def finishPresignedRedeem (lib : BitcoinLib) (presigned : PresignedRedeem) (preimage : Fixed 32) :
    Outcome Transaction := do
  let tx ← orFail (lib.fromHex presigned.txHex) (badPresigned "tx")
  let sig ← orFail (hexDecode presigned.sigHex) (badPresigned "signature")
  let pubkey ← orFail ((hexDecode presigned.pubkeyHex).bind lib.fromSlice) (badPresigned "pubkey")
  let witnessScript ← orFail (hexDecode presigned.witnessScriptHex) (badPresigned "witness script")
  refuseIf (tx.input.length ≠ 1) (badPresigned "tx (expected one input)")
  refuseIf (scriptHashlock witnessScript ≠ some (lib.sha256 preimage.val))
    (.err (.invalidInput "preimage does not match hashlock"))
  return tx.setWitness 0 (redeemWitness sig pubkey preimage witnessScript)

namespace SwapRole

def sendParams (params : ChainParams × ChainParams) : SwapRole → ChainParams
  | initiator => params.2
  | participant => params.1

def recvParams (params : ChainParams × ChainParams) : SwapRole → ChainParams
  | initiator => params.1
  | participant => params.2

end SwapRole

namespace SwapMachine

variable (lib : BitcoinLib)

variable (machine : SwapMachine)

def builtContract : Outcome HtlcContract :=
  orFail machine.ourContract (.err (.swapState "our contract built" "none"))

def verifiedContract : Outcome HtlcContract :=
  orFail machine.theirContract (.err (.swapState "their contract verified" "none"))

def signedRefund (outpoint : OutPoint) (dest : Bytes) (key : SwapKey)
    (feerates : List Nat) : Outcome (List Transaction) := do
  let contract ← machine.builtContract
  checkKey lib key machine.params.ourPubkeySend contract
  (← spendFees contract .refund dest feerates).mapM fun fee => do
    let tx ← Outcome.lift (contract.refundTx outpoint dest fee)
    let message ← Outcome.lift (contract.spendSighash lib tx 0)
    return contract.finalizeRefund tx 0 (key.sign lib message) (key.pubkey lib)

def presignRedeem (outpoint : OutPoint) (dest : Bytes) (key : SwapKey)
    (feerates : List Nat) : Outcome (List PresignedRedeem) := do
  let contract ← machine.verifiedContract
  checkKey lib key machine.params.ourPubkeyRecv contract
  (← spendFees contract .redeem dest feerates).mapM fun fee => do
    let tx ← Outcome.lift (contract.redeemTx outpoint dest fee)
    let message ← Outcome.lift (contract.spendSighash lib tx 0)
    return {
      txHex := lib.toHex tx
      sigHex := hexEncode (key.sign lib message)
      pubkeyHex := hexEncode (key.pubkey lib).serialize.val
      witnessScriptHex := hexEncode contract.witnessScript }

def signedRedeem (outpoint : OutPoint) (dest : Bytes) (key : SwapKey)
    (preimage : Fixed 32) (feerates : List Nat) : Outcome (List Transaction) := do
  refuseIf (lib.sha256 preimage.val ≠ machine.params.hashlock)
    (.err (.invalidInput "preimage does not match hashlock"))
  (← machine.presignRedeem lib outpoint dest key feerates).mapM fun presigned =>
    finishPresignedRedeem lib presigned preimage

def releaseTxs (outpoint : OutPoint) (dest : Bytes)
    (feerates : List Nat) : Outcome (List Transaction) := do
  let contract ← machine.builtContract
  refuseIf (contract.hasRelease = false)
    (.err (.invalidSwapParams "this swap's contract has no release"))
  (← spendFees contract .release dest feerates).mapM fun fee =>
    Outcome.lift (contract.releaseTx outpoint dest fee)

def signTheirRelease (tx : Transaction) (outpoint : OutPoint)
    (key : SwapKey) (recvParams : ChainParams) : Outcome Bytes := do
  let contract ← machine.expectedTheirContract lib recvParams
  refuseIf (contract.hasRelease = false)
    (.err (.invalidSwapParams "this swap's contract has no release"))
  checkKey lib key machine.params.ourPubkeyRecv contract
  match tx.input with
  | [input] =>
    refuseIf (input.previousOutput ≠ outpoint)
      (.err (.invalidInput "the release doesn't spend their contract"))
    return key.sign lib (← Outcome.lift (contract.spendSighash lib tx 0))
  | _ => throw (.err (.invalidInput "a release spends exactly one input"))

/-- `tx` has the inputs, the lock time and the outputs, but for the amount, of our release. -/
def sameShape (tx ours : Transaction) (outpoint : OutPoint) (dest : Bytes) : Bool :=
  match tx.input, ours.input, tx.output, ours.output with
  | [input], [ownInput], payout :: extra, _ :: ownExtra =>
    input.previousOutput = outpoint && tx.lockTime = ours.lockTime &&
      input.sequence = ownInput.sequence && payout.scriptPubkey = dest && extra = ownExtra
  | _, _, _, _ => false

def sigVerifies (message : Fixed 32) (sig : Bytes) (flag : UInt8) (key : PublicKey) : Bool :=
  sig.getLast? = some flag && lib.verifyEcdsa message sig.dropLast key

def finishRelease (machine : SwapMachine) (tx : Transaction) (outpoint : OutPoint) (dest : Bytes)
    (theirSig : Bytes) (key : SwapKey) : Outcome Transaction := do
  let contract ← machine.builtContract
  checkKey lib key machine.params.ourPubkeySend contract
  let maxFee ← htlcSpendFee contract .release maxSwapFeerateSatVb
  let ours ← Outcome.lift (contract.releaseTx outpoint dest 0)
  let paid := tx.output.head?.elim 0 TxOut.value
  refuseIf (sameShape tx ours outpoint dest = false) (.err (.invalidInput "not our release"))
  -- the sum of two amounts panics past 64 bits
  refuseIf (u64Max < paid + maxFee) (.panicked "Amount addition error")
  refuseIf (paid + maxFee < contract.value) (.err (.invalidInput "not our release"))
  let message ← Outcome.lift (contract.spendSighash lib tx 0)
  refuseIf (sigVerifies lib message theirSig key.flag machine.params.theirPubkeySend = false)
    (.err (.invalidInput "the counterparty's release signature doesn't verify"))
  Outcome.lift (contract.finalizeRelease tx 0 theirSig (key.sign lib message))

end SwapMachine

end Fortis.Core
