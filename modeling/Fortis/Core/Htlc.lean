import Fortis.Lib.Script
import Fortis.Core.Tx

/-!
# The hash time-locked contract of one swap leg

The two contract scripts as the wallet library builds them, the transactions
and witnesses that spend them, and the search for a revealed preimage.  Hashes,
signatures and signature hashes are the Bitcoin library's: `Crypto`.
-/

namespace Fortis.Core

open Lib

structure PublicKey where
  serialize : Fixed 33
  deriving DecidableEq

/-- What the library computes; `checkSig tx index prevout scriptCode sig key` is consensus'
check. -/
structure Crypto where
  sha256 : Bytes → Fixed 32
  hash160 : Bytes → Fixed 20
  checkSig : Transaction → Nat → TxOut → Bytes → Bytes → Bytes → Bool

def Crypto.pubkeyHash (crypto : Crypto) (key : PublicKey) : Fixed 20 :=
  crypto.hash160 key.serialize.val

section Scripts

open Script Script.Token

def opIf : Token := plain .branch
def opElse : Token := plain .otherwise
def opEndif : Token := plain .endBranch
def opSize : Token := plain (.op .size)
def opEqualverify : Token := plain (.op .equalVerify)
def opSha256 : Token := plain (.op .sha256)
def opDup : Token := plain (.op .dup)
def opHash160 : Token := plain (.op .hash160)
def opCltv : Token := plain (.op .checkLockTimeVerify)
def opDrop : Token := plain (.op .drop)
def opChecksig : Token := plain (.op .checkSig)
def opChecksigverify : Token := plain (.op .checkSigVerify)

variable (crypto : Crypto) (hashlock : Fixed 32) (redeemPubkey refundPubkey : PublicKey)
  (locktime : Nat)

def contractTokens : List Token :=
  let redeemPkh := crypto.pubkeyHash redeemPubkey
  let refundPkh := crypto.pubkeyHash refundPubkey
  [opIf, opSize, int 32, opEqualverify, opSha256, slice hashlock.val, opEqualverify,
    opDup, opHash160, slice redeemPkh.val,
    opElse, int locktime, opCltv, opDrop, opDup, opHash160, slice refundPkh.val,
    opEndif, opEqualverify, opChecksig]

def contractTokensV2 : List Token :=
  let redeemPkh := crypto.pubkeyHash redeemPubkey
  let refundPkh := crypto.pubkeyHash refundPubkey
  [opIf, opSize, int 32, opEqualverify, opSha256, slice hashlock.val, opEqualverify,
    opDup, opHash160, slice redeemPkh.val, opEqualverify, opChecksig,
    opElse, opIf, int locktime, opCltv, opDrop, opDup, opHash160, slice refundPkh.val,
    opEqualverify, opChecksig,
    opElse, slice refundPubkey.serialize.val, opChecksigverify, slice redeemPubkey.serialize.val,
    opChecksig, opEndif, opEndif]

end Scripts

variable (crypto : Crypto) (hashlock : Fixed 32) (redeemPubkey refundPubkey : PublicKey)
  (locktime : Nat)

def contractScript : Bytes :=
  Script.build (contractTokens crypto hashlock redeemPubkey refundPubkey locktime)

def contractScriptV2 : Bytes :=
  Script.build (contractTokensV2 crypto hashlock redeemPubkey refundPubkey locktime)

/-! ## The contract -/

inductive HtlcPath
  | redeem
  | refund
  | release
  deriving DecidableEq

structure HtlcContract where
  version : Nat
  (witnessScript scriptPubkey : Bytes)
  value : Nat
  hashlock : Fixed 32
  locktime : Nat
  sighashVariant : SighashVariant
  deriving DecidableEq

/-- `ScriptBuf::new_p2wsh`: version 0 and a 32-byte program. -/
def newP2wsh (scriptHash : Fixed 32) : Bytes := 0 :: 32 :: scriptHash.val

/-- `OP_RETURN` and one push. -/
def opReturnOutput (data : Bytes) : TxOut where
  value := 0
  scriptPubkey := 106 :: Script.pushSlice data

def replayGuard : Bytes :=
  ("fortis swap replay guard: over the BLAKE2b fork's 82-byte OP_RETURN cap, so never valid on XBT"
    ++ "......").toList.map fun char => UInt8.ofNat char.toNat

/-- `Sequence::ENABLE_RBF_NO_LOCKTIME`. -/
def enableRbfNoLocktime : Nat := 4294967293

variable {params : ChainParams} {crypto : Crypto} {hashlock : Fixed 32} {contract : HtlcContract}
  {locktime value version : Nat} {redeemPubkey refundPubkey : PublicKey}

namespace HtlcContract

def tryBuild (crypto : Crypto) (params : ChainParams) (version : Nat) (hashlock : Fixed 32)
    (redeemPubkey refundPubkey : PublicKey) (locktime value : Nat) :
    Except WalletError HtlcContract := do
  let witnessScript ←
    if version = contractV1 then
      pure (contractScript crypto hashlock redeemPubkey refundPubkey locktime)
    else if version = contractV2 then
      pure (contractScriptV2 crypto hashlock redeemPubkey refundPubkey locktime)
    else throw (.invalidSwapParams ("unknown contract version " ++ toString version))
  return {
    version, witnessScript
    scriptPubkey := newP2wsh (crypto.sha256 witnessScript)
    value, hashlock, locktime
    sighashVariant := params.sighashVariant }

structure BuiltFrom (crypto : Crypto) (params : ChainParams) (version : Nat) (hashlock : Fixed 32)
    (locktime value : Nat) (contract : HtlcContract) : Prop where
  version_eq : contract.version = version
  known : version = contractV1 ∨ version = contractV2
  scriptPubkey_eq : contract.scriptPubkey = newP2wsh (crypto.sha256 contract.witnessScript)
  value_eq : contract.value = value
  hashlock_eq : contract.hashlock = hashlock
  locktime_eq : contract.locktime = locktime
  sighashVariant_eq : contract.sighashVariant = params.sighashVariant

theorem tryBuild_known (crypto : Crypto) (params : ChainParams)
    (known : version = contractV1 ∨ version = contractV2) (hashlock : Fixed 32)
    (redeemPubkey refundPubkey : PublicKey) (locktime value : Nat) :
    ∃ contract, tryBuild crypto params version hashlock redeemPubkey refundPubkey locktime value =
      .ok contract := by
  rcases known with rfl | rfl
  · exact ⟨_, rfl⟩
  · exact ⟨_, rfl⟩

section

variable (built : tryBuild crypto params version hashlock redeemPubkey refundPubkey locktime value =
    .ok contract)
include built

theorem tryBuild_script : (version = contractV1 ∧ contract.witnessScript =
        contractScript crypto hashlock redeemPubkey refundPubkey locktime) ∨
      (version = contractV2 ∧ contract.witnessScript =
        contractScriptV2 crypto hashlock redeemPubkey refundPubkey locktime) := by
  unfold tryBuild at built
  split at built
  next v1 =>
    cases built
    exact .inl ⟨v1, rfl⟩
  next =>
  split at built
  next v2 =>
    cases built
    exact .inr ⟨v2, rfl⟩
  next => cases built

theorem tryBuild_fields : BuiltFrom crypto params version hashlock locktime value contract := by
  unfold tryBuild at built
  split at built
  next v1 =>
    cases built
    exact ⟨rfl, .inl v1, rfl, rfl, rfl, rfl, rfl⟩
  next =>
  split at built
  next v2 =>
    cases built
    exact ⟨rfl, .inr v2, rfl, rfl, rfl, rfl, rfl⟩
  next => cases built

end

variable (contract : HtlcContract)

def hasRelease : Bool := contractV2 ≤ contract.version

def fundingOutput : TxOut where
  value := contract.value
  scriptPubkey := contract.scriptPubkey

/-- The payout, then the replay guard where signatures do not bind the chain. -/
def spendOutputs (value : Nat) (dest : Bytes) : List TxOut :=
  { value, scriptPubkey := dest } ::
    if contract.sighashVariant = .segwitV0 then [opReturnOutput replayGuard] else []

def spendSkeleton (prevout : OutPoint) (dest : Bytes)
    (fee lockTime sequence : Nat) : Except WalletError Transaction :=
  if contract.value < fee then throw (.insufficientFunds fee contract.value)
  else pure {
    version := 2
    lockTime
    input := [{ previousOutput := prevout, scriptSig := [], sequence, witness := [] }]
    output := contract.spendOutputs (contract.value - fee) dest }

def redeemTx (prevout : OutPoint) (dest : Bytes) (fee : Nat) : Except WalletError Transaction :=
  contract.spendSkeleton prevout dest fee 0 enableRbfNoLocktime

def refundTx (prevout : OutPoint) (dest : Bytes) (fee : Nat) : Except WalletError Transaction :=
  contract.spendSkeleton prevout dest fee contract.locktime enableRbfNoLocktime

def releaseTx (prevout : OutPoint) (dest : Bytes) (fee : Nat) : Except WalletError Transaction := do
  if !contract.hasRelease then
    throw (.invalidSwapParams "this contract has no release branch")
  contract.spendSkeleton prevout dest fee 0 enableRbfNoLocktime

end HtlcContract

def refundWitness (version : Nat) (sig pubkey witnessScript : Bytes) : Witness :=
  [sig, pubkey] ++ (if contractV2 ≤ version then [[1]] else []) ++ [[], witnessScript]

def releaseWitness (redeemSig refundSig witnessScript : Bytes) : Witness :=
  [redeemSig, refundSig, [], [], witnessScript]

def redeemWitness (sig : Bytes) (redeemPubkey : PublicKey) (preimage : Fixed 32)
    (witnessScript : Bytes) : Witness :=
  [sig, redeemPubkey.serialize.val, preimage.val, [1], witnessScript]

/-- `tx.input[index].witness = witness`. -/
def Transaction.setWitness (tx : Transaction) (index : Nat) (witness : Witness) : Transaction :=
  { tx with input := tx.input.modify index fun input => { input with witness } }

namespace HtlcContract

variable (contract : HtlcContract) (tx : Transaction) (index : Nat)

def finalizeRedeem (sig : Bytes) (redeemPubkey : PublicKey) (preimage : Fixed 32) : Transaction :=
  tx.setWitness index (redeemWitness sig redeemPubkey preimage contract.witnessScript)

def finalizeRefund (sig : Bytes) (refundPubkey : PublicKey) : Transaction :=
  tx.setWitness index
    (refundWitness contract.version sig refundPubkey.serialize.val contract.witnessScript)

def finalizeRelease (redeemSig refundSig : Bytes) : Except WalletError Transaction := do
  if !contract.hasRelease then
    throw (.invalidSwapParams "this contract has no release branch")
  return tx.setWitness index (releaseWitness redeemSig refundSig contract.witnessScript)

end HtlcContract

/-- The first 32-byte witness item that hashes to `hashlock`, wherever it sits. -/
def preimageFromWitness (crypto : Crypto) (witness : Witness) (hashlock : Fixed 32) :
    Option (Fixed 32) :=
  (witness.filterMap (Fixed.ofBytes? 32)).find? fun preimage =>
    crypto.sha256 preimage.val = hashlock

/-- The hashlock a script commits to: the 32-byte push after its first `OP_SHA256`. -/
def scriptHashlock (witnessScript : Bytes) : Option (Fixed 32) :=
  match (Script.scan witnessScript.length witnessScript).dropWhile (· ≠ .code 168) with
  | _ :: .data bytes :: _ => Fixed.ofBytes? 32 bytes
  | _ => none

/-- How a library call ends early: an error, or a panic of the calling thread. -/
inductive Fault
  | err (error : WalletError)
  | panicked (text : String)
  deriving DecidableEq

abbrev Outcome := Except Fault

def Outcome.lift {α : Type} : Except WalletError α → Outcome α
  | .ok value => .ok value
  | .error error => .error (.err error)

/-- `Result::expect`. -/
def Outcome.expect {α : Type} (text : String) : Except WalletError α → Outcome α
  | .ok value => .ok value
  | .error _ => .error (.panicked text)

def OutPoint.null : OutPoint := ⟨⟨List.replicate 32 0, List.length_replicate⟩, 4294967295⟩

/-- The fee of a spend along `path`, sized with 72-byte signatures and a 34-byte payout script. -/
def htlcSpendFee (contract : HtlcContract) (path : HtlcPath) (feerateSatVb : Nat) :
    Outcome Nat := do
  let dest : Bytes := List.replicate 34 0
  let sig : Bytes := List.replicate 72 0
  let pubkey : Bytes := List.replicate 33 0
  let path := if path = .release && !contract.hasRelease then .refund else path
  let made := match path with
    | .redeem => contract.redeemTx .null dest 0
    | .refund => contract.refundTx .null dest 0
    | .release => contract.releaseTx .null dest 0
  let tx ← Outcome.expect "a zero fee never exceeds the contract value" made
  let witness := match path with
    | .redeem => [sig, pubkey, List.replicate 32 0, [1], contract.witnessScript]
    | .refund => refundWitness contract.version sig pubkey contract.witnessScript
    | .release => releaseWitness sig sig contract.witnessScript
  return min ((tx.setWitness 0 witness).vsize * feerateSatVb) u64Max

end Fortis.Core
