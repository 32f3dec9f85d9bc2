import Fortis.Core.Bytes

/-!
# Chains and swap terms

The two chains of a swap, their parameters, and the terms both wallets and the
edge agree on.  Amounts are satoshis and times unix seconds; both are machine
integers in the source, so an addition that can leave its width is reduced to
it here.
-/

namespace Fortis.Core

/-- `2 ^ 32`, one past the largest `u32`. -/
def u32Size : Nat := 4294967296

/-- The largest `u64`. -/
def u64Max : Nat := 18446744073709551615

/-- The sum of two `u32` values as a release build computes it. -/
def addU32 (first second : Nat) : Nat := (first + second) % u32Size

/-- The sum of two `u64` values as a release build computes it. -/
def addU64 (first second : Nat) : Nat := (first + second) % (u64Max + 1)

theorem addU64_le (first second : Nat) : addU64 first second ≤ first + second :=
  Nat.mod_le _ _

inductive Chain
  | btc
  | xbt
  deriving DecidableEq

namespace Chain

def asStr : Chain → String
  | btc => "btc"
  | xbt => "xbt"

def other : Chain → Chain
  | btc => xbt
  | xbt => btc

end Chain

inductive Network
  | bitcoin
  | regtest
  deriving DecidableEq

inductive SighashVariant
  | segwitV0
  | unified
  deriving DecidableEq

structure ChainParams where
  chain : Chain
  network : Network
  (bip44CoinType htlcParticipantLocktimeSecs htlcInitiatorLocktimeSecs : Nat)
  requireUnifiedSighash : Bool

namespace ChainParams

def bitcoin : ChainParams where
  chain := .btc
  network := .bitcoin
  bip44CoinType := 0
  htlcParticipantLocktimeSecs := 24 * 3600
  htlcInitiatorLocktimeSecs := 48 * 3600
  requireUnifiedSighash := false

def blake2b : ChainParams where
  chain := .xbt
  network := .bitcoin
  bip44CoinType := 0
  htlcParticipantLocktimeSecs := 72 * 3600
  htlcInitiatorLocktimeSecs := 48 * 3600
  requireUnifiedSighash := true

def bitcoinRegtest : ChainParams :=
  { bitcoin with
    network := .regtest
    bip44CoinType := 1
    htlcParticipantLocktimeSecs := 600
    htlcInitiatorLocktimeSecs := 1200 }

def blake2bRegtest : ChainParams :=
  { blake2b with
    network := .regtest
    bip44CoinType := 1
    htlcParticipantLocktimeSecs := 900
    htlcInitiatorLocktimeSecs := 1800 }

def sighashVariant (params : ChainParams) : SighashVariant :=
  if params.requireUnifiedSighash then .unified else .segwitV0

end ChainParams

inductive WalletError
  | derivation (text : String)
  | insufficientFunds (need have' : Nat)
  | invalidInput (text : String)
  | invalidSwapParams (text : String)
  | swapState (expected actual : String)
  | contractMismatch
  | termsRejected (text : String)
  | bitcoin (text : String)
  deriving DecidableEq

inductive SwapRole
  | initiator
  | participant
  deriving DecidableEq

namespace SwapRole

def other : SwapRole → SwapRole
  | initiator => participant
  | participant => initiator

def sendChain : SwapRole → Chain
  | initiator => .xbt
  | participant => .btc

def asStr : SwapRole → String
  | initiator => "initiator"
  | participant => "participant"

end SwapRole

def swapFeeBps : Nat := 50
def minBtcLegSat : Nat := 2000
def xbtConfs : Nat := 6
def btcConfs : Nat := 2
def acceptSecs : Nat := 120
def initiatorFundSecs : Nat := 1800
def participantFundSecs : Nat := 7200
def minBtcLegLeftSecs : Nat := 12 * 3600

def contractV1 : Nat := 1
def contractV2 : Nat := 2
def currentContract : Nat := contractV2

structure SwapTerms where
  (matchId network : String)
  (xbtSat btcSat priceSatPerXbt feeBps : Nat)
  feeAddress : String
  (matchedAt xbtLocktime btcLocktime xbtConfs btcConfs acceptBy initiatorFundBy : Nat)
  contractVersion : Nat
  deriving DecidableEq

def SwapTerms.legSat (terms : SwapTerms) : Chain → Nat
  | .xbt => terms.xbtSat
  | .btc => terms.btcSat

def SwapTerms.legLocktime (terms : SwapTerms) : Chain → Nat
  | .xbt => terms.xbtLocktime
  | .btc => terms.btcLocktime

def btcForXbt (xbtSat priceSatPerXbt : Nat) : Nat :=
  min (xbtSat * priceSatPerXbt / 100000000) u64Max

def participantFundLatest (terms : SwapTerms) : Nat :=
  let leg := terms.btcLocktime - terms.matchedAt
  terms.btcLocktime - min minBtcLegLeftSecs (leg / 2)

def networkParams (network : String) : Except WalletError (ChainParams × ChainParams) :=
  if network = "bitcoin" then .ok (.bitcoin, .blake2b)
  else if network = "regtest" then .ok (.bitcoinRegtest, .blake2bRegtest)
  else .error (.termsRejected ("unknown network " ++ network))

structure SwapTimelocks where
  (xbtLegSecs btcLegSecs : Nat)

def swapTimelocks (btc xbt : ChainParams) : SwapTimelocks where
  xbtLegSecs := xbt.htlcInitiatorLocktimeSecs
  btcLegSecs := btc.htlcParticipantLocktimeSecs

end Fortis.Core
