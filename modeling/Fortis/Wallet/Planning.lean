import Fortis.Core.Htlc
import Fortis.Lib.Prog

/-!
# Planning a payment

The wallet chooses coins for a payment, the fee on top of the amount or out of it, and for a sweep.
All three build an unsigned transaction with a stated fee, an optional service fee output and an
optional change output; a payment consumes a change address when it makes change.

Sums that leave 64 bits are errors, the size arithmetic saturates.  Deriving addresses, the dust
limit of a script and the text of an amount belong to the Bitcoin library and are parameters.
-/

namespace Fortis.Wallet

open Fortis.Core Lib

def checkedAdd (a b : Nat) : Option Nat := if a + b ≤ u64Max then some (a + b) else none

def checkedSub (a b : Nat) : Option Nat := if b ≤ a then some (a - b) else none

def satAdd (a b : Nat) : Nat := min (a + b) u64Max

def satMul (a b : Nat) : Nat := min (a * b) u64Max

/-- How a plan is not made: a reported error, or an overflow the library panics on. -/
inductive Stop
  | failed (error : WalletError)
  | panicked
  deriving DecidableEq

def invalid (text : String) : Stop := .failed (.invalidInput text)

def checkedSumFrom (acc : Nat) : List Nat → Except Stop Nat
  | [] => .ok acc
  | first :: rest =>
    match checkedAdd acc first with
    | some next => checkedSumFrom next rest
    | none => .error (invalid "amount total overflows")

def checkedSum (amounts : List Nat) : Except Stop Nat := checkedSumFrom 0 amounts

variable {total : Nat}

theorem checkedSumFrom_ok {acc : Nat} {amounts : List Nat}
    (summed : checkedSumFrom acc amounts = .ok total) : total = acc + amounts.sum := by
  induction amounts generalizing acc with
  | nil =>
    cases summed
    simp
  | cons first rest ih =>
    unfold checkedSumFrom checkedAdd at summed
    split at summed
    next next fits =>
      split at fits
      · cases fits
        rw [ih summed, List.sum_cons, Nat.add_assoc]
      · cases fits
    · cases summed

theorem checkedSum_ok {amounts : List Nat} (summed : checkedSum amounts = .ok total) :
    total = amounts.sum := by
  simpa using checkedSumFrom_ok summed

theorem checkedAdd_some {a b : Nat} (added : checkedAdd a b = some total) : total = a + b := by
  unfold checkedAdd at added
  split at added
  · exact (Option.some.inj added).symm
  · cases added

theorem checkedSub_some {a b rest : Nat} (subtracted : checkedSub a b = some rest) :
    rest + b = a := by
  unfold checkedSub at subtracted
  split at subtracted
  · cases subtracted
    omega
  · cases subtracted

structure ScriptLib where
  minimalNonDust : Bytes → Nat
  amountText : Nat → String

def opReturn : UInt8 := 0x6a

/-- `Script::is_op_return` -/
def isOpReturn (script : Bytes) : Bool := script.head? = some opReturn

def varintLen (n : Nat) : Nat :=
  if n ≤ 0xfc then 1 else if n ≤ 0xffff then 3 else if n ≤ 0xffffffff then 5 else 9

def outputVb (script : Bytes) : Nat := 8 + varintLen script.length + script.length

def maxServiceFeeBps : Nat := 100

def maxServiceFeeFloorSat : Nat := 2000

structure ServiceFee where
  (bps floorSat capSat : Nat)
  feeSpk : Bytes

namespace ServiceFee

def maxBps : Nat := 1000

def amountSat (fee : ServiceFee) (sendAmountSat : Nat) : Nat :=
  let bps := min fee.bps maxBps
  let pct := min (sendAmountSat * bps / 10000) u64Max
  let amount := max pct fee.floorSat
  if fee.capSat > 0 then min amount fee.capSat else amount

def output (lib : ScriptLib) (fee : ServiceFee) (sendAmountSat : Nat) : Option TxOut :=
  let sat := fee.amountSat sendAmountSat
  if sat = 0 then none else some ⟨max sat (lib.minimalNonDust fee.feeSpk), fee.feeSpk⟩

end ServiceFee

def percentText (bps : Nat) : String :=
  if bps % 100 = 0 then toString (bps / 100)
  else if bps % 10 = 0 then toString (bps / 100) ++ "." ++ toString (bps % 100 / 10)
  else toString (bps / 100) ++ "." ++ toString (bps % 100 / 10) ++ toString (bps % 10)

def checkServiceFee : Option ServiceFee → Except Stop Unit
  | none => .ok ()
  | some fee =>
    refuseIf (fee.bps > maxServiceFeeBps ∨ fee.floorSat > maxServiceFeeFloorSat)
      (invalid ("the server asks for a service fee of " ++ percentText fee.bps ++ "% with a " ++
        toString fee.floorSat ++ " sat minimum: more than this app allows (" ++
        percentText maxServiceFeeBps ++ "%, " ++ toString maxServiceFeeFloorSat ++ " sat)"))

structure Utxo where
  outpoint : OutPoint
  value : Nat
  scriptPubkey : Bytes
  (confirmations derivationIndex : Nat)
  isChange : Bool
  deriving DecidableEq

structure FundingPlan where
  tx : Transaction
  selected : List Utxo
  fee : Nat
  (change serviceFee changeDerivationIndex : Option Nat)
  deriving DecidableEq

def txOverheadVb : Nat := 11

def p2wpkhInputVb : Nat := 68

def changeDustSat : Nat := 294

/-- `Amount::MAX_MONEY` -/
def maxMoney : Nat := 2100000000000000

def maxFeerateSatVb : Nat := 10000

def checkFeerate (feerate : Nat) : Except Stop Unit :=
  refuseIf (feerate = 0 ∨ feerate > maxFeerateSatVb)
    (invalid ("feerate " ++ toString feerate ++ " sat/vB is out of range (1..=" ++
      toString maxFeerateSatVb ++ ")"))

def checkNotDust (lib : ScriptLib) : List TxOut → Except Stop Unit
  | [] => .ok ()
  | out :: rest =>
    if isOpReturn out.scriptPubkey then checkNotDust lib rest
    else if out.value < lib.minimalNonDust out.scriptPubkey then
      .error (invalid ("output of " ++ lib.amountText out.value ++
        " is below the dust limit for its address"))
    else checkNotDust lib rest

structure WalletView where
  /-- The script of the address at a branch and an index below 2^31. -/
  derive : Nat → Nat → Except WalletError Bytes
  (nextReceive nextChange : Nat)

namespace WalletView

def addressAt (view : WalletView) (branch index : Nat) : Except Stop Bytes :=
  if 2 ^ 31 ≤ branch ∨ 2 ^ 31 ≤ index then .error (.failed (.bitcoin "invalid child number"))
  else
    match view.derive branch index with
    | .ok script => .ok script
    | .error e => .error (.failed e)

/-- `next_change += 1` -/
def bumpChange (view : WalletView) : WalletView := { view with nextChange := view.nextChange + 1 }

end WalletView

def unsignedInput (coin : Utxo) : TxIn := ⟨coin.outpoint, [], enableRbfNoLocktime, []⟩

def assemble (selected : List Utxo) (outputs : List TxOut) (fee : Nat) (change : Option Nat)
    (serviceFee : Option Nat) : FundingPlan where
  tx :=
    { version := 2
      lockTime := 0
      input := selected.map unsignedInput
      output := outputs }
  selected := selected
  fee := fee
  change := change
  serviceFee := serviceFee
  changeDerivationIndex := none

def eligible (utxos : List Utxo) (minConfirmations : Nat) : List Utxo :=
  (utxos.filter fun coin => minConfirmations ≤ coin.confirmations).insertionSort
    fun first second => second.value ≤ first.value

def baseVb (inputs : Nat) (outputsVb : Nat) : Nat :=
  satAdd (satAdd txOverheadVb (satMul inputs p2wpkhInputVb)) outputsVb

def outputsVb (outputs : List TxOut) : Nat :=
  (outputs.map fun out => outputVb out.scriptPubkey).foldl satAdd 0

/-- What a plan or its failure leaves of the wallet's counters. -/
abbrev Planned := Except Stop FundingPlan × WalletView

structure PayFrame where
  outputs : List TxOut
  (target feerate : Nat)
  changeSpk : Bytes
  serviceFeeSat : Option Nat

def payLoop (frame : PayFrame) (view : WalletView) : List Utxo → List Utxo → Nat → Planned
  | [], selected, acc =>
    let base := baseVb (max selected.length 1) (outputsVb frame.outputs)
    let need :=
      match checkedSum [frame.target, satMul base frame.feerate] with
      | .ok total => total
      | .error _ => maxMoney
    (.error (.failed (.insufficientFunds need acc)), view)
  | coin :: rest, before, accBefore =>
    let selected := before ++ [coin]
    match checkedAdd accBefore coin.value with
    | none => (.error (invalid "selected input value overflows"), view)
    | some acc =>
      let base := baseVb selected.length (outputsVb frame.outputs)
      let feeNoChange := satMul base frame.feerate
      let feeWithChange := satMul (satAdd base (outputVb frame.changeSpk)) frame.feerate
      match checkedSum [frame.target, feeWithChange] with
      | .error e => (.error e, view)
      | .ok needWithChange =>
        if needWithChange ≤ acc ∧ changeDustSat ≤ acc - needWithChange then
          let change := acc - needWithChange
          let plan := assemble selected (frame.outputs ++ [⟨change, frame.changeSpk⟩])
            feeWithChange (some change) frame.serviceFeeSat
          (.ok { plan with changeDerivationIndex := some view.nextChange }, view.bumpChange)
        else
          match checkedSum [frame.target, feeNoChange] with
          | .error e => (.error e, view)
          | .ok need =>
            if need ≤ acc then
              (.ok (assemble selected frame.outputs (acc - frame.target) none
                frame.serviceFeeSat), view)
            else payLoop frame view rest selected acc

structure InclusiveFrame where
  outputs : List TxOut
  dest : TxOut
  (destIdx feerate : Nat)
  changeSpk : Bytes
  serviceFee : Option TxOut

namespace InclusiveFrame

variable (frame : InclusiveFrame)

/-- The user's number: everything the payment costs the wallet bar change. -/
def budget : Nat := frame.dest.value

def sfValue : Nat := (frame.serviceFee.map TxOut.value).getD 0

def nonChangeVb : Nat :=
  satAdd (outputsVb frame.outputs)
    ((frame.serviceFee.map fun out => outputVb out.scriptPubkey).getD 0)

/-- What the recipient gets once the fees are carved out, unless that is dust. -/
def recipient (lib : ScriptLib) (frame : InclusiveFrame) (netFee : Nat) : Except Stop Nat :=
  let left := (checkedSub frame.budget frame.sfValue).bind fun value => checkedSub value netFee
  match left.filter fun value => lib.minimalNonDust frame.dest.scriptPubkey ≤ value with
  | some value => .ok value
  | none =>
    match checkedAdd frame.sfValue netFee with
    | none => .error .panicked
    | some fees =>
      .error (invalid ("amount too small: " ++ toString fees ++
        " sat of fees leaves the recipient below the dust limit"))

def paid (frame : InclusiveFrame) (recipient : Nat) : List TxOut :=
  frame.outputs.set frame.destIdx { frame.dest with value := recipient } ++ frame.serviceFee.toList

end InclusiveFrame

def inclusiveLoop (lib : ScriptLib) (frame : InclusiveFrame) (view : WalletView) :
    List Utxo → List Utxo → Nat → Planned
  | [], _, acc => (.error (.failed (.insufficientFunds frame.budget acc)), view)
  | coin :: rest, before, accBefore =>
    let selected := before ++ [coin]
    match checkedAdd accBefore coin.value with
    | none => (.error (invalid "selected input value overflows"), view)
    | some acc =>
      if acc < frame.budget then inclusiveLoop lib frame view rest selected acc
      else
        let base := baseVb selected.length frame.nonChangeVb
        let surplus := acc - frame.budget
        if changeDustSat ≤ surplus then
          let netFee := satMul (satAdd base (outputVb frame.changeSpk)) frame.feerate
          match frame.recipient lib netFee with
          | .error e => (.error e, view)
          | .ok recipient =>
            let plan := assemble selected
              (frame.paid recipient ++ [⟨surplus, frame.changeSpk⟩]) netFee (some surplus)
              (frame.serviceFee.map TxOut.value)
            (.ok { plan with changeDerivationIndex := some view.nextChange }, view.bumpChange)
        else
          let netFee := satMul base frame.feerate
          match frame.recipient lib netFee with
          | .error e => (.error e, view)
          | .ok recipient =>
            (.ok (assemble selected (frame.paid recipient)
              (acc - recipient - frame.sfValue) none (frame.serviceFee.map TxOut.value)), view)

def spendable (outputs : List TxOut) : List (TxOut × Nat) :=
  outputs.zipIdx.filter fun place => !isOpReturn place.1.scriptPubkey

variable (lib : ScriptLib)

def planPaymentFeeInclusive (view : WalletView) (utxos : List Utxo)
    (outputs : List TxOut) (feerate minConfirmations : Nat) (serviceFee : Option ServiceFee) :
    Planned :=
  match spendable outputs with
  | [(dest, destIdx)] =>
    match view.addressAt 1 view.nextChange with
    | .error e => (.error e, view)
    | .ok changeSpk =>
      let frame : InclusiveFrame :=
        { outputs, dest, destIdx, feerate, changeSpk,
          serviceFee := serviceFee.bind fun fee => fee.output lib dest.value }
      inclusiveLoop lib frame view (eligible utxos minConfirmations) [] 0
  | _ => (.error (invalid "fee-from-amount needs exactly one destination"), view)

def paymentFee (outputs : List TxOut) (serviceFee : Option ServiceFee) : Option TxOut :=
  serviceFee.bind fun fee =>
    match checkedSum (outputs.map TxOut.value) with
    | .ok sendAmountSat => fee.output lib sendAmountSat
    | .error _ => none

def planPaymentOnTop (view : WalletView) (utxos : List Utxo)
    (outputs : List TxOut) (feerate minConfirmations : Nat) (serviceFee : Option ServiceFee) :
    Planned :=
  let feeOut := paymentFee lib outputs serviceFee
  let outputs := outputs ++ feeOut.toList
  match checkedSum (outputs.map TxOut.value) with
  | .error e => (.error e, view)
  | .ok target =>
    match view.addressAt 1 view.nextChange with
    | .error e => (.error e, view)
    | .ok changeSpk =>
      let frame : PayFrame :=
        { outputs, target, feerate, changeSpk, serviceFeeSat := feeOut.map TxOut.value }
      payLoop frame view (eligible utxos minConfirmations) [] 0

def planPayment (view : WalletView) (utxos : List Utxo) (outputs : List TxOut)
    (feerate minConfirmations : Nat) (serviceFee : Option ServiceFee) (feeFromAmount : Bool) :
    Planned :=
  match (do
      checkFeerate feerate
      checkServiceFee serviceFee
      checkNotDust lib outputs : Except Stop Unit) with
  | .error e => (.error e, view)
  | .ok _ =>
    if feeFromAmount then
      planPaymentFeeInclusive lib view utxos outputs feerate minConfirmations serviceFee
    else planPaymentOnTop lib view utxos outputs feerate minConfirmations serviceFee

/-- The sweep's value for its destination.  The shortfall is computed before it is needed. -/
def sweepValue (total fee feeOut : Nat) : Except Stop Nat :=
  match checkedAdd fee feeOut with
  | none => .error .panicked
  | some fees =>
    let left := (checkedSub total fee).bind fun value => checkedSub value feeOut
    match left.filter fun value => changeDustSat ≤ value with
    | some value => .ok value
    | none => .error (.failed (.insufficientFunds ((fees + changeDustSat) % 2 ^ 64) total))

def planSweep (lib : ScriptLib) (utxos : List Utxo) (dest : Bytes)
    (feerate minConfirmations : Nat) (serviceFee : Option ServiceFee) :
    Except Stop FundingPlan := do
  checkFeerate feerate
  checkServiceFee serviceFee
  let selected := utxos.filter fun coin => minConfirmations ≤ coin.confirmations
  refuseIf (selected.isEmpty) (Stop.failed (.insufficientFunds 1 0))
  let total ← checkedSum (selected.map Utxo.value)
  let feeOut := serviceFee.bind fun sf => sf.output lib total
  let feeOutValue := (feeOut.map TxOut.value).getD 0
  let feeOutVb := (feeOut.map fun out => outputVb out.scriptPubkey).getD 0
  let vb := satAdd (satAdd (satAdd txOverheadVb (satMul selected.length p2wpkhInputVb))
    (outputVb dest)) feeOutVb
  let fee := satMul vb feerate
  let value ← sweepValue total fee feeOutValue
  return assemble selected (⟨value, dest⟩ :: feeOut.toList) fee none (feeOut.map TxOut.value)

end Fortis.Wallet
