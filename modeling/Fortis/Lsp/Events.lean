import Fortis.Lsp.Conversions
import Fortis.Lsp.Sends

/-!
# Events of the Lightning node

The node hands an event out again after a restart unless it was acknowledged.  Credits are unique by
account and payment, revenue by kind and reference, and the outcome of a payment acts on a hold that
it closes.  A forwarded payment's fee is recorded under a reference that contains the clock.
-/

namespace Fortis.Lsp

open Fortis.Core Lib

inductive HeldState
  | waiting
  | claimable
  | forwarding
  | done
  | credited
  | failed
  deriving DecidableEq

/-- A payment the LSP holds for an account's phone; `waiting` is the source's
`open`. -/
structure HeldRow where
  paymentHash : Fixed 32
  node : PublicKey
  preimage : Fixed 32
  amountMsat : Nat
  (claimableMsat deadline : Option Nat)
  forwardId : Option (Fixed 32)
  state : HeldState

/-- The ledger and who invoices, fee invoices and offers were issued to. -/
structure Books where
  ledger : Ledger
  (invoices feeInvoices offers : Fixed 32 → Option PublicKey)

structure Desk extends Books where
  held : List HeldRow

abbrev DeskM := EStateM LedgerError Desk

/-- A ledger operation at the desk. -/
def onLedger {α : Type} (prog : LedgerM α) : DeskM α := fun desk =>
  match prog desk.ledger with
  | .ok value ledger => .ok value { desk with ledger }
  | .error raised ledger => .error raised { desk with ledger }

theorem wp_onLedger {α : Type} {prog : LedgerM α} {post : α → Desk → Prop}
    {fail : LedgerError → Desk → Prop} (desk : Desk) : wp (onLedger prog) post fail desk =
      wp prog (fun value ledger => post value { desk with ledger })
        (fun raised ledger => fail raised { desk with ledger }) desk.ledger := by
  unfold wp onLedger
  cases prog desk.ledger <;> rfl

def Desk.heldGet (desk : Desk) (paymentHash : Fixed 32) : Option HeldRow :=
  desk.held.find? fun row => row.paymentHash = paymentHash

def Desk.heldByForward (desk : Desk) (forwardId : Fixed 32) : Option HeldRow :=
  desk.held.find? fun row => row.forwardId = some forwardId

/-- The row `UPDATE held` leaves of a row. -/
def HeldRow.updated (row : HeldRow) (paymentHash : Fixed 32) (state : HeldState)
    (claimable : Option (Nat × Option Nat)) (forwardId : Option (Option (Fixed 32))) : HeldRow :=
  if row.paymentHash = paymentHash then { row with
    state
    claimableMsat := (claimable.map fun known => some (asI64 known.1)).getD row.claimableMsat
    deadline := (claimable.map fun known => known.2).getD row.deadline
    forwardId := forwardId.getD row.forwardId }
  else row

def heldUpdate (paymentHash : Fixed 32) (state : HeldState) (claimable : Option (Nat × Option Nat))
    (forwardId : Option (Option (Fixed 32))) : DeskM PUnit :=
  modify fun desk => { desk with
    held := desk.held.map fun row => row.updated paymentHash state claimable forwardId }

def totalCustodyMsat : LedgerM Nat := do
  let ledger ← get
  let total := (ledger.accounts.rows.map fun row => row.balance.value).sum
  abortIf (ledger.accounts.rows.any fun row => row.balance ≠ .int row.balance.value)
    (.db .invalidColumnType)
  abortIf (fitsI64 total = false) (.db .integerOverflow)
  return total.toNat

structure Outside where
  (nowSecs nowNanos height : Nat)
  peers : Peers
  custodyMaxMsat : Nat
  claims : Fixed 32 → Nat → Fixed 32 → Bool
  sends : Nat → PublicKey → Option (Fixed 32)
  /-- The offer a payment paid. -/
  paidOffer : Fixed 32 → Option (Fixed 32)

inductive Event
  | paymentReceived (paymentId : Option (Fixed 32)) (paymentHash : Fixed 32) (amountMsat : Nat)
  | paymentForwarded (prevChannelId nextChannelId : String) (nextNodeId : Option PublicKey)
      (totalFeeEarnedMsat skimmedFeeMsat outboundAmountForwardedMsat : Option Nat)
  | paymentClaimable (paymentHash : Fixed 32) (claimableAmountMsat : Nat)
      (claimDeadline : Option Nat)
  | paymentSuccessful (paymentId : Option (Fixed 32)) (paymentHash : Fixed 32)
      (feePaidMsat : Option Nat)
  | paymentFailed (paymentId paymentHash : Option (Fixed 32))
  | channelReady (userChannelId : Nat)
  | channelClosed (userChannelId : Nat)
  | other

def safetyBlocks : Nat := 6

def u32Max : Nat := 4294967295

variable (outside : Outside)

def settleIntoAccount (held : HeldRow) (amount : Nat) : DeskM PUnit := do
  let total ← onLedger totalCustodyMsat
  if outside.custodyMaxMsat > 0 ∧ outside.custodyMaxMsat - total ≥ amount then
    if outside.claims held.paymentHash amount held.preimage then
      onLedger (discard (credit outside.nowSecs held.node held.paymentHash amount))
      heldUpdate held.paymentHash .credited none none
    else pure ⟨⟩
  else heldUpdate held.paymentHash .failed none none

def deliver (held : HeldRow) : DeskM PUnit :=
  match held.claimableMsat with
  | none => pure ⟨⟩
  | some amount =>
    let deadline := held.deadline.getD u32Max
    if held.state ≠ .claimable then pure ⟨⟩
    else if min (outside.height + safetyBlocks) u32Max ≥ deadline then
      settleIntoAccount outside held amount
    else if outside.peers.connected held.node ∧ outside.peers.roomMsat held.node ≥ amount ∧
        min (outside.height + 2 * safetyBlocks) u32Max < deadline then
      match outside.sends amount held.node with
      | some id => heldUpdate held.paymentHash .forwarding none (some (some id))
      | none => pure ⟨⟩
    else pure ⟨⟩

def onClaimable (paymentHash : Fixed 32) (amountMsat : Nat)
    (deadline : Option Nat) : DeskM PUnit := do
  let desk ← get
  match desk.heldGet paymentHash with
  | none => pure ⟨⟩
  | some held =>
    if held.state = .waiting then
      heldUpdate paymentHash .claimable (some (amountMsat, deadline)) none
      let desk ← get
      match desk.heldGet paymentHash with
      | some held => deliver outside held
      | none => pure ⟨⟩
    else pure ⟨⟩

def onForwardResult (paymentId : Fixed 32) (succeeded : Bool) : DeskM PUnit := do
  let desk ← get
  match desk.heldByForward paymentId with
  | none => pure ⟨⟩
  | some held =>
    if succeeded then
      let amount := held.claimableMsat.getD held.amountMsat
      if outside.claims held.paymentHash amount held.preimage then
        heldUpdate held.paymentHash .done none none
      else pure ⟨⟩
    else heldUpdate held.paymentHash .claimable none (some none)

/-- `held::tick`: a payment whose delivery fails is looked at again. -/
def heldTick : DeskM PUnit := do
  let desk ← get
  forEach (fun held => tryCatch (deliver outside held) fun _ => pure ⟨⟩)
    (desk.held.filter fun row => row.state = .claimable ∨ row.state = .forwarding)

/-! ## Handlers -/

def closeHeld (id : String) (close : Nat → LedgerM PUnit) : LedgerM PUnit := do
  let ledger ← get
  match ledger.holds.get? id with
  | none => pure ⟨⟩
  | some row => close row.amountMsat

variable (now : Nat)

def onPushResult (name : HoldName) (arrived : Bool) : LedgerM PUnit :=
  closeHeld name.id fun held => Converter.resolve name held arrived now

def feeInvoicePaid (owner : Option PublicKey) (paymentHash : Fixed 32)
    (amountMsat : Nat) : LedgerM PUnit :=
  match owner with
  | none => pure ⟨⟩
  | some node =>
    insertRevenue now .transferFee amountMsat (some (key node)) (hexEncode paymentHash.val)

def recordRevenue (kind : RevenueKind) (amountMsat : Nat) (node : Option PublicKey)
    (reference : String) : LedgerM PUnit :=
  if amountMsat = 0 then pure ⟨⟩
  else insertRevenue now kind amountMsat (node.map key) reference

def creditOwner (owner : Option PublicKey) (paymentHash : Fixed 32)
    (amountMsat : Nat) : LedgerM PUnit :=
  match owner with
  | none => pure ⟨⟩
  | some node => discard (credit now node paymentHash amountMsat)

def onFeeInvoice (owner : Option PublicKey) (paymentHash : Fixed 32)
    (amountMsat : Nat) : DeskM Bool := do
  onLedger (feeInvoicePaid now owner paymentHash amountMsat)
  return false

def onInvoice (owner : Option PublicKey) (paymentHash : Fixed 32) (amountMsat : Nat) : DeskM Bool :=
  match owner with
  | some node => do
    onLedger (creditOwner now (some node) paymentHash amountMsat)
    return true
  | none => do
    let desk ← get
    onFeeInvoice now (desk.feeInvoices paymentHash) paymentHash amountMsat

def onPaymentReceived (paymentHash : Fixed 32) (amountMsat : Nat) : DeskM Bool := do
  let desk ← get
  onInvoice now (desk.invoices paymentHash) paymentHash amountMsat

def onOfferPaymentReceived (outside : Outside) (paymentId paymentHash : Fixed 32)
    (amountMsat : Nat) : DeskM PUnit :=
  match outside.paidOffer paymentId with
  | none => pure ⟨⟩
  | some offerId => do
    let desk ← get
    onLedger (creditOwner outside.nowSecs (desk.offers offerId) paymentHash amountMsat)

def forwardReference (prevChannelId nextChannelId : String) (outboundMsat : Option Nat)
    (nowNanos : Nat) : String :=
  prevChannelId ++ ">" ++ nextChannelId ++ ":" ++ toString (outboundMsat.getD 0) ++ ":" ++
    toString nowNanos

def skimMsat (skimmedFeeMsat : Option Nat) : Nat := skimmedFeeMsat.getD 0

def routingMsat (totalFeeEarnedMsat skimmedFeeMsat : Option Nat) : Nat :=
  totalFeeEarnedMsat.getD 0 - skimMsat skimmedFeeMsat

variable (outside : Outside) (paymentId : Option (Fixed 32)) (succeeded : Bool)

/-- The part of an outcome that acts on held payments and balance deliveries. -/
def onKeysendResult : DeskM PUnit :=
  match paymentId with
  | none => pure ⟨⟩
  | some id => do
    onForwardResult outside id succeeded
    onLedger (onPushResult outside.nowSecs (.deliver id) succeeded)

def onConversionResult : DeskM PUnit :=
  match paymentId with
  | none => pure ⟨⟩
  | some id => onLedger (onPushResult outside.nowSecs (.pay id) succeeded)

def accountEvent (outside : Outside) : Event → DeskM PUnit
  | .paymentReceived paymentId paymentHash amountMsat => do
    let isAccounts ← onPaymentReceived outside.nowSecs paymentHash amountMsat
    match isAccounts, paymentId with
    | false, some id => onOfferPaymentReceived outside id paymentHash amountMsat
    | _, _ => pure ⟨⟩
  | .paymentForwarded prevChannelId nextChannelId nextNodeId totalFeeEarnedMsat skimmedFeeMsat
      outboundAmountForwardedMsat => do
      let reference := forwardReference prevChannelId nextChannelId outboundAmountForwardedMsat
        outside.nowNanos
      onLedger (recordRevenue outside.nowSecs .routingFee
        (routingMsat totalFeeEarnedMsat skimmedFeeMsat) none reference)
      onLedger (recordRevenue outside.nowSecs .channelFee (skimMsat skimmedFeeMsat) nextNodeId
        reference)
  | .paymentClaimable paymentHash claimableAmountMsat claimDeadline =>
    onClaimable outside paymentHash claimableAmountMsat claimDeadline
  | .paymentSuccessful paymentId paymentHash feePaidMsat => do
    onKeysendResult outside paymentId true
    onLedger (onPaymentResolved outside.nowSecs paymentHash (some (feePaidMsat.getD 0)))
    onConversionResult outside paymentId true
  | .paymentFailed paymentId paymentHash => do
    onKeysendResult outside paymentId false
    match paymentHash with
    | some hash => onLedger (onPaymentResolved outside.nowSecs hash none)
    | none => pure ⟨⟩
    onConversionResult outside paymentId false
  | .channelReady userChannelId =>
    onLedger (onPushResult outside.nowSecs (.chan userChannelId) true)
  | .channelClosed userChannelId =>
    onLedger (onPushResult outside.nowSecs (.chan userChannelId) false)
  | .other => pure ⟨⟩

end Fortis.Lsp
