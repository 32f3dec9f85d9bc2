import Fortis.Core.Terms
import Fortis.Lib.Prog
import Fortis.Lib.Table

/-!
# The account ledger

The LSP keeps small balances for its users in one SQLite file: the balances, the holds that reserve
part of them, the entries that explain them, and the operator's revenue.  Every operation is one
transaction.

Amounts are signed 64-bit integers.  A sum that leaves that range goes on in floating point.
-/

namespace Fortis.Lsp

open Fortis.Core Lib

def i64Max : Nat := 9223372036854775807

/-- `i64::try_from(msat).unwrap_or(i64::MAX)` -/
def asI64 (msat : Nat) : Nat := min msat i64Max

/-- The double nearest to a whole number, ties to even. -/
def nearestDouble (value : Nat) : Nat :=
  let exponent := Nat.log2 value - 52
  let unit := 2 ^ exponent
  let down := value / unit
  let rest := value % unit
  if 2 * rest > unit ∨ (2 * rest = unit ∧ down % 2 = 1) then (down + 1) * unit else down * unit

def roundDouble (value : Int) : Int :=
  if value < 0 then -(nearestDouble value.natAbs) else nearestDouble value.natAbs

def fitsI64 (value : Int) : Bool := -(i64Max : Int) - 1 ≤ value && value ≤ i64Max

inductive Cell
  | int (value : Int)
  | real (value : Int)
  deriving DecidableEq

namespace Cell

def value : Cell → Int
  | int value | real value => value

@[simp]
theorem value_int (number : Int) : (int number).value = number := rfl

/-- A whole double is stored as an integer if it fits. -/
def ofReal (value : Int) : Cell := if fitsI64 value then int value else real value

/-- `cell + delta`, in floating point once the integers are left. -/
def add (cell : Cell) (delta : Int) : Cell :=
  match cell with
  | int value =>
    if fitsI64 (value + delta) then int (value + delta)
    else ofReal (roundDouble (roundDouble value + roundDouble delta))
  | real value => ofReal (roundDouble (value + roundDouble delta))

theorem add_int_of_fits {number delta : Int} (fits : fitsI64 (number + delta)) :
    (int number).add delta = int (number + delta) := if_pos fits

end Cell

inductive EntryKind
  | received
  | sent
  | internal
  | converted
  | withdrawn
  deriving DecidableEq

structure AccountRow where
  node : String
  balance : Cell

structure HoldRow where
  (id node : String)
  (amountMsat baseMsat : Nat)
  kind : String

structure EntryRow where
  seq : Nat
  node : String
  atSecs : Nat
  kind : EntryKind
  /-- Signed: positive into the account, negative out of it. -/
  amountMsat : Int
  feeMsat : Nat
  paymentHash : Option (Fixed 32)

structure RevenueRow where
  atSecs : Nat
  kind : String
  amountMsat : Nat
  node : Option String
  reference : String

structure Ledger where
  accounts : Table String AccountRow AccountRow.node
  holds : Table String HoldRow HoldRow.id
  entries : List EntryRow
  revenue : List RevenueRow

namespace Ledger

def empty : Ledger := ⟨.empty, .empty, [], []⟩

end Ledger

/-- The database's refusals. -/
inductive DbError
  | constraintViolation
  | invalidColumnType
  | integerOverflow
  deriving DecidableEq

inductive LedgerError
  | insufficientBalance
  | unknownHold (id : String)
  | db (error : DbError)

abbrev LedgerM := EStateM LedgerError Ledger

abbrev PublicKey := Fixed 33

def key (node : PublicKey) : String := hexEncode node.val

structure Account where
  (balanceMsat heldMsat : Nat)
  deriving DecidableEq

namespace Account

/-- What can be spent now. -/
def freeMsat (account : Account) : Nat := account.balanceMsat - account.heldMsat

end Account

def Ledger.held (ledger : Ledger) (node : String) : Nat :=
  ledger.holds.total fun row => if row.node = node then row.amountMsat else 0

def accountOf (node : String) : LedgerM Account := do
  let ledger ← get
  let balance ←
    match ledger.accounts.get? node with
    | none => pure 0
    | some ⟨_, .int value⟩ => pure value.toNat
    | some ⟨_, .real _⟩ => throw (.db .invalidColumnType)
  abortIf (ledger.held node > i64Max) (.db .integerOverflow)
  return ⟨balance, ledger.held node⟩

def addBalance (node : String) (delta : Int) : LedgerM PUnit := do
  let ledger ← get
  match ledger.accounts.get? node with
  | none => set { ledger with accounts := ledger.accounts.put ⟨node, .int (max delta 0)⟩ }
  | some row =>
    let sum := row.balance.add delta
    abortIf (sum.value < 0) .insufficientBalance
    set { ledger with accounts := ledger.accounts.put ⟨node, sum⟩ }

def insertEntry (node : String) (atSecs : Nat) (kind : EntryKind) (amountMsat : Int)
    (feeMsat : Nat) (paymentHash : Option (Fixed 32)) : LedgerM PUnit :=
  modify fun ledger =>
    { ledger with
      entries := ledger.entries ++
        [⟨ledger.entries.length + 1, node, atSecs, kind, amountMsat, feeMsat, paymentHash⟩] }

def credited (ledger : Ledger) (node : String) (paymentHash : Fixed 32) : Bool :=
  ledger.entries.any fun row => row.node = node ∧ row.paymentHash = some paymentHash ∧
    (row.kind = .received ∨ row.kind = .internal)

/-- `INSERT OR IGNORE INTO entries`: whether the row was new. -/
def insertCredit (node : String) (atSecs : Nat) (kind : EntryKind) (amountMsat : Int)
    (paymentHash : Fixed 32) : LedgerM Bool := do
  let ledger ← get
  if credited ledger node paymentHash then return false
  else
    insertEntry node atSecs kind amountMsat 0 (some paymentHash)
    return true

def takeHold (id : String) : LedgerM (String × Nat) := do
  let ledger ← get
  match ledger.holds.get? id with
  | none => throw (.unknownHold id)
  | some row =>
    set { ledger with holds := ledger.holds.delete id }
    return (row.node, row.amountMsat)

/-- `INSERT OR IGNORE INTO revenue`, unique by kind and reference. -/
def addRevenue (rows : List RevenueRow) (row : RevenueRow) : List RevenueRow :=
  if rows.any fun old => old.kind = row.kind ∧ old.reference = row.reference then rows
  else rows ++ [row]

inductive RevenueKind
  | transferFee
  | channelFee
  | withdrawalFee
  | routingFee
  | earlier

namespace RevenueKind

def asStr : RevenueKind → String
  | transferFee => "transfer_fee"
  | channelFee => "channel_fee"
  | withdrawalFee => "withdrawal_fee"
  | routingFee => "routing_fee"
  | earlier => "earlier"

end RevenueKind

def insertRevenue (atSecs : Nat) (kind : RevenueKind) (amountMsat : Nat) (node : Option String)
    (reference : String) : LedgerM PUnit :=
  modify fun ledger =>
    { ledger with
      revenue := addRevenue ledger.revenue ⟨atSecs, kind.asStr, asI64 amountMsat, node, reference⟩ }

/-! ## Operations -/

def credit (now : Nat) (node : PublicKey) (paymentHash : Fixed 32) (amountMsat : Nat) :
    LedgerM Bool :=
  transaction do
    let inserted ← insertCredit (key node) now .received (asI64 amountMsat) paymentHash
    if inserted then addBalance (key node) (asI64 amountMsat) else pure ⟨⟩
    return inserted

variable (node : PublicKey) (id : String)

def holdKind (amountMsat baseMsat : Nat) (kind : String) : LedgerM PUnit :=
  transaction do
    let account ← accountOf (key node)
    abortIf (account.freeMsat < amountMsat) .insufficientBalance
    let ledger ← get
    abortIf (ledger.holds.get? id ≠ none) (.db .constraintViolation)
    set { ledger with
      holds := ledger.holds.put ⟨id, key node, asI64 amountMsat, asI64 baseMsat, kind⟩ }

def holdSend (amountMsat reserveMsat : Nat) : LedgerM PUnit :=
  holdKind node id (max reserveMsat amountMsat) amountMsat "send"

def holdWithdrawal (amountMsat : Nat) : LedgerM PUnit :=
  holdKind node id amountMsat amountMsat "withdraw"

variable (now : Nat) (id : String)

def settleHold (spentMsat feeMsat : Nat) (paymentHash : Option (Fixed 32)) : LedgerM PUnit :=
  transaction do
    let (node, held) ← takeHold id
    let spent := min spentMsat held
    if spent > 0 then
      addBalance node (-(asI64 spent : Int))
      insertEntry node now .sent (-(asI64 spent : Int)) (asI64 feeMsat) paymentHash
    else pure ⟨⟩

def settleSend (feeMsat : Nat) (paymentHash : Option (Fixed 32)) : LedgerM PUnit := do
  let ledger ← get
  match ledger.holds.get? id with
  | none => throw (.unknownHold id)
  | some row => settleHold now id (min (row.baseMsat + feeMsat) u64Max) feeMsat paymentHash

/-- A hold closed with a debit of all of it, `feeMsat` of that the operator's share. -/
def closeWithShare (kind : EntryKind) (feeMsat : Nat)
    (paymentHash : Option (Fixed 32)) (share : RevenueKind) (reference : String) : LedgerM PUnit :=
  transaction do
    let (node, held) ← takeHold id
    addBalance node (-(asI64 held : Int))
    insertEntry node now kind (-(asI64 held : Int)) (asI64 feeMsat) paymentHash
    if feeMsat > 0 then insertRevenue now share feeMsat (some node) reference else pure ⟨⟩

def settleWithdrawal (feeMsat : Nat) (txid : Fixed 32) : LedgerM PUnit :=
  closeWithShare now id .withdrawn feeMsat (some txid) .withdrawalFee
    ("withdrawal:" ++ hexEncode txid.val)

def transfer (now : Nat) (sender receiver : PublicKey) (paymentHash : Fixed 32)
    (amountMsat : Nat) : LedgerM Bool :=
  transaction do
    let inserted ← insertCredit (key receiver) now .internal (asI64 amountMsat) paymentHash
    if inserted then
      let account ← accountOf (key sender)
      abortIf (account.freeMsat < amountMsat) .insufficientBalance
      addBalance (key sender) (-(asI64 amountMsat : Int))
      addBalance (key receiver) (asI64 amountMsat)
      insertEntry (key sender) now .internal (-(asI64 amountMsat : Int)) 0 none
    else pure ⟨⟩
    return inserted

def startConversion (node : PublicKey) (id : String) : LedgerM Nat := do
  let account ← accountOf (key node)
  holdKind node id account.freeMsat account.freeMsat "conversion"
  return account.freeMsat

def finishConversionBy (now : Nat) (id : String) (feeMsat : Nat)
    (paymentHash : Option (Fixed 32)) : LedgerM PUnit :=
  closeWithShare now id .converted feeMsat paymentHash .channelFee ("conversion:" ++ id)

def finishConversion (now : Nat) (id : String) (feeMsat : Nat) : LedgerM PUnit :=
  finishConversionBy now id feeMsat none

def abandonConversion (id : String) : LedgerM PUnit :=
  transaction do
    let _ ← takeHold id

def renameHold (old new : String) : LedgerM PUnit := do
  let ledger ← get
  match ledger.holds.get? old with
  | none => throw (.unknownHold old)
  | some row =>
    abortIf (old ≠ new ∧ ledger.holds.get? new ≠ none) (.db .constraintViolation)
    set { ledger with holds := (ledger.holds.delete old).put { row with id := new } }

/-- Whether an import has left its marker. -/
def marked (ledger : Ledger) (reference : String) : Bool :=
  ledger.revenue.any fun row => row.kind = "marker" ∧ row.reference = reference

def importOnce (now : Nat) (reference : String) (rows : Ledger → List RevenueRow) : LedgerM Nat :=
  transaction do
    let ledger ← get
    if marked ledger reference then return 0
    else
      let imported := (rows ledger).foldl addRevenue ledger.revenue
      let marker : RevenueRow := ⟨now, "marker", 0, none, reference⟩
      set { ledger with revenue := imported ++ [marker] }
      return imported.length - ledger.revenue.length

def importEarlier (now : Nat) (payments : List (Fixed 32 × Nat × Nat)) : LedgerM Nat :=
  importOnce now "earlier-import" fun _ =>
    payments.map fun (hash, amountMsat, atSecs) =>
      { atSecs, kind := "earlier", amountMsat := asI64 amountMsat, node := none,
        reference := hexEncode hash.val : RevenueRow }

/-- The fee an entry recorded before revenue was. -/
def entryFee (row : EntryRow) : Option RevenueRow :=
  if row.feeMsat = 0 then none
  else
    match row.kind with
    | .converted => some ⟨row.atSecs, "channel_fee", row.feeMsat, some row.node,
        "conversion-entry:" ++ toString row.seq⟩
    | .withdrawn => some ⟨row.atSecs, "withdrawal_fee", row.feeMsat, some row.node,
        "withdrawal:" ++ (row.paymentHash.map fun hash => hexEncode hash.val).getD ""⟩
    | _ => none

def importEntryFees (now : Nat) : LedgerM Nat :=
  importOnce now "entry-fee-import" fun ledger => ledger.entries.filterMap entryFee

inductive Op
  | credit (now : Nat) (node : PublicKey) (paymentHash : Fixed 32) (amountMsat : Nat)
  | holdSend (node : PublicKey) (id : String) (amountMsat reserveMsat : Nat)
  | holdWithdrawal (node : PublicKey) (id : String) (amountMsat : Nat)
  | settleSend (now : Nat) (id : String) (feeMsat : Nat) (paymentHash : Option (Fixed 32))
  | settleHold (now : Nat) (id : String) (spentMsat feeMsat : Nat) (paymentHash : Option (Fixed 32))
  | settleWithdrawal (now : Nat) (id : String) (feeMsat : Nat) (txid : Fixed 32)
  | transfer (now : Nat) (sender receiver : PublicKey) (paymentHash : Fixed 32) (amountMsat : Nat)
  | startConversion (node : PublicKey) (id : String)
  | finishConversion (now : Nat) (id : String) (feeMsat : Nat)
  | finishConversionBy (now : Nat) (id : String) (feeMsat : Nat) (paymentHash : Option (Fixed 32))
  | abandonConversion (id : String)
  | renameHold (old new : String)
  | importEarlier (now : Nat) (payments : List (Fixed 32 × Nat × Nat))
  | importEntryFees (now : Nat)

def Op.exec : Op → LedgerM PUnit
  | .credit now node paymentHash amountMsat => discard (Lsp.credit now node paymentHash amountMsat)
  | .holdSend node id amountMsat reserveMsat => Lsp.holdSend node id amountMsat reserveMsat
  | .holdWithdrawal node id amountMsat => Lsp.holdWithdrawal node id amountMsat
  | .settleSend now id feeMsat paymentHash => Lsp.settleSend now id feeMsat paymentHash
  | .settleHold now id spentMsat feeMsat paymentHash =>
    Lsp.settleHold now id spentMsat feeMsat paymentHash
  | .settleWithdrawal now id feeMsat txid => Lsp.settleWithdrawal now id feeMsat txid
  | .transfer now sender receiver paymentHash amountMsat =>
    discard (Lsp.transfer now sender receiver paymentHash amountMsat)
  | .startConversion node id => discard (Lsp.startConversion node id)
  | .finishConversion now id feeMsat => Lsp.finishConversion now id feeMsat
  | .finishConversionBy now id feeMsat paymentHash =>
    Lsp.finishConversionBy now id feeMsat paymentHash
  | .abandonConversion id => Lsp.abandonConversion id
  | .renameHold old new => Lsp.renameHold old new
  | .importEarlier now payments => discard (Lsp.importEarlier now payments)
  | .importEntryFees now => discard (Lsp.importEntryFees now)

def after (ledger : Ledger) (ops : List Op) : Ledger :=
  ops.foldl (fun ledger op => finalState op.exec ledger) ledger

end Fortis.Lsp
