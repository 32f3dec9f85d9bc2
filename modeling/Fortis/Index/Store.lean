import Fortis.Core.Bytes
import Fortis.Lib.Prog
import Fortis.Lib.Wire

/-!
# The index store

The column families of the address index, a batch of writes to them, and the two operations that
write: `apply` adds blocks, `rollback` takes the last one away by the undo record `apply` left.
Reads made while a batch is built see the store as it was before it.

The families are maps from decoded keys.  The source's keys are of fixed width with big-endian
integers, so its range deletions are ranges of numbers; undo records are stored as bytes.
-/

namespace Fortis.Index

open Fortis.Core Lib

abbrev Program := Fixed 20
abbrev Txid := Fixed 32
abbrev BlockHash := Fixed 32

def maxTxnum : Nat := 2 ^ 40 - 1

structure OutPoint where
  txid : Txid
  vout : UInt32
  deriving DecidableEq

structure HistoryKey where
  program : Program
  txnum : Nat
  deriving DecidableEq

structure UtxoKey where
  program : Program
  outpoint : OutPoint
  deriving DecidableEq

structure UtxoVal where
  value : UInt64
  height : Nat
  deriving DecidableEq

structure BlockRec where
  hash : BlockHash
  time : UInt32
  (firstTxnum nTxs : Nat)
  deriving DecidableEq

structure Funded where
  program : Program
  vout : UInt32
  value : UInt64

structure Spent where
  program : Program
  prevout : OutPoint

structure TxRows where
  txid : Txid
  funded : List Funded
  spent : List Spent

/-- How many rows a transaction makes at most. -/
def TxRows.size (tx : TxRows) : Nat := 1 + tx.funded.length + tx.spent.length

/-- What a raw block is parsed to.  Its rows are read from one byte string, so
there are fewer of them than a `u32` counts. -/
structure BlockBody where
  (hash prev : BlockHash)
  time : UInt32
  txs : List TxRows
  small : (txs.map TxRows.size).sum < 2 ^ 32

structure ParsedBlock extends BlockBody where
  height : Nat

inductive Fault where
  | noUndo (height : Nat)
  | other (text : String)
  deriving DecidableEq

def Fault.isFatal : Fault → Bool
  | noUndo _ => true
  | other _ => false

structure Undo where
  (firstTxnum nTxs : Nat)
  addedHistory : List HistoryKey
  addedUtxo : List UtxoKey
  deletedUtxo : List (UtxoKey × UtxoVal)

def HistoryKey.encode (key : HistoryKey) : Bytes :=
  key.program.val ++ beBytes 5 key.txnum

def UtxoKey.encode (key : UtxoKey) : Bytes :=
  key.program.val ++ (key.outpoint.txid.val ++ beBytes 4 key.outpoint.vout.toNat)

def UtxoVal.encode (val : UtxoVal) : Bytes :=
  beBytes 8 val.value.toNat ++ beBytes 4 val.height

def encodeList {α : Type} (encode : α → Bytes) (items : List α) : Bytes :=
  beBytes 4 items.length ++ items.flatMap encode

def Undo.encode (undo : Undo) : Bytes :=
  beBytes 5 undo.firstTxnum ++ (beBytes 4 undo.nTxs ++
    (encodeList HistoryKey.encode undo.addedHistory ++ (encodeList UtxoKey.encode undo.addedUtxo ++
        encodeList (fun row => row.1.encode ++ row.2.encode) undo.deletedUtxo)))

def take (count : Nat) : Reader String Bytes := takeBytes "undo record truncated" count

def takeFixed (count : Nat) : Reader String (Fixed count) := fun bytes =>
  if long : bytes.length < count then .error "undo record truncated"
  else .ok (⟨bytes.take count, by rw [List.length_take]; omega⟩, bytes.drop count)

def count : Reader String Nat := do
  return readBe (← take 4)

def takeHistoryKey : Reader String HistoryKey := do
  let program ← takeFixed 20
  return ⟨program, readBe (← take 5)⟩

def takeUtxoKey : Reader String UtxoKey := do
  let program ← takeFixed 20
  let txid ← takeFixed 32
  return ⟨program, txid, UInt32.ofNat (readBe (← take 4))⟩

def takeUtxoVal : Reader String UtxoVal := do
  let value ← take 8
  return ⟨UInt64.ofNat (readBe value), readBe (← take 4)⟩

def takeDeleted : Reader String (UtxoKey × UtxoVal) := do
  let key ← takeUtxoKey
  return (key, ← takeUtxoVal)

def takeList {α : Type} (item : Reader String α) : Reader String (List α) := do
  readMany item (← count)

def takeUndo : Reader String Undo := do
  let firstTxnum ← take 5
  let nTxs ← take 4
  let addedHistory ← takeList takeHistoryKey
  let addedUtxo ← takeList takeUtxoKey
  let deletedUtxo ← takeList takeDeleted
  return ⟨readBe firstTxnum, readBe nTxs, addedHistory, addedUtxo, deletedUtxo⟩

def Undo.decode (raw : Bytes) : Except String Undo := do
  let (undo, rest) ← takeUndo raw
  if rest = [] then return undo
  else throw s!"undo record has {rest.length} trailing bytes"

@[ext]
structure Rows where
  txids : Nat → Option Txid
  history : HistoryKey → Bool
  utxo : UtxoKey → Option UtxoVal
  blocks : Nat → Option BlockRec
  tip : Option (Nat × BlockHash)

structure Db extends Rows where
  undo : Nat → Option Bytes

def Rows.empty : Rows where
  txids _ := none
  history _ := false
  utxo _ := none
  blocks _ := none
  tip := none

def Db.empty : Db where
  toRows := Rows.empty
  undo _ := none

def setAt {κ ν : Type} [DecidableEq κ] (family : κ → ν) (key : κ) (value : ν) : κ → ν :=
  fun other => if other = key then value else family other

inductive Write where
  | putTxid (txnum : Nat) (txid : Txid)
  | deleteTxids (first last : Nat)
  | putHistory (key : HistoryKey)
  | deleteHistory (key : HistoryKey)
  | putUtxo (key : UtxoKey) (val : UtxoVal)
  | deleteUtxo (key : UtxoKey)
  | putBlock (height : Nat) (row : BlockRec)
  | deleteBlock (height : Nat)
  | putUndo (height : Nat) (raw : Bytes)
  | deleteUndo (height : Nat)
  | deleteUndos (below : Nat)
  | putTip (tip : Nat × BlockHash)
  | deleteTip

def Rows.put (rows : Rows) : Write → Rows
  | .putTxid txnum txid => { rows with txids := setAt rows.txids txnum (some txid) }
  | .deleteTxids first last => { rows with
      txids := fun txnum => if first ≤ txnum ∧ txnum < last then none else rows.txids txnum }
  | .putHistory key => { rows with history := setAt rows.history key true }
  | .deleteHistory key => { rows with history := setAt rows.history key false }
  | .putUtxo key val => { rows with utxo := setAt rows.utxo key (some val) }
  | .deleteUtxo key => { rows with utxo := setAt rows.utxo key none }
  | .putBlock height row => { rows with blocks := setAt rows.blocks height (some row) }
  | .deleteBlock height => { rows with blocks := setAt rows.blocks height none }
  | .putTip tip => { rows with tip := some tip }
  | .deleteTip => { rows with tip := none }
  | .putUndo .. | .deleteUndo _ | .deleteUndos _ => rows

def putUndoRecord (undo : Nat → Option Bytes) : Write → Nat → Option Bytes
  | .putUndo height raw => setAt undo height (some raw)
  | .deleteUndo height => setAt undo height none
  | .deleteUndos below => fun height => if height < below then none else undo height
  | _ => undo

def Db.put (db : Db) (write : Write) : Db where
  toRows := db.toRows.put write
  undo := putUndoRecord db.undo write

def Db.write (db : Db) (batch : List Write) : Db := batch.foldl Db.put db

/-- What `apply` carries through its loops, with the undo of the block at hand. -/
structure Loop where
  wb : List Write
  n : Nat
  batchUtxos : UtxoKey → Option UtxoVal
  addedUtxo : List UtxoKey
  addedHistory : List HistoryKey
  deletedUtxo : List (UtxoKey × UtxoVal)

def utxoKeyOf (txid : Txid) (funded : Funded) : UtxoKey :=
  ⟨funded.program, txid, funded.vout⟩

def Spent.key (spent : Spent) : UtxoKey := ⟨spent.program, spent.prevout⟩

def fund (keepUndo : Bool) (height : Nat) (txid : Txid) (loop : Loop) (funded : Funded) : Loop :=
  let key := utxoKeyOf txid funded
  let val : UtxoVal := ⟨funded.value, height⟩
  { loop with
    wb := loop.wb ++ [.putUtxo key val]
    batchUtxos := if keepUndo then setAt loop.batchUtxos key (some val) else loop.batchUtxos
    addedUtxo := if keepUndo then loop.addedUtxo.insert key else loop.addedUtxo }

def spend (keepUndo : Bool) (loop : Loop) (spent : Spent) : Loop :=
  let key := spent.key
  { loop with
    wb := loop.wb ++ [.deleteUtxo key]
    batchUtxos := if keepUndo then setAt loop.batchUtxos key none else loop.batchUtxos
    addedUtxo := if keepUndo then loop.addedUtxo.filter (· ≠ key) else loop.addedUtxo
    -- Created and spent within this block: no net change.
    deletedUtxo := if keepUndo ∧ key ∈ loop.addedUtxo then
        loop.deletedUtxo.filter (·.1 ≠ key)
      else loop.deletedUtxo }

def touch (keepUndo : Bool) (loop : Loop) (program : Program) : Loop :=
  let key : HistoryKey := ⟨program, loop.n⟩
  { loop with
    wb := loop.wb ++ [.putHistory key]
    addedHistory := if keepUndo then loop.addedHistory ++ [key] else loop.addedHistory }

def TxRows.touched (tx : TxRows) : List Program :=
  (tx.funded.map Funded.program ++ tx.spent.map Spent.program).dedup

def applyTx (keepUndo : Bool) (height : Nat) (loop : Loop) (tx : TxRows) : Except Fault Loop :=
  if maxTxnum < loop.n then
    .error (.other s!"txnum space exhausted at height {height}")
  else
    let loop := { loop with wb := loop.wb ++ [.putTxid loop.n tx.txid] }
    let loop := tx.funded.foldl (fund keepUndo height tx.txid) loop
    let loop := tx.spent.foldl (spend keepUndo) loop
    let loop := tx.touched.foldl (touch keepUndo) loop
    .ok { loop with n := loop.n + 1 }

/-- The unspent outputs a block spends that exist before it, with their values. -/
def Db.spentValues (db : Db) (block : ParsedBlock) (batchUtxos : UtxoKey → Option UtxoVal) :
    List (UtxoKey × UtxoVal) :=
  let keys := (block.txs.flatMap fun tx => tx.spent.map Spent.key).dedup
  keys.filterMap fun key => ((batchUtxos key).or (db.utxo key)).map fun val => (key, val)

/-- A transaction number as a key; the source asserts that it fits. -/
def txnumKey (txnum : Nat) : Except Fault Unit :=
  refuseIf (maxTxnum < txnum) (.other s!"txnum {txnum} exceeds 40 bits")

def Db.applyBlock (db : Db) (keepUndo : Bool) (state : Loop × List BlockRec)
    (block : ParsedBlock) : Except Fault (Loop × List BlockRec) := do
  let firstTxnum := state.1.n
  let nTxs := block.txs.length
  let start : Loop := { state.1 with
    addedUtxo := []
    addedHistory := []
    deletedUtxo := if keepUndo then db.spentValues block state.1.batchUtxos else [] }
  let loop ← block.txs.foldlM (applyTx keepUndo block.height) start
  let row : BlockRec := ⟨block.hash, block.time, firstTxnum, nTxs⟩
  txnumKey firstTxnum
  let undo : Undo := ⟨firstTxnum, nTxs, loop.addedHistory, loop.addedUtxo, loop.deletedUtxo⟩
  let wb := loop.wb ++ [.putBlock block.height row] ++
    if keepUndo then [.putUndo block.height undo.encode] else []
  return ({ loop with wb := wb }, state.2 ++ [row])

variable (db : Db) (blocks : List ParsedBlock) (nextTxnum : Nat) (keepUndo : Bool)

def Db.applyBatch : Except Fault (List Write × List BlockRec) := do
  let start : Loop := ⟨[], nextTxnum, fun _ => none, [], [], []⟩
  let (loop, recs) ← blocks.foldlM (db.applyBlock keepUndo) (start, [])
  let tip := match blocks.getLast? with
    | some last => [.putTip (last.height, last.hash)]
    | none => []
  return (loop.wb ++ tip, recs)

def Db.apply : Except Fault (Db × List BlockRec) := do
  let (batch, recs) ← db.applyBatch blocks nextTxnum keepUndo
  return (db.write batch, recs)

def rangeKeys (first last : Nat) : Except Fault Unit :=
  if first < last then txnumKey last else .ok ()

def tipWrite : Option (Nat × BlockHash) → Write
  | some tip => .putTip tip
  | none => .deleteTip

/-- The batch that carries an undo record out. -/
def Undo.writes (undo : Undo) (height : Nat) (row : BlockRec) (newTip : Option (Nat × BlockHash)) :
    List Write :=
  undo.addedHistory.map Write.deleteHistory ++ (undo.addedUtxo.map Write.deleteUtxo ++
      (undo.deletedUtxo.map (fun spent => Write.putUtxo spent.1 spent.2) ++
        [.deleteTxids row.firstTxnum (row.firstTxnum + row.nTxs), .deleteBlock height,
          .deleteUndo height, tipWrite newTip]))

variable (db : Db) (height : Nat) (row : BlockRec) (newTip : Option (Nat × BlockHash))

def Db.rollbackBatch : Except Fault (List Write) := do
  let raw ← orFail (db.undo height) (.noUndo height)
  let undo ← (Undo.decode raw).mapError
    fun text => Fault.other s!"undo record for height {height}: {text}"
  refuseIf ((undo.firstTxnum, undo.nTxs) ≠ (row.firstTxnum, row.nTxs))
    (.other s!"undo for height {height} covers txnums {undo.firstTxnum}+{undo.nTxs}, block row says {row.firstTxnum}+{row.nTxs}")
  rangeKeys row.firstTxnum (row.firstTxnum + row.nTxs)
  return undo.writes height row newTip

def Db.rollback : Except Fault Db := do
  return db.write (← db.rollbackBatch height row newTip)

def Db.pruneUndo (db : Db) (below : Nat) : Db := db.write [.deleteUndos below]

variable {row : BlockRec} {keepUndo : Bool} {recs : List BlockRec} {blocks : List ParsedBlock}
  {batch : List Write} {height n : Nat} {newTip : Option (Nat × BlockHash)}

variable {db after : Db}

theorem Db.apply_of_batch (batched : db.applyBatch blocks n keepUndo = .ok (batch, recs)) :
    db.apply blocks n keepUndo = .ok (db.write batch, recs) := by
  unfold Db.apply
  rw [batched, ok_bind]
  rfl

theorem Db.batch_of_apply (applied : db.apply blocks n keepUndo = .ok (after, recs)) :
    ∃ batch, db.applyBatch blocks n keepUndo = .ok (batch, recs) ∧ after = db.write batch := by
  obtain ⟨⟨batch, rows⟩, batched, applied⟩ := ok_of_bind applied
  cases applied
  exact ⟨batch, batched, rfl⟩

theorem Db.rollback_of_batch (batched : db.rollbackBatch height row newTip = .ok batch) :
    db.rollback height row newTip = .ok (db.write batch) := by
  unfold Db.rollback
  rw [batched, ok_bind]
  rfl

theorem Db.batch_of_rollback (rolled : db.rollback height row newTip = .ok after) :
    ∃ batch, db.rollbackBatch height row newTip = .ok batch ∧ after = db.write batch := by
  obtain ⟨batch, batched, rolled⟩ := ok_of_bind rolled
  cases rolled
  exact ⟨batch, batched, rfl⟩

end Fortis.Index
