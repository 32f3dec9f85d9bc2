import Fortis.Index.Store
import Fortis.Lib.Journal

/-!
# The syncer

A pass asks the node for its tip, takes blocks back while the index's own tip is not on the node's
chain, and then applies the blocks the node serves: those far below the node's tip in batches
without undo records, the rest one at a time with them.  Every answer of the node, every write that
fails and the moment of a stop request are inputs of the pass.
-/

namespace Fortis.Index

open Lib

def maxReorgDepth : Nat := 288

def bulkBatch : Nat := 64

structure BlockTable where
  start : Nat
  recs : List BlockRec
  deriving DecidableEq

namespace BlockTable

def tip (table : BlockTable) : Option (Nat × BlockRec) :=
  table.recs.getLast?.map fun row => (table.start + table.recs.length - 1, row)

def get (table : BlockTable) (height : Nat) : Option BlockRec :=
  if height < table.start then none else table.recs[height - table.start]?

def nextTxnum (table : BlockTable) : Nat :=
  match table.recs.getLast? with
  | none => 0
  | some row => row.firstTxnum + row.nTxs

def push (table : BlockTable) (height : Nat) (row : BlockRec) : Except Fault BlockTable :=
  match table.tip with
  | none => .ok ⟨height, table.recs ++ [row]⟩
  | some (tip, _) =>
    if height = tip + 1 then .ok ⟨table.start, table.recs ++ [row]⟩
    else .error (.other "BlockTable::push out of order")

def pushAll (table : BlockTable) (blocks : List ParsedBlock) (recs : List BlockRec) :
    Except Fault BlockTable :=
  (blocks.zip recs).foldlM (fun table pair => table.push pair.1.height pair.2) table

def pop (table : BlockTable) : BlockTable :=
  { table with recs := table.recs.dropLast }

end BlockTable

/-! ## A pass -/

structure Config where
  startHeight : Nat
  stopHeight : Option Nat

/-- A delivery of the fetcher; `stop` is whether a stop was asked for before it. -/
structure Item where
  stop : Bool
  block : Except String BlockBody

structure Answers where
  tip : Except String UInt32
  /-- The answers to requests for the hash at a height, in the order they are made. -/
  hash : Nat → Nat → Except String BlockHash
  items : List Item
  /-- The failures of writes, by the order they are made in. -/
  disk : Nat → Option String

/-- The syncer, and what it handed to the disk since it was started. -/
structure State where
  db : Db
  table : BlockTable
  (bulkDirty follow : Bool)
  (asked written : Nat)
  journal : List (Journal.Entry (List Write))

def State.empty : State where
  db := Db.empty
  table := ⟨0, []⟩
  bulkDirty := false
  follow := false
  asked := 0
  written := 0
  journal := []

/-- A batch on disk, with the log or without it. -/
def State.commit (state : State) (logged : Bool) (batch : List Write) : State :=
  { state with
    db := state.db.write batch
    journal := state.journal ++ [.write logged batch] }

abbrev SyncM := EStateM Fault State

section Pass

variable (answers : Answers)

def lift {α : Type} (result : Except Fault α) : SyncM α :=
  match result with
  | .ok value => pure value
  | .error fault => throw fault

def reachDisk : SyncM Unit := do
  let state ← get
  set { state with written := state.written + 1 }
  match answers.disk state.written with
  | some text => throw (.other text)
  | none => pure ()

def hash (height : Nat) : SyncM BlockHash := do
  let state ← get
  set { state with asked := state.asked + 1 }
  lift ((answers.hash state.asked height).mapError Fault.other)

def setClean : SyncM Unit := modify fun state =>
  { state with bulkDirty := false, journal := state.journal ++ [.flush] }

def settle : SyncM Unit := do
  let state ← get
  if state.bulkDirty then do
    reachDisk answers
    setClean
  else pure ()

/-- Wait for a node that is behind the index on the index's own chain. -/
def waitIfBehind (nodeTip : Nat) : SyncM Unit := do
  let state ← get
  match state.table.tip, state.table.get nodeTip with
  | some (tip, _), some ours =>
    if nodeTip < tip then do
      let theirs ← hash answers nodeTip
      abortIf (theirs = ours.hash) (.other
        s!"node tip {nodeTip} is behind the index tip {tip} on the same chain; waiting")
    else pure ()
  | _, _ => pure ()

def onNode (nodeTip height : Nat) (row : BlockRec) : SyncM Bool :=
  if height ≤ nodeTip then do
    let theirs ← hash answers height
    return decide (theirs = row.hash)
  else pure false

def takeBack (height : Nat) (row : BlockRec) : SyncM Unit := do
  settle answers
  let state ← get
  let newTip := if height = 0 then none
    else (state.table.get (height - 1)).map fun below => (height - 1, below.hash)
  let batch ← lift (state.db.rollbackBatch height row newTip)
  reachDisk answers
  modify fun state => { state.commit true batch with table := state.table.pop }

/-- The loop of `unwind`; every turn shortens the table, so it turns at most
`turns` times when the table has that many rows. -/
def unwindLoop (nodeTip : Nat) : Nat → SyncM Unit
  | 0 => pure ()
  | turns + 1 => do
    let state ← get
    match state.table.tip with
    | none => pure ()
    | some (height, row) => do
      let shared ← onNode answers nodeTip height row
      if shared then pure ()
      else do
        takeBack answers height row
        unwindLoop nodeTip turns

def unwind (nodeTip : Nat) : SyncM Unit := do
  waitIfBehind answers nodeTip
  let state ← get
  unwindLoop answers nodeTip state.table.recs.length

/-- Before a durable write nothing may be left to flush. -/
def settleFor (durable : Bool) : SyncM Unit :=
  if durable then settle answers else pure ()

def apply (blocks : List ParsedBlock) (durable : Bool) : SyncM Unit :=
  if blocks.isEmpty then pure ()
  else do
    settleFor answers durable
    let state ← get
    let (batch, recs) ← lift (state.db.applyBatch blocks state.table.nextTxnum durable)
    reachDisk answers
    modify fun state => { state.commit durable batch with
      bulkDirty := if durable then state.bulkDirty else true }
    let table ← lift (state.table.pushAll blocks recs)
    modify fun state => { state with table := table }

def enterFollow : SyncM Unit := do
  let state ← get
  if state.follow then pure ()
  else do
    set { state with follow := true }
    reachDisk answers
    setClean

def pruneUndo (below : Nat) : SyncM Unit := do
  reachDisk answers
  modify fun state => state.commit true [.deleteUndos below]

def applyDurable (block : ParsedBlock) : SyncM Unit := do
  enterFollow answers
  apply answers [block] true
  pruneUndo answers (block.height - maxReorgDepth)

def prevHash (bulk : List ParsedBlock) (table : BlockTable) : Option BlockHash :=
  match bulk.getLast? with
  | some last => some last.hash
  | none => table.tip.map fun tip => tip.2.hash

/-- The blocks up to height `last`, with those of the open batch in `bulk`. -/
def receive (last durableFrom : Nat) : Nat → List ParsedBlock → List Item → SyncM Nat
  | _, bulk, [] => do
    apply answers bulk false
    return bulk.length
  | height, bulk, item :: rest =>
    if last < height ∨ item.stop then do
      apply answers bulk false
      return bulk.length
    else do
      let body ← lift (item.block.mapError Fault.other)
      let block : ParsedBlock := ⟨body, height⟩
      let state ← get
      -- The node reorganised under us; the next pass unwinds.
      if (prevHash bulk state.table).any (· ≠ block.prev) then do
        apply answers bulk false
        return bulk.length
      else if height < durableFrom then
        if bulk.length + 1 = bulkBatch then do
          apply answers (bulk ++ [block]) false
          let applied ← receive last durableFrom (height + 1) [] rest
          return bulkBatch + applied
        else receive last durableFrom (height + 1) (bulk ++ [block]) rest
      else do
        apply answers bulk false
        applyDurable answers block
        let applied ← receive last durableFrom (height + 1) [] rest
        return bulk.length + 1 + applied

def lastHeight (config : Config) (nodeTip : Nat) : Nat :=
  match config.stopHeight with
  | none => nodeTip
  | some stop => min stop nodeTip

def nextHeight (config : Config) (table : BlockTable) : Nat :=
  match table.tip with
  | none => config.startHeight
  | some (tip, _) => tip + 1

def step (config : Config) : SyncM Nat := do
  let tip ← lift (answers.tip.mapError Fault.other)
  let nodeTip := tip.toNat
  unwind answers nodeTip
  let state ← get
  let first := nextHeight config state.table
  let last := lastHeight config nodeTip
  let durableFrom := nodeTip - maxReorgDepth
  if last < first then
    if durableFrom ≤ first then do
      enterFollow answers
      return 0
    else return 0
  else receive answers last durableFrom first [] answers.items

/-- The end of `run`, when a stop was asked for or the stop height is reached. -/
def stop : SyncM Unit := settle answers

end Pass

def run (config : Config) : List Answers → State → State
  | [], state => state
  | answers :: rest, state =>
    let pass := step answers config
    match raised? pass state with
    | some (.noUndo _) => finalState pass state
    | _ => run config rest (finalState pass state)

end Fortis.Index
