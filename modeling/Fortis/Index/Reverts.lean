import Fortis.Index.UndoCodec

/-!
# What a block writes and how it is taken back

The writes `apply` makes to the rows are a function of the block and its first transaction number.
The undo record is booked against the rows before the block: as long as no output of the block was
there already, carrying the record out gives those rows back.
-/

namespace Fortis.Index

open Lib List Nat Rows

def Rows.write (rows : Rows) (batch : List Write) : Rows := batch.foldl Rows.put rows

theorem Rows.write_append (rows : Rows) (first second : List Write) :
    rows.write (first ++ second) = (rows.write first).write second :=
  foldl_append

theorem toRows_write (db : Db) (batch : List Write) :
    (db.write batch).toRows = db.toRows.write batch := by
  induction batch generalizing db with
  | nil => rfl
  | cons first rest ih => exact ih (db.put first)

variable {height : Nat}

section Sources

variable {rows : Rows} {batch : List Write}

/-- What holds after a batch held before it, or the one write that brings it in is in the batch. -/
theorem source_of_write (holds : Rows -> Prop) {origin : Write}
    (one : ∀ rows write, holds (rows.put write) -> holds rows \/ write = origin)
    (found : holds (rows.write batch)) : holds rows \/ origin ∈ batch := by
  rcases foldl_source holds found one with before | ⟨_, mem, rfl⟩
  · exact .inl before
  · exact .inr mem

theorem source_of_setAt {κ ν : Type} [DecidableEq κ] {family : κ -> ν} {key other : κ}
    {value result : ν} (found : setAt family key value other = result) :
    family other = result \/ (other = key /\ value = result) := by
  unfold setAt at found
  split at found
  next same => exact .inr ⟨same, found⟩
  · exact .inl found

theorem utxo_of_write {key : UtxoKey} {val : UtxoVal}
    (found : (rows.write batch).utxo key = some val) :
    rows.utxo key = some val \/ .putUtxo key val ∈ batch := by
  refine source_of_write (·.utxo key = some val) (fun rows write here => ?_) found
  cases write with
  | putUtxo other written =>
    refine (source_of_setAt here).imp_right ?_
    rintro ⟨rfl, ⟨⟩⟩
    rfl
  | deleteUtxo other =>
    exact .inl ((source_of_setAt here).resolve_right fun both => nomatch both.2)
  | _ => exact .inl here

theorem history_of_write {key : HistoryKey} (found : (rows.write batch).history key = true) :
    rows.history key = true \/ .putHistory key ∈ batch := by
  refine source_of_write (·.history key = true) (fun rows write here => ?_) found
  cases write with
  | putHistory other =>
    refine (source_of_setAt here).imp_right ?_
    rintro ⟨rfl, _⟩
    rfl
  | deleteHistory other =>
    exact .inl ((source_of_setAt here).resolve_right fun both => nomatch both.2)
  | _ => exact .inl here

theorem txid_of_write {txnum : Nat} {txid : Txid}
    (found : (rows.write batch).txids txnum = some txid) :
    rows.txids txnum = some txid \/ .putTxid txnum txid ∈ batch := by
  refine source_of_write (·.txids txnum = some txid) (fun rows write here => ?_) found
  cases write with
  | putTxid other written =>
    refine (source_of_setAt here).imp_right ?_
    rintro ⟨rfl, ⟨⟩⟩
    rfl
  | deleteTxids low high =>
    change (if low <= txnum /\ txnum < high then none else rows.txids txnum) = _ at here
    split at here
    · cases here
    · exact .inl here
  | _ => exact .inl here

theorem block_of_write {row : BlockRec} (found : (rows.write batch).blocks height = some row) :
    rows.blocks height = some row \/ .putBlock height row ∈ batch := by
  refine source_of_write (·.blocks height = some row) (fun rows write here => ?_) found
  cases write with
  | putBlock other written =>
    refine (source_of_setAt here).imp_right ?_
    rintro ⟨rfl, ⟨⟩⟩
    rfl
  | deleteBlock other =>
    exact .inl ((source_of_setAt here).resolve_right fun both => nomatch both.2)
  | _ => exact .inl here

end Sources

/-! ## The writes of a block -/

def txWrites (height n : Nat) (tx : TxRows) : List Write :=
  .putTxid n tx.txid ::
    (tx.funded.map (fun funded => .putUtxo (utxoKeyOf tx.txid funded) ⟨funded.value, height⟩) ++
      (tx.spent.map (fun spent => .deleteUtxo spent.key) ++
        tx.touched.map fun program => .putHistory ⟨program, n⟩))

def txsWrites (height : Nat) : Nat -> List TxRows -> List Write
  | _, [] => []
  | n, tx :: rest => txWrites height n tx ++ txsWrites height (n + 1) rest

def ParsedBlock.row (block : ParsedBlock) (firstTxnum : Nat) : BlockRec :=
  ⟨block.hash, block.time, firstTxnum, block.txs.length⟩

def blockWrites (n : Nat) (block : ParsedBlock) : List Write :=
  txsWrites block.height n block.txs ++ [.putBlock block.height (block.row n)]

def Write.isInner : Write -> Bool
  | .putTip _ | .deleteTip | .putUndo .. | .deleteUndo _ | .deleteUndos _ => false
  | _ => true

variable {write : Write} {n : Nat}

theorem mem_txsWrites {txs : List TxRows} : write ∈ txsWrites height n txs ↔
      ∃ k tx, txs[k]? = some tx /\ write ∈ txWrites height (n + k) tx := by
  induction txs generalizing n with
  | nil => exact ⟨nofun, fun ⟨_, _, found, _⟩ => by cases found⟩
  | cons tx rest ih =>
    rw [txsWrites, mem_append, ih]
    constructor
    · rintro (here | ⟨k, other, found, inside⟩)
      · exact ⟨0, tx, rfl, here⟩
      · exact ⟨k + 1, other, found, by rwa [<- add_assoc, add_right_comm]⟩
    rintro ⟨k, other, found, inside⟩
    cases k with
    | zero =>
      cases found
      exact .inl inside
    | succ k => exact .inr ⟨k, other, found, by rwa [add_assoc, add_comm 1 k]⟩

theorem txsWrites_inner {txs : List TxRows}
    (mem : write ∈ txsWrites height n txs) : write.isInner = true := by
  obtain ⟨_, _, _, here⟩ := mem_txsWrites.mp mem
  simp only [txWrites, mem_cons, mem_append, mem_map] at here
  rcases here with rfl | ⟨_, _, rfl⟩ | ⟨_, _, rfl⟩ | ⟨_, _, rfl⟩ <;> rfl

section Inner

variable {batch : List Write}

theorem undo_write_inner (inner : ∀ write ∈ batch, write.isInner = true) (db : Db) :
    (db.write batch).undo = db.undo := by
  induction batch generalizing db with
  | nil => rfl
  | cons first rest ih =>
    have later := ih (fun write mem => inner write (mem_cons_of_mem first mem)) (db.put first)
    refine Eq.trans later ?_
    have here := inner first mem_cons_self
    cases first <;> first | rfl | cases here

theorem write_withTip (inner : ∀ write ∈ batch, write.isInner = true) (rows : Rows)
    (tip : Option (Nat × BlockHash)) :
    ({ rows with tip := tip } : Rows).write batch = { rows.write batch with tip := tip } := by
  induction batch generalizing rows with
  | nil => rfl
  | cons first rest ih =>
    have later := ih (fun write mem => inner write (mem_cons_of_mem first mem)) (rows.put first)
    refine Eq.trans ?_ later
    have here := inner first mem_cons_self
    cases first <;> first | rfl | cases here

end Inner

variable {after : Loop} {loop : Loop} {α : Type}

section Loops

variable {keepUndo : Bool} {height : Nat}

theorem fold_writes (body : Loop -> α -> Loop) (write : Nat -> α -> Write)
    (one : ∀ loop item, (body loop item).wb = loop.wb ++ [write loop.n item] /\
      (body loop item).n = loop.n) (items : List α) (loop : Loop) :
    (items.foldl body loop).wb = loop.wb ++ items.map (write loop.n) /\
      (items.foldl body loop).n = loop.n := by
  induction items generalizing loop with
  | nil => exact ⟨(append_nil _).symm, rfl⟩
  | cons first rest ih =>
    obtain ⟨wb, n⟩ := ih (body loop first)
    obtain ⟨wbOne, nOne⟩ := one loop first
    rw [foldl_cons, wb, n, wbOne, nOne]
    exact ⟨append_assoc _ _ _, rfl⟩

section

variable (keepUndo : Bool) (height : Nat) (loop : Loop) (tx : TxRows)

def fundRows : Loop :=
  tx.funded.foldl (fund keepUndo height tx.txid)
    { loop with wb := loop.wb ++ [.putTxid loop.n tx.txid] }

def spendRows : Loop :=
  tx.spent.foldl (spend keepUndo) (fundRows keepUndo height loop tx)

def applyRows : Loop :=
  tx.touched.foldl (touch keepUndo) (spendRows keepUndo height loop tx)

end

theorem applyTx_eq_ok {tx : TxRows} : applyTx keepUndo height loop tx = .ok after ↔
      loop.n <= maxTxnum /\ after = { applyRows keepUndo height loop tx with
        n := (applyRows keepUndo height loop tx).n + 1 } := by
  unfold applyTx
  split
  next large => exact ⟨nofun, fun fits => absurd fits.1 (by omega)⟩
  next fits =>
  constructor
  · intro applied
    cases applied
    exact ⟨by omega, rfl⟩
  rintro ⟨_, rfl⟩
  rfl

theorem spendRows_writes (loop : Loop) (tx : TxRows) :
    (spendRows keepUndo height loop tx).wb = loop.wb ++ ([.putTxid loop.n tx.txid] ++
        (tx.funded.map (fun funded => .putUtxo (utxoKeyOf tx.txid funded) ⟨funded.value, height⟩) ++
        tx.spent.map fun spent => .deleteUtxo spent.key)) /\
      (spendRows keepUndo height loop tx).n = loop.n := by
  obtain ⟨fundWb, fundN⟩ := fold_writes (fund keepUndo height tx.txid)
    (fun _ funded => .putUtxo (utxoKeyOf tx.txid funded) ⟨funded.value, height⟩)
    (fun _ _ => ⟨rfl, rfl⟩) tx.funded { loop with wb := loop.wb ++ [.putTxid loop.n tx.txid] }
  obtain ⟨spendWb, spendN⟩ := fold_writes (spend keepUndo) (fun _ spent => .deleteUtxo spent.key)
    (fun _ _ => ⟨rfl, rfl⟩) tx.spent (fundRows keepUndo height loop tx)
  unfold spendRows
  rw [spendWb, spendN]
  unfold fundRows
  rw [fundWb, fundN]
  exact ⟨by simp only [append_assoc], rfl⟩

theorem applyRows_writes (loop : Loop) (tx : TxRows) :
    (applyRows keepUndo height loop tx).wb = loop.wb ++ txWrites height loop.n tx /\
      (applyRows keepUndo height loop tx).n = loop.n := by
  obtain ⟨wb, n⟩ := fold_writes (touch keepUndo) (fun n program => .putHistory ⟨program, n⟩)
    (fun _ _ => ⟨rfl, rfl⟩) tx.touched (spendRows keepUndo height loop tx)
  obtain ⟨spendWb, spendN⟩ : (spendRows keepUndo height loop tx).wb = _ /\ _ :=
    spendRows_writes loop tx
  unfold applyRows
  rw [wb, n, spendWb, spendN]
  exact ⟨by simp only [txWrites, append_assoc, cons_append, nil_append], rfl⟩

theorem applyTxs_ok {txs : List TxRows}
    (applied : txs.foldlM (applyTx keepUndo height) loop = .ok after) :
    (txs = [] \/ loop.n + txs.length <= maxTxnum + 1) /\ after.n = loop.n + txs.length /\
      after.wb = loop.wb ++ txsWrites height loop.n txs := by
  induction txs generalizing loop with
  | nil =>
    cases applied
    exact ⟨.inl rfl, rfl, (append_nil _).symm⟩
  | cons tx rest ih =>
    rw [foldlM_cons] at applied
    obtain ⟨middle, first, applied⟩ := ok_of_bind applied
    obtain ⟨fits, rfl⟩ := applyTx_eq_ok.mp first
    obtain ⟨small, number, wb⟩ := ih applied
    have writes : (applyRows keepUndo height loop tx).wb = loop.wb ++ txWrites height loop.n tx /\
        (applyRows keepUndo height loop tx).n = loop.n := applyRows_writes loop tx
    obtain ⟨wbOne, nOne⟩ := writes
    dsimp only at small number wb
    rw [nOne] at small number wb
    refine ⟨.inr ?_, ?_, ?_⟩
    · rcases small with rfl | small
      · exact succ_le_succ fits
      rw [length_cons]
      omega
    · rw [number, length_cons]
      omega
    rw [wb, wbOne, append_assoc]
    rfl

theorem applyTxs_of_fits {txs : List TxRows}
    (fits : txs = [] \/ loop.n + txs.length <= maxTxnum + 1) :
    ∃ after, txs.foldlM (applyTx keepUndo height) loop = .ok after := by
  induction txs generalizing loop with
  | nil => exact ⟨loop, rfl⟩
  | cons tx rest ih =>
    have small := fits.resolve_left (cons_ne_nil tx rest)
    rw [length_cons] at small
    have first : applyTx keepUndo height loop tx = .ok { applyRows keepUndo height loop tx with
        n := (applyRows keepUndo height loop tx).n + 1 } := applyTx_eq_ok.mpr ⟨by omega, rfl⟩
    rw [foldlM_cons, first]
    refine ih (.inr ?_)
    dsimp only
    rw [(applyRows_writes loop tx).2]
    omega

end Loops

/-! ## Booking the undo record -/

structure Clean (before : Rows) (first : Nat) (block : ParsedBlock) : Prop where
  utxo : ∀ tx ∈ block.txs, ∀ funded ∈ tx.funded, before.utxo (utxoKeyOf tx.txid funded) = none
  history : ∀ key : HistoryKey, first <= key.txnum -> before.history key = false
  txids : ∀ txnum, first <= txnum -> before.txids txnum = none
  blocks : before.blocks block.height = none

def ParsedBlock.spentKeys (block : ParsedBlock) : List UtxoKey :=
  block.txs.flatMap fun tx => tx.spent.map Spent.key

/-- The books of a loop against the rows before the block: what was deleted was there, what was
added was not, and every other key is as it was, or is booked. -/
structure Booked (before : Rows) (first bound : Nat) (keys : List UtxoKey) (loop : Loop)
    (now : Rows) : Prop where
  number : first <= loop.n
  deleted : ∀ row ∈ loop.deletedUtxo, before.utxo row.1 = some row.2
  added : ∀ key ∈ loop.addedUtxo, before.utxo key = none
  kept : ∀ key, key ∉ loop.addedUtxo -> now.utxo key = before.utxo key \/
    (now.utxo key = none /\ ∀ val, before.utxo key = some val -> (key, val) ∈ loop.deletedUtxo)
  due : ∀ key ∈ keys, ∀ val, before.utxo key = some val -> (key, val) ∈ loop.deletedUtxo
  history : ∀ key ∈ loop.addedHistory, before.history key = false /\ key.txnum <= maxTxnum
  historyKept : ∀ key, key ∉ loop.addedHistory -> now.history key = before.history key
  txids : ∀ txnum, txnum < first \/ bound <= txnum -> now.txids txnum = before.txids txnum
  blocks : now.blocks = before.blocks
  tip : now.tip = before.tip

theorem setAt_other {κ ν : Type} [DecidableEq κ] {family : κ -> ν} {key other : κ} {value : ν}
    (ne : other ≠ key) : setAt family key value other = family other :=
  if_neg ne

theorem setAt_same {κ ν : Type} [DecidableEq κ] {family : κ -> ν} {key : κ} {value : ν} :
    setAt family key value key = value :=
  if_pos rfl

section Booking

variable {before now : Rows} {first bound : Nat} {keys : List UtxoKey} {loop : Loop}

section

variable (booked : Booked before first bound keys loop now)
include booked

theorem Booked.fund {txid : Txid}
    {funded : Funded} (fresh : before.utxo (utxoKeyOf txid funded) = none) :
    Booked before first bound keys (fund true height txid loop funded)
      (now.put (.putUtxo (utxoKeyOf txid funded) ⟨funded.value, height⟩)) where
  __ := booked
  added key member := by
    rcases mem_insert_iff.mp member with rfl | old
    · exact fresh
    · exact booked.added key old
  kept key absent := by
    have other : key ≠ utxoKeyOf txid funded := fun same =>
      absent (mem_insert_iff.mpr (.inl same))
    have old := booked.kept key fun here => absent (mem_insert_iff.mpr (.inr here))
    have same : (now.put (.putUtxo (utxoKeyOf txid funded) ⟨funded.value, height⟩)).utxo key =
        now.utxo key := setAt_other other
    rw [same]
    exact old

/-- Spending an output of the block strikes it from the books; an older one is booked already. -/
theorem Booked.spend {spent : Spent} (isKey : spent.key ∈ keys) :
    Booked before first bound keys (spend true loop spent) (now.put (.deleteUtxo spent.key)) := by
  have booksOld : ∀ row ∈ (Index.spend true loop spent).deletedUtxo, row ∈ loop.deletedUtxo := by
    intro row mem
    unfold Index.spend at mem
    dsimp only at mem
    split at mem
    · exact (mem_filter.mp mem).1
    · exact mem
  have booksKeep : ∀ row ∈ loop.deletedUtxo, row ∈ (Index.spend true loop spent).deletedUtxo := by
    intro row mem
    unfold Index.spend
    dsimp only
    split
    next struck =>
      refine mem_filter.mpr ⟨mem, decide_eq_true fun same => ?_⟩
      have missing := booked.added spent.key struck.2
      rw [<- same, booked.deleted row mem] at missing
      cases missing
    · exact mem
  have addedIff : ∀ key, key ∈ (Index.spend true loop spent).addedUtxo ↔
      key ∈ loop.addedUtxo /\ key ≠ spent.key := by
    intro key
    change key ∈ loop.addedUtxo.filter _ ↔ _
    rw [mem_filter, decide_eq_true_iff]
  exact { booked with
    deleted := fun row mem => booked.deleted row (booksOld row mem)
    added := fun key mem => booked.added key ((addedIff key).mp mem).1
    kept := by
      intro key absent
      by_cases same : key = spent.key
      · refine .inr ⟨?_, fun val there => ?_⟩
        · rw [same]
          exact setAt_same
        · exact booksKeep _ (booked.due key (same ▸ isKey) val there)
      have unchanged : (now.put (.deleteUtxo spent.key)).utxo key = now.utxo key :=
        setAt_other same
      rw [unchanged]
      rcases booked.kept key fun here => absent ((addedIff key).mpr ⟨here, same⟩) with old | old
      · exact .inl old
      · exact .inr ⟨old.1, fun val there => booksKeep _ (old.2 val there)⟩
    due := fun key mem val there => booksKeep _ (booked.due key mem val there) }

theorem Booked.touch {program : Program}
    (unwritten : ∀ key : HistoryKey, first <= key.txnum -> before.history key = false)
    (fits : loop.n <= maxTxnum) :
    Booked before first bound keys (touch true loop program)
      (now.put (.putHistory ⟨program, loop.n⟩)) where
  __ := booked
  history := forall_mem_append.mpr
    ⟨booked.history, forall_mem_singleton.mpr ⟨unwritten _ booked.number, fits⟩⟩
  historyKept key absent := by
    have other : key ≠ ⟨program, loop.n⟩ := fun same =>
      absent (mem_append_right _ (mem_singleton.mpr same))
    have unchanged : (now.put (.putHistory ⟨program, loop.n⟩)).history key = now.history key :=
      setAt_other other
    rw [unchanged]
    exact booked.historyKept key fun here => absent (mem_append_left _ here)

end

theorem Booked.fold (body : Loop -> α -> Loop) (write : Nat -> α -> Write) (items : List α)
    (one : ∀ loop item, (body loop item).wb = loop.wb ++ [write loop.n item] /\
      (body loop item).n = loop.n)
    (keeps : ∀ other now item, item ∈ items -> other.n = loop.n ->
      Booked before first bound keys other now ->
      Booked before first bound keys (body other item) (now.put (write other.n item)))
    (booked : Booked before first bound keys loop (before.write loop.wb)) :
    Booked before first bound keys (items.foldl body loop)
      (before.write (items.foldl body loop).wb) := by
  refine (foldlRecOn items body (motive := fun other => other.n = loop.n /\
    Booked before first bound keys other (before.write other.wb)) ⟨rfl, booked⟩ ?_).2
  intro other held item mem
  obtain ⟨wb, number⟩ := one other item
  refine ⟨number.trans held.1, ?_⟩
  rw [wb, write_append]
  exact keeps other _ item mem held.1 held.2

theorem Booked.tx (booked : Booked before first loop.n keys loop (before.write loop.wb))
    {tx : TxRows}
    (fresh : ∀ funded ∈ tx.funded, before.utxo (utxoKeyOf tx.txid funded) = none)
    (isKey : ∀ spent ∈ tx.spent, spent.key ∈ keys)
    (unwritten : ∀ key : HistoryKey, first <= key.txnum -> before.history key = false)
    (fits : loop.n <= maxTxnum) :
    Booked before first (loop.n + 1) keys (applyRows true height loop tx)
      (before.write (applyRows true height loop tx).wb) := by
  have numbered : Booked before first (loop.n + 1) keys
      { loop with wb := loop.wb ++ [.putTxid loop.n tx.txid] }
      (before.write (loop.wb ++ [.putTxid loop.n tx.txid])) := by
    rw [write_append]
    exact { booked with
      txids := fun txnum range => by
        have other : txnum ≠ loop.n := by
          have := booked.number
          omega
        have unchanged : ((before.write loop.wb).put (.putTxid loop.n tx.txid)).txids txnum =
            (before.write loop.wb).txids txnum := setAt_other other
        exact unchanged.trans (booked.txids txnum (by omega)) }
  have funds := numbered.fold (Index.fund true height tx.txid)
    (fun _ funded => .putUtxo (utxoKeyOf tx.txid funded) ⟨funded.value, height⟩) tx.funded
    (fun _ _ => ⟨rfl, rfl⟩) fun _ _ funded mem _ held => held.fund (fresh funded mem)
  have spends := funds.fold (Index.spend true) (fun _ spent => .deleteUtxo spent.key) tx.spent
    (fun _ _ => ⟨rfl, rfl⟩) fun _ _ spent mem _ held => held.spend (isKey spent mem)
  have number : (spendRows true height loop tx).n = loop.n := (spendRows_writes loop tx).2
  exact spends.fold (Index.touch true) (fun n program => .putHistory ⟨program, n⟩) tx.touched
    (fun _ _ => ⟨rfl, rfl⟩) fun _ _ _ _ same held =>
      held.touch unwritten ((same.trans number).trans_le fits)

theorem Booked.txs {txs : List TxRows}
    (booked : Booked before first loop.n keys loop (before.write loop.wb))
    (fresh : ∀ tx ∈ txs, ∀ funded ∈ tx.funded, before.utxo (utxoKeyOf tx.txid funded) = none)
    (isKey : ∀ tx ∈ txs, ∀ spent ∈ tx.spent, spent.key ∈ keys)
    (unwritten : ∀ key : HistoryKey, first <= key.txnum -> before.history key = false)
    (applied : txs.foldlM (applyTx true height) loop = .ok after) :
    Booked before first after.n keys after (before.write after.wb) := by
  induction txs generalizing loop with
  | nil =>
    cases applied
    exact booked
  | cons tx rest ih =>
    rw [foldlM_cons] at applied
    obtain ⟨middle, one, applied⟩ := ok_of_bind applied
    obtain ⟨fits, rfl⟩ := applyTx_eq_ok.mp one
    have number : (applyRows true height loop tx).n = loop.n := (applyRows_writes loop tx).2
    have next : Booked before first (loop.n + 1) keys (applyRows true height loop tx)
        (before.write (applyRows true height loop tx).wb) :=
      booked.tx (fresh tx mem_cons_self) (isKey tx mem_cons_self) unwritten fits
    have numbered := le_succ_of_le next.number
    refine ih ?_ (fun other mem => fresh other (mem_cons_of_mem tx mem))
      (fun other mem => isKey other (mem_cons_of_mem tx mem)) applied
    rw [<- number] at next
    exact { next with number := numbered }

end Booking

/-! ## Carrying an undo record out -/

section

variable {rows before now : Rows} {first : Nat} {keys : List UtxoKey} {loop : Loop}

theorem write_deleteHistory (deleted : List HistoryKey) :
    rows.write (deleted.map Write.deleteHistory) = { rows with
      history := fun key => if key ∈ deleted then false else rows.history key } := by
  induction deleted generalizing rows with
  | nil => rfl
  | cons head rest ih =>
    change (rows.put (.deleteHistory head)).write (rest.map Write.deleteHistory) = _
    rw [ih]
    refine Rows.ext rfl (funext fun key => ?_) rfl rfl rfl
    change (if key ∈ rest then false else setAt rows.history head false key) = _
    unfold setAt
    by_cases same : key = head <;> by_cases later : key ∈ rest <;> simp [same, later]

theorem write_deleteUtxo (deleted : List UtxoKey) :
    rows.write (deleted.map Write.deleteUtxo) = { rows with
      utxo := fun key => if key ∈ deleted then none else rows.utxo key } := by
  induction deleted generalizing rows with
  | nil => rfl
  | cons head rest ih =>
    change (rows.put (.deleteUtxo head)).write (rest.map Write.deleteUtxo) = _
    rw [ih]
    refine Rows.ext rfl rfl (funext fun key => ?_) rfl rfl
    change (if key ∈ rest then none else setAt rows.utxo head none key) = _
    unfold setAt
    by_cases same : key = head <;> by_cases later : key ∈ rest <;> simp [same, later]

theorem write_putUtxo {target : UtxoKey -> Option UtxoVal} {restored : List (UtxoKey × UtxoVal)}
    (agree : ∀ row ∈ restored, target row.1 = some row.2) :
    rows.write (restored.map fun row => Write.putUtxo row.1 row.2) = { rows with
      utxo := fun key => if key ∈ restored.map Prod.fst then target key else rows.utxo key } := by
  induction restored generalizing rows with
  | nil => rfl
  | cons head rest ih =>
    have here := agree head mem_cons_self
    change (rows.put (.putUtxo head.1 head.2)).write
      (rest.map fun row => Write.putUtxo row.1 row.2) = _
    rw [ih fun row mem => agree row (mem_cons_of_mem head mem)]
    refine Rows.ext rfl rfl (funext fun key => ?_) rfl rfl
    change (if key ∈ rest.map Prod.fst then target key
      else setAt rows.utxo head.1 (some head.2) key) = _
    unfold setAt
    by_cases same : key = head.1
    · simp [same, here]
    · by_cases later : key ∈ rest.map Prod.fst <;> simp [same, later]

theorem put_tipWrite (tip : Option (Nat × BlockHash)) :
    rows.put (tipWrite tip) = { rows with tip := tip } := by
  cases tip <;> rfl

def Rows.sealed (rows : Rows) (block : ParsedBlock) (firstTxnum : Nat) : Rows :=
  (rows.put (.putBlock block.height (block.row firstTxnum))).put
    (.putTip (block.height, block.hash))

/-- The undo record of a block that was clean gives the rows before it back. -/
theorem Booked.reverts {block : ParsedBlock} {undo : Undo}
    (booked : Booked before first (first + block.txs.length) keys loop now)
    (clean : Clean before first block) (history : undo.addedHistory = loop.addedHistory)
    (added : undo.addedUtxo = loop.addedUtxo) (deleted : undo.deletedUtxo = loop.deletedUtxo) :
    (now.sealed block first).write (undo.writes block.height (block.row first) before.tip) =
      before := by
  have restored : ∀ row ∈ undo.deletedUtxo, before.utxo row.1 = some row.2 :=
    deleted ▸ booked.deleted
  unfold Undo.writes
  rw [Rows.write_append, Rows.write_append, Rows.write_append, write_deleteHistory,
    write_deleteUtxo, write_putUtxo restored, history, added, deleted]
  unfold Rows.write
  rw [foldl_cons, foldl_cons, foldl_cons, foldl_cons, put_tipWrite]
  refine Rows.ext (funext fun txnum => ?_) (funext fun key => ?_) (funext fun key => ?_)
    (funext fun height => ?_) rfl
  · change (if first <= txnum /\ txnum < first + block.txs.length then none
      else now.txids txnum) = before.txids txnum
    split
    next inside => exact (clean.txids txnum inside.1).symm
    next outside => exact booked.txids txnum (by omega)
  · change (if key ∈ loop.addedHistory then false else now.history key) = before.history key
    split
    next new => exact (booked.history key new).1.symm
    next old => exact booked.historyKept key old
  · change (if key ∈ loop.deletedUtxo.map Prod.fst then before.utxo key
      else if key ∈ loop.addedUtxo then none else now.utxo key) = before.utxo key
    split
    · rfl
    next unbooked =>
    split
    next new => exact (booked.added key new).symm
    next old =>
    rcases booked.kept key old with same | ⟨gone, isBooked⟩
    · exact same
    rw [gone]
    cases there : before.utxo key with
    | none => rfl
    | some val => exact absurd (mem_map_of_mem (isBooked val there)) unbooked
  change setAt (setAt now.blocks block.height _) block.height none height = before.blocks height
  by_cases same : height = block.height
  · rw [same, setAt_same, clean.blocks]
  · rw [setAt_other same, setAt_other same, booked.blocks]

end

/-! ## The undo record fits -/

section

variable {height : Nat} {loop after : Loop}

theorem length_touched_le (tx : TxRows) :
    tx.touched.length <= tx.funded.length + tx.spent.length := by
  refine (dedup_sublist _).length_le.trans ?_
  rw [length_append, length_map, length_map]

theorem fold_sizes (body : Loop -> α -> Loop) (utxo history : Nat) (items : List α)
    (loop : Loop) (one : ∀ loop item,
      (body loop item).addedUtxo.length <= loop.addedUtxo.length + utxo /\
      (body loop item).addedHistory.length <= loop.addedHistory.length + history /\
      (body loop item).deletedUtxo.length <= loop.deletedUtxo.length) :
    (items.foldl body loop).addedUtxo.length <= loop.addedUtxo.length + items.length * utxo /\
      (items.foldl body loop).addedHistory.length <=
        loop.addedHistory.length + items.length * history /\
      (items.foldl body loop).deletedUtxo.length <= loop.deletedUtxo.length := by
  induction items generalizing loop with
  | nil => simp
  | cons first rest ih =>
    obtain ⟨added, historyRest, deleted⟩ := ih (body loop first)
    obtain ⟨addedOne, historyOne, deletedOne⟩ := one loop first
    rw [foldl_cons, length_cons, succ_mul, succ_mul]
    omega

theorem fund_sizes (txid : Txid) (loop : Loop) (funded : Funded) :
    (fund true height txid loop funded).addedUtxo.length <= loop.addedUtxo.length + 1 /\
      (fund true height txid loop funded).addedHistory.length <= loop.addedHistory.length + 0 /\
      (fund true height txid loop funded).deletedUtxo.length <= loop.deletedUtxo.length := by
  refine ⟨?_, le_rfl, le_rfl⟩
  change (loop.addedUtxo.insert _).length <= _
  rw [length_insert]
  split <;> omega

theorem spend_sizes (loop : Loop) (spent : Spent) :
    (spend true loop spent).addedUtxo.length <= loop.addedUtxo.length + 0 /\
      (spend true loop spent).addedHistory.length <= loop.addedHistory.length + 0 /\
      (spend true loop spent).deletedUtxo.length <= loop.deletedUtxo.length := by
  refine ⟨length_filter_le _ _, le_rfl, ?_⟩
  unfold spend
  dsimp only
  split
  · exact length_filter_le _ _
  · exact le_rfl

theorem touch_sizes (loop : Loop) (program : Program) :
    (touch true loop program).addedUtxo.length <= loop.addedUtxo.length + 0 /\
      (touch true loop program).addedHistory.length <= loop.addedHistory.length + 1 /\
      (touch true loop program).deletedUtxo.length <= loop.deletedUtxo.length :=
  ⟨le_rfl, (length_append ..).le, le_rfl⟩

theorem applyRows_sizes (loop : Loop) (tx : TxRows) :
    (applyRows true height loop tx).addedUtxo.length <= loop.addedUtxo.length + tx.size /\
      (applyRows true height loop tx).addedHistory.length <= loop.addedHistory.length + tx.size /\
      (applyRows true height loop tx).deletedUtxo.length <= loop.deletedUtxo.length := by
  have funds := fold_sizes (fund true height tx.txid) 1 0 tx.funded
    { loop with wb := loop.wb ++ [.putTxid loop.n tx.txid] } (fund_sizes tx.txid)
  have spends := fold_sizes (spend true) 0 0 tx.spent (fundRows true height loop tx) spend_sizes
  have touches := fold_sizes (touch true) 0 1 tx.touched (spendRows true height loop tx) touch_sizes
  have few := length_touched_le tx
  change (fundRows true height loop tx).addedUtxo.length <= _ /\
    (fundRows true height loop tx).addedHistory.length <= _ /\
    (fundRows true height loop tx).deletedUtxo.length <= _ at funds
  change (spendRows true height loop tx).addedUtxo.length <= _ /\
    (spendRows true height loop tx).addedHistory.length <= _ /\
    (spendRows true height loop tx).deletedUtxo.length <= _ at spends
  dsimp only at funds
  unfold applyRows TxRows.size
  omega

theorem applyTxs_sizes {txs : List TxRows}
    (applied : txs.foldlM (applyTx true height) loop = .ok after) :
    after.addedUtxo.length <= loop.addedUtxo.length + (txs.map TxRows.size).sum /\
      after.addedHistory.length <= loop.addedHistory.length + (txs.map TxRows.size).sum /\
      after.deletedUtxo.length <= loop.deletedUtxo.length := by
  induction txs generalizing loop with
  | nil =>
    cases applied
    exact ⟨le_rfl, le_rfl, le_rfl⟩
  | cons tx rest ih =>
    rw [foldlM_cons] at applied
    obtain ⟨middle, one, applied⟩ := ok_of_bind applied
    obtain ⟨_, rfl⟩ := applyTx_eq_ok.mp one
    have first : (applyRows true height loop tx).addedUtxo.length <= _ /\ _ :=
      applyRows_sizes loop tx
    have later := ih applied
    dsimp only at later
    rw [map_cons, sum_cons]
    omega

theorem length_spentKeys_le (txs : List TxRows) :
    (txs.flatMap fun tx => tx.spent.map Spent.key).length <= (txs.map TxRows.size).sum := by
  induction txs with
  | nil => exact le_rfl
  | cons tx rest ih =>
    rw [flatMap_cons, length_append, length_map, map_cons, sum_cons]
    unfold TxRows.size at ih ⊢
    omega

theorem length_txs_le (txs : List TxRows) : txs.length <= (txs.map TxRows.size).sum := by
  induction txs with
  | nil => exact le_rfl
  | cons tx rest ih =>
    rw [length_cons, map_cons, sum_cons]
    unfold TxRows.size at ih ⊢
    omega

end

/-! ## A durable block and its undo record -/

variable {db : Db} {block : ParsedBlock} {first : Nat}

theorem mem_spentValues {row : UtxoKey × UtxoVal} : row ∈ db.spentValues block (fun _ => none) ↔
      row.1 ∈ block.spentKeys /\ db.utxo row.1 = some row.2 := by
  unfold Db.spentValues
  rw [mem_filterMap]
  constructor
  · rintro ⟨key, mem, found⟩
    obtain ⟨val, there, rfl⟩ := Option.map_eq_some_iff.mp found
    exact ⟨mem_dedup.mp mem, there⟩
  rintro ⟨mem, there⟩
  exact ⟨row.1, mem_dedup.mpr mem, Option.map_eq_some_iff.mpr ⟨row.2, there, rfl⟩⟩

/-- What `undo` has to do: it fits its record, names the block's numbers, and
gives the rows `before` back. -/
structure Undo.Reverts (undo : Undo) (block : ParsedBlock) (first : Nat) (after before : Rows) :
    Prop where
  fits : undo.Fits
  firstTxnum : undo.firstTxnum = first
  nTxs : undo.nTxs = block.txs.length
  reverts : after.write (undo.writes block.height (block.row first) before.tip) = before

theorem applyBlock_ok {keepUndo : Bool} {recs rows : List BlockRec}
    (applied : db.applyBlock keepUndo (loop, recs) block = .ok (after, rows)) :
    ∃ final, block.txs.foldlM (applyTx keepUndo block.height) { loop with
        addedUtxo := []
        addedHistory := []
        deletedUtxo := if keepUndo then db.spentValues block loop.batchUtxos else
          [] } = .ok final /\
      loop.n <= maxTxnum /\ rows = recs ++ [block.row loop.n] /\ after.n = final.n /\
      after.wb = final.wb ++ [.putBlock block.height (block.row loop.n)] ++
        if keepUndo then [.putUndo block.height (Undo.mk loop.n block.txs.length
          final.addedHistory final.addedUtxo final.deletedUtxo).encode] else [] := by
  obtain ⟨final, txs, applied⟩ := ok_of_bind applied
  obtain ⟨_, key, applied⟩ := ok_of_bind applied
  cases applied
  exact ⟨final, txs, Nat.le_of_not_lt (not_of_refuseIf key), rfl, rfl, rfl⟩

/-- Applying one block leaves the undo record that takes it back. -/
theorem toRows_apply_single {after : Db} {recs : List BlockRec}
    (applied : db.apply [block] first true = .ok (after, recs))
    (clean : Clean db.toRows first block)
    (heights : ∀ key val, db.utxo key = some val -> val.height < 256 ^ 4) :
    ∃ undo : Undo, after.undo = setAt db.undo block.height (some undo.encode) /\
      undo.Reverts block first after.toRows db.toRows := by
  obtain ⟨_, batched, rfl⟩ := Db.batch_of_apply applied
  obtain ⟨⟨loop, rows⟩, folded, batched⟩ := ok_of_bind batched
  rw [foldlM_cons] at folded
  obtain ⟨⟨only, rows'⟩, one, folded⟩ := ok_of_bind folded
  cases folded
  cases batched
  obtain ⟨final, txs, fits, rfl, _, wb⟩ := applyBlock_ok one
  have start : Booked db.toRows first first block.spentKeys
      ⟨[], first, fun _ => none, [], [], db.spentValues block fun _ => none⟩ db.toRows :=
    { number := le_rfl
      deleted := fun row mem => (mem_spentValues.mp mem).2
      added := nofun
      kept := fun _ _ => .inl rfl
      due := fun key mem val there => mem_spentValues.mpr ⟨mem, there⟩
      history := nofun
      historyKept := fun _ _ => rfl
      txids := fun _ _ => rfl
      blocks := rfl
      tip := rfl }
  have isKey : ∀ tx ∈ block.txs, ∀ spent ∈ tx.spent, spent.key ∈ block.spentKeys :=
    fun tx isTx spent isSpent =>
      mem_flatMap.mpr ⟨tx, isTx, mem_map_of_mem isSpent⟩
  have booked := start.txs clean.utxo isKey clean.history txs
  have numbers : final.n = first + block.txs.length := (applyTxs_ok txs).2.1
  have finalWb : final.wb = txsWrites block.height first block.txs := (applyTxs_ok txs).2.2
  have sizes := applyTxs_sizes txs
  have spentCount : (db.spentValues block fun _ => none).length <=
      (block.txs.map TxRows.size).sum :=
    (length_filterMap_le _ _).trans
      ((dedup_sublist _).length_le.trans (length_spentKeys_le block.txs))
  have txCount := length_txs_le block.txs
  have small := block.small
  let undo : Undo :=
    ⟨first, block.txs.length, final.addedHistory, final.addedUtxo, final.deletedUtxo⟩
  have batch : loop.wb ++ [.putTip (block.height, block.hash)] = final.wb ++
      [.putBlock block.height (block.row first), .putUndo block.height undo.encode,
        .putTip (block.height, block.hash)] := by
    rw [wb, append_assoc, append_assoc]
    rfl
  have written : db.write (loop.wb ++ [.putTip (block.height, block.hash)]) =
      (((db.write final.wb).put (.putBlock block.height (block.row first))).put
        (.putUndo block.height undo.encode)).put (.putTip (block.height, block.hash)) := by
    rw [batch]
    exact foldl_append
  refine ⟨undo, ?_, ?_, rfl, rfl, ?_⟩
  · change (db.write (loop.wb ++ [.putTip (block.height, block.hash)])).undo = _
    rw [written]
    change setAt (db.write final.wb).undo block.height (some undo.encode) = _
    rw [finalWb, undo_write_inner fun _ mem => txsWrites_inner mem]
  · exact {
      firstTxnum := by
        have small : first <= 2 ^ 40 - 1 := fits
        change first < 256 ^ 5
        omega
      nTxs := by
        change block.txs.length < 256 ^ 4
        omega
      historyCount := by
        change final.addedHistory.length < 256 ^ 4
        have := sizes.2.1
        dsimp only [length_nil] at this
        omega
      addedCount := by
        change final.addedUtxo.length < 256 ^ 4
        have := sizes.1
        dsimp only [length_nil] at this
        omega
      deletedCount := by
        change final.deletedUtxo.length < 256 ^ 4
        have : final.deletedUtxo.length <= (db.spentValues block fun _ => none).length := sizes.2.2
        omega
      txnums := fun key mem => by
        have := (booked.history key mem).2
        unfold maxTxnum at this
        omega
      heights := fun row mem => heights row.1 row.2 (booked.deleted row mem) }
  have rows : (db.write (loop.wb ++ [.putTip (block.height, block.hash)])).toRows =
      (db.toRows.write final.wb).sealed block first := by
    rw [written, <- toRows_write]
    rfl
  change (db.write (loop.wb ++ [.putTip (block.height, block.hash)])).toRows.write _ = _
  rw [rows]
  rw [numbers] at booked
  exact booked.reverts clean rfl rfl rfl

end Fortis.Index
