import Fortis.Index.Reverts

/-!
# The rows of a chain

`rowsOf chain` is what a chain leaves in the store, whatever way it came there.
Applying blocks on top of a chain's rows gives the longer chain's rows, in one
batch or in many, with undo records or without; a chain in which no output is
created twice is clean for its next block.
-/

namespace Fortis.Index

open Lib List Nat Db

structure Linked (start : Nat) (chain : List ParsedBlock) : Prop where
  first : ∀ block, chain.head? = some block → block.height = start
  links : chain.IsChain fun below above => above.prev = below.hash ∧ above.height = below.height + 1

def ParsedBlock.created (block : ParsedBlock) : List OutPoint :=
  block.txs.flatMap fun tx => tx.funded.map fun funded => ⟨tx.txid, funded.vout⟩

def CreatedOnce (chain : List ParsedBlock) : Prop :=
  (chain.flatMap ParsedBlock.created).Nodup

variable {above below : List ParsedBlock}

section Chains

variable {start : Nat} {chain : List ParsedBlock} {block : ParsedBlock}

theorem linked_nil : Linked start [] :=
  ⟨nofun, isChain_nil⟩

theorem Linked.tail (linked : Linked start (block :: chain)) : Linked (start + 1) chain := by
  have first := linked.first block rfl
  rcases chain with _ | ⟨next, rest⟩
  · exact linked_nil
  obtain ⟨link, links⟩ := isChain_cons_cons.mp linked.links
  refine ⟨fun head isHead => ?_, links⟩
  cases isHead
  rw [link.2, first]

theorem Linked.height
    (linked : Linked start (below ++ block :: above)) : block.height = start + below.length := by
  induction below generalizing start with
  | nil => exact linked.first block rfl
  | cons head rest ih =>
    rw [ih linked.tail, length_cons]
    omega

theorem Linked.left (linked : Linked start (below ++ above)) : Linked start below := by
  refine ⟨fun head isHead => linked.first head ?_, (isChain_append.mp linked.links).1⟩
  rw [head?_append, isHead]
  rfl

theorem Linked.snoc (linked : Linked start chain) (height : block.height = start + chain.length)
    (prev : ∀ last, chain.getLast? = some last → block.prev = last.hash) :
    Linked start (chain ++ [block]) := by
  refine ⟨fun head isHead => ?_, isChain_append.mpr ⟨linked.links, isChain_singleton _,
    fun last isLast head isHead => ?_⟩⟩
  · cases chain with
    | nil =>
      cases isHead
      exact height
    | cons _ _ =>
    cases isHead
    exact linked.first head rfl
  cases isHead
  obtain ⟨init, rfl⟩ := getLast?_eq_some_iff.mp isLast
  refine ⟨prev last isLast, ?_⟩
  rw [height, linked.height, length_append, length_singleton]
  omega

theorem Linked.split {other : ParsedBlock}
    (linked : Linked start (chain ++ [block])) (same : chain ++ [block] = below ++ other :: above)
    (height : other.height = block.height) : below = chain ∧ other = block ∧ above = [] := by
  have first := linked.height
  have second := (same ▸ linked).height
  have lengths : below.length = chain.length := by omega
  obtain ⟨rfl, rest⟩ := append_inj same lengths.symm
  cases rest
  exact ⟨rfl, rfl, rfl⟩

end Chains

def blocksWrites : Nat → List ParsedBlock → List Write
  | _, [] => []
  | n, block :: rest => blockWrites n block ++ blocksWrites (n + block.txs.length) rest

def recsFrom : Nat → List ParsedBlock → List BlockRec
  | _, [] => []
  | n, block :: rest => block.row n :: recsFrom (n + block.txs.length) rest

def numberAfter (n : Nat) (blocks : List ParsedBlock) : Nat :=
  n + (blocks.map fun block => block.txs.length).sum

def NumbersFit : Nat → List ParsedBlock → Prop
  | _, [] => True
  | n, block :: rest => n ≤ maxTxnum ∧ (block.txs = [] ∨ n + block.txs.length ≤ maxTxnum + 1) ∧
      NumbersFit (n + block.txs.length) rest

def tipOf (chain : List ParsedBlock) : Option (Nat × BlockHash) :=
  chain.getLast?.map fun last => (last.height, last.hash)

def rowsOf (chain : List ParsedBlock) : Rows :=
  { Rows.empty.write (blocksWrites 0 chain) with tip := tipOf chain }

variable {write : Write}

section Blocks

variable {n : Nat} {first second : List ParsedBlock}

theorem numberAfter_cons (n : Nat) (block : ParsedBlock) (rest : List ParsedBlock) :
    numberAfter n (block :: rest) = numberAfter (n + block.txs.length) rest := by
  unfold numberAfter
  rw [map_cons, sum_cons]
  omega

theorem numberAfter_append :
    numberAfter n (first ++ second) = numberAfter (numberAfter n first) second := by
  unfold numberAfter
  rw [map_append, List.sum_append]
  omega

theorem blocksWrites_append : blocksWrites n (first ++ second) =
      blocksWrites n first ++ blocksWrites (numberAfter n first) second := by
  induction first generalizing n with
  | nil => rfl
  | cons block rest ih =>
    rw [cons_append, blocksWrites, ih, blocksWrites, numberAfter_cons, append_assoc]

theorem recsFrom_append :
    recsFrom n (first ++ second) = recsFrom n first ++ recsFrom (numberAfter n first) second := by
  induction first generalizing n with
  | nil => rfl
  | cons block rest ih =>
    rw [cons_append, recsFrom, ih, recsFrom, numberAfter_cons, cons_append]

theorem numbersFit_append : NumbersFit n (first ++ second) ↔
      NumbersFit n first ∧ NumbersFit (numberAfter n first) second := by
  induction first generalizing n with
  | nil => exact ⟨fun fits => ⟨trivial, fits⟩, And.right⟩
  | cons block rest ih =>
    rw [cons_append, NumbersFit, ih, NumbersFit, numberAfter_cons]
    simp only [and_assoc]

theorem length_recsFrom (n : Nat) (blocks : List ParsedBlock) :
    (recsFrom n blocks).length = blocks.length := by
  induction blocks generalizing n with
  | nil => rfl
  | cons block rest ih => exact congrArg succ (ih _)

theorem blocksWrites_inner {blocks : List ParsedBlock}
    (mem : write ∈ blocksWrites n blocks) : write.isInner = true := by
  induction blocks generalizing n with
  | nil => cases mem
  | cons block rest ih =>
    rcases mem_append.mp mem with here | later
    · rcases mem_concat.mp here with here | rfl
      · exact txsWrites_inner here
      rfl
    · exact ih later

end Blocks

/-! ## Applying blocks -/

variable {recs : List BlockRec} {loop : Loop}

section Apply

variable {db after : Db} {keepUndo : Bool} {blocks : List ParsedBlock} {n : Nat}

theorem applyBlocks_ok {final : Loop} {rows : List BlockRec}
    (applied : blocks.foldlM (db.applyBlock keepUndo) (loop, recs) = .ok (final, rows)) :
    NumbersFit loop.n blocks ∧ rows = recs ++ recsFrom loop.n blocks ∧
      (∀ before : Rows, before.write final.wb =
        (before.write loop.wb).write (blocksWrites loop.n blocks)) ∧
      (keepUndo = false → final.wb = loop.wb ++ blocksWrites loop.n blocks) := by
  induction blocks generalizing loop recs with
  | nil =>
    cases applied
    exact ⟨trivial, (append_nil _).symm, fun _ => rfl, fun _ => (append_nil _).symm⟩
  | cons block rest ih =>
    rw [foldlM_cons] at applied
    obtain ⟨⟨middle, middleRows⟩, one, applied⟩ := ok_of_bind applied
    obtain ⟨inside, txs, number, rfl, n, wb⟩ := applyBlock_ok one
    obtain ⟨small, insideN, insideWb⟩ := applyTxs_ok txs
    dsimp only at small insideN insideWb
    rw [insideN] at n
    obtain ⟨fits, rfl, rowsLater, wbLater⟩ := ih applied
    rw [n] at fits rowsLater wbLater
    refine ⟨⟨number, small, fits⟩, ?_, fun before => ?_, fun plain => ?_⟩
    · rw [n, append_assoc]
      rfl
    · rw [rowsLater, blocksWrites, Rows.write_append _ (blockWrites loop.n block)]
      congr 1
      rw [wb, insideWb, blockWrites, Rows.write_append, Rows.write_append, Rows.write_append,
        Rows.write_append]
      cases keepUndo <;> rfl
    subst plain
    rw [wbLater rfl, wb, insideWb, blocksWrites, blockWrites]
    simp only [Bool.false_eq_true, if_false, append_nil, append_assoc]

theorem applyBlocks_of_fits (fits : NumbersFit loop.n blocks) :
    ∃ final, blocks.foldlM (db.applyBlock keepUndo) (loop, recs) = .ok final := by
  induction blocks generalizing loop recs with
  | nil => exact ⟨_, rfl⟩
  | cons block rest ih =>
    obtain ⟨number, small, later⟩ := fits
    let start : Loop := { loop with
      addedUtxo := []
      addedHistory := []
      deletedUtxo := if keepUndo then db.spentValues block loop.batchUtxos else [] }
    have inside : ∃ inside, block.txs.foldlM (applyTx keepUndo block.height) start = .ok inside :=
      applyTxs_of_fits small
    obtain ⟨inside, isInside⟩ := inside
    have next : inside.n = loop.n + block.txs.length := (applyTxs_ok isInside).2.1
    have key : txnumKey loop.n = .ok () := refuseIf_of_not (not_lt.mpr number)
    have one : ∃ next, db.applyBlock keepUndo (loop, recs) block = .ok next ∧
        next.1.n = inside.n := by
      unfold applyBlock
      dsimp only
      rw [isInside, ok_bind, key, ok_bind]
      exact ⟨_, rfl, rfl⟩
    obtain ⟨⟨middle, rows⟩, isOne, number⟩ := one
    rw [foldlM_cons, isOne, ok_bind]
    refine ih ?_
    rw [number, next]
    exact later

/-- A batch on top of a chain's rows leaves the longer chain's rows. -/
theorem apply_ok {chain : List ParsedBlock} (before : db.toRows = rowsOf chain)
    (applied : db.apply blocks (numberAfter 0 chain) keepUndo = .ok (after, recs))
    (nonempty : blocks ≠ []) :
    NumbersFit (numberAfter 0 chain) blocks ∧ recs = recsFrom (numberAfter 0 chain) blocks ∧
      after.toRows = rowsOf (chain ++ blocks) ∧ (keepUndo = false → after.undo = db.undo) := by
  obtain ⟨last, isLast⟩ : ∃ last, blocks.getLast? = some last :=
    ⟨_, getLast?_eq_some_getLast nonempty⟩
  obtain ⟨_, batched, rfl⟩ := batch_of_apply applied
  obtain ⟨⟨loop, rows⟩, folded, batched⟩ := ok_of_bind batched
  obtain ⟨fits, isRows, written, plain⟩ := applyBlocks_ok folded
  dsimp only at fits isRows written plain batched
  rw [isLast] at batched
  cases batched
  have inner : ∀ write ∈ blocksWrites (numberAfter 0 chain) blocks, write.isInner = true :=
    fun write mem => blocksWrites_inner mem
  refine ⟨fits, isRows, ?_, fun noUndo => ?_⟩
  · rw [toRows_write, Rows.write_append, written, before]
    unfold rowsOf
    rw [blocksWrites_append, Rows.write_append]
    change (Rows.write (Rows.write _ []) _).put (.putTip (last.height, last.hash)) = _
    change (Rows.write { Rows.empty.write (blocksWrites 0 chain) with tip := tipOf chain } _).put
      (.putTip (last.height, last.hash)) = _
    rw [write_withTip inner]
    have tip : tipOf (chain ++ blocks) = some (last.height, last.hash) := by
      unfold tipOf
      rw [getLast?_append, isLast]
      rfl
    rw [tip]
    rfl
  rw [plain noUndo]
  change ((db.write (blocksWrites (numberAfter 0 chain) blocks ++ _)).undo) = _
  unfold write
  rw [foldl_append]
  exact undo_write_inner inner db

end Apply

/-! ## What a chain's rows hold -/

variable {txnum : Nat} {txid : Txid} {key : UtxoKey} {val : UtxoVal}

section Contents

variable {n height : Nat} {txs : List TxRows} {blocks chain : List ParsedBlock}

theorem putTxid_mem_txWrites {tx : TxRows} :
    .putTxid txnum txid ∈ txWrites height n tx ↔ txnum = n ∧ txid = tx.txid := by
  simp [txWrites]

theorem putHistory_mem_txWrites {key : HistoryKey} {tx : TxRows} :
    .putHistory key ∈ txWrites height n tx ↔ key.txnum = n ∧ key.program ∈ tx.touched := by
  simp only [txWrites, mem_cons, reduceCtorEq, mem_append, mem_map, and_false,
    exists_false, false_or]
  constructor
  · rintro ⟨program, touched, same⟩
    cases same
    exact ⟨rfl, touched⟩
  rintro ⟨rfl, touched⟩
  exact ⟨key.program, touched, rfl⟩

theorem putBlock_not_mem_txsWrites {number : Nat} {row : BlockRec} :
    .putBlock number row ∉ txsWrites height n txs := by
  rw [mem_txsWrites]
  rintro ⟨k, tx, _, inside⟩
  simp [txWrites] at inside

theorem exists_block_of_write (mem : write ∈ blocksWrites n blocks) :
    ∃ block ∈ blocks, ∃ first, write ∈ blockWrites first block ∧
      first + block.txs.length ≤ numberAfter n blocks := by
  induction blocks generalizing n with
  | nil => cases mem
  | cons block rest ih =>
    rw [numberAfter_cons]
    rcases mem_append.mp mem with here | later
    · exact ⟨block, mem_cons_self, n, here, le_add_right _ _⟩
    obtain ⟨other, isBlock, first, inside, bound⟩ := ih later
    exact ⟨other, mem_cons_of_mem block isBlock, first, inside, bound⟩

theorem exists_tx_of_write (mem : write ∈ blocksWrites n blocks)
    (other : ∀ height row, write ≠ .putBlock height row) : ∃ block ∈ blocks, ∃ tx ∈ block.txs,
      ∃ number < numberAfter n blocks, write ∈ txWrites block.height number tx := by
  obtain ⟨block, isBlock, first, inside, bound⟩ := exists_block_of_write mem
  have inTxs := (mem_append.mp inside).resolve_right fun last => other _ _ (mem_singleton.mp last)
  obtain ⟨k, tx, found, here⟩ := mem_txsWrites.mp inTxs
  have short : k < block.txs.length := (List.getElem?_eq_some_iff.mp found).1
  exact ⟨block, isBlock, tx, mem_of_getElem? found, first + k, by omega, here⟩

/-- An unspent output of a chain was created by one of its blocks. -/
theorem utxo_rowsOf (there : (rowsOf chain).utxo key = some val) :
    ∃ block ∈ chain, val.height = block.height ∧ key.outpoint ∈ block.created := by
  have written := (utxo_of_write there).resolve_left nofun
  obtain ⟨block, isBlock, tx, isTx, _, _, here⟩ := exists_tx_of_write written nofun
  simp only [txWrites, mem_cons, mem_append, mem_map, reduceCtorEq, and_false,
    exists_false, or_false, false_or] at here
  obtain ⟨funded, isFunded, same⟩ := here
  cases same
  exact ⟨block, isBlock, rfl, mem_flatMap.mpr ⟨tx, isTx, mem_map_of_mem isFunded⟩⟩

theorem history_rowsOf {key : HistoryKey} (there : (rowsOf chain).history key = true) :
    key.txnum < numberAfter 0 chain := by
  have written := (history_of_write there).resolve_left nofun
  obtain ⟨_, _, _, _, number, bound, here⟩ := exists_tx_of_write written nofun
  rwa [(putHistory_mem_txWrites.mp here).1]

theorem txids_rowsOf (there : (rowsOf chain).txids txnum = some txid) :
    txnum < numberAfter 0 chain := by
  have written := (txid_of_write there).resolve_left nofun
  obtain ⟨_, _, _, _, number, bound, here⟩ := exists_tx_of_write written nofun
  rwa [(putTxid_mem_txWrites.mp here).1]

theorem blocks_rowsOf {row : BlockRec} (there : (rowsOf chain).blocks height = some row) :
    ∃ block ∈ chain, height = block.height := by
  have written := (block_of_write there).resolve_left nofun
  obtain ⟨block, isBlock, first, inside, _⟩ := exists_block_of_write written
  cases mem_singleton.mp ((mem_append.mp inside).resolve_left putBlock_not_mem_txsWrites)
  exact ⟨block, isBlock, rfl⟩

/-- A chain that creates no output twice is clean for its last block. -/
theorem clean_of_createdOnce {start : Nat} {block : ParsedBlock}
    (linked : Linked start (chain ++ [block])) (once : CreatedOnce (chain ++ [block])) :
    Clean (rowsOf chain) (numberAfter 0 chain) block where
  utxo tx isTx funded isFunded := by
    rcases there : (rowsOf chain).utxo (utxoKeyOf tx.txid funded) with _ | val
    · rfl
    obtain ⟨other, isOther, _, created⟩ := utxo_rowsOf there
    unfold CreatedOnce at once
    rw [flatMap_append, flatMap_singleton] at once
    have apart := (nodup_append.mp once).2.2 _
      (mem_flatMap.mpr ⟨other, isOther, created⟩) (utxoKeyOf tx.txid funded).outpoint
      (mem_flatMap.mpr ⟨tx, isTx, mem_map_of_mem isFunded⟩)
    exact absurd rfl apart
  history key large := by
    cases there : (rowsOf chain).history key with
    | false => rfl
    | true => exact absurd (history_rowsOf there) (not_lt.mpr large)
  txids txnum large := by
    cases there : (rowsOf chain).txids txnum with
    | none => rfl
    | some txid => exact absurd (txids_rowsOf there) (not_lt.mpr large)
  blocks := by
    rcases there : (rowsOf chain).blocks block.height with _ | row
    · rfl
    obtain ⟨other, isOther, same⟩ := blocks_rowsOf there
    obtain ⟨below, above, split⟩ := append_of_mem isOther
    have low := (split ▸ linked.left).height
    have high := linked.height
    have shorter := congrArg length split
    rw [length_append, length_cons] at shorter
    omega

end Contents

theorem undo_writes (undo : Undo) (db : Db) (height : Nat) (row : BlockRec)
    (newTip : Option (Nat × BlockHash)) :
    (db.write (undo.writes height row newTip)).undo = setAt db.undo height none := by
  have inner : ∀ write ∈ undo.addedHistory.map Write.deleteHistory ++
      (undo.addedUtxo.map Write.deleteUtxo ++
        undo.deletedUtxo.map fun spent => Write.putUtxo spent.1 spent.2), write.isInner = true := by
    intro write mem
    simp only [mem_append, mem_map] at mem
    rcases mem with ⟨_, _, rfl⟩ | ⟨_, _, rfl⟩ | ⟨_, _, rfl⟩ <;> rfl
  have kept := undo_write_inner inner db
  unfold Undo.writes
  rw [← append_assoc, ← append_assoc]
  unfold write at kept ⊢
  rw [append_assoc (undo.addedHistory.map _), foldl_append]
  rw [← kept]
  cases newTip <;> rfl

variable {before : Rows} {undo : Undo} {block : ParsedBlock}

theorem rollback_ok {db after : Db} {first : Nat} (found : db.undo block.height = some undo.encode)
    (reverts : undo.Reverts block first db.toRows before)
    (rolled : db.rollback block.height (block.row first) before.tip = .ok after) :
    after.toRows = before ∧ after.undo = setAt db.undo block.height none := by
  obtain ⟨_, batched, rfl⟩ := batch_of_rollback rolled
  obtain ⟨raw, isRaw, batched⟩ := ok_of_bind batched
  cases found.symm.trans (some_of_orFail isRaw)
  rw [decode_encode reverts.fits] at batched
  obtain ⟨same, isUndo, batched⟩ := ok_of_bind batched
  cases isUndo
  obtain ⟨_, _, batched⟩ := ok_of_bind batched
  obtain ⟨_, _, batched⟩ := ok_of_bind batched
  cases batched
  refine ⟨?_, undo_writes undo db _ _ _⟩
  rw [toRows_write]
  exact reverts.reverts

/-- It is carried out unless the numbers of its transactions reach the last one. -/
theorem rollback_of_reverts {db : Db} {first : Nat}
    (found : db.undo block.height = some undo.encode)
    (reverts : undo.Reverts block first db.toRows before)
    (fits : first + block.txs.length ≤ maxTxnum) :
    ∃ after, db.rollback block.height (block.row first) before.tip = .ok after := by
  have range : rangeKeys first (first + block.txs.length) = .ok () := by
    unfold rangeKeys
    split
    · exact refuseIf_of_not (not_lt.mpr fits)
    · rfl
  have numbers : ¬ ((undo.firstTxnum, undo.nTxs) ≠ (first, block.txs.length)) := by
    rw [reverts.firstTxnum, reverts.nTxs]
    exact not_not_intro rfl
  have raw : orFail (db.undo block.height) (Fault.noUndo block.height) = .ok undo.encode := by
    rw [found]
    rfl
  refine ⟨db.write (undo.writes block.height (block.row first) before.tip), rollback_of_batch ?_⟩
  unfold rollbackBatch
  rw [raw, ok_bind, decode_encode reverts.fits]
  change (refuseIf ((undo.firstTxnum, undo.nTxs) ≠ (first, block.txs.length)) _ >>= fun _ =>
    rangeKeys first (first + block.txs.length) >>= fun _ => _) = _
  rw [refuseIf_of_not numbers, ok_bind, range]
  rfl

end Fortis.Index
