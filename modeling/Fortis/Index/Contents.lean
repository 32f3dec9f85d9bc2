import Fortis.Index.ChainRows

/-!
# What each row of a chain says

The transactions of a chain are numbered in order.  The `txids` row of a number
names the transaction with it, a `history` row says that it touches a program,
and the `blocks` row of a height is the table's row for it.
-/

namespace Fortis.Index

open Lib List Nat

variable {write : Write}

section Batches

variable {rows : Rows} {batch : List Write} (holds : Rows → Prop)

theorem kept_of_write (keeps : ∀ write ∈ batch, ∀ rows, holds rows → holds (rows.put write))
    (before : holds rows) : holds (rows.write batch) := by
  induction batch generalizing rows with
  | nil => exact before
  | cons first rest ih =>
    exact ih (fun write mem => keeps write (mem_cons_of_mem first mem))
      (keeps first mem_cons_self rows before)

theorem brought_of_write (mem : write ∈ batch) (brings : ∀ rows : Rows, holds (rows.put write))
    (keeps : ∀ write ∈ batch, ∀ rows, holds rows → holds (rows.put write)) :
    holds (rows.write batch) := by
  induction batch generalizing rows with
  | nil => cases mem
  | cons first rest ih =>
    have keepsRest := fun other isOther => keeps other (mem_cons_of_mem first isOther)
    rcases mem_cons.mp mem with same | later
    · have later : holds ((rows.put first).write rest) :=
        kept_of_write holds keepsRest (same ▸ brings rows)
      exact later
    · exact ih later keepsRest

end Batches

/-! ## Numbered transactions -/

def placed (chain : List ParsedBlock) : List (Nat × TxRows) :=
  chain.flatMap fun block => block.txs.map fun tx => (block.height, tx)

variable {key : HistoryKey} {number : Nat} {tx : TxRows} {txid : Txid}

section Placed

variable {n height : Nat} {txs : List TxRows} {block : ParsedBlock} {chain : List ParsedBlock}

theorem placed_cons (block : ParsedBlock) (chain : List ParsedBlock) :
    placed (block :: chain) = block.txs.map (fun tx => (block.height, tx)) ++ placed chain :=
  flatMap_cons

/-- The writes of a chain but its block rows are those of its numbered transactions. -/
theorem mem_blocksWrites (write : Write) (other : ∀ height row, write ≠ .putBlock height row) :
    write ∈ blocksWrites n chain ↔ ∃ k height tx, (placed chain)[k]? = some (height, tx) ∧
        write ∈ txWrites height (n + k) tx := by
  induction chain generalizing n with
  | nil => exact ⟨nofun, fun ⟨_, _, _, found, _⟩ => by cases found⟩
  | cons block rest ih =>
    have notRow : write ∉ [.putBlock block.height (block.row n)] := fun mem =>
      other _ _ (mem_singleton.mp mem)
    rw [blocksWrites, blockWrites, mem_append, mem_append, or_iff_left notRow, ih,
      mem_txsWrites, placed_cons]
    constructor
    · rintro (⟨k, tx, found, inside⟩ | ⟨k, height, tx, found, inside⟩)
      · have short : k < block.txs.length := (List.getElem?_eq_some_iff.mp found).1
        refine ⟨k, block.height, tx, ?_, inside⟩
        rw [getElem?_append_left (by rwa [length_map]), getElem?_map, found]
        rfl
      refine ⟨block.txs.length + k, height, tx, ?_, by rwa [← Nat.add_assoc]⟩
      rw [getElem?_append_right (by rw [length_map]; omega), length_map, Nat.add_sub_cancel_left]
      exact found
    rintro ⟨k, height, tx, found, inside⟩
    rcases lt_or_ge k block.txs.length with short | long
    · rw [getElem?_append_left (by rwa [length_map]), getElem?_map] at found
      obtain ⟨own, isOwn, same⟩ := Option.map_eq_some_iff.mp found
      cases same
      exact .inl ⟨k, tx, isOwn, inside⟩
    rw [getElem?_append_right (by rwa [length_map]), length_map] at found
    refine .inr ⟨k - block.txs.length, height, tx, found, ?_⟩
    rwa [Nat.add_assoc, Nat.add_sub_cancel' long]

theorem putTxid_mem_blocksWrites : .putTxid number txid ∈ blocksWrites 0 chain ↔
      ((placed chain)[number]?.map fun place => place.2.txid) = some txid := by
  rw [mem_blocksWrites (.putTxid number txid) nofun, Option.map_eq_some_iff]
  simp only [putTxid_mem_txWrites, zero_add]
  constructor
  · rintro ⟨k, height, tx, found, rfl, rfl⟩
    exact ⟨_, found, rfl⟩
  rintro ⟨⟨height, tx⟩, found, rfl⟩
  exact ⟨number, height, tx, found, rfl, rfl⟩

theorem putHistory_mem_blocksWrites : .putHistory key ∈ blocksWrites 0 chain ↔
      ∃ height tx, (placed chain)[key.txnum]? = some (height, tx) ∧ key.program ∈ tx.touched := by
  rw [mem_blocksWrites (.putHistory key) nofun]
  simp only [putHistory_mem_txWrites, zero_add]
  constructor
  · rintro ⟨k, height, tx, found, rfl, touched⟩
    exact ⟨height, tx, found, touched⟩
  rintro ⟨height, tx, found, touched⟩
  exact ⟨_, height, tx, found, rfl, touched⟩

theorem not_deletes (mem : write ∈ blocksWrites n chain) :
    (∀ low high, write ≠ .deleteTxids low high) ∧ (∀ key, write ≠ .deleteHistory key) ∧
      ∀ height, write ≠ .deleteBlock height := by
  by_cases isBlock : ∃ height row, write = .putBlock height row
  · obtain ⟨height, row, rfl⟩ := isBlock
    simp
  obtain ⟨k, height, tx, _, inside⟩ :=
    (mem_blocksWrites write fun height row same => isBlock ⟨height, row, same⟩).mp mem
  simp only [txWrites, mem_cons, mem_append, mem_map] at inside
  rcases inside with rfl | ⟨_, _, rfl⟩ | ⟨_, _, rfl⟩ | ⟨_, _, rfl⟩ <;>
    simp

end Placed

/-! ## The families -/

variable {row : BlockRec} {start : Nat}

variable {chain : List ParsedBlock}

theorem txids_rowsOf_eq (chain : List ParsedBlock) (number : Nat) :
    (rowsOf chain).txids number = (placed chain)[number]?.map fun place => place.2.txid := by
  cases found : (placed chain)[number]?.map fun place => place.2.txid with
  | none =>
    rcases there : (rowsOf chain).txids number with _ | txid
    · rfl
    have written := (txid_of_write there).resolve_left nofun
    rw [putTxid_mem_blocksWrites, found] at written
    cases written
  | some txid =>
    refine brought_of_write (·.txids number = some txid)
      (putTxid_mem_blocksWrites.mpr found) (fun rows => ?_) fun write mem rows held => ?_
    · exact if_pos rfl
    obtain ⟨noRange, _, _⟩ := not_deletes mem
    cases write with
    | putTxid other own =>
      change setAt rows.txids other (some own) number = some txid
      unfold setAt
      split
      next same =>
        cases same
        exact (putTxid_mem_blocksWrites.mp mem).symm.trans found
      · exact held
    | deleteTxids low high => exact absurd rfl (noRange low high)
    | _ => exact held

theorem history_rowsOf_iff : (rowsOf chain).history key = true ↔
      ∃ height tx, (placed chain)[key.txnum]? = some (height, tx) ∧ key.program ∈ tx.touched := by
  rw [← putHistory_mem_blocksWrites]
  constructor
  · intro there
    exact (history_of_write there).resolve_left nofun
  intro written
  refine brought_of_write (·.history key = true) written
    (fun rows => if_pos rfl) fun write mem rows held => ?_
  obtain ⟨_, noHistory, _⟩ := not_deletes mem
  cases write with
  | putHistory other =>
    change setAt rows.history other true key = true
    unfold setAt
    split
    · rfl
    · exact held
  | deleteHistory other => exact absurd rfl (noHistory other)
  | _ => exact held

theorem putBlock_mem_blocksWrites {n height : Nat} (linked : Linked start chain) :
    .putBlock height row ∈ blocksWrites n chain ↔
      start ≤ height ∧ (recsFrom n chain)[height - start]? = some row := by
  induction chain generalizing start n with
  | nil => exact ⟨nofun, fun ⟨_, found⟩ => by cases found⟩
  | cons block rest ih =>
    have first : block.height = start := linked.first block rfl
    rw [blocksWrites, blockWrites, mem_append, mem_append,
      or_iff_right putBlock_not_mem_txsWrites, mem_singleton, ih linked.tail, recsFrom, first,
      Write.putBlock.injEq]
    constructor
    · rintro (⟨rfl, rfl⟩ | ⟨above, found⟩)
      · exact ⟨le_rfl, by rw [Nat.sub_self]; rfl⟩
      refine ⟨by omega, ?_⟩
      rw [getElem?_cons, if_neg (by omega), Nat.sub_sub]
      exact found
    rintro ⟨above, found⟩
    rw [getElem?_cons] at found
    split at found
    · cases found
      exact .inl ⟨by omega, rfl⟩
    rw [Nat.sub_sub] at found
    exact .inr ⟨by omega, found⟩

theorem blocks_rowsOf_eq (linked : Linked start chain) (height : Nat) :
    (rowsOf chain).blocks height =
      if height < start then none else (recsFrom 0 chain)[height - start]? := by
  rcases found : (if height < start then none else (recsFrom 0 chain)[height - start]?) with _ | row
  · rcases there : (rowsOf chain).blocks height with _ | row
    · rfl
    have written := (block_of_write there).resolve_left nofun
    obtain ⟨above, listed⟩ := (putBlock_mem_blocksWrites linked).mp written
    rw [if_neg (not_lt.mpr above), listed] at found
    cases found
  split at found
  · cases found
  next above =>
  refine brought_of_write (·.blocks height = some row)
    ((putBlock_mem_blocksWrites linked).mpr ⟨not_lt.mp above, found⟩)
    (fun rows => if_pos rfl) fun write mem rows held => ?_
  obtain ⟨_, _, noBlock⟩ := not_deletes mem
  cases write with
  | putBlock other own =>
    change setAt rows.blocks other (some own) height = some row
    unfold setAt
    split
    next same =>
      cases same
      exact ((putBlock_mem_blocksWrites linked).mp mem).2.symm.trans found
    · exact held
  | deleteBlock other => exact absurd rfl (noBlock other)
  | _ => exact held

end Fortis.Index
