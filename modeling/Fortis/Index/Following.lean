import Fortis.Index.ChainRows
import Fortis.Index.Sync

/-!
# Following a node

Whatever the node answers and whichever writes fail, the store of a syncer holds
the rows of one linked chain of served blocks, the chain its block table lists,
and each undo record in it takes its own block back.  The passes are built from
three writes, and each of them keeps this.
-/

namespace Fortis.Index

open Lib List

variable {config : Config}

structure Follows (start : Nat) (served : ParsedBlock → Prop) (chain : List ParsedBlock)
    (db : Db) (table : BlockTable) : Prop where
  rows : db.toRows = rowsOf chain
  recs : table.recs = recsFrom 0 chain
  begins : chain ≠ [] → table.start = start
  linked : Linked start chain
  blocks : ∀ block ∈ chain, served block ∧ block.height < 256 ^ 4
  numbers : NumbersFit 0 chain
  undo : ∀ height raw, db.undo height = some raw → ∃ below block above undo,
    chain = below ++ block :: above ∧ block.height = height ∧ raw = Undo.encode undo ∧
      undo.Reverts block (numberAfter 0 below) (rowsOf (below ++ [block])) (rowsOf below)

def Following (start : Nat) (served : ParsedBlock → Prop) (state : State) : Prop :=
  ∃ chain, Follows start served chain state.db state.table

/-! ## The table -/

section

variable {start : Nat} {served : ParsedBlock → Prop} {chain : List ParsedBlock}
  {last : ParsedBlock} {db : Db} {table : BlockTable}

theorem recsFrom_snoc (chain : List ParsedBlock) (last : ParsedBlock) :
    recsFrom 0 (chain ++ [last]) = recsFrom 0 chain ++ [last.row (numberAfter 0 chain)] :=
  recsFrom_append

theorem follows_empty : Follows start served [] Db.empty ⟨0, []⟩ where
  rows := rfl
  recs := rfl
  begins nonempty := absurd rfl nonempty
  linked := linked_nil
  blocks _ member := (nomatch member)
  numbers := trivial
  undo _ _ found := (nomatch found)

theorem tip_nil (empty : table.recs = []) : table.tip = none := by
  unfold BlockTable.tip
  rw [empty]
  rfl

theorem Follows.tip (follows : Follows start served (chain ++ [last]) db table) :
    table.tip = some (last.height, last.row (numberAfter 0 chain)) := by
  have begins := follows.begins (append_ne_nil_of_right_ne_nil chain (cons_ne_nil _ _))
  have height := follows.linked.height
  unfold BlockTable.tip
  rw [follows.recs, recsFrom_snoc, getLast?_concat, begins, length_append,
    length_recsFrom, length_singleton, height]
  rfl

theorem Follows.nextTxnum (follows : Follows start served chain db table) :
    table.nextTxnum = numberAfter 0 chain := by
  unfold BlockTable.nextTxnum
  rw [follows.recs]
  rcases eq_nil_or_concat' chain with rfl | ⟨init, last, rfl⟩
  · rfl
  rw [recsFrom_snoc, getLast?_concat, numberAfter_append]
  change numberAfter 0 init + last.txs.length = _
  unfold numberAfter
  rw [map_singleton, sum_singleton]

theorem Follows.newTip (follows : Follows start served (chain ++ [last]) db table) :
    (if last.height = 0 then none
      else (table.get (last.height - 1)).map fun below => (last.height - 1, below.hash)) =
        (rowsOf chain).tip := by
  have begins := follows.begins (append_ne_nil_of_right_ne_nil chain (cons_ne_nil _ _))
  have height := follows.linked.height
  change _ = tipOf chain
  unfold BlockTable.get tipOf
  rcases eq_nil_or_concat' chain with rfl | ⟨init, below, rfl⟩
  · rw [length_nil, Nat.add_zero] at height
    split
    · rfl
    next positive =>
    rw [begins, if_pos (by omega)]
    rfl
  have heightBelow := follows.linked.left.height
  rw [length_append, length_singleton] at height
  have index : last.height - 1 - table.start = (recsFrom 0 init).length := by
    rw [begins, length_recsFrom]
    omega
  rw [if_neg (by omega), if_neg (by omega), index, follows.recs, recsFrom_snoc, recsFrom_snoc,
    append_assoc, getElem?_append_right le_rfl, Nat.sub_self,
    getLast?_concat]
  have same : last.height - 1 = below.height := by omega
  rw [same]
  rfl

theorem pushAll_ok {blocks : List ParsedBlock} (recs : table.recs = recsFrom 0 chain)
    (begins : chain ≠ [] → table.start = start) (linked : Linked start (chain ++ blocks)) :
    ∃ longer, table.pushAll blocks (recsFrom (numberAfter 0 chain) blocks) = .ok longer ∧
      longer.recs = recsFrom 0 (chain ++ blocks) ∧
        (chain ++ blocks ≠ [] → longer.start = start) := by
  induction blocks generalizing chain table with
  | nil =>
    rw [append_nil]
    exact ⟨table, rfl, recs, begins⟩
  | cons block rest ih =>
    have height := linked.height
    have pushed : ∃ next, table.push block.height (block.row (numberAfter 0 chain)) = .ok next ∧
        next.recs = recsFrom 0 (chain ++ [block]) ∧ next.start = start := by
      unfold BlockTable.push BlockTable.tip
      rcases eq_nil_or_concat' chain with rfl | ⟨init, last, rfl⟩
      · rw [recs]
        exact ⟨_, rfl, rfl, by rw [height]; rfl⟩
      have begun := begins (append_ne_nil_of_right_ne_nil init (cons_ne_nil _ _))
      rw [recs, recsFrom_snoc, getLast?_concat, length_append, length_recsFrom,
        length_singleton, begun]
      rw [length_append, length_singleton] at height
      dsimp only [Option.map_some]
      rw [if_pos (by omega)]
      exact ⟨_, rfl, by rw [recsFrom_snoc (init ++ [last]), recsFrom_snoc], rfl⟩
    obtain ⟨next, isNext, nextRecs, nextStart⟩ := pushed
    rw [append_cons] at linked ⊢
    obtain ⟨longer, isLonger, longerRecs, longerStart⟩ := ih nextRecs (fun _ => nextStart) linked
    refine ⟨longer, ?_, longerRecs, longerStart⟩
    have number : numberAfter 0 (chain ++ [block]) = numberAfter 0 chain + block.txs.length := by
      rw [numberAfter_append]
      unfold numberAfter
      rw [map_singleton, sum_singleton]
    rw [number] at isLonger
    unfold BlockTable.pushAll at isLonger ⊢
    rw [recsFrom, zip_cons_cons, foldlM_cons, isNext, ok_bind]
    exact isLonger

end

/-! ## The writes -/

variable {db : Db}

section

variable {start : Nat} {served : ParsedBlock → Prop} {chain : List ParsedBlock}
  {table : BlockTable} {after : Db}

theorem Follows.rollback {last : ParsedBlock}
    (follows : Follows start served (chain ++ [last]) db table)
    (rolled : db.rollback last.height (last.row (numberAfter 0 chain)) (rowsOf chain).tip =
      .ok after) : Follows start served chain after table.pop := by
  have found : ∃ raw, db.undo last.height = some raw := by
    obtain ⟨_, batched, _⟩ := Db.batch_of_rollback rolled
    obtain ⟨raw, isRaw, _⟩ := ok_of_bind batched
    exact ⟨raw, some_of_orFail isRaw⟩
  obtain ⟨raw, isRaw⟩ := found
  obtain ⟨below, block, above, undo, split, height, rfl, reverts⟩ := follows.undo _ _ isRaw
  obtain ⟨rfl, rfl, rfl⟩ := follows.linked.split split height
  rw [← follows.rows] at reverts
  obtain ⟨rows, undos⟩ := rollback_ok isRaw reverts rolled
  exact {
    rows := rows
    recs := by
      change table.recs.dropLast = _
      rw [follows.recs, recsFrom_snoc, dropLast_concat]
    begins := fun nonempty => follows.begins (append_ne_nil_of_left_ne_nil nonempty _)
    linked := follows.linked.left
    blocks := fun block mem => follows.blocks block (mem_append_left _ mem)
    numbers := (numbersFit_append.mp follows.numbers).1
    undo := by
      intro height raw found
      rw [undos] at found
      by_cases top : height = block.height
      · rw [top, setAt_same] at found
        cases found
      rw [setAt_other top] at found
      obtain ⟨low, own, above, record, splitOwn, heightOwn, rest⟩ := follows.undo height raw found
      rcases eq_nil_or_concat' above with rfl | ⟨inner, last, rfl⟩
      · cases append_inj_right' splitOwn rfl
        exact absurd heightOwn.symm top
      rw [← cons_append, ← append_assoc] at splitOwn
      exact ⟨low, own, inner, record, append_inj_left' splitOwn rfl, heightOwn, rest⟩ }

theorem Follows.undo_apply {block : ParsedBlock} {recs : List BlockRec}
    (follows : Follows start served chain db table) (linked : Linked start (chain ++ [block]))
    (once : CreatedOnce (chain ++ [block]))
    (applied : db.apply [block] (numberAfter 0 chain) true = .ok (after, recs)) :
    ∃ undo : Undo, after.undo = setAt db.undo block.height (some undo.encode) ∧
      undo.Reverts block (numberAfter 0 chain) after.toRows db.toRows := by
  have clean := clean_of_createdOnce linked once
  rw [← follows.rows] at clean
  refine toRows_apply_single applied clean fun key val there => ?_
  rw [follows.rows] at there
  obtain ⟨other, isOther, same, _⟩ := utxo_rowsOf there
  exact same ▸ (follows.blocks other isOther).2

/-- Applied blocks extend the chain that the index follows. -/
theorem Follows.apply {blocks : List ParsedBlock} {table longer : BlockTable}
    {recs : List BlockRec} {durable : Bool}
    (follows : Follows start served chain db table) (nonempty : blocks ≠ [])
    (linked : Linked start (chain ++ blocks))
    (isServed : ∀ block ∈ blocks, served block ∧ block.height < 256 ^ 4)
    (single : durable = true → ∃ block, blocks = [block]) (once : CreatedOnce (chain ++ blocks))
    (applied : db.apply blocks table.nextTxnum durable = .ok (after, recs))
    (pushed : table.pushAll blocks recs = .ok longer) :
    Follows start served (chain ++ blocks) after longer := by
  rw [follows.nextTxnum] at applied
  obtain ⟨fits, rfl, rows, plain⟩ := apply_ok follows.rows applied nonempty
  obtain ⟨table', isTable, longerRecs, longerStart⟩ :=
    pushAll_ok follows.recs follows.begins linked
  cases isTable.symm.trans pushed
  have lengthen : ∀ height raw, db.undo height = some raw → ∃ below block above undo,
      chain ++ blocks = below ++ block :: above ∧ block.height = height ∧ raw = Undo.encode undo ∧
        undo.Reverts block (numberAfter 0 below) (rowsOf (below ++ [block])) (rowsOf below) := by
    intro height raw found
    obtain ⟨below, block, above, undo, rfl, rest⟩ := follows.undo height raw found
    exact ⟨below, block, above ++ blocks, undo, by rw [append_assoc]; rfl, rest⟩
  exact {
    rows := rows
    recs := longerRecs
    begins := longerStart
    linked := linked
    blocks := forall_mem_append.mpr ⟨follows.blocks, isServed⟩
    numbers := numbersFit_append.mpr ⟨follows.numbers, fits⟩
    undo := by
      rcases durable with _ | _
      · rw [plain rfl]
        exact lengthen
      obtain ⟨block, rfl⟩ := single rfl
      obtain ⟨undo, undos, reverts⟩ := follows.undo_apply linked once applied
      rw [rows, follows.rows] at reverts
      intro height raw found
      rw [undos] at found
      rcases source_of_setAt found with old | ⟨rfl, written⟩
      · exact lengthen height raw old
      cases written
      exact ⟨chain, block, [], undo, rfl, rfl, rfl, reverts⟩ }

theorem Follows.pruneUndo (follows : Follows start served chain db table) (below : Nat) :
    Follows start served chain (db.pruneUndo below) table :=
  { follows with
    undo := by
      intro height raw found
      change (if height < below then none else db.undo height) = some raw at found
      split at found
      · cases found
      · exact follows.undo height raw found }

def ValidChains (start : Nat) (served : ParsedBlock → Prop) : Prop :=
  ∀ chain, Linked start chain → (∀ block ∈ chain, served block) → CreatedOnce chain

end

variable {start : Nat} {served : ParsedBlock → Prop} {chain : List ParsedBlock} {table : BlockTable}

theorem Follows.prevHash {bulk : List ParsedBlock} (follows : Follows start served chain db table) :
    prevHash bulk table = (chain ++ bulk).getLast?.map fun last => last.hash := by
  unfold Index.prevHash
  rcases eq_nil_or_concat' bulk with rfl | ⟨init, last, rfl⟩
  · rw [append_nil]
    rcases eq_nil_or_concat' chain with rfl | ⟨init, last, rfl⟩
    · rw [tip_nil follows.recs]
      rfl
    rw [follows.tip, getLast?_concat]
    rfl
  rw [← append_assoc, getLast?_concat, getLast?_concat]
  rfl

theorem Follows.nextHeight (follows : Follows config.startHeight served chain db table) :
    nextHeight config table = config.startHeight + chain.length := by
  unfold Index.nextHeight
  rcases eq_nil_or_concat' chain with rfl | ⟨init, last, rfl⟩
  · rw [tip_nil follows.recs]
    rfl
  rw [follows.tip, length_append, length_singleton]
  change last.height + 1 = _
  rw [follows.linked.height]
  rfl

end Fortis.Index
