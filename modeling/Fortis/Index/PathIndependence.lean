import Fortis.Index.Passes

/-!
# The index does not remember its path

After any passes, through any reorganisations and failures, the rows of the
store are those a fresh index of the chain it arrived at has, however that index
splits the chain into batches.
-/

namespace Fortis.Index

open Fortis.Core Lib List

/-- A chain cut into batches; one with undo records is a single block. -/
structure Pieces (chain : List ParsedBlock) (pieces : List (List ParsedBlock × Bool)) : Prop where
  whole : (pieces.map Prod.fst).flatten = chain
  nonempty : ∀ piece ∈ pieces, piece.1 ≠ []
  single : ∀ piece ∈ pieces, piece.2 = true → ∃ block, piece.1 = [block]

def indexFrom : Db → Nat → List (List ParsedBlock × Bool) → Except Fault Db
  | db, _, [] => .ok db
  | db, n, piece :: rest => do
    let (after, _) ← db.apply piece.1 n piece.2
    indexFrom after (numberAfter n piece.1) rest

def freshIndex (pieces : List (List ParsedBlock × Bool)) : Except Fault Db :=
  indexFrom Db.empty 0 pieces

variable {chain : List ParsedBlock}

theorem indexFrom_ok {pieces : List (List ParsedBlock × Bool)} {db : Db}
    (before : db.toRows = rowsOf chain) (nonempty : ∀ piece ∈ pieces, piece.1 ≠ [])
    (fits : NumbersFit (numberAfter 0 chain) (pieces.map Prod.fst).flatten) :
    ∃ fresh, indexFrom db (numberAfter 0 chain) pieces = .ok fresh ∧
      fresh.toRows = rowsOf (chain ++ (pieces.map Prod.fst).flatten) := by
  induction pieces generalizing chain db with
  | nil => exact ⟨db, rfl, by rw [before]; simp⟩
  | cons piece rest ih =>
    rw [map_cons, flatten_cons] at fits
    obtain ⟨fitsHere, fitsLater⟩ := numbersFit_append.mp fits
    have applied : ∃ after recs,
        db.apply piece.1 (numberAfter 0 chain) piece.2 = .ok (after, recs) := by
      have folded : ∃ final, piece.1.foldlM (db.applyBlock piece.2)
          (⟨[], numberAfter 0 chain, fun _ => none, [], [], []⟩, []) = .ok final :=
        applyBlocks_of_fits fitsHere
      obtain ⟨⟨loop, recs⟩, isFinal⟩ := folded
      unfold Db.apply Db.applyBatch
      dsimp only
      rw [isFinal, ok_bind]
      exact ⟨_, _, rfl⟩
    obtain ⟨after, recs, isAfter⟩ := applied
    have rows := (apply_ok before isAfter (nonempty piece mem_cons_self)).2.2.1
    rw [← numberAfter_append] at fitsLater
    obtain ⟨fresh, isFresh, freshRows⟩ := ih rows
      (fun other mem => nonempty other (mem_cons_of_mem piece mem)) fitsLater
    refine ⟨fresh, ?_, ?_⟩
    · unfold indexFrom
      rw [isAfter, ok_bind, ← numberAfter_append]
      exact isFresh
    · rw [freshRows, map_cons, flatten_cons, append_assoc]

/-! ## Runs -/

def servedBy (passes : List Answers) (block : ParsedBlock) : Prop :=
  ∃ answers ∈ passes, ∃ item ∈ answers.items, item.block = .ok block.toBlockBody

variable {served : ParsedBlock → Prop}

theorem following_run {config : Config} {passes : List Answers}
    {state : State} (valid : ValidChains config.startHeight served)
    (serves : ∀ block, servedBy passes block → served block)
    (following : Following config.startHeight served state) :
    Following config.startHeight served (run config passes state) := by
  induction passes generalizing state with
  | nil => exact following
  | cons answers rest ih =>
    have pass : Following config.startHeight served (finalState (step answers config) state) :=
      finalState_iff_wp.mpr (wp_step (fun tip _ => followsLaw config served tip.toNat) valid
        (fun item mem body isBody height =>
          serves ⟨body, height⟩ ⟨answers, mem_cons_self, item, mem, isBody⟩) following)
    unfold run
    dsimp only
    split
    · exact pass
    refine ih (fun block isServed => serves block ?_) pass
    obtain ⟨other, mem, rest⟩ := isServed
    exact ⟨other, mem_cons_of_mem answers mem, rest⟩

variable {block : ParsedBlock}

/-- A block applied with its undo record and taken back leaves the rows as they were. -/
theorem Follows.restores {start : Nat} {db after : Db} {table : BlockTable} {recs : List BlockRec}
    (follows : Follows start served chain db table) (linked : Linked start (chain ++ [block]))
    (once : CreatedOnce (chain ++ [block]))
    (applied : db.apply [block] table.nextTxnum true = .ok (after, recs))
    (number : table.nextTxnum + block.txs.length ≤ maxTxnum) :
    ∃ restored, after.rollback block.height (block.row table.nextTxnum) db.tip = .ok restored ∧
      restored.toRows = db.toRows := by
  rw [follows.nextTxnum] at applied number ⊢
  obtain ⟨undo, undos, reverts⟩ := follows.undo_apply linked once applied
  have found : after.undo block.height = some undo.encode := by
    rw [undos]
    exact setAt_same
  obtain ⟨restored, rolled⟩ := rollback_of_reverts found reverts number
  exact ⟨restored, rolled, (rollback_ok found reverts rolled).1⟩

/-- What is indexed depends on the chain, not on the passes that led to it. -/
theorem index_path_independent (config : Config) (passes : List Answers)
    (valid : ValidChains config.startHeight (servedBy passes)) :
    ∃ chain, Linked config.startHeight chain ∧ (∀ block ∈ chain, servedBy passes block) ∧
      (run config passes State.empty).table.recs = recsFrom 0 chain ∧
      (∀ pieces, Pieces chain pieces → ∃ fresh, freshIndex pieces = .ok fresh ∧
        fresh.toRows = (run config passes State.empty).db.toRows) ∧
      ∀ block after recs, Linked config.startHeight (chain ++ [block]) →
        CreatedOnce (chain ++ [block]) → (run config passes State.empty).db.apply [block]
          (run config passes State.empty).table.nextTxnum true = .ok (after, recs) →
        (run config passes State.empty).table.nextTxnum + block.txs.length ≤ maxTxnum →
        ∃ restored, after.rollback block.height
            (block.row (run config passes State.empty).table.nextTxnum)
            (run config passes State.empty).db.tip = .ok restored ∧
          restored.toRows = (run config passes State.empty).db.toRows := by
  have start : Following config.startHeight (servedBy passes) State.empty := ⟨[], follows_empty⟩
  have following : Following config.startHeight (servedBy passes) (run config passes State.empty) :=
    following_run valid (fun _ => id) start
  obtain ⟨chain, follows⟩ := following
  refine ⟨chain, follows.linked, fun block mem => (follows.blocks block mem).1, follows.recs,
    fun pieces cut => ?_, fun block after recs linked once applied number =>
      follows.restores linked once applied number⟩
  have fits : NumbersFit (numberAfter 0 []) (pieces.map Prod.fst).flatten := by
    rw [cut.whole]
    exact follows.numbers
  have nothing : Db.empty.toRows = rowsOf [] := rfl
  obtain ⟨fresh, isFresh, rows⟩ := indexFrom_ok nothing cut.nonempty fits
  refine ⟨fresh, isFresh, ?_⟩
  rw [rows, nil_append, cut.whole, follows.rows]

def sampleBytes (size : Nat) (byte : UInt8) : Fixed size :=
  ⟨List.replicate size byte, length_replicate⟩

/-- A block that funds one output. -/
def oldest : BlockBody where
  hash := sampleBytes 32 1
  prev := sampleBytes 32 0
  time := 0
  txs := [⟨sampleBytes 32 11, [⟨sampleBytes 20 5, 0, 900⟩], []⟩]
  small := by decide

/-- A block on top of it that spends the output. -/
def spender : BlockBody where
  hash := sampleBytes 32 2
  prev := sampleBytes 32 1
  time := 1
  txs := [⟨sampleBytes 32 12, [⟨sampleBytes 20 6, 0, 800⟩],
    [⟨sampleBytes 20 5, sampleBytes 32 11, 0⟩]⟩]
  small := by decide

/-- A block on top of it that does not. -/
def rival : BlockBody where
  hash := sampleBytes 32 3
  prev := sampleBytes 32 1
  time := 2
  txs := [⟨sampleBytes 32 13, [⟨sampleBytes 20 7, 0, 700⟩], []⟩]
  small := by decide

def reorgPasses : List Answers :=
  [⟨.ok 1, fun _ _ => .error "down", [⟨false, .ok oldest⟩, ⟨false, .ok spender⟩], fun _ => none⟩,
    ⟨.ok 1, fun call _ => .ok (sampleBytes 32 (if call = 0 then 3 else 1)),
      [⟨false, .ok rival⟩], fun _ => none⟩]

theorem servedBy_reorgPasses (served : servedBy reorgPasses block) :
    block.toBlockBody = oldest ∨ block.toBlockBody = spender ∨ block.toBlockBody = rival := by
  obtain ⟨answers, isPass, item, isItem, body⟩ := served
  rcases mem_cons.mp isPass with rfl | isPass
  · rcases mem_cons.mp isItem with rfl | isItem
    · exact .inl (Except.ok.inj body).symm
    cases mem_singleton.mp isItem
    exact .inr (.inl (Except.ok.inj body).symm)
  cases mem_singleton.mp isPass
  cases mem_singleton.mp isItem
  exact .inr (.inr (Except.ok.inj body).symm)

/-- Only the oldest block has blocks on top of it. -/
theorem link_reorgPasses {below above : ParsedBlock} (isBelow : servedBy reorgPasses below)
    (isAbove : servedBy reorgPasses above) (link : above.prev = below.hash) :
    below.toBlockBody = oldest ∧ (above.toBlockBody = spender ∨ above.toBlockBody = rival) := by
  rcases servedBy_reorgPasses isAbove with body | body | body <;>
    rcases servedBy_reorgPasses isBelow with base | base | base <;>
    rw [body, base] at link
  · exact absurd link (by decide)
  · exact absurd link (by decide)
  · exact absurd link (by decide)
  · exact ⟨base, .inl body⟩
  · exact absurd link (by decide)
  · exact absurd link (by decide)
  · exact ⟨base, .inr body⟩
  · exact absurd link (by decide)
  · exact absurd link (by decide)

theorem validChains_reorgPasses : ValidChains 0 (servedBy reorgPasses) := by
  intro chain linked served
  have links := linked.links
  unfold CreatedOnce
  match chain with
  | [] => exact nodup_nil
  | [only] =>
    rw [flatMap_singleton]
    unfold ParsedBlock.created
    rcases servedBy_reorgPasses (served only mem_cons_self) with body | body | body <;>
      rw [body] <;> decide
  | [below, above] =>
    have link := (isChain_cons_cons.mp links).1.1
    obtain ⟨base, top⟩ := link_reorgPasses (served below (by simp)) (served above (by simp)) link
    rw [flatMap_cons, flatMap_singleton]
    unfold ParsedBlock.created
    rw [base]
    rcases top with body | body <;> rw [body] <;> decide
  | below :: middle :: above :: rest =>
    obtain ⟨first, links⟩ := isChain_cons_cons.mp links
    have second := (isChain_cons_cons.mp links).1
    have top := (link_reorgPasses (served below (by simp)) (served middle (by simp)) first.1).2
    have base :=
      (link_reorgPasses (served middle (by simp)) (served above (by simp)) second.1).1
    rw [base] at top
    have ne : oldest.time ≠ spender.time ∧ oldest.time ≠ rival.time := by decide
    rcases top with same | same
    · exact absurd (congrArg BlockBody.time same) ne.1
    · exact absurd (congrArg BlockBody.time same) ne.2

theorem index_path_independent_reorg :
    ∃ chain, Linked 0 chain ∧ (∀ block ∈ chain, servedBy reorgPasses block) ∧
      (run ⟨0, none⟩ reorgPasses State.empty).table.recs = recsFrom 0 chain ∧
      (run ⟨0, none⟩ reorgPasses State.empty).table.recs =
        [⟨oldest.hash, 0, 0, 1⟩, ⟨rival.hash, 2, 1, 1⟩] ∧
      ∀ pieces, Pieces chain pieces → ∃ fresh, freshIndex pieces = .ok fresh ∧
        fresh.toRows = (run ⟨0, none⟩ reorgPasses State.empty).db.toRows := by
  obtain ⟨chain, linked, served, recs, same, _⟩ :=
    index_path_independent ⟨0, none⟩ reorgPasses validChains_reorgPasses
  exact ⟨chain, linked, served, recs, by decide +kernel, same⟩

end Fortis.Index
