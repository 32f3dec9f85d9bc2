import Fortis.Index.Reorgs
import Fortis.Index.Views

/-!
# Crashes and syncing on

A crash leaves a prefix of the batches, and every prefix is a store that follows a chain: it opens,
and a pass with an honest node brings it to the node's chain.  What a store holds is determined by
its chain, so the crash cannot be told from the rows afterwards.
-/

namespace Fortis.Index

open Lib List Option Nat Db

/-! ## A pass that is served in full -/

section

variable {config : Config} {served : ParsedBlock → Prop} {base : Db} {depth nodeTip : Nat}
  {answers : Answers} {chain : List ParsedBlock} {state : State} {node : Nat → BlockHash}

/-- The node's chain from the start height up to the height blocks are fetched to. -/
structure Target (config : Config) (served : ParsedBlock → Prop) (node : Nat → BlockHash)
    (tip : UInt32) (goal : List ParsedBlock) : Prop where
  linked : Linked config.startHeight goal
  blocks : ∀ block ∈ goal, served block
  hashes : ∀ block ∈ goal, node block.height = block.hash
  reach : config.startHeight + goal.length = lastHeight config tip.toNat + 1
  fits : NumbersFit 0 goal

/-- A syncer that a pass can bring to the node's chain: the node answers honestly, no write fails,
and the chains fork within the undo depth. -/
structure Served (config : Config) (node : Nat → BlockHash) (tip : UInt32)
    (goal : List ParsedBlock) (highest : Nat) (answers : Answers) (state : State) : Prop where
  isTip : answers.tip = .ok tip
  honest : answers.Honest node
  items : answers.items = (goal.drop (nextHeight config
    (finalState (unwind answers tip.toNat) state).table - config.startHeight)).map deliver
  ahead : NotBehind tip.toNat node state.table
  numbers : state.table.nextTxnum ≤ maxTxnum
  short : ∀ height, config.stopHeight = some height →
    config.startHeight + state.table.recs.length ≤ height + 1
  forks : ForksWithin (seenTip highest answers - maxReorgDepth) config state.table
    fun height row => height ≤ tip.toNat ∧ node height = row.hash

variable {tip : UInt32} {goal kept : List ParsedBlock}

/-- What is kept after unwinding is the beginning of the node's chain. -/
theorem Target.isPrefix {db : Db} {table : BlockTable} (target : Target config served node tip goal)
    (tell : HashesTell served) (follows : Follows config.startHeight served kept db table)
    (top : ∀ last, kept.getLast? = some last → Shared tip.toNat node last)
    (short : ∀ height, config.stopHeight = some height →
      config.startHeight + kept.length ≤ height + 1) : kept <+: goal := by
  rcases eq_nil_or_concat' kept with rfl | ⟨init, last, rfl⟩
  · exact nil_prefix
  obtain ⟨reached, isNode⟩ := top last getLast?_concat
  have height := follows.linked.height
  have low : last.height ≤ lastHeight config tip.toNat := by
    unfold lastHeight
    rcases stops : config.stopHeight with _ | stop
    · exact reached
    have := short stop stops
    rw [length_append, length_singleton] at this
    exact Nat.le_min.mpr ⟨by omega, reached⟩
  have reach := target.reach
  have inside : init.length < goal.length := by omega
  have cut : goal.take init.length ++ goal[init.length] :: goal.drop (init.length + 1) = goal := by
    rw [← drop_eq_getElem_cons inside, take_append_drop]
  have own := (cut.symm ▸ target.linked).height
  rw [length_take_of_le (le_of_lt inside)] at own
  have isGoal := target.hashes _ (getElem_mem inside)
  rw [own, ← height, isNode] at isGoal
  have taken : goal.take init.length ++ [goal[init.length]] = goal.take (init.length + 1) :=
    take_append_getElem inside
  have linkedTaken : Linked config.startHeight (goal.take (init.length + 1)) :=
    Linked.left ((take_append_drop (init.length + 1) goal).symm ▸ target.linked)
  have same : init ++ [last] = goal.take (init.length + 1) := by
    refine chain_of_tip tell follows.linked linkedTaken
      (fun block mem => (follows.blocks block mem).1)
      (fun block mem => target.blocks block (mem_of_mem_take mem)) ?_
    rw [← taken]
    unfold tipOf
    rw [getLast?_concat, getLast?_concat, map_some, map_some, own, ← height, isGoal]
  rw [same]
  exact take_prefix _ _

/-- A pass brings the syncer to the node's chain. -/
theorem Sound.wp_step {highest : Nat} (sound : Sound config served base depth chain state)
    (depthIs : seenTip highest answers - maxReorgDepth = depth)
    (valid : ValidChains config.startHeight served) (tell : HashesTell served)
    (target : Target config served node tip goal)
    (isServed : Served config node tip goal highest answers state) :
    wp (step answers config) (fun _ => Sound config served base depth goal)
      (fun _ _ => False) state := by
  have low : tip.toNat - maxReorgDepth ≤ depth := by
    rw [← depthIs]
    unfold seenTip
    rw [isServed.isTip]
    exact Nat.sub_le_sub_right (Nat.le_max_right _ _) _
  have numbers := isServed.numbers
  rw [sound.follows.nextTxnum] at numbers
  have ends : wp (unwind answers tip.toNat)
      (fun _ final => final = finalState (unwind answers tip.toNat) state) (fun _ _ => True)
      state := by
    unfold wp finalState
    cases unwind answers tip.toNat state with
    | ok _ _ => rfl
    | error _ _ => trivial
  have disk : RaisesOnly (fun _ => False) (reachDisk answers) :=
    raises_reachDisk isServed.honest.disk
  unfold step
  rw [isServed.isTip, wp_bind, wp_lift]
  change wp (unwind answers tip.toNat >>= _) _ _ _
  refine wp_seq (wp_and (sound.wp_unwind low isServed.honest isServed.ahead numbers
    (depthIs ▸ isServed.forks)) ends) (fun _ unwound held => ?_) fun _ _ raised => raised.1
  obtain ⟨⟨kept, rest, split, shorter, _, top⟩, isEnd⟩ := held
  have isPrefix : kept <+: goal := by
    refine target.isPrefix tell shorter.follows top fun height stops => ?_
    have short := isServed.short height stops
    rw [sound.follows.recs, length_recsFrom, split, length_append] at short
    omega
  obtain ⟨todo, rfl⟩ := isPrefix
  have next := shorter.follows.nextHeight
  have items := isServed.items
  rw [← isEnd, next, Nat.add_sub_cancel_left, drop_left] at items
  have reach := target.reach
  rw [length_append] at reach
  rw [wp_bind, wp_get]
  dsimp only
  rw [next, items]
  generalize isDeep : tip.toNat - maxReorgDepth = durableFrom
  split
  next done =>
    have none : todo = [] := eq_nil_of_length_eq_zero (by omega)
    subst none
    rw [append_nil]
    split
    · exact wp_seq ((soundLaw low).wp_enterFollow disk shorter) (fun _ _ held => held)
        fun _ _ failed => failed.2
    · exact shorter
  · have linked := target.linked
    have high : ∀ block ∈ todo, block.height ≤ lastHeight config tip.toNat := by
      intro block mem
      obtain ⟨before, after, rfl⟩ := append_of_mem mem
      rw [← append_assoc] at linked
      have height := linked.height
      rw [length_append] at height reach
      rw [length_cons] at reach
      omega
    have lastLow := lastHeight_le config tip.toNat
    have small : tip.toNat < 256 ^ 4 := tip.toNat_lt
    have delivered : Delivered config.startHeight (lastHeight config tip.toNat) (kept ++ []) todo
        (todo.map deliver) := by
      rw [append_nil]
      exact ⟨rfl, linked, target.fits, high⟩
    refine wp_mono ((soundLaw low).wp_receive disk valid (lastLow.trans_lt tip.toNat_lt) lastLow
      isDeep.symm (fun k item body found isBody => ?_) shorter
      (by rw [append_nil]; exact linked.left) nofun nofun (by rw [append_nil]))
      (fun _ final received => ?_) fun _ _ failed => failed.2 todo delivered
    · rw [getElem?_map] at found
      obtain ⟨block, isBlock, rfl⟩ := map_eq_some_iff.mp found
      cases isBody
      obtain ⟨short, rfl⟩ := List.getElem?_eq_some_iff.mp isBlock
      have split : kept ++ todo = kept ++ todo.take k ++ todo[k] :: todo.drop (k + 1) := by
        rw [append_assoc, ← drop_eq_getElem_cons short, take_append_drop]
      have height := (split ▸ linked).height
      rw [length_append, length_take_of_le (le_of_lt short), ← Nat.add_assoc] at height
      rw [← height]
      exact target.blocks _ (mem_append_right _ (getElem_mem short))
    · obtain ⟨longer, held, whole⟩ := received
      have same := whole todo delivered
      rw [append_nil] at same
      exact same ▸ held

end

/-! ## Crashes -/

section

variable {config : Config} {served : ParsedBlock → Prop} {base : Db} {highest : Nat}
  {state : State} {node : Nat → BlockHash} {tip : UInt32} {goal : List ParsedBlock}
  {answers : Answers}

theorem Reached.catches_up (reached : Reached config served base highest state)
    (valid : ValidChains config.startHeight served) (tell : HashesTell served)
    (target : Target config served node tip goal)
    (isServed : Served config node tip goal highest answers state) :
    raised? (step answers config) state = none ∧
      (finalState (step answers config) state).db.toRows = rowsOf goal := by
  obtain ⟨chain, sound⟩ := reached.sound valid
  have deeper := sound.mono (Nat.sub_le_sub_right (le_seenTip highest answers) maxReorgDepth)
  have passes := deeper.wp_step rfl valid tell target isServed
  have returned : raised? (step answers config) state = none := by
    cases ended : raised? (step answers config) state with
    | none => rfl
    | some fault => exact (fail_of_raised passes ended).elim
  exact ⟨returned, (post_of_returned passes returned).follows.rows⟩

/-- A crash at any moment leaves the state after a prefix of the committed batches, and syncing on
from it ends in the rows a run without the crash ends in. -/
theorem crash_safe (config : Config) (served : ParsedBlock → Prop) (base : Db) (highest : Nat)
    (state : State) (early : List (Journal.Entry (List Write))) (left : List (List Write))
    (valid : ValidChains config.startHeight served) (tell : HashesTell served)
    (reached : Reached config served base highest state) (moment : early <+: state.journal)
    (survives : Journal.Survives early left) :
    state.db = Journal.replay Db.write base (Journal.batches state.journal) ∧
    left <+: Journal.batches early ∧ (∃ chain, Linked config.startHeight chain ∧
      (Journal.replay Db.write base left).toRows = rowsOf chain ∧
      (∀ height, (Journal.replay Db.write base left).blocks height =
        if height < config.startHeight then none
        else (recsFrom 0 chain)[height - config.startHeight]?) ∧
      (Journal.replay Db.write base left).tip = tipOf chain) ∧
    (∃ rows, (Journal.replay Db.write base left).LoadsBlocks rows) ∧
    ∀ rows, (Journal.replay Db.write base left).LoadsBlocks rows →
      ∃ table, openTable (Journal.replay Db.write base left) rows = .ok table ∧
        ∀ node tip goal answers after, Target config served node tip goal →
          Served config node tip goal highest answers state →
          Served config node tip goal highest after
            (State.opened (Journal.replay Db.write base left) table) →
          raised? (step answers config) state = none ∧ raised? (step after config)
            (State.opened (Journal.replay Db.write base left) table) = none ∧
          (finalState (step after config)
            (State.opened (Journal.replay Db.write base left) table)).db.toRows =
              (finalState (step answers config) state).db.toRows := by
  obtain ⟨now, sound⟩ := reached.sound valid
  obtain ⟨isPrefix, chain, table, follows, covered⟩ := sound.survivor moment survives
  refine ⟨sound.db, isPrefix, ⟨chain, follows.linked, follows.rows, fun height => ?_, ?_⟩,
    ⟨_, follows.loads⟩, fun rows loads => ?_⟩
  · rw [congrArg Rows.blocks follows.rows]
    exact blocks_rowsOf_eq follows.linked height
  · exact congrArg Rows.tip follows.rows
  obtain ⟨opened, opens, _⟩ := follows.opens loads
  refine ⟨opened, opens, fun node tip goal answers after target isServed isServedAfter => ?_⟩
  have again := Reached.restart reached moment survives loads opens
  obtain ⟨returned, rowsHere⟩ := reached.catches_up valid tell target isServed
  obtain ⟨returnedAfter, rowsAfter⟩ := again.catches_up valid tell target isServedAfter
  exact ⟨returned, returnedAfter, rowsAfter.trans rowsHere.symm⟩

end

namespace CrashSample

open BehindSample

/-- The two blocks the node has. -/
def goal : List ParsedBlock := [⟨oldest, 0⟩, ⟨spender, 1⟩]

def node (height : Nat) : BlockHash := if height = 0 then oldest.hash else spender.hash

/-- The node at the second block, serving `blocks`. -/
def level (blocks : List ParsedBlock) : Answers :=
  ⟨.ok 1, fun _ height => .ok (node height), blocks.map deliver, fun _ => none⟩

theorem target_goal : Target ⟨0, none⟩ (servedBy reorgPasses) node 1 goal where
  linked := by
    refine ⟨fun head isHead => ?_, ?_⟩
    · cases isHead
      rfl
    · exact isChain_cons_cons.mpr ⟨⟨rfl, rfl⟩, isChain_singleton _⟩
  blocks block member := by
    have first : serving 1 ∈ reorgPasses := mem_cons_self
    rcases mem_cons.mp member with rfl | member
    · exact ⟨_, first, _, mem_cons_self, rfl⟩
    cases mem_singleton.mp member
    exact ⟨_, first, _, mem_cons_of_mem _ mem_cons_self, rfl⟩
  hashes block member := by
    rcases mem_cons.mp member with rfl | member
    · rfl
    cases mem_singleton.mp member
    rfl
  reach := rfl
  fits := by
    refine ⟨?_, ?_, ?_, ?_, trivial⟩ <;> decide

theorem seenTip_level (blocks : List ParsedBlock) :
    seenTip (seenTip 0 (serving 1)) (level blocks) - maxReorgDepth = 0 :=
  Nat.sub_eq_zero_of_le (Nat.le_of_lt (show 1 < maxReorgDepth by decide))

theorem served_followed :
    Served ⟨0, none⟩ node 1 goal (seenTip 0 (serving 1)) (level []) followed where
  isTip := rfl
  honest := ⟨fun _ _ => rfl, fun _ => rfl⟩
  items := by
    have next : nextHeight ⟨0, none⟩ (finalState (unwind (level []) 1) followed).table = 2 := by
      decide +kernel
    have tip : (1 : UInt32).toNat = 1 := rfl
    rw [tip, next]
    rfl
  ahead height top ours isTip behind := by
    rw [table_followed] at isTip
    cases isTip
    exact absurd behind (by decide)
  numbers := by
    rw [table_followed]
    decide
  short _ never := (nomatch never)
  forks := .inl (le_of_eq (seenTip_level []))

/-- What reached the disk: the first block's batch, not the second's. -/
def midway : List (Journal.Entry (List Write)) := followed.journal.take 2

/-- The store with the first block alone. -/
def left : Db := Journal.replay Db.write Db.empty (Journal.batches midway)

theorem tip_left : left.tip = some (0, oldest.hash) := by
  decide +kernel

theorem blocks_left : left.blocks 0 = some ⟨oldest.hash, 0, 0, 1⟩ := by
  decide +kernel

/-- A chain with the tip at height 0 is one block, so its only row is that of height 0. -/
theorem loads_left {chain : List ParsedBlock} (linked : Linked 0 chain)
    (tip : left.tip = tipOf chain)
    (blocks : ∀ height, left.blocks height = (recsFrom 0 chain)[height]?) :
    left.LoadsBlocks [(0, ⟨oldest.hash, 0, 0, 1⟩)] := by
  refine ⟨pairwise_singleton _ _, fun height row => ?_⟩
  rw [tip_left] at tip
  rcases eq_nil_or_concat' chain with rfl | ⟨init, last, rfl⟩
  · cases tip
  · have top : last.height = 0 := by
      rw [tipOf, getLast?_concat] at tip
      exact (congrArg Prod.fst (Option.some.inj tip)).symm
    have first : init = [] := by
      have height := linked.height
      exact length_eq_zero_iff.mp (by omega)
    subst first
    rw [mem_singleton, Prod.mk.injEq]
    cases height with
    | zero =>
      rw [blocks_left]
      exact ⟨fun same => congrArg some same.2.symm, fun same => ⟨rfl, (Option.some.inj same).symm⟩⟩
    | succ above =>
      rw [blocks]
      exact ⟨fun same => absurd same.1 (succ_ne_zero above), nofun⟩

/-- The node has the second block for the store with the first. -/
theorem served_left : Served ⟨0, none⟩ node 1 goal (seenTip 0 (serving 1)) (level (goal.drop 1))
    (State.opened left ⟨0, [⟨oldest.hash, 0, 0, 1⟩]⟩) where
  isTip := rfl
  honest := ⟨fun _ _ => rfl, fun _ => rfl⟩
  items := by
    have next : nextHeight ⟨0, none⟩ (finalState (unwind (level (goal.drop 1)) 1)
        (State.opened left ⟨0, [⟨oldest.hash, 0, 0, 1⟩]⟩)).table = 1 := by
      decide +kernel
    have tip : (1 : UInt32).toNat = 1 := rfl
    rw [tip, next]
    rfl
  ahead height top ours isTip behind := by
    cases isTip
    exact absurd behind (by decide)
  numbers := by decide
  short _ never := (nomatch never)
  forks := .inl (le_of_eq (seenTip_level (goal.drop 1)))

end CrashSample

open BehindSample CrashSample

/-- The process dies between the two blocks' batches, and the next one fetches the second block
again. -/
theorem crash_safe_midway :
    openTable left [(0, ⟨oldest.hash, 0, 0, 1⟩)] = .ok ⟨0, [⟨oldest.hash, 0, 0, 1⟩]⟩ ∧
      left.toRows ≠ followed.db.toRows ∧ (finalState (step (level (goal.drop 1)) ⟨0, none⟩)
        (State.opened left ⟨0, [⟨oldest.hash, 0, 0, 1⟩]⟩)).db.toRows =
          (finalState (step (level []) ⟨0, none⟩) followed).db.toRows := by
  have safe := crash_safe ⟨0, none⟩ (servedBy reorgPasses) empty (seenTip 0 (serving 1)) followed
    midway (Journal.batches midway) validChains_reorgPasses hashesTell_reorgPasses
    reached_followed ( take_prefix 2 followed.journal)
    ⟨midway, [], (append_nil _).symm, not_mem_nil, (append_nil _).symm⟩
  have isLeft : Journal.replay Db.write empty (Journal.batches midway) = left := rfl
  rw [isLeft] at safe
  obtain ⟨_, _, ⟨chain, linked, _, blocks, tip⟩, _, opens⟩ := safe
  have isOpened : openTable left [(0, ⟨oldest.hash, 0, 0, 1⟩)] =
      .ok ⟨0, [⟨oldest.hash, 0, 0, 1⟩]⟩ := by
    unfold openTable
    rw [tip_left]
    rfl
  have shorter : left.tip ≠ followed.db.tip := by
    decide +kernel
  have loads : left.LoadsBlocks [(0, ⟨oldest.hash, 0, 0, 1⟩)] := loads_left linked tip blocks
  have served := served_left
  -- from here on the store is any store: unifying with the replayed one would evaluate it
  generalize left = db at opens isOpened shorter loads served ⊢
  obtain ⟨table, opened, synced⟩ := opens [(0, ⟨oldest.hash, 0, 0, 1⟩)] loads
  cases isOpened.symm.trans opened
  have same := synced node 1 goal (level []) (level (goal.drop 1)) target_goal
    served_followed served
  exact ⟨isOpened, fun equal => shorter (congrArg Rows.tip equal), same.2.2⟩

end Fortis.Index
