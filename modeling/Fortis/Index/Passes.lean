import Fortis.Index.Following

/-!
# What a pass of the syncer keeps

A pass takes the tip back, applies blocks and prunes undo records; in between it flushes and asks
the node.  `PassLaw` says of an invariant that each of these keeps it, with what the syncer has made
sure of before the write.  One traversal of a pass then serves every such invariant.
-/

namespace Fortis.Index

open Lib List

/-- What invariants look at is as it was. -/
structure Idle (first second : State) : Prop where
  db : second.db = first.db
  table : second.table = first.table
  bulkDirty : second.bulkDirty = first.bulkDirty
  journal : second.journal = first.journal

def State.flushed (state : State) : State :=
  { state with bulkDirty := false, journal := state.journal ++ [.flush] }

def State.shortened (state : State) (batch : List Write) : State :=
  { state.commit true batch with table := state.table.pop }

def State.lengthened (state : State) (durable : Bool) (batch : List Write) (table : BlockTable) :
    State :=
  { state.commit durable batch with
    bulkDirty := if durable then state.bulkDirty else true
    table := table }

structure Applicable (nodeTip : Nat) (durable : Bool) (state : State) (blocks : List ParsedBlock) :
    Prop where
  single : durable = true → ∃ block, blocks = [block]
  clean : durable = true → state.bulkDirty = false
  deep : durable = false → ∀ block ∈ blocks, block.height < nodeTip - maxReorgDepth

structure PassLaw (config : Config) (served : ParsedBlock → Prop) (nodeTip : Nat)
    (inv : List ParsedBlock → State → Prop) : Prop where
  follows : ∀ ⦃chain state⦄, inv chain state →
    Follows config.startHeight served chain state.db state.table
  idle : ∀ ⦃chain state final⦄, inv chain state → Idle state final → inv chain final
  flushes : ∀ ⦃chain state⦄, inv chain state → inv chain state.flushed
  takesBack : ∀ ⦃chain last state batch⦄, inv (chain ++ [last]) state → state.bulkDirty = false →
    state.db.rollbackBatch last.height (last.row (numberAfter 0 chain)) (rowsOf chain).tip =
      .ok batch → inv chain (state.shortened batch)
  applies : ∀ ⦃chain blocks state durable batch recs table⦄, inv chain state → blocks ≠ [] →
    Linked config.startHeight (chain ++ blocks) →
    (∀ block ∈ blocks, served block ∧ block.height < 256 ^ 4) →
    CreatedOnce (chain ++ blocks) → Applicable nodeTip durable state blocks →
    state.db.applyBatch blocks state.table.nextTxnum durable = .ok (batch, recs) →
    state.table.pushAll blocks recs = .ok table →
    inv (chain ++ blocks) (state.lengthened durable batch table)
  prunes : ∀ ⦃chain state below⦄, inv chain state → state.bulkDirty = false →
    below ≤ nodeTip - maxReorgDepth → inv chain (state.commit true [.deleteUndos below])

theorem followsLaw (config : Config) (served : ParsedBlock → Prop) (nodeTip : Nat) :
    PassLaw config served nodeTip fun chain state =>
      Follows config.startHeight served chain state.db state.table where
  follows _ _ follows := follows
  idle chain state final follows idle := by
    rw [idle.db, idle.table]
    exact follows
  flushes _ _ follows := follows
  takesBack _ _ _ _ follows _ batched := follows.rollback (Db.rollback_of_batch batched)
  applies _ _ _ _ _ _ _ follows nonempty linked isServed once applicable batched pushed :=
    follows.apply nonempty linked isServed applicable.single once (Db.apply_of_batch batched) pushed
  prunes _ _ below follows _ _ := follows.pruneUndo below

section Idle

variable {answers : Answers}

theorem Idle.refl (state : State) : Idle state state := ⟨rfl, rfl, rfl, rfl⟩

theorem Idle.trans ⦃first second third : State⦄ (one : Idle first second)
    (two : Idle second third) : Idle first third :=
  ⟨two.db.trans one.db, two.table.trans one.table, two.bulkDirty.trans one.bulkDirty,
    two.journal.trans one.journal⟩

@[simp]
theorem wp_lift {α : Type} {result : Except Fault α} {post : α → State → Prop}
    {fail : Fault → State → Prop} {state : State} :
    wp (lift result) post fail state = match result with
      | .ok value => post value state
      | .error fault => fail fault state := by
  cases result <;> rfl

theorem idle_reachDisk (answers : Answers) : Relates Idle (reachDisk answers) := by
  refine relates_iff_wp.mpr fun state => ?_
  unfold reachDisk
  simp only [wp_bind, wp_get, wp_set]
  split
  · exact ⟨rfl, rfl, rfl, rfl⟩
  · exact ⟨rfl, rfl, rfl, rfl⟩

theorem idle_hash (answers : Answers) (height : Nat) : Relates Idle (hash answers height) := by
  refine relates_iff_wp.mpr fun state => ?_
  unfold hash
  simp only [wp_bind, wp_get, wp_set, wp_lift]
  split
  · exact ⟨rfl, rfl, rfl, rfl⟩
  · exact ⟨rfl, rfl, rfl, rfl⟩

theorem idle_waitIfBehind (answers : Answers) (nodeTip : Nat) :
    Relates Idle (waitIfBehind answers nodeTip) := by
  refine Relates.get_bind fun state => ?_
  split
  · split
    · refine (idle_hash answers _).bind Idle.trans (fun theirs => ?_) state
      unfold abortIf
      split
      · exact Relates.throw Idle.refl _
      · exact Relates.pure Idle.refl _
    · exact Idle.refl state
  · exact Idle.refl state

theorem idle_onNode (answers : Answers) (nodeTip height : Nat) (row : BlockRec) :
    Relates Idle (onNode answers nodeTip height row) := by
  unfold onNode
  split
  · exact (idle_hash answers _).bind Idle.trans fun _ => Relates.pure Idle.refl _
  · exact Relates.pure Idle.refl _

end Idle

/-! ## The faults a program may raise -/

section Raises

variable {α : Type} {allowed : Fault → Prop}

def ResultRaises (allowed : Fault → Prop) (result : Except Fault α) : Prop :=
  ∀ fault, result = .error fault → allowed fault

/-- The program raises only allowed faults, from whatever state. -/
def RaisesOnly (allowed : Fault → Prop) (prog : SyncM α) : Prop :=
  ∀ state, wp prog (fun _ _ => True) (fun fault _ => allowed fault) state

theorem resultRaises_ok {value : α} : ResultRaises allowed (.ok value : Except Fault α) :=
  nofun

theorem RaisesOnly.mono {prog : SyncM α} {other : Fault → Prop} (raises : RaisesOnly allowed prog)
    (implies : ∀ fault, allowed fault → other fault) : RaisesOnly other prog :=
  fun state => wp_mono (raises state) (fun _ _ => id) fun fault _ => implies fault

theorem raises_any (prog : SyncM α) : RaisesOnly (fun _ => True) prog := fun _ => wp_true

end Raises

/-! ## The parts of a pass -/

variable {config : Config} {served : ParsedBlock → Prop} {nodeTip : Nat}
  {inv : List ParsedBlock → State → Prop} {answers : Answers} {chain : List ParsedBlock}
  {state : State} {allowed : Fault → Prop}

/-- The invariant holds of some chain. -/
def Holding (inv : List ParsedBlock → State → Prop) (state : State) : Prop :=
  ∃ chain, inv chain state

/-- The invariant still holds, and the fault is an allowed one. -/
def Failed (allowed : Fault → Prop) (inv : List ParsedBlock → State → Prop) (fault : Fault)
    (final : State) : Prop :=
  Holding inv final ∧ allowed fault

def deliver (block : ParsedBlock) : Item := ⟨false, .ok block.toBlockBody⟩

/-- The items are the next blocks of a chain, up to the last height, and numbers last for them. -/
structure Delivered (start last : Nat) (before todo : List ParsedBlock) (items : List Item) :
    Prop where
  items : items = todo.map deliver
  linked : Linked start (before ++ todo)
  fits : NumbersFit 0 (before ++ todo)
  reach : ∀ block ∈ todo, block.height ≤ last

variable {before : List ParsedBlock} {last : Nat}

theorem Delivered.next {start : Nat} {todo : List ParsedBlock} {item : Item}
    {rest : List Item} (delivered : Delivered start last before todo (item :: rest)) :
    ∃ block more, todo = block :: more ∧ item = deliver block ∧
      block.height = start + before.length ∧ block.height ≤ last ∧
      (∀ top, before.getLast? = some top → top.hash = block.prev) ∧
      Delivered start last (before ++ [block]) more rest := by
  obtain ⟨items, linked, fits, reach⟩ := delivered
  cases todo with
  | nil => cases items
  | cons block more =>
    cases items
    have shape : before ++ block :: more = before ++ [block] ++ more := append_cons _ _ _
    refine ⟨block, more, rfl, rfl, linked.height, reach block mem_cons_self, fun top isTop => ?_,
      rfl, shape ▸ linked, shape ▸ fits, fun other mem => reach other (mem_cons_of_mem _ mem)⟩
    exact ((isChain_append.mp linked.links).2.2 top isTop block rfl).1.symm

def May (allowed : Fault → Prop) (start last : Nat) (before : List ParsedBlock)
    (items : List Item) (fault : Fault) : Prop :=
  ∀ todo, Delivered start last before todo items → allowed fault

/-- The program keeps the invariant; if the items are the next blocks it takes all of them, unless
an allowed fault stops it. -/
def Receives (allowed : Fault → Prop) (inv : List ParsedBlock → State → Prop) (start last : Nat)
    (before : List ParsedBlock) (items : List Item) (prog : SyncM Nat) (state : State) : Prop :=
  wp prog (fun _ final => ∃ longer, inv longer final ∧
      ∀ todo, Delivered start last before todo items → longer = before ++ todo)
    (Failed (May allowed start last before items) inv) state

theorem Receives.cons {start : Nat} {block : ParsedBlock}
    {item : Item} {rest : List Item} {prog : SyncM Nat}
    (head : ∀ todo, Delivered start last before todo (item :: rest) →
      ∃ more, todo = block :: more ∧ Delivered start last (before ++ [block]) more rest)
    (run : Receives allowed inv start last (before ++ [block]) rest prog state) :
    Receives allowed inv start last before (item :: rest) prog state := by
  refine wp_mono run (fun _ final received => ?_)
    fun fault final failed => ⟨failed.1, fun todo delivered => ?_⟩
  · obtain ⟨longer, held, whole⟩ := received
    refine ⟨longer, held, fun todo delivered => ?_⟩
    obtain ⟨more, rfl, later⟩ := head todo delivered
    rw [whole more later, append_assoc, singleton_append]
  · obtain ⟨more, rfl, later⟩ := head todo delivered
    exact failed.2 more later

variable {blocks : List ParsedBlock}

theorem applyBatch_of_fits {db : Db} {n : Nat} (durable : Bool) (fits : NumbersFit n blocks) :
    ∃ batch recs, db.applyBatch blocks n durable = .ok (batch, recs) := by
  have folded : ∃ final, blocks.foldlM (db.applyBlock durable)
      (⟨[], n, fun _ => none, [], [], []⟩, []) = .ok final := applyBlocks_of_fits fits
  obtain ⟨⟨loop, recs⟩, isFinal⟩ := folded
  unfold Db.applyBatch
  dsimp only
  rw [isFinal, ok_bind]
  exact ⟨_, _, rfl⟩

theorem Follows.may_applyBatch {db : Db} {table : BlockTable} {items : List Item} {durable : Bool}
    (follows : Follows config.startHeight served chain db table)
    (fits : ∀ todo, Delivered config.startHeight last before todo items →
      NumbersFit 0 (chain ++ blocks)) :
    ResultRaises (May allowed config.startHeight last before items)
      (db.applyBatch blocks table.nextTxnum durable) := by
  intro fault raised todo delivered
  obtain ⟨batch, recs, batched⟩ :=
    applyBatch_of_fits durable (numbersFit_append.mp (fits todo delivered)).2
  rw [follows.nextTxnum, batched] at raised
  cases raised

namespace PassLaw

variable (law : PassLaw config served nodeTip inv) (disk : RaisesOnly allowed (reachDisk answers))
include law disk

theorem wp_reachDisk {post : Unit → State → Prop} (held : inv chain state)
    (returns : ∀ final, inv chain final → Idle state final → post () final) :
    wp (reachDisk answers) post (Failed allowed inv) state :=
  wp_mono (wp_and (relates_iff_wp.mp (idle_reachDisk answers) state) (disk state))
    (fun _ final same => returns final (law.idle held same.1) same.1)
    fun _ _ raised => ⟨⟨chain, law.idle held raised.1⟩, raised.2⟩

theorem wp_settle (held : inv chain state) :
    wp (settle answers) (fun _ final => inv chain final ∧ final.bulkDirty = false)
      (Failed allowed inv) state := by
  unfold settle
  rw [wp_bind, wp_get]
  split
  · rw [wp_bind]
    exact law.wp_reachDisk disk held fun _ reached _ => ⟨law.flushes reached, rfl⟩
  next clean => exact ⟨held, Bool.not_eq_true _ ▸ clean⟩

variable {durable : Bool}

theorem wp_settleFor (held : inv chain state) : wp (settleFor answers durable)
      (fun _ final => inv chain final ∧ (durable = true → final.bulkDirty = false))
      (Failed allowed inv) state := by
  unfold settleFor
  split
  · exact wp_imp (law.wp_settle disk held) fun _ _ clean => ⟨clean.1, fun _ => clean.2⟩
  next bulk => exact ⟨held, fun isDurable => absurd isDurable bulk⟩

theorem wp_enterFollow (held : inv chain state) : wp (enterFollow answers) (fun _ => inv chain)
      (Failed allowed inv) state := by
  unfold enterFollow
  rw [wp_bind, wp_get]
  split
  · exact held
  rw [wp_bind, wp_set, wp_bind]
  exact law.wp_reachDisk disk (law.idle held ⟨rfl, rfl, rfl, rfl⟩)
    fun _ reached _ => law.flushes reached

/-- The tip is taken back, or the disk or the undo record is to blame. -/
theorem wp_takeBack {last : ParsedBlock} (held : inv (chain ++ [last]) state)
    (rolls : ∀ settled, inv (chain ++ [last]) settled →
      ResultRaises allowed (settled.db.rollbackBatch last.height
        (last.row (numberAfter 0 chain)) (rowsOf chain).tip)) :
    wp (takeBack answers last.height (last.row (numberAfter 0 chain))) (fun _ => inv chain)
      (Failed allowed inv) state := by
  refine wp_next (law.wp_settle disk held) fun _ settled clean => ?_
  rw [wp_bind, wp_get, wp_bind, wp_lift, (law.follows clean.1).newTip]
  cases batched : settled.db.rollbackBatch last.height (last.row (numberAfter 0 chain))
      (rowsOf chain).tip with
  | error fault => exact ⟨⟨_, clean.1⟩, rolls settled clean.1 fault batched⟩
  | ok batch =>
    dsimp only
    rw [wp_bind]
    refine law.wp_reachDisk disk clean.1 fun reached still same => ?_
    rw [wp_modify]
    exact law.takesBack still (same.bulkDirty.trans clean.2) (same.db ▸ batched)

section

variable (told : ParsedBlock → Bool → Prop)
  (asks : ∀ below block above, chain = below ++ block :: above → ∀ state,
    wp (onNode answers nodeTip block.height (block.row (numberAfter 0 below)))
      (fun answer _ => told block answer) (fun fault _ => allowed fault) state)
  (rolls : ∀ below block above, chain = below ++ block :: above →
    (∀ other ∈ block :: above, told other false) → ∀ state, inv (below ++ [block]) state →
    ResultRaises allowed (state.db.rollbackBatch block.height (block.row (numberAfter 0 below))
      (rowsOf below).tip))
include asks rolls

/-- The blocks given up are those the node was told not to have, down to the first it was
told to have. -/
theorem wp_unwindLoop {now gone : List ParsedBlock} {turns : Nat} (held : inv now state)
    (whole : chain = now ++ gone) (away : ∀ block ∈ gone, told block false)
    (enough : now.length ≤ turns) : wp (unwindLoop answers nodeTip turns)
      (fun _ final => ∃ kept rest, chain = kept ++ rest ∧ inv kept final ∧
        (∀ block ∈ rest, told block false) ∧ ∀ last, kept.getLast? = some last → told last true)
      (Failed allowed inv) state := by
  induction turns generalizing now gone state with
  | zero =>
    cases eq_nil_of_length_eq_zero (Nat.le_zero.mp enough)
    exact ⟨[], gone, whole, held, away, nofun⟩
  | succ turns ih =>
    unfold unwindLoop
    rw [wp_bind, wp_get]
    rcases eq_nil_or_concat' now with rfl | ⟨init, last, rfl⟩
    · rw [tip_nil (law.follows held).recs]
      exact ⟨[], gone, whole, held, away, nofun⟩
    have place : chain = init ++ last :: gone := by
      rw [whole, append_assoc, singleton_append]
    rw [(law.follows held).tip]
    refine wp_seq (wp_and (asks init last gone place state)
      (relates_iff_wp.mp (idle_onNode answers nodeTip _ _) state))
      (fun answer asked answered => ?_)
      fun _ _ raised => ⟨⟨_, law.idle held raised.2⟩, raised.1⟩
    have still := law.idle held answered.2
    cases answer with
    | true =>
      refine ⟨init ++ [last], gone, whole, still, away, fun top isTop => ?_⟩
      rw [getLast?_concat] at isTop
      cases isTop
      exact answered.1
    | false =>
      have further : ∀ block ∈ last :: gone, told block false :=
        forall_mem_cons.mpr ⟨answered.1, away⟩
      rw [if_neg Bool.false_ne_true]
      refine wp_next (law.wp_takeBack disk still (rolls init last gone place further))
        fun _ _ shorter => ih shorter place further ?_
      rw [length_append, length_singleton] at enough
      omega

theorem wp_unwind (held : inv chain state) (waits : wp (waitIfBehind answers nodeTip)
      (fun _ _ => True) (fun fault _ => allowed fault) state) : wp (unwind answers nodeTip)
      (fun _ final => ∃ kept rest, chain = kept ++ rest ∧ inv kept final ∧
        (∀ block ∈ rest, told block false) ∧ ∀ last, kept.getLast? = some last → told last true)
      (Failed allowed inv) state := by
  refine wp_seq (wp_and waits (relates_iff_wp.mp (idle_waitIfBehind answers nodeTip) state))
    (fun _ waited idle => ?_) fun _ _ raised => ⟨⟨_, law.idle held raised.2⟩, raised.1⟩
  have still := law.idle held idle.2
  rw [wp_bind, wp_get]
  refine law.wp_unwindLoop disk told asks rolls still (append_nil _).symm nofun ?_
  rw [(law.follows still).recs, length_recsFrom]

end

theorem wp_apply {blocks : List ParsedBlock} (valid : ValidChains config.startHeight served)
    (held : inv chain state) (linked : Linked config.startHeight (chain ++ blocks))
    (isServed : ∀ block ∈ blocks, served block ∧ block.height < 256 ^ 4)
    (single : durable = true → ∃ block, blocks = [block])
    (deep : durable = false → ∀ block ∈ blocks, block.height < nodeTip - maxReorgDepth)
    (batches : ∀ settled, inv chain settled →
      ResultRaises allowed (settled.db.applyBatch blocks settled.table.nextTxnum durable)) :
    wp (apply answers blocks durable)
      (fun _ final => inv (chain ++ blocks) final ∧ (durable = true → final.bulkDirty = false))
      (Failed allowed inv) state := by
  have once : CreatedOnce (chain ++ blocks) := valid _ linked (forall_mem_append.mpr
    ⟨fun block old => ((law.follows held).blocks block old).1,
      fun block new => (isServed block new).1⟩)
  unfold apply
  split
  next empty =>
    have none : blocks = [] := isEmpty_iff.mp empty
    refine ⟨by rw [none, append_nil]; exact held, fun isDurable => ?_⟩
    obtain ⟨block, one⟩ := single isDurable
    rw [none] at one
    cases one
  next some =>
  have nonempty : blocks ≠ [] := fun empty => some (isEmpty_iff.mpr empty)
  refine wp_next (law.wp_settleFor disk held) fun _ settled clean => ?_
  have follows := law.follows clean.1
  rw [wp_bind, wp_get, wp_bind, wp_lift]
  rcases batched : settled.db.applyBatch blocks settled.table.nextTxnum durable with fault | result
  · exact ⟨⟨_, clean.1⟩, batches settled clean.1 fault batched⟩
  obtain ⟨batch, recs⟩ := result
  dsimp only
  rw [wp_bind]
  refine law.wp_reachDisk disk clean.1 fun reached still same => ?_
  have number := Db.apply_of_batch batched
  rw [follows.nextTxnum] at number
  obtain ⟨_, isRecs, _, _⟩ := apply_ok follows.rows number nonempty
  obtain ⟨longer, pushed, _, _⟩ := pushAll_ok follows.recs follows.begins linked
  rw [← isRecs] at pushed
  rw [wp_bind, wp_modify, wp_bind, wp_lift, pushed]
  have stillClean : durable = true → reached.bulkDirty = false :=
    fun isDurable => same.bulkDirty.trans (clean.2 isDurable)
  refine ⟨law.applies still nonempty linked isServed once ⟨single, stillClean, deep⟩
    (same.db ▸ same.table ▸ batched) (same.table ▸ pushed), fun isDurable => ?_⟩
  change (if durable = true then reached.bulkDirty else true) = false
  rw [if_pos isDurable]
  exact stillClean isDurable

theorem wp_pruneUndo {below : Nat} (held : inv chain state) (clean : state.bulkDirty = false)
    (low : below ≤ nodeTip - maxReorgDepth) :
    wp (pruneUndo answers below) (fun _ => inv chain) (Failed allowed inv) state := by
  unfold pruneUndo
  rw [wp_bind]
  exact law.wp_reachDisk disk held
    fun _ still same => law.prunes still (same.bulkDirty.trans clean) low

variable (valid : ValidChains config.startHeight served)
include valid

theorem wp_applyDurable {block : ParsedBlock} (held : inv chain state)
    (linked : Linked config.startHeight (chain ++ [block]))
    (isServed : served block ∧ block.height < 256 ^ 4) (low : block.height ≤ nodeTip)
    (batches : ∀ settled, inv chain settled →
      ResultRaises allowed (settled.db.applyBatch [block] settled.table.nextTxnum true)) :
    wp (applyDurable answers block) (fun _ => inv (chain ++ [block]))
      (Failed allowed inv) state := by
  refine wp_next (law.wp_enterFollow disk held) fun _ entered still => ?_
  refine wp_next (law.wp_apply disk valid still linked (forall_mem_singleton.mpr isServed)
    (fun _ => ⟨block, rfl⟩) nofun batches) fun _ applied longer => ?_
  exact law.wp_pruneUndo disk longer.1 (longer.2 rfl) (Nat.sub_le_sub_right low _)

variable {bulk : List ParsedBlock}

/-- What is left of a pass, with the blocks of the open batch not applied yet. -/
theorem wp_receive {last durableFrom height : Nat} {items : List Item}
    (low : last < 256 ^ 4) (below : last ≤ nodeTip)
    (isFrom : durableFrom = nodeTip - maxReorgDepth)
    (serves : ∀ (k : Nat) (item : Item) (body : BlockBody), items[k]? = some item →
      item.block = .ok body → served ⟨body, height + k⟩)
    (held : inv chain state) (linked : Linked config.startHeight (chain ++ bulk))
    (isServed : ∀ block ∈ bulk, served block ∧ block.height < 256 ^ 4)
    (deep : ∀ block ∈ bulk, block.height < durableFrom)
    (next : height = config.startHeight + (chain ++ bulk).length) :
    Receives allowed inv config.startHeight last (chain ++ bulk) items
      (receive answers last durableFrom height bulk items) state := by
  induction items generalizing chain state height bulk with
  | nil =>
    have may : RaisesOnly (May allowed config.startHeight last (chain ++ bulk) [])
        (reachDisk answers) := disk.mono fun _ may _ _ => may
    refine wp_next (law.wp_apply may valid held linked isServed nofun (fun _ => isFrom ▸ deep)
      fun _ still => (law.follows still).may_applyBatch fun _ delivered =>
        (numbersFit_append.mp delivered.fits).1)
      fun _ _ longer => ⟨_, longer.1, fun todo delivered => ?_⟩
    rw [map_eq_nil_iff.mp delivered.items.symm, append_nil]
  | cons item rest ih =>
    have may : RaisesOnly (May allowed config.startHeight last (chain ++ bulk) (item :: rest))
        (reachDisk answers) := disk.mono fun _ may _ _ => may
    -- The pass ends here only if the items are not the next blocks.
    have finish (none : ∀ todo,
        ¬ Delivered config.startHeight last (chain ++ bulk) todo (item :: rest)) :
        Receives allowed inv config.startHeight last (chain ++ bulk) (item :: rest)
          (do apply answers bulk false; return bulk.length) state :=
      wp_next (law.wp_apply may valid held linked isServed nofun (fun _ => isFrom ▸ deep)
        fun _ _ _ _ todo delivered => absurd delivered (none todo))
        fun _ _ longer => ⟨_, longer.1, fun todo delivered => absurd delivered (none todo)⟩
    unfold receive
    split
    next done =>
      refine finish fun todo delivered => ?_
      obtain ⟨block, _, _, rfl, own, reach, _⟩ := delivered.next
      rcases done with high | stopped
      · omega
      · cases stopped
    next going =>
    rw [not_or, Nat.not_lt] at going
    unfold Receives
    rw [wp_bind, wp_lift]
    rcases isBody : item.block with text | body
    · refine ⟨⟨chain, held⟩, fun todo delivered => ?_⟩
      obtain ⟨block, _, _, rfl, _⟩ := delivered.next
      cases isBody
    let block : ParsedBlock := ⟨body, height⟩
    have isNext : served block ∧ block.height < 256 ^ 4 :=
      ⟨serves 0 item body rfl isBody, going.1.trans_lt low⟩
    have head : ∀ todo, Delivered config.startHeight last (chain ++ bulk) todo (item :: rest) →
        ∃ more, todo = block :: more ∧
          Delivered config.startHeight last (chain ++ bulk ++ [block]) more rest := by
      intro todo delivered
      obtain ⟨own, more, rfl, rfl, isHeight, _, _, later⟩ := delivered.next
      cases isBody
      obtain rfl := next.trans isHeight.symm
      exact ⟨more, rfl, later⟩
    change wp (get >>= _) _ _ _
    rw [wp_bind, wp_get, (law.follows held).prevHash]
    split
    next differs =>
      refine finish fun todo delivered => ?_
      obtain ⟨own, _, _, rfl, _, _, prev, _⟩ := delivered.next
      cases isBody
      rcases isTop : (chain ++ bulk).getLast? with _ | top
      · rw [isTop] at differs
        cases differs
      · rw [isTop] at differs
        simp [prev top isTop] at differs
    next prev =>
    have linkedNext : Linked config.startHeight (chain ++ bulk ++ [block]) := by
      refine linked.snoc next fun top isTop => ?_
      rw [isTop] at prev
      have same : top.hash = block.prev := by simpa using prev
      exact same.symm
    have longer : ∀ other ∈ bulk ++ [block], served other ∧ other.height < 256 ^ 4 :=
      forall_mem_append.mpr ⟨isServed, forall_mem_singleton.mpr isNext⟩
    have grown : height + 1 = config.startHeight + (chain ++ bulk ++ [block]).length := by
      rw [length_append, length_singleton, next]
      rfl
    have servesRest : ∀ (k : Nat) (other : Item) (body : BlockBody), rest[k]? = some other →
        other.block = .ok body → served ⟨body, height + 1 + k⟩ := by
      intro k other body found isBody
      rw [Nat.add_assoc, Nat.add_comm 1]
      exact serves (k + 1) other body found isBody
    have fits : ∀ todo, Delivered config.startHeight last (chain ++ bulk) todo (item :: rest) →
        NumbersFit 0 (chain ++ bulk ++ [block]) := by
      intro todo delivered
      obtain ⟨more, _, later⟩ := head todo delivered
      exact (numbersFit_append.mp later.fits).1
    -- With an empty batch the rest is received from the longer chain.
    have again {after : State} (more : inv (chain ++ bulk ++ [block]) after) :
        Receives allowed inv config.startHeight last (chain ++ bulk) (item :: rest)
          (receive answers last durableFrom (height + 1) [] rest) after := by
      have run := ih servesRest more (by rw [append_nil]; exact linkedNext) (forall_mem_nil _)
        (forall_mem_nil _) (by rw [append_nil]; exact grown)
      rw [append_nil] at run
      exact run.cons head
    split
    next isDeep =>
      have deepLonger : ∀ other ∈ bulk ++ [block], other.height < durableFrom :=
        forall_mem_append.mpr ⟨deep, forall_mem_singleton.mpr isDeep⟩
      split
      · -- The batch is full.
        refine wp_next (law.wp_apply may valid held (append_assoc chain bulk _ ▸ linkedNext) longer
          nofun (fun _ => isFrom ▸ deepLonger) fun _ still =>
            (law.follows still).may_applyBatch (append_assoc chain bulk _ ▸ fits))
          fun _ _ applied => ?_
        rw [wp_bind]
        exact again (append_assoc chain bulk _ ▸ applied.1)
      have run := ih servesRest held (append_assoc chain bulk _ ▸ linkedNext) longer deepLonger
        (append_assoc chain bulk _ ▸ grown)
      rw [← append_assoc] at run
      exact run.cons head
    · refine wp_next (law.wp_apply may valid held linked isServed nofun (fun _ => isFrom ▸ deep)
        fun _ still => (law.follows still).may_applyBatch fun todo delivered =>
          (numbersFit_append.mp (fits todo delivered)).1) fun _ _ applied => ?_
      refine wp_next (law.wp_applyDurable may valid applied.1 linkedNext isNext
        (going.1.trans below) fun _ still => (law.follows still).may_applyBatch fits)
        fun _ _ more => ?_
      rw [wp_bind]
      exact again more

end PassLaw

theorem lastHeight_le (config : Config) (nodeTip : Nat) : lastHeight config nodeTip ≤ nodeTip := by
  unfold lastHeight
  split
  · exact le_rfl
  · exact Nat.min_le_right _ _

/-- A pass keeps what its law keeps, whatever the node answers and whichever writes fail. -/
theorem wp_step (laws : ∀ tip : UInt32, answers.tip = .ok tip →
    PassLaw config served tip.toNat inv) (valid : ValidChains config.startHeight served)
    (serves : ∀ item ∈ answers.items, ∀ body, item.block = .ok body →
      ∀ height, served ⟨body, height⟩) (held : Holding inv state) :
    wp (step answers config) (fun _ => Holding inv) (fun _ => Holding inv) state := by
  unfold step
  rw [wp_bind, wp_lift]
  rcases isTip : answers.tip with text | tip
  · exact held
  have law := laws tip isTip
  change wp (unwind answers tip.toNat >>= _) _ _ _
  obtain ⟨chain, held⟩ := held
  refine wp_seq (law.wp_unwind (raises_any _) (fun _ _ => True) (fun _ _ _ _ _ => wp_true)
    (fun _ _ _ _ _ _ _ _ _ => trivial) held wp_true)
    (fun _ unwound kept => ?_) fun _ _ failed => failed.1
  rw [wp_bind, wp_get]
  obtain ⟨chain, _, _, kept, _⟩ := kept
  have follows := law.follows kept
  dsimp only
  generalize isDeep : tip.toNat - maxReorgDepth = durableFrom
  split
  · split
    · exact wp_seq (law.wp_enterFollow (raises_any _) kept) (fun _ _ still => ⟨chain, still⟩)
        fun _ _ failed => failed.1
    · exact ⟨chain, kept⟩
  refine wp_mono (law.wp_receive (raises_any _) valid ?_ (lastHeight_le config _) isDeep.symm
    (fun _ item body found isBody => serves item (mem_of_getElem? found) body isBody _) kept
    (by rw [append_nil]; exact follows.linked) nofun nofun
    (by rw [append_nil]; exact follows.nextHeight))
    (fun _ _ received => ?_) fun _ _ failed => failed.1
  · exact (lastHeight_le config _).trans_lt tip.toNat_lt
  · obtain ⟨longer, kept, _⟩ := received
    exact ⟨longer, kept⟩

end Fortis.Index
