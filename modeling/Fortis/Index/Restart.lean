import Fortis.Index.Passes
import Fortis.Index.Contents

/-!
# Undo depth, crashes and restarts

A pass decides from the node's tip which blocks get undo records and how far records are pruned;
`Sound` carries that every block not too far below the highest tip seen has one.  The syncer never
logs a batch while one is not flushed, so what a crash leaves is what the store was at some earlier
moment.
-/

namespace Fortis.Index

open Lib List Nat Journal

/-! ## Opening a store -/

/-- Where a list of rows leaves out a height: the height expected and the one found. -/
def gapIn : Nat → List (Nat × BlockRec) → Option (Nat × Nat)
  | _, [] => none
  | expected, (height, _) :: rest =>
    if height = expected then gapIn (expected + 1) rest else some (expected, height)

def BlockTable.fromDb : List (Nat × BlockRec) → Except Fault BlockTable
  | [] => .ok ⟨0, []⟩
  | (start, first) :: rest =>
    match gapIn start ((start, first) :: rest) with
    | some (expected, found) => .error (.other
        s!"blocks table has a gap: expected height {expected}, found {found}")
    | none => .ok ⟨start, first :: rest.map Prod.snd⟩

structure Db.LoadsBlocks (db : Db) (rows : List (Nat × BlockRec)) : Prop where
  ascending : rows.Pairwise fun low high => low.1 < high.1
  rows : ∀ height row, (height, row) ∈ rows ↔ db.blocks height = some row

/-- What a process does first with a store: the table must name the store's tip. -/
def openTable (db : Db) (rows : List (Nat × BlockRec)) : Except Fault BlockTable := do
  let table ← BlockTable.fromDb rows
  refuseIf (db.tip ≠ table.tip.map fun tip => (tip.1, tip.2.hash))
    (.other "index is inconsistent: meta.tip does not match the blocks table")
  return table

def State.opened (db : Db) (table : BlockTable) : State where
  db := db
  table := table
  bulkDirty := false
  follow := false
  asked := 0
  written := 0
  journal := []

variable {table : BlockTable} {n : Nat}

section Opening

variable {start : Nat} {served : ParsedBlock → Prop} {chain : List ParsedBlock} {db : Db}
  {rows : List (Nat × BlockRec)}

def rowList (start n : Nat) : List ParsedBlock → List (Nat × BlockRec)
  | [] => []
  | block :: rest => (start, block.row n) :: rowList (start + 1) (n + block.txs.length) rest

theorem map_rowList (start n : Nat) (chain : List ParsedBlock) :
    (rowList start n chain).map Prod.snd = recsFrom n chain := by
  induction chain generalizing start n with
  | nil => rfl
  | cons block rest ih =>
    rw [rowList, map_cons, ih]
    rfl

theorem gapIn_rowList (start n : Nat) (chain : List ParsedBlock) :
    gapIn start (rowList start n chain) = none := by
  induction chain generalizing start n with
  | nil => rfl
  | cons block rest ih =>
    rw [rowList, gapIn, if_pos rfl]
    exact ih _ _

variable {chain : List ParsedBlock}

theorem le_of_mem_rowList {start : Nat} {row : Nat × BlockRec}
    (mem : row ∈ rowList start n chain) : start ≤ row.1 := by
  induction chain generalizing start n with
  | nil => cases mem
  | cons block rest ih =>
    rcases mem_cons.mp mem with rfl | later
    · exact le_rfl
    have := ih later
    omega

theorem ascending_rowList (start n : Nat) (chain : List ParsedBlock) :
    (rowList start n chain).Pairwise fun low high => low.1 < high.1 := by
  induction chain generalizing start n with
  | nil => exact List.Pairwise.nil
  | cons block rest ih =>
    exact pairwise_cons.mpr ⟨fun row mem => le_of_mem_rowList mem, ih _ _⟩

theorem mem_rowList {start height : Nat} {row : BlockRec} : (height, row) ∈ rowList start n chain ↔
      start ≤ height ∧ (recsFrom n chain)[height - start]? = some row := by
  induction chain generalizing start n with
  | nil => exact ⟨nofun, fun never => (nomatch never.2)⟩
  | cons block rest ih =>
    rw [rowList, mem_cons, ih, recsFrom]
    rcases lt_trichotomy height start with low | rfl | high
    · constructor
      · rintro (same | later)
        · cases same
          exact absurd low (lt_irrefl _)
        · omega
      rintro ⟨high, _⟩
      omega
    · rw [Nat.sub_self, getElem?_cons_zero, Prod.mk.injEq]
      constructor
      · rintro (⟨_, rfl⟩ | later)
        · exact ⟨le_rfl, rfl⟩
        · omega
      rintro ⟨_, same⟩
      exact .inl ⟨rfl, (Option.some.inj same).symm⟩
    have index : height - start = height - (start + 1) + 1 := by omega
    rw [index, getElem?_cons_succ]
    constructor
    · rintro (same | ⟨_, found⟩)
      · cases same
        exact absurd high (lt_irrefl _)
      · exact ⟨le_of_lt high, found⟩
    rintro ⟨_, found⟩
    exact .inr ⟨high, found⟩

theorem Follows.loads (follows : Follows start served chain db table) :
    db.LoadsBlocks (rowList start 0 chain) := by
  refine ⟨ascending_rowList start 0 chain, fun height row => ?_⟩
  rw [mem_rowList, congrArg Rows.blocks follows.rows, blocks_rowsOf_eq follows.linked]
  split
  · exact ⟨fun low => by omega, nofun⟩
  · exact ⟨fun found => found.2, fun found => ⟨by omega, found⟩⟩

theorem Db.LoadsBlocks.unique {other : List (Nat × BlockRec)} (loads : db.LoadsBlocks rows)
    (loadsOther : db.LoadsBlocks other) : rows = other := by
  have distinct : ∀ {list : List (Nat × BlockRec)},
      list.Pairwise (fun low high => low.1 < high.1) → list.Nodup := fun ascending =>
    ascending.imp fun lower same => absurd (congrArg Prod.fst same) (ne_of_lt lower)
  have perm : rows.Perm other :=
    (perm_ext_iff_of_nodup (distinct loads.ascending) (distinct loadsOther.ascending)).mpr
      fun row => (loads.rows row.1 row.2).trans (loadsOther.rows row.1 row.2).symm
  exact perm.eq_of_pairwise (fun low high _ _ one two => absurd one (lt_asymm two))
    loads.ascending loadsOther.ascending

theorem fromDb_rowList (chain : List ParsedBlock) : BlockTable.fromDb (rowList start 0 chain) =
      .ok ⟨if chain = [] then 0 else start, recsFrom 0 chain⟩ := by
  rcases chain with _ | ⟨block, rest⟩
  · rfl
  have whole := gapIn_rowList start 0 (block :: rest)
  rw [rowList] at whole ⊢
  unfold BlockTable.fromDb
  dsimp only
  rw [whole, map_rowList]
  rfl

/-- A store that follows a chain opens, on the same chain. -/
theorem Follows.opens (follows : Follows start served chain db table)
    (loads : db.LoadsBlocks rows) :
    ∃ opened, openTable db rows = .ok opened ∧ Follows start served chain db opened := by
  have again : Follows start served chain db ⟨if chain = [] then 0 else start, recsFrom 0 chain⟩ :=
    { follows with
      recs := rfl
      begins := fun nonempty => if_neg nonempty }
  refine ⟨_, ?_, again⟩
  have tip : db.tip = (BlockTable.tip ⟨if chain = [] then 0 else start, recsFrom 0 chain⟩).map
      fun tip => (tip.1, tip.2.hash) := by
    rw [congrArg Rows.tip follows.rows]
    change tipOf chain = _
    unfold tipOf
    rcases eq_nil_or_concat' chain with rfl | ⟨init, last, rfl⟩
    · rfl
    rw [again.tip, getLast?_concat]
    rfl
  unfold openTable
  rw [loads.unique follows.loads, fromDb_rowList, ok_bind, refuseIf_of_not (not_not.mpr tip),
    ok_bind]
  rfl

end Opening

/-! ## The invariant -/

variable {after : Db} {deeper nodeTip : Nat} {last : ParsedBlock}

section Sound

variable {config : Config} {served : ParsedBlock → Prop} {base : Db} {depth : Nat}
  {chain : List ParsedBlock} {state : State}

def Covered (depth : Nat) (chain : List ParsedBlock) (db : Db) : Prop :=
  ∀ block ∈ chain, depth ≤ block.height → ∃ raw, db.undo block.height = some raw

/-- The store follows a chain and has the undo records of its last blocks. -/
def Intact (start : Nat) (served : ParsedBlock → Prop) (depth : Nat) (db : Db) : Prop :=
  ∃ chain table, Follows start served chain db table ∧ Covered depth chain db

/-- A syncer started on `base`. -/
structure Sound (config : Config) (served : ParsedBlock → Prop) (base : Db) (depth : Nat)
    (chain : List ParsedBlock) (state : State) : Prop where
  follows : Follows config.startHeight served chain state.db state.table
  covered : Covered depth chain state.db
  db : state.db = Journal.replay Db.write base (Journal.batches state.journal)
  ordered : Journal.Ordered state.journal
  clean : state.bulkDirty = false → Journal.dirty state.journal = false
  throughout : Journal.Throughout Db.write base (Intact config.startHeight served depth)
    state.journal

variable {db : Db}

theorem Covered.mono (covered : Covered depth chain db)
    (le : depth ≤ deeper) : Covered deeper chain db :=
  fun block mem high => covered block mem (le.trans high)

theorem Sound.mono (sound : Sound config served base depth chain state)
    (le : depth ≤ deeper) : Sound config served base deeper chain state :=
  { sound with
    covered := sound.covered.mono le
    throughout := fun done isPrefix => by
      obtain ⟨chain, table, follows, covered⟩ := sound.throughout done isPrefix
      exact ⟨chain, table, follows, covered.mono le⟩ }

theorem Sound.commit {longer : List ParsedBlock} {logged : Bool} {batch : List Write}
    {final : State} (sound : Sound config served base depth chain state)
    (clean : logged = true → state.bulkDirty = false)
    (follows : Follows config.startHeight served longer (state.db.write batch) table)
    (covered : Covered depth longer (state.db.write batch))
    (isDb : final.db = state.db.write batch) (isTable : final.table = table)
    (isJournal : final.journal = state.journal ++ [.write logged batch])
    (flag : final.bulkDirty = if logged then state.bulkDirty else true) :
    Sound config served base depth longer final where
  follows := by
    rw [isDb, isTable]
    exact follows
  covered := by
    rw [isDb]
    exact covered
  db := by
    rw [isDb, isJournal, batches_append, sound.db]
    exact (replay_snoc _ _).symm
  ordered := by
    rw [isJournal]
    refine sound.ordered.snoc fun written same => ?_
    cases same
    exact sound.clean (clean rfl)
  clean := by
    intro isClean
    rw [flag] at isClean
    split at isClean
    next isLogged =>
      rw [isJournal, dirty_write, sound.clean isClean, isLogged]
      rfl
    · cases isClean
  throughout := by
    rw [isJournal]
    refine sound.throughout.write ?_
    rw [← sound.db]
    exact ⟨longer, table, follows, covered⟩

section

variable (follows : Follows config.startHeight served (chain ++ [last]) db table)
  (rolled : db.rollback last.height (last.row (numberAfter 0 chain)) (rowsOf chain).tip = .ok after)
include follows rolled

theorem Follows.undo_rollback : after.undo = setAt db.undo last.height none := by
  obtain ⟨_, batched, _⟩ := Db.batch_of_rollback rolled
  obtain ⟨raw, isRaw, _⟩ := ok_of_bind batched
  have found := some_of_orFail isRaw
  obtain ⟨below, block, above, undo, split, height, rfl, reverts⟩ := follows.undo _ _ found
  obtain ⟨rfl, rfl, rfl⟩ := follows.linked.split split height
  rw [← follows.rows] at reverts
  exact (rollback_ok found reverts rolled).2

theorem Covered.rollback (covered : Covered depth (chain ++ [last]) db) :
    Covered depth chain after := by
  intro block mem high
  obtain ⟨raw, found⟩ := covered block (mem_append_left _ mem) high
  have lower : block.height < last.height := by
    obtain ⟨below, above, rfl⟩ := append_of_mem mem
    have linked := follows.linked
    rw [append_assoc, cons_append] at linked
    have own := linked.height
    have top := follows.linked.height
    rw [length_append, length_cons] at top
    omega
  refine ⟨raw, ?_⟩
  rw [follows.undo_rollback rolled, setAt_other (Nat.ne_of_lt lower)]
  exact found

end

theorem Covered.apply {blocks : List ParsedBlock} {durable : Bool}
    {recs : List BlockRec} (follows : Follows config.startHeight served chain state.db state.table)
    (nonempty : blocks ≠ []) (linked : Linked config.startHeight (chain ++ blocks))
    (once : CreatedOnce (chain ++ blocks)) (applicable : Applicable nodeTip durable state blocks)
    (low : nodeTip - maxReorgDepth ≤ depth)
    (applied : state.db.apply blocks state.table.nextTxnum durable = .ok (after, recs))
    (covered : Covered depth chain state.db) : Covered depth (chain ++ blocks) after := by
  rw [follows.nextTxnum] at applied
  obtain ⟨_, _, _, plain⟩ := apply_ok follows.rows applied nonempty
  rcases durable with _ | _
  · rw [Covered, plain rfl]
    intro block mem high
    rcases mem_append.mp mem with old | new
    · exact covered block old high
    have := applicable.deep rfl block new
    omega
  obtain ⟨block, rfl⟩ := applicable.single rfl
  obtain ⟨undo, undos, _⟩ := follows.undo_apply linked once applied
  intro other mem high
  rw [undos]
  by_cases same : other.height = block.height
  · exact ⟨undo.encode, by rw [same]; exact setAt_same⟩
  rw [setAt_other same]
  rcases mem_append.mp mem with old | new
  · exact covered other old high
  · exact absurd (congrArg ParsedBlock.height (mem_singleton.mp new)) same

/-- A pass keeps the invariant when the depth is at least that of the node's tip. -/
theorem soundLaw (low : nodeTip - maxReorgDepth ≤ depth) :
    PassLaw config served nodeTip (Sound config served base depth) where
  follows _ _ sound := sound.follows
  idle chain state final sound idle := by
    obtain ⟨follows, covered, db, ordered, clean, throughout⟩ := sound
    constructor
    · rw [idle.db, idle.table]
      exact follows
    · rw [idle.db]
      exact covered
    · rw [idle.db, idle.journal]
      exact db
    · rw [idle.journal]
      exact ordered
    · rw [idle.bulkDirty, idle.journal]
      exact clean
    rw [idle.journal]
    exact throughout
  flushes chain state sound :=
    { follows := sound.follows
      covered := sound.covered
      db := by
        change state.db = replay _ _ (batches (state.journal ++ [.flush]))
        rw [batches_append]
        exact (append_nil _).symm ▸ sound.db
      ordered := sound.ordered.snoc nofun
      clean := fun _ => dirty_flush
      throughout := sound.throughout.flush }
  takesBack chain last state batch sound clean batched := by
    have rolled := Db.rollback_of_batch batched
    exact sound.commit (fun _ => clean) (sound.follows.rollback rolled)
      (Covered.rollback sound.follows rolled sound.covered) rfl rfl rfl rfl
  applies chain blocks state durable batch recs table sound nonempty linked isServed once
      applicable batched pushed := by
    have applied := Db.apply_of_batch batched
    exact sound.commit applicable.clean
      (sound.follows.apply nonempty linked isServed applicable.single once applied pushed)
      (Covered.apply sound.follows nonempty linked once applicable low applied sound.covered)
      rfl rfl rfl rfl
  prunes chain state below sound clean deep := by
    refine sound.commit (fun _ => clean) (sound.follows.pruneUndo below) ?_ rfl rfl rfl rfl
    intro block mem high
    obtain ⟨raw, found⟩ := sound.covered block mem high
    exact ⟨raw, (if_neg (by omega)).trans found⟩

end Sound

def seenTip (highest : Nat) (answers : Answers) : Nat :=
  match answers.tip with
  | .ok tip => max highest tip.toNat
  | .error _ => highest

theorem le_seenTip (highest : Nat) (answers : Answers) : highest ≤ seenTip highest answers := by
  unfold seenTip
  split
  · exact le_max_left _ _
  · exact le_rfl

/-- The syncers a store has had, by passes and restarts; the last was started on `base`. -/
inductive Reached (config : Config) (served : ParsedBlock → Prop) : Db → Nat → State → Prop
  | fresh : Reached config served Db.empty 0 State.empty
  | pass {base : Db} {highest : Nat} {state : State} (answers : Answers)
      (reached : Reached config served base highest state)
      (serves : ∀ item ∈ answers.items, ∀ body, item.block = .ok body →
        ∀ height, served ⟨body, height⟩) :
      Reached config served base (seenTip highest answers) (finalState (step answers config) state)
  | stopped {base : Db} {highest : Nat} {state : State} (answers : Answers)
      (reached : Reached config served base highest state) :
      Reached config served base highest (finalState (stop answers) state)
  | restart {base : Db} {highest : Nat} {state : State}
      {early : List (Journal.Entry (List Write))} {left : List (List Write)}
      {rows : List (Nat × BlockRec)} {table : BlockTable}
      (reached : Reached config served base highest state) (moment : early <+: state.journal)
      (survives : Journal.Survives early left)
      (loads : (Journal.replay Db.write base left).LoadsBlocks rows)
      (opens : openTable (Journal.replay Db.write base left) rows = .ok table) :
      Reached config served (Journal.replay Db.write base left) highest
        (State.opened (Journal.replay Db.write base left) table)

variable {config : Config} {served : ParsedBlock → Prop} {base : Db} {highest depth : Nat}
  {state : State}

variable {chain : List ParsedBlock}

theorem sound_opened (follows : Follows config.startHeight served chain base table)
    (covered : Covered depth chain base) :
    Sound config served base depth chain (State.opened base table) where
  follows := follows
  covered := covered
  db := rfl
  ordered := ordered_nil
  clean _ := rfl
  throughout := throughout_nil ⟨chain, table, follows, covered⟩

/-- What a crash at some moment leaves is what the store was at some moment. -/
theorem Sound.survivor {early : List (Journal.Entry (List Write))}
    {left : List (List Write)} (sound : Sound config served base depth chain state)
    (moment : early <+: state.journal) (survives : Journal.Survives early left) :
    left <+: Journal.batches early ∧
      Intact config.startHeight served depth (Journal.replay Db.write base left) := by
  obtain ⟨late, isJournal⟩ := moment
  have ordered := sound.ordered
  rw [← isJournal] at ordered
  have isPrefix := survives.isPrefix ordered.init
  refine ⟨isPrefix, sound.throughout left (isPrefix.trans ?_)⟩
  rw [← isJournal, batches_append]
  exact prefix_append _ _

theorem Reached.sound (valid : ValidChains config.startHeight served)
    (reached : Reached config served base highest state) :
    ∃ chain, Sound config served base (highest - maxReorgDepth) chain state := by
  induction reached with
  | fresh =>
    have start : Follows config.startHeight served [] Db.empty ⟨0, []⟩ := follows_empty
    exact ⟨[], sound_opened start nofun⟩
  | @pass base highest state answers _ serves ih =>
    obtain ⟨chain, sound⟩ := ih
    have deeper := sound.mono (Nat.sub_le_sub_right (le_seenTip highest answers) maxReorgDepth)
    refine finalState_iff_wp.mpr (wp_step (fun tip isTip => soundLaw ?_) valid serves
      ⟨chain, deeper⟩)
    unfold seenTip
    rw [isTip]
    exact Nat.sub_le_sub_right (Nat.le_max_right _ _) _
  | @stopped base highest state answers _ ih =>
    obtain ⟨chain, sound⟩ := ih
    have law : PassLaw config served 0 (Sound config served base (highest - maxReorgDepth)) :=
      soundLaw (by
        rw [Nat.zero_sub]
        exact Nat.zero_le _)
    exact finalState_iff_wp.mpr (wp_mono (law.wp_settle (raises_any _) sound)
      (fun _ _ kept => ⟨chain, kept.1⟩) fun _ _ failed => failed.1)
  | restart _ moment survives loads opens ih =>
    obtain ⟨chain, sound⟩ := ih
    obtain ⟨_, left, table, follows, covered⟩ := sound.survivor moment survives
    obtain ⟨opened, isOpened, followsOpened⟩ := follows.opens loads
    cases isOpened.symm.trans opens
    exact ⟨left, sound_opened followsOpened covered⟩

end Fortis.Index
