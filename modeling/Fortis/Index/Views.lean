import Fortis.Index.Contents
import Fortis.Index.PathIndependence

/-!
# Reader views

The writer commits to the store first and publishes its new block table second.  A reader loads the
published table, takes a snapshot of the store and keeps the pair only if both name the same tip.

Equal tips are enough because a block's hash names the block before it: two linked chains with one
last hash and one length are the same chain.
-/

namespace Fortis.Index

open Lib List Option Relation Nat State

def BlockTable.heightOf (table : BlockTable) (number : Nat) : Option Nat :=
  -- The first block whose range ends after the number.
  let i := (table.recs.takeWhile fun row => row.firstTxnum + row.nTxs ≤ number).length
  match table.recs[i]? with
  | none => none
  | some row => if row.firstTxnum ≤ number then some (table.start + i) else none

def BlockRec.Covers (row : BlockRec) (number : Nat) : Prop :=
  row.firstTxnum ≤ number ∧ number < row.firstTxnum + row.nTxs

section HeightOf

variable {n number : Nat} {chain : List ParsedBlock}

theorem le_firstTxnum {i : Nat} {row : BlockRec} (found : (recsFrom n chain)[i]? = some row) :
    n ≤ row.firstTxnum := by
  induction chain generalizing n i with
  | nil => cases found
  | cons block rest ih =>
    rcases i with _ | i
    · cases found
      exact le_refl n
    have later : n + block.txs.length ≤ row.firstTxnum := ih found
    omega

theorem covers_recsFrom (low : n ≤ number) (high : number < numberAfter n chain) :
    ∃ i row, (recsFrom n chain)[i]? = some row ∧ row.Covers number ∧
      ((recsFrom n chain).takeWhile fun row => row.firstTxnum + row.nTxs ≤ number).length = i ∧
      ∀ j other, (recsFrom n chain)[j]? = some other → other.Covers number → j = i := by
  induction chain generalizing n with
  | nil => exact absurd high (not_lt.mpr low)
  | cons block rest ih =>
    rw [numberAfter_cons] at high
    rcases lt_or_ge number (n + block.txs.length) with here | later
    · refine ⟨0, block.row n, rfl, ⟨low, here⟩, ?_, fun j other found covers => ?_⟩
      · have stops : ¬ decide ((block.row n).firstTxnum + (block.row n).nTxs ≤ number) = true :=
          fun ends => absurd (of_decide_eq_true ends) (not_le.mpr here)
        rw [recsFrom, takeWhile_cons, if_neg stops]
        rfl
      rcases j with _ | j
      · rfl
      have above : n + block.txs.length ≤ other.firstTxnum := le_firstTxnum found
      have below := covers.1
      omega
    obtain ⟨i, row, found, covers, length, only⟩ := ih later high
    refine ⟨i + 1, row, found, covers, ?_, fun j other foundOther coversOther => ?_⟩
    · have goesOn : decide ((block.row n).firstTxnum + (block.row n).nTxs ≤ number) = true :=
        decide_eq_true later
      rw [recsFrom, takeWhile_cons, if_pos goesOn, length_cons, length]
    cases j with
    | zero =>
      cases foundOther
      have inside : number < n + block.txs.length := coversOther.2
      omega
    | succ j => exact congrArg (· + 1) (only j other foundOther coversOther)

end HeightOf

/-! ## Views -/

structure Agree (table : BlockTable) (snapshot : Rows) : Prop where
  txid : ∀ key, snapshot.history key = true → ∃ txid, snapshot.txids key.txnum = some txid
  block : ∀ key, snapshot.history key = true → ∃ height row,
    table.get height = some row ∧ row.Covers key.txnum ∧ table.heightOf key.txnum = some height ∧
      ∀ other row, table.get other = some row → row.Covers key.txnum → other = height
  blocks : ∀ height, table.get height = snapshot.blocks height

/-- A table lists a chain. -/
structure Lists (start : Nat) (served : ParsedBlock → Prop) (chain : List ParsedBlock)
    (table : BlockTable) : Prop where
  recs : table.recs = recsFrom 0 chain
  begins : chain ≠ [] → table.start = start
  linked : Linked start chain
  blocks : ∀ block ∈ chain, served block

/-- A store holds a chain. -/
structure Holds (start : Nat) (served : ParsedBlock → Prop) (chain : List ParsedBlock)
    (rows : Rows) : Prop where
  rows : rows = rowsOf chain
  linked : Linked start chain
  blocks : ∀ block ∈ chain, served block

section OneChain

variable {start : Nat} {served : ParsedBlock → Prop} {chain other : List ParsedBlock}
  {db : Db} {table : BlockTable}

theorem Follows.lists (follows : Follows start served chain db table) :
    Lists start served chain table :=
  ⟨follows.recs, follows.begins, follows.linked, fun block mem => (follows.blocks block mem).1⟩

theorem Follows.holds (follows : Follows start served chain db table) :
    Holds start served chain db.toRows :=
  ⟨follows.rows, follows.linked, fun block mem => (follows.blocks block mem).1⟩

theorem Lists.get (lists : Lists start served chain table) (height : Nat) :
    table.get height = if height < start then none else (recsFrom 0 chain)[height - start]? := by
  unfold BlockTable.get
  rw [lists.recs]
  by_cases empty : chain = []
  · subst empty
    simp [recsFrom]
  · rw [lists.begins empty]

theorem Lists.agree (lists : Lists start served chain table) : Agree table (rowsOf chain) where
  txid key there := by
    obtain ⟨height, tx, found, _⟩ := history_rowsOf_iff.mp there
    exact ⟨tx.txid, by rw [txids_rowsOf_eq, found]; rfl⟩
  block key there := by
    have nonempty : chain ≠ [] := by
      rintro rfl
      cases there
    obtain ⟨i, row, found, covers, length, only⟩ :=
      covers_recsFrom (zero_le key.txnum) (history_rowsOf there)
    have atHeight : table.get (start + i) = some row := by
      rw [lists.get, if_neg (by omega), Nat.add_sub_cancel_left, found]
    refine ⟨start + i, row, atHeight, covers, ?_, fun height own isOwn coversOwn => ?_⟩
    · unfold BlockTable.heightOf
      rw [lists.recs, length, lists.begins nonempty]
      dsimp only
      rw [found]
      exact if_pos covers.1
    rw [lists.get] at isOwn
    split at isOwn
    · cases isOwn
    have := only _ own isOwn coversOwn
    omega
  blocks height := by rw [lists.get, blocks_rowsOf_eq lists.linked]

/-- The tip a table is compared by. -/
def BlockTable.tipHash (table : BlockTable) : Option (Nat × BlockHash) :=
  table.tip.map fun tip => (tip.1, tip.2.hash)

theorem Lists.tipHash (lists : Lists start served chain table) : table.tipHash = tipOf chain := by
  unfold BlockTable.tipHash BlockTable.tip tipOf
  rw [lists.recs]
  rcases eq_nil_or_concat' chain with rfl | ⟨init, last, rfl⟩
  · rfl
  rw [recsFrom_snoc, getLast?_concat, getLast?_concat, length_append,
    length_recsFrom, length_singleton, map_some, map_some, map_some,
    lists.linked.height,
    lists.begins (append_ne_nil_of_right_ne_nil init (cons_ne_nil _ _))]
  rfl

/-- A block's hash tells what is in it. -/
def HashesTell (served : ParsedBlock → Prop) : Prop :=
  ∀ first second, served first → served second → first.hash = second.hash →
    first.toBlockBody = second.toBlockBody

/-- Two served chains with one tip are one chain. -/
theorem chain_of_tip (tell : HashesTell served) (linked : Linked start chain)
    (linkedOther : Linked start other) (blocks : ∀ block ∈ chain, served block)
    (blocksOther : ∀ block ∈ other, served block) (same : tipOf chain = tipOf other) :
      chain = other := by
  induction chain using reverseRecOn generalizing other with
  | nil =>
    rcases eq_nil_or_concat' other with rfl | ⟨init, last, rfl⟩
    · rfl
    unfold tipOf at same
    rw [getLast?_concat] at same
    cases same
  | append_singleton below last ih =>
    rcases eq_nil_or_concat' other with rfl | ⟨belowOther, lastOther, rfl⟩
    · unfold tipOf at same
      rw [getLast?_concat] at same
      cases same
    unfold tipOf at same
    rw [getLast?_concat, getLast?_concat, map_some, map_some, some.injEq, Prod.mk.injEq] at same
    have body := tell last lastOther (blocks last (by simp)) (blocksOther lastOther (by simp))
      same.2
    have equal : last = lastOther := by
      cases last
      cases lastOther
      cases body
      cases same.1
      rfl
    subst equal
    -- The block before the last is the one its `prev` names, in both chains.
    have tips : tipOf below = tipOf belowOther := by
      have height := linked.height
      have heightOther := linkedOther.height
      rcases eq_nil_or_concat' below with rfl | ⟨deep, under, rfl⟩ <;>
        rcases eq_nil_or_concat' belowOther with rfl | ⟨deepOther, underOther, rfl⟩
      · rfl
      · rw [length_append, length_singleton] at heightOther
        rw [length_nil] at height
        omega
      · rw [length_append, length_singleton] at height
        rw [length_nil] at heightOther
        omega
      have links := (isChain_append.mp linked.links).2.2
      have linksOther := (isChain_append.mp linkedOther.links).2.2
      obtain ⟨prev, step⟩ := links under (by simp) last (by simp)
      obtain ⟨prevOther, stepOther⟩ := linksOther underOther (by simp) last (by simp)
      unfold tipOf
      rw [getLast?_concat, getLast?_concat, map_some, map_some, some.injEq, Prod.mk.injEq]
      exact ⟨by omega, prev.symm.trans prevOther⟩
    rw [ih linked.left linkedOther.left (fun block mem => blocks block (by simp [mem]))
      (fun block mem => blocksOther block (by simp [mem])) tips]

end OneChain

structure Writer where
  db : Db
  (table shared : BlockTable)

structure Succeeds (config : Config) (table : BlockTable) (blocks : List ParsedBlock) : Prop where
  linked : Linked (nextHeight config table) blocks
  prev : ∀ first tip, blocks.head? = some first → table.tip = some tip → first.prev = tip.2.hash

inductive Writes (config : Config) (served : ParsedBlock → Prop) : Writer → Writer → Prop
  | rollback {writer : Writer} {height : Nat} {row : BlockRec} {db : Db}
      (tip : writer.table.tip = some (height, row))
      (rolled : writer.db.rollback height row (if height = 0 then none
          else (writer.table.get (height - 1)).map fun below => (height - 1, below.hash)) =
            .ok db) :
      Writes config served writer { writer with db := db, table := writer.table.pop }
  | apply {writer : Writer} {blocks : List ParsedBlock} {durable : Bool} {db : Db}
      {recs : List BlockRec} {table : BlockTable}
      (nonempty : blocks ≠ []) (succeeds : Succeeds config writer.table blocks)
      (isServed : ∀ block ∈ blocks, served block ∧ block.height < 256 ^ 4)
      (single : durable = true → ∃ block, blocks = [block])
      (applied : writer.db.apply blocks writer.table.nextTxnum durable = .ok (db, recs))
      (pushed : writer.table.pushAll blocks recs = .ok table) :
      Writes config served writer { writer with db := db, table := table }
  | pruneUndo {writer : Writer} (below : Nat) :
      Writes config served writer { writer with db := writer.db.pruneUndo below }
  | publish {writer : Writer} : Writes config served writer { writer with shared := writer.table }

def viewTries : Nat := 1000

/-- Where a reader is in `view`, with the tries it has left. -/
inductive Reader
  | load (left : Nat)
  | snapshot (left : Nat) (table : BlockTable)
  | compare (left : Nat) (table : BlockTable) (snap : Db)
  | view (table : BlockTable) (snap : Db)
  | gaveUp

/-- The next action of `view`. -/
def Reader.next (writer : Writer) : Reader → Reader
  | load 0 => gaveUp
  | load (left + 1) => snapshot left writer.shared
  | snapshot left table => compare left table writer.db
  | compare left table snap => if snap.tip = table.tipHash then view table snap else load left
  | view table snap => view table snap
  | gaveUp => gaveUp

structure System where
  writer : Writer
  reader : Reader

/-- The writer or the reader takes its next action. -/
inductive Turn (config : Config) (served : ParsedBlock → Prop) : System → System → Prop
  | write {writer after : Writer} {reader : Reader} (writes : Writes config served writer after) :
      Turn config served ⟨writer, reader⟩ ⟨after, reader⟩
  | read {writer : Writer} {reader : Reader} :
      Turn config served ⟨writer, reader⟩ ⟨writer, reader.next writer⟩

def System.after (config : Config) (passes : List Answers) : System :=
  let state := run config passes State.empty
  ⟨⟨state.db, state.table, state.table⟩, .load viewTries⟩

/-! ## What every turn keeps -/

variable {config : Config} {served : ParsedBlock → Prop}

/-- What a reader has read so far is of chains the writer was at. -/
def Reader.Sound (start : Nat) (served : ParsedBlock → Prop) : Reader → Prop
  | load _ | gaveUp => True
  | snapshot _ table => ∃ chain, Lists start served chain table
  | compare _ table snap =>
    (∃ chain, Lists start served chain table) ∧ ∃ chain, Holds start served chain snap.toRows
  | view table snap => Agree table snap.toRows

structure System.Sound (start : Nat) (served : ParsedBlock → Prop) (system : System) : Prop where
  following : ∃ chain, Follows start served chain system.writer.db system.writer.table
  shared : ∃ chain, Lists start served chain system.writer.shared
  reader : system.reader.Sound start served

variable {chain blocks : List ParsedBlock}

theorem Linked.append {start : Nat} (linked : Linked start chain)
    (later : Linked (start + chain.length) blocks)
    (prev : ∀ last first, chain.getLast? = some last → blocks.head? = some first →
      first.prev = last.hash) : Linked start (chain ++ blocks) := by
  rcases eq_nil_or_concat' chain with rfl | ⟨init, last, rfl⟩
  · exact later
  refine ⟨fun block isFirst => ?_, isChain_append.mpr ⟨linked.links, later.links,
    fun below isBelow above isAbove => ⟨prev below above isBelow isAbove, ?_⟩⟩⟩
  · refine linked.first block ?_
    rw [head?_append] at isFirst
    obtain ⟨first, isHead⟩ : ∃ first, (init ++ [last]).head? = some first := by
      cases init with
      | nil => exact ⟨last, rfl⟩
      | cons head _ => exact ⟨head, rfl⟩
    rw [isHead] at isFirst ⊢
    exact isFirst
  rw [getLast?_concat] at isBelow
  cases isBelow
  rw [later.first above isAbove, linked.height, length_append, length_singleton]
  omega

theorem Follows.succeeds {db : Db} {table : BlockTable}
    (follows : Follows config.startHeight served chain db table)
    (succeeds : Succeeds config table blocks) : Linked config.startHeight (chain ++ blocks) := by
  refine follows.linked.append (follows.nextHeight ▸ succeeds.linked) fun last first isLast
    isFirst => ?_
  obtain ⟨init, rfl⟩ := getLast?_eq_some_iff.mp isLast
  exact succeeds.prev first _ isFirst follows.tip

section

variable (valid : ValidChains config.startHeight served)
include valid

theorem Writes.following {writer after : Writer} (writes : Writes config served writer after)
    (following : ∃ chain, Follows config.startHeight served chain writer.db writer.table) :
    ∃ chain, Follows config.startHeight served chain after.db after.table := by
  obtain ⟨chain, follows⟩ := following
  cases writes with
  | rollback tip rolled =>
    rcases eq_nil_or_concat' chain with rfl | ⟨init, last, rfl⟩
    · rw [tip_nil follows.recs] at tip
      cases tip
    rw [follows.tip] at tip
    cases tip
    rw [follows.newTip] at rolled
    exact ⟨init, follows.rollback rolled⟩
  | @apply blocks _ _ _ _ nonempty succeeds isServed single applied pushed =>
    have linked := follows.succeeds succeeds
    have once : CreatedOnce (chain ++ blocks) := valid _ linked (forall_mem_append.mpr
      ⟨fun block old => (follows.blocks block old).1, fun block new => (isServed block new).1⟩)
    exact ⟨_, follows.apply nonempty linked isServed single once applied pushed⟩
  | pruneUndo below => exact ⟨chain, follows.pruneUndo below⟩
  | publish => exact ⟨chain, follows⟩

/-- A turn of either side keeps what has been read sound. -/
theorem Turn.sound {system after : System}
    (tell : HashesTell served) (turn : Turn config served system after)
    (sound : system.Sound config.startHeight served) : after.Sound config.startHeight served := by
  obtain ⟨following, shared, reader⟩ := sound
  cases turn with
  | write writes =>
    refine ⟨writes.following valid following, ?_, reader⟩
    cases writes with
    | publish =>
      obtain ⟨chain, follows⟩ := following
      exact ⟨chain, follows.lists⟩
    | _ => exact shared
  | @read writer stage =>
    refine ⟨following, shared, ?_⟩
    cases stage with
    | load left =>
      cases left with
      | zero => trivial
      | succ left => exact shared
    | snapshot left table =>
      obtain ⟨chain, follows⟩ := following
      exact ⟨reader, chain, follows.holds⟩
    | compare left table snap =>
      obtain ⟨⟨chain, lists⟩, other, holds⟩ := reader
      change Reader.Sound _ _ (if snap.tip = table.tipHash then _ else _)
      split
      next same =>
        have tip : snap.tip = tipOf other := congrArg Rows.tip holds.rows
        rw [tip, lists.tipHash] at same
        have equal := chain_of_tip tell holds.linked lists.linked holds.blocks lists.blocks same
        subst equal
        change Agree table snap.toRows
        rw [holds.rows]
        exact lists.agree
      · trivial
    | view table snap => exact reader
    | gaveUp => trivial

theorem System.sound_run {first last : System}
    (tell : HashesTell served) (sound : first.Sound config.startHeight served)
    (turns : ReflTransGen (Turn config served) first last) :
    last.Sound config.startHeight served := by
  induction turns with
  | refl => exact sound
  | tail _ turn ih => exact turn.sound valid tell ih

end

/-- However commits and publications fall between a reader's actions, a view is of one chain. -/
theorem views_agree (config : Config) (passes : List Answers) (served : ParsedBlock → Prop)
    (serves : ∀ block, servedBy passes block → served block)
    (valid : ValidChains config.startHeight served) (tell : HashesTell served) (system : System)
    (turns : ReflTransGen (Turn config served) (System.after config passes) system)
    (table : BlockTable) (snap : Db) (viewed : system.reader = .view table snap) :
    Agree table snap.toRows := by
  have start : Following config.startHeight served empty := ⟨[], follows_empty⟩
  obtain ⟨chain, follows⟩ := following_run valid serves start
  have begun : (System.after config passes).Sound config.startHeight served :=
    ⟨⟨chain, follows⟩, ⟨chain, follows.lists⟩, trivial⟩
  have sound := (System.sound_run valid tell begun turns).reader
  rw [viewed] at sound
  exact sound

theorem hashesTell_reorgPasses : HashesTell (servedBy reorgPasses) := by
  intro first second isFirst isSecond same
  rcases servedBy_reorgPasses isFirst with body | body | body <;>
    rcases servedBy_reorgPasses isSecond with other | other | other <;>
    rw [body, other] at same ⊢ <;>
    exact absurd same (by decide)

/-- A reader that loads, meets a rollback before its snapshot and so compares in vain, and loads
again after the publication. -/
theorem turns_past_rollback {db rolled : Db} {table : BlockTable}
    (writes : Writes config served ⟨db, table, table⟩ ⟨rolled, table.pop, table⟩)
    (moved : rolled.tip ≠ table.tipHash) (tips : rolled.tip = table.pop.tipHash) :
    ReflTransGen (Turn config served) ⟨⟨db, table, table⟩, .load viewTries⟩
      ⟨⟨rolled, table.pop, table.pop⟩, .view table.pop rolled⟩ := by
  have again : (Reader.compare 999 table rolled).next ⟨rolled, table.pop, table⟩ = .load 999 :=
    if_neg moved
  have viewed : (Reader.compare 998 table.pop rolled).next ⟨rolled, table.pop, table.pop⟩ =
      .view table.pop rolled := if_pos tips
  have first : ReflTransGen (Turn config served) ⟨⟨db, table, table⟩, .load viewTries⟩
      ⟨⟨rolled, table.pop, table⟩, .load 999⟩ := by
    rw [← again]
    exact (((ReflTransGen.refl.tail .read).tail (.write writes)).tail .read).tail .read
  rw [← viewed]
  exact (((first.tail (.write .publish)).tail .read).tail .read).tail .read

/-- The state after a reorganisation, and its last block taken back while a reader is at work. -/
theorem views_agree_rollback : ∃ rolled : Db, rolled.tip = some (0, oldest.hash) ∧
    Agree (run ⟨0, none⟩ reorgPasses State.empty).table.pop rolled.toRows := by
  have tip : (run ⟨0, none⟩ reorgPasses empty).table.tip = some (1, ⟨rival.hash, 2, 1, 1⟩) := by
    decide +kernel
  have below : (run ⟨0, none⟩ reorgPasses empty).table.get 0 = some ⟨oldest.hash, 0, 0, 1⟩ := by
    decide +kernel
  have tips : ((run ⟨0, none⟩ reorgPasses empty).table.tipHash,
      (run ⟨0, none⟩ reorgPasses empty).table.pop.tipHash) =
        (some (1, rival.hash), some (0, oldest.hash)) := by decide +kernel
  have isRolled : ((run ⟨0, none⟩ reorgPasses empty).db.rollback 1 ⟨rival.hash, 2, 1, 1⟩
      (some (0, oldest.hash))).toOption.map (·.tip) = some (some (0, oldest.hash)) := by
    decide +kernel
  have start : System.after ⟨0, none⟩ reorgPasses = ⟨⟨(run ⟨0, none⟩ reorgPasses empty).db,
    (run ⟨0, none⟩ reorgPasses empty).table, (run ⟨0, none⟩ reorgPasses empty).table⟩,
      .load viewTries⟩ := rfl
  generalize run ⟨0, none⟩ reorgPasses empty = state at tip below tips isRolled start ⊢
  obtain ⟨tipHere, tipBelow⟩ := Prod.mk.inj tips
  cases rolls : state.db.rollback 1 ⟨rival.hash, 2, 1, 1⟩ (some (0, oldest.hash)) with
  | error fault =>
    rw [rolls] at isRolled
    cases isRolled
  | ok rolled =>
    rw [rolls] at isRolled
    have isTip : rolled.tip = some (0, oldest.hash) := Option.some.inj isRolled
    refine ⟨rolled, isTip, ?_⟩
    have writes : Writes ⟨0, none⟩ (servedBy reorgPasses) ⟨state.db, state.table, state.table⟩
        ⟨rolled, state.table.pop, state.table⟩ := by
      refine .rollback tip ?_
      rw [if_neg one_ne_zero, Nat.sub_self, below]
      exact rolls
    have moved : rolled.tip ≠ state.table.tipHash := by
      rw [isTip, tipHere]
      decide
    exact views_agree ⟨0, none⟩ reorgPasses (servedBy reorgPasses) (fun _ => id)
      validChains_reorgPasses hashesTell_reorgPasses _
      (start ▸ turns_past_rollback writes moved (isTip.trans tipBelow.symm)) _ rolled rfl

end Fortis.Index
