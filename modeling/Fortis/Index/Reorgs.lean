import Fortis.Index.PathIndependence
import Fortis.Index.Restart

/-!
# Reorganisations and nodes that are behind

The syncer takes its tip back while the node does not have it.  The only fatal fault is to lack the
undo record of a block to be taken back.  A node that is behind the index on the index's own chain
is recognised by its tip, which the syncer looks up in its own table: the table begins at the start
height.
-/

namespace Fortis.Index

open Lib List Nat Bool

/-! ## The faults a program may raise -/

section

variable {allowed : Fault → Prop} {α β γ : Type} {answers : Answers}

theorem resultRaises_bind {first : Except Fault α} {next : α → Except Fault β}
    (one : ResultRaises allowed first) (two : ∀ value, ResultRaises allowed (next value)) :
    ResultRaises allowed (first >>= next) := by
  cases first with
  | error fault =>
    intro raised same
    cases same
    exact one fault rfl
  | ok value => exact two value

theorem resultRaises_foldlM {items : List γ} {next : α → γ → Except Fault α}
    (each : ∀ value item, ResultRaises allowed (next value item)) (value : α) :
    ResultRaises allowed (items.foldlM next value) := by
  induction items generalizing value with
  | nil =>
    intro fault never
    cases never
  | cons item rest ih =>
    rw [foldlM_cons]
    exact resultRaises_bind (each value item) ih

theorem RaisesOnly.bind {prog : SyncM α} {next : α → SyncM β} (one : RaisesOnly allowed prog)
    (two : ∀ value, RaisesOnly allowed (next value)) : RaisesOnly allowed (prog >>= next) := by
  intro state
  exact wp_next (one state) fun value final _ => two value final

theorem RaisesOnly.get_bind {next : State → SyncM α}
    (each : ∀ state, RaisesOnly allowed (next state)) : RaisesOnly allowed (get >>= next) := by
  intro state
  rw [wp_bind, wp_get]
  exact each state state

theorem raises_pure (value : α) : RaisesOnly allowed (pure value : SyncM α) := fun _ => trivial

theorem raises_modify (change : State → State) : RaisesOnly allowed (modify change : SyncM PUnit) :=
  fun _ => trivial

theorem raises_lift {result : Except Fault α} (raises : ResultRaises allowed result) :
    RaisesOnly allowed (lift result) := by
  intro state
  rw [wp_lift]
  split
  · trivial
  · exact raises _ rfl

theorem raises_reachDisk (disk : ∀ call, answers.disk call = none) :
    RaisesOnly allowed (reachDisk answers) := by
  intro state
  unfold reachDisk
  rw [wp_bind, wp_get, wp_bind, wp_set, disk]
  trivial

theorem raises_settle (disk : RaisesOnly allowed (reachDisk answers)) :
    RaisesOnly allowed (settle answers) := by
  refine RaisesOnly.get_bind fun state => ?_
  split
  · exact disk.bind fun _ => raises_modify _
  · exact raises_pure _

end

variable {row : BlockRec} {db : Db} {height : Nat}

section Mild

variable {α : Type} {answers : Answers}

def MildResult {α : Type} (result : Except Fault α) : Prop :=
  ResultRaises (fun fault => fault.isFatal = false) result

def Mild {α : Type} (prog : SyncM α) : Prop :=
  RaisesOnly (fun fault => fault.isFatal = false) prog

theorem mildResult_refuseIf {condition : Prop} [Decidable condition] {text : String} :
    MildResult (refuseIf condition (.other text)) := by
  unfold refuseIf
  split
  · intro fault same
    cases same
    rfl
  intro fault never
  cases never

theorem mildResult_mapError {result : Except String α} {text : String → String} :
    MildResult (result.mapError fun error => Fault.other (text error)) := by
  intro fault same
  cases result with
  | error error =>
    cases same
    rfl
  | ok value => cases same

theorem mildResult_applyTx (keepUndo : Bool) (height : Nat) (loop : Loop) (tx : TxRows) :
    MildResult (applyTx keepUndo height loop tx) := by
  unfold applyTx
  split
  · intro fault same
    cases same
    rfl
  · exact resultRaises_ok

theorem mildResult_applyBatch (db : Db) (blocks : List ParsedBlock) (n : Nat) (keepUndo : Bool) :
    MildResult (db.applyBatch blocks n keepUndo) := by
  refine resultRaises_bind (resultRaises_foldlM (fun state block => ?_) _) fun _ => resultRaises_ok
  refine resultRaises_bind (resultRaises_foldlM (mildResult_applyTx keepUndo block.height) _)
    fun _ => resultRaises_bind mildResult_refuseIf fun _ => resultRaises_ok

theorem mildResult_pushAll (table : BlockTable) (blocks : List ParsedBlock)
    (recs : List BlockRec) : MildResult (table.pushAll blocks recs) := by
  refine resultRaises_foldlM (fun table pair => ?_) _
  unfold BlockTable.push
  split
  · exact resultRaises_ok
  split
  · exact resultRaises_ok
  intro fault same
  cases same
  rfl

theorem mildResult_rollbackBatch
    {newTip : Option (Nat × BlockHash)} (found : ∃ raw, db.undo height = some raw) :
    MildResult (db.rollbackBatch height row newTip) := by
  obtain ⟨raw, found⟩ := found
  unfold Db.rollbackBatch
  rw [found]
  refine resultRaises_bind resultRaises_ok fun _ => resultRaises_bind mildResult_mapError fun _ =>
    resultRaises_bind mildResult_refuseIf fun _ => resultRaises_bind ?_ fun _ => resultRaises_ok
  unfold rangeKeys
  split
  · exact mildResult_refuseIf
  · exact resultRaises_ok

variable (answers)

theorem mild_reachDisk : Mild (reachDisk answers) := by
  intro state
  unfold reachDisk
  simp only [wp_bind, wp_get, wp_set]
  split
  · rfl
  · trivial

theorem mild_hash (height : Nat) : Mild (hash answers height) := by
  intro state
  unfold hash
  rw [wp_bind, wp_get, wp_bind, wp_set]
  exact raises_lift mildResult_mapError _

theorem mild_waitIfBehind (nodeTip : Nat) : Mild (waitIfBehind answers nodeTip) := by
  refine RaisesOnly.get_bind fun state => ?_
  split
  · split
    · refine (mild_hash answers _).bind fun theirs => ?_
      unfold abortIf
      split
      · exact fun _ => rfl
      · exact raises_pure _
    · exact raises_pure _
  · exact raises_pure _

theorem mild_onNode (nodeTip height : Nat) (row : BlockRec) :
    Mild (onNode answers nodeTip height row) := by
  unfold onNode
  split
  · exact (mild_hash answers _).bind fun _ => raises_pure _
  · exact raises_pure _

theorem mild_apply (blocks : List ParsedBlock) (durable : Bool) :
    Mild (apply answers blocks durable) := by
  have settles : Mild (settleFor answers durable) := by
    unfold settleFor
    split
    · exact raises_settle (mild_reachDisk answers)
    · exact raises_pure _
  unfold apply
  split
  · exact raises_pure _
  refine settles.bind fun _ => RaisesOnly.get_bind fun state => ?_
  refine (raises_lift (mildResult_applyBatch _ _ _ _)).bind fun _ => ?_
  refine (mild_reachDisk answers).bind fun _ => (raises_modify _).bind fun _ => ?_
  exact (raises_lift (mildResult_pushAll _ _ _)).bind fun _ => raises_modify _

theorem mild_enterFollow : Mild (enterFollow answers) := by
  refine RaisesOnly.get_bind fun state => ?_
  split
  · exact raises_pure _
  exact RaisesOnly.bind (fun _ => trivial) fun _ => (mild_reachDisk answers).bind fun _ =>
    raises_modify _

theorem mild_applyDurable (block : ParsedBlock) : Mild (applyDurable answers block) :=
  (mild_enterFollow answers).bind fun _ => (mild_apply answers _ _).bind fun _ =>
    (mild_reachDisk answers).bind fun _ => raises_modify _

variable {answers}

theorem mild_receive (last durableFrom height : Nat) (bulk : List ParsedBlock)
    (items : List Item) : Mild (receive answers last durableFrom height bulk items) := by
  induction items generalizing height bulk with
  | nil => exact (mild_apply answers _ _).bind fun _ => raises_pure _
  | cons item rest ih =>
    have finish : Mild (do apply answers bulk false; return bulk.length) :=
      (mild_apply answers _ _).bind fun _ => raises_pure _
    unfold receive
    split
    · exact finish
    refine (raises_lift mildResult_mapError).bind fun body => ?_
    refine RaisesOnly.get_bind fun state => ?_
    split
    · exact finish
    split
    · split
      · exact (mild_apply answers _ _).bind fun _ => (ih _ _).bind fun _ => raises_pure _
      · exact ih _ _
    exact (mild_apply answers _ _).bind fun _ => (mild_applyDurable answers _).bind
      fun _ => (ih _ _).bind fun _ => raises_pure _

/-- A pass is fatal only while it unwinds. -/
theorem mild_step {config : Config} {tip : UInt32} {state : State} (isTip : answers.tip = .ok tip)
    (unwinds : wp (unwind answers tip.toNat) (fun _ _ => True)
      (fun fault _ => fault.isFatal = false) state) (fault : Fault)
    (raised : raised? (step answers config) state = some fault) : fault.isFatal = false := by
  have mild : wp (step answers config) (fun _ _ => True) (fun fault _ => fault.isFatal = false)
      state := by
    unfold step
    rw [isTip, wp_bind, wp_lift]
    change wp (unwind answers tip.toNat >>= _) _ _ _
    refine wp_next unwinds fun _ unwound _ => ?_
    refine RaisesOnly.get_bind (fun state => ?_) unwound
    dsimp only
    generalize tip.toNat - maxReorgDepth = durableFrom
    split
    · split
      · exact (mild_enterFollow answers).bind fun _ => raises_pure _
      · exact raises_pure _
    · exact mild_receive _ _ _ _ _
  exact fail_of_raised mild raised

end Mild

/-! ## A node that is behind -/

variable {table : BlockTable} {above below : List ParsedBlock} {block : ParsedBlock}

section Behind

variable {config : Config} {served : ParsedBlock → Prop} {answers : Answers}
  {chain : List ParsedBlock} {state : State}

def Answers.Agree (answers : Answers) (table : BlockTable) : Prop :=
  ∀ call height theirs row, answers.hash call height = .ok theirs →
    table.get height = some row → theirs = row.hash

theorem wp_hash_agree (agrees : answers.Agree state.table)
    (found : state.table.get height = some row) :
    wp (hash answers height) (fun theirs final => theirs = row.hash ∧ Idle state final)
      (fun fault final => fault.isFatal = false ∧ Idle state final) state := by
  unfold hash
  rw [wp_bind, wp_get, wp_bind, wp_set, wp_lift]
  cases answered : answers.hash state.asked height with
  | error text => exact ⟨rfl, rfl, rfl, rfl, rfl⟩
  | ok theirs => exact ⟨agrees _ _ _ _ answered found, rfl, rfl, rfl, rfl⟩

theorem Follows.get_of_split (follows : Follows config.startHeight served chain db table)
    (split : chain = below ++ block :: above) :
    table.get block.height = some (block.row (numberAfter 0 below)) := by
  subst split
  have begins := follows.begins (append_ne_nil_of_right_ne_nil below (cons_ne_nil _ _))
  have height := follows.linked.height
  unfold BlockTable.get
  rw [begins, if_neg (by omega), follows.recs, recsFrom_append, height, Nat.add_sub_cancel_left,
    getElem?_append_right (by rw [length_recsFrom]), length_recsFrom, Nat.sub_self]
  rfl

/-- A pass that only waits, or finds its tip, writes no block. -/
theorem wp_unwind_behind {nodeTip : Nat}
    (follows : Follows config.startHeight served chain state.db state.table)
    (agrees : answers.Agree state.table) (above : chain = [] ∨ config.startHeight ≤ nodeTip)
    (within : chain = [] ∨ nodeTip < config.startHeight + chain.length) :
    wp (unwind answers nodeTip) (fun _ final => Idle state final ∧
      (chain = [] ∨ nodeTip + 1 = nextHeight config final.table))
      (fun fault final => fault.isFatal = false ∧ Idle state final) state := by
  unfold unwind
  rw [wp_bind]
  rcases eq_nil_or_concat' chain with rfl | ⟨init, last, rfl⟩
  · have empty := tip_nil follows.recs
    unfold waitIfBehind
    rw [wp_bind, wp_get, empty]
    rw [wp_pure, wp_bind, wp_get, congrArg length follows.recs]
    exact ⟨Idle.refl state, .inl rfl⟩
  have nonempty : init ++ [last] ≠ [] :=
    append_ne_nil_of_right_ne_nil init (cons_ne_nil _ _)
  replace within := within.resolve_left nonempty
  replace above := above.resolve_left nonempty
  have height := follows.linked.height
  rw [length_append, length_singleton] at within
  have begins := follows.begins nonempty
  rcases lt_or_ge nodeTip last.height with behind | level
  · -- The node's tip is in the table: it answers with the index's own hash, or not at all.
    obtain ⟨ours, isOurs⟩ : ∃ ours, state.table.get nodeTip = some ours := by
      unfold BlockTable.get
      rw [begins, if_neg (not_lt.mpr above), follows.recs]
      exact ⟨_, getElem?_eq_getElem (by
        rw [length_recsFrom, length_append, length_singleton]; omega)⟩
    unfold waitIfBehind
    rw [wp_bind, wp_get, follows.tip, isOurs]
    dsimp only
    rw [if_pos behind]
    refine wp_next (wp_hash_agree agrees isOurs) fun theirs asked answered => ?_
    unfold abortIf
    rw [if_pos answered.1]
    exact ⟨rfl, answered.2⟩
  have same : nodeTip = last.height := by omega
  subst same
  have tip := follows.tip
  have isTop := follows.get_of_split rfl
  unfold waitIfBehind
  rw [wp_bind, wp_get, tip, isTop]
  dsimp only
  rw [if_neg (lt_irrefl _), wp_pure, wp_bind, wp_get, congrArg length follows.recs,
    length_recsFrom, length_append, length_singleton]
  unfold unwindLoop
  rw [wp_bind, wp_get, tip]
  dsimp only
  unfold onNode
  rw [if_pos le_rfl, wp_bind]
  refine wp_next (wp_hash_agree agrees isTop) fun theirs asked answered => ?_
  rw [wp_pure, if_pos (by rw [decide_eq_true_iff]; exact answered.1)]
  refine ⟨answered.2, .inr ?_⟩
  unfold nextHeight
  rw [answered.2.table, tip]

/-! A node that has not reached the start height again is not recognised. -/

/-- The undo record of the tip, if it is there, is carried out. -/
theorem Follows.rollbackBatch_ok {last : ParsedBlock} {raw : List UInt8}
    (follows : Follows config.startHeight served (chain ++ [last]) db table)
    (isRaw : db.undo last.height = some raw)
    (number : numberAfter 0 chain + last.txs.length ≤ maxTxnum) :
    ∃ batch, db.rollbackBatch last.height (last.row (numberAfter 0 chain)) (rowsOf chain).tip =
      .ok batch := by
  obtain ⟨under, other, upper, undo, split, height, rfl, reverts⟩ := follows.undo _ _ isRaw
  obtain ⟨rfl, rfl, rfl⟩ := follows.linked.split split height
  rw [← follows.rows] at reverts
  obtain ⟨after, rolled⟩ := rollback_of_reverts isRaw reverts number
  obtain ⟨batch, batched, _⟩ := Db.batch_of_rollback rolled
  exact ⟨batch, batched⟩

theorem numberAfter_le :
    numberAfter 0 below + block.txs.length ≤ numberAfter 0 (below ++ block :: above) := by
  rw [numberAfter_append, numberAfter_cons]
  exact le_add_right _ _

/-- Of blocks that are all above the node's tip none is left, unless an undo record is missing. -/
theorem wp_unwindLoop_below {nodeTip turns : Nat}
    (follows : Follows config.startHeight served chain state.db state.table)
    (below : nodeTip < config.startHeight) (disk : ∀ call, answers.disk call = none)
    (fits : numberAfter 0 chain ≤ maxTxnum) (enough : chain.length ≤ turns) :
    wp (unwindLoop answers nodeTip turns)
      (fun _ final => Follows config.startHeight served [] final.db final.table)
      (fun fault _ => fault.isFatal = true) state := by
  refine wp_mono ((followsLaw config served nodeTip).wp_unwindLoop (raises_reachDisk disk)
    (fun _ answer => answer = false) (fun under block above split asked => ?_)
    (fun under block above split _ settled still => ?_) follows (append_nil _).symm nofun enough)
    (fun _ _ unwound => ?_) fun _ _ failed => failed.2
  · have height := (split ▸ follows.linked).height
    unfold onNode
    rw [if_neg (by omega)]
    rfl
  · cases isRaw : settled.db.undo block.height with
    | none =>
      intro fault missing
      rw [Db.rollbackBatch, isRaw] at missing
      cases missing
      rfl
    | some raw =>
      obtain ⟨batch, batched⟩ := still.rollbackBatch_ok isRaw ((split ▸ numberAfter_le).trans fits)
      rw [batched]
      exact resultRaises_ok
  · obtain ⟨kept, _, _, shorter, _, top⟩ := unwound
    rcases eq_nil_or_concat' kept with rfl | ⟨init, last, rfl⟩
    · exact shorter
    · cases top last getLast?_concat

/-- A pass against a node below the start height empties the index or meets a fatal fault. -/
theorem wp_step_below {tip : UInt32}
    (follows : Follows config.startHeight served chain state.db state.table)
    (isTip : answers.tip = .ok tip) (below : tip.toNat < config.startHeight)
    (nonempty : chain ≠ []) (disk : ∀ call, answers.disk call = none)
    (fits : numberAfter 0 chain ≤ maxTxnum) :
    wp (step answers config) (fun _ final => final.table.recs = [])
      (fun fault final => fault.isFatal = true ∨ final.table.recs = []) state := by
  have unwinds : wp (unwind answers tip.toNat)
      (fun _ final => Follows config.startHeight served [] final.db final.table)
      (fun fault _ => fault.isFatal = true) state := by
    have unseen : state.table.get tip.toNat = none := by
      unfold BlockTable.get
      rw [follows.begins nonempty, if_pos below]
    unfold unwind waitIfBehind
    rw [wp_bind, wp_bind, wp_get, unseen]
    cases state.table.tip with
    | none => exact wp_unwindLoop_below follows below disk fits (by
        rw [follows.recs, length_recsFrom])
    | some top => exact wp_unwindLoop_below follows below disk fits (by
        rw [follows.recs, length_recsFrom])
  unfold step
  rw [isTip, wp_bind, wp_lift]
  change wp (unwind answers tip.toNat >>= _) _ _ _
  refine wp_seq unwinds (fun _ unwound empty => ?_) fun _ _ fatal => .inl fatal
  have gone : unwound.table.recs = [] := empty.recs
  have done : lastHeight config tip.toNat < nextHeight config unwound.table := by
    have := lastHeight_le config tip.toNat
    unfold nextHeight
    rw [tip_nil gone]
    dsimp only
    omega
  rw [wp_bind, wp_get]
  rw [if_pos done]
  generalize tip.toNat - maxReorgDepth = durableFrom
  split
  · rw [wp_bind]
    unfold enterFollow
    rw [wp_bind, wp_get]
    split
    · exact gone
    · rw [wp_bind, wp_set]
      refine wp_seq (relates_iff_wp.mp (idle_reachDisk answers) _)
        (fun _ _ idle => ?_) fun _ _ idle => ?_
      · exact (congrArg BlockTable.recs idle.table).trans gone
      · exact .inr ((congrArg BlockTable.recs idle.table).trans gone)
  · exact gone

/-- A node on the index's own chain costs the index no block, and no fatal fault, if the index is
empty or the node's tip is not below the start height; otherwise, with a working disk, the pass
takes back every block or meets a fatal fault. -/
theorem catching_up_keeps_blocks (config : Config) (served : ParsedBlock → Prop)
    (chain : List ParsedBlock) (state : State) (answers : Answers) (tip : UInt32)
    (follows : Follows config.startHeight served chain state.db state.table)
    (isTip : answers.tip = .ok tip) (agrees : answers.Agree state.table)
    (within : chain = [] ∨ tip.toNat < config.startHeight + chain.length) :
    (chain = [] ∨ config.startHeight ≤ tip.toNat →
      (chain = [] ∨ ((finalState (step answers config) state).db = state.db ∧
        (finalState (step answers config) state).table = state.table)) ∧
      ∀ fault, raised? (step answers config) state = some fault → fault.isFatal = false) ∧
    (chain ≠ [] → tip.toNat < config.startHeight → (∀ call, answers.disk call = none) →
      numberAfter 0 chain ≤ maxTxnum →
      (∃ fault, raised? (step answers config) state = some fault ∧ fault.isFatal = true) ∨
        (finalState (step answers config) state).table.recs = []) := by
  refine ⟨fun above => ?_, fun nonempty below disk fits => ?_⟩
  swap
  · have ended := wp_step_below follows isTip below nonempty disk fits
    unfold wp at ended
    unfold raised? finalState
    cases result : step answers config state with
    | ok value final =>
      rw [result] at ended
      exact .inr ended
    | error fault final =>
      rw [result] at ended
      rcases ended with fatal | gone
      · exact .inl ⟨fault, rfl, fatal⟩
      · exact .inr gone
  have unwinds := wp_unwind_behind follows agrees above within
  refine ⟨?_, mild_step isTip (wp_mono unwinds (fun _ _ _ => trivial) fun _ _ mild => mild.1)⟩
  by_cases empty : chain = []
  · exact .inl empty
  refine .inr ?_
  refine finalState_both ?_
  unfold step
  rw [isTip, wp_bind, wp_lift]
  change wp (unwind answers tip.toNat >>= _) _ _ _
  refine wp_seq unwinds (fun _ unwound kept => ?_) fun _ _ mild => ⟨mild.2.db, mild.2.table⟩
  have done : lastHeight config tip.toNat < nextHeight config unwound.table := by
    have := lastHeight_le config tip.toNat
    have := kept.2.resolve_left empty
    omega
  rw [wp_bind, wp_get]
  rw [if_pos done]
  generalize tip.toNat - maxReorgDepth = durableFrom
  split
  · rw [wp_bind]
    have law := followsLaw config served 0
    unfold enterFollow
    rw [wp_bind, wp_get]
    split
    · exact ⟨kept.1.db, kept.1.table⟩
    rw [wp_bind, wp_set]
    refine wp_seq (relates_iff_wp.mp (idle_reachDisk answers) _)
      (fun _ _ idle => ?_) fun _ _ idle => ?_
    · exact ⟨idle.db.trans kept.1.db, idle.table.trans kept.1.table⟩
    · exact ⟨idle.db.trans kept.1.db, idle.table.trans kept.1.table⟩
  · exact ⟨kept.1.db, kept.1.table⟩

namespace BehindSample

/-- Two blocks served by a node whose tip is `tip`. -/
def serving (tip : UInt32) : Answers :=
  ⟨.ok tip, fun _ _ => .error "down", [⟨false, .ok oldest⟩, ⟨false, .ok spender⟩], fun _ => none⟩

/-- A node that has not reached the start height again. -/
def behind : Answers := ⟨.ok 5, fun _ _ => .error "unasked", [], fun _ => none⟩

/-- A node at the first of the two blocks. -/
def lagging : Answers :=
  ⟨.ok 0, fun _ height => if height = 0 then .ok oldest.hash else .error "beyond", [],
    fun _ => none⟩

/-- The index of the two blocks from height 0. -/
def followed : State := finalState (step (serving 1) ⟨0, none⟩) State.empty

def indexed (tip : UInt32) : State := run ⟨10, none⟩ [serving tip] State.empty

end BehindSample

open BehindSample

theorem table_followed :
    followed.table = ⟨0, [⟨oldest.hash, 0, 0, 1⟩, ⟨spender.hash, 1, 1, 1⟩]⟩ := by
  decide +kernel

theorem reached_followed :
    Reached ⟨0, none⟩ (servedBy reorgPasses) Db.empty (seenTip 0 (serving 1)) followed :=
  .pass (serving 1) .fresh fun item mem _ isBody _ =>
    ⟨serving 1, mem_cons_self, item, mem, isBody⟩

theorem catching_up_keeps_blocks_lagging :
    (finalState (step lagging ⟨0, none⟩) followed).table = followed.table ∧
      ∀ fault, raised? (step lagging ⟨0, none⟩) followed = some fault → fault.isFatal = false := by
  obtain ⟨chain, sound⟩ := reached_followed.sound validChains_reorgPasses
  have length : chain.length = 2 := by
    rw [← length_recsFrom 0 chain, ← sound.follows.recs, table_followed]
    rfl
  have agrees : lagging.Agree followed.table := by
    rw [table_followed]
    intro call height theirs row answered found
    unfold lagging at answered
    dsimp only at answered
    split at answered
    next zero =>
      subst zero
      cases found
      exact (Except.ok.inj answered).symm
    · cases answered
  have within : (0 : UInt32).toNat < 0 + chain.length := by
    rw [length]
    decide
  have kept := catching_up_keeps_blocks ⟨0, none⟩ (servedBy reorgPasses) chain followed lagging 0
    sound.follows rfl agrees (.inr within)
  replace kept := kept.1 (.inr (zero_le _))
  refine ⟨(kept.1.resolve_left fun empty => ?_).2, kept.2⟩
  rw [empty] at length
  cases length

/-- Below the start height the table has no row to recognise the node by: the blocks are taken
back. -/
theorem catching_up_discards :
    (indexed 11).table.recs = [⟨oldest.hash, 0, 0, 1⟩, ⟨spender.hash, 1, 1, 1⟩] ∧
      (finalState (step behind ⟨10, none⟩) (indexed 11)).table.recs = [] ∧
      (indexed 400).table.recs = [⟨oldest.hash, 0, 0, 1⟩, ⟨spender.hash, 1, 1, 1⟩] ∧
      raised? (step behind ⟨10, none⟩) (indexed 400) = some (.noUndo 11) := by
  decide +kernel

end Behind

/-! ## Unwinding -/

section

variable {config : Config} {served : ParsedBlock → Prop} {base : Db} {depth nodeTip : Nat}
  {answers : Answers} {chain : List ParsedBlock} {state : State} {allowed : Fault → Prop}

theorem Follows.block_of_get (follows : Follows config.startHeight served chain db table)
    (found : table.get height = some row) :
    ∃ below block above, chain = below ++ block :: above ∧ block.height = height ∧
      row = block.row (numberAfter 0 below) := by
  unfold BlockTable.get at found
  split at found
  · cases found
  next high =>
  rw [follows.recs] at found
  obtain ⟨inside, isRow⟩ := List.getElem?_eq_some_iff.mp found
  rw [length_recsFrom] at inside
  have cut := take_append_drop (height - table.start) chain
  rw [drop_eq_getElem_cons inside] at cut
  have nonempty : chain ≠ [] := ne_nil_of_length_pos (by omega)
  have begins := follows.begins nonempty
  have linked := follows.linked
  rw [← cut] at linked found
  have own := linked.height
  have size : (chain.take (height - table.start)).length = height - table.start :=
    length_take_of_le (le_of_lt inside)
  rw [recsFrom_append, getElem?_append_right (by rw [length_recsFrom, size]),
    length_recsFrom, size, Nat.sub_self] at found
  refine ⟨_, _, _, cut.symm, by rw [own, size]; omega, ?_⟩
  exact (Option.some.inj found).symm

/-- A block's undo record is there, and is that of its row. -/
theorem Sound.undo_matches
    (sound : Sound config served base depth chain state) (found : state.table.get height = some row)
    (deep : depth ≤ height) :
    ∃ raw undo, state.db.undo height = some raw ∧ Undo.decode raw = .ok undo ∧
      (undo.firstTxnum, undo.nTxs) = (row.firstTxnum, row.nTxs) := by
  obtain ⟨below, block, above, split, rfl, rfl⟩ := sound.follows.block_of_get found
  have mem : block ∈ chain := by
    rw [split]
    exact mem_append_right _ mem_cons_self
  obtain ⟨raw, isRaw⟩ := sound.covered block mem deep
  obtain ⟨below', block', above', undo, split', height, rfl, reverts⟩ :=
    sound.follows.undo _ _ isRaw
  refine ⟨_, undo, isRaw, decode_encode reverts.fits, ?_⟩
  have first := (split ▸ sound.follows.linked).height
  have second := (split' ▸ sound.follows.linked).height
  obtain ⟨rfl, rest⟩ := append_inj (split'.symm.trans split) (by omega)
  cases rest
  rw [reverts.firstTxnum, reverts.nTxs]
  rfl

/-- The chains fork within the depth: at a block of the index, or below all of them. -/
def ForksWithin (depth : Nat) (config : Config) (table : BlockTable)
    (shared : Nat → BlockRec → Prop) : Prop :=
  depth ≤ config.startHeight ∨ table.recs = [] ∨
    ∃ fork row, depth ≤ fork ∧ table.get fork = some row ∧ shared fork row

theorem Follows.deep_of_forks {shared : Nat → BlockRec → Prop}
    (follows : Follows config.startHeight served chain db table)
    (forks : ForksWithin depth config table shared) (split : chain = below ++ block :: above)
    (absent : ∀ other ∈ block :: above, ∀ row, table.get other.height = some row →
      ¬ shared other.height row) : depth ≤ block.height := by
  have own := (split ▸ follows.linked).height
  rcases forks with low | empty | ⟨fork, row, deep, found, isShared⟩
  · omega
  · have length := congrArg length follows.recs
    rw [empty, length_recsFrom, split, length_append, length_cons, length_nil] at length
    omega
  obtain ⟨under, other, upper, split', rfl, _⟩ := follows.block_of_get found
  have height := (split' ▸ follows.linked).height
  by_contra higher
  have there : (below ++ block :: above)[under.length]? = some other := by
    rw [← split, split', getElem?_append_right le_rfl, Nat.sub_self]
    rfl
  rw [getElem?_append_right (by omega)] at there
  exact absent other (mem_of_getElem? there) row found isShared

/-- Unwinding to a fork point within the depth is not fatal. -/
theorem Sound.mild_unwind (low : nodeTip - maxReorgDepth ≤ depth)
    (sound : Sound config served base depth chain state)
    (forks : ForksWithin depth config state.table fun height row => height ≤ nodeTip ∧
      ∀ call theirs, answers.hash call height = .ok theirs → theirs = row.hash) :
    wp (unwind answers nodeTip) (fun _ _ => True) (fun fault _ => fault.isFatal = false) state := by
  -- A block the node answers for is never told to be missing.
  refine wp_mono ((soundLaw low).wp_unwind (mild_reachDisk answers)
    (fun block answer => ∀ row, state.table.get block.height = some row →
      (block.height ≤ nodeTip ∧ ∀ call theirs,
        answers.hash call block.height = .ok theirs → theirs = row.hash) → answer = true)
    (fun below block above split asked => ?_)
    (fun below block above split missing settled kept => ?_) sound
    (mild_waitIfBehind answers nodeTip state)) (fun _ _ _ => trivial) fun _ _ failed => failed.2
  · have found := sound.follows.get_of_split split
    by_cases shares : block.height ≤ nodeTip ∧ ∀ call theirs,
        answers.hash call block.height = .ok theirs → theirs = block.hash
    · unfold onNode hash
      rw [if_pos shares.1, wp_bind, wp_bind, wp_get, wp_bind, wp_set, wp_lift]
      cases answered : answers.hash asked.asked block.height with
      | error text => rfl
      | ok theirs => exact fun _ _ _ => decide_eq_true (shares.2 _ _ answered)
    refine wp_imp (mild_onNode answers nodeTip _ _ asked) fun _ _ _ row isRow isShared => ?_
    cases found.symm.trans isRow
    exact absurd isShared shares
  refine mildResult_rollbackBatch
    (kept.covered block (mem_append_right _ (mem_singleton_self block)) ?_)
  exact sound.follows.deep_of_forks forks split fun other mem row found isShared =>
    absurd (missing other mem row found isShared) false_ne_true

/-- The node answers from the chain `node`, and every write reaches the disk. -/
structure Answers.Honest (answers : Answers) (node : Nat → BlockHash) : Prop where
  hash : ∀ call height, answers.hash call height = .ok (node height)
  disk : ∀ call, answers.disk call = none

def Shared (nodeTip : Nat) (node : Nat → BlockHash) (block : ParsedBlock) : Prop :=
  block.height ≤ nodeTip ∧ node block.height = block.hash

variable {node : Nat → BlockHash}

theorem Answers.Honest.wp_hash (honest : answers.Honest node) (height : Nat) (state : State) :
    wp (Index.hash answers height) (fun theirs _ => theirs = node height)
      (fun _ _ => False) state := by
  unfold Index.hash
  rw [wp_bind, wp_get, wp_bind, wp_set, honest.hash]
  rfl

theorem Answers.Honest.wp_onNode (honest : answers.Honest node) (block : ParsedBlock) (first : Nat)
    (state : State) : wp (onNode answers nodeTip block.height (block.row first))
      (fun answer _ => answer = true ↔ Shared nodeTip node block) (fun _ _ => False) state := by
  unfold onNode
  split
  next reached =>
    refine wp_next (honest.wp_hash block.height state) fun theirs _ same => ?_
    rw [wp_pure, decide_eq_true_iff, same]
    exact ⟨fun isOurs => ⟨reached, isOurs⟩, fun shared => shared.2⟩
  next beyond => exact ⟨nofun, fun shared => absurd shared.1 beyond⟩

/-- The node is not on the index's own chain, behind its tip. -/
def NotBehind (nodeTip : Nat) (node : Nat → BlockHash) (table : BlockTable) : Prop :=
  ∀ height top ours, table.tip = some (height, top) → nodeTip < height →
    table.get nodeTip = some ours → node nodeTip ≠ ours.hash

theorem Answers.Honest.wp_waitIfBehind (honest : answers.Honest node)
    (ahead : NotBehind nodeTip node state.table) :
    wp (waitIfBehind answers nodeTip) (fun _ _ => True) (fun _ _ => False) state := by
  unfold waitIfBehind
  rw [wp_bind, wp_get]
  split
  next height top ours isTip isOurs =>
    split
    next behind =>
      refine wp_next (honest.wp_hash nodeTip state) fun theirs asked same => ?_
      unfold abortIf
      rw [if_neg (same ▸ ahead height top ours isTip behind isOurs)]
      trivial
    · trivial
  · trivial

/-- With an honest node and a working disk the index gives up exactly the blocks above the
last one the node has. -/
theorem Sound.wp_unwind (sound : Sound config served base depth chain state)
    (low : nodeTip - maxReorgDepth ≤ depth) (honest : answers.Honest node)
    (ahead : NotBehind nodeTip node state.table) (fits : numberAfter 0 chain ≤ maxTxnum)
    (forks : ForksWithin depth config state.table fun height row =>
      height ≤ nodeTip ∧ node height = row.hash) : wp (unwind answers nodeTip)
      (fun _ final => ∃ kept rest, chain = kept ++ rest ∧
        Sound config served base depth kept final ∧ (∀ block ∈ rest, ¬ Shared nodeTip node block) ∧
        ∀ last, kept.getLast? = some last → Shared nodeTip node last) (fun _ _ => False) state := by
  refine wp_mono ((soundLaw low).wp_unwind (raises_reachDisk honest.disk)
    (fun block answer => answer = true ↔ Shared nodeTip node block)
    (fun below block above _ asked => honest.wp_onNode block _ asked)
    (fun below block above split missing settled held => ?_) sound (honest.wp_waitIfBehind ahead))
    (fun _ final unwound => ?_) fun _ _ failed => failed.2
  · have unshared : ∀ other ∈ block :: above, ¬ Shared nodeTip node other :=
      fun other mem shared => absurd ((missing other mem).mpr shared) false_ne_true
    have deep : depth ≤ block.height := by
      refine sound.follows.deep_of_forks forks split fun other mem row found isShared => ?_
      obtain ⟨under, upper, splitOther⟩ := append_of_mem mem
      have place : chain = below ++ under ++ other :: upper := by
        rw [split, splitOther, append_assoc]
      cases found.symm.trans (sound.follows.get_of_split place)
      exact unshared other mem isShared
    obtain ⟨raw, isRaw⟩ :=
      held.covered block (mem_append_right _ (mem_singleton_self block)) deep
    obtain ⟨batch, batched⟩ :=
      held.follows.rollbackBatch_ok isRaw ((split ▸ numberAfter_le).trans fits)
    rw [batched]
    exact resultRaises_ok
  obtain ⟨kept, rest, split, shorter, missing, top⟩ := unwound
  exact ⟨kept, rest, split, shorter, fun block mem shared =>
      absurd ((missing block mem).mpr shared) false_ne_true,
    fun last isLast => (top last isLast).mp rfl⟩

end

/-- Every block within the depth of the highest tip seen has the undo record of its row, and a
reorganisation that forks there is unwound. -/
theorem undo_covers_depth (config : Config) (served : ParsedBlock → Prop) (base : Db)
    (highest : Nat) (state : State) (valid : ValidChains config.startHeight served)
    (reached : Reached config served base highest state) :
    (∀ height row, state.table.get height = some row → highest - maxReorgDepth ≤ height →
      ∃ raw undo, state.db.undo height = some raw ∧ Undo.decode raw = .ok undo ∧
        (undo.firstTxnum, undo.nTxs) = (row.firstTxnum, row.nTxs)) ∧
    ∀ (answers : Answers) (tip : UInt32), answers.tip = .ok tip →
      (ForksWithin (seenTip highest answers - maxReorgDepth) config state.table fun height row =>
        height ≤ tip.toNat ∧
          ∀ call theirs, answers.hash call height = .ok theirs → theirs = row.hash) →
      (∀ fault, raised? (step answers config) state = some fault → fault.isFatal = false) ∧
      ∀ node, answers.Honest node → NotBehind tip.toNat node state.table →
        state.table.nextTxnum ≤ maxTxnum → raised? (unwind answers tip.toNat) state = none ∧
        (∀ height top, (finalState (unwind answers tip.toNat) state).table.tip =
          some (height, top) → height ≤ tip.toNat ∧ node height = top.hash) ∧
        ∀ height row, state.table.get height = some row → height ≤ tip.toNat →
          node height = row.hash →
          (finalState (unwind answers tip.toNat) state).table.get height = some row := by
  obtain ⟨chain, sound⟩ := reached.sound valid
  refine ⟨fun height row found deep => sound.undo_matches found deep,
    fun answers tip isTip forks => ?_⟩
  have isSeen : seenTip highest answers = max highest tip.toNat := by
    unfold seenTip
    rw [isTip]
  have low : tip.toNat - maxReorgDepth ≤ seenTip highest answers - maxReorgDepth := by
    rw [isSeen]
    exact Nat.sub_le_sub_right (Nat.le_max_right _ _) _
  have deeper := sound.mono (Nat.sub_le_sub_right
    (isSeen ▸ Nat.le_max_left highest tip.toNat) maxReorgDepth)
  refine ⟨mild_step isTip (deeper.mild_unwind low forks), fun node honest ahead fits => ?_⟩
  have shares : ForksWithin (seenTip highest answers - maxReorgDepth) config state.table
      fun height row => height ≤ tip.toNat ∧ node height = row.hash := by
    rcases forks with low | empty | ⟨fork, row, deep, found, reachedTip, agrees⟩
    · exact .inl low
    · exact .inr (.inl empty)
    · exact .inr (.inr ⟨fork, row, deep, found, reachedTip, agrees 0 _ (honest.hash 0 _)⟩)
  rw [sound.follows.nextTxnum] at fits
  have unwound := deeper.wp_unwind low honest ahead fits shares
  have returned : raised? (unwind answers tip.toNat) state = none := by
    cases ended : raised? (unwind answers tip.toNat) state with
    | none => rfl
    | some fault => exact (fail_of_raised unwound ended).elim
  obtain ⟨kept, rest, rfl, shorter, missing, top⟩ := post_of_returned unwound returned
  refine ⟨returned, fun height row isTop => ?_, fun height row found reachedTip isNode => ?_⟩
  · rcases eq_nil_or_concat' kept with rfl | ⟨init, last, rfl⟩
    · rw [tip_nil shorter.follows.recs] at isTop
      cases isTop
    cases shorter.follows.tip.symm.trans isTop
    exact top last getLast?_concat
  obtain ⟨below, block, above, split, rfl, rfl⟩ := sound.follows.block_of_get found
  have mem : block ∈ kept ++ rest := by
    rw [split]
    exact mem_append_right _ mem_cons_self
  have isKept : block ∈ kept := (mem_append.mp mem).resolve_right fun gone =>
    missing block gone ⟨reachedTip, isNode⟩
  obtain ⟨under, upper, rfl⟩ := append_of_mem isKept
  have place : under ++ block :: upper ++ rest = under ++ block :: (upper ++ rest) := by
    rw [append_assoc, cons_append]
  rw [shorter.follows.get_of_split rfl, ← found]
  exact (sound.follows.get_of_split place).symm

namespace BehindSample

/-- A node on the rival block. -/
def forked : Answers :=
  ⟨.ok 1, fun _ height => .ok (if height = 0 then oldest.hash else rival.hash),
    [⟨false, .ok rival⟩], fun _ => none⟩

end BehindSample

open BehindSample

theorem undo_covers_depth_forked :
    (∃ raw undo, followed.db.undo 1 = some raw ∧ Undo.decode raw = .ok undo ∧
      (undo.firstTxnum, undo.nTxs) = (1, 1)) ∧ raised? (unwind forked 1) followed = none := by
  have covers := undo_covers_depth ⟨0, none⟩ (servedBy reorgPasses) Db.empty _ _
    validChains_reorgPasses reached_followed
  have first : seenTip 0 (serving 1) = 1 := rfl
  have second : seenTip 1 forked = 1 := rfl
  have shallow : 1 - maxReorgDepth ≤ 0 := sub_le_of_le_add (by decide)
  rw [table_followed, first] at covers
  refine ⟨covers.1 1 ⟨spender.hash, 1, 1, 1⟩ rfl (shallow.trans (zero_le 1)), ?_⟩
  have unwound := (covers.2 forked 1 rfl (.inr (.inr
    ⟨0, ⟨oldest.hash, 0, 0, 1⟩, second ▸ shallow, rfl, zero_le _,
      fun call theirs answered => (Except.ok.inj answered).symm⟩))).2
  refine (unwound (fun height => if height = 0 then oldest.hash else rival.hash)
    ⟨fun _ _ => rfl, fun _ => rfl⟩ ?_ (by decide)).1
  intro height top ours isTip behind
  cases isTip
  exact absurd behind (by decide)

end Fortis.Index
