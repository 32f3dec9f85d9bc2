import Fortis.Lib.Repeat
import Fortis.Lsp.Events

/-!
# Handling an event twice

Each ledger operation of a handler is shown to be repeatable: what makes a second run do nothing is
named (the credit is entered, the revenue is recorded, the hold is gone), and an operation that
fails fails the second time for the same reason.  The handlers follow by composition.
-/

namespace Fortis.Lsp

open Fortis.Core Lib List Desk

/-! ## Ledger operations that may be repeated -/

/-- The balance can be changed by `delta`. -/
def Ledger.Takes (ledger : Ledger) (node : String) (delta : Int) : Prop :=
  ∀ row, ledger.accounts.get? node = some row → 0 ≤ (row.balance.add delta).value

def recorded (ledger : Ledger) (kind : RevenueKind) (reference : String) : Bool :=
  ledger.revenue.any fun old => old.kind = kind.asStr ∧ old.reference = reference

/-- `close` closes the hold, or fails for a reason that does not depend on the time. -/
def Closes (id : String) (close : Nat → LedgerM PUnit) (able : Ledger → HoldRow → Prop) : Prop :=
  ∀ ledger row, ledger.holds.get? id = some row → wp (close row.amountMsat)
    (fun _ after => able ledger row ∧ after.holds = ledger.holds.delete id)
    (fun _ after => ¬ able ledger row ∧ after = ledger) ledger

variable {able : Ledger → HoldRow → Prop} {close : Nat → LedgerM PUnit} {id node reference : String}

section Leaves

variable {ledger : Ledger}

theorem wp_addBalance_takes {delta : Int} {post : PUnit → Ledger → Prop}
    {fail : LedgerError → Ledger → Prop}
    (written : ledger.Takes node delta → ∀ accounts, post ⟨⟩ { ledger with accounts })
    (refused : ¬ ledger.Takes node delta → ∀ e, fail e ledger) :
    wp (addBalance node delta) post fail ledger := by
  unfold addBalance
  rw [wp_bind, wp_get]
  rcases found : ledger.accounts.get? node with _ | row
  · exact written (fun row isRow => absurd (found.symm.trans isRow) nofun) _
  simp only [wp_bind, wp_abortIf]
  split
  next negative =>
    exact refused (fun takes => absurd (takes row found) (not_le.mpr negative)) _
  next enough =>
  refine written (fun other isOther => ?_) _
  cases found.symm.trans isOther
  exact not_lt.mp enough

theorem credited_entered (node : String) (hash : Fixed 32) (seq atSecs : Nat)
    (amount : Int) (fee : Nat) : credited (ledger.entered
      ⟨seq, node, atSecs, .received, amount, fee, some hash⟩) node hash = true := by
  unfold credited Ledger.entered
  simp

variable (now again : Nat) (owner : Option PublicKey) (kind : RevenueKind) (amountMsat : Nat)
  (name : HoldName) (arrived : Bool)

/-- A credit is written once; it fails if the balance cannot take it. -/
theorem wp_credit (node : PublicKey) (hash : Fixed 32) (amount : Nat) :
    wp (credit now node hash amount) (fun _ after => credited after (key node) hash = true ∧
        (credited ledger (key node) hash = true → after = ledger) ∧
        (credited ledger (key node) hash = true ∨ ledger.Takes (key node) (asI64 amount)))
      (fun _ after => after = ledger ∧ credited ledger (key node) hash = false ∧
        ¬ ledger.Takes (key node) (asI64 amount)) ledger := by
  rw [credit, wp_transaction, wp_bind, insertCredit, wp_bind, wp_get]
  cases known : credited ledger (key node) hash with
  | true => exact ⟨known, fun _ => rfl, .inl rfl⟩
  | false =>
    simp only [Bool.false_eq_true, if_false, wp_bind, wp_insertEntry, wp_pure, if_true]
    refine wp_addBalance_takes (fun takes accounts => ?_) fun refuses _ =>
      ⟨trivial, trivial, refuses⟩
    exact ⟨credited_entered .., by simp, .inr takes⟩

theorem once_credit (node : PublicKey) (hash : Fixed 32) (amount : Nat) :
    Once (fun ledger : Ledger => ledger) (discard (credit now node hash amount))
      (discard (credit again node hash amount))
      fun _ ledger => credited ledger (key node) hash = true where
  ends ledger := by
    rw [wp_discard]
    refine wp_mono (wp_credit now node hash amount) (fun _ _ spec => spec.1)
      fun _ after spec state looks => ?_
    obtain ⟨same, unknown, refuses⟩ := spec
    cases looks.trans same
    rw [wp_discard]
    refine wp_mono (wp_credit again node hash amount) (fun _ _ spec => ?_)
      fun _ _ spec => spec.1.trans same.symm
    rcases spec.2.2 with known | takes
    · exact Bool.noConfusion (known.symm.trans unknown)
    · exact refuses takes
  quiet _ ledger known state looks := by
    subst looks
    rw [wp_discard]
    refine wp_mono (wp_credit again node hash amount)
      (fun _ _ spec => ⟨rfl, spec.2.1 known⟩) fun _ _ spec => ?_
    exact Bool.noConfusion (known.symm.trans spec.2.1)

variable (hash : Fixed 32)

theorem once_creditOwner (amount : Nat) :
    Once (fun ledger : Ledger => ledger) (creditOwner now owner hash amount)
      (creditOwner again owner hash amount) fun _ ledger => ∀ node, owner = some node →
        credited ledger (key node) hash = true := by
  rcases owner with _ | node
  · refine (Once.pure (⟨⟩ : PUnit)).congr fun _ _ => ⟨fun _ node never => ?_, fun _ => rfl⟩
    cases never
  refine (once_credit now again node hash amount).congr fun _ ledger =>
    ⟨fun known other same => ?_, fun known => known node rfl⟩
  cases same
  exact known

theorem once_insertRevenue (node : Option String) (reference : String) :
    Once (fun ledger : Ledger => ledger) (insertRevenue now kind amountMsat node reference)
      (insertRevenue again kind amountMsat node reference)
      fun _ ledger => recorded ledger kind reference = true where
  ends ledger := by
    change recorded { ledger with revenue := addRevenue ledger.revenue _ } kind reference = true
    unfold recorded addRevenue
    split
    next known => exact known
    · simp
  quiet _ ledger known state looks := by
    subst looks
    refine ⟨rfl, ?_⟩
    change { state with revenue := addRevenue state.revenue _ } = state
    exact congrArg (fun revenue => { state with revenue }) (if_pos known)

theorem once_closeHeld {again : Nat → LedgerM PUnit}
    (one : Closes id close able) (two : Closes id again able) :
    Once (fun ledger : Ledger => ledger) (closeHeld id close) (closeHeld id again)
      fun _ ledger => ledger.holds.get? id = none where
  ends ledger := by
    unfold closeHeld
    rw [wp_bind, wp_get]
    rcases found : ledger.holds.get? id with _ | row
    · exact found
    refine wp_mono (one ledger row found) (fun _ after spec => ?_)
      fun _ after spec state looks => ?_
    · rw [spec.2, Table.get?_delete, if_pos rfl]
    obtain ⟨unable, same⟩ := spec
    cases looks.trans same
    rw [wp_bind, wp_get, found]
    exact wp_mono (two state row found) (fun _ _ spec => unable spec.1)
      fun _ _ spec => spec.2.trans same.symm
  quiet _ ledger gone state looks := by
    subst looks
    unfold closeHeld
    rw [wp_bind, wp_get, gone]
    exact ⟨rfl, rfl⟩

theorem once_feeInvoicePaid (amount : Nat) :
    Once (fun ledger : Ledger => ledger) (feeInvoicePaid now owner hash amount)
      (feeInvoicePaid again owner hash amount) fun _ ledger => owner ≠ none →
        recorded ledger .transferFee (hexEncode hash.val) = true := by
  rcases owner with _ | node
  · exact (Once.pure (⟨⟩ : PUnit)).congr fun _ _ => ⟨fun _ never => (never rfl).elim, fun _ => rfl⟩
  exact (once_insertRevenue now again _ _ _ _).congr fun _ _ =>
    ⟨fun known _ => known, fun known => known nofun⟩

theorem once_recordRevenue
    (node : Option PublicKey) {later : String} (same : amountMsat ≠ 0 → reference = later) :
    Once (fun ledger : Ledger => ledger) (recordRevenue now kind amountMsat node reference)
      (recordRevenue again kind amountMsat node later)
      fun _ ledger => amountMsat ≠ 0 → recorded ledger kind later = true := by
  unfold recordRevenue
  split
  next zero => exact (Once.pure (⟨⟩ : PUnit)).congr fun _ _ =>
    ⟨fun _ never => (never zero).elim, fun _ => rfl⟩
  next some =>
  rw [same some]
  exact (once_insertRevenue now again _ _ _ _).congr fun _ _ =>
    ⟨fun known _ => known, fun known => known some⟩

theorem closes_closeWithShare (id : String) (kind : EntryKind) (fee : Nat → Nat)
    (hash : Option (Fixed 32)) (share : RevenueKind) (reference : String) :
    Closes id (fun held => closeWithShare now id kind (fee held) hash share reference)
      fun ledger row => ledger.Takes row.node (-(asI64 row.amountMsat : Int)) := by
  intro ledger row found
  dsimp only
  rw [closeWithShare, wp_transaction, wp_bind, wp_takeHold_found found]
  simp only [wp_bind]
  refine wp_addBalance_takes (fun takes accounts => ?_) fun refuses _ => ⟨refuses, trivial⟩
  rw [wp_insertEntry]
  split
  · exact ⟨takes, rfl⟩
  · exact ⟨takes, rfl⟩

theorem closes_settleHold (id : String) (spent : HoldRow → Nat) (fee : Nat)
    (hash : Option (Fixed 32)) (row : HoldRow) (found : ledger.holds.get? id = some row) :
    wp (settleHold now id (spent row) fee hash)
      (fun _ after => (0 < min (spent row) row.amountMsat →
        ledger.Takes row.node (-(asI64 (min (spent row) row.amountMsat) : Int))) ∧
        after.holds = ledger.holds.delete id)
      (fun _ after => ¬ (0 < min (spent row) row.amountMsat →
        ledger.Takes row.node (-(asI64 (min (spent row) row.amountMsat) : Int))) ∧
        after = ledger) ledger := by
  rw [settleHold, wp_transaction, wp_bind, wp_takeHold_found found]
  dsimp only
  split
  next spends =>
    rw [wp_bind]
    refine wp_addBalance_takes (fun takes accounts => ⟨fun _ => takes, rfl⟩) fun refuses _ =>
      ⟨fun takes => refuses (takes spends), rfl⟩
  next spendsNothing => exact ⟨fun spends => absurd spends spendsNothing, rfl⟩

def resolvedMsat (feeMsat : Option Nat) (row : HoldRow) : Nat :=
  match feeMsat with
  | some fee => min (row.baseMsat + fee) u64Max
  | none => 0

theorem closes_resolved (feeMsat : Option Nat) :
    Closes (sendHoldId hash) (fun _ => onPaymentResolved now hash feeMsat)
      fun ledger row => 0 < min (resolvedMsat feeMsat row) row.amountMsat →
        ledger.Takes row.node (-(asI64 (min (resolvedMsat feeMsat row) row.amountMsat) : Int)) := by
  intro ledger row found
  unfold onPaymentResolved
  rw [wp_bind, wp_get, found]
  rcases feeMsat with _ | fee
  · exact closes_settleHold now _ (resolvedMsat none) 0 none row found
  dsimp only
  rw [settleSend, wp_bind, wp_get, found]
  exact closes_settleHold now _ (resolvedMsat (some fee)) fee _ row found

theorem closeHeld_resolved (feeMsat : Option Nat) :
    closeHeld (sendHoldId hash) (fun _ => onPaymentResolved now hash feeMsat) =
      onPaymentResolved now hash feeMsat := by
  funext ledger
  unfold closeHeld onPaymentResolved
  rw [read_bind, read_bind]
  cases found : ledger.holds.get? (sendHoldId hash) with
  | none => rfl
  | some row =>
    dsimp only
    rw [read_bind, found]

theorem once_resolved (fee : Option Nat) :
    Once (fun ledger : Ledger => ledger) (onPaymentResolved now hash fee)
      (onPaymentResolved again hash fee)
      fun _ ledger => ledger.holds.get? (sendHoldId hash) = none := by
  have once := once_closeHeld (closes_resolved now hash fee) (closes_resolved again hash fee)
  rw [closeHeld_resolved, closeHeld_resolved] at once
  exact once

theorem closes_resolve (now : Nat) :
    Closes name.id (fun held => Converter.resolve name held arrived now)
      fun ledger row => arrived = true → ledger.Takes row.node (-(asI64 row.amountMsat : Int)) := by
  intro ledger row found
  rcases arrived with _ | _
  · refine wp_mono (wp_abandon found) (fun _ after isAfter => ⟨nofun, ?_⟩) nofun
    rw [isAfter]
    rfl
  have finish : ∀ feeMsat hash, wp (finishConversionBy now name.id feeMsat hash)
      (fun _ after => (true = true → ledger.Takes row.node (-(asI64 row.amountMsat : Int))) ∧
        after.holds = ledger.holds.delete name.id)
      (fun _ after => ¬ (true = true → ledger.Takes row.node (-(asI64 row.amountMsat : Int))) ∧
        after = ledger) ledger := by
    intro feeMsat hash
    refine wp_mono (closes_closeWithShare now name.id .converted (fun _ => feeMsat) hash
      .channelFee _ ledger row found) (fun _ _ closed => ⟨fun _ => closed.1, closed.2⟩)
      fun _ _ refused => ⟨fun takes => refused.1 (takes rfl), refused.2⟩
  cases name with
  | deliver paymentId => exact finish _ _
  | pay paymentId => exact finish _ _
  | chan userChannelId => exact finish _ _

theorem once_pushResult : Once (fun ledger : Ledger => ledger) (onPushResult now name arrived)
      (onPushResult again name arrived) fun _ ledger => ledger.holds.get? name.id = none :=
  once_closeHeld (closes_resolve name arrived now) (closes_resolve name arrived again)

end Leaves

/-! ## What handlers leave alone -/

/-- Nothing is taken back: entries and revenue stay, and a held payment that has
become claimable does not wait again. -/
structure Grows (before after : Desk) : Prop where
  entries : before.ledger.entries ⊆ after.ledger.entries
  revenue : before.ledger.revenue ⊆ after.ledger.revenue
  held : ∀ paymentHash row, before.heldGet paymentHash = some row → row.state ≠ .waiting →
    ∃ later, after.heldGet paymentHash = some later ∧ later.state ≠ .waiting

theorem grows_refl (desk : Desk) : Grows desk desk :=
  ⟨List.Subset.refl _, List.Subset.refl _, fun _ row found left => ⟨row, found, left⟩⟩

theorem grows_trans ⦃first second third : Desk⦄ (one : Grows first second)
    (two : Grows second third) : Grows first third where
  entries := List.Subset.trans one.entries two.entries
  revenue := List.Subset.trans one.revenue two.revenue
  held hash row found left := by
    obtain ⟨middle, isMiddle, leftMiddle⟩ := one.held hash row found left
    exact two.held hash middle isMiddle leftMiddle

def LedgerGrows (before after : Ledger) : Prop :=
  before.entries ⊆ after.entries ∧ before.revenue ⊆ after.revenue

theorem ledgerGrows_refl (ledger : Ledger) : LedgerGrows ledger ledger :=
  ⟨List.Subset.refl _, List.Subset.refl _⟩

theorem grows_exec (op : Op) : Relates LedgerGrows op.exec := by
  refine relates_iff_wp.mpr fun ledger => wp_mono (wp_exec_effect op ledger)
    (fun _ after effect => ⟨?_, effect.revenue⟩) fun _ _ same => same ▸ ledgerGrows_refl _
  obtain ⟨added, same, _⟩ := effect.entries
  exact same ▸ subset_append_left _ _

variable {after before : Ledger}

theorem credited_mono {hash : Fixed 32} (grows : before.entries ⊆ after.entries)
    (known : credited before node hash = true) : credited after node hash = true := by
  obtain ⟨row, mem, matching⟩ := any_eq_true.mp known
  exact any_eq_true.mpr ⟨row, grows mem, matching⟩

theorem recorded_mono (grows : before.revenue ⊆ after.revenue)
    {kind : RevenueKind} (known : recorded before kind reference = true) :
    recorded after kind reference = true := by
  obtain ⟨row, mem, matching⟩ := any_eq_true.mp known
  exact any_eq_true.mpr ⟨row, grows mem, matching⟩

variable {prog : LedgerM α}

section OnLedger

variable {α : Type}

def LedgerOnly (before after : Desk) : Prop := after = { before with ledger := after.ledger }

theorem ledgerOnly_refl (desk : Desk) : LedgerOnly desk desk := rfl

theorem ledgerOnly_trans ⦃first second third : Desk⦄ (one : LedgerOnly first second)
    (two : LedgerOnly second third) : LedgerOnly first third := by
  unfold LedgerOnly at *
  rw [two, one]

theorem ledgerOnly_onLedger (prog : LedgerM α) : Relates LedgerOnly (onLedger prog) := by
  intro desk
  unfold finalState onLedger
  cases prog desk.ledger <;> rfl

theorem relates_onLedger {rel : Ledger → Ledger → Prop}
    (related : Relates rel prog) : Relates (fun before after : Desk =>
      rel before.ledger after.ledger ∧ LedgerOnly before after) (onLedger prog) := by
  refine relates_iff_wp.mpr fun desk => ?_
  rw [wp_onLedger]
  exact wp_mono (relates_iff_wp.mp related desk.ledger) (fun _ _ grown => ⟨grown, rfl⟩)
    fun _ _ grown => ⟨grown, rfl⟩

theorem grows_of_ledgerOnly ⦃before after : Desk⦄
    (both : LedgerGrows before.ledger after.ledger ∧ LedgerOnly before after) :
      Grows before after := by
  obtain ⟨grown, same⟩ := both
  refine ⟨grown.1, grown.2, fun hash row found left => ⟨row, ?_, left⟩⟩
  rw [same]
  exact found

theorem grows_onLedger (related : Relates LedgerGrows prog) :
    Relates Grows (onLedger prog) := (relates_onLedger related).mono grows_of_ledgerOnly

theorem once_onLedger {first second : LedgerM α} {done : α → Ledger → Prop}
    (once : Once (fun ledger : Ledger => ledger) first second done) :
    Once Desk.toBooks (onLedger first) (onLedger second)
      fun value books => done value books.ledger where
  ends desk := by
    rw [wp_onLedger]
    refine wp_mono (once.ends desk.ledger) (fun _ _ => id) fun _ ledger stuck state looks => ?_
    have sameLedger : state.ledger = ledger := congrArg Books.ledger looks
    rw [wp_onLedger]
    refine wp_mono (stuck state.ledger sameLedger) (fun _ _ => id) fun _ final same => ?_
    have isFinal : final = ledger := same
    rw [← looks, isFinal, ← sameLedger]
  quiet value books isDone state looks := by
    have sameLedger : state.ledger = books.ledger := congrArg Books.ledger looks
    rw [wp_onLedger]
    refine wp_mono (once.quiet value books.ledger isDone state.ledger sameLedger)
      (fun _ final same => ⟨same.1, ?_⟩) fun _ _ => id
    have isFinal : final = books.ledger := same.2
    rw [← looks, isFinal, ← sameLedger]

end OnLedger

/-! ## Outcomes -/

def Shrinks (before after : Ledger) : Prop :=
  ∀ id, before.holds.get? id = none → after.holds.get? id = none

theorem shrinks_closeHeld (closes : Closes id close able) :
    Relates Shrinks (closeHeld id close) := by
  refine relates_iff_wp.mpr fun ledger => ?_
  unfold closeHeld
  rw [wp_bind, wp_get]
  rcases found : ledger.holds.get? id with _ | row
  · exact fun _ gone => gone
  refine wp_mono (closes ledger row found) (fun _ after closed own gone => ?_)
    fun _ after refused => ?_
  · rw [closed.2, Table.get?_delete]
    split
    · rfl
    · exact gone
  rw [refused.2]
  exact fun _ gone => gone

structure Closing (ids : List String) (first second : DeskM PUnit) : Prop where
  once : Once Desk.toBooks first second fun _ books =>
    ∀ id ∈ ids, books.ledger.holds.get? id = none
  shrinks : Relates (fun before after : Desk => Shrinks before.ledger after.ledger) first
  grows : Relates Grows first

section Closing

variable {ids more : List String} {first second next nextAgain : DeskM PUnit}

theorem Closing.nothing : Closing [] (pure ⟨⟩) (pure ⟨⟩) where
  once := (Once.pure (⟨⟩ : PUnit)).congr fun _ _ => ⟨nofun, fun _ => rfl⟩
  shrinks := Relates.pure (fun _ _ => id) _
  grows := Relates.pure grows_refl _

theorem Closing.seq (one : Closing ids first second) (two : Closing more next nextAgain) :
    Closing (ids ++ more) (first >>= fun _ => next) (second >>= fun _ => nextAgain) where
  once := by
    refine (one.once.bind (fun _ => two.once) fun _ => two.shrinks.mono
      fun before after shrinks gone id mem => shrinks id (gone id mem)).congr
      fun _ books => ⟨fun ⟨_, goneOne, goneTwo⟩ id mem => ?_, fun gone => ⟨⟨⟩, ?_, ?_⟩⟩
    · rcases mem_append.mp mem with early | late
      · exact goneOne id early
      · exact goneTwo id late
    · exact fun id mem => gone id (mem_append_left _ mem)
    · exact fun id mem => gone id (mem_append_right _ mem)
  shrinks := one.shrinks.bind (fun _ _ _ early late id gone => late id (early id gone))
    fun _ => two.shrinks
  grows := one.grows.bind grows_trans fun _ => two.grows

theorem closing_onLedger {first second : LedgerM PUnit}
    (once : Once (fun ledger : Ledger => ledger) first second
      fun _ ledger => ledger.holds.get? id = none)
    (shrinks : Relates Shrinks first) (grows : Relates LedgerGrows first) :
    Closing [id] (onLedger first) (onLedger second) where
  once := (once_onLedger once).congr fun _ _ =>
    ⟨fun gone own mem => by rw [mem_singleton.mp mem]; exact gone,
      fun gone => gone id mem_cons_self⟩
  shrinks := (relates_onLedger shrinks).mono fun _ _ both => both.1
  grows := grows_onLedger grows

theorem grows_closeHeld (grows : ∀ held, Relates LedgerGrows (close held)) :
      Relates LedgerGrows (closeHeld id close) := by
  refine Relates.get_bind fun ledger => ?_
  split
  · exact ledgerGrows_refl ledger
  · exact grows _ ledger

variable (now again : Nat) (hash : Fixed 32) (feeMsat : Option Nat) (name : HoldName)

theorem grows_resolve (held : Nat) (arrived : Bool) (now : Nat) :
    Relates LedgerGrows (Converter.resolve name held arrived now) := by
  rcases arrived with _ | _
  · exact grows_exec (.abandonConversion name.id)
  cases name with
  | deliver paymentId => exact grows_exec (.finishConversionBy now _ 0 (some paymentId))
  | pay paymentId => exact grows_exec (.finishConversion now _ _)
  | chan userChannelId => exact grows_exec (.finishConversion now _ _)

theorem grows_resolved : Relates LedgerGrows (onPaymentResolved now hash feeMsat) := by
  refine Relates.get_bind fun ledger => ?_
  split
  · exact ledgerGrows_refl ledger
  split
  next fee => exact grows_exec (.settleSend now _ fee (some hash)) ledger
  · exact grows_exec (.settleHold now _ 0 0 none) ledger

theorem closing_pushResult (arrived : Bool) :
    Closing [name.id] (onLedger (onPushResult now name arrived))
      (onLedger (onPushResult again name arrived)) :=
  closing_onLedger (once_pushResult now again name arrived)
    (shrinks_closeHeld (closes_resolve name arrived now))
    (grows_closeHeld fun held => grows_resolve name held arrived now)

theorem closing_resolved : Closing [sendHoldId hash] (onLedger (onPaymentResolved now hash feeMsat))
      (onLedger (onPaymentResolved again hash feeMsat)) := by
  have shrinks := shrinks_closeHeld (closes_resolved now hash feeMsat)
  rw [closeHeld_resolved] at shrinks
  exact closing_onLedger (once_resolved now again hash feeMsat) shrinks
    (grows_resolved now hash feeMsat)

end Closing

/-! ## Held payments -/

section

variable {desk : Desk}

section

variable (hash : Fixed 32) (state : HeldState) (claimable : Option (Nat × Option Nat))
  (forwardId : Option (Option (Fixed 32)))

theorem heldGet_updated (other : Fixed 32) :
    ({ desk with held := desk.held.map fun row =>
      row.updated hash state claimable forwardId } : Desk).heldGet other =
      (desk.heldGet other).map fun row => row.updated hash state claimable forwardId := by
  unfold heldGet
  rw [find?_map]
  congr 2
  funext row
  change decide ((row.updated hash state claimable forwardId).paymentHash = other) = _
  unfold HeldRow.updated
  split <;> rfl

theorem updated_left {row : HeldRow} (left : state ≠ .waiting)
    (leftRow : row.paymentHash = hash ∨ row.state ≠ .waiting) :
    (row.updated hash state claimable forwardId).state ≠ .waiting := by
  unfold HeldRow.updated
  split
  · exact left
  next other => exact leftRow.resolve_left other

theorem grows_heldUpdate (left : state ≠ .waiting) :
    Relates Grows (heldUpdate hash state claimable forwardId) := by
  refine Relates.modify fun desk => ⟨List.Subset.refl _, List.Subset.refl _, ?_⟩
  intro other row found leftRow
  refine ⟨_, (heldGet_updated hash state claimable forwardId other).trans
    (congrArg _ found), updated_left _ _ _ _ left (.inr leftRow)⟩

end

def Desk.Left (desk : Desk) (paymentHash : Fixed 32) : Prop :=
  ∀ row, desk.heldGet paymentHash = some row → row.state ≠ .waiting

theorem grows_creditOwner (now : Nat) (owner : Option PublicKey) (hash : Fixed 32)
    (amount : Nat) : Relates LedgerGrows (creditOwner now owner hash amount) := by
  cases owner with
  | none => exact Relates.pure ledgerGrows_refl _
  | some node => exact grows_exec (.credit now node hash amount)

theorem same_totalCustody :
    Relates (fun before after : Ledger => after = before) totalCustodyMsat := by
  refine relates_iff_wp.mpr fun ledger => ?_
  unfold totalCustodyMsat
  simp only [wp_bind, wp_get, wp_abortIf, wp_pure]
  split
  · trivial
  · split <;> trivial

variable (outside : Outside) (paymentId : Fixed 32) (succeeded : Bool)

theorem grows_deliver (held : HeldRow) : Relates Grows (deliver outside held) := by
  unfold deliver
  split
  · exact Relates.pure grows_refl _
  next amount _ =>
  dsimp only
  split
  · exact Relates.pure grows_refl _
  split
  · refine (grows_onLedger (same_totalCustody.mono fun _ _ same =>
      same ▸ ledgerGrows_refl _)).bind grows_trans fun total => ?_
    split
    · split
      · exact (grows_onLedger (grows_exec (.credit ..))).bind grows_trans fun _ =>
          grows_heldUpdate _ _ _ _ nofun
      · exact Relates.pure grows_refl _
    · exact grows_heldUpdate _ _ _ _ nofun
  split
  · split
    · exact grows_heldUpdate _ _ _ _ nofun
    · exact Relates.pure grows_refl _
  · exact Relates.pure grows_refl _

/-- A payment that became claimable is not found waiting again. -/
theorem onClaimable_left (hash : Fixed 32) (amount : Nat) (deadline : Option Nat) (desk : Desk) :
    (finalState (onClaimable outside hash amount deadline) desk).Left hash := by
  refine finalState_both ?_
  unfold onClaimable
  rw [wp_bind, wp_get]
  rcases found : desk.heldGet hash with _ | held
  · exact fun row isRow => absurd (found.symm.trans isRow) nofun
  dsimp only
  split
  next waiting =>
    have isHash : held.paymentHash = hash := by
      have passes := find?_some found
      exact of_decide_eq_true passes
    have now := (heldGet_updated hash .claimable
      (some (amount, deadline)) none hash).trans (congrArg _ found)
    have left := updated_left hash _ (some (amount, deadline)) none
      (show HeldState.claimable ≠ .waiting from nofun) (.inl isHash)
    rw [wp_bind, heldUpdate, wp_modify, wp_bind, wp_get, now]
    refine wp_mono (relates_iff_wp.mp (grows_deliver outside _) _) (fun _ after grows => ?_)
      fun _ after grows => ?_ <;>
    · obtain ⟨later, isLater, leftLater⟩ := grows.held hash _ now left
      intro row isRow
      cases isLater.symm.trans isRow
      exact leftLater
  next left =>
  intro row isRow
  cases found.symm.trans isRow
  exact left

theorem onClaimable_quiet (hash : Fixed 32) (amount : Nat)
    (deadline : Option Nat) (left : desk.Left hash) :
    finalState (onClaimable outside hash amount deadline) desk = desk := by
  refine finalState_both ?_
  unfold onClaimable
  rw [wp_bind, wp_get]
  rcases found : desk.heldGet hash with _ | held
  · rfl
  dsimp only
  rw [if_neg (left held found)]
  rfl

theorem onForwardResult_unseen :
    Completes (fun before after : Desk => after.toBooks = before.toBooks)
      (onForwardResult outside paymentId succeeded) := by
  intro desk
  unfold onForwardResult
  rw [wp_bind, wp_get]
  split
  · rfl
  split
  · dsimp only
    split <;> rfl
  · rfl

theorem grows_onForwardResult : Relates Grows (onForwardResult outside paymentId succeeded) := by
  refine Relates.get_bind fun desk => ?_
  split
  · exact grows_refl desk
  split
  · dsimp only
    split
    · exact grows_heldUpdate _ .done _ _ nofun desk
    · exact grows_refl desk
  · exact grows_heldUpdate _ .claimable _ _ nofun desk

theorem closing_forward (first again : Outside) (paymentId : Fixed 32) (succeeded : Bool) :
    Closing [] (onForwardResult first paymentId succeeded)
      (onForwardResult again paymentId succeeded) where
  once := (Once.unseen (onForwardResult_unseen first paymentId succeeded)
    (onForwardResult_unseen again paymentId succeeded)).congr fun _ _ => ⟨nofun, fun _ => trivial⟩
  shrinks := (onForwardResult_unseen first paymentId succeeded).relates.mono
    fun before after same id gone => by
      have sameLedger : after.ledger = before.ledger := congrArg Books.ledger same
      rw [sameLedger]
      exact gone
  grows := grows_onForwardResult first paymentId succeeded

end

/-! ## What an event leaves -/

def Event.holdIds : Event → List String
  | .paymentSuccessful paymentId paymentHash _ =>
    (paymentId.map fun id => (HoldName.deliver id).id).toList ++
      ([sendHoldId paymentHash] ++ (paymentId.map fun id => (HoldName.pay id).id).toList)
  | .paymentFailed paymentId paymentHash =>
    (paymentId.map fun id => (HoldName.deliver id).id).toList ++
      ((paymentHash.map sendHoldId).toList ++ (paymentId.map fun id => (HoldName.pay id).id).toList)
  | .channelReady userChannelId | .channelClosed userChannelId => [(HoldName.chan userChannelId).id]
  | _ => []

def Books.Received (books : Books) (paymentHash : Fixed 32) (isAccounts : Bool) : Prop :=
  match books.invoices paymentHash with
  | some node => isAccounts = true ∧ credited books.ledger (key node) paymentHash = true
  | none => isAccounts = false ∧ (books.feeInvoices paymentHash ≠ none →
      recorded books.ledger .transferFee (hexEncode paymentHash.val) = true)

def Books.OfferPaid (books : Books) (outside : Outside) (paymentId paymentHash : Fixed 32) : Prop :=
  ∀ offerId, outside.paidOffer paymentId = some offerId →
    ∀ node, books.offers offerId = some node → credited books.ledger (key node) paymentHash = true

def Event.InBooks (outside : Outside) (books : Books) : Event → Prop
  | .paymentReceived paymentId paymentHash _ =>
    ∃ isAccounts, books.Received paymentHash isAccounts ∧
      (isAccounts = false → ∀ id, paymentId = some id → books.OfferPaid outside id paymentHash)
  | .paymentForwarded prevChannelId nextChannelId _ totalFeeEarnedMsat skimmedFeeMsat
      outboundAmountForwardedMsat =>
      let reference := forwardReference prevChannelId nextChannelId outboundAmountForwardedMsat
        outside.nowNanos
      (routingMsat totalFeeEarnedMsat skimmedFeeMsat ≠ 0 →
        recorded books.ledger .routingFee reference = true) ∧
      (skimMsat skimmedFeeMsat ≠ 0 → recorded books.ledger .channelFee reference = true)
  | event => ∀ id ∈ event.holdIds, books.ledger.holds.get? id = none

/-- The outside agrees on which offer the payment paid, and on the clock of a fee. -/
def Event.Agrees (first again : Outside) : Event → Prop
  | .paymentReceived paymentId _ _ =>
    ∀ id, paymentId = some id → first.paidOffer id = again.paidOffer id
  | .paymentForwarded _ _ _ totalFeeEarnedMsat skimmedFeeMsat _ =>
    (routingMsat totalFeeEarnedMsat skimmedFeeMsat = 0 ∧ skimMsat skimmedFeeMsat = 0) ∨
      first.nowNanos = again.nowNanos
  | _ => True

variable {event : Event}

section Handlers

variable {first again : Outside}

theorem Books.Received.mono {before after : Desk} {isAccounts : Bool} {hash : Fixed 32}
    (both : LedgerGrows before.ledger after.ledger ∧ LedgerOnly before after)
    (received : before.toBooks.Received hash isAccounts) :
    after.toBooks.Received hash isAccounts := by
  obtain ⟨grows, same⟩ := both
  have invoices : after.invoices = before.invoices := by rw [same]
  have feeInvoices : after.feeInvoices = before.feeInvoices := by rw [same]
  unfold Books.Received at received ⊢
  rw [invoices, feeInvoices]
  split
  next node isNode =>
    rw [isNode] at received
    exact ⟨received.1, credited_mono grows.1 received.2⟩
  next isNode =>
  rw [isNode] at received
  exact ⟨received.1, fun issued => recorded_mono grows.2 (received.2 issued)⟩

variable (now : Nat) (owner : Option PublicKey) (hash : Fixed 32) (amountMsat : Nat)

theorem ledgerOnly_onFeeInvoice : Relates LedgerOnly (onFeeInvoice now owner hash amountMsat) :=
  (ledgerOnly_onLedger _).bind ledgerOnly_trans fun _ => Relates.pure ledgerOnly_refl _

theorem ledgerOnly_onInvoice : Relates LedgerOnly (onInvoice now owner hash amountMsat) := by
  cases owner with
  | none => exact Relates.get_bind fun desk => ledgerOnly_onFeeInvoice _ _ _ _ desk
  | some node =>
    exact (ledgerOnly_onLedger _).bind ledgerOnly_trans fun _ => Relates.pure ledgerOnly_refl _

theorem once_received (later : Nat) : Once Desk.toBooks (onPaymentReceived now hash amountMsat)
      (onPaymentReceived later hash amountMsat)
      fun isAccounts books => books.Received hash isAccounts := by
  have fees : Once toBooks (onInvoice now none hash amountMsat)
      (onInvoice later none hash amountMsat) _ :=
    Once.read (fun books : Books => books.feeInvoices hash)
      (fun owner => (once_onLedger (once_feeInvoicePaid now later owner hash
        amountMsat)).returning false)
      fun owner => (ledgerOnly_onFeeInvoice now owner hash amountMsat).mono
        fun _ _ same => by rw [same]
  have invoices : ∀ owner, Once toBooks (onInvoice now owner hash amountMsat)
      (onInvoice later owner hash amountMsat) fun isAccounts books =>
        match owner with
        | some node => isAccounts = true ∧ credited books.ledger (key node) hash = true
        | none => isAccounts = false ∧ (books.feeInvoices hash ≠ none →
            recorded books.ledger .transferFee (hexEncode hash.val) = true) := by
    intro owner
    rcases owner with _ | node
    · exact fees
    refine ((once_onLedger (once_creditOwner now later (some node) hash
      amountMsat)).returning true).congr fun isAccounts books =>
      ⟨fun both => ⟨both.1, both.2 node rfl⟩, fun both => ⟨both.1, fun other same => ?_⟩⟩
    cases same
    exact both.2
  exact Once.read (fun books => books.invoices hash) invoices
    fun owner => (ledgerOnly_onInvoice now owner hash amountMsat).mono fun _ _ same => by rw [same]

theorem once_offer {paymentId : Fixed 32}
    (same : first.paidOffer paymentId = again.paidOffer paymentId) :
    Once Desk.toBooks (onOfferPaymentReceived first paymentId hash amountMsat)
      (onOfferPaymentReceived again paymentId hash amountMsat)
      fun _ books => books.OfferPaid again paymentId hash := by
  unfold onOfferPaymentReceived Books.OfferPaid
  rw [same]
  rcases again.paidOffer paymentId with _ | offerId
  · refine (Once.pure (⟨⟩ : PUnit)).congr fun _ _ => ⟨fun _ offerId never => ?_, fun _ => rfl⟩
    cases never
  have reads : Once toBooks (do
      let desk ← get
      onLedger (creditOwner first.nowSecs (desk.offers offerId) hash amountMsat)) (do
      let desk ← get
      onLedger (creditOwner again.nowSecs (desk.offers offerId) hash amountMsat)) _ :=
    Once.read (fun books => books.offers offerId)
      (fun owner => once_onLedger (once_creditOwner first.nowSecs again.nowSecs owner
        hash amountMsat))
      fun owner => (ledgerOnly_onLedger _).mono fun _ _ same => by rw [same]
  refine reads.congr fun _ books => ⟨fun paid other isOther => ?_, fun paid => paid offerId rfl⟩
  cases isOther
  exact paid

variable (outside : Outside)

theorem grows_onOffer (paymentId hash : Fixed 32) (amount : Nat) :
    Relates (fun before after : Desk => LedgerGrows before.ledger after.ledger ∧
      LedgerOnly before after) (onOfferPaymentReceived outside paymentId hash amount) := by
  unfold onOfferPaymentReceived
  split
  · exact Relates.pure (fun _ => ⟨ledgerGrows_refl _, rfl⟩) _
  exact Relates.get_bind fun desk =>
    relates_onLedger (grows_creditOwner _ _ hash amount) desk

section

variable (first again : Outside) (paymentId : Option (Fixed 32))

theorem closing_keysend (succeeded : Bool) :
    Closing (paymentId.map fun id => (HoldName.deliver id).id).toList
      (onKeysendResult first paymentId succeeded) (onKeysendResult again paymentId succeeded) := by
  cases paymentId with
  | none => exact Closing.nothing
  | some id => exact (closing_forward first again id succeeded).seq (closing_pushResult ..)

theorem closing_conversion
    (succeeded : Bool) : Closing (paymentId.map fun id => (HoldName.pay id).id).toList
      (onConversionResult first paymentId succeeded)
        (onConversionResult again paymentId succeeded) := by
  cases paymentId with
  | none => exact Closing.nothing
  | some id => exact closing_pushResult ..

theorem closing_successful (hash : Fixed 32) (feePaidMsat : Option Nat) :
    Closing (Event.paymentSuccessful paymentId hash feePaidMsat).holdIds
      (accountEvent first (.paymentSuccessful paymentId hash feePaidMsat))
      (accountEvent again (.paymentSuccessful paymentId hash feePaidMsat)) :=
  (closing_keysend first again paymentId true).seq
    ((closing_resolved _ _ _ _).seq (closing_conversion first again paymentId true))

end

theorem closing_failed (first again : Outside) (paymentId paymentHash : Option (Fixed 32)) :
    Closing (Event.paymentFailed paymentId paymentHash).holdIds
      (accountEvent first (.paymentFailed paymentId paymentHash))
      (accountEvent again (.paymentFailed paymentId paymentHash)) := by
  rcases paymentHash with _ | hash
  · exact (closing_keysend first again paymentId false).seq
      (Closing.nothing.seq (closing_conversion first again paymentId false))
  exact (closing_keysend first again paymentId false).seq
    ((closing_resolved _ _ hash none).seq (closing_conversion first again paymentId false))

theorem grows_feeInvoicePaid : Relates LedgerGrows (feeInvoicePaid now owner hash amountMsat) := by
  cases owner with
  | none => exact Relates.pure ledgerGrows_refl _
  | some node => exact (Relates.modify fun _ => ⟨List.Subset.refl _, subset_addRevenue _ _⟩)

theorem grows_recordRevenue (kind : RevenueKind) (amount : Nat)
    (node : Option PublicKey) (reference : String) :
    Relates LedgerGrows (recordRevenue now kind amount node reference) := by
  unfold recordRevenue
  split
  · exact Relates.pure ledgerGrows_refl _
  · exact Relates.modify fun _ => ⟨List.Subset.refl _, subset_addRevenue _ _⟩

theorem once_paymentReceived (paymentId : Option (Fixed 32)) (hash : Fixed 32) (amount : Nat)
    (agrees : (Event.paymentReceived paymentId hash amount).Agrees first again) :
    Once Desk.toBooks (accountEvent first (.paymentReceived paymentId hash amount))
      (accountEvent again (.paymentReceived paymentId hash amount))
      fun _ books => (Event.paymentReceived paymentId hash amount).InBooks again books := by
  refine (once_received first.nowSecs hash amount again.nowSecs).bind
    (fun isAccounts => ?_) fun isAccounts => ?_
  · cases isAccounts with
    | true =>
      refine (Once.pure (⟨⟩ : PUnit)).congr fun _ _ => ⟨fun _ never => ?_, fun _ => rfl⟩
      cases never
    | false =>
    rcases paymentId with _ | id
    · refine (Once.pure (⟨⟩ : PUnit)).congr fun _ _ => ⟨fun _ _ id never => ?_, fun _ => rfl⟩
      cases never
    refine (once_offer hash amount (agrees id rfl)).congr fun _ books =>
      ⟨fun paid _ other isOther => ?_, fun paid => paid rfl id rfl⟩
    cases isOther
    exact paid
  cases isAccounts with
  | true => exact Relates.pure (fun _ received => received) _
  | false =>
    rcases paymentId with _ | id
    · exact Relates.pure (fun _ received => received) _
    exact (grows_onOffer first id hash amount).mono fun _ _ both received => received.mono both

theorem once_paymentForwarded (prevChannelId nextChannelId : String)
    (nextNodeId : Option PublicKey) (total skimmed outbound : Option Nat)
    (agrees : (Event.paymentForwarded prevChannelId nextChannelId nextNodeId total skimmed
      outbound).Agrees first again) : Once Desk.toBooks
      (accountEvent first (.paymentForwarded prevChannelId nextChannelId nextNodeId total skimmed
        outbound))
      (accountEvent again (.paymentForwarded prevChannelId nextChannelId nextNodeId total skimmed
        outbound))
      fun _ books => (Event.paymentForwarded prevChannelId nextChannelId nextNodeId total skimmed
        outbound).InBooks again books := by
  have routing : routingMsat total skimmed ≠ 0 →
      forwardReference prevChannelId nextChannelId outbound first.nowNanos =
        forwardReference prevChannelId nextChannelId outbound again.nowNanos := fun earned => by
    rw [agrees.resolve_left fun both => earned both.1]
  have skim : skimMsat skimmed ≠ 0 →
      forwardReference prevChannelId nextChannelId outbound first.nowNanos =
        forwardReference prevChannelId nextChannelId outbound again.nowNanos := fun earned => by
    rw [agrees.resolve_left fun both => earned both.2]
  refine ((once_onLedger (once_recordRevenue first.nowSecs again.nowSecs .routingFee _ none
    routing)).bind (fun _ => once_onLedger (once_recordRevenue first.nowSecs again.nowSecs
      .channelFee _ nextNodeId skim)) fun _ => ?_).congr
    fun _ books => ⟨fun ⟨_, both⟩ => both, fun both => ⟨⟨⟩, both⟩⟩
  exact (relates_onLedger (grows_recordRevenue _ _ _ _ _)).mono fun _ _ both known earned =>
    recorded_mono both.1.2 (known earned)

/-- Every event but one that makes a payment claimable. -/
theorem once_event (agrees : event.Agrees first again)
    (plain : ∀ hash amount deadline, event ≠ .paymentClaimable hash amount deadline) :
    Once Desk.toBooks (accountEvent first event) (accountEvent again event)
      fun _ books => event.InBooks again books := by
  cases event with
  | paymentReceived paymentId paymentHash amountMsat =>
    exact once_paymentReceived paymentId paymentHash amountMsat agrees
  | paymentForwarded prevChannelId nextChannelId nextNodeId total skimmed outbound =>
    exact once_paymentForwarded _ _ nextNodeId total skimmed outbound agrees
  | paymentClaimable hash amount deadline => exact absurd rfl (plain hash amount deadline)
  | paymentSuccessful paymentId paymentHash feePaidMsat =>
    exact (closing_successful first again paymentId paymentHash feePaidMsat).once
  | paymentFailed paymentId paymentHash => exact (closing_failed first again _ _).once
  | channelReady userChannelId => exact (closing_pushResult ..).once
  | channelClosed userChannelId => exact (closing_pushResult ..).once
  | other => exact Closing.nothing.once

theorem grows_onPaymentReceived : Relates Grows (onPaymentReceived now hash amountMsat) := by
  refine Relates.get_bind fun desk => ?_
  rcases desk.invoices hash with _ | node
  · exact ((grows_onLedger (grows_feeInvoicePaid _ _ _ _)).bind grows_trans
      fun _ => Relates.pure grows_refl _) desk
  exact ((grows_onLedger (grows_creditOwner _ _ _ _)).bind grows_trans
    fun _ => Relates.pure grows_refl _) desk

theorem grows_event (event : Event) : Relates Grows (accountEvent outside event) := by
  cases event with
  | paymentReceived paymentId hash amountMsat =>
    refine (grows_onPaymentReceived outside.nowSecs hash amountMsat).bind grows_trans
      fun isAccounts => ?_
    split
    next id => exact (grows_onOffer outside id hash amountMsat).mono grows_of_ledgerOnly
    · exact Relates.pure grows_refl _
  | paymentForwarded prevChannelId nextChannelId nextNodeId total skimmed outbound =>
    exact (grows_onLedger (grows_recordRevenue _ _ _ _ _)).bind grows_trans
      fun _ => grows_onLedger (grows_recordRevenue _ _ _ _ _)
  | paymentClaimable hash amount deadline =>
    refine Relates.get_bind fun desk => ?_
    split
    · exact grows_refl desk
    split
    · refine ((grows_heldUpdate _ .claimable _ _ nofun).bind grows_trans fun _ =>
        Relates.get_bind fun desk => ?_) desk
      split
      · exact grows_deliver outside _ desk
      · exact grows_refl desk
    · exact grows_refl desk
  | paymentSuccessful paymentId hash feePaidMsat =>
    exact (closing_successful outside outside paymentId hash feePaidMsat).grows
  | paymentFailed paymentId hash => exact (closing_failed outside outside _ _).grows
  | channelReady userChannelId => exact (closing_pushResult outside.nowSecs 0 _ true).grows
  | channelClosed userChannelId => exact (closing_pushResult outside.nowSecs 0 _ false).grows
  | other => exact Relates.pure grows_refl _
end Handlers

/-! ## Repeats at any later time -/

/-- What happens between two deliveries of an event. -/
inductive DeskMove
  | op (op : Op)
  | register (invoices feeInvoices offers : Fixed 32 → Option PublicKey)
  | heldInsert (row : HeldRow)
  | event (outside : Outside) (event : Event)
  | tick (outside : Outside)

namespace Desk

def step (desk : Desk) : DeskMove → Desk
  | .op op => finalState (onLedger op.exec) desk
  | .register invoices feeInvoices offers => { desk with invoices, feeInvoices, offers }
  | .heldInsert row =>
    if desk.heldGet row.paymentHash = none then
      { desk with held := desk.held ++ [{ row with state := .waiting }] }
    else desk
  | .event outside event => finalState (accountEvent outside event) desk
  | .tick outside => finalState (heldTick outside) desk

def run (desk : Desk) (moves : List DeskMove) : Desk := moves.foldl step desk

end Desk

theorem grows_step (desk : Desk) (move : DeskMove) : Grows desk (desk.step move) := by
  cases move with
  | op op => exact grows_onLedger (grows_exec op) desk
  | register invoices feeInvoices offers =>
    exact ⟨List.Subset.refl _, List.Subset.refl _, fun _ row found left => ⟨row, found, left⟩⟩
  | heldInsert row =>
    simp only [step]
    split
    · refine ⟨List.Subset.refl _, List.Subset.refl _, fun hash old found left => ⟨old, ?_, left⟩⟩
      change (desk.held ++ [_]).find? _ = some old
      rw [find?_append]
      change (desk.heldGet hash).or _ = _
      rw [found]
      rfl
    · exact grows_refl desk
  | event outside event => exact grows_event outside event desk
  | tick outside =>
    refine Relates.get_bind (fun desk => ?_) desk
    exact Relates.forEach grows_refl grows_trans (fun held =>
      (grows_deliver outside held).tryCatch grows_trans fun _ => Relates.pure grows_refl _) _ desk

theorem grows_run (desk : Desk) (moves : List DeskMove) : Grows desk (desk.run moves) := by
  induction moves generalizing desk with
  | nil => exact grows_refl desk
  | cons move rest ih => exact grows_trans (grows_step desk move) (ih _)

/-- When an event comes again, no hold it closes has been opened anew, and what was
registered for its payment is as it was. -/
def Event.Undisturbed (outside : Outside) (handled later : Desk) (event : Event) : Prop :=
  (∀ id ∈ event.holdIds, later.ledger.holds.get? id = none) ∧
  match event with
  | .paymentReceived paymentId paymentHash _ =>
    later.invoices paymentHash = handled.invoices paymentHash ∧
    later.feeInvoices paymentHash = handled.feeInvoices paymentHash ∧
    ∀ id offerId, paymentId = some id → outside.paidOffer id = some offerId →
      later.offers offerId = handled.offers offerId
  | .paymentClaimable paymentHash _ _ =>
    handled.heldGet paymentHash = none → later.heldGet paymentHash = none
  | _ => True

theorem inBooks_later {outside : Outside} {handled later : Desk}
    (grows : Grows handled later) (undisturbed : event.Undisturbed outside handled later)
    (inBooks : event.InBooks outside handled.toBooks) : event.InBooks outside later.toBooks := by
  cases event with
  | paymentReceived paymentId paymentHash amountMsat =>
    obtain ⟨isAccounts, received, offers⟩ := inBooks
    obtain ⟨_, invoices, feeInvoices, owners⟩ := undisturbed
    refine ⟨isAccounts, ?_, fun notAccounts id isId offerId paid node owner => ?_⟩
    · unfold Books.Received at received ⊢
      rw [invoices, feeInvoices]
      split
      next node isNode =>
        rw [isNode] at received
        exact ⟨received.1, credited_mono grows.entries received.2⟩
      next isNode =>
      rw [isNode] at received
      exact ⟨received.1, fun issued => recorded_mono grows.revenue (received.2 issued)⟩
    rw [owners id offerId isId paid] at owner
    exact credited_mono grows.entries (offers notAccounts id isId offerId paid node owner)
  | paymentForwarded prevChannelId nextChannelId nextNodeId total skimmed outbound =>
    exact ⟨fun earned => recorded_mono grows.revenue (inBooks.1 earned),
      fun earned => recorded_mono grows.revenue (inBooks.2 earned)⟩
  | paymentClaimable hash amount deadline => exact undisturbed.1
  | paymentSuccessful paymentId paymentHash feePaidMsat => exact undisturbed.1
  | paymentFailed paymentId paymentHash => exact undisturbed.1
  | channelReady userChannelId => exact undisturbed.1
  | channelClosed userChannelId => exact undisturbed.1
  | other => exact undisturbed.1

/-- Events are idempotent unless they are forwarded payments that earned a fee at another clock
reading: handled again an event changes nothing, at once or later, if no hold it closes was opened
anew and what was registered for its payment is as it was. -/
theorem events_idempotent (event : Event) (first again : Outside) (desk : Desk)
    (agrees : event.Agrees first again) :
    let handled := finalState (accountEvent first event) desk
    (finalState (accountEvent again event) handled).toBooks = handled.toBooks ∧
    (raised? (accountEvent first event) desk = none → ∀ moves : List DeskMove,
      event.Undisturbed again handled (handled.run moves) →
      (finalState (accountEvent again event) (handled.run moves)).toBooks =
        (handled.run moves).toBooks) := by
  intro handled
  by_cases claimable : ∃ hash amount deadline, event = .paymentClaimable hash amount deadline
  · obtain ⟨hash, amount, deadline, rfl⟩ := claimable
    have left : handled.Left hash := onClaimable_left first hash amount deadline desk
    refine ⟨congrArg toBooks (onClaimable_quiet again hash amount deadline left),
      fun _ moves undisturbed => congrArg toBooks
        (onClaimable_quiet again hash amount deadline fun row found => ?_)⟩
    rcases before : handled.heldGet hash with _ | old
    · exact absurd ((undisturbed.2 before).symm.trans found) nofun
    obtain ⟨later, isLater, leftLater⟩ :=
      (grows_run handled moves).held hash old before (left old before)
    cases isLater.symm.trans found
    exact leftLater
  have once := once_event agrees fun hash amount deadline same =>
    claimable ⟨hash, amount, deadline, same⟩
  refine ⟨once.same desk, fun returned moves undisturbed => ?_⟩
  have run : wp (accountEvent first event) (fun _ after => event.InBooks again after.toBooks)
      (fun _ after => True ∨ event.InBooks again after.toBooks) desk :=
    wp_mono (once.ends desk) (fun _ _ => id) fun _ _ _ => .inl trivial
  have inBooks : event.InBooks again handled.toBooks :=
    finalState_of_wp (fun _ => True) run fun raised isRaised =>
      absurd (returned.symm.trans isRaised) nofun
  exact (once.quiet ⟨⟩ _ (inBooks_later (grows_run handled moves) undisturbed inBooks)).same

namespace EventSample

open LedgerSample

def outside (nowSecs nowNanos : Nat) : Outside :=
  ⟨nowSecs, nowNanos, 800000, ⟨fun _ => false, fun _ => 0⟩, 0, fun _ _ _ => false,
    fun _ _ => none, fun _ => none⟩

/-- One invoice of Alice's, and nothing paid yet. -/
def desk : Desk :=
  ⟨⟨.empty, fun paymentHash => if paymentHash = LedgerSample.hash 1 then some alice else none,
    fun _ => none,
    fun _ => none⟩, []⟩

def received : Event := .paymentReceived none (hash 1) 50000

def spent : List DeskMove :=
  [.op (.holdSend alice "send:1" 20000 21000), .op (.settleSend 120 "send:1" 400 (some (hash 3)))]

def forwarded : Event := .paymentForwarded "prev" "next" none (some 1000) none (some 500000)

end EventSample

open LedgerSample EventSample

theorem events_idempotent_received :
    let handled := finalState (accountEvent (outside 100 1) received) desk
    (finalState (accountEvent (outside 900 2) received) (handled.run spent)).ledger.custody =
      29600 := by
  intro handled
  have same := (events_idempotent received (outside 100 1) (outside 900 2) desk
    (fun _ _ => rfl)).2 (by decide +kernel) spent
    ⟨nofun, by decide +kernel, by decide +kernel, nofun⟩
  have spentLedger : (handled.run spent).ledger.custody = 29600 := by decide +kernel
  exact (congrArg (fun books => books.ledger.custody) same).trans spentLedger

/-- A forwarded payment's fee is counted again when the event is. -/
theorem forwarded_counted_twice :
    let handled := finalState (accountEvent (outside 100 1) forwarded) desk
    handled.ledger.revenue.map RevenueRow.amountMsat = [1000] ∧
      (finalState (accountEvent (outside 900 2) forwarded) handled).ledger.revenue.map
        RevenueRow.amountMsat = [1000, 1000] := by
  decide +kernel

end Fortis.Lsp
