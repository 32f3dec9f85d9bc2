import Fortis.Lsp.Soundness

/-!
# What operations do to holds and entries

An operation touches only the holds it names, and writes entries of its own kind
only.  The operations that open and close holds are given by what they leave,
whatever the balances are: they either do all of it or leave the ledger alone.
-/

namespace Fortis.Lsp

open Fortis.Core Lib List Op

/-- Holds under ids of interest and entries of interest are as they were. -/
structure Apart (mine : String → Prop) (watched : EntryRow → Bool) (before after : Ledger) :
    Prop where
  holds : ∀ id, mine id → after.holds.get? id = before.holds.get? id
  entries : after.entries.filter watched = before.entries.filter watched

def Op.holdIds : Op → List String
  | .holdSend _ id _ _ | .holdWithdrawal _ id _ | .settleSend _ id _ _ | .settleHold _ id _ _ _
  | .settleWithdrawal _ id _ _ | .startConversion _ id | .finishConversion _ id _
  | .finishConversionBy _ id _ _ | .abandonConversion id => [id]
  | .renameHold old new => [old, new]
  | .credit .. | .transfer .. | .importEarlier .. | .importEntryFees _ => []

/-- The entries an operation may write. -/
def Op.MayEnter (op : Op) (row : EntryRow) : Prop :=
  match op with
  | .credit _ _ paymentHash _ => row.kind = .received ∧ row.paymentHash = some paymentHash
  | .transfer .. => row.kind = .internal
  | .settleSend _ _ _ paymentHash | .settleHold _ _ _ _ paymentHash =>
    row.kind = .sent ∧ row.paymentHash = paymentHash
  | .settleWithdrawal .. => row.kind = .withdrawn
  | .finishConversion .. | .finishConversionBy .. => row.kind = .converted
  | _ => False

def Op.isDebit : Op → Bool
  | .credit .. | .transfer .. => false
  | _ => true

/-- The operation neither earns a fee nor imports revenue. -/
def Op.isPlain : Op → Bool
  | .settleWithdrawal .. | .finishConversion .. | .finishConversionBy .. | .importEarlier ..
  | .importEntryFees _ => false
  | _ => true

/-- Everything an operation may do to what is not a balance. -/
structure Op.Effect (op : Op) (before after : Ledger) : Prop where
  holds : ∀ id, id ∉ op.holdIds → after.holds.get? id = before.holds.get? id
  entries : ∃ added, after.entries = before.entries ++ added ∧ (∀ row ∈ added, op.MayEnter row) ∧
    (op.isDebit = true → added.length ≤ 1 ∧ ∀ row ∈ added, row.amountMsat ≤ 0)
  revenue : before.revenue ⊆ after.revenue
  plain : op.isPlain = true → after.revenue = before.revenue

variable {kind : EntryKind} {amountMsat : Int} {feeMsat : Nat}
  {hash : Option (Fixed 32)} {node : String}

theorem subset_addRevenue (rows : List RevenueRow) (row : RevenueRow) :
    rows ⊆ addRevenue rows row := by
  unfold addRevenue
  split
  · exact List.Subset.refl rows
  · exact subset_append_left rows [row]

theorem subset_foldl_addRevenue (rows more : List RevenueRow) :
    rows ⊆ more.foldl addRevenue rows := by
  induction more generalizing rows with
  | nil => exact List.Subset.refl rows
  | cons row rest ih => exact List.Subset.trans (subset_addRevenue rows row) (ih _)

variable {now : Nat} {reference : String} {spentMsat : Nat}

section Holds

variable {ledger : Ledger} {id : String} {row : HoldRow}

theorem wp_holdKind {node : PublicKey} {amount baseMsat : Nat} {kind : String} :
    wp (holdKind node id amount baseMsat kind) (fun _ after => ledger.holds.get? id = none ∧
        after = ledger.reserved ⟨id, key node, asI64 amount, asI64 baseMsat, kind⟩)
      (Unchanged ledger) ledger := by
  rw [holdKind, wp_transaction]
  refine wp_seq (relates_iff_wp.mp (same_accountOf (key node)) ledger) (fun account read same => ?_)
    fun _ _ _ => rfl
  subst same
  rw [wp_bind, wp_abortIf]
  split
  · rfl
  rw [wp_bind, wp_get, wp_bind, wp_abortIf]
  split
  · rfl
  next free => exact ⟨not_not.mp free, rfl⟩

variable (found : ledger.holds.get? id = some row)
include found

theorem settleHold_nothing (nothing : min spentMsat row.amountMsat = 0)
    (now fee : Nat) (hash : Option (Fixed 32)) :
    settleHold now id spentMsat fee hash ledger = .ok ⟨⟩ (ledger.released id) := by
  have released : wp (settleHold now id spentMsat fee hash)
      (fun _ after => after = ledger.released id) (fun _ _ => False) ledger := by
    rw [settleHold, wp_transaction, wp_bind, wp_takeHold_found found]
    simp only [nothing, gt_iff_lt, Nat.lt_irrefl, if_false]
    rfl
  obtain ⟨_, _, ended, rfl⟩ := returns_of_wp released
  exact ended

/-- A hold closed with a debit: the hold is gone and one entry says what was
spent of it; or nothing is done. -/
theorem wp_settleHold (spends : 0 < min spentMsat row.amountMsat) :
    wp (settleHold now id spentMsat feeMsat hash)
      (fun _ after => after.holds = ledger.holds.delete id ∧ after.revenue = ledger.revenue ∧
        after.entries = ledger.entries ++ [ledger.nextEntry row.node now .sent
          (-(asI64 (min spentMsat row.amountMsat) : Int)) (asI64 feeMsat) hash])
      (Unchanged ledger) ledger := by
  rw [settleHold, wp_transaction, wp_bind, wp_takeHold_found found]
  simp only [wp_bind, gt_iff_lt, spends, if_true]
  exact wp_addBalance_frame (fun accounts => ⟨rfl, rfl, rfl⟩) fun _ => trivial

theorem wp_closeWithShare {share : RevenueKind} :
    wp (closeWithShare now id kind feeMsat hash share reference)
      (fun _ after => after.holds = ledger.holds.delete id ∧
        after.entries = ledger.entries ++ [ledger.nextEntry row.node now kind
          (-(asI64 row.amountMsat : Int)) (asI64 feeMsat) hash]) (Unchanged ledger) ledger := by
  rw [closeWithShare, wp_transaction, wp_bind, wp_takeHold_found found]
  simp only [wp_bind]
  refine wp_addBalance_frame (fun accounts => ?_) fun _ => trivial
  rw [wp_insertEntry]
  split
  · exact ⟨rfl, rfl⟩
  · exact ⟨rfl, rfl⟩

end Holds

/-! ## What an operation does -/

section

variable {op : Op} {ledger : Ledger} {id : String} {before after : Ledger}

theorem effect_quiet (holds : ∀ id, id ∉ op.holdIds → after.holds.get? id = before.holds.get? id)
    (entries : after.entries = before.entries) (revenue : after.revenue = before.revenue) :
    op.Effect before after :=
  ⟨holds, ⟨[], by rw [entries, append_nil], nofun, fun _ => ⟨Nat.zero_le _, nofun⟩⟩,
    revenue ▸ List.Subset.refl _, fun _ => revenue⟩

theorem effect_entered {row : EntryRow} (may : op.MayEnter row)
    (debit : op.isDebit = true → row.amountMsat ≤ 0)
    (holds : ∀ id, id ∉ op.holdIds → after.holds.get? id = before.holds.get? id)
    (entries : after.entries = before.entries ++ [row]) (revenue : before.revenue ⊆ after.revenue)
    (plain : op.isPlain = true → after.revenue = before.revenue) : op.Effect before after := by
  refine ⟨holds, ⟨[row], entries, ?_, fun isDebit => ⟨Nat.le_refl 1, ?_⟩⟩, revenue, plain⟩
  · rintro _ (_ | ⟨_, never⟩)
    · exact may
    · cases never
  · rintro _ (_ | ⟨_, never⟩)
    · exact debit isDebit
    · cases never

section

variable (named : id ∈ op.holdIds)
include named

theorem get?_released (own : String) (other : own ∉ op.holdIds) :
    (ledger.released id).holds.get? own = ledger.holds.get? own :=
  (ledger.holds.get?_delete id own).trans (if_neg fun same : own = id => other (same ▸ named))

theorem holdKind_effect {node : PublicKey} {amount baseMsat : Nat} {kind : String}
    : wp (holdKind node id amount baseMsat kind)
      (fun _ => op.Effect ledger) (Unchanged ledger) ledger := by
  refine wp_mono wp_holdKind (fun _ after reserved => ?_) fun _ _ same => same
  rw [reserved.2]
  exact effect_quiet (fun own other => ledger.holds.get?_put_of_ne
    fun same : own = id => other (same ▸ named)) rfl rfl

theorem settleHold_effect
    (may : ∀ row : EntryRow, row.kind = .sent → row.paymentHash = hash → op.MayEnter row) :
    wp (settleHold now id spentMsat feeMsat hash) (fun _ => op.Effect ledger)
      (Unchanged ledger) ledger := by
  rw [settleHold, wp_transaction, wp_bind]
  refine wp_takeHold (fun row _ => ?_) rfl
  dsimp only
  split
  · rw [wp_bind]
    refine wp_addBalance_frame (fun accounts => ?_) fun _ => rfl
    exact effect_entered (may _ rfl rfl)
      (fun _ => Int.neg_nonpos_of_nonneg (Int.natCast_nonneg _)) (get?_released named) rfl
      (List.Subset.refl _) fun _ => rfl
  · exact effect_quiet (get?_released named) rfl rfl

theorem closeWithShare_effect {share : RevenueKind}
    (may : ∀ row : EntryRow, row.kind = kind → op.MayEnter row) (earns : op.isPlain = false) :
    wp (closeWithShare now id kind feeMsat hash share reference) (fun _ => op.Effect ledger)
      (Unchanged ledger) ledger := by
  rw [closeWithShare, wp_transaction, wp_bind]
  refine wp_takeHold (fun row _ => ?_) rfl
  simp only [wp_bind]
  refine wp_addBalance_frame (fun accounts => ?_) fun _ => trivial
  rw [wp_insertEntry]
  split
  · exact effect_entered (may _ rfl) (fun _ => Int.neg_nonpos_of_nonneg (Int.natCast_nonneg _))
      (get?_released named) rfl (subset_addRevenue _ _) fun plain => by cases earns.symm.trans plain
  · exact effect_entered (may _ rfl) (fun _ => Int.neg_nonpos_of_nonneg (Int.natCast_nonneg _))
      (get?_released named) rfl (List.Subset.refl _) fun _ => rfl

end

theorem importOnce_effect {rows : Ledger → List RevenueRow} (earns : op.isPlain = false) :
    wp (importOnce now reference rows) (fun _ => op.Effect ledger) (Unchanged ledger) ledger := by
  rw [importOnce, wp_transaction, wp_bind, wp_get]
  split
  · exact effect_quiet (fun _ _ => rfl) rfl rfl
  refine ⟨fun _ _ => rfl, ⟨[], (append_nil _).symm, by simp, fun _ => ⟨Nat.zero_le _, by simp⟩⟩,
    ?_, fun plain => by cases earns.symm.trans plain⟩
  exact List.Subset.trans (subset_foldl_addRevenue _ _) (subset_append_left _ _)

/-- An operation that fails has done nothing, and one that returns has done only this. -/
theorem wp_exec_effect (op : Op) (ledger : Ledger) :
    wp op.exec (fun _ => op.Effect ledger) (Unchanged ledger) ledger := by
  cases op with
  | credit now node paymentHash amountMsat =>
    rw [exec, wp_discard]
    simp only [credit, insertCredit, wp_transaction, wp_bind, wp_get]
    split
    · exact effect_quiet (fun _ _ => rfl) rfl rfl
    rw [wp_bind, wp_insertEntry, wp_pure, if_pos rfl, wp_bind]
    refine wp_addBalance_frame (fun _ => ?_) fun _ => trivial
    exact effect_entered ⟨rfl, rfl⟩ (absurd · Bool.false_ne_true) (fun _ _ => rfl) rfl
      (List.Subset.refl _) fun _ => rfl
  | holdSend node id amountMsat reserveMsat => exact holdKind_effect mem_cons_self
  | holdWithdrawal node id amountMsat => exact holdKind_effect mem_cons_self
  | settleSend now id feeMsat paymentHash =>
    rw [exec, settleSend, wp_bind, wp_get]
    split
    · rfl
    · exact settleHold_effect mem_cons_self fun _ kind hash => ⟨kind, hash⟩
  | settleHold now id spentMsat feeMsat paymentHash =>
    exact settleHold_effect mem_cons_self fun _ kind hash => ⟨kind, hash⟩
  | settleWithdrawal now id feeMsat txid =>
    exact closeWithShare_effect mem_cons_self (fun _ kind => kind) rfl
  | transfer now sender receiver paymentHash amountMsat =>
    rw [exec, wp_discard]
    simp only [transfer, insertCredit, wp_transaction, wp_bind, wp_get]
    split
    · exact effect_quiet (fun _ _ => rfl) rfl rfl
    rw [wp_bind, wp_insertEntry, wp_pure, if_pos rfl]
    refine wp_seq (relates_iff_wp.mp (same_accountOf _) _) (fun account read same => ?_)
      fun _ _ _ => trivial
    subst same
    simp only [wp_bind, wp_abortIf]
    split
    · trivial
    refine wp_addBalance_frame (fun debited => ?_) fun _ => trivial
    refine wp_addBalance_frame (fun both => ?_) fun _ => trivial
    refine ⟨fun _ _ => rfl, ⟨_, append_assoc _ _ _, ?_, (absurd · Bool.false_ne_true)⟩,
      List.Subset.refl _, fun _ => rfl⟩
    rintro _ (_ | ⟨_, _ | ⟨_, never⟩⟩)
    · rfl
    · rfl
    · cases never
  | startConversion node id =>
    rw [exec, wp_discard, startConversion]
    refine wp_seq (relates_iff_wp.mp (same_accountOf _) _) (fun account read same => ?_)
      fun _ _ same => same
    subst same
    rw [wp_bind]
    exact holdKind_effect mem_cons_self
  | finishConversion now id feeMsat =>
    exact closeWithShare_effect mem_cons_self (fun _ kind => kind) rfl
  | finishConversionBy now id feeMsat paymentHash =>
    exact closeWithShare_effect mem_cons_self (fun _ kind => kind) rfl
  | abandonConversion id =>
    rw [exec, abandonConversion, wp_transaction, wp_bind]
    exact wp_takeHold (fun _ _ => effect_quiet (get?_released mem_cons_self) rfl rfl) rfl
  | renameHold old new =>
    rw [exec, renameHold, wp_bind, wp_get]
    split
    · rfl
    rw [wp_bind, wp_abortIf]
    split
    · rfl
    refine effect_quiet (fun own other => ?_) rfl rfl
    have notNew : own ≠ new := fun same => other (by simp [holdIds, same])
    have notOld : own ≠ old := fun same => other (by simp [holdIds, same])
    change ((ledger.holds.delete old).put _).get? own = _
    rw [Table.get?_put_of_ne _ notNew, Table.get?_delete, if_neg notOld]
  | importEarlier now payments =>
    rw [exec, wp_discard]
    exact importOnce_effect rfl
  | importEntryFees now =>
    rw [exec, wp_discard]
    exact importOnce_effect rfl

end

section Apart

variable {mine : String → Prop} {watched : EntryRow → Bool}

theorem apart_refl (ledger : Ledger) : Apart mine watched ledger ledger :=
  ⟨fun _ _ => rfl, rfl⟩

/-- An operation that names none of the holds and writes none of the entries of
interest leaves them alone. -/
theorem apart_exec (op : Op) (other : ∀ id ∈ op.holdIds, ¬ mine id)
    (unwatched : ∀ row, op.MayEnter row → watched row = false) :
    Relates (Apart mine watched) op.exec := by
  refine relates_iff_wp.mpr fun ledger => wp_mono (wp_exec_effect op ledger) (fun _ after effect =>
      ⟨fun id isMine => effect.holds id fun named => other id named isMine, ?_⟩)
    fun _ _ same => same ▸ apart_refl _
  obtain ⟨added, same, may, _⟩ := effect.entries
  have none_watched : ∀ row ∈ added, ¬ watched row = true := fun row mem => by
    rw [unwatched row (may row mem)]
    exact Bool.false_ne_true
  rw [same, filter_append, filter_eq_nil_iff.mpr none_watched, append_nil]

end Apart

variable {ledger : Ledger}

theorem wp_credit_entries (now : Nat) (node : PublicKey) (hash : Fixed 32)
    (amount : Nat) : wp (credit now node hash amount) (fun _ after =>
        (credited ledger (key node) hash = true ∧ after = ledger) ∨
        (credited ledger (key node) hash = false ∧ ∃ row : EntryRow, row.node = key node ∧
          row.paymentHash = some hash ∧ row.amountMsat = asI64 amount ∧
          after.entries = ledger.entries ++ [row])) (Unchanged ledger) ledger := by
  simp only [credit, insertCredit, wp_transaction, wp_bind, wp_get]
  split
  next seen => exact .inl ⟨seen, rfl⟩
  next new =>
  rw [wp_bind, wp_insertEntry, wp_pure, if_pos rfl, wp_bind]
  exact wp_addBalance_frame
    (fun _ => .inr ⟨Bool.not_eq_true _ ▸ new, _, rfl, rfl, rfl, rfl⟩) fun _ => trivial

/-- A transfer makes both its entries, or the invoice was paid and it does nothing. -/
theorem wp_transfer_entries (sound : ledger.Sound) (bounded : ledger.Bounded) (now : Nat)
    (sender node : PublicKey) (hash : Fixed 32) (amountMsat : Nat) :
    wp (transfer now sender node hash amountMsat) (fun inserted after =>
        (inserted = false ∧ credited ledger (key node) hash = true ∧ after = ledger) ∨
        (inserted = true ∧ credited ledger (key node) hash = false ∧
          (amountMsat : Int) ≤ ledger.balanceOf (key sender) ∧ ∃ into out : EntryRow,
          after.entries = ledger.entries ++ [into, out] ∧
          (into.node = key node ∧ into.kind = .internal ∧ into.amountMsat = amountMsat ∧
            into.paymentHash = some hash) ∧
          out.node = key sender ∧ out.amountMsat = -(amountMsat : Int) ∧ out.paymentHash = none))
      (Unchanged ledger) ledger := by
  simp only [transfer, insertCredit, wp_transaction, wp_bind, wp_get]
  split
  next seen => exact .inl ⟨rfl, seen, rfl⟩
  next new =>
  rw [wp_bind, wp_insertEntry, wp_pure, if_pos rfl, wp_bind]
  refine wp_accountOf (show Ledger.Integral (ledger.entered _) from sound.integral) ?_
    fun _ => trivial
  simp only [wp_bind, wp_abortIf]
  split
  · trivial
  next enough =>
  dsimp only [Account.freeMsat] at enough
  rw [Ledger.balanceOf_entered, Ledger.held_entered] at enough
  have nonneg := sound.balance_nonneg (key sender)
  have explained := sound.explained (key sender)
  have fits := bounded (key sender)
  have whole : asI64 amountMsat = amountMsat := by
    unfold asI64
    omega
  rw [whole]
  refine wp_addBalance_frame (fun debited => ?_) fun _ => trivial
  refine wp_addBalance_frame (fun both => ?_) fun _ => trivial
  rw [wp_insertEntry]
  refine .inr ⟨rfl, Bool.not_eq_true _ ▸ new, by omega, _, _, append_assoc _ _ _, ?_⟩
  exact ⟨⟨rfl, rfl, rfl, rfl⟩, rfl, rfl, rfl⟩

end Fortis.Lsp
