import Fortis.Lsp.Events

/-!
# The operator's revenue

A fee is recorded when it is earned, under a reference that names what it was earned for; the fees
of older account entries are imported later, once.  The import names a withdrawal by its
transaction, as the live operation does, but a conversion by the number of its entry.
-/

namespace Fortis.Lsp

open Fortis.Core Lib List Ledger

/-- What is to be counted once. -/
structure Fee where
  (kind reference : String)
  amountMsat : Nat
  deriving DecidableEq

def Fee.name (fee : Fee) : String × String := (fee.kind, fee.reference)

def RevenueRow.fee (row : RevenueRow) : Fee := ⟨row.kind, row.reference, row.amountMsat⟩

/-- The report leaves the imports' markers out. -/
def RevenueRow.isMarker (row : RevenueRow) : Bool := row.kind = "marker"

def Ledger.fees (ledger : Ledger) : List Fee :=
  (ledger.revenue.filter fun row => !row.isMarker).map RevenueRow.fee

def Ledger.entryFees (ledger : Ledger) : List RevenueRow := ledger.entries.filterMap entryFee

def totalMsat (fees : List Fee) : Nat := (fees.map Fee.amountMsat).sum

inductive FeeMove
  | withdrawal (now : Nat) (id : String) (feeMsat : Nat) (txid : Fixed 32)
  | conversion (now : Nat) (id : String) (feeMsat : Nat) (paymentHash : Option (Fixed 32))
  | routed (now : Nat) (kind : RevenueKind) (amountMsat : Nat) (node : Option PublicKey)
      (reference : String)
  | feeInvoice (now : Nat) (owner : PublicKey) (paymentHash : Fixed 32) (amountMsat : Nat)
  | importFees (now : Nat)
  | other (op : Op) (plain : op.isPlain = true)

namespace FeeMove

def exec : FeeMove → LedgerM PUnit
  | withdrawal now id feeMsat txid => settleWithdrawal now id feeMsat txid
  | conversion now id feeMsat paymentHash => finishConversionBy now id feeMsat paymentHash
  | routed now kind amountMsat node reference => recordRevenue now kind amountMsat node reference
  | feeInvoice now owner paymentHash amountMsat =>
    feeInvoicePaid now (some owner) paymentHash amountMsat
  | importFees now => discard (importEntryFees now)
  | other op _ => op.exec

def earns : FeeMove → Option Fee
  | withdrawal _ _ feeMsat txid =>
    if feeMsat > 0 then some ⟨RevenueKind.withdrawalFee.asStr,
      "withdrawal:" ++ hexEncode txid.val, asI64 feeMsat⟩ else none
  | conversion _ id feeMsat _ =>
    if feeMsat > 0 then some ⟨RevenueKind.channelFee.asStr, "conversion:" ++ id, asI64 feeMsat⟩
    else none
  | routed _ kind amountMsat _ reference =>
    if amountMsat > 0 then some ⟨kind.asStr, reference, asI64 amountMsat⟩ else none
  | feeInvoice _ _ paymentHash amountMsat =>
    some ⟨RevenueKind.transferFee.asStr, hexEncode paymentHash.val, asI64 amountMsat⟩
  | importFees _ | other _ _ => none

/-- The fees charged by a step: none if it fails. -/
def charged (ledger : Ledger) (move : FeeMove) : List Fee :=
  if raised? move.exec ledger = none then move.earns.toList else []

def isImport : FeeMove → Bool
  | importFees _ => true
  | _ => false

/-- A conversion that earns a fee. -/
def isPaidConversion : FeeMove → Bool
  | conversion _ _ feeMsat _ => 0 < feeMsat
  | _ => false

end FeeMove

def feeRun (start : Ledger) (moves : List FeeMove) : Ledger × List Fee :=
  moves.foldl (fun state move => (finalState move.exec state.1, state.2 ++ move.charged state.1))
    (start, [])

section Recording

variable {ledger : Ledger} {rows : List RevenueRow} {row : RevenueRow}

theorem addRevenue_known (known : row.fee.name ∈ rows.map fun row => row.fee.name) :
    addRevenue rows row = rows := by
  obtain ⟨old, mem, same⟩ := mem_map.mp known
  refine if_pos (any_eq_true.mpr ⟨old, mem, decide_eq_true ?_⟩)
  exact ⟨congrArg Prod.fst same, congrArg Prod.snd same⟩

theorem addRevenue_new (new : row.fee.name ∉ rows.map fun row => row.fee.name) :
    addRevenue rows row = rows ++ [row] := by
  refine if_neg fun known => new ?_
  obtain ⟨old, mem, same⟩ := any_eq_true.mp known
  have same : old.kind = row.kind ∧ old.reference = row.reference := of_decide_eq_true same
  exact mem_map.mpr ⟨old, mem, Prod.ext same.1 same.2⟩

theorem foldl_addRevenue_known {more : List RevenueRow}
    (known : ∀ row ∈ more, row.fee.name ∈ rows.map fun row => row.fee.name) :
    more.foldl addRevenue rows = rows := by
  induction more with
  | nil => rfl
  | cons row rest ih =>
    rw [foldl_cons, addRevenue_known (known row mem_cons_self)]
    exact ih fun other mem => known other (mem_cons_of_mem row mem)

theorem foldl_addRevenue_new {more : List RevenueRow}
    (nodup : (more.map fun row => row.fee.name).Nodup)
    (new : ∀ row ∈ more, row.fee.name ∉ rows.map fun row => row.fee.name) :
    more.foldl addRevenue rows = rows ++ more := by
  induction more generalizing rows with
  | nil => exact (append_nil rows).symm
  | cons row rest ih =>
    rw [map_cons, nodup_cons] at nodup
    rw [foldl_cons, addRevenue_new (new row mem_cons_self), ih nodup.2,
      append_assoc, singleton_append]
    intro other mem known
    rw [map_append, mem_append] at known
    rcases known with old | same
    · exact new other (mem_cons_of_mem row mem) old
    have same : other.fee.name = row.fee.name := mem_singleton.mp same
    exact nodup.1 (same ▸ mem_map_of_mem mem)

theorem name_mem_revenue {fee : Fee} (real : fee.kind ≠ "marker") :
    fee.name ∈ (ledger.revenue.map fun row => row.fee.name) ↔
      fee.name ∈ ledger.fees.map Fee.name := by
  unfold fees
  rw [map_map, mem_map, mem_map]
  constructor
  · rintro ⟨row, mem, same⟩
    refine ⟨row, mem_filter.mpr ⟨mem, ?_⟩, same⟩
    have kind : row.kind = fee.kind := congrArg Prod.fst same
    unfold RevenueRow.isMarker
    rw [kind]
    simp [real]
  rintro ⟨row, mem, same⟩
  exact ⟨row, (mem_filter.mp mem).1, same⟩

theorem fees_append {row : RevenueRow} (real : row.kind ≠ "marker") :
    Ledger.fees { ledger with revenue := ledger.revenue ++ [row] } = ledger.fees ++ [row.fee] := by
  unfold fees
  rw [filter_append, filter_cons_of_pos (by unfold RevenueRow.isMarker; simp [real]), map_append]
  rfl

theorem asStr_ne_marker (kind : RevenueKind) : kind.asStr ≠ "marker" := by
  cases kind <;> decide

theorem marked_append {reference : String} (real : row.kind ≠ "marker") :
    marked { ledger with revenue := ledger.revenue ++ [row] } reference =
      marked ledger reference := by
  unfold marked
  rw [any_append]
  simp [real]

end Recording

/-! ## What a step does -/

section

variable {ledger : Ledger}

theorem entryFees_of_plain (op : Op) (plain : op.isPlain = true) :
    Relates (fun before after : Ledger => after.entryFees = before.entryFees) op.exec := by
  have apart : Relates (Apart (fun _ => False) fun row => (entryFee row).isSome) op.exec := by
    refine apart_exec op (fun _ _ never => never) fun row may => ?_
    unfold entryFee
    split
    · rfl
    cases op with
    | settleWithdrawal | finishConversion | finishConversionBy | importEarlier
    | importEntryFees => cases plain
    | credit now node hash amountMsat => rw [may.1]; rfl
    | transfer now sender receiver hash amountMsat =>
      have kind : row.kind = .internal := may
      rw [kind]
      rfl
    | settleSend now id feeMsat hash => rw [may.1]; rfl
    | settleHold now id spentMsat feeMsat hash => rw [may.1]; rfl
    | _ => exact may.elim
  have reads : ∀ rows : List EntryRow, rows.filterMap entryFee =
      (rows.filter fun row => (entryFee row).isSome).filterMap entryFee := by
    intro rows
    rw [filterMap_filter]
    refine congrArg (fun read => rows.filterMap read) (funext fun row => ?_)
    cases entryFee row <;> rfl
  refine apart.mono fun before after same => ?_
  unfold entryFees
  rw [reads, same.entries, ← reads]

/-- What a step other than an import records, and what its entries tell. -/
structure FeeMove.Done (move : FeeMove) (before after : Ledger) : Prop where
  nothing : move.earns = none → after.revenue = before.revenue
  records : ∀ fee, move.earns = some fee →
    ∃ row : RevenueRow, row.fee = fee ∧ after.revenue = addRevenue before.revenue row
  tells : ∃ told, after.entryFees = before.entryFees ++ told ∧
    (move.isPaidConversion = false → ∀ row ∈ told, ∃ fee, move.earns = some fee ∧
      row.fee.name = fee.name)

theorem entryFees_append {before after : Ledger} {entry : EntryRow}
    (added : after.entries = before.entries ++ [entry]) :
    after.entryFees = before.entryFees ++ (entryFee entry).toList := by
  unfold entryFees
  rw [added, filterMap_append, filterMap_cons]
  cases entryFee entry <;> rfl

section

variable {before after : Ledger} {fee : Fee} {move : FeeMove}

theorem FeeMove.Done.of_unearned (unearned : move.earns = none)
    (same : after.revenue = before.revenue) (untold : after.entryFees = before.entryFees) :
    move.Done before after where
  nothing _ := same
  records _ earned := nomatch unearned.symm.trans earned
  tells := ⟨[], untold.trans (append_nil _).symm, nofun⟩

theorem FeeMove.Done.of_earned {told : List RevenueRow} (earned : move.earns = some fee)
    (recorded : ∃ row : RevenueRow, row.fee = fee ∧ after.revenue = addRevenue before.revenue row)
    (adds : after.entryFees = before.entryFees ++ told)
    (names : move.isPaidConversion = false → ∀ row ∈ told, row.fee.name = fee.name) :
    move.Done before after where
  nothing none := nomatch earned.symm.trans none
  records other same := by
    cases earned.symm.trans same
    exact recorded
  tells := ⟨told, adds, fun unpaid row mem => ⟨fee, earned, names unpaid row mem⟩⟩

end

/-- A hold closed with the operator's share, by a move that earns the share its entry names. -/
theorem wp_closeWithShare_done {move : FeeMove} {now : Nat} {id : String} {kind : EntryKind}
    {fee : Nat} {hash : Option (Fixed 32)} {share : RevenueKind} {reference : String}
    (earns : move.earns =
      if 0 < fee then some ⟨share.asStr, reference, asI64 fee⟩ else none)
    (names : 0 < fee → move.isPaidConversion = false → ∀ entry : EntryRow, entry.kind = kind →
      entry.paymentHash = hash →
        ∀ row ∈ (entryFee entry).toList, row.fee.name = (share.asStr, reference)) :
    wp (closeWithShare now id kind fee hash share reference)
      (fun _ => move.Done ledger) (Unchanged ledger) ledger := by
  rw [closeWithShare, wp_transaction, wp_bind]
  refine wp_takeHold (fun row found => ?_) rfl
  simp only [wp_bind]
  refine wp_addBalance_frame (fun accounts => ?_) fun _ => trivial
  rw [wp_insertEntry]
  split
  next positive =>
    rw [if_pos positive] at earns
    exact .of_earned earns ⟨⟨now, share.asStr, asI64 fee, some row.node, reference⟩, rfl, rfl⟩
      (entryFees_append rfl) fun unpaid => names positive unpaid _ rfl rfl
  next none =>
    rw [if_neg none] at earns
    refine .of_unearned earns rfl ((entryFees_append rfl).trans ?_)
    obtain rfl := Nat.eq_zero_of_not_pos none
    exact append_nil _

theorem wp_feeMove (move : FeeMove) (live : move.isImport = false) :
    wp move.exec (fun _ => move.Done ledger) (Unchanged ledger) ledger := by
  cases move with
  | withdrawal now id feeMsat txid =>
    refine wp_closeWithShare_done rfl fun _ _ entry kind hash row mem => ?_
    unfold entryFee at mem
    split at mem
    · cases mem
    rw [kind, hash] at mem
    cases mem_singleton.mp mem
    rfl
  | conversion now id feeMsat paymentHash =>
    refine wp_closeWithShare_done rfl fun earns unpaid => ?_
    exact absurd unpaid (by unfold FeeMove.isPaidConversion; simp [earns])
  | routed now kind amountMsat node reference =>
    change wp (recordRevenue now kind amountMsat node reference) _ _ _
    unfold recordRevenue
    split
    next zero =>
      subst zero
      exact .of_unearned rfl rfl rfl
    next positive =>
    exact .of_earned (if_pos (Nat.pos_of_ne_zero positive)) ⟨_, rfl, rfl⟩ (append_nil _).symm nofun
  | feeInvoice now owner paymentHash amountMsat =>
    exact .of_earned rfl ⟨_, rfl, rfl⟩ (append_nil _).symm nofun
  | importFees now => cases live
  | other op plain =>
    refine wp_mono (wp_and (wp_exec_effect op ledger)
      (relates_iff_wp.mp (entryFees_of_plain op plain) ledger)) (fun _ after kept => ?_)
      fun _ _ kept => kept.1
    exact .of_unearned rfl (kept.1.plain plain) kept.2

end

/-! ## Runs -/

section

variable {start ledger : Ledger} {imported : Bool} {free : Prop} {charges : List Fee}

/-- The fees recorded are those charged, and those of earlier entries once imported. -/
structure Counted (start : Ledger) (imported : Bool) (free : Prop) (charges : List Fee)
    (ledger : Ledger) : Prop where
  fees : ledger.fees.Perm (charges ++ if imported then start.entryFees.map RevenueRow.fee else [])
  mark : marked ledger "entry-fee-import" = imported
  told : free → imported = false → ∃ more, ledger.entryFees = start.entryFees ++ more ∧
    ∀ row ∈ more, row.fee.name ∈ charges.map Fee.name

variable {move : FeeMove} {moves : List FeeMove} {row : RevenueRow}

theorem entryFee_ne_marker {entry : EntryRow} (told : entryFee entry = some row) :
    row.kind ≠ "marker" := by
  unfold entryFee at told
  split at told
  · cases told
  split at told
  · cases told
    exact show "channel_fee" ≠ "marker" by decide
  · cases told
    exact show "withdrawal_fee" ≠ "marker" by decide
  · cases told

theorem entryFees_ne_marker (mem : row ∈ ledger.entryFees) : row.kind ≠ "marker" := by
  obtain ⟨entry, _, told⟩ := mem_filterMap.mp mem
  exact entryFee_ne_marker told

theorem earns_ne_marker {fee : Fee} (earned : move.earns = some fee) : fee.kind ≠ "marker" := by
  unfold FeeMove.earns at earned
  split at earned
  · split at earned
    · cases earned
      exact asStr_ne_marker .withdrawalFee
    · cases earned
  · split at earned
    · cases earned
      exact asStr_ne_marker .channelFee
    · cases earned
  · split at earned
    · cases earned
      exact asStr_ne_marker _
    · cases earned
  · cases earned
    exact asStr_ne_marker .transferFee
  · cases earned
  · cases earned

/-- A move of the running service books the fees it charges. -/
theorem Counted.live (counted : Counted start imported free charges ledger)
    (live : move.isImport = false)
    (fresh : ∀ fee ∈ move.charged ledger, fee.name ∉ ledger.fees.map Fee.name) :
    Counted start imported (free ∧ move.isPaidConversion = false)
      (charges ++ move.charged ledger) (finalState move.exec ledger) := by
  have spec : wp move.exec (fun _ => move.Done ledger) (Unchanged ledger) ledger :=
    wp_feeMove move live
  unfold FeeMove.charged at fresh ⊢
  cases ended : raised? move.exec ledger with
  | some fault =>
    have same : finalState move.exec ledger = ledger := fail_of_raised spec ended
    rw [if_neg (by simp), append_nil, same]
    exact { counted with told := fun isFree => counted.told isFree.1 }
  | none =>
    have done := post_of_returned spec ended
    rw [ended, if_pos rfl] at fresh
    rw [if_pos rfl]
    obtain ⟨told, tells, known⟩ := done.tells
    have isTold : free ∧ move.isPaidConversion = false → imported = false → ∃ more,
        (finalState move.exec ledger).entryFees = start.entryFees ++ more ∧
        ∀ row ∈ more, row.fee.name ∈ (charges ++ move.earns.toList).map Fee.name := by
      intro isFree notYet
      obtain ⟨more, entries, recorded⟩ := counted.told isFree.1 notYet
      refine ⟨more ++ told, by rw [tells, entries, append_assoc], fun row mem => ?_⟩
      rw [map_append, mem_append]
      rcases mem_append.mp mem with old | new
      · exact .inl (recorded row old)
      obtain ⟨fee, earned, same⟩ := known isFree.2 row new
      rw [earned, same]
      exact .inr mem_cons_self
    rcases earned : move.earns with _ | fee
    · have same := done.nothing earned
      rw [earned] at isTold
      refine ⟨?_, ?_, isTold⟩
      · unfold Ledger.fees
        rw [same, Option.toList_none, append_nil]
        exact counted.fees
      unfold marked
      rw [same]
      exact counted.mark
    obtain ⟨row, isFee, added⟩ := done.records fee earned
    have real : row.kind ≠ "marker" := by
      have kind := earns_ne_marker earned
      rw [← isFee] at kind
      exact kind
    have new : row.fee.name ∉ ledger.revenue.map fun row => row.fee.name := by
      intro recorded
      rw [isFee, name_mem_revenue (earns_ne_marker earned)] at recorded
      rw [earned] at fresh
      exact fresh fee mem_cons_self recorded
    rw [addRevenue_new new] at added
    rw [earned] at isTold
    refine ⟨?_, ?_, isTold⟩
    · have fees : (finalState move.exec ledger).fees = ledger.fees ++ [fee] := by
        have appended : Ledger.fees { ledger with revenue := ledger.revenue ++ [row] } =
            ledger.fees ++ [row.fee] := fees_append real
        unfold Ledger.fees at appended ⊢
        rw [added, appended, isFee]
      rw [fees]
      refine (counted.fees.append_right [fee]).trans ?_
      rw [append_assoc, Option.toList_some, append_assoc]
      exact (perm_append_comm).append_left charges
    have kept : marked { ledger with revenue := ledger.revenue ++ [row] }
        "entry-fee-import" = marked ledger "entry-fee-import" := marked_append real
    unfold marked at kept ⊢
    rw [added, kept]
    exact counted.mark

/-- The import adds the fees of the earlier entries, the first time it runs. -/
theorem Counted.imports (counted : Counted start imported free charges ledger) (now : Nat)
    (early : imported = true ∨ free)
    (nodup : ((charges ++ start.entryFees.map RevenueRow.fee).map Fee.name).Nodup) :
    Counted start true free charges (finalState (FeeMove.importFees now).exec ledger) := by
  refine finalState_both ?_
  change wp (discard (importEntryFees now)) _ _ _
  rw [wp_discard, importEntryFees, importOnce, wp_transaction, wp_bind, wp_get, counted.mark]
  cases imported with
  | true => exact counted
  | false =>
    obtain ⟨more, entries, known⟩ := counted.told (early.resolve_left Bool.false_ne_true) rfl
    have recorded := counted.fees
    rw [if_neg Bool.false_ne_true, append_nil] at recorded
    -- The fees of the earlier entries are new, those told of since are known.
    rw [map_append, map_map] at nodup
    have names := nodup_append.mp nodup
    have new : ∀ row ∈ start.entryFees,
        row.fee.name ∉ ledger.revenue.map fun row => row.fee.name := by
      intro row mem old
      rw [name_mem_revenue (entryFees_ne_marker mem), (recorded.map Fee.name).mem_iff] at old
      exact names.2.2 _ old _ (mem_map_of_mem mem) rfl
    have isImported : ledger.entryFees.foldl addRevenue ledger.revenue =
        ledger.revenue ++ start.entryFees := by
      rw [entries, foldl_append, foldl_addRevenue_new names.2.1 new]
      refine foldl_addRevenue_known fun row mem => ?_
      have real : row.kind ≠ "marker" := entryFees_ne_marker (by
        rw [entries]
        exact mem_append_right _ mem)
      rw [map_append, mem_append]
      refine .inl ((name_mem_revenue real).mpr ?_)
      rw [(recorded.map Fee.name).mem_iff]
      exact known row mem
    have older : (start.entryFees.filter fun row => !row.isMarker) = start.entryFees := by
      refine filter_eq_self.mpr fun row mem => ?_
      unfold RevenueRow.isMarker
      simp [entryFees_ne_marker mem]
    change Counted start true free charges { ledger with
      revenue := ledger.entryFees.foldl addRevenue ledger.revenue ++
        [⟨now, "marker", 0, none, "entry-fee-import"⟩] }
    rw [isImported]
    refine ⟨?_, ?_, by simp⟩
    · unfold Ledger.fees
      rw [filter_append, filter_append, older]
      change ((_ ++ start.entryFees) ++ []).map RevenueRow.fee |>.Perm _
      rw [append_nil, map_append, if_pos rfl]
      exact recorded.append_right _
    unfold marked
    rw [any_append]
    simp

theorem feeRun_snoc (moves : List FeeMove) (move : FeeMove) :
    feeRun start (moves ++ [move]) = (finalState move.exec (feeRun start moves).1,
      (feeRun start moves).2 ++ move.charged (feeRun start moves).1) := by
  unfold feeRun
  rw [foldl_append]
  rfl

/-- No conversion earned a fee before the first import. -/
def ImportsFirst (moves : List FeeMove) : Prop :=
  ∀ before now later, moves = before ++ .importFees now :: later →
    before.any FeeMove.isImport = false → ∀ move ∈ before, move.isPaidConversion = false

theorem ImportsFirst.init (first : ImportsFirst (moves ++ [move])) : ImportsFirst moves := by
  intro before now later split
  refine first before now (later ++ [move]) ?_
  rw [split, append_assoc, cons_append]

theorem counted_run (blank : start.revenue = []) (first : ImportsFirst moves)
    (nodup : (((feeRun start moves).2 ++ start.entryFees.map RevenueRow.fee).map
      Fee.name).Nodup) : Counted start (moves.any FeeMove.isImport)
      (∀ move ∈ moves, move.isPaidConversion = false) (feeRun start moves).2
        (feeRun start moves).1 := by
  induction moves using reverseRecOn with
  | nil =>
    refine ⟨?_, ?_, fun _ _ => ⟨[], (append_nil _).symm, nofun⟩⟩
    · unfold fees feeRun
      rw [foldl_nil, blank]
      exact List.Perm.nil
    unfold marked feeRun
    rw [foldl_nil, blank]
    rfl
  | append_singleton moves move ih =>
    rw [feeRun_snoc] at nodup ⊢
    have shorter : (((feeRun start moves).2 ++ start.entryFees.map RevenueRow.fee).map
        Fee.name).Nodup := by
      refine nodup.sublist (List.Sublist.map Fee.name ?_)
      exact List.Sublist.append_right (sublist_append_left _ _) _
    have counted := ih first.init shorter
    rw [any_append, any_cons, any_nil, Bool.or_false]
    cases isImport : move.isImport with
    | true =>
      obtain ⟨now, rfl⟩ : ∃ now, move = .importFees now := by
        cases move with
        | importFees now => exact ⟨now, rfl⟩
        | _ => cases isImport
      have early : moves.any FeeMove.isImport = true ∨
          ∀ move ∈ moves, move.isPaidConversion = false := by
        cases before : moves.any FeeMove.isImport with
        | true => exact .inl rfl
        | false => exact .inr (first moves now [] rfl before)
      have nothing : (FeeMove.importFees now).charged (feeRun start moves).1 = [] := by
        unfold FeeMove.charged
        split
        · rfl
        · rfl
      rw [Bool.or_true, nothing, append_nil]
      have after := counted.imports now early shorter
      exact { after with told := nofun }
    | false =>
      rw [Bool.or_false]
      have fresh : ∀ fee ∈ move.charged (feeRun start moves).1,
          fee.name ∉ (feeRun start moves).1.fees.map Fee.name := by
        intro fee mem known
        rw [(counted.fees.map Fee.name).mem_iff, map_append, mem_append] at known
        rw [append_assoc, map_append, map_append] at nodup
        have charged : fee.name ∈ (move.charged (feeRun start moves).1).map Fee.name :=
          mem_map_of_mem mem
        obtain ⟨_, tail, apart⟩ := nodup_append.mp nodup
        rcases known with old | earlier
        · exact apart _ old _ (mem_append_left _ charged) rfl
        split at earlier
        · exact (nodup_append.mp tail).2.2 _ charged _ earlier rfl
        · cases earlier
      have after := counted.live isImport fresh
      refine { after with told := fun isFree => after.told ⟨fun other mem => ?_, ?_⟩ }
      · exact isFree other (mem_append_left _ mem)
      · exact isFree move (mem_append_right _ (mem_singleton_self move))

end

/-- If the first import precedes every conversion that earns a fee and every fee has its own name,
each fee is recorded exactly once. -/
theorem revenue_counted_once (start : Ledger) (moves : List FeeMove)
    (blank : start.revenue = []) (first : ImportsFirst moves)
    (distinct : (((feeRun start moves).2 ++ start.entryFees.map RevenueRow.fee).map
      Fee.name).Nodup) : (feeRun start moves).1.fees.Perm ((feeRun start moves).2 ++
      if moves.any FeeMove.isImport then start.entryFees.map RevenueRow.fee else []) ∧
    totalMsat (feeRun start moves).1.fees = totalMsat (feeRun start moves).2 +
      if moves.any FeeMove.isImport then totalMsat (start.entryFees.map RevenueRow.fee) else 0 := by
  have counted := (counted_run blank first distinct).fees
  refine ⟨counted, ?_⟩
  unfold totalMsat
  rw [(counted.map Fee.amountMsat).sum_eq, map_append, sum_append]
  split
  · rfl
  · rfl

namespace RevenueSample

open LedgerSample

/-- A ledger from before revenue was recorded. -/
def earlier : Ledger := { Ledger.empty with
  entries := [⟨1, key alice, 50, .converted, -9000, 500, none⟩,
    ⟨2, key alice, 60, .withdrawn, -8000, 300, some (hash 4)⟩] }

def converts : List FeeMove :=
  [.other (.credit 100 alice (hash 1) 100000) rfl, .other
    (.startConversion alice "conv:chan:7") rfl, .conversion 110 "conv:chan:7" 2000 none]

/-- The import runs at the start, and again later. -/
def quarter : List FeeMove :=
  .importFees 90 :: (converts ++ [.feeInvoice 120 alice (hash 8) 700,
    .routed 130 .routingFee 11 none "a>b:5:130", .importFees 140])

end RevenueSample

open LedgerSample RevenueSample

theorem revenue_counted_once_month :
    totalMsat (feeRun earlier RevenueSample.quarter).1.fees = 3511 ∧
      (feeRun earlier RevenueSample.quarter).1.fees.Perm
        ((feeRun earlier RevenueSample.quarter).2 ++ earlier.entryFees.map RevenueRow.fee) := by
  have first : ImportsFirst RevenueSample.quarter := by
    intro before now later split unimported
    rcases before with _ | ⟨move, rest⟩
    · exact nofun
    have isFirst : FeeMove.importFees 90 = move := (cons.inj split).1
    subst isFirst
    cases unimported
  have distinct : (((feeRun earlier RevenueSample.quarter).2 ++
      earlier.entryFees.map RevenueRow.fee).map Fee.name).Nodup := by decide
  have counted := revenue_counted_once earlier RevenueSample.quarter rfl first distinct
  exact ⟨by decide, counted.1⟩

/-- The import runs for the first time after a conversion: its fee is counted twice. -/
theorem conversion_fee_counted_twice :
    totalMsat (feeRun .empty (converts ++ [.importFees 140])).2 = 2000 ∧
      totalMsat (feeRun .empty (converts ++ [.importFees 140])).1.fees = 4000 ∧
      (feeRun .empty (converts ++ [.importFees 140])).1.fees =
        [⟨"channel_fee", "conversion:conv:chan:7", 2000⟩,
          ⟨"channel_fee", "conversion-entry:2", 2000⟩] := by
  decide

end Fortis.Lsp
