import Fortis.Lsp.Events

/-!
# The custody limit

An invoice is issued only while its amount still fits under the limit, and an account's offer
whenever there is a limit at all; both are paid later, and nothing is checked then.  A payment held
for a phone is checked when it moves into the account.
-/

namespace Fortis.Lsp

open Fortis.Core Lib List Option Table Ledger

/-! ## Custody and the file's integers -/

section

variable {ledger after : Ledger}

theorem balanceOf_le_custody (ledger : Ledger) (node : String) :
    ledger.balanceOf node ≤ ledger.custody := by
  unfold balanceOf
  rcases found : ledger.accounts.get? node with _ | row
  · exact Int.natCast_nonneg _
  have part := weight_le_total (fun row : AccountRow => row.balance.value.toNat) (mem_of_get? found)
  change row.balance.value ≤ (ledger.accounts.total _ : Nat)
  omega

theorem bounded_of_custody (sound : ledger.Sound) (small : ledger.custody ≤ i64Max) :
    ledger.Bounded := by
  intro node
  have part := balanceOf_le_custody ledger node
  rw [sound.explained] at part
  omega

theorem balances_le_custody (sound : ledger.Sound) {first second : String}
    (ne : first ≠ second) : ledger.balanceOf first + ledger.balanceOf second ≤ ledger.custody := by
  have emptied := custody_posted ledger first 0
  have rest := balanceOf_le_custody (ledger.posted first 0) second
  rw [balanceOf_posted, if_neg (Ne.symm ne)] at rest
  have nonneg := sound.balance_nonneg first
  rw [Int.toNat_zero] at emptied
  omega

/-- Entries added are debits. -/
def Debits (before after : Ledger) : Prop :=
  after.entries = before.entries ∨
    ∃ row : EntryRow, row.amountMsat ≤ 0 ∧ after.entries = before.entries ++ [row]

theorem entriesOf_debits (debits : Debits ledger after) (node : String) :
    after.entriesOf node ≤ ledger.entriesOf node := by
  unfold entriesOf
  rcases debits with same | ⟨row, debit, same⟩
  · rw [same]
  rw [same, map_append, sum_append, map_singleton, sum_singleton]
  split
  · omega
  · omega

theorem wp_exec_debits (op : Op) (debit : op.isDebit = true) :
    wp op.exec (fun _ => Debits ledger) (Unchanged ledger) ledger := by
  refine wp_imp (wp_exec_effect op ledger) fun _ after effect => ?_
  obtain ⟨added, same, _, once⟩ := effect.entries
  obtain ⟨short, debits⟩ := once debit
  match added with
  | [] => exact .inl (same.trans (append_nil _))
  | [row] => exact .inr ⟨row, debits row mem_cons_self, same⟩

/-- Within the file's integers an operation keeps the books, and adds to custody at most what it
credits from outside. -/
theorem wp_exec_custody (sound : ledger.Sound) (op : Op)
    (small : ledger.custody + op.inflow ledger ≤ i64Max) :
    wp op.exec (fun _ after => after.Sound ∧ after.custody ≤ ledger.custody + op.inflow ledger)
      (Unchanged ledger) ledger := by
  have bounded := bounded_of_custody sound (Nat.le_of_add_right_le small)
  suffices stays : wp op.exec (fun _ after => after.Bounded) (fun _ _ => True) ledger by
    refine wp_mono (wp_and (exec_moved sound bounded op) stays) (fun _ after moved => ?_)
      fun _ _ moved => moved.1
    obtain ⟨kept, balanced⟩ := moved.1 moved.2
    exact ⟨kept, by omega⟩
  cases debit : op.isDebit with
  | true =>
    refine wp_mono (wp_exec_debits op debit) (fun _ after debits node => ?_) fun _ _ _ => trivial
    exact (entriesOf_debits debits node).trans (bounded node)
  | false =>
    cases op with
    | credit now node hash amountMsat =>
      rw [Op.exec, wp_discard]
      refine wp_mono (wp_credit_entries now node hash amountMsat)
        (fun _ after added => ?_) fun _ _ _ => trivial
      rcases added with ⟨_, rfl⟩ | ⟨new, row, isNode, _, isAmount, same⟩
      · exact bounded
      have inflow : (Op.credit now node hash amountMsat).inflow ledger =
          asI64 amountMsat := if_neg (by rw [new]; exact Bool.false_ne_true)
      rw [inflow] at small
      intro other
      have part := balanceOf_le_custody ledger other
      rw [sound.explained] at part
      unfold entriesOf at part ⊢
      rw [same, map_append, sum_append, map_singleton, sum_singleton, isAmount]
      split
      · omega
      · omega
    | transfer now sender receiver hash amountMsat =>
      rw [Op.exec, wp_discard]
      refine wp_mono (wp_transfer_entries sound bounded now sender receiver hash
        amountMsat) (fun _ after added => ?_) fun _ _ _ => trivial
      rcases added with ⟨_, _, rfl⟩ | ⟨_, _, enough, into, out, same, isInto, isOut⟩
      · exact bounded
      intro other
      have own := bounded other
      have nonneg := sound.balance_nonneg (key receiver)
      unfold entriesOf at own ⊢
      rw [same, map_append, sum_append, map_cons, map_singleton,
        sum_cons, sum_singleton, isInto.1, isInto.2.2.1, isOut.1, isOut.2.1]
      by_cases receives : key receiver = other
      · subst receives
        by_cases same : key sender = key receiver
        · rw [if_pos rfl, if_pos same]
          omega
        have both := balances_le_custody sound same
        rw [sound.explained (key receiver)] at both
        unfold entriesOf at both
        rw [if_pos rfl, if_neg same]
        omega
      rw [if_neg receives]
      split
      · omega
      · omega
    | _ => cases debit

end

/-- The desk, and the offers by account. -/
structure Office extends Desk where
  offerOf : PublicKey → Option (Fixed 32)

def Office.empty : Office where
  ledger := .empty
  invoices _ := none
  feeInvoices _ := none
  offers _ := none
  held := []
  offerOf _ := none

inductive Issued
  | refused (status : Nat) (error : String)
  | custodyFull
  | invoice (paymentHash : Fixed 32)
  | offer (offerId : Fixed 32)

def invoice (limitMsat backingSat : Nat) (node : PublicKey) (amountMsat : Nat)
    (created : Option (Fixed 32)) : DeskM Issued :=
  if amountMsat = 0 then pure (.refused 400 "amount_msat")
  else if limitMsat = 0 then pure .custodyFull
  else do
    let total ← onLedger totalCustodyMsat
    let after := min (total + amountMsat) u64Max
    if after > limitMsat ∨ after / 1000 > backingSat then return .custodyFull
    else
      match created with
      | none => return .refused 502 "node"
      | some hash =>
        modify fun desk => { desk with
          invoices := fun other => if other = hash then some node else desk.invoices other }
        return .invoice hash

def channelInvoice (node : PublicKey) (amountMsat : Nat) (preimage hash : Fixed 32)
    (created : Bool) : DeskM Issued :=
  if amountMsat = 0 then pure (.refused 400 "amount_msat")
  else if created then do
    let desk ← get
    abortIf (desk.heldGet hash).isSome (.db .constraintViolation)
    modify fun desk => { desk with
      held := desk.held ++ [⟨hash, node, preimage, asI64 amountMsat, none, none, none, .waiting⟩] }
    return .invoice hash
  else pure (.refused 502 "node")

/-- A request for the account's offer, made once. -/
def Office.offer (office : Office) (limitMsat : Nat) (node : PublicKey)
    (created : Option (Fixed 32)) : Issued × Office :=
  if limitMsat = 0 then (.custodyFull, office)
  else
    match office.offerOf node, created with
    | some known, _ => (.offer known, office)
    | none, none => (.refused 502 "node", office)
    | none, some id => (.offer id, { office with
        offers := fun other => if other = id then some node else office.offers other
        offerOf := fun other => if other = node then some id else office.offerOf other })

inductive CustodyMove
  | invoice (node : PublicKey) (amountMsat backingSat : Nat) (created : Option (Fixed 32))
  | channelInvoice (node : PublicKey) (amountMsat : Nat) (preimage hash : Fixed 32) (created : Bool)
  | offer (node : PublicKey) (created : Option (Fixed 32))
  | event (outside : Outside) (reported : Event)
  | tick (outside : Outside)
  /-- Payments, withdrawals, conversions and imports; credits come with events. -/
  | book (op : Op)

/-- A desk program at the office. -/
def Office.at {α : Type} (office : Office) (prog : DeskM α) : Office :=
  { office with toDesk := finalState prog office.toDesk }

def Office.step (limitMsat : Nat) (office : Office) : CustodyMove → Office
  | .invoice node amountMsat backingSat created =>
    office.at (Lsp.invoice limitMsat backingSat node amountMsat created)
  | .channelInvoice node amountMsat preimage hash created =>
    office.at (Lsp.channelInvoice node amountMsat preimage hash created)
  | .offer node created => (office.offer limitMsat node created).2
  | .event outside reported =>
    office.at (accountEvent { outside with custodyMaxMsat := limitMsat } reported)
  | .tick outside => office.at (heldTick { outside with custodyMaxMsat := limitMsat })
  | .book (.credit ..) => office
  | .book op => office.at (onLedger op.exec)

def Office.run (limitMsat : Nat) (office : Office) (moves : List CustodyMove) : Office :=
  moves.foldl (Office.step limitMsat) office

def Event.credits (books : Books) (outside : Outside) : Event → Option (PublicKey × Fixed 32 × Nat)
  | .paymentReceived paymentId paymentHash amountMsat =>
    (match books.invoices paymentHash with
      | some node => some node
      | none => (paymentId.bind outside.paidOffer).bind books.offers).map
        fun node => (node, paymentHash, amountMsat)
  | _ => none

/-- A payment to an invoice or an offer finds room. -/
def CustodyMove.Roomy (limitMsat : Nat) (office : Office) : CustodyMove → Prop
  | .event outside reported => ∀ node paymentHash amountMsat,
      reported.credits office.toBooks outside = some (node, paymentHash, amountMsat) →
      office.ledger.custody +
        (Op.credit outside.nowSecs node paymentHash amountMsat).inflow office.ledger ≤ limitMsat
  | _ => True

/-! ## The limit -/

section

variable {limitMsat : Nat} {desk : Desk} {outside : Outside}

/-- Sound books under the limit. -/
def Limited (limitMsat : Nat) (ledger : Ledger) : Prop :=
  ledger.Sound ∧ ledger.custody ≤ limitMsat

abbrev LimitedDesk (limitMsat : Nat) (desk : Desk) : Prop := Limited limitMsat desk.ledger

variable {ledger : Ledger}

theorem Ledger.Sound.sum_balances (sound : ledger.Sound) :
    (ledger.accounts.rows.map fun row => row.balance.value).sum = (ledger.custody : Int) := by
  have nonneg : ∀ row ∈ ledger.accounts.rows, 0 ≤ row.balance.value := by
    intro row mem
    have positive := sound.balance_nonneg row.node
    rwa [balanceOf, get?_of_mem mem] at positive
  unfold custody total
  generalize ledger.accounts.rows = rows at nonneg ⊢
  induction rows with
  | nil => rfl
  | cons row rest ih =>
    obtain ⟨own, later⟩ := forall_mem_cons.mp nonneg
    rw [map_cons, sum_cons, map_cons, sum_cons, ih later]
    omega

theorem wp_totalCustody (sound : ledger.Sound) :
    wp totalCustodyMsat (fun total after => total = ledger.custody ∧ after = ledger)
      (Unchanged ledger) ledger := by
  unfold totalCustodyMsat
  simp only [wp_bind, wp_get, wp_abortIf, wp_pure]
  split
  · trivial
  split
  · trivial
  · exact ⟨by rw [sound.sum_balances, Int.toNat_natCast], trivial⟩

theorem limited_onLedger {α : Type} {prog : LedgerM α} (kept : Preserves (Limited limitMsat) prog) :
    Preserves (LimitedDesk limitMsat) (onLedger prog) := by
  refine relates_iff_wp.mpr fun desk => ?_
  rw [wp_onLedger]
  exact relates_iff_wp.mp kept desk.ledger

theorem limited_heldUpdate (hash : Fixed 32) (state : HeldState)
    (claimable : Option (Nat × Option Nat)) (forwardId : Option (Option (Fixed 32))) :
    Preserves (LimitedDesk limitMsat) (heldUpdate hash state claimable forwardId) :=
  Relates.modify fun _ => id

theorem limited_revenue (now : Nat) (kind : RevenueKind) (amount : Nat)
    (node : Option PublicKey) (reference : String) :
    Preserves (Limited limitMsat) (recordRevenue now kind amount node reference) := by
  unfold recordRevenue
  split
  · exact Preserves.pure _
  · exact Relates.modify fun _ limited => ⟨limited.1.withRevenue _, limited.2⟩

theorem ledger_invoice (backingSat : Nat) (node : PublicKey) (amount : Nat)
    (created : Option (Fixed 32)) (sound : desk.ledger.Sound) :
    (finalState (invoice limitMsat backingSat node amount created) desk).ledger = desk.ledger := by
  refine finalState_both ?_
  unfold invoice
  split
  · rfl
  split
  · rfl
  rw [wp_bind, wp_onLedger]
  refine wp_imp (wp_totalCustody sound) fun total after read => ?_
  obtain ⟨_, rfl⟩ := read
  dsimp only
  split
  · rfl
  split
  · rfl
  · rfl

theorem ledger_channelInvoice (node : PublicKey) (amount : Nat) (preimage hash : Fixed 32)
    (created : Bool) :
    (finalState (channelInvoice node amount preimage hash created) desk).ledger = desk.ledger := by
  refine finalState_both ?_
  unfold channelInvoice
  split
  · rfl
  split
  · rw [wp_bind, wp_get, wp_bind, wp_abortIf]
    split
    · rfl
    · rfl
  · rfl

theorem Office.ledger_offer (office : Office) (node : PublicKey) (created : Option (Fixed 32)) :
    (office.offer limitMsat node created).2.ledger = office.ledger := by
  unfold Office.offer
  split
  · rfl
  split
  · rfl
  · rfl
  · rfl

variable (small : limitMsat ≤ i64Max)
include small

theorem limited_exec (op : Op)
    (room : ledger.custody + op.inflow ledger ≤ limitMsat) (limited : Limited limitMsat ledger) :
    wp op.exec (fun _ => Limited limitMsat) (fun _ => Limited limitMsat) ledger := by
  refine wp_mono (wp_exec_custody limited.1 op (room.trans small))
    (fun _ after kept => ⟨kept.1, kept.2.trans room⟩) ?_
  rintro _ _ rfl
  exact limited

theorem limited_debit (op : Op) (none : ∀ ledger, op.inflow ledger = 0) :
    Preserves (Limited limitMsat) op.exec :=
  relates_iff_wp.mpr fun ledger => by
    by_cases limited : Limited limitMsat ledger
    · refine wp_mono (limited_exec small op ?_ limited) (fun _ _ kept _ => kept) fun _ _ kept _ =>
        kept
      rw [none]
      exact limited.2
    · unfold wp
      split
      · exact fun held => absurd held limited
      · exact fun held => absurd held limited

theorem limited_push (now : Nat) (name : HoldName) (arrived : Bool) :
    Preserves (Limited limitMsat) (onPushResult now name arrived) := by
  refine Preserves.read fun ledger _ => ?_
  split
  · exact Preserves.pure _
  rcases arrived with _ | _
  · exact limited_debit small (.abandonConversion _) fun _ => rfl
  cases name with
  | deliver paymentId => exact limited_debit small (.finishConversionBy ..) fun _ => rfl
  | pay paymentId => exact limited_debit small (.finishConversion ..) fun _ => rfl
  | chan userChannelId => exact limited_debit small (.finishConversion ..) fun _ => rfl

theorem limited_resolved (now : Nat) (hash : Fixed 32) (fee : Option Nat) :
    Preserves (Limited limitMsat) (onPaymentResolved now hash fee) := by
  refine Preserves.read fun ledger _ => ?_
  split
  · exact Preserves.pure _
  split
  · exact limited_debit small (.settleSend ..) fun _ => rfl
  · exact limited_debit small (.settleHold ..) fun _ => rfl

theorem limited_keysend (paymentId : Option (Fixed 32)) (succeeded : Bool) :
    Preserves (LimitedDesk limitMsat) (onKeysendResult outside paymentId succeeded) := by
  rcases paymentId with _ | id
  · exact Preserves.pure _
  refine Preserves.bind ?_ fun _ => limited_onLedger (limited_push small _ _ _)
  refine Preserves.read fun desk _ => ?_
  split
  · exact Preserves.pure _
  split
  · dsimp only
    split
    · exact limited_heldUpdate _ _ _ _
    · exact Preserves.pure _
  · exact limited_heldUpdate _ _ _ _

theorem limited_conversion (paymentId : Option (Fixed 32)) (succeeded : Bool) :
    Preserves (LimitedDesk limitMsat) (onConversionResult outside paymentId succeeded) := by
  cases paymentId with
  | none => exact Preserves.pure _
  | some id => exact limited_onLedger (limited_push small _ _ _)

theorem limited_creditOwner {now : Nat} {owner : Option PublicKey} {hash : Fixed 32} {amount : Nat}
    (limited : Limited limitMsat ledger) (room : ∀ node, owner = some node →
      ledger.custody + (Op.credit now node hash amount).inflow ledger ≤ limitMsat) :
    wp (creditOwner now owner hash amount) (fun _ => Limited limitMsat)
      (fun _ => Limited limitMsat) ledger := by
  cases owner with
  | none => exact limited
  | some node => exact limited_exec small (.credit ..) (room node rfl) limited

theorem limited_received (limited : Limited limitMsat desk.ledger)
    (paymentId : Option (Fixed 32)) (paymentHash : Fixed 32) (amountMsat : Nat)
    (room : ∀ node hash amount, (Event.paymentReceived paymentId paymentHash amountMsat).credits
        desk.toBooks outside = some (node, hash, amount) →
      desk.ledger.custody + (Op.credit outside.nowSecs node hash amount).inflow desk.ledger ≤
        limitMsat) : wp (accountEvent outside (.paymentReceived paymentId paymentHash amountMsat))
      (fun _ final => Limited limitMsat final.ledger)
      (fun _ final => Limited limitMsat final.ledger) desk := by
  change wp (onPaymentReceived outside.nowSecs paymentHash amountMsat >>= _) _ _ _
  rw [wp_bind, onPaymentReceived, wp_bind, wp_get]
  unfold onInvoice
  cases owned : desk.invoices paymentHash with
  | some node =>
    rw [wp_bind, wp_onLedger]
    refine wp_imp (limited_creditOwner small limited fun other same => ?_) fun _ _ kept => kept
    cases same
    refine room node paymentHash amountMsat ?_
    unfold Event.credits
    dsimp only
    rw [owned]
    rfl
  | none =>
    rw [wp_bind, wp_get, onFeeInvoice, wp_bind, wp_onLedger]
    -- The fee is revenue only: custody and the credited payments are as they were.
    have fee : wp (feeInvoicePaid outside.nowSecs (desk.feeInvoices paymentHash) paymentHash
        amountMsat) (fun _ after => ∃ revenue, after = { desk.ledger with revenue })
        (fun _ _ => False) desk.ledger := by
      cases desk.feeInvoices paymentHash with
      | none => exact ⟨_, rfl⟩
      | some node => exact ⟨_, rfl⟩
    refine wp_mono fee (fun _ after paid => ?_) nofun
    obtain ⟨revenue, rfl⟩ := paid
    have still : Limited limitMsat { desk.ledger with revenue } :=
      ⟨limited.1.withRevenue revenue, limited.2⟩
    rcases paymentId with _ | id
    · exact still
    change wp (onOfferPaymentReceived outside id paymentHash amountMsat) _ _ _
    unfold onOfferPaymentReceived
    rcases offered : outside.paidOffer id with _ | offerId
    · exact still
    rw [wp_bind, wp_get, wp_onLedger]
    refine limited_creditOwner small still fun node isOwner => ?_
    refine room node paymentHash amountMsat ?_
    unfold Event.credits
    dsimp only
    rw [owned, bind_some, offered, bind_some]
    change Option.map _ (desk.offers offerId) = _
    have same : desk.offers offerId = some node := isOwner
    rw [same]
    rfl

section

variable (limit : outside.custodyMaxMsat = limitMsat)
include limit

/-- A held payment moves into the account only if there is room for it. -/
theorem limited_settle (held : HeldRow) (amount : Nat) :
    Preserves (LimitedDesk limitMsat) (settleIntoAccount outside held amount) := by
  refine relates_iff_wp.mpr fun desk => ?_
  by_cases limited : Limited limitMsat desk.ledger
  · unfold settleIntoAccount
    rw [wp_bind, wp_onLedger]
    refine wp_mono (wp_totalCustody limited.1) (fun total after read => ?_) ?_
    · obtain ⟨isTotal, rfl⟩ := read
      split
      next room =>
        split
        · rw [wp_bind, wp_onLedger]
          have fits : desk.ledger.custody + (Op.credit outside.nowSecs held.node held.paymentHash
              amount).inflow desk.ledger ≤ limitMsat := by
            have within : asI64 amount ≤ amount := Nat.min_le_left _ _
            rw [limit, isTotal] at room
            have under := limited.2
            unfold Op.inflow
            dsimp only
            split
            · omega
            · omega
          refine wp_mono (limited_exec small (.credit ..) fits limited) (fun _ _ kept => ?_)
            fun _ _ kept _ => kept
          exact fun _ => kept
        · exact fun held => held
      · exact fun held => held
    rintro _ _ rfl held
    exact held
  unfold wp
  split
  · exact fun held => absurd held limited
  · exact fun held => absurd held limited

theorem limited_deliver (held : HeldRow) :
    Preserves (LimitedDesk limitMsat) (deliver outside held) := by
  unfold deliver
  split
  · exact Preserves.pure _
  dsimp only
  split
  · exact Preserves.pure _
  split
  · exact limited_settle small limit held _
  split
  · split
    · exact limited_heldUpdate _ _ _ _
    · exact Preserves.pure _
  · exact Preserves.pure _

theorem limited_claimable (hash : Fixed 32) (amount : Nat) (deadline : Option Nat) :
    Preserves (LimitedDesk limitMsat) (onClaimable outside hash amount deadline) := by
  refine Preserves.read fun desk _ => ?_
  split
  · exact Preserves.pure _
  split
  · refine (limited_heldUpdate _ _ _ _).bind fun _ => Preserves.read fun later _ => ?_
    split
    · exact limited_deliver small limit _
    · exact Preserves.pure _
  · exact Preserves.pure _

theorem limited_event (limited : Limited limitMsat desk.ledger) (event : Event)
    (room : ∀ node hash amount, event.credits desk.toBooks outside = some (node, hash, amount) →
      desk.ledger.custody + (Op.credit outside.nowSecs node hash amount).inflow desk.ledger ≤
        limitMsat) : Limited limitMsat (finalState (accountEvent outside event) desk).ledger := by
  have kept : Preserves (LimitedDesk limitMsat) (accountEvent outside event) → Limited limitMsat
        (finalState (accountEvent outside event) desk).ledger := fun preserves =>
    preserves desk limited
  cases event with
  | paymentReceived paymentId paymentHash amountMsat =>
    have received := limited_received small limited paymentId paymentHash amountMsat room
    exact finalState_iff_wp.mpr received
  | paymentForwarded prev next node earned skimmed outbound =>
    exact kept ((limited_onLedger (limited_revenue _ _ _ _ _)).bind fun _ =>
      limited_onLedger (limited_revenue _ _ _ _ _))
  | paymentClaimable paymentHash amountMsat deadline =>
    exact kept (limited_claimable small limit paymentHash amountMsat deadline)
  | paymentSuccessful paymentId paymentHash feePaidMsat =>
    exact kept ((limited_keysend small paymentId true).bind fun _ =>
      (limited_onLedger (limited_resolved small _ _ _)).bind fun _ =>
        limited_conversion small paymentId true)
  | paymentFailed paymentId paymentHash =>
    refine kept ((limited_keysend small paymentId false).bind fun _ => ?_)
    rcases paymentHash with _ | hash
    · exact limited_conversion small paymentId false
    exact (limited_onLedger (limited_resolved small _ _ _)).bind fun _ =>
      limited_conversion small paymentId false
  | channelReady userChannelId => exact kept (limited_onLedger (limited_push small _ _ _))
  | channelClosed userChannelId => exact kept (limited_onLedger (limited_push small _ _ _))
  | other => exact limited

theorem limited_tick : Preserves (LimitedDesk limitMsat) (heldTick outside) := by
  refine Preserves.read fun desk _ => Preserves.forEach fun held _ => ?_
  exact Relates.tryCatch (fun _ _ _ early late kept => late (early kept))
    (limited_deliver small limit held) fun _ => Preserves.pure _

end

theorem Office.limited_step {office : Office} {move : CustodyMove}
    (limited : Limited limitMsat office.ledger) (roomy : move.Roomy limitMsat office) :
    Limited limitMsat (office.step limitMsat move).ledger := by
  cases move with
  | invoice node amountMsat backingSat created =>
    change Limited limitMsat (finalState _ office.toDesk).ledger
    rw [ledger_invoice _ _ _ _ limited.1]
    exact limited
  | channelInvoice node amountMsat preimage hash created =>
    change Limited limitMsat (finalState _ office.toDesk).ledger
    rw [ledger_channelInvoice]
    exact limited
  | offer node created =>
    change Limited limitMsat (office.offer limitMsat node created).2.ledger
    rw [Office.ledger_offer]
    exact limited
  | event outside reported =>
    have kept : Limited limitMsat (finalState (accountEvent { outside with
        custodyMaxMsat := limitMsat } reported) office.toDesk).ledger :=
      limited_event small rfl limited reported fun node hash amount credits =>
        roomy node hash amount (by
          cases reported <;> exact credits)
    exact kept
  | tick outside => exact limited_tick small rfl office.toDesk limited
  | book op =>
    have kept : (∀ ledger, op.inflow ledger = 0) →
        Limited limitMsat (finalState (onLedger op.exec) office.toDesk).ledger := fun none =>
      limited_onLedger (limited_debit small op none) office.toDesk limited
    cases op with
    | credit => exact limited
    | _ => exact kept fun _ => rfl

end

/-- As long as every payment to an invoice or an offer finds room when it arrives, custody never
exceeds the limit. -/
theorem custody_limited (limitMsat : Nat) (moves : List CustodyMove) (small : limitMsat ≤ i64Max)
    (roomy : ∀ done move later, moves = done ++ move :: later →
      move.Roomy limitMsat (Office.empty.run limitMsat done)) :
    ∀ done, done <+: moves → (Office.empty.run limitMsat done).ledger.custody ≤ limitMsat := by
  suffices kept : ∀ done, done <+: moves →
      Limited limitMsat (Office.empty.run limitMsat done).ledger from
    fun done early => (kept done early).2
  intro done early
  induction done using reverseRecOn with
  | nil => exact ⟨sound_empty, Nat.zero_le _⟩
  | append_singleton done move ih =>
    obtain ⟨later, split⟩ := early
    rw [append_assoc, singleton_append] at split
    have before := ih ⟨move :: later, split⟩
    unfold Office.run at before ⊢
    rw [foldl_append]
    exact Office.limited_step small before (roomy done move later split.symm)

namespace CustodySample

open LedgerSample

def quiet : Outside where
  nowSecs := 100
  nowNanos := 0
  height := 0
  peers := ⟨fun _ => false, fun _ => 0⟩
  custodyMaxMsat := 0
  claims _ _ _ := true
  sends _ _ := none
  paidOffer _ := none

def ask (tag : UInt8) : CustodyMove := .invoice alice 50000 1000 (some (hash tag))

def arrive (tag : UInt8) : CustodyMove := .event quiet (.paymentReceived none (hash tag) 50000)

theorem roomy_arrive {office : Office} (own : office.invoices (hash 1) = some alice)
    (room : office.ledger.custody +
      (Op.credit 100 alice (hash 1) 50000).inflow office.ledger ≤ 50000) :
    (arrive 1).Roomy 50000 office := by
  intro node paymentHash amountMsat credits
  unfold Event.credits at credits
  dsimp only at credits
  rw [own] at credits
  cases credits
  exact room

end CustodySample

open CustodySample LedgerSample

theorem custody_limited_once :
    (Office.empty.run 50000 [ask 1, arrive 1, arrive 1]).ledger.custody = 50000 ∧
      (Office.empty.run 50000 [ask 1, arrive 1, arrive 1]).ledger.custody ≤ 50000 := by
  refine ⟨by decide, custody_limited 50000 [ask 1, arrive 1, arrive 1] (by decide) ?_ _
    (prefix_refl _)⟩
  intro done move later split
  match done with
  | [] =>
    cases split
    trivial
  | [first] =>
    cases split
    exact roomy_arrive (by decide) (by decide)
  | [first, second] =>
    cases split
    exact roomy_arrive (by decide) (by decide)
  | first :: second :: third :: rest =>
    have length := congrArg length split
    simp at length

/-- Two invoices of the whole limit are issued before either is paid. -/
theorem custody_exceeded :
    (Office.empty.run 50000 [ask 1, ask 2, arrive 1, arrive 2]).ledger.custody = 100000 ∧
      (Office.empty.run 50000 [ask 1, ask 2]).invoices (hash 2) = some alice := by
  decide

end Fortis.Lsp
