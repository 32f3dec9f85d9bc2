import Fortis.Lsp.Sends

/-!
# What the answer to a pay request says

A pay request for an invoice of the service is settled in the ledger, once per invoice: a second
transfer inserts nothing, debits nothing and returns normally, and the request is answered as if it
had paid.
-/

namespace Fortis.Lsp

open Fortis.Core Lib List Ledger Op

theorem key_injective : Function.Injective key := fun _ _ same =>
  Subtype.ext (hexEncode_injective same)

/-- The operation pays the receiver's invoice, which nobody had paid before. -/
def Op.Settles (receiver : PublicKey) (paymentHash : Fixed 32) (done : List Op) (op : Op) : Prop :=
  credited (after .empty done) (key receiver) paymentHash = false ∧
    credited (after .empty (done ++ [op])) (key receiver) paymentHash = true

/-- `amount` moved from `sender` to `receiver`, who has it for the invoice. -/
structure Paid (before after : Ledger) (sender receiver : PublicKey) (paymentHash : Fixed 32)
    (amount : Nat) : Prop where
  unpaid : credited before (key receiver) paymentHash = false
  paid : credited after (key receiver) paymentHash = true
  debited : after.balanceOf (key sender) = before.balanceOf (key sender) - amount
  received : after.balanceOf (key receiver) = before.balanceOf (key receiver) + amount

theorem after_snoc (ops : List Op) (op : Op) :
    after .empty (ops ++ [op]) = finalState op.exec (after .empty ops) := by
  unfold after
  rw [foldl_append]
  rfl

/-- An invoice that was paid stays paid. -/
theorem credited_later {receiver : PublicKey} {hash : Fixed 32} {done ops : List Op}
    (early : done <+: ops) (paid : credited (after .empty done) (key receiver) hash = true) :
    credited (after .empty ops) (key receiver) hash = true := by
  induction ops using reverseRecOn with
  | nil => rwa [← prefix_nil.mp early]
  | append_singleton ops op ih =>
    rcases prefix_concat_iff.mp early with rfl | earlier
    · exact paid
    · have grows : ∀ ledger, ledger.entries ⊆ (finalState op.exec ledger).entries := fun ledger =>
        finalState_both (wp_mono (wp_exec_effect op ledger) (fun _ _ effect => by
          obtain ⟨added, same, _⟩ := effect.entries
          exact same ▸ subset_append_left _ _) fun _ _ same => same ▸ Subset.refl _)
      obtain ⟨row, mem, isCredit⟩ := any_eq_true.mp (ih earlier)
      rw [after_snoc]
      exact any_eq_true.mpr ⟨row, grows _ mem, isCredit⟩

/-- One operation at most pays an invoice. -/
theorem settles_once {receiver : PublicKey} {hash : Fixed 32} {ops first second : List Op}
    {one two : Op} (early : first ++ [one] <+: ops) (late : second ++ [two] <+: ops)
    (pays : one.Settles receiver hash first) (repays : two.Settles receiver hash second) :
    first = second ∧ one = two := by
  rcases le_or_gt first.length second.length with shorter | longer
  · rcases Nat.eq_or_lt_of_le shorter with same | less
    · have equal := List.prefix_of_prefix_length_le early late (by simp [same])
      have whole := equal.eq_of_length (by simp [same])
      obtain ⟨rfl, last⟩ := append_inj whole same
      exact ⟨rfl, (cons.inj last).1⟩
    · have inside : first ++ [one] <+: second := List.prefix_of_prefix_length_le early
        ((prefix_append _ _).trans late) (by simp; omega)
      have paid := credited_later inside pays.2
      rw [repays.1] at paid
      cases paid
  · have inside : second ++ [two] <+: first := List.prefix_of_prefix_length_le late
      ((prefix_append _ _).trans early) (by simp; omega)
    have paid := credited_later inside repays.2
    rw [pays.1] at paid
    cases paid

/-! ## Requests -/

section

variable {node receiver : PublicKey} {hash : Fixed 32} {amount : Nat} {ledger : Ledger}

theorem paid_of_transfer {now : Nat} (sound : ledger.Sound) (bounded : ledger.Bounded)
    (ne : receiver ≠ node)
    (fits : (finalState (Op.transfer now node receiver hash amount).exec ledger).Bounded)
    (unpaid : credited ledger (key receiver) hash = false)
    (paid : credited (finalState (Op.transfer now node receiver hash amount).exec ledger)
      (key receiver) hash = true) :
    Paid ledger (finalState (Op.transfer now node receiver hash amount).exec ledger) node
      receiver hash amount := by
  have after := sound_exec sound bounded _ fits
  have added : ∃ into out : EntryRow,
      (finalState (Op.transfer now node receiver hash amount).exec ledger).entries =
        ledger.entries ++ [into, out] ∧ (into.node = key receiver ∧ into.amountMsat = amount) ∧
        out.node = key node ∧ out.amountMsat = -(amount : Int) := by
    clear after fits
    revert paid
    rw [Op.exec]
    refine finalState_both ?_
    rw [wp_discard]
    refine wp_mono (wp_transfer_entries sound bounded now node receiver hash amount)
      (fun _ final moved isPaid => ?_) ?_
    · rcases moved with ⟨_, already, _⟩ | ⟨_, _, _, into, out, same, isInto, isOut⟩
      · exact absurd already (by rw [unpaid]; exact Bool.false_ne_true)
      · exact ⟨into, out, same, ⟨isInto.1, isInto.2.2.1⟩, isOut.1, isOut.2.1⟩
    rintro _ _ rfl isPaid
    exact absurd isPaid (by rw [unpaid]; exact Bool.false_ne_true)
  obtain ⟨into, out, same, isInto, isOut⟩ := added
  have keys : key receiver ≠ key node := fun equal => ne (key_injective equal)
  have entries : ∀ other, (finalState (Op.transfer now node receiver hash amount).exec
      ledger).entriesOf other = ledger.entriesOf other +
        ((if key receiver = other then (amount : Int) else 0) +
          if key node = other then -(amount : Int) else 0) := by
    intro other
    unfold entriesOf
    rw [same, map_append, sum_append, map_cons, map_singleton, sum_cons,
      sum_singleton, isInto.1, isInto.2, isOut.1, isOut.2]
  refine ⟨unpaid, paid, ?_, ?_⟩
  · rw [after.explained, sound.explained, entries, if_neg keys, if_pos rfl, Int.zero_add]
    rfl
  · rw [after.explained, sound.explained, entries, if_pos rfl, if_neg (Ne.symm keys), Int.add_zero]

/-- An invoice that only `node` has paid, with the amount, was paid by one of its requests. -/
theorem paid_of_credited {ops : List Op} (ne : receiver ≠ node)
    (bounded : ∀ done, done <+: ops → (after .empty done).Bounded)
    (alone : ∀ done op, done ++ [op] <+: ops → op.Settles receiver hash done →
      ∃ now, op = .transfer now node receiver hash amount)
    (paid : credited (after .empty ops) (key receiver) hash = true) :
    ∃ done now, done ++ [.transfer now node receiver hash amount] <+: ops ∧ Paid (after .empty done)
        (after .empty (done ++ [.transfer now node receiver hash amount])) node receiver
        hash amount := by
  induction ops using reverseRecOn with
  | nil => cases paid
  | append_singleton ops op ih =>
    have isPrefix : ops <+: ops ++ [op] := prefix_append _ _
    cases already : credited (after .empty ops) (key receiver) hash with
    | true =>
      obtain ⟨done, now, early, isPaid⟩ :=
        ih (fun done early => bounded done (early.trans isPrefix))
        (fun done op early => alone done op (early.trans isPrefix)) already
      exact ⟨done, now, early.trans isPrefix, isPaid⟩
    | false =>
      obtain ⟨now, rfl⟩ := alone ops op (prefix_refl _) ⟨already, paid⟩
      have sound := sound_after sound_empty ops fun done early =>
        bounded done (early.trans isPrefix)
      have fits := bounded _ (prefix_refl (ops ++ [_]))
      refine ⟨ops, now, prefix_refl _, ?_⟩
      rw [after_snoc] at paid fits ⊢
      exact paid_of_transfer sound (bounded ops isPrefix) ne fits already paid

/-- A request answered with success for an invoice of the service made the transfer, or found
it made. -/
theorem wp_askPay_internal {now : Nat} {invoice asked : Option Nat} (sound : ledger.Sound)
    (bounded : ledger.Bounded) (isAmount : payAmount invoice asked = .ok amount) :
    wp (askPay now node hash (some receiver) invoice asked)
      (fun reply final => reply = .internal → receiver ≠ node ∧
        final = finalState (Op.transfer now node receiver hash amount).exec ledger ∧
        credited final (key receiver) hash = true) (fun _ _ => True) ledger := by
  unfold askPay
  rw [isAmount]
  dsimp only
  split
  · rintro ⟨⟩
  next ne =>
  rw [wp_tryCatch, wp_bind]
  have ends : wp (transfer now node receiver hash amount)
      (fun inserted final => transfer now node receiver hash amount ledger =
        .ok inserted final) (fun _ _ => True) ledger := by
    unfold wp
    cases transfer now node receiver hash amount ledger with
    | ok inserted final => rfl
    | error error final => trivial
  refine wp_mono (wp_and ends (wp_transfer_entries sound bounded now node receiver hash amount))
    (fun inserted final moved _ => ⟨ne, ?_, ?_⟩) fun error final _ => ?_
  · have same : wp (Op.transfer now node receiver hash amount).exec
        (fun _ other => final = other) (fun _ other => final = other) ledger := by
      rw [exec, wp_discard]
      unfold wp
      rw [moved.1]
    exact finalState_iff_wp.mpr same
  · rcases moved.2 with ⟨_, already, rfl⟩ | ⟨_, _, _, into, out, same, isInto, _⟩
    · exact already
    refine any_eq_true.mpr ⟨into, ?_, ?_⟩
    · rw [same]
      exact mem_append_right _ mem_cons_self
    · exact decide_eq_true ⟨isInto.1, isInto.2.2.2, .inr isInto.2.1⟩
  cases error with
  | insufficientBalance => rintro ⟨⟩
  | unknownHold id => trivial
  | db error => trivial

end

/-- A request answered with success has moved the amount, itself or by an earlier request of the
same account, if and only if whoever had paid the invoice before was that account, with that
amount. -/
theorem answered_pay_paid (ops : List Op) (now : Nat) (node receiver : PublicKey)
    (paymentHash : Fixed 32) (invoice asked : Option Nat) (amount : Nat) (final : Ledger)
    (bounded : ∀ done, done <+: ops → (after .empty done).Bounded)
    (isAmount : payAmount invoice asked = .ok amount)
    (answered : askPay now node paymentHash (some receiver) invoice asked (after .empty ops) =
      .ok .internal final) (fits : final.Bounded) :
    final = after .empty (ops ++ [.transfer now node receiver paymentHash amount]) ∧
    ((∃ done earlier, done ++ [.transfer earlier node receiver paymentHash amount] <+:
        ops ++ [.transfer now node receiver paymentHash amount] ∧ Paid (after .empty done)
        (after .empty (done ++ [.transfer earlier node receiver paymentHash amount])) node receiver
        paymentHash amount) ↔
      ∀ done op, done ++ [op] <+: ops → op.Settles receiver paymentHash done →
        ∃ earlier, op = .transfer earlier node receiver paymentHash amount) := by
  have sound := sound_after sound_empty ops bounded
  have spec : wp (askPay now node paymentHash (some receiver) invoice asked) _ _
      (after .empty ops) :=
    wp_askPay_internal sound (bounded ops (prefix_refl ops)) isAmount
  rw [wp, answered] at spec
  obtain ⟨ne, isFinal, paid⟩ := spec rfl
  have whole : final = after .empty (ops ++ [.transfer now node receiver paymentHash amount]) := by
    rw [isFinal, after_snoc]
  refine ⟨whole, ?_, fun alone => ?_⟩
  · rintro ⟨done, earlier, early, isPaid⟩ before op isBefore settles
    obtain ⟨_, same⟩ := settles_once (isBefore.trans (prefix_append _ _)) early settles
      ⟨isPaid.unpaid, isPaid.paid⟩
    exact ⟨earlier, same⟩
  · refine paid_of_credited ne (fun done early => ?_) (fun done op early settles => ?_) ?_
    · rcases prefix_concat_iff.mp early with rfl | earlier
      · rw [← whole]
        exact fits
      · exact bounded done earlier
    · rcases prefix_concat_iff.mp early with same | earlier
      · exact ⟨now, (cons.inj (append_inj' same rfl).2).1⟩
      · exact alone done op earlier settles
    · rw [← whole]
      exact paid

namespace PaySample

open LedgerSample

def carol : PublicKey := ⟨2 :: List.replicate 32 3, rfl⟩

def receipts : List Op := [.credit 100 alice (hash 1) 5000, .credit 100 bob (hash 2) 5000]

/-- Bob's attempt to pay Carol more than Bob's account holds, refused. -/
def refusedBob : List Op := receipts ++ [.transfer 110 bob carol (hash 9) 9000]

/-- Bob has paid Carol's invoice. -/
def paidByBob : List Op := receipts ++ [.transfer 110 bob carol (hash 9) 1000]

end PaySample

open LedgerSample PaySample

/-- After Bob's refused attempt Alice's request moves the amount. -/
theorem answered_pay_paid_alice :
    ∃ done earlier, done ++ [.transfer earlier alice carol (hash 9) 1000] <+:
        refusedBob ++ [.transfer 120 alice carol (hash 9) 1000] ∧ Paid (after .empty done)
        (after .empty (done ++ [.transfer earlier alice carol (hash 9) 1000])) alice carol (hash 9)
        1000 := by
  have small : ∀ done ∈ (refusedBob ++ [Op.transfer 120 alice carol (hash 9) 1000]).inits,
      ((after .empty done).entries.map fun row => row.amountMsat.toNat).sum ≤ i64Max := by
    decide
  have bounded : ∀ done, done <+: refusedBob ++ [.transfer 120 alice carol (hash 9) 1000] →
      (after .empty done).Bounded := fun done early =>
    bounded_of_sum (small done ((mem_inits done _).mpr early))
  have unpaid : credited (after .empty refusedBob) (key carol) (hash 9) = false := by
    decide
  refine ((answered_pay_paid refusedBob 120 alice carol (hash 9) (some 1000) none 1000
    (after .empty (refusedBob ++ [.transfer 120 alice carol (hash 9) 1000]))
    (fun done early => bounded done (early.trans (prefix_append _ _))) rfl rfl
    (bounded _ (prefix_refl _))).2).mpr fun done op early settles => ?_
  have paid := credited_later early settles.2
  rw [unpaid] at paid
  cases paid

/-- The invoice was paid by Bob; Alice's request is answered with success and moves nothing. -/
theorem answered_pay_unpaid :
    askPay 120 alice (hash 9) (some carol) (some 1000) none (after .empty paidByBob) =
        .ok .internal (after .empty paidByBob) ∧
      (after .empty paidByBob).balanceOf (key alice) = 5000 ∧
      (after .empty paidByBob).balanceOf (key bob) = 4000 ∧
      (after .empty paidByBob).balanceOf (key carol) = 1000 := by
  refine ⟨rfl, ?_⟩
  decide

end Fortis.Lsp
