import Fortis.Wallet.PlanLaw

/-!
# Coin selection is complete

Coins are tried largest first, so the first coins of the order are worth as much as
any others of their number: what no first part of the order covers, no coins cover.
-/

namespace Fortis.Wallet

open Fortis.Core Lib List Nat

/-! ## Largest first -/

theorem sum_take_cons {first : Nat} {rest : List Nat} (sorted : (first :: rest).Pairwise (· ≥ ·))
    (count : Nat) : (rest.take count).sum ≤ ((first :: rest).take count).sum := by
  induction count generalizing first rest with
  | zero => exact le_rfl
  | succ count ih =>
    rcases rest with _ | ⟨second, rest⟩
    · exact zero_le _
    obtain ⟨above, sorted⟩ := pairwise_cons.mp sorted
    exact Nat.add_le_add (above second mem_cons_self) (ih sorted)

theorem sum_le_take {part whole : List Nat} (sub : part <+ whole)
    (sorted : whole.Pairwise (· ≥ ·)) : part.sum ≤ (whole.take part.length).sum := by
  induction sub with
  | slnil => exact le_rfl
  | cons first _ ih =>
    exact (ih (pairwise_cons.mp sorted).2).trans (sum_take_cons sorted _)
  | cons_cons first _ ih => exact Nat.add_le_add_left (ih (pairwise_cons.mp sorted).2) first

section

variable {utxos part : List Utxo} {minConfirmations : Nat}

/-- No eligible coins are worth more than the largest of their number. -/
theorem sum_le_largest (isEligible : part <+~ eligible utxos minConfirmations) :
    part.length ≤ (eligible utxos minConfirmations).length ∧ (part.map Utxo.value).sum ≤
      (((eligible utxos minConfirmations).map Utxo.value).take part.length).sum := by
  obtain ⟨same, perm, sub⟩ := isEligible
  have largest := sum_le_take (sub.map Utxo.value) (pairwise_map.mpr (pairwise_insertionSort _ _))
  rw [length_map, perm.length_eq, (perm.map Utxo.value).sum_eq] at largest
  exact ⟨perm.length_eq ▸ sub.length_le, largest⟩

theorem sum_le_eligible (owned : part <+~ utxos)
    (deep : ∀ coin ∈ part, minConfirmations ≤ coin.confirmations) :
    part.length ≤ (eligible utxos minConfirmations).length ∧ (part.map Utxo.value).sum ≤
      (((eligible utxos minConfirmations).map Utxo.value).take part.length).sum := by
  have kept := owned.filter fun coin => minConfirmations ≤ coin.confirmations
  rw [filter_eq_self.mpr fun coin mem => decide_eq_true (deep coin mem)] at kept
  exact sum_le_largest (kept.trans (perm_insertionSort _ _).symm.subperm)

/-! ## The loop -/

/-- The network fee of a payment with `count` inputs and no change. -/
def noChangeFee (outputs : List TxOut) (feerate count : Nat) : Nat :=
  (txOverheadVb + count * p2wpkhInputVb + (outputs.map (outputVb ·.scriptPubkey)).sum) * feerate

theorem noChangeFee_succ (outputs : List TxOut) (feerate count : Nat) :
    noChangeFee outputs feerate (count + 1) =
      noChangeFee outputs feerate count + p2wpkhInputVb * feerate := by
  unfold noChangeFee
  ring

theorem noChangeFee_mono (outputs : List TxOut) (feerate : Nat) :
    Monotone (noChangeFee outputs feerate) := by
  refine monotone_nat_of_le_succ fun count => ?_
  rw [noChangeFee_succ]
  exact le_add_right _ _

theorem foldl_satAdd_le (sizes : List Nat) (acc : Nat) :
    sizes.foldl satAdd acc ≤ acc + sizes.sum := by
  induction sizes generalizing acc with
  | nil => exact le_rfl
  | cons first rest ih =>
    have later := ih (satAdd acc first)
    rw [foldl_cons, sum_cons]
    have bound : satAdd acc first ≤ acc + first := min_le_left _ _
    omega

theorem foldl_satAdd_eq (sizes : List Nat) (acc : Nat) (fits : acc + sizes.sum ≤ u64Max) :
    sizes.foldl satAdd acc = acc + sizes.sum := by
  induction sizes generalizing acc with
  | nil => rfl
  | cons first rest ih =>
    rw [sum_cons] at fits
    have one : satAdd acc first = acc + first := min_eq_left (by omega)
    rw [foldl_cons, one, ih _ (by omega), sum_cons, Nat.add_assoc]

theorem satFee_le (outputs : List TxOut) (feerate count : Nat) :
    satMul (baseVb count (outputsVb outputs)) feerate ≤ noChangeFee outputs feerate count := by
  have sizes := foldl_satAdd_le (outputs.map (outputVb ·.scriptPubkey)) 0
  refine (min_le_left _ _).trans (mul_le_mul_right _ ?_)
  simp only [baseVb, outputsVb, satAdd, satMul] at sizes ⊢
  omega

theorem satFee_add_le (base size feerate : Nat) :
    satMul (satAdd base size) feerate ≤ satMul base feerate + size * feerate := by
  have product : satAdd base size * feerate ≤ (base + size) * feerate :=
    mul_le_mul_right _ (min_le_left _ _)
  rw [add_mul] at product
  unfold satMul
  omega

/-- Where the fee fits 64 bits nothing in its computation saturates. -/
theorem satFee_eq {outputs : List TxOut} {feerate count : Nat} (positive : 0 < feerate)
    (fits : noChangeFee outputs feerate count ≤ u64Max) :
    satMul (baseVb count (outputsVb outputs)) feerate = noChangeFee outputs feerate count := by
  have size : txOverheadVb + count * p2wpkhInputVb +
      (outputs.map (outputVb ·.scriptPubkey)).sum ≤ u64Max :=
    (Nat.le_mul_of_pos_right _ positive).trans fits
  have sizes := foldl_satAdd_eq (outputs.map (outputVb ·.scriptPubkey)) 0 (by omega)
  have base : baseVb count (outputsVb outputs) = txOverheadVb + count * p2wpkhInputVb +
      (outputs.map (outputVb ·.scriptPubkey)).sum := by
    unfold baseVb outputsVb
    rw [sizes]
    unfold satAdd satMul
    omega
  rw [base]
  exact min_eq_left fits

theorem satFee_le_add (base size feerate : Nat) (small : base ≤ u64Max) :
    satMul base feerate ≤ satMul (satAdd base size) feerate := by
  refine min_le_min_right _ (mul_le_mul_right _ ?_)
  unfold satAdd
  omega

theorem stop_of_checkedSum {amounts : List Nat} {stop : Stop}
    (failed : checkedSum amounts = .error stop) : stop = invalid "amount total overflows" := by
  unfold checkedSum at failed
  generalize 0 = acc at failed
  induction amounts generalizing acc with
  | nil => cases failed
  | cons first rest ih =>
    unfold checkedSumFrom at failed
    split at failed
    · exact ih _ failed
    · cases failed
      rfl

theorem checkedSum_pair {a b : Nat} (fits : a + b ≤ u64Max) : checkedSum [a, b] = .ok (a + b) := by
  simp [checkedSum, checkedSumFrom, checkedAdd, fits, le_of_add_right_le fits]

namespace PayFrame

variable (frame : PayFrame)

/-- The payment's sums over these coins stay within 64 bits. -/
def Fits (coins : List Utxo) : Prop :=
  (coins.map Utxo.value).sum ≤ u64Max ∧ frame.target +
    noChangeFee frame.outputs frame.feerate coins.length + outputVb frame.changeSpk * frame.feerate
      ≤ u64Max

/-- What the loop asks of `count` coins without change. -/
def needed (count : Nat) : Nat :=
  frame.target + satMul (baseVb count (outputsVb frame.outputs)) frame.feerate

/-- No first part of the coins is enough. -/
def Short (coins : List Utxo) : Prop :=
  ∀ count, 0 < count → count ≤ coins.length →
    ((coins.map Utxo.value).take count).sum < frame.needed count

/-- How the loop ends over `coins`. -/
def Ended (coins : List Utxo) : Except Stop FundingPlan → Prop
  | .ok plan => plan.fee < noChangeFee frame.outputs frame.feerate plan.selected.length +
      outputVb frame.changeSpk * frame.feerate + changeDustSat ∧ ¬ frame.Short coins
  | .error (.failed (.insufficientFunds need owned)) => owned = (coins.map Utxo.value).sum ∧
      (frame.needed (max coins.length 1) ≤ u64Max → need = frame.needed (max coins.length 1)) ∧
      frame.Short coins
  | .error _ => ¬ frame.Fits coins

end PayFrame

variable {frame : PayFrame} {view : WalletView}

theorem PayFrame.Ended.planned_iff {coins : List Utxo} {result : Except Stop FundingPlan}
    (ended : frame.Ended coins result) (fits : frame.Fits coins) :
    (∃ plan, result = .ok plan) ↔ ¬ frame.Short coins := by
  unfold PayFrame.Ended at ended
  split at ended
  next plan => exact ⟨fun _ => ended.2, fun _ => ⟨plan, rfl⟩⟩
  next =>
    constructor
    · rintro ⟨_, never⟩
      cases never
    · exact fun enough => absurd ended.2.2 enough
  next => exact absurd fits ended

/-- The loop lacks funds only when every number of leading coins falls short. -/
theorem payLoop_ended {coins before : List Utxo} {acc : Nat}
    (worth : acc = (before.map Utxo.value).sum) (tried : frame.Short before) :
    frame.Ended (before ++ coins) (payLoop frame view coins before acc).1 := by
  induction coins generalizing before acc with
  | nil =>
    rw [append_nil]
    refine ⟨worth, fun fits => ?_, tried⟩
    rw [checkedSum_pair fits]
    rfl
  | cons coin rest ih =>
    rw [append_cons]
    have total : acc + coin.value ≤ ((before ++ [coin] ++ rest).map Utxo.value).sum := by
      simp [worth]
    have fee := noChangeFee_mono frame.outputs frame.feerate
      (sublist_append_left (before ++ [coin]) rest).length_le
    have least := satFee_le frame.outputs frame.feerate (before ++ [coin]).length
    have change := satFee_add_le (baseVb (before ++ [coin]).length (outputsVb frame.outputs))
      (outputVb frame.changeSpk) frame.feerate
    unfold payLoop
    split
    next overflows =>
      rintro ⟨small, _⟩
      cases (if_pos (total.trans small)).symm.trans overflows
    next acc' added =>
    have worth' := sum_snoc worth added
    have covers (enough : frame.needed (before ++ [coin]).length ≤ acc') :
        ¬ frame.Short (before ++ [coin] ++ rest) := by
      intro short
      have first := short (before ++ [coin]).length (by simp) (by simp)
      rw [map_append, take_append_of_le_length (by simp), take_of_length_le (by simp), ← worth']
        at first
      exact absurd enough (not_le.mpr first)
    dsimp only
    split
    next failed =>
      rw [stop_of_checkedSum failed]
      rintro ⟨_, small⟩
      cases (checkedSum_pair (by omega)).symm.trans failed
    next needed summed =>
    have isNeeded := checkedSum_ok summed
    simp only [sum_cons, sum_nil] at isNeeded
    split
    next enough =>
      have bare := satFee_le_add (baseVb (before ++ [coin]).length (outputsVb frame.outputs))
        (outputVb frame.changeSpk) frame.feerate (min_le_right _ _)
      simp only [PayFrame.Ended, assemble]
      refine ⟨?_, covers ?_⟩
      · unfold changeDustSat
        omega
      · unfold PayFrame.needed
        omega
    next small =>
    split
    next failed =>
      rw [stop_of_checkedSum failed]
      rintro ⟨_, small⟩
      cases (checkedSum_pair (by omega)).symm.trans failed
    next bare summed' =>
    have isBare : bare = frame.needed (before ++ [coin]).length := checkedSum_ok summed'
    split
    next enough =>
      simp only [PayFrame.Ended, assemble]
      refine ⟨?_, covers (isBare ▸ enough)⟩
      unfold changeDustSat at small ⊢
      omega
    next short =>
    refine ih worth' fun count some less => ?_
    rcases lt_or_ge before.length count with all | part
    · rw [length_append, length_singleton] at less isBare
      cases le_antisymm less all
      rw [take_of_length_le (by simp), ← worth', ← isBare]
      exact Nat.lt_of_not_le short
    · rw [map_append, take_append_of_le_length (by rwa [length_map])]
      exact tried count some part

/-! ## Payments -/

variable {lib : ScriptLib} {outputs : List TxOut} {feerate : Nat} {serviceFee : Option ServiceFee}

/-- The guards and the derivation do not report missing funds. -/
def Quiet {α : Type} (result : Except Stop α) : Prop :=
  ∀ need owned, result ≠ .error (.failed (.insufficientFunds need owned))

theorem quiet_checkNotDust (lib : ScriptLib) (outputs : List TxOut) :
    Quiet (checkNotDust lib outputs) := by
  induction outputs with
  | nil => exact nofun
  | cons out rest ih =>
    unfold checkNotDust
    split_ifs
    · exact ih
    · exact nofun
    · exact ih

theorem quiet_refused {refused : Prop} [Decidable refused] {text : String} {rest : Except Stop Unit}
    (quiet : Quiet rest) : Quiet (refuseIf refused (invalid text) >>= fun _ => rest) := by
  unfold refuseIf
  split
  · exact nofun
  · exact quiet

theorem quiet_guards : Quiet (do
    checkFeerate feerate
    checkServiceFee serviceFee
    checkNotDust lib outputs) := by
  refine quiet_refused ?_
  rcases serviceFee with _ | fee
  · exact quiet_checkNotDust lib outputs
  · exact quiet_refused (quiet_checkNotDust lib outputs)

/-- What is paid: the requested outputs and the service fee. -/
def paidOutputs (lib : ScriptLib) (outputs : List TxOut) (serviceFee : Option ServiceFee) :
    List TxOut :=
  outputs ++ (paymentFee lib outputs serviceFee).toList

/-- A payment that is planned or falls short ends as its loop does, on these coins and on any. -/
theorem ended_of_planPayment (quiet : Quiet (view.addressAt 1 view.nextChange))
    (planned : ∀ stop, (planPayment lib view utxos outputs feerate minConfirmations serviceFee
      false).1 = .error stop → ∃ need owned, stop = .failed (.insufficientFunds need owned)) :
    ∃ frame : PayFrame, 0 < feerate ∧ frame.feerate = feerate ∧
      frame.outputs = paidOutputs lib outputs serviceFee ∧
      frame.target = (frame.outputs.map TxOut.value).sum ∧
      view.addressAt 1 view.nextChange = .ok frame.changeSpk ∧ ∀ coins,
        frame.Ended (eligible coins minConfirmations)
          (planPayment lib view coins outputs feerate minConfirmations serviceFee false).1 := by
  unfold planPayment at planned
  split at planned
  next stop failed =>
    obtain ⟨need, owned, rfl⟩ := planned stop rfl
    exact absurd failed (quiet_guards need owned)
  next passed =>
  have positive : 0 < feerate := by
    obtain ⟨_, inRange, _⟩ := ok_of_bind passed
    have := not_of_refuseIf inRange
    omega
  rw [if_neg Bool.false_ne_true] at planned
  unfold planPaymentOnTop at planned
  dsimp only at planned
  split at planned
  next stop failed =>
    obtain ⟨need, owned, rfl⟩ := planned stop rfl
    cases stop_of_checkedSum failed
  next target summed =>
  split at planned
  next stop failed =>
    obtain ⟨need, owned, rfl⟩ := planned stop rfl
    exact absurd failed (quiet need owned)
  next changeSpk derived =>
  refine ⟨⟨_, target, feerate, changeSpk, (paymentFee lib outputs serviceFee).map TxOut.value⟩,
    positive, rfl, rfl, checkedSum_ok summed, derived, fun coins => ?_⟩
  unfold planPayment planPaymentOnTop
  rw [passed]
  simp only [summed, derived]
  exact payLoop_ended rfl fun count some none => absurd none (not_le.mpr some)

end

/-- A payment falls short only if no eligible coins cover it, and pays less than the cost of a
change output and its dust limit too much. -/
theorem selection_complete (lib : ScriptLib) (view : WalletView) (utxos : List Utxo)
    (outputs : List TxOut) (feerate minConfirmations : Nat) (serviceFee : Option ServiceFee)
    (quiet : Quiet (view.addressAt 1 view.nextChange)) :
    let paid := paidOutputs lib outputs serviceFee
    (∀ need owned after, planPayment lib view utxos outputs feerate minConfirmations serviceFee
        false = (.error (.failed (.insufficientFunds need owned)), after) →
      ∀ part, part <+~ utxos → (∀ coin ∈ part, minConfirmations ≤ coin.confirmations) →
        (part.map Utxo.value).sum <
          (paid.map TxOut.value).sum + noChangeFee paid feerate part.length) ∧
    ∀ plan after, planPayment lib view utxos outputs feerate minConfirmations serviceFee false =
        (.ok plan, after) → ∃ changeSpk, view.addressAt 1 view.nextChange = .ok changeSpk ∧
      plan.fee < noChangeFee paid feerate plan.selected.length + outputVb changeSpk * feerate +
        294 := by
  refine ⟨fun need owned after fails part isPart deep => ?_, fun plan after planned => ?_⟩
  · obtain ⟨frame, positive, rfl, isPaid, isTarget, _, loops⟩ := ended_of_planPayment quiet
      (by rw [fails]; rintro _ ⟨⟩; exact ⟨need, owned, rfl⟩)
    have ended := loops utxos
    rw [fails] at ended
    rw [← isPaid, ← isTarget]
    rcases Nat.eq_zero_or_pos part.length with none | some
    · have fee : 0 < noChangeFee frame.outputs frame.feerate 0 :=
        mul_pos (by unfold txOverheadVb; omega) positive
      rw [length_eq_zero_iff.mp none]
      exact lt_of_lt_of_le fee (le_add_left _ _)
    · obtain ⟨isPart, worth⟩ := sum_le_eligible isPart deep
      exact (worth.trans_lt (ended.2.2 _ some isPart)).trans_le
        (Nat.add_le_add_left (satFee_le _ _ _) _)
  · obtain ⟨frame, _, rfl, isPaid, _, derived, loops⟩ := ended_of_planPayment quiet
      (by rw [planned]; exact nofun)
    have ended := loops utxos
    rw [planned] at ended
    rw [← isPaid]
    exact ⟨frame.changeSpk, derived, ended.1⟩

namespace PlanSample

/-- Too little for the payment, and too shallow a coin. -/
def poor : List Utxo := [coin 1 30000 3, coin 3 500000 0]

end PlanSample

open PlanSample in
theorem selection_complete_poor : 30000 < 100000 + noChangeFee outputs 10 1 :=
  (selection_complete lib view poor outputs 10 1 none nofun).1 _ _ _ (Prod.ext (by decide)
    rfl)
    [coin 1 30000 3] (by decide) (by decide)

/-! ## Topping up -/

section TopUp

variable {utxos coins had : List Utxo} {minConfirmations : Nat} {frame : PayFrame} {coin : Utxo}

/-- The first parts of the coins are enough exactly when some of the coins are. -/
theorem not_short_iff : ¬ frame.Short (eligible utxos minConfirmations) ↔
    ∃ part, part ≠ [] ∧ part <+~ eligible utxos minConfirmations ∧
      frame.needed part.length ≤ (part.map Utxo.value).sum := by
  constructor
  · intro enough
    simp only [PayFrame.Short, not_forall, not_lt] at enough
    obtain ⟨count, some, few, covers⟩ := enough
    have size : ((eligible utxos minConfirmations).take count).length = count :=
      length_take_of_le few
    refine ⟨_, length_pos_iff.mp (size.symm ▸ some), (take_sublist _ _).subperm, ?_⟩
    rwa [size, map_take]
  · rintro ⟨part, some, isPart, covers⟩ short
    obtain ⟨few, worth⟩ := sum_le_largest isPart
    exact absurd (covers.trans worth) (not_le.mpr (short _ (length_pos_iff.mpr some) few))

theorem needed_add (positive : 0 < frame.feerate) {count more : Nat}
    (fits : noChangeFee frame.outputs frame.feerate (count + more) ≤ u64Max) :
    frame.needed (count + more) = frame.needed count + more * (p2wpkhInputVb * frame.feerate) := by
  have less := noChangeFee_mono frame.outputs frame.feerate (Nat.le_add_right count more)
  unfold PayFrame.needed
  rw [satFee_eq positive fits, satFee_eq positive (less.trans fits)]
  unfold noChangeFee
  ring

/-- Coins worth less than their inputs cost, by the fee of one input at least. -/
def Wasteful (feerate : Nat) (coins : List Utxo) : Prop :=
  coins ≠ [] ∧ (coins.map Utxo.value).sum ≤ (coins.length - 1) * (p2wpkhInputVb * feerate)

/-- A coin that brings the others up to what they need is enough exactly when leaving some of the
others out pays for its own input. -/
theorem topped_up_iff (positive : 0 < frame.feerate) (fits : noChangeFee frame.outputs frame.feerate
      ((eligible utxos minConfirmations).length + 1) ≤ u64Max)
    (short : frame.Short (eligible utxos minConfirmations))
    (worth : coin.value + ((eligible utxos minConfirmations).map Utxo.value).sum =
      frame.needed (eligible utxos minConfirmations).length)
    (perm : eligible coins minConfirmations ~ coin :: eligible utxos minConfirmations) :
    ¬ frame.Short (eligible coins minConfirmations) ↔
      ∃ part, part <+~ eligible utxos minConfirmations ∧ Wasteful frame.feerate part := by
  have input : 0 < p2wpkhInputVb * frame.feerate := Nat.mul_pos (by decide) positive
  have total := (perm.map Utxo.value).sum_eq
  rw [map_cons, sum_cons, worth] at total
  have size := perm.length_eq
  rw [length_cons] at size
  rw [not_short_iff]
  constructor
  · rintro ⟨part, isSome, isPart, covers⟩
    obtain ⟨same, isSame, sub⟩ := isPart
    obtain ⟨left, whole⟩ := sub.exists_perm_append
    have whole : eligible coins minConfirmations ~ part ++ left :=
      whole.trans (isSame.append_right left)
    have parts : part ++ left ~ coin :: eligible utxos minConfirmations := whole.symm.trans perm
    rcases mem_append.mp (parts.symm.subset mem_cons_self) with inside | outside
    · -- The new coin is spent: what is left out is among the others.
      obtain ⟨before, behind, isPart⟩ := append_of_mem inside
      have others : (before ++ behind) ++ left ~ eligible utxos minConfirmations := by
        refine Perm.cons_inv (a := coin) (Perm.trans ?_ parts)
        rw [isPart]
        simpa using (perm_middle (a := coin)).symm
      have counts := whole.length_eq
      have sums := (whole.map Utxo.value).sum_eq
      rw [length_append, size] at counts
      rw [map_append, sum_append_nat, total] at sums
      refine ⟨left, (sublist_append_right _ _).subperm.trans others.subperm, ?_⟩
      cases left with
      | nil =>
        rw [length_nil] at counts
        rw [← Nat.add_zero part.length, ← counts, needed_add positive fits] at covers
        rw [map_nil, sum_nil] at sums
        omega
      | cons first rest =>
        rw [length_cons, ← Nat.add_assoc, Nat.add_right_cancel_iff] at counts
        rw [counts] at fits sums
        rw [needed_add positive ((noChangeFee_mono _ _ (Nat.le_succ _)).trans fits)] at sums
        refine ⟨cons_ne_nil _ _, ?_⟩
        rw [length_cons, Nat.add_sub_cancel]
        omega
    · obtain ⟨before, behind, rfl⟩ := append_of_mem outside
      have others : part ++ (before ++ behind) ~ eligible utxos minConfirmations := by
        refine Perm.cons_inv (a := coin) (Perm.trans ?_ parts)
        have moved : part ++ before ++ coin :: behind ~ _ := perm_middle
        simpa using moved.symm
      have among := (sublist_append_left part _).subperm.trans others.subperm
      exact absurd short (not_short_iff.mpr ⟨part, isSome, among, covers⟩)
  · rintro ⟨part, isPart, isSome, cheap⟩
    obtain ⟨same, isSame, sub⟩ := isPart
    obtain ⟨left, whole⟩ := sub.exists_perm_append
    have whole : eligible utxos minConfirmations ~ part ++ left :=
      whole.trans (isSame.append_right left)
    refine ⟨coin :: left, cons_ne_nil _ _, ?_, ?_⟩
    · exact (((sublist_append_right part left).cons_cons coin).subperm.trans
        (whole.symm.cons coin).subperm).trans perm.symm.subperm
    · obtain ⟨first, rest, rfl⟩ := exists_cons_of_ne_nil isSome
      have counts := whole.length_eq
      have sums := (whole.map Utxo.value).sum_eq
      rw [length_append, length_cons, Nat.add_right_comm, Nat.add_comm rest.length,
        Nat.add_right_comm] at counts
      rw [map_append, sum_append_nat] at sums
      rw [length_cons, Nat.add_sub_cancel] at cheap
      rw [counts] at fits worth
      rw [needed_add positive ((noChangeFee_mono _ _ (Nat.le_succ _)).trans fits)] at worth
      rw [length_cons, map_cons, sum_cons]
      omega

end TopUp

/-- A further coin worth exactly the reported shortfall makes the payment plannable if and only if
the wallet had no eligible coin, or has some that cost more than they bring by an input's fee. -/
theorem shortfall_suffices_iff (lib : ScriptLib) (view : WalletView) (utxos coins : List Utxo)
    (outputs : List TxOut) (feerate minConfirmations : Nat) (serviceFee : Option ServiceFee)
    {need owned : Nat} {after : WalletView} {changeSpk : Bytes} {coin : Utxo}
    (fails : planPayment lib view utxos outputs feerate minConfirmations serviceFee false =
      (.error (.failed (.insufficientFunds need owned)), after))
    (derived : view.addressAt 1 view.nextChange = .ok changeSpk)
    (fits : let paid := paidOutputs lib outputs serviceFee
      (paid.map TxOut.value).sum + noChangeFee paid feerate
        ((eligible utxos minConfirmations).length + 1) + outputVb changeSpk * feerate ≤ u64Max)
    (deep : minConfirmations ≤ coin.confirmations) (worth : coin.value = need - owned)
    (added : coins ~ coin :: utxos) :
    (∃ plan after, planPayment lib view coins outputs feerate minConfirmations serviceFee false =
        (.ok plan, after)) ↔
      eligible utxos minConfirmations = [] ∨
        ∃ part, part <+~ eligible utxos minConfirmations ∧ Wasteful feerate part := by
  obtain ⟨frame, positive, rfl, isPaid, isTarget, derived', loops⟩ := ended_of_planPayment
    (by rw [derived]; rintro _ _ ⟨⟩) (by rw [fails]; rintro _ ⟨⟩; exact ⟨need, owned, rfl⟩)
  cases derived.symm.trans derived'
  dsimp only at fits
  rw [← isPaid, ← isTarget] at fits
  have ended := loops utxos
  rw [fails] at ended
  obtain ⟨isOwned, isNeed, short⟩ := ended
  have perm : eligible coins minConfirmations ~ coin :: eligible utxos minConfirmations := by
    have kept := added.filter fun coin => minConfirmations ≤ coin.confirmations
    simp only [filter_cons, deep, decide_true, if_true] at kept
    exact (perm_insertionSort _ _).trans (kept.trans ((perm_insertionSort _ _).symm.cons coin))
  have total := (perm.map Utxo.value).sum_eq
  rw [map_cons, sum_cons, ← isOwned, worth] at total
  have count := perm.length_eq
  rw [length_cons] at count
  -- The report is what the wallet's own coins need, at least one of them, and more than they have.
  have counted := noChangeFee_mono frame.outputs frame.feerate
    (show max (eligible utxos minConfirmations).length 1 ≤
      (eligible utxos minConfirmations).length + 1 by omega)
  have fee : frame.needed (max (eligible utxos minConfirmations).length 1) ≤ frame.target +
      noChangeFee frame.outputs frame.feerate (max (eligible utxos minConfirmations).length 1) :=
    Nat.add_le_add_left (satFee_le _ _ _) _
  have isNeed := isNeed (by omega)
  have less : owned ≤ need := by
    rw [isNeed, isOwned]
    rcases eq_or_ne (eligible utxos minConfirmations) [] with none | some
    · rw [none]
      exact zero_le _
    · have size := length_pos_iff.mpr some
      have all := short _ size le_rfl
      rw [take_of_length_le (length_map _).le] at all
      rw [max_eq_left size]
      exact all.le
  have plans : (∃ plan after, planPayment lib view coins outputs frame.feerate minConfirmations
      serviceFee false = (.ok plan, after)) ↔ ¬ frame.Short (eligible coins minConfirmations) := by
    rw [← (loops coins).planned_iff ⟨by omega, count ▸ fits⟩]
    refine exists_congr fun plan => ⟨?_, fun same => ⟨_, Prod.ext same rfl⟩⟩
    rintro ⟨_, same⟩
    exact congrArg Prod.fst same
  rw [plans]
  by_cases none : eligible utxos minConfirmations = []
  · rw [none] at perm isOwned isNeed
    refine iff_of_true (not_short_iff.mpr ⟨[coin], cons_ne_nil _ _, perm.symm.subperm, ?_⟩)
      (.inl none)
    rw [map_singleton, sum_singleton, worth, isNeed, isOwned]
    exact le_rfl
  · have size := length_pos_iff.mpr none
    rw [max_eq_left size] at isNeed
    rw [or_iff_right none]
    exact topped_up_iff positive (by omega) short (by omega) perm

open PlanSample

namespace PlanSample

/-- Two coins that are worth less than one input costs. -/
def dusty : List Utxo := [coin 1 30000 3, coin 5 1 3, coin 6 1 3, coin 3 500000 0]

end PlanSample

/-- With two coins that are not worth spending the shortfall is enough. -/
theorem shortfall_suffices_iff_dusty : ∃ plan after,
    planPayment lib view (coin 4 (102580 - 30002) 3 :: dusty) outputs 10 1 none false =
      (.ok plan, after) := by
  refine (shortfall_suffices_iff lib view dusty _ outputs 10 1 none
    (Prod.ext (by decide) rfl) rfl (by decide) (by decide) rfl
    (Perm.refl _)).mpr (.inr ⟨[coin 5 1 3, coin 6 1 3], ?_, by decide, by decide⟩)
  decide

/-- The input that spends the top-up is not in the report. -/
theorem shortfall_misses_input : (planPayment lib view poor outputs 10 1 none false).1 =
      .error (.failed (.insufficientFunds 101220 30000)) ∧
    (planPayment lib view (coin 4 (101220 - 30000) 3 :: poor) outputs 10 1 none false).1 =
      .error (.failed (.insufficientFunds 101900 101220)) :=
  ⟨(by decide), by decide⟩

end Fortis.Wallet
