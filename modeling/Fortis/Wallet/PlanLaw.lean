import Fortis.Wallet.Planning

/-!
# The balance law of plans

Whatever the planner returns spends distinct coins of the wallet and pays out exactly what they are
worth.  Both selection loops keep the value of the coins chosen so far beside them, so the law of a
plan is the law of the iteration that returned it.
-/

namespace Fortis.Wallet

open Fortis.Core Lib List Option

/-- The plan spends distinct coins that are deep enough, and its amounts add up. -/
structure Balanced (utxos : List Utxo) (minConfirmations : Nat) (plan : FundingPlan) : Prop where
  inputs : plan.tx.input.map TxIn.previousOutput = plan.selected.map Utxo.outpoint
  distinct : (plan.tx.input.map TxIn.previousOutput).Nodup
  coins : ∀ coin ∈ plan.selected, coin ∈ utxos ∧ minConfirmations ≤ coin.confirmations
  balance : (plan.selected.map Utxo.value).sum = (plan.tx.output.map TxOut.value).sum + plan.fee

/-- The service fee on `amount` is the computed one, raised to the dust limit of its script. -/
structure Charged (lib : ScriptLib) (serviceFee : Option ServiceFee) (amount : Nat)
    (plan : FundingPlan) (feeOut : Option TxOut) : Prop where
  stated : plan.serviceFee = feeOut.map TxOut.value
  computed : ∀ out, feeOut = some out ↔ ∃ fee, serviceFee = some fee ∧ fee.amountSat amount ≠ 0 ∧
    out = ⟨max (fee.amountSat amount) (lib.minimalNonDust fee.feeSpk), fee.feeSpk⟩

/-- The outputs are `front` and then the change, which alone moves the change counter. -/
inductive Changed (view after : WalletView) (plan : FundingPlan) (front : List TxOut) : Prop
  | kept (noChange : plan.change = none) (unnamed : plan.changeDerivationIndex = none)
      (outputs : plan.tx.output = front) (same : after = view)
  | moved (value : Nat) (script : Bytes) (change : plan.change = some value)
      (spendable : 294 ≤ value) (named : plan.changeDerivationIndex = some view.nextChange)
      (derived : view.addressAt 1 view.nextChange = .ok script)
      (outputs : plan.tx.output = front ++ [⟨value, script⟩])
      (next : after = { view with nextChange := view.nextChange + 1 })

/-- A plan meets `law`; a failure leaves the counters alone. -/
def Outcome (view : WalletView) (law : FundingPlan → WalletView → Prop) : Planned → Prop
  | (.ok plan, after) => law plan after
  | (.error _, after) => after = view

variable {law : FundingPlan → WalletView → Prop} {planned : Planned}

section

variable {lib : ScriptLib} {utxos : List Utxo} {view : WalletView} {outputs : List TxOut}

theorem Outcome.mono {weaker : FundingPlan → WalletView → Prop} (outcome : Outcome view law planned)
    (implies : ∀ plan after, law plan after → weaker plan after) : Outcome view weaker planned := by
  obtain ⟨result, after⟩ := planned
  cases result with
  | error stop => exact outcome
  | ok plan => exact implies plan after outcome

/-- The plan spends a first part of `coins`, and its amounts add up. -/
structure Picked (coins : List Utxo) (plan : FundingPlan) : Prop where
  inputs : plan.tx.input.map TxIn.previousOutput = plan.selected.map Utxo.outpoint
  first : plan.selected <+: coins
  balance : (plan.selected.map Utxo.value).sum = (plan.tx.output.map TxOut.value).sum + plan.fee

variable {plan : FundingPlan}

theorem Picked.of_unsigned {coins : List Utxo}
    (unsigned : plan.tx.input = plan.selected.map unsignedInput) (first : plan.selected <+: coins)
    (balance : (plan.selected.map Utxo.value).sum =
      (plan.tx.output.map TxOut.value).sum + plan.fee) : Picked coins plan where
  inputs := by simp [unsigned, Function.comp_def, unsignedInput]
  first := first
  balance := balance

variable {minConfirmations : Nat}

theorem mem_eligible {coin : Utxo} : coin ∈ eligible utxos minConfirmations ↔
      coin ∈ utxos ∧ minConfirmations ≤ coin.confirmations := by
  simp [eligible, mem_insertionSort]

/-- Coins picked from the eligible ones are distinct coins of the wallet. -/
theorem Picked.balanced (distinct : (utxos.map Utxo.outpoint).Nodup)
    (picked : Picked (eligible utxos minConfirmations) plan) :
    Balanced utxos minConfirmations plan where
  inputs := picked.inputs
  distinct := by
    rw [picked.inputs]
    exact (picked.first.sublist.map _).nodup ((((perm_insertionSort _ _).map
      Utxo.outpoint).nodup_iff.mpr (((filter_sublist.map _).nodup distinct))))
  coins coin member := mem_eligible.mp (picked.first.subset member)
  balance := picked.balance

theorem sum_snoc {coin : Utxo} {before : List Utxo} {acc more : Nat}
    (worth : acc = (before.map Utxo.value).sum) (added : checkedAdd acc coin.value = some more) :
    more = ((before ++ [coin]).map Utxo.value).sum := by
  rw [checkedAdd_some added, worth]
  simp

/-- A plan of the loop spends coins that it was given and pays the outputs. -/
theorem payLoop_outcome {frame : PayFrame}
    (target : frame.target = (frame.outputs.map TxOut.value).sum)
    (derived : view.addressAt 1 view.nextChange = .ok frame.changeSpk) (coins before : List Utxo)
    (acc : Nat) (worth : acc = (before.map Utxo.value).sum) : Outcome view
      (fun plan after => Picked (before ++ coins) plan ∧ plan.serviceFee = frame.serviceFeeSat ∧
        Changed view after plan frame.outputs) (payLoop frame view coins before acc) := by
  induction coins generalizing before acc with
  | nil => rfl
  | cons coin rest ih =>
    have chosen : before ++ coin :: rest = (before ++ [coin]) ++ rest := by simp
    unfold payLoop
    split
    · rfl
    next acc' added =>
    have worth' := sum_snoc worth added
    dsimp only
    split
    · rfl
    next needed summed =>
    split
    next enough =>
      have need := checkedSum_ok summed
      simp only [sum_cons, sum_nil] at need
      refine ⟨.of_unsigned rfl ⟨rest, chosen.symm⟩ ?_, rfl,
        .moved _ _ rfl enough.2 rfl derived rfl rfl⟩
      simp only [assemble, map_append, sum_append, map_singleton,
        sum_singleton, ← target] at worth' ⊢
      rw [← worth']
      omega
    · split
      · rfl
      next bare summed' =>
      split
      next enough =>
        have need := checkedSum_ok summed'
        simp only [sum_cons, sum_nil] at need
        refine ⟨.of_unsigned rfl ⟨rest, chosen.symm⟩ ?_, rfl, .kept rfl rfl rfl rfl⟩
        simp only [assemble, ← target, ← worth']
        omega
      · rw [chosen]
        exact ih _ _ worth'

variable {serviceFee : Option ServiceFee}

theorem charged_of_bind {amount : Nat}
    (stated : plan.serviceFee = (serviceFee.bind fun fee => fee.output lib amount).map
    TxOut.value) :
    Charged lib serviceFee amount plan (serviceFee.bind fun fee => fee.output lib amount) where
  stated := stated
  computed out := by
    rcases serviceFee with _ | fee
    · simp
    simp only [bind_some, some.injEq, exists_eq_left', ServiceFee.output]
    split
    next zero => simp [zero]
    next charged => simp [charged, eq_comm]

theorem paymentFee_of_sum {target : Nat}
    (summed : checkedSum ((outputs ++ (paymentFee lib outputs serviceFee).toList).map TxOut.value) =
      .ok target) : paymentFee lib outputs serviceFee =
      serviceFee.bind fun fee => fee.output lib (outputs.map TxOut.value).sum := by
  cases sent : checkedSum (outputs.map TxOut.value) with
  | ok total => simp only [paymentFee, sent, checkedSum_ok sent]
  | error stop =>
    -- The fee is left out of an overflowing sum, and the target overflows as well.
    have none : paymentFee lib outputs serviceFee = none := by
      cases serviceFee <;> simp [paymentFee, sent]
    rw [none, toList_none, append_nil, sent] at summed
    cases summed

theorem planPaymentOnTop_outcome (lib : ScriptLib) (view : WalletView)
    (outputs : List TxOut) (feerate depth : Nat) (fee : Option ServiceFee)
    (nodup : (utxos.map Utxo.outpoint).Nodup) : Outcome view
      (fun plan after => Balanced utxos depth plan ∧ ∃ feeOut,
        Charged lib fee (outputs.map TxOut.value).sum plan feeOut ∧
          Changed view after plan (outputs ++ feeOut.toList))
      (planPaymentOnTop lib view utxos outputs feerate depth fee) := by
  unfold planPaymentOnTop
  dsimp only
  split
  · rfl
  next target summed =>
  split
  · rfl
  next changeSpk derived =>
  refine (payLoop_outcome (checkedSum_ok summed) derived _ [] 0 rfl).mono ?_
  rintro plan after ⟨picked, stated, changed⟩
  refine ⟨picked.balanced nodup, _, charged_of_bind ?_, ?_⟩
  · rw [stated, paymentFee_of_sum summed]
  rw [← paymentFee_of_sum summed]
  exact changed

/-! ## The fee out of the amount -/

theorem spendable_singleton {dest : TxOut} {place : Nat}
    (single : spendable outputs = [(dest, place)]) :
    ∃ before later, outputs = before ++ dest :: later ∧ place = before.length ∧
      isOpReturn dest.scriptPubkey = false ∧
        ∀ out ∈ before ++ later, isOpReturn out.scriptPubkey := by
  have shifted : ∀ (outputs : List TxOut) (start : Nat),
      (outputs.zipIdx start).filter (fun place => !isOpReturn place.1.scriptPubkey) =
          [(dest, place)] →
        ∃ before later, outputs = before ++ dest :: later ∧ place = start + before.length ∧
          isOpReturn dest.scriptPubkey = false ∧
            ∀ out ∈ before ++ later, isOpReturn out.scriptPubkey := by
    intro outputs
    induction outputs with
    | nil =>
      intro start found
      simp at found
    | cons out rest ih =>
      intro start found
      rw [zipIdx_cons, filter_cons] at found
      split at found
      next pays =>
        obtain ⟨here, later⟩ := List.cons.inj found
        cases here
        refine ⟨[], rest, rfl, rfl, by simpa using pays, ?_⟩
        intro other mem
        have placed : other ∈ (rest.zipIdx (place + 1)).map Prod.fst := by
          rwa [zipIdx_map_fst]
        obtain ⟨at', found, rfl⟩ := mem_map.mp placed
        simpa using filter_eq_nil_iff.mp later at' found
      next silent =>
      obtain ⟨before, later, rfl, rfl, pays, silentRest⟩ := ih (start + 1) found
      refine ⟨out :: before, later, rfl, by simp; omega, pays, ?_⟩
      simpa using ⟨by simpa using silent, by simpa using silentRest⟩
  simpa using shifted outputs 0 single

variable {total : Nat}

theorem carved_some {first second left : Nat} {large : Nat → Bool}
    (carved : ((checkedSub total first).bind fun rest => checkedSub rest second).filter large =
      some left) : left + second + first = total := by
  obtain ⟨subtracted, _⟩ := filter_eq_some_iff.mp carved
  obtain ⟨rest, outer, inner⟩ := bind_eq_some_iff.mp subtracted
  rw [checkedSub_some inner, checkedSub_some outer]

theorem toList_values (out : Option TxOut) :
    (out.toList.map TxOut.value).sum = (out.map TxOut.value).getD 0 := by
  cases out <;> simp

variable {frame : InclusiveFrame} {before later : List TxOut}

namespace InclusiveFrame

structure Placed (frame : InclusiveFrame) (before later : List TxOut) : Prop where
  outputs : frame.outputs = before ++ frame.dest :: later
  destIdx : frame.destIdx = before.length
  worthless : ∀ out ∈ before ++ later, out.value = 0

theorem Placed.paid (placed : frame.Placed before later) (recipient : Nat) :
    frame.paid recipient = before ++ { frame.dest with value := recipient } :: later ++
      frame.serviceFee.toList := by
  simp [InclusiveFrame.paid, placed.outputs, placed.destIdx]

theorem Placed.paid_sum (placed : frame.Placed before later) (recipient : Nat) :
    ((frame.paid recipient).map TxOut.value).sum = recipient + frame.sfValue := by
  have none : ∀ outs : List TxOut, (∀ out ∈ outs, out.value = 0) →
      (outs.map TxOut.value).sum = 0 := by
    intro outs worthless
    apply sum_eq_zero
    simpa using worthless
  have first := none before fun out mem =>
    placed.worthless out (mem_append_left later mem)
  have last := none later fun out mem =>
    placed.worthless out (mem_append_right before mem)
  simp only [placed.paid, map_append, map_cons, sum_append, sum_cons, first,
    last, toList_values, sfValue]
  omega

theorem recipient_ok {lib : ScriptLib} {netFee recipient : Nat}
    (carved : frame.recipient lib netFee = .ok recipient) :
    recipient + netFee + frame.sfValue = frame.budget := by
  unfold InclusiveFrame.recipient at carved
  dsimp only at carved
  split at carved
  next value left =>
    cases carved
    exact carved_some left
  · split at carved <;> cases carved

end InclusiveFrame

/-- What the wallet spends bar change is the amount asked for and a surplus too small to keep. -/
def Budgeted (budget : Nat) (plan : FundingPlan) : Prop :=
  ∃ folded, folded < 294 ∧
    (plan.selected.map Utxo.value).sum = budget + plan.change.getD 0 + folded ∧
      (plan.change ≠ none → folded = 0)

theorem inclusiveLoop_outcome {first last : List TxOut} (placed : frame.Placed first last)
    (derived : view.addressAt 1 view.nextChange = .ok frame.changeSpk) (coins before : List Utxo)
    (acc : Nat) (worth : acc = (before.map Utxo.value).sum) : Outcome view
      (fun plan after => Picked (before ++ coins) plan ∧
        plan.serviceFee = frame.serviceFee.map TxOut.value ∧ Budgeted frame.budget plan ∧
          ∃ recipient, Changed view after plan (frame.paid recipient))
      (inclusiveLoop lib frame view coins before acc) := by
  induction coins generalizing before acc with
  | nil => rfl
  | cons coin rest ih =>
    have chosen : before ++ coin :: rest = (before ++ [coin]) ++ rest := by simp
    unfold inclusiveLoop
    split
    · rfl
    next acc' added =>
    have worth' := sum_snoc worth added
    dsimp only
    split
    · rw [chosen]
      exact ih _ _ worth'
    split
    next surplus =>
      split
      · rfl
      next recipient carved =>
      have whole := InclusiveFrame.recipient_ok carved
      have paid := placed.paid_sum recipient
      refine ⟨.of_unsigned rfl ⟨rest, chosen.symm⟩ ?_, rfl, ⟨0, by omega, ?_, fun _ => rfl⟩,
        recipient, .moved _ _ rfl surplus rfl derived rfl rfl⟩
      · simp only [assemble, ← worth']
        simp only [map_append, sum_append, map_singleton, sum_singleton, paid]
        omega
      simp only [assemble, ← worth', getD_some]
      omega
    next small =>
    split
    · rfl
    next recipient carved =>
    have whole := InclusiveFrame.recipient_ok carved
    have paid := placed.paid_sum recipient
    refine ⟨.of_unsigned rfl ⟨rest, chosen.symm⟩ ?_, rfl,
      ⟨acc' - frame.budget, by unfold changeDustSat at small; omega, ?_, ?_⟩,
      recipient, .kept rfl rfl rfl rfl⟩
    · simp only [assemble, ← worth', paid]
      omega
    · simp only [assemble, ← worth', getD_none]
      omega
    · exact fun change => absurd rfl change

theorem planPaymentFeeInclusive_outcome (lib : ScriptLib) (view : WalletView)
    (feerate depth : Nat) (serviceFee : Option ServiceFee)
    (nodup : (utxos.map Utxo.outpoint).Nodup)
    (worthless : ∀ out ∈ outputs, isOpReturn out.scriptPubkey → out.value = 0) : Outcome view
      (fun plan after => Balanced utxos depth plan ∧
        ∃ before dest later recipient feeOut, outputs = before ++ dest :: later ∧
          isOpReturn dest.scriptPubkey = false ∧ Charged lib serviceFee dest.value plan feeOut ∧
            Changed view after plan
              (before ++ { dest with value := recipient } :: later ++ feeOut.toList) ∧
            Budgeted dest.value plan)
      (planPaymentFeeInclusive lib view utxos outputs feerate depth serviceFee) := by
  unfold planPaymentFeeInclusive
  split
  next dest destIdx single =>
    obtain ⟨before, later, whole, place, pays, silent⟩ := spendable_singleton single
    split
    · rfl
    next changeSpk derived =>
    have placed : InclusiveFrame.Placed
        { outputs, dest, destIdx, feerate, changeSpk,
          serviceFee := serviceFee.bind fun fee => fee.output lib dest.value }
        before later := by
      refine ⟨whole, place, fun out mem => worthless out ?_ (silent out mem)⟩
      rw [whole]
      rcases mem_append.mp mem with first | last
      · exact mem_append_left _ first
      · exact mem_append_right _ (mem_cons_of_mem dest last)
    refine (inclusiveLoop_outcome placed derived _ [] 0 rfl).mono ?_
    rintro plan after ⟨picked, stated, budgeted, recipient, changed⟩
    rw [placed.paid] at changed
    exact ⟨picked.balanced nodup, before, dest, later, recipient, _, whole, pays,
      charged_of_bind stated, changed, budgeted⟩
  · rfl

variable {feerate : Nat}

theorem planPayment_outcome
    (feeFromAmount : Bool) (outcome : Outcome view law (if feeFromAmount then
        planPaymentFeeInclusive lib view utxos outputs feerate minConfirmations serviceFee
      else planPaymentOnTop lib view utxos outputs feerate minConfirmations serviceFee)) :
    Outcome view law (planPayment lib view utxos outputs feerate minConfirmations serviceFee
      feeFromAmount) := by
  unfold planPayment
  split
  · rfl
  · exact outcome

theorem sweepValue_ok {fee feeOut value : Nat}
    (carved : sweepValue total fee feeOut = .ok value) : value + feeOut + fee = total := by
  unfold sweepValue at carved
  split at carved
  · cases carved
  dsimp only at carved
  split at carved
  next kept left =>
    cases carved
    exact carved_some left
  · cases carved

theorem planSweep_law {dest : Bytes} (nodup : (utxos.map Utxo.outpoint).Nodup)
    (planned : planSweep lib utxos dest feerate minConfirmations serviceFee = .ok plan) :
    Balanced utxos minConfirmations plan ∧ plan.change = none ∧ plan.changeDerivationIndex =
      none ∧ ∃ value feeOut, plan.tx.output = ⟨value, dest⟩ :: feeOut.toList ∧
        Charged lib serviceFee (plan.selected.map Utxo.value).sum plan feeOut := by
  obtain ⟨_, _, planned⟩ := ok_of_bind planned
  obtain ⟨_, _, planned⟩ := ok_of_bind planned
  obtain ⟨_, _, planned⟩ := ok_of_bind planned
  obtain ⟨total, summed, planned⟩ := ok_of_bind planned
  obtain ⟨value, carved, planned⟩ := ok_of_bind planned
  cases planned
  cases checkedSum_ok summed
  have whole := sweepValue_ok carved
  have inputs : ((utxos.filter fun coin => minConfirmations ≤ coin.confirmations).map
      unsignedInput).map TxIn.previousOutput =
        (utxos.filter fun coin => minConfirmations ≤ coin.confirmations).map Utxo.outpoint := by
    simp [Function.comp_def, unsignedInput]
  refine ⟨⟨inputs, ?_, ?_, ?_⟩, rfl, rfl, value, _, rfl, charged_of_bind rfl⟩
  · simp only [assemble, inputs]
    exact (filter_sublist.map _).nodup nodup
  · simp [assemble]
  simp only [assemble, map_cons, sum_cons, toList_values]
  exact whole.symm

/-! ## The law of every plan -/

/-- Every plan balances.  The requested outputs stand first, then the service fee, then the change.
A payment that fails leaves the counters as they were. -/
theorem plans_balance (lib : ScriptLib) (view : WalletView) (utxos : List Utxo)
    (outputs : List TxOut) (feerate minConfirmations : Nat) (serviceFee : Option ServiceFee)
    (distinct : (utxos.map Utxo.outpoint).Nodup)
    (worthless : ∀ out ∈ outputs, isOpReturn out.scriptPubkey → out.value = 0) : (∀ plan after,
      planPayment lib view utxos outputs feerate minConfirmations serviceFee false =
          (.ok plan, after) → Balanced utxos minConfirmations plan ∧ ∃ feeOut,
          Charged lib serviceFee (outputs.map TxOut.value).sum plan feeOut ∧
            Changed view after plan (outputs ++ feeOut.toList)) ∧ (∀ plan after,
      planPayment lib view utxos outputs feerate minConfirmations serviceFee true =
          (.ok plan, after) → Balanced utxos minConfirmations plan ∧
          ∃ before dest later recipient feeOut, outputs = before ++ dest :: later ∧
            isOpReturn dest.scriptPubkey = false ∧ Charged lib serviceFee dest.value plan feeOut ∧
              Changed view after plan
                (before ++ { dest with value := recipient } :: later ++ feeOut.toList) ∧
              Budgeted dest.value plan) ∧ (∀ dest plan,
      planSweep lib utxos dest feerate minConfirmations serviceFee = .ok plan →
        Balanced utxos minConfirmations plan ∧ plan.change = none ∧
          plan.changeDerivationIndex = none ∧
          ∃ value feeOut, plan.tx.output = ⟨value, dest⟩ :: feeOut.toList ∧
            Charged lib serviceFee (plan.selected.map Utxo.value).sum plan feeOut) ∧
    ∀ feeFromAmount stop after,
      planPayment lib view utxos outputs feerate minConfirmations serviceFee feeFromAmount =
          (.error stop, after) → after = view := by
  have onTop := planPayment_outcome false
    (planPaymentOnTop_outcome lib view outputs feerate minConfirmations serviceFee distinct)
  have inclusive := planPayment_outcome true
    (planPaymentFeeInclusive_outcome lib view feerate minConfirmations serviceFee distinct
      worthless)
  refine ⟨?_, ?_, fun dest plan => planSweep_law distinct, ?_⟩
  · intro plan after planned
    rwa [planned] at onTop
  · intro plan after planned
    rwa [planned] at inclusive
  intro feeFromAmount stop after planned
  cases feeFromAmount with
  | false => rwa [planned] at onTop
  | true => rwa [planned] at inclusive

end

variable {α : Type}

namespace PlanSample

/-- The dust limits the library has for `OP_RETURN` and for witness programs. -/
def lib : ScriptLib where
  minimalNonDust script :=
    if isOpReturn script then 0 else 3 * (67 + 8 + varintLen script.length + script.length)
  amountText sat := toString sat

def p2wpkh (tag : UInt8) : Bytes := 0 :: 20 :: List.replicate 20 tag

def view : WalletView where
  derive _ index := .ok (p2wpkh (UInt8.ofNat index))
  nextReceive := 4
  nextChange := 7

def coin (tag : UInt8) (value confirmations : Nat) : Utxo :=
  ⟨⟨⟨List.replicate 32 tag, by simp⟩, 0⟩, value, p2wpkh tag, confirmations, 0, false⟩

def utxos : List Utxo := [coin 1 30000 3, coin 2 90000 6, coin 3 500000 0]

def outputs : List TxOut := [⟨0, [0x6a, 1, 42]⟩, ⟨100000, p2wpkh 9⟩]

def hosted : Option ServiceFee := some ⟨100, 400, 0, p2wpkh 8⟩

variable {field : FundingPlan → α}

theorem exists_ok {result : Except Stop FundingPlan} {value : α}
    (found : result.toOption.map field = some value) :
    ∃ plan, result = .ok plan ∧ field plan = value := by
  cases result with
  | error stop => cases found
  | ok plan => exact ⟨plan, rfl, some.inj found⟩

theorem exists_planned {value : α} (found : planned.1.toOption.map field = some value) :
    ∃ plan after, planned = (.ok plan, after) ∧ field plan = value := by
  obtain ⟨plan, made, read⟩ := exists_ok found
  exact ⟨plan, planned.2, Prod.ext made rfl, read⟩

end PlanSample

open PlanSample

/-- A payment in both modes and a sweep, from two of three coins. -/
theorem plans_balance_sample :
    (∃ plan after, planPayment lib view utxos outputs 10 1 hosted false = (.ok plan, after) ∧
      plan.change = some 16480 ∧ Balanced utxos 1 plan) ∧
    (∃ plan after, planPayment lib view utxos outputs 10 1 hosted true = (.ok plan, after) ∧
      plan.change = some 20000 ∧ Balanced utxos 1 plan) ∧
    ∃ plan, planSweep lib utxos (p2wpkh 9) 10 1 hosted = .ok plan ∧ plan.fee = 2090 ∧
      Balanced utxos 1 plan := by
  obtain ⟨onTop, inclusive, sweep, _⟩ := plans_balance lib view utxos outputs 10 1 hosted
    (by decide) (by decide)
  have made : ((planPayment lib view utxos outputs 10 1 hosted false).1.toOption.map
        FundingPlan.change = some (some 16480)) ∧
      ((planPayment lib view utxos outputs 10 1 hosted true).1.toOption.map
        FundingPlan.change = some (some 20000)) ∧
      ((planSweep lib utxos (p2wpkh 9) 10 1 hosted).toOption.map FundingPlan.fee = some 2090) := by
    decide
  obtain ⟨first, after, planned, change⟩ := exists_planned made.1
  obtain ⟨second, after', planned', change'⟩ := exists_planned made.2.1
  obtain ⟨swept, planned'', fee⟩ := exists_ok made.2.2
  exact ⟨⟨first, after, planned, change, (onTop first after planned).1⟩,
    ⟨second, after', planned', change', (inclusive second after' planned').1⟩,
    swept, planned'', fee, (sweep (p2wpkh 9) swept planned'').1⟩

end Fortis.Wallet
