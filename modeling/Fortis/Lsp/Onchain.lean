import Fortis.Lsp.Ledger

/-!
# What the provider pays on chain

One wallet pays the withdrawals from accounts and the channels opened to configured peers.
-/

namespace Fortis.Lsp

open Fortis.Core List

def withdrawTxVbytes : Nat := 200

def dustSat : Nat := 546

structure Withdrawal where
  (payoutSat feeSat : Nat)
  deriving DecidableEq

/-- The network fee; the product wraps. -/
def netFee (feerateSatVb : Nat) : Nat := withdrawTxVbytes * max feerateSatVb 1 % (u64Max + 1)

variable (amountSat feerateSatVb : Nat)

/-- `fee_sat`: the network fee and the operator's share. -/
def withdrawalFee : Nat :=
  let net := netFee feerateSatVb
  let fee := max (max (amountSat / 100) 1000) net
  let share := if fee - net < dustSat then 0 else fee - net
  net + share

def withdrawal : Option Withdrawal :=
  let feeSat := withdrawalFee amountSat feerateSatVb
  if feeSat ≤ amountSat ∧ dustSat ≤ amountSat - feeSat then
    some ⟨amountSat - feeSat, feeSat⟩
  else none

/-- The operator's share before it is dropped for being below dust. -/
def shareSat : Nat :=
  max (max (amountSat / 100) 1000) (netFee feerateSatVb) - netFee feerateSatVb

/-- A withdrawal's amounts are exact; a larger one pays out less exactly when its share is no longer
dropped and is more than what it is larger by. -/
theorem withdrawal_exact (amountSat feerate : Nat)
    (fits : withdrawTxVbytes * max feerate 1 ≤ u64Max) :
    (∀ plan, withdrawal amountSat feerate = some plan → amountSat = plan.payoutSat + plan.feeSat ∧
      withdrawTxVbytes * max feerate 1 ≤ plan.feeSat ∧ dustSat ≤ plan.payoutSat) ∧
    (withdrawal amountSat feerate = none ↔ amountSat < withdrawalFee amountSat feerate + dustSat) ∧
    ∀ larger plan, amountSat ≤ larger → withdrawal amountSat feerate = some plan →
      ∃ more, withdrawal larger feerate = some more ∧ (more.payoutSat < plan.payoutSat ↔
        shareSat amountSat feerate < dustSat ∧ dustSat ≤ shareSat larger feerate ∧
          larger < amountSat + shareSat larger feerate) := by
  have net : netFee feerate = _ := Nat.mod_eq_of_lt (Nat.lt_succ_of_le fits)
  have covers : netFee feerate ≤ withdrawalFee amountSat feerate := Nat.le_add_right _ _
  simp only [withdrawal, Option.ite_none_right_eq_some, Option.some.injEq, ite_eq_right_iff,
    reduceCtorEq, imp_false]
  refine ⟨?_, by omega, ?_⟩
  · rintro _ ⟨enough, rfl⟩
    exact ⟨(Nat.sub_add_cancel enough.1).symm, net ▸ covers, enough.2⟩
  rintro larger _ grown ⟨enough, rfl⟩
  have arrives : withdrawalFee larger feerate + dustSat ≤ larger ∧
      (larger - withdrawalFee larger feerate < amountSat - withdrawalFee amountSat feerate ↔
        shareSat amountSat feerate < dustSat ∧ dustSat ≤ shareSat larger feerate ∧
          larger < amountSat + shareSat larger feerate) := by
    revert enough
    unfold withdrawalFee shareSat dustSat
    dsimp only
    split <;> split <;> omega
  exact ⟨_, ⟨by omega, rfl⟩, arrives.2⟩

/-- Of amounts 100000 and 300000 only the larger pays a share, and it pays out more. -/
theorem withdrawal_exact_small : ∃ more, withdrawal 300000 10 = some more ∧
    dustSat ≤ shareSat 300000 10 ∧ 98000 ≤ more.payoutSat := by
  obtain ⟨more, isMore, fewer⟩ := (withdrawal_exact 100000 10 (by decide)).2.2 300000
    ⟨98000, 2000⟩ (by decide) (by decide)
  exact ⟨more, isMore, by decide, not_lt.mp fun less => absurd (fewer.mp less) (by decide)⟩

/-- One satoshi more starts the operator's share, and 545 less arrive. -/
theorem withdrawal_drops : withdrawal 254599 10 = some ⟨252599, 2000⟩ ∧
    withdrawal 254600 10 = some ⟨252054, 2546⟩ := by
  decide

/-! ## Outbound channels -/

structure Outbound where
  nodeId : PublicKey
  sat : Nat

namespace Outbound

def retryAfter : Nat := 600

/-- What the opener remembers within one run: the peers it opened to and its last failures. -/
structure State where
  opened : List PublicKey
  failedAt : PublicKey → Option Nat

def State.recordOpened (state : State) (peer : PublicKey) : State where
  opened := peer :: state.opened
  failedAt other := if other = peer then none else state.failedAt other

def State.recordFailed (state : State) (peer : PublicKey) (now : Nat) : State :=
  { state with failedAt := fun other => if other = peer then some now else state.failedAt other }

structure Snapshot where
  withChannel : List PublicKey
  walletSynced : Bool
  (spendableSat reservePerChannelSat : Nat)

def wanted (snap : Snapshot) (state : State) (now : Nat) (t : Outbound) : Prop :=
  t.nodeId ∉ snap.withChannel ∧ t.nodeId ∉ state.opened ∧
    ∀ at' ∈ state.failedAt t.nodeId, retryAfter ≤ now - at'

instance (snap : Snapshot) (state : State) (now : Nat) (t : Outbound) :
    Decidable (t.wanted snap state now) :=
  inferInstanceAs (Decidable (_ ∧ _ ∧ _))

def needs (snap : Snapshot) (t : Outbound) : Nat := min (t.sat + snap.reservePerChannelSat) u64Max

/-- One turn of the loop over the targets: the budget left and the targets taken. -/
def consider (snap : Snapshot) (state : State) (now : Nat) (acc : Nat × List Outbound)
    (t : Outbound) : Nat × List Outbound :=
  if t.wanted snap state now ∧ t.needs snap ≤ acc.1 then (acc.1 - t.needs snap, acc.2 ++ [t])
  else acc

def due (targets : List Outbound) (snap : Snapshot) (state : State) (now : Nat) : List Outbound :=
  if snap.walletSynced then (targets.foldl (consider snap state now) (snap.spendableSat, [])).2
  else []

structure Pass extends Snapshot where
  now : Nat
  /-- What the node answers to an attempt. -/
  opens : PublicKey → Bool

def record (pass : Pass) (state : State) (t : Outbound) : State :=
  if pass.opens t.nodeId then state.recordOpened t.nodeId else state.recordFailed t.nodeId pass.now

def openMissing (targets : List Outbound) (state : State) (pass : Pass) : State :=
  (due targets pass.toSnapshot state pass.now).foldl (record pass) state

def run (targets : List Outbound) (passes : List Pass) : State :=
  passes.foldl (openMissing targets) ⟨[], fun _ => none⟩

variable {snap : Snapshot} {state : State} {now : Nat} {targets : List Outbound} {t : Outbound}

theorem consider_spends (targets : List Outbound) :
    let acc := targets.foldl (consider snap state now) (snap.spendableSat, [])
    acc.1 + (acc.2.map (needs snap)).sum = snap.spendableSat ∧
      ∀ t ∈ acc.2, t.wanted snap state now := by
  induction targets using reverseRecOn with
  | nil => simp
  | append_singleton before t ih =>
    rw [foldl_concat, consider]
    split
    next taken =>
      refine ⟨?_, fun other mem => ?_⟩
      · simp only [map_append, sum_append, map_singleton, sum_singleton]
        omega
      · rcases mem_append.mp mem with early | new
        · exact ih.2 other early
        · exact mem_singleton.mp new ▸ taken.1
    · exact ih

theorem mem_opened (pass : Pass) (picked : List Outbound) {peer : PublicKey} :
    peer ∈ (picked.foldl (record pass) state).opened ↔
      peer ∈ state.opened ∨ ∃ t ∈ picked, pass.opens t.nodeId ∧ t.nodeId = peer := by
  induction picked generalizing state with
  | nil => simp
  | cons t rest ih =>
    rw [foldl_cons, ih, record]
    split
    next opens => simp [State.recordOpened, opens, or_assoc, or_left_comm, eq_comm (a := peer)]
    next fails => simp [State.recordFailed, fails]

theorem opened_later (passes : List Pass) {peer : PublicKey} (known : peer ∈ state.opened) :
    peer ∈ (passes.foldl (openMissing targets) state).opened := by
  induction passes generalizing state with
  | nil => exact known
  | cons pass rest ih => exact ih ((mem_opened ..).mpr (.inl known))

/-- What is due never costs more than there is to spend, names no peer that has a channel or was
opened to by an earlier pass, and takes the targets in their order, each one that is wanted and
fits. -/
theorem due_in_budget (targets : List Outbound) (passes : List Pass) (snap : Snapshot) (now : Nat) :
    let state := run targets passes
    ((due targets snap state now).map (needs snap)).sum ≤ snap.spendableSat ∧
    (∀ t ∈ due targets snap state now, t.nodeId ∉ snap.withChannel ∧
      ∀ early pass late, passes = early ++ pass :: late →
        ∀ other ∈ due targets pass.toSnapshot (run targets early) pass.now,
          pass.opens other.nodeId → other.nodeId ≠ t.nodeId) ∧
    ∀ before t, due (before ++ [t]) snap state now = due before snap state now ++
      if snap.walletSynced ∧ t.wanted snap state now ∧
        ((due before snap state now).map (needs snap)).sum + t.needs snap ≤ snap.spendableSat
      then [t] else [] := by
  intro state
  rcases synced : snap.walletSynced with _ | _
  · simp [due, synced]
  have spends := @consider_spends snap state now
  have all : ∀ targets, due targets snap state now =
      (targets.foldl (consider snap state now) (snap.spendableSat, [])).2 := fun _ => if_pos synced
  refine ⟨?_, ?_, ?_⟩
  · have spent := (spends targets).1
    rw [all]
    omega
  · intro t mem
    rw [all] at mem
    obtain ⟨free, unopened, _⟩ := (spends targets).2 t mem
    refine ⟨free, ?_⟩
    rintro early pass late rfl other picked opens same
    apply unopened
    rw [show state = _ from foldl_append ..]
    exact opened_later late ((mem_opened ..).mpr (.inr ⟨other, picked, opens, same⟩))
  intro before t
  have left := (spends before).1
  rw [all, all, foldl_concat, consider]
  split
  next taken => rw [if_pos ⟨rfl, taken.1, by omega⟩]
  next refused =>
    rw [if_neg, append_nil]
    rintro ⟨_, wanted, fits⟩
    exact refused ⟨wanted, by omega⟩

/-- A peer whose open just failed is left out though it fits, has no channel and was never
opened. -/
theorem due_skips_failed : ∃ (t : Outbound) (pass : Pass), let state := run [t] [pass]
    t.needs pass.toSnapshot ≤ pass.spendableSat ∧ pass.walletSynced ∧ pass.withChannel = [] ∧
      state.opened = [] ∧ due [t] pass.toSnapshot state pass.now = [] :=
  ⟨⟨⟨replicate 33 2, rfl⟩, 20000⟩, ⟨⟨[], true, 50000, 10000⟩, 0, fun _ => false⟩, by decide⟩

end Outbound

end Fortis.Lsp
