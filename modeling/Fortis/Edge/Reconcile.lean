import Mathlib

/-!
# Dropping phantom transactions from a scan

The batch indexer's pending transactions are checked one by one against the upstream chain, and an
entry of one the chain does not know is dropped.  An output the indexer does not list because a
phantom spends it is not put back.
-/

namespace Fortis.Edge.Reconcile

open List

/-! ## Asking the upstream chain -/

/-- The status one upstream answers to `tx/{txid}` with, or its failure. -/
abbrev Upstream := String → Except String Nat

def txExists : List Upstream → String → Option Bool
  | [], _ => none
  | up :: rest, txid =>
    match up txid with
    | .ok 200 => some true
    | .ok 404 => some false
    | _ => txExists rest txid

def maxVerifyPerScan : Nat := 20

/-- What was found out so far, and how many more may be asked about. -/
structure Checks where
  checked : List (String × Bool)
  budget : Nat

def isDead (chain : List Upstream) (txid : String) (checks : Checks) : Bool × Checks :=
  match checks.checked.lookup txid with
  | some dead => (dead, checks)
  | none =>
    if checks.budget = 0 then (false, checks)
    else
      let dead := decide (txExists chain txid = some false)
      (dead, ⟨(txid, dead) :: checks.checked, checks.budget - 1⟩)

section Retain

variable {α : Type} (pending : α → Bool) (txid : α → String) (chain : List Upstream)

/-- `retain`: an entry goes if it is pending and dead. -/
def retain : List α → Checks → List α × Checks
  | [], checks => ([], checks)
  | entry :: rest, checks =>
    if pending entry then
      let (dead, asked) := isDead chain (txid entry) checks
      let (kept, last) := retain rest asked
      (if dead then kept else entry :: kept, last)
    else
      let (kept, last) := retain rest checks
      (entry :: kept, last)

/-- Every answer noted is the chain's. -/
def Checks.Honest (checks : Checks) : Prop :=
  ∀ txid dead, checks.checked.lookup txid = some dead →
    dead = decide (txExists chain txid = some false)

/-- The ids not asked about yet are no more than may still be. -/
def Checks.Room (ids : Finset String) (checks : Checks) : Prop :=
  (ids \ (checks.checked.map Prod.fst).toFinset).card ≤ checks.budget

variable {chain} {ids : Finset String} {checks : Checks}

theorem isDead_honest (honest : checks.Honest chain) (room : checks.Room ids) {txid : String}
    (mem : txid ∈ ids) :
    (isDead chain txid checks).1 = decide (txExists chain txid = some false) ∧
      (isDead chain txid checks).2.Honest chain ∧ (isDead chain txid checks).2.Room ids := by
  unfold isDead
  split
  next dead known => exact ⟨honest txid dead known, honest, room⟩
  next unknown =>
    have fresh : txid ∈ ids \ (checks.checked.map Prod.fst).toFinset := by
      simp only [Finset.mem_sdiff, mem, true_and, mem_toFinset, mem_map, not_exists, not_and]
      intro entry isEntry same
      have apart := lookup_eq_none_iff.mp unknown entry isEntry
      simp [same] at apart
    have left := Finset.card_pos.mpr ⟨txid, fresh⟩
    unfold Checks.Room at room
    rw [if_neg (by omega)]
    refine ⟨rfl, fun other dead known => ?_, ?_⟩
    · rw [lookup_cons] at known
      split at known
      next same =>
        rw [beq_iff_eq.mp same]
        exact (Option.some.inj known).symm
      next => exact honest other dead known
    · -- Asking takes one id off those to be asked about and one off the budget.
      unfold Checks.Room
      rw [map_cons, toFinset_cons, Finset.sdiff_insert, Finset.card_erase_of_mem fresh]
      dsimp only
      omega

/-- With room for every pending id, exactly the dead entries go. -/
theorem retain_eq_filter {entries : List α} (honest : checks.Honest chain)
    (room : checks.Room ids) (within : ∀ entry ∈ entries, pending entry = true → txid entry ∈ ids) :
    (retain pending txid chain entries checks).1 = entries.filter (fun entry =>
        !(pending entry && decide (txExists chain (txid entry) = some false))) ∧
      (retain pending txid chain entries checks).2.Honest chain ∧
        (retain pending txid chain entries checks).2.Room ids := by
  induction entries generalizing checks with
  | nil => exact ⟨rfl, honest, room⟩
  | cons entry rest ih =>
    obtain ⟨here, later⟩ := forall_mem_cons.mp within
    unfold retain
    cases is : pending entry with
    | false =>
      obtain ⟨kept, still, left⟩ := ih honest room later
      exact ⟨by simp [is, kept], still, left⟩
    | true =>
      obtain ⟨answer, noted, spent⟩ := isDead_honest honest room (here is)
      obtain ⟨kept, still, left⟩ := ih noted spent later
      refine ⟨?_, still, left⟩
      simp only [if_true, answer, kept]
      cases dead : decide (txExists chain (txid entry) = some false) <;> simp [is, dead]

end Retain

structure Listed where
  txid : String
  confirmed : Bool

structure Coin where
  txid : String
  vout : Nat
  address : String
  valueSat : Nat
  confirmed : Bool
  deriving DecidableEq

def Listed.isPending (tx : Listed) : Bool := !tx.confirmed

def Coin.isPending (coin : Coin) : Bool := !coin.confirmed

def dropDeadPending (chain : List Upstream) (txs : List Listed) (utxos : List Coin) :
    List Listed × List Coin :=
  let (keptTxs, asked) :=
    retain Listed.isPending Listed.txid chain txs ⟨[], maxVerifyPerScan⟩
  (keptTxs, (retain Coin.isPending Coin.txid chain utxos asked).1)

/-! ## What is unspent -/

structure Tx where
  txid : String
  confirmed : Bool
  inputs : List (String × Nat)
  outputs : List (String × Nat)
  deriving DecidableEq

def Tx.coins (tx : Tx) : List Coin :=
  tx.outputs.zipIdx.map fun output =>
    ⟨tx.txid, output.2, output.1.1, output.1.2, tx.confirmed⟩

def spends (txs : List Tx) (coin : Coin) : Bool :=
  txs.any fun tx => tx.inputs.contains (coin.txid, coin.vout)

/-- The coins at `addresses` that some transaction of `txs` creates and none spends. -/
def unspent (txs : List Tx) (addresses : List String) : List Coin :=
  (txs.flatMap Tx.coins).filter fun coin => addresses.contains coin.address && !spends txs coin

theorem coin_of_tx {txs : List Tx} {coin : Coin} (mem : coin ∈ txs.flatMap Tx.coins) :
    ∃ tx ∈ txs, coin.txid = tx.txid ∧ coin.confirmed = tx.confirmed := by
  obtain ⟨tx, among, made⟩ := mem_flatMap.mp mem
  obtain ⟨output, _, rfl⟩ := mem_map.mp made
  exact ⟨tx, among, rfl, rfl⟩

/-- The upstream chain answers for every pending transaction, and rightly. -/
structure Definitive (chain : List Upstream) (real phantoms : List Tx) : Prop where
  known : ∀ tx ∈ real, tx.confirmed = false → txExists chain tx.txid = some true
  unknown : ∀ tx ∈ phantoms, tx.confirmed = false ∧ txExists chain tx.txid = some false

/-- The indexer's unspent outputs without the phantoms' are the real ones that no
phantom spends. -/
theorem live_unspent {chain : List Upstream} {real phantoms : List Tx}
    (definitive : Definitive chain real phantoms) (addresses : List String) :
    (unspent (real ++ phantoms) addresses).filter (fun coin =>
        !(coin.isPending && decide (txExists chain coin.txid = some false))) =
      (unspent real addresses).filter fun coin => !spends phantoms coin := by
  have kept : ∀ coin ∈ real.flatMap Tx.coins,
      (!(coin.isPending && decide (txExists chain coin.txid = some false))) = true := by
    intro coin mem
    obtain ⟨tx, among, sameId, sameStatus⟩ := coin_of_tx mem
    cases status : tx.confirmed with
    | true => simp [Coin.isPending, sameStatus, status]
    | false => simp [sameId, definitive.known tx among status]
  have dropped : ∀ coin ∈ phantoms.flatMap Tx.coins,
      (!(coin.isPending && decide (txExists chain coin.txid = some false))) = false := by
    intro coin mem
    obtain ⟨tx, among, sameId, sameStatus⟩ := coin_of_tx mem
    obtain ⟨status, dead⟩ := definitive.unknown tx among
    simp [Coin.isPending, sameId, sameStatus, status, dead]
  unfold unspent
  rw [flatMap_append, filter_append, filter_append]
  have none : ((phantoms.flatMap Tx.coins).filter fun coin =>
      addresses.contains coin.address && !spends (real ++ phantoms) coin).filter (fun coin =>
        !(coin.isPending && decide (txExists chain coin.txid = some false))) = [] := by
    rw [filter_eq_nil_iff]
    intro coin mem
    rw [dropped coin (mem_filter.mp mem).1]
    exact Bool.false_ne_true
  rw [none, append_nil, filter_filter, filter_filter]
  refine filter_congr fun coin mem => ?_
  have split : spends (real ++ phantoms) coin = (spends real coin || spends phantoms coin) :=
    any_append
  rw [kept coin mem, split, Bool.true_and, Bool.not_or]
  cases spends phantoms coin <;> simp

/-- The transactions with a pending entry, each once. -/
def pendingIds (txs : List Listed) (utxos : List Coin) : Finset String :=
  ((txs.filter Listed.isPending).map Listed.txid ++
    (utxos.filter Coin.isPending).map Coin.txid).toFinset

/-- Exactly the unspent outputs of the real transactions are served, if and only if no phantom
spends one of them. -/
theorem phantoms_leave_no_trace {chain : List Upstream} {real phantoms : List Tx}
    {addresses : List String} {txs : List Listed} {utxos : List Coin}
    (listed : utxos.Perm (unspent (real ++ phantoms) addresses))
    (definitive : Definitive chain real phantoms)
    (few : (pendingIds txs utxos).card ≤ maxVerifyPerScan) :
    (dropDeadPending chain txs utxos).2.Perm (unspent real addresses) ↔
      ∀ coin ∈ unspent real addresses, spends phantoms coin = false := by
  have start : Checks.Honest chain ⟨[], maxVerifyPerScan⟩ := by
    intro txid dead known
    simp at known
  have room : Checks.Room (pendingIds txs utxos) ⟨[], maxVerifyPerScan⟩ := by
    simpa [Checks.Room] using few
  obtain ⟨_, honest, left⟩ := retain_eq_filter Listed.isPending Listed.txid start room
    fun entry mem pending => mem_toFinset.mpr (mem_append_left _
      (mem_map_of_mem (mem_filter.mpr ⟨mem, pending⟩)))
  obtain ⟨kept, _, _⟩ := retain_eq_filter Coin.isPending Coin.txid honest left
    fun entry mem pending => mem_toFinset.mpr (mem_append_right _
      (mem_map_of_mem (mem_filter.mpr ⟨mem, pending⟩)))
  have served : (dropDeadPending chain txs utxos).2.Perm
      ((unspent real addresses).filter fun coin => !spends phantoms coin) := by
    rw [← live_unspent definitive addresses]
    exact (Perm.of_eq kept).trans (listed.filter _)
  constructor
  · intro exact coin mem
    have all := length_filter_eq_length_iff.mp (served.symm.trans exact).length_eq coin mem
    simpa using all
  · intro untouched
    have all : (unspent real addresses).filter (fun coin => !spends phantoms coin) =
        unspent real addresses :=
      filter_eq_self.mpr fun coin mem => by rw [untouched coin mem]; rfl
    rwa [all] at served

namespace ReconcileSample

/-- A confirmed payment of 1000 sat to the address. -/
def paid : Tx := ⟨"r", true, [], [("a", 1000)]⟩

/-- A real payment that is still pending. -/
def pays : Tx := ⟨"p", false, [], [("a", 500)]⟩

/-- A phantom with more outputs than transactions may be asked about. -/
def invented : Tx := ⟨"i", false, [("x", 0)], replicate 25 ("a", 7)⟩

/-- A phantom that spends a phantom. -/
def follows : Tx := ⟨"j", false, [("i", 0)], [("a", 6)]⟩

/-- Another, which spends the confirmed payment. -/
def claims : Tx := ⟨"c", false, [("r", 0)], [("b", 990)]⟩

def chain : List Upstream :=
  [fun _ => .error "timeout", fun txid => .ok (if txid = "p" then 200 else 404)]

end ReconcileSample

open ReconcileSample

/-- The phantoms' own outputs go, the two real ones stay. -/
theorem phantoms_leave_no_trace_invented : (dropDeadPending chain [⟨"i", false⟩, ⟨"j", false⟩]
      (unspent ([paid, pays] ++ [invented, follows]) ["a"])).2.Perm (unspent [paid, pays] ["a"]) :=
  (phantoms_leave_no_trace (List.Perm.refl _) ⟨by decide, by decide⟩ (by decide)).mpr (by decide)

/-- A confirmed coin that a phantom claims to spend is missing from the balance. -/
theorem phantom_hides_coin : Definitive chain [paid] [claims] ∧
      (dropDeadPending chain [⟨"c", false⟩] (unspent ([paid] ++ [claims]) ["a"])).2 = [] ∧
      unspent [paid] ["a"] = [⟨"r", 0, "a", 1000, true⟩] :=
  ⟨⟨by decide, by decide⟩, by decide, by decide⟩

end Fortis.Edge.Reconcile
