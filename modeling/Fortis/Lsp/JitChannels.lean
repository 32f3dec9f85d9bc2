import Mathlib

/-!
# The sizes of channels opened for a payment

A payment to a phone without a channel opens one, sized from what is left of it after the opening
fee.  The provider publishes the payments whose channel is within its limits: the greatest from a
closed formula, the least from a binary search.
-/

namespace Fortis.Lsp

/-- The least number a monotone test accepts from `lo` up to `hi`, which it accepts. -/
def leastOk (ok : Nat → Bool) (lo hi : Nat) : Nat :=
  if lo < hi then
    let mid := lo + (hi - lo) / 2
    if ok mid then leastOk ok lo mid else leastOk ok (mid + 1) hi
  else lo
termination_by hi - lo

theorem leastOk_spec {ok : Nat → Bool} {lo hi : Nat}
    (mono : ∀ p q, p ≤ q → q ≤ hi → ok p = true → ok q = true) (ordered : lo ≤ hi)
    (top : ok hi = true) : lo ≤ leastOk ok lo hi ∧ leastOk ok lo hi ≤ hi ∧
      ok (leastOk ok lo hi) = true ∧ ∀ p, lo ≤ p → p < leastOk ok lo hi → ok p = false := by
  fun_induction leastOk ok lo hi with
  | case1 lo hi less mid accepted ih =>
    obtain ⟨above, below, found, least⟩ :=
      ih (fun p q le bound => mono p q le (by omega)) (by omega) accepted
    exact ⟨above, by omega, found, least⟩
  | case2 lo hi less mid refused ih =>
    obtain ⟨above, below, found, least⟩ := ih mono (by omega) top
    refine ⟨by omega, below, found, fun p low high => ?_⟩
    rcases Nat.lt_or_ge mid p with later | early
    · exact least p later high
    · exact Bool.eq_false_iff.mpr fun accepted => refused (mono p mid early (by omega) accepted)
  | case3 lo hi notLess =>
    cases Nat.le_antisymm ordered (Nat.not_lt.mp notLess)
    exact ⟨le_rfl, le_rfl, top, fun p low high => by omega⟩

/-! ## The sizes -/

structure JitConfig where
  (openFeePpm openFeeMinSat minPaymentSizeMsat maxPaymentSizeMsat : Nat)
  (channelMinSat channelMaxSat : Nat)
  /-- What `over_provisioning_ppm` makes of the channel size factor. -/
  overProvisioningPpm : Option Nat

def checked64 (value : Nat) : Option Nat := if value < 2 ^ 64 then some value else none

section

variable (c : JitConfig) (opPpm p : Nat)

def jitChannelSat : Option Nat := do
  let share ← checked64 (p * c.openFeePpm)
  let raised ← checked64 (share + 999999)
  let least ← checked64 (c.openFeeMinSat * 1000)
  let amt := p - max (raised / 1000000) least
  if amt = 0 then none
  else
    let extra ← checked64 (amt * opPpm)
    let total ← checked64 (amt + extra / 1000000)
    return total / 1000

def jitOk : Bool := (jitChannelSat c opPpm p).any (c.channelMinSat ≤ ·)

inductive BoundsError
  | factorOutOfRange | channelMaxTooLarge | noPaymentSize | tooLargeForFees
  deriving DecidableEq

def effectivePaymentBounds : Except BoundsError (Nat × Nat) :=
  match c.overProvisioningPpm with
  | none => .error .factorOutOfRange
  | some opPpm =>
    if 2 ^ 128 ≤ c.channelMaxSat * (1000 * 1000000) then .error .channelMaxTooLarge
    else
      let cap := c.channelMaxSat * (1000 * 1000000) / (1000000 + opPpm)
      let high := min cap c.maxPaymentSizeMsat
      if high < c.minPaymentSizeMsat ∨ jitOk c opPpm high = false then .error .noPaymentSize
      else if jitChannelSat c opPpm high = none then .error .tooLargeForFees
      else .ok (leastOk (jitOk c opPpm) c.minPaymentSizeMsat high, high)

/-- What is left of a payment after the fee. -/
def toForward : Nat := p - max ((p * c.openFeePpm + 999999) / 1000000) (c.openFeeMinSat * 1000)

end

variable {c : JitConfig} {opPpm p q channel : Nat}

theorem jitChannelSat_eq_some : jitChannelSat c opPpm p = some channel ↔
    p * c.openFeePpm + 999999 < 2 ^ 64 ∧ c.openFeeMinSat * 1000 < 2 ^ 64 ∧ 0 < toForward c p ∧
      toForward c p * opPpm < 2 ^ 64 ∧ toForward c p + toForward c p * opPpm / 1000000 < 2 ^ 64 ∧
      channel = (toForward c p + toForward c p * opPpm / 1000000) / 1000 := by
  simp only [jitChannelSat, checked64, toForward, Option.bind_eq_bind, Option.bind_eq_some_iff,
    Option.ite_none_left_eq_some, Option.ite_none_right_eq_some, pure, Option.some.injEq]
  constructor
  · rintro ⟨_, ⟨_, rfl⟩, _, ⟨raised, rfl⟩, _, ⟨least, rfl⟩, some, _, ⟨extra, rfl⟩, _, ⟨total, rfl⟩,
      rfl⟩
    exact ⟨raised, least, Nat.pos_of_ne_zero some, extra, total, rfl⟩
  rintro ⟨raised, least, some, extra, total, rfl⟩
  exact ⟨_, ⟨by omega, rfl⟩, _, ⟨raised, rfl⟩, _, ⟨least, rfl⟩, some.ne', _, ⟨extra, rfl⟩, _,
    ⟨total, rfl⟩, rfl⟩

theorem jitOk_iff : jitOk c opPpm p = true ↔
    ∃ channel, jitChannelSat c opPpm p = some channel ∧ c.channelMinSat ≤ channel := by
  simp [jitOk, Option.any_eq_true]

theorem toForward_mono (c : JitConfig) (le : p ≤ q) : toForward c p ≤ toForward c q := by
  obtain ⟨d, rfl⟩ := Nat.exists_eq_add_of_le le
  unfold toForward
  rcases Nat.le_total c.openFeePpm 1000000 with cheap | dear
  · have slow : ((p + d) * c.openFeePpm + 999999) / 1000000 ≤
        (p * c.openFeePpm + 999999) / 1000000 + d := by
      rw [← Nat.add_mul_div_right _ _ (by decide), Nat.add_mul, Nat.add_right_comm]
      exact Nat.div_le_div_right (Nat.add_le_add_left (Nat.mul_le_mul_left d cheap) _)
    generalize (p * c.openFeePpm + 999999) / 1000000 = fee at slow ⊢
    omega
  have all : p ≤ (p * c.openFeePpm + 999999) / 1000000 := (Nat.le_div_iff_mul_le (by decide)).mpr
    ((Nat.mul_le_mul_left p dear).trans (Nat.le_add_right _ _))
  rw [Nat.sub_eq_zero_of_le (all.trans (Nat.le_max_left _ _))]
  exact Nat.zero_le _

/-- Nothing overflows below a payment that has a channel, and larger payments have larger ones. -/
theorem jitOk_mono {high : Nat} (large : jitOk c opPpm high = true) (le : p ≤ q)
    (bound : q ≤ high) (small : jitOk c opPpm p = true) : jitOk c opPpm q = true := by
  obtain ⟨_, sized, enough⟩ := jitOk_iff.mp small
  obtain ⟨_, least, some, _, _, rfl⟩ := jitChannelSat_eq_some.mp sized
  obtain ⟨_, sizedHigh, _⟩ := jitOk_iff.mp large
  obtain ⟨raised, _, _, extra, total, _⟩ := jitChannelSat_eq_some.mp sizedHigh
  have more := toForward_mono c le
  have less := toForward_mono c bound
  have share := Nat.mul_le_mul_right c.openFeePpm bound
  have overMore := Nat.mul_le_mul_right opPpm more
  have overLess := Nat.mul_le_mul_right opPpm less
  exact jitOk_iff.mpr ⟨_, jitChannelSat_eq_some.mpr
    ⟨by omega, least, by omega, by omega, by omega, rfl⟩, by omega⟩

theorem jitChannelSat_le {cap : Nat} (sized : jitChannelSat c opPpm p = some channel)
    (bound : p ≤ cap * (1000 * 1000000) / (1000000 + opPpm)) : channel ≤ cap := by
  obtain ⟨_, _, _, _, _, rfl⟩ := jitChannelSat_eq_some.mp sized
  have part : toForward c p ≤ p := Nat.sub_le _ _
  have whole := (Nat.le_div_iff_mul_le (by omega)).mp (part.trans bound)
  rw [Nat.mul_add] at whole
  omega

/-- Exactly the payments within the bounds have a channel within the limits. -/
theorem payment_bounds_exact (c : JitConfig) (low high : Nat)
    (bounds : effectivePaymentBounds c = .ok (low, high)) :
    ∃ opPpm, c.overProvisioningPpm = some opPpm ∧ c.minPaymentSizeMsat ≤ low ∧ low ≤ high ∧
      high ≤ c.maxPaymentSizeMsat ∧
      (∀ p, low ≤ p → p ≤ high → ∃ channel, jitChannelSat c opPpm p = some channel ∧
        c.channelMinSat ≤ channel ∧ channel ≤ c.channelMaxSat) ∧
      ∀ p, c.minPaymentSizeMsat ≤ p → p < low → ∀ channel,
        jitChannelSat c opPpm p = some channel → channel < c.channelMinSat := by
  unfold effectivePaymentBounds at bounds
  split at bounds
  · cases bounds
  next opPpm isPpm =>
  split at bounds
  · cases bounds
  dsimp only at bounds
  split at bounds
  · cases bounds
  next inside =>
  split at bounds
  · cases bounds
  cases bounds
  obtain ⟨ordered, top⟩ := not_or.mp inside
  rw [Bool.not_eq_false] at top
  obtain ⟨above, below, found, least⟩ :=
    leastOk_spec (fun p q => jitOk_mono top) (Nat.not_lt.mp ordered) top
  refine ⟨opPpm, isPpm, above, below, Nat.min_le_right _ _, fun p low high => ?_,
    fun p low high channel sized => ?_⟩
  · obtain ⟨channel, sized, enough⟩ := jitOk_iff.mp (jitOk_mono top low high found)
    exact ⟨channel, sized, enough, jitChannelSat_le sized (high.trans (Nat.min_le_left _ _))⟩
  by_contra enough
  exact Bool.false_ne_true ((least p low high).symm.trans
    (jitOk_iff.mpr ⟨channel, sized, Nat.not_lt.mp enough⟩))

/-- A fee of 30 % and at least 2 sat, and half as much again in the channel. -/
def dearConfig : JitConfig := ⟨300000, 2, 1000, 1000000, 10, 100, some 500000⟩

/-- The binary search ends at 9,525 msat: a payment of one less makes a channel below 10 sat. -/
theorem payment_bounds_exact_dear : effectivePaymentBounds dearConfig = .ok (9525, 66666) ∧
    ∃ opPpm, (∃ channel, jitChannelSat dearConfig opPpm 50000 = some channel ∧ 10 ≤ channel ∧
        channel ≤ 100) ∧
      ∀ channel, jitChannelSat dearConfig opPpm 9524 = some channel → channel < 10 := by
  have bounds : effectivePaymentBounds dearConfig = .ok (9525, 66666) := by decide +kernel
  obtain ⟨opPpm, _, _, _, _, within, below⟩ := payment_bounds_exact dearConfig _ _ bounds
  exact ⟨bounds, opPpm, within 50000 (by decide) (by decide), below 9524 (by decide) (by decide)⟩

end Fortis.Lsp
