import Fortis.Core.Validate

/-!
# What accepted terms guarantee

The edge chooses the terms of a match and is not trusted.  From a wallet's check alone follow the
margins between the two lock times, the wallet's clock and the funding deadlines.  None of the
check's sums leaves its width; the amount at the price is the one value that saturates.
-/

namespace Fortis.Core

open Lib

/-- The fields as the wire carries them: times in 32 bits, amounts in 64. -/
structure SwapTerms.Machine (terms : SwapTerms) : Prop where
  matchedAt : terms.matchedAt < u32Size
  xbtLocktime : terms.xbtLocktime < u32Size
  btcLocktime : terms.btcLocktime < u32Size
  acceptBy : terms.acceptBy < u32Size
  initiatorFundBy : terms.initiatorFundBy < u32Size
  xbtSat : terms.xbtSat ≤ u64Max
  priceSatPerXbt : terms.priceSatPerXbt ≤ u64Max

structure Checked (terms : SwapTerms) (limit : Nat) (role : SwapRole) (now : Nat)
    (locks : SwapTimelocks) : Prop where
  dated : terms.matchedAt ≤ now + maxClockSkewSecs
  price : terms.priceSatPerXbt ≤ maxPriceSatPerXbt
  limit : ¬ worseThan role terms.priceSatPerXbt limit
  amounts : terms.btcSat = btcForXbt terms.xbtSat terms.priceSatPerXbt
  xbtLocktime : near terms.xbtLocktime (terms.matchedAt + locks.xbtLegSecs)
  btcLocktime : near terms.btcLocktime (terms.matchedAt + locks.btcLegSecs)
  acceptBy : terms.acceptBy = terms.matchedAt + acceptSecs
  initiatorFundBy : terms.initiatorFundBy = terms.acceptBy + initiatorFundSecs

variable {now : Nat} {role : SwapRole} {limit : Nat}

theorem checked_of_validateTerms {terms : SwapTerms}
    (accepted : validateTerms terms limit role now = .ok ()) :
    ∃ btc xbt, networkParams terms.network = .ok (btc, xbt) ∧
      Checked terms limit role now (swapTimelocks btc xbt) := by
  obtain ⟨⟨btc, xbt⟩, network, accepted⟩ := ok_of_bind accepted
  obtain ⟨_, _, accepted⟩ := ok_of_bind accepted
  obtain ⟨_, dated, accepted⟩ := ok_of_bind accepted
  obtain ⟨_, _, accepted⟩ := ok_of_bind accepted
  obtain ⟨_, price, accepted⟩ := ok_of_bind accepted
  obtain ⟨_, limit, accepted⟩ := ok_of_bind accepted
  obtain ⟨_, amounts, accepted⟩ := ok_of_bind accepted
  obtain ⟨_, _, accepted⟩ := ok_of_bind accepted
  obtain ⟨_, _, accepted⟩ := ok_of_bind accepted
  obtain ⟨_, _, accepted⟩ := ok_of_bind accepted
  obtain ⟨_, locktimes, accepted⟩ := ok_of_bind accepted
  obtain ⟨_, deadlines, _⟩ := ok_of_bind accepted
  have locks := not_or.mp (not_of_refuseIf locktimes)
  have times := not_or.mp (not_of_refuseIf deadlines)
  exact ⟨btc, xbt, network,
    { dated := Nat.le_of_not_lt (not_of_refuseIf dated)
      price := Nat.le_of_not_lt (not_or.mp (not_of_refuseIf price)).2
      limit := not_of_refuseIf limit
      amounts := not_not.mp (not_of_refuseIf amounts)
      xbtLocktime := not_not.mp locks.1
      btcLocktime := not_not.mp locks.2
      acceptBy := not_not.mp times.1
      initiatorFundBy := not_not.mp times.2 }⟩

/-- Terms that passed on the main network, with its legs of 48 and 24 hours. -/
theorem checked_mainnet {terms : SwapTerms}
    (network : terms.network = "bitcoin") (accepted : validateTerms terms limit role now = .ok ()) :
    Checked terms limit role now ⟨48 * 3600, 24 * 3600⟩ := by
  obtain ⟨btc, xbt, known, checked⟩ := checked_of_validateTerms accepted
  rw [network] at known
  cases known
  exact checked

/-- Every sum and difference of the check and of the funding limit is exact. -/
structure ExactSums (terms : SwapTerms) (now : Nat) : Prop where
  dated : addU64 now maxClockSkewSecs = now + maxClockSkewSecs
  xbtLeg : addU64 terms.matchedAt (48 * 3600) = terms.matchedAt + 48 * 3600
  btcLeg : addU64 terms.matchedAt (24 * 3600) = terms.matchedAt + 24 * 3600
  accept : addU64 terms.matchedAt acceptSecs = terms.matchedAt + acceptSecs
  fund : addU64 terms.acceptBy initiatorFundSecs = terms.acceptBy + initiatorFundSecs
  product : terms.xbtSat * terms.priceSatPerXbt < 2 ^ 128
  leg : terms.matchedAt ≤ terms.btcLocktime
  left : min minBtcLegLeftSecs ((terms.btcLocktime - terms.matchedAt) / 2) ≤ terms.btcLocktime

theorem addU64_of_small {first second : Nat} (small : first < u32Size) (few : second < u32Size) :
    addU64 first second = first + second := by
  unfold addU64
  unfold u32Size at small few
  exact Nat.mod_eq_of_lt (by unfold u64Max; omega)

theorem exactSums_of_near {terms : SwapTerms} (machine : terms.Machine)
    (clock : now < u32Size) (lock : near terms.btcLocktime (terms.matchedAt + 24 * 3600)) :
    ExactSums terms now := by
  have leg : terms.matchedAt ≤ terms.btcLocktime := by
    unfold near locktimeToleranceSecs at lock
    omega
  have product : terms.xbtSat * terms.priceSatPerXbt ≤ u64Max * u64Max :=
    Nat.mul_le_mul machine.xbtSat machine.priceSatPerXbt
  exact
    { dated := addU64_of_small clock (by decide)
      xbtLeg := addU64_of_small machine.matchedAt (by decide)
      btcLeg := addU64_of_small machine.matchedAt (by decide)
      accept := addU64_of_small machine.matchedAt (by decide)
      fund := addU64_of_small machine.acceptBy (by decide)
      product := Nat.lt_of_le_of_lt product (by decide)
      leg := leg
      left := by omega }

/-- Accepted terms leave the margins the protocol promises, and the amount the price asks for. -/
theorem accepted_terms_safe {terms : SwapTerms} {limit : Nat} {role : SwapRole} {now : Nat}
    (machine : terms.Machine) (clock : now < u32Size) (network : terms.network = "bitcoin")
    (accepted : validateTerms terms limit role now = .ok ()) :
    terms.btcLocktime + (24 * 3600 - 1200) ≤ terms.xbtLocktime ∧
      participantFundLatest terms + (12 * 3600 - 300) ≤ terms.btcLocktime ∧
      terms.initiatorFundBy < participantFundLatest terms ∧
      terms.xbtLocktime ≤ now + 48 * 3600 + 1200 ∧
      terms.btcSat = min (terms.xbtSat * terms.priceSatPerXbt / 100000000) u64Max ∧
      (terms.btcSat = terms.xbtSat * terms.priceSatPerXbt / 100000000 ↔
        terms.xbtSat * terms.priceSatPerXbt / 100000000 ≤ u64Max) ∧
      ExactSums terms now ∧ ¬ worseThan role terms.priceSatPerXbt limit := by
  have checked := checked_mainnet network accepted
  have sums := exactSums_of_near machine clock checked.btcLocktime
  obtain ⟨dated, _, kept, amounts, xbtLock, btcLock, acceptBy, fundBy⟩ := checked
  unfold near locktimeToleranceSecs at xbtLock btcLock
  unfold maxClockSkewSecs at dated
  unfold acceptSecs at acceptBy
  unfold initiatorFundSecs at fundBy
  dsimp only at xbtLock btcLock
  have exact_iff : terms.btcSat = terms.xbtSat * terms.priceSatPerXbt / 100000000 ↔
      terms.xbtSat * terms.priceSatPerXbt / 100000000 ≤ u64Max := by
    rw [amounts]
    exact min_eq_left_iff
  refine ⟨by omega, ?_, ?_, by omega, amounts, exact_iff, sums, kept⟩
  · unfold participantFundLatest minBtcLegLeftSecs
    dsimp only
    omega
  unfold participantFundLatest minBtcLegLeftSecs
  dsimp only
  omega

namespace TermsSample

/-- Terms for `xbtSat` at `price` that name `btcSat`. -/
def terms (xbtSat price btcSat : Nat) : SwapTerms where
  matchId := "m"
  network := "bitcoin"
  xbtSat := xbtSat
  btcSat := btcSat
  priceSatPerXbt := price
  feeBps := 50
  feeAddress := "bc1qfee"
  matchedAt := 1800000000
  xbtLocktime := 1800172800
  btcLocktime := 1800086400
  xbtConfs := 6
  btcConfs := 2
  acceptBy := 1800000120
  initiatorFundBy := 1800001920
  contractVersion := 2

end TermsSample

open TermsSample

theorem accepted_terms_safe_plain : let plain := terms 100000000 1120000 1120000
    plain.btcLocktime + (24 * 3600 - 1200) ≤ plain.xbtLocktime ∧
      (plain.btcSat = 100000000 * 1120000 / 100000000 ↔
        100000000 * 1120000 / 100000000 ≤ u64Max) := by
  have machine : (terms 100000000 1120000 1120000).Machine :=
    ⟨by decide, by decide, by decide, by decide, by decide, by decide, by decide⟩
  have accepted :
      validateTerms (terms 100000000 1120000 1120000) 1120000 .initiator 1800000000 = .ok () := rfl
  have safe := accepted_terms_safe machine (by decide) rfl accepted
  exact ⟨safe.1, safe.2.2.2.2.2.1⟩

/-- The amount at the price does not fit 64 bits, and the largest amount that does is
accepted in its place. -/
theorem accepted_saturated_amount :
    let saturated := terms u64Max 2000000000 u64Max
    validateTerms saturated 2000000000 .participant 1800000000 = .ok () ∧
      saturated.btcSat ≠ saturated.xbtSat * saturated.priceSatPerXbt / 100000000 :=
  ⟨rfl, by decide⟩

end Fortis.Core
