import Fortis.Core.Terms
import Fortis.Lib.Prog

/-!
# The wallet's check of matched terms

Each wallet checks the terms of a match against its own limit price, its clock
and the protocol constants before it accepts them.
-/

namespace Fortis.Core

open Lib

def maxPriceSatPerXbt : Nat := 2100000000000000
def locktimeToleranceSecs : Nat := 600
def maxClockSkewSecs : Nat := 600

def worseThan (role : SwapRole) (price limit : Nat) : Prop :=
  match role with
  | .initiator => price < limit
  | .participant => limit < price

instance (role : SwapRole) (price limit : Nat) : Decidable (worseThan role price limit) := by
  unfold worseThan
  cases role <;> infer_instance

def near (actual expected : Nat) : Prop :=
  actual - expected + (expected - actual) ≤ locktimeToleranceSecs

instance (actual expected : Nat) : Decidable (near actual expected) :=
  inferInstanceAs (Decidable (_ ≤ _))

def validateTerms (terms : SwapTerms) (limitPriceSatPerXbt : Nat) (role : SwapRole) (now : Nat) :
    Except WalletError Unit := do
  let (btc, xbt) ← networkParams terms.network
  refuseIf (terms.contractVersion ≠ contractV1 ∧ terms.contractVersion ≠ contractV2)
    (.termsRejected ("unknown contract version " ++ toString terms.contractVersion))
  refuseIf (now + maxClockSkewSecs < terms.matchedAt)
    (.termsRejected "the match is dated in the future")
  refuseIf (limitPriceSatPerXbt = 0) (.termsRejected "zero limit price")
  refuseIf (terms.priceSatPerXbt = 0 ∨ maxPriceSatPerXbt < terms.priceSatPerXbt)
    (.termsRejected "price out of range")
  refuseIf (worseThan role terms.priceSatPerXbt limitPriceSatPerXbt)
    (.termsRejected "price is worse than your limit")
  refuseIf (terms.btcSat ≠ btcForXbt terms.xbtSat terms.priceSatPerXbt)
    (.termsRejected "btc amount does not match xbt amount at price")
  refuseIf (terms.btcSat < minBtcLegSat) (.termsRejected "below minimum swap size")
  refuseIf (terms.feeBps ≠ swapFeeBps) (.termsRejected "unexpected fee")
  refuseIf (terms.xbtConfs ≠ xbtConfs ∨ terms.btcConfs ≠ btcConfs)
    (.termsRejected "unexpected confirmation requirement")
  let timelocks := swapTimelocks btc xbt
  refuseIf (¬ near terms.xbtLocktime (terms.matchedAt + timelocks.xbtLegSecs) ∨
      ¬ near terms.btcLocktime (terms.matchedAt + timelocks.btcLegSecs))
    (.termsRejected "locktime does not match agreed timelocks")
  refuseIf (terms.acceptBy ≠ terms.matchedAt + acceptSecs ∨
      terms.initiatorFundBy ≠ terms.acceptBy + initiatorFundSecs)
    (.termsRejected "unexpected deadlines")
  refuseIf (terms.acceptBy < now) (.termsRejected "accept deadline passed")

/-- What terms owe to the protocol alone, whichever side checks them. -/
structure WellFormed (terms : SwapTerms) (btc xbt : ChainParams) : Prop where
  network : networkParams terms.network = .ok (btc, xbt)
  version : terms.contractVersion = contractV1 ∨ terms.contractVersion = contractV2
  price : 0 < terms.priceSatPerXbt ∧ terms.priceSatPerXbt ≤ maxPriceSatPerXbt
  amounts : terms.btcSat = btcForXbt terms.xbtSat terms.priceSatPerXbt
  least : minBtcLegSat ≤ terms.btcSat
  fee : terms.feeBps = swapFeeBps
  confs : terms.xbtConfs = xbtConfs ∧ terms.btcConfs = btcConfs
  xbtLocktime : terms.xbtLocktime = terms.matchedAt + (swapTimelocks btc xbt).xbtLegSecs
  btcLocktime : terms.btcLocktime = terms.matchedAt + (swapTimelocks btc xbt).btcLegSecs
  acceptBy : terms.acceptBy = terms.matchedAt + acceptSecs
  initiatorFundBy : terms.initiatorFundBy = terms.acceptBy + initiatorFundSecs

/-- Well-formed terms pass for a side whose limit they keep, until they are to be accepted. -/
theorem WellFormed.validates {terms : SwapTerms} {btc xbt : ChainParams}
    (formed : WellFormed terms btc xbt) {limit : Nat} {role : SwapRole} {now : Nat}
    (pos : limit ≠ 0) (kept : ¬ worseThan role terms.priceSatPerXbt limit)
    (dated : terms.matchedAt ≤ now + maxClockSkewSecs) (open' : now ≤ terms.acceptBy) :
    validateTerms terms limit role now = .ok () := by
  have version : ¬ (terms.contractVersion ≠ contractV1 ∧ terms.contractVersion ≠ contractV2) :=
    fun unknown => formed.version.elim unknown.1 unknown.2
  have price : ¬ (terms.priceSatPerXbt = 0 ∨ maxPriceSatPerXbt < terms.priceSatPerXbt) := by
    have := formed.price
    omega
  have locks : ¬ (¬ near terms.xbtLocktime (terms.matchedAt + (swapTimelocks btc xbt).xbtLegSecs) ∨
      ¬ near terms.btcLocktime (terms.matchedAt + (swapTimelocks btc xbt).btcLegSecs)) := by
    rw [formed.xbtLocktime, formed.btcLocktime]
    rintro (far | far)
    · exact far ((by simp [near]))
    · exact far ((by simp [near]))
  have deadlines : ¬ (terms.acceptBy ≠ terms.matchedAt + acceptSecs ∨
      terms.initiatorFundBy ≠ terms.acceptBy + initiatorFundSecs) :=
    fun wrong => wrong.elim (· formed.acceptBy) (· formed.initiatorFundBy)
  have confs : ¬ (terms.xbtConfs ≠ xbtConfs ∨ terms.btcConfs ≠ btcConfs) :=
    fun wrong => wrong.elim (· formed.confs.1) (· formed.confs.2)
  unfold validateTerms
  rw [formed.network]
  simp only [ok_bind, refuseIf_of_not version, refuseIf_of_not (Nat.not_lt.mpr dated),
    refuseIf_of_not pos, refuseIf_of_not price, refuseIf_of_not kept,
    refuseIf_of_not (not_not.mpr formed.amounts), refuseIf_of_not (Nat.not_lt.mpr formed.least),
    refuseIf_of_not (not_not.mpr formed.fee), refuseIf_of_not confs, refuseIf_of_not locks,
    refuseIf_of_not deadlines, refuseIf_of_not (Nat.not_lt.mpr open')]

end Fortis.Core
