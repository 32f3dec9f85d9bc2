import Fortis.Core.Terms

/-!
# Moving funds to Lightning

The quote of a move leaves the channel transaction's estimated fee in transit.
The session decides by its own margin, `max(500, 2 · 200 · feerate)`, and the node
by the operator's channel limit.  The quote looks at neither.
-/

namespace Fortis.Lightning.Transfer

open Fortis.Core

def transferFeeFloorSat : Int := 1000

def channelTxVbytes : Int := 200

def dustSat : Int := 546

def userChannelMinSat : Int := 5000

def pendingTransferMaxAgeMs : Int := 48 * 60 * 60 * 1000

/-- What a 64-bit signed operation leaves of a result. -/
def long (value : Int) : Int := (value + 2 ^ 63) % 2 ^ 64 - 2 ^ 63

theorem long_lt (value : Int) : long value < 2 ^ 63 := by
  unfold long
  omega

theorem long_of_fits {value : Int} (low : -2 ^ 63 ≤ value) (high : value < 2 ^ 63) :
    long value = value := by
  unfold long
  omega

def transferFeeSat (amountSat networkFeeSat : Int) : Int :=
  max (max (amountSat.tdiv 100) transferFeeFloorSat) networkFeeSat

/-- The fee less the network fees: at least the service-fee floor where there is one,
otherwise none below dust. -/
def operatorShareSat (amountSat networkFeeSat floorSat : Int) : Int :=
  let share := long (transferFeeSat amountSat networkFeeSat - networkFeeSat)
  if 0 < floorSat then max share floorSat else if share < dustSat then 0 else share

structure ToLightningQuote where
  (amountSat depositFeeSat channelFeeSat shareSat : Int)
  /-- What the deposit pays to the transit address. -/
  toTransitSat : Int
  deriving DecidableEq

def ToLightningQuote.arrivesSat (quote : ToLightningQuote) : Int :=
  long (quote.toTransitSat - quote.channelFeeSat)

def quoteToLightning (amountSat depositFeeSat feerateSatVb floorSat : Int) :
    Option ToLightningQuote :=
  let channelFee := long (channelTxVbytes * max feerateSatVb 1)
  let share := operatorShareSat amountSat (long (depositFeeSat + channelFee)) floorSat
  let quote : ToLightningQuote := ⟨amountSat, depositFeeSat, channelFee, share,
    long (long (amountSat - depositFeeSat) - share)⟩
  if userChannelMinSat ≤ quote.arrivesSat then some quote else none

structure PendingTransfer where
  (atMs feerateSatVb : Int)

inductive LnChannelState
  | none
  | opening
  | ready
  | closing

inductive TransitAction
  | wait
  | opens
  | spliceIn

def channelFeeMarginSat (feerateSatVb : Int) : Int :=
  max 500 (long (2 * channelTxVbytes * feerateSatVb))

def transitAction (spendableSat : Int) (channel : LnChannelState) (feerateSatVb : Int) :
    TransitAction :=
  let usable := long (spendableSat - channelFeeMarginSat feerateSatVb)
  match channel with
  | .none => if userChannelMinSat ≤ usable then .opens else .wait
  | .ready => if dustSat ≤ usable then .spliceIn else .wait
  | .opening | .closing => .wait

def activeTransfer (stored : Option PendingTransfer) (nowMs : Int) : Option PendingTransfer :=
  stored.filter fun transfer => long (nowMs - transfer.atMs) ≤ pendingTransferMaxAgeMs

/-- What the session asks of the node, with the amount in satoshis. -/
inductive Request
  | openChannel (amountSat : Nat)
  | spliceIn (amountSat : Nat)

def fundFromTransit (stored : Option PendingTransfer) (nowMs spendableSat : Int)
    (channel : LnChannelState) : Option Request := do
  let transfer ← activeTransfer stored nowMs
  let amount := long (spendableSat - channelFeeMarginSat transfer.feerateSatVb)
  -- `toULong` reads the same 64 bits without the sign.
  let amount := (amount % 2 ^ 64).toNat
  match transitAction spendableSat channel transfer.feerateSatVb with
  | .wait => none
  | .opens => some (.openChannel amount)
  | .spliceIn => some (.spliceIn amount)

inductive LnError
  | amountOutOfRange (minMsat maxMsat : Nat)
  | insufficientTransit
  deriving DecidableEq

def openChannel (channelMaxSat spendableSat amountSat : Nat) : Except LnError Unit :=
  if amountSat < userChannelMinSat.toNat ∨ channelMaxSat < amountSat then
    throw (.amountOutOfRange (userChannelMinSat.toNat * 1000) (min (channelMaxSat * 1000) u64Max))
  else if spendableSat < amountSat then throw .insufficientTransit
  else return ()

/-- A quote of 5,200 satoshis at one satoshi a virtual byte: the session leaves them in transit. -/
theorem quoted_deposit_waits : quoteToLightning 6000 200 1 0 = some ⟨6000, 200, 200, 600, 5200⟩ ∧
    fundFromTransit (some ⟨0, 1⟩) 600000 5200 .none = none := by decide

section Deposit

variable (feerateSatVb spendableSat atMs nowMs : Int)

/-- The session asks for a channel with all that its margin leaves, and the node's bounds take
it. -/
def Opens (channelMaxSat : Nat) : Prop :=
  ∃ amount : Nat, amount = spendableSat - max 500 (long (400 * feerateSatVb)) ∧
    fundFromTransit (some ⟨atMs, feerateSatVb⟩) nowMs spendableSat .none =
      some (.openChannel amount) ∧
    openChannel channelMaxSat spendableSat.toNat amount = .ok ()

/-- The session asks to splice all that its margin leaves into the channel. -/
def Splices : Prop :=
  ∃ amount : Nat, amount = spendableSat - max 500 (long (400 * feerateSatVb)) ∧
    fundFromTransit (some ⟨atMs, feerateSatVb⟩) nowMs spendableSat .ready = some (.spliceIn amount)

variable {feerateSatVb spendableSat atMs nowMs}

/-- A transfer that is too old asks for nothing. -/
theorem fundFromTransit_old {channel : LnChannelState}
    (old : ¬ long (nowMs - atMs) ≤ pendingTransferMaxAgeMs) :
    fundFromTransit (some ⟨atMs, feerateSatVb⟩) nowMs spendableSat channel = none := by
  have dropped : activeTransfer (some ⟨atMs, feerateSatVb⟩) nowMs = none :=
    Option.filter_eq_none_iff.mpr fun transfer isTransfer => by
      cases isTransfer
      simpa using old
  rw [fundFromTransit, dropped]
  rfl

/-- What the session asks for while the transfer is young: no subtraction wraps. -/
theorem fundFromTransit_young (low : 0 ≤ spendableSat) (high : spendableSat < 2 ^ 63)
    (young : long (nowMs - atMs) ≤ pendingTransferMaxAgeMs) {kept : Int}
    (isKept : kept = max 500 (long (400 * feerateSatVb))) :
    fundFromTransit (some ⟨atMs, feerateSatVb⟩) nowMs spendableSat .none =
        (if 5000 + kept ≤ spendableSat then some (.openChannel (spendableSat - kept).toNat)
          else none) ∧
      fundFromTransit (some ⟨atMs, feerateSatVb⟩) nowMs spendableSat .ready =
        (if 546 + kept ≤ spendableSat then some (.spliceIn (spendableSat - kept).toNat)
          else none) := by
  have active : activeTransfer (some ⟨atMs, feerateSatVb⟩) nowMs = some ⟨atMs, feerateSatVb⟩ :=
    Option.filter_eq_some_iff.mpr ⟨rfl, decide_eq_true young⟩
  have margin : channelFeeMarginSat feerateSatVb = kept := isKept.symm
  have bound := long_lt (400 * feerateSatVb)
  have usable : long (spendableSat - kept) = spendableSat - kept :=
    long_of_fits (by omega) (by omega)
  have asked : kept ≤ spendableSat → (spendableSat - kept) % 2 ^ 64 = spendableSat - kept :=
    fun _ => Int.emod_eq_of_lt (by omega) (by omega)
  have opening : userChannelMinSat ≤ spendableSat - kept ↔ 5000 + kept ≤ spendableSat := by
    unfold userChannelMinSat
    omega
  have splicing : dustSat ≤ spendableSat - kept ↔ 546 + kept ≤ spendableSat := by
    unfold dustSat
    omega
  simp only [fundFromTransit, active, transitAction, margin, usable, opening, splicing,
    Option.bind_eq_bind, Option.bind_some]
  constructor
  · by_cases enough : 5000 + kept ≤ spendableSat
    · simp only [if_pos enough, asked (by omega)]
    · simp only [if_neg enough]
  · by_cases enough : 546 + kept ≤ spendableSat
    · simp only [if_pos enough, asked (by omega)]
    · simp only [if_neg enough]

end Deposit

/-- A quoted deposit becomes a channel exactly when it covers the smallest channel and the session's
margin and stays within the largest, and is spliced exactly when it covers the margin and the dust
limit; either only while the transfer is young. -/
theorem quoted_deposit_funds {amountSat depositFeeSat feerateSatVb floorSat : Int}
    {quote : ToLightningQuote}
    (quoted : quoteToLightning amountSat depositFeeSat feerateSatVb floorSat = some quote)
    (deposited : 0 ≤ quote.toTransitSat) (channelMaxSat : Nat) (atMs nowMs : Int) :
    (Opens feerateSatVb quote.toTransitSat atMs nowMs channelMaxSat ↔
      long (nowMs - atMs) ≤ pendingTransferMaxAgeMs ∧
        5000 + max 500 (long (400 * feerateSatVb)) ≤ quote.toTransitSat ∧
        quote.toTransitSat ≤ channelMaxSat + max 500 (long (400 * feerateSatVb))) ∧
      (Splices feerateSatVb quote.toTransitSat atMs nowMs ↔
        long (nowMs - atMs) ≤ pendingTransferMaxAgeMs ∧
          546 + max 500 (long (400 * feerateSatVb)) ≤ quote.toTransitSat) := by
  have bound : quote.toTransitSat < 2 ^ 63 := by
    unfold quoteToLightning at quoted
    obtain ⟨-, same⟩ := Option.ite_none_right_eq_some.mp quoted
    cases same
    exact long_lt _
  unfold Opens Splices
  by_cases young : long (nowMs - atMs) ≤ pendingTransferMaxAgeMs
  · obtain ⟨opening, splicing⟩ :=
      fundFromTransit_young deposited bound young (Eq.refl (max 500 (long (400 * feerateSatVb))))
    have least : 500 ≤ max 500 (long (400 * feerateSatVb)) := le_max_left _ _
    rw [opening, splicing]
    generalize max 500 (long (400 * feerateSatVb)) = kept at least ⊢
    constructor
    · constructor
      · rintro ⟨amount, isAmount, asks, taken⟩
        obtain ⟨enough, -⟩ := Option.ite_none_right_eq_some.mp asks
        refine ⟨young, enough, ?_⟩
        by_contra above
        rw [openChannel, if_pos (by omega)] at taken
        cases taken
      · rintro ⟨-, enough, capped⟩
        have low : ¬ ((quote.toTransitSat - kept).toNat < userChannelMinSat.toNat ∨
            channelMaxSat < (quote.toTransitSat - kept).toNat) := by
          have smallest : userChannelMinSat.toNat = 5000 := rfl
          omega
        have held : ¬ quote.toTransitSat.toNat < (quote.toTransitSat - kept).toNat := by omega
        refine ⟨_, by omega, if_pos enough, ?_⟩
        rw [openChannel, if_neg low, if_neg held]
        rfl
    · constructor
      · rintro ⟨amount, isAmount, asks⟩
        exact ⟨young, (Option.ite_none_right_eq_some.mp asks).1⟩
      · rintro ⟨-, enough⟩
        exact ⟨_, by omega, if_pos enough⟩
  · rw [fundFromTransit_old young, fundFromTransit_old young]
    simp [young]

/-- At one satoshi a virtual byte 5,700 satoshis open a channel; 5,200 wait for one to be ready. -/
theorem quoted_deposit_funds_small :
    Opens 1 5700 0 600000 1000000 ∧ ¬ Opens 1 5200 0 600000 1000000 ∧ Splices 1 5200 0 600000 := by
  have large := quoted_deposit_funds
    (show quoteToLightning 6500 200 1 0 = some ⟨6500, 200, 200, 600, 5700⟩ by decide)
    (by decide) 1000000 0 600000
  have small := quoted_deposit_funds
    (show quoteToLightning 6000 200 1 0 = some ⟨6000, 200, 200, 600, 5200⟩ by decide)
    (by decide) 1000000 0 600000
  exact ⟨large.1.mpr (by decide), fun opens => absurd (small.1.mp opens) (by decide),
    small.2.mpr (by decide)⟩

end Fortis.Lightning.Transfer
