import Fortis.Core.Validate
import Fortis.Edge.OfferLaws

/-!
# What the offer routes check, and the books they can reach

A post is checked before its section, and a take builds the taker's own offer from the maker's offer
as it read it before the lock.  Every offer of a book that the operations and the purge reach has a
price in range.
-/

namespace Fortis.Edge

open Fortis.Core Lib

def defaultExpiresSecs : Nat := 24 * 3600
def maxExpiresSecs : Nat := 7 * 24 * 3600
def maxStrikes : Nat := 3
def maxOpenOffers : Nat := 10

def struckOutText : String := "too many missed funding deadlines — try again in 24 hours"

variable (store : Store) (token : String) (now : Nat)

def struckOut : Bool :=
  maxStrikes ≤ store.strikes token now

def openOffersOf : Nat :=
  (store.allOffers.filter fun offer =>
    offer.token = token ∧ offer.status = .opened ∧ now < offer.expiresAt).length

/-- What `create_offer` checks of a post before it takes the lock. -/
def checkOffer (config : Matching) (store : Store) (now : Nat) (post : NewOffer) :
    Except Reply Unit := do
  refuseIf (struckOut store post.token now) (.err 429 struckOutText)
  refuseIf (maxOpenOffers ≤ openOffersOf store post.token now)
    (.err 429 "you have 10 open offers waiting: cancel one or wait for a match")
  refuseIf (post.priceSatPerXbt = 0 ∨ maxPriceSatPerXbt < post.priceSatPerXbt)
    (.err 400 "price_sat_per_xbt must be 1..=2100000000000000")
  refuseIf (post.expiresIn = 0 ∨ maxExpiresSecs < post.expiresIn)
    (.err 400 "expires_in out of range")
  let btcLeg := btcLegValue post.direction post.amountSat post.priceSatPerXbt
  refuseIf (btcLeg < minBtcLegSat) (.err 400 "amount must be worth at least 2000 BTC sat")
  refuseIf (config.maxBtcSat < btcLeg)
    (.err 400 ("amount must be worth at most " ++ toString config.maxBtcSat ++ " BTC sat"))

/-- Who takes: the token, the secret and the recovery tag of the taker's own offer. -/
structure Taker where
  token : String
  secretHash : Fixed 32
  (clientId recoveryTag : Option String)

/-- The taker's one-shot offer of `amountSat` against `maker`, at the maker's
price as it was read.  It has no id yet. -/
def takerOffer (maker : Offer) (taker : Taker) (amountSat price now : Nat) : Offer where
  id := ""
  token := taker.token
  secretHash := taker.secretHash
  direction := maker.direction.opposite
  amountSat := amountSat
  priceSatPerXbt := price
  createdAt := now
  expiresAt := addU64 now defaultExpiresSecs
  isPrivate := true
  shareCode := none
  status := .opened
  matchId := none
  clientId := taker.clientId
  recoveryTag := taker.recoveryTag

def availableTo (maker : Offer) : Nat :=
  match maker.direction.opposite with
  | .xbtToBtc => xbtForBtc maker.amountSat maker.priceSatPerXbt
  | .btcToXbt => btcForXbt maker.amountSat maker.priceSatPerXbt

def codeTaker (maker : Offer) (taker : Taker) (now : Nat) : Offer :=
  takerOffer maker taker (availableTo maker) maker.priceSatPerXbt now

def checkTake (config : Matching) (store : Store) (maker : Offer) (taker : Taker)
    (amountSat price now : Nat) : Except Reply Unit := do
  refuseIf (struckOut store taker.token now) (.err 429 struckOutText)
  refuseIf maker.isPrivate (.err 409 "that offer is private: take it with its share code")
  refuseIf (maker.status ≠ .opened ∨ maker.expiresAt ≤ now)
    (.err 409 "offer is no longer available")
  refuseIf (maker.token = taker.token) (.err 409 "cannot take your own offer")
  refuseIf (maker.priceSatPerXbt ≠ price) (.err 409 "price changed")
  let btcLeg := btcLegValue maker.direction.opposite amountSat price
  refuseIf (btcLeg < minBtcLegSat) (.err 400 "below the minimum swap (2000 sat BTC)")
  refuseIf (availableTo maker < amountSat) (.err 400 "more than the offer holds")
  refuseIf (config.maxBtcSat < btcLeg) (.err 400 "above the maximum swap size")

def InRange (price : Nat) : Prop := 0 < price ∧ price ≤ maxPriceSatPerXbt

variable {store : Store} {config : Matching}

theorem inRange_of_checkOffer {now : Nat} {post : NewOffer}
    (passed : checkOffer config store now post = .ok ()) : InRange post.priceSatPerXbt := by
  unfold checkOffer at passed
  obtain ⟨_, _, passed⟩ := ok_of_bind passed
  obtain ⟨_, _, passed⟩ := ok_of_bind passed
  obtain ⟨_, priced, _⟩ := ok_of_bind passed
  have inside := not_of_refuseIf priced
  unfold InRange
  omega

theorem price_of_checkTake {maker : Offer} {taker : Taker} {amountSat price now : Nat}
    (passed : checkTake config store maker taker amountSat price now = .ok ()) :
    maker.priceSatPerXbt = price := by
  unfold checkTake at passed
  obtain ⟨_, _, passed⟩ := ok_of_bind passed
  obtain ⟨_, _, passed⟩ := ok_of_bind passed
  obtain ⟨_, _, passed⟩ := ok_of_bind passed
  obtain ⟨_, _, passed⟩ := ok_of_bind passed
  obtain ⟨_, same, _⟩ := ok_of_bind passed
  exact not_not.mp (not_of_refuseIf same)

def Priced (store : Store) : Prop :=
  ∀ ⦃id offer⦄, store.offer id = some offer → InRange offer.priceSatPerXbt

theorem Priced.of_offers {before after : Store} (priced : Priced before)
    (same : after.cfOffers = before.cfOffers) : Priced after := by
  intro id offer found
  rw [Store.offer, same] at found
  exact priced found

theorem Priced.saveOffer (priced : Priced store) {offer : Offer}
    (inRange : InRange offer.priceSatPerXbt) : Priced (store.saveOffer offer) := by
  intro id found stored
  rcases Table.get?_put_cases stored with ⟨_, rfl⟩ | ⟨_, old⟩
  · exact inRange
  · exact priced old

/-- No operation changes a price, so prices stay in range if those brought are. -/
theorem pricedLaw : OfferLaw Priced fun offer => InRange offer.priceSatPerXbt where
  elsewhere same priced := priced.of_offers same.offers
  saves priced inRange _ := priced.saveOffer inRange
  stored priced found := priced found
  same {offer changed} same inRange := by
    have prices : changed.posted.priceSatPerXbt = offer.posted.priceSatPerXbt :=
      congrArg Offer.priceSatPerXbt same
    exact prices ▸ inRange

end Fortis.Edge
