import Fortis.Edge.Store

/-!
# The matcher

Pairs crossing opposite offers by limit price with partial fills, builds the
swap terms, and enforces the accept and funding deadlines.  Every operation
here runs with the matching lock held, so each is one program over the store.
-/

namespace Fortis.Edge

open Fortis.Core Lib Nat

/-- What the edge builds terms with. -/
structure Matching where
  maxBtcSat : Nat
  (network feeAddress : String)

def xbtForBtc (btcSat priceSatPerXbt : Nat) : Nat :=
  min (btcSat * 100000000 / priceSatPerXbt) u64Max

def btcLegValue (direction : Direction) (amountSat price : Nat) : Nat :=
  match direction with
  | .xbtToBtc => btcForXbt amountSat price
  | .btcToXbt => amountSat

def matchable (offer : Offer) (now : Nat) : Bool :=
  offer.status = .opened ∧ now < offer.expiresAt

def crosses (sellerPrice buyerPrice : Nat) : Bool := sellerPrice ≤ buyerPrice

def offersCross (first second : Offer) : Bool :=
  match first.direction with
  | .xbtToBtc => crosses first.priceSatPerXbt second.priceSatPerXbt
  | .btcToXbt => crosses second.priceSatPerXbt first.priceSatPerXbt

/-! ## Filling -/

variable (offer : Offer) (consumed : Nat) (limiting : Bool) (matchId : String)

/-- An offer after a fill took `consumed` of it: a remainder worth the minimum stays open. -/
def settled : Offer :=
  let left := offer.amountSat - consumed
  if minBtcLegSat ≤ btcLegValue offer.direction left offer.priceSatPerXbt then
    { offer with amountSat := left, status := .opened, matchId := none }
  else
    { offer with
      amountSat := left
      status := if limiting then .matched else .filled
      matchId := some matchId }

/-- The fill of one offer; taking more than it has is an arithmetic fault. -/
def settle : StoreM Offer :=
  if offer.amountSat < consumed then throw .fault
  else pure (settled offer consumed limiting matchId)

variable (offer : Offer) (consumed : Nat) (limiting : Bool) (matchId : String) (config : Matching)
  (init part : Offer) (price : Nat)

@[simp]
theorem settled_id : (settled offer consumed limiting matchId).id = offer.id := by
  simp only [settled]
  split <;> rfl

@[simp]
theorem settled_direction :
    (settled offer consumed limiting matchId).direction = offer.direction := by
  simp only [settled]
  split <;> rfl

theorem settled_recoveryTag :
    (settled offer consumed limiting matchId).recoveryTag = offer.recoveryTag := by
  simp only [settled]
  split <;> rfl

@[simp]
theorem settled_amountSat :
    (settled offer consumed limiting matchId).amountSat = offer.amountSat - consumed := by
  simp only [settled]
  split <;> rfl

theorem settled_matchId {offer : Offer} {consumed : Nat} {limiting : Bool} {matchId mid : String}
    (held : (settled offer consumed limiting matchId).matchId = some mid) : mid = matchId := by
  simp only [settled] at held
  split at held
  · cases held
  · exact (Option.some.inj held).symm

def buildTerms (config : Matching) (timelocks : SwapTimelocks) (id : String)
    (xbtSat btcSat price matchedAt : Nat) : SwapTerms where
  matchId := id
  network := config.network
  xbtSat := xbtSat
  btcSat := btcSat
  priceSatPerXbt := price
  feeBps := swapFeeBps
  feeAddress := config.feeAddress
  matchedAt := matchedAt
  xbtLocktime := addU32 matchedAt timelocks.xbtLegSecs
  btcLocktime := addU32 matchedAt timelocks.btcLegSecs
  xbtConfs := xbtConfs
  btcConfs := btcConfs
  acceptBy := addU32 matchedAt acceptSecs
  initiatorFundBy := addU32 (addU32 matchedAt acceptSecs) initiatorFundSecs
  contractVersion := currentContract

def buildMatch (id : String) (terms : SwapTerms) (init part : Offer) : Match where
  id := id
  terms := terms
  initiatorOffer := init.id
  participantOffer := part.id
  initiatorToken := init.token
  participantToken := part.token
  initiatorSecretHash := init.secretHash
  participantSecretHash := part.secretHash
  accepted := (false, false)
  status := .proposed
  xbtFunding := none
  btcFunding := none
  participantFundBy := none
  preMatchAmounts := (init.amountSat, part.amountSat)
  closedAt := none
  keys := (none, none)
  hashlock := none
  missedParticipantDeadline := false
  releaseTxs := none
  releaseSigs := none

/-- The XBT amount of a fill: the seller's amount, what the buyer's buys and
what the edge's cap buys, whichever is least. -/
def fillXbt (config : Matching) (init part : Offer) (price : Nat) : Nat :=
  min (min init.amountSat (xbtForBtc part.amountSat price)) (xbtForBtc config.maxBtcSat price)

theorem fillXbt_le_amount : fillXbt config init part price ≤ init.amountSat :=
  le_trans (min_le_left _ _) (min_le_left _ _)

/-- Both conversions round down: what an amount buys never costs more than the amount. -/
theorem btcForXbt_le_of_le {xbtSat btcSat price : Nat}
    (bought : xbtSat ≤ btcSat * 100000000 / price) : btcForXbt xbtSat price ≤ btcSat := by
  calc btcForXbt xbtSat price
      ≤ xbtSat * price / 100000000 := min_le_left _ _
    _ ≤ btcSat * 100000000 / price * price / 100000000 :=
        Nat.div_le_div_right (Nat.mul_le_mul_right price bought)
    _ ≤ btcSat * 100000000 / 100000000 := Nat.div_le_div_right (Nat.div_mul_le_self _ _)
    _ = btcSat := Nat.mul_div_cancel _ (by decide)

theorem btcForXbt_fillXbt_le_amount :
    btcForXbt (fillXbt config init part price) price ≤ part.amountSat :=
  btcForXbt_le_of_le (le_trans (min_le_left _ _) (le_trans (min_le_right _ _) (min_le_left _ _)))

theorem btcForXbt_fillXbt_le_cap :
    btcForXbt (fillXbt config init part price) price ≤ config.maxBtcSat :=
  btcForXbt_le_of_le (le_trans (min_le_right _ _) (min_le_left _ _))

def pairSides (first second : Offer) : Offer × Offer :=
  match first.direction with
  | .xbtToBtc => (first, second)
  | .btcToXbt => (second, first)

def storeFill (config : Matching) (timelocks : SwapTimelocks) (init part : Offer)
    (price now : Nat) : StoreM Match := do
  let xbtSat := fillXbt config init part price
  let btcSat := btcForXbt xbtSat price
  let id ← newId
  let terms := buildTerms config timelocks id xbtSat btcSat price now
  let m := buildMatch id terms init part
  let initLeft ← settle init xbtSat (xbtSat = init.amountSat) id
  let partLeft ← settle part btcSat (xbtSat = xbtForBtc part.amountSat price) id
  putMatch m
  putOffer initLeft
  putOffer partLeft
  return m

/-- Build and store a match of two opposite offers, or nothing if the fill
would be below the minimum. -/
def pair (config : Matching) (first second : Offer) (price now : Nat) : StoreM (Option Match) := do
  if price = 0 then throw (.bail "zero price")
  else
    let init := (pairSides first second).1
    let part := (pairSides first second).2
    if init.direction ≠ .xbtToBtc ∨ part.direction ≠ .btcToXbt then
      throw (.bail "offers are not opposite")
    else if btcForXbt (fillXbt config init part price) price < minBtcLegSat then return none
    else
      match networkParams config.network with
      | .error _ => throw (.bail ("unknown network " ++ config.network))
      | .ok (btcParams, xbtParams) =>
        if u32Size ≤ now then throw (.bail "out of range integral type conversion attempted")
        else some <$> storeFill config (swapTimelocks btcParams xbtParams) init part price now

def betterOrSame (direction : Direction) (first second : Offer) : Prop :=
  match direction with
  | .xbtToBtc => second.priceSatPerXbt < first.priceSatPerXbt ∨
      (second.priceSatPerXbt = first.priceSatPerXbt ∧ first.createdAt ≤ second.createdAt)
  | .btcToXbt => first.priceSatPerXbt < second.priceSatPerXbt ∨
      (first.priceSatPerXbt = second.priceSatPerXbt ∧ first.createdAt ≤ second.createdAt)

instance (direction : Direction) : DecidableRel (betterOrSame direction) := fun first second => by
  unfold betterOrSame
  cases direction <;> infer_instance

def candidates (store : Store) (incoming : Offer) (barred : List String) (now : Nat) : List Offer :=
  ((store.openOffers incoming.direction.opposite).filter fun other =>
    !other.isPrivate && matchable other now && other.token ≠ incoming.token &&
      other.id ∉ barred && offersCross incoming other).insertionSort
        (betterOrSame incoming.direction)

/-- Try the candidates in turn; the older offer's price holds. -/
def tryCandidates (config : Matching) (incoming : Offer) (now : Nat) :
    List Offer → StoreM (Option Match)
  | [] => return none
  | cand :: rest => do
    let price := if incoming.createdAt < cand.createdAt then incoming.priceSatPerXbt
      else cand.priceSatPerXbt
    match ← pair config incoming cand price now with
    | some m => return some m
    | none => tryCandidates config incoming now rest

def matchLocked (config : Matching) (incoming : Offer) (barred : List String) (now : Nat) :
    StoreM (Option Match) := do
  let store ← get
  let current := (store.offer incoming.id).getD incoming
  if matchable current now then
    tryCandidates config current now (candidates store current barred now)
  else return none

def matchOffer (config : Matching) (incoming : Offer) (now : Nat) : StoreM (Option Match) :=
  matchLocked config incoming [] now

/-- Run `prog`, logging its error: a fault is not an error value and passes. -/
def logged {α : Type} (prog : StoreM α) : StoreM Unit :=
  tryCatch (do let _ ← prog) fun
    | .fault => throw .fault
    | _ => pure ()

def bestOf (direction : Direction) (now : Nat) (book : List Offer) : Option Offer :=
  (book.filter fun other => other.direction = direction ∧ matchable other now).foldl
    (fun best other =>
      match best, direction with
      | some held, .btcToXbt =>
        if other.priceSatPerXbt ≤ held.priceSatPerXbt then some held else some other
      | some held, .xbtToBtc =>
        if held.priceSatPerXbt ≤ other.priceSatPerXbt then some held else some other
      | none, _ => some other) none

def barredFor (cancelled : List (String × String)) (id : String) : List String :=
  cancelled.filterMap fun (init, part) =>
    if init = id then some part else if part = id then some init else none

variable (config : Matching)

/-- One pass over offers left open together that cross. -/
def rematch (now : Nat) : StoreM Unit := do
  let store ← get
  let cancelled := (store.allMatches.filter fun m => m.status = .cancelled).map
    fun m => (m.initiatorOffer, m.participantOffer)
  let book := (store.allOffers.filter fun offer =>
    offer.status = .opened ∧ !offer.isPrivate).insertionSort Store.olderOrSame
  let bestBid := bestOf .btcToXbt now book
  let bestAsk := bestOf .xbtToBtc now book
  let crossing := book.filter fun offer =>
    let best := match offer.direction with
      | .xbtToBtc => bestBid
      | .btcToXbt => bestAsk
    best.any fun other => offersCross offer other
  forEach (fun offer =>
    logged (matchLocked config offer (barredFor cancelled offer.id) now)) crossing

def takeMaker (maker taker : Offer) (now : Nat) : StoreM Match := do
  match ← pair config taker maker maker.priceSatPerXbt now with
  | some m => return m
  | none => throw (.bail "below minimum swap size")

def takePrivate (code : String) (taker : Offer) (now : Nat) : StoreM Match := do
  match (← get).offerByCode code with
  | none => throw (.bail "unknown share code")
  | some maker =>
    if !matchable maker now then throw (.bail "offer is no longer available")
    if maker.direction = taker.direction then throw (.bail "offer is in the same direction")
    if maker.token = taker.token then throw (.bail "cannot take your own offer")
    takeMaker config maker taker now

def takePublic (offerId : String) (taker : Offer) (now : Nat) : StoreM Match := do
  match (← get).offer offerId with
  | none => throw (.bail "no such offer")
  | some maker =>
    if maker.isPrivate then
      throw (.bail "that offer is private: take it with its share code")
    if !matchable maker now then throw (.bail "offer is no longer available")
    if maker.direction = taker.direction then throw (.bail "offer is in the same direction")
    if maker.token = taker.token then throw (.bail "cannot take your own offer")
    if maker.priceSatPerXbt ≠ taker.priceSatPerXbt then throw (.bail "price changed")
    takeMaker config maker taker now

inductive Release
  | reopen
  | cancel
  deriving DecidableEq

/-- What undoing a match's hold makes of one of its offers; `none` leaves it alone. -/
def releasedOffer (m : Match) (offer : Offer) (pre consumed : Nat) (how : Release) : Option Offer :=
  if offer.matchId = some m.id then
    match how with
    | .reopen => some { offer with matchId := none, amountSat := pre, status := .opened }
    | .cancel => some { offer with matchId := none, status := .cancelled }
  else if offer.status = .opened then
    match how with
    | .reopen => some { offer with amountSat := addU64 offer.amountSat consumed }
    | .cancel => some { offer with status := .cancelled }
  else none

def release (m : Match) (offerId : String) (pre consumed : Nat) (how : Release) : StoreM Unit := do
  match (← get).offer offerId with
  | none => return
  | some offer =>
    match releasedOffer m offer pre consumed how with
    | some changed => putOffer changed
    | none => return

def cancel (m : Match) (now : Nat) (initiator participant : Release) : StoreM Unit := do
  let m := { m with status := .cancelled, closedAt := some now }
  putMatch m
  release m m.initiatorOffer m.preMatchAmounts.1 m.terms.xbtSat initiator
  release m m.participantOffer m.preMatchAmounts.2 m.terms.btcSat participant

def tickMatch (m : Match) (now : Nat) : StoreM Unit :=
  match m.status with
  | .proposed =>
    if m.terms.acceptBy < now then cancel m now .reopen .reopen else pure ()
  | .accepted =>
    if m.xbtFunding = none ∧ m.terms.initiatorFundBy < now then do
      addStrike m.initiatorToken now
      cancel m now .cancel .reopen
    else pure ()
  | .initiatorFunded =>
    if m.btcFunding = none ∧ m.participantFundBy.any (· < now) then do
      addStrike m.participantToken now
      cancel { m with missedParticipantDeadline := true } now .cancel .cancel
    else pure ()
  | _ => pure ()

def expireOffer (now : Nat) (offer : Offer) : StoreM Unit :=
  if offer.status = .opened ∧ offer.expiresAt ≤ now then
    logged (putOffer { offer with status := .expired })
  else pure ()

def tick (now : Nat) : StoreM Unit := do
  forEach (fun m => logged (tickMatch m now)) (← get).allMatches
  forEach (expireOffer now) (← get).allOffers

def onDecline (matchId : String) (side : SwapRole) (now : Nat) : StoreM Unit := do
  match (← get).getMatch matchId with
  | none => throw (.bail "unknown match")
  | some m =>
    if m.status ≠ .proposed ∨ m.xbtFunding.isSome then
      throw (.bail "match can no longer be declined")
    match side with
    | .initiator => cancel m now .cancel .reopen
    | .participant => cancel m now .reopen .cancel

end Fortis.Edge
