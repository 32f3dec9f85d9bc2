import Fortis.Edge.FillFailure
import Fortis.Edge.OfferRoutes

/-!
# Every match is one both phones accept

A match is made by one write, between two offers on the book or entering it.  `Acceptable` is what
the wallet asks of such a match, for both sides.  Every operation that makes matches is a chain of
changes each of which leaves the stored matches alone or makes one acceptable match.
-/

namespace Fortis.Edge

open Fortis.Core Lib List Relation Store Nat

/-- The phone's clock may be behind the edge's by the tolerated skew, and the
terms are still to be accepted. -/
def Acceptance (terms : SwapTerms) (clock : Nat) : Prop :=
  terms.matchedAt ≤ clock + maxClockSkewSecs ∧ clock ≤ terms.acceptBy

/-- A match of `seller` and `buyer`, as they are on the book, that both accept. -/
structure Acceptable (config : Matching) (seller buyer : Offer) (m : Match) : Prop where
  parties : m.initiatorOffer = seller.id ∧ m.participantOffer = buyer.id
  directions : seller.direction = .xbtToBtc ∧ buyer.direction = .btcToXbt
  sellerLimit : seller.priceSatPerXbt ≤ m.terms.priceSatPerXbt
  buyerLimit : m.terms.priceSatPerXbt ≤ buyer.priceSatPerXbt
  ownPrice : m.terms.priceSatPerXbt = seller.priceSatPerXbt ∨
    m.terms.priceSatPerXbt = buyer.priceSatPerXbt
  xbtLeft : m.terms.xbtSat ≤ seller.amountSat
  btcLeft : m.terms.btcSat ≤ buyer.amountSat
  capped : m.terms.btcSat ≤ config.maxBtcSat
  least : minBtcLegSat ≤ m.terms.btcSat
  initiatorAccepts : m.terms.matchedAt + 48 * 3600 < u32Size → ∀ clock, Acceptance m.terms clock →
      validateTerms m.terms seller.priceSatPerXbt .initiator clock = .ok ()
  participantAccepts : m.terms.matchedAt + 48 * 3600 < u32Size → ∀ clock, Acceptance m.terms clock →
      validateTerms m.terms buyer.priceSatPerXbt .participant clock = .ok ()

variable {btc xbt : ChainParams}

theorem legs_le {network : String} (known : networkParams network = .ok (btc, xbt)) :
    (swapTimelocks btc xbt).xbtLegSecs ≤ 48 * 3600 ∧
      (swapTimelocks btc xbt).btcLegSecs ≤ 48 * 3600 := by
  unfold networkParams at known
  split at known
  · cases known
    decide
  split at known
  · cases known
    decide
  · cases known

variable {now price : Nat}

theorem wellFormed_buildTerms {config : Matching} {id : String}
    {xbtSat : Nat} (known : networkParams config.network = .ok (btc, xbt))
    (inRange : InRange price) (least : minBtcLegSat ≤ btcForXbt xbtSat price)
    (fits : now + 48 * 3600 < u32Size) :
    WellFormed (buildTerms config (swapTimelocks btc xbt) id xbtSat (btcForXbt xbtSat price)
      price now) btc xbt := by
  obtain ⟨xbtLeg, btcLeg⟩ := legs_le known
  have exact' : ∀ secs, secs ≤ 48 * 3600 → addU32 now secs = now + secs := by
    intro secs small
    exact mod_eq_of_lt (by omega)
  have acceptBy : addU32 now acceptSecs = now + acceptSecs := exact' acceptSecs (by decide)
  have fundBy : addU32 (now + acceptSecs) initiatorFundSecs =
      now + acceptSecs + initiatorFundSecs := by
    refine mod_eq_of_lt ?_
    have : acceptSecs + initiatorFundSecs ≤ 48 * 3600 := by decide
    omega
  exact {
    network := known
    version := .inr rfl
    price := inRange
    amounts := rfl
    least := least
    fee := rfl
    confs := ⟨rfl, rfl⟩
    xbtLocktime := exact' _ xbtLeg
    btcLocktime := exact' _ btcLeg
    acceptBy := acceptBy
    initiatorFundBy := by
      change addU32 (addU32 now acceptSecs) initiatorFundSecs =
        addU32 now acceptSecs + initiatorFundSecs
      rw [acceptBy, fundBy] }

/-! ## Changes of the book -/

def Held (entering : Offer → Prop) (store : Store) (offer : Offer) : Prop :=
  Stored store offer ∨ entering offer

/-- What a match leaves of the seller's offer. -/
def sellerLeft (seller : Offer) (m : Match) : Offer :=
  settled seller m.terms.xbtSat (m.terms.xbtSat = seller.amountSat) m.id

/-- What a match leaves of the buyer's offer. -/
def buyerLeft (buyer : Offer) (m : Match) : Offer :=
  settled buyer m.terms.btcSat
    (m.terms.xbtSat = xbtForBtc buyer.amountSat m.terms.priceSatPerXbt) m.id

/-- A match of two offers of the book, or of one and the entering one, is stored. -/
structure Makes (config : Matching) (entering : Offer → Prop) (seller buyer : Offer) (m : Match)
    (before after : Store) : Prop where
  sells : Held entering before seller
  buys : Held entering before buyer
  acceptable : Acceptable config seller buyer m
  made : after.cfMatches = before.cfMatches.put m

/-- One change an operation makes: of nothing on the book, or the making of an acceptable match,
which takes both amounts off its offers. -/
inductive Change (config : Matching) (entering : Offer → Prop) (before after : Store) : Prop
  | quiet (same : SameBook before after)
  | fill (seller buyer : Offer) (m : Match)
      (makes : Makes config entering seller buyer m before after) (left : after.cfOffers =
        (before.cfOffers.put (sellerLeft seller m)).put (buyerLeft buyer m))
  /-- The tag of the entering offer is another's: its write is refused, after the match's. -/
  | refused (seller buyer : Offer) (m : Match)
      (makes : Makes config entering seller buyer m before after)
      (claimed : entering seller ∧ ¬ before.TagOk seller ∧ after.cfOffers = before.cfOffers ∨
        entering buyer ∧ ¬ before.TagOk buyer ∧
          after.cfOffers = before.cfOffers.put (sellerLeft seller m))

/-- What every book of a run is: its prices are in range and its offers hold their tags. -/
structure Proper (store : Store) : Prop where
  priced : Priced store
  tagged : Tagged store

/-- From a proper book: it stays proper, no offer goes, and what is done is a chain of changes. -/
def Fills (config : Matching) (entering : Offer → Prop) (before after : Store) : Prop :=
  Proper before → Proper after ∧ Grows before after ∧
    ReflTransGen (Change config entering) before after

variable {buyer first incoming later maker offer second seller taker : Offer}
  {after before store : Store} {α : Type}

section Fills

variable {config : Matching} {entering : Offer → Prop}

theorem Fills.refl (store : Store) : Fills config entering store store :=
  fun proper => ⟨proper, Grows.refl store, .refl⟩

theorem Fills.trans ⦃first second third : Store⦄ (early : Fills config entering first second)
    (late : Fills config entering second third) : Fills config entering first third := by
  intro proper
  obtain ⟨properSecond, grownSecond, chain⟩ := early proper
  obtain ⟨properThird, grownThird, rest⟩ := late properSecond
  exact ⟨properThird, grownSecond.trans grownThird, chain.trans rest⟩

theorem Proper.of_offers (proper : Proper before) (offers : after.cfOffers = before.cfOffers)
    (tags : after.cfTags = before.cfTags) : Proper after := by
  refine ⟨proper.priced.of_offers offers, fun id offer found tag own => ?_⟩
  rw [Store.offer, offers] at found
  rw [tags]
  exact proper.tagged found tag own

theorem settled_price (offer : Offer) (consumed : Nat) (limiting : Bool) (matchId : String) :
    (settled offer consumed limiting matchId).priceSatPerXbt = offer.priceSatPerXbt := by
  simp only [settled]
  split <;> rfl

/-- Writing back what a fill leaves of an offer. -/
theorem Proper.saveSettled (proper : Proper store) (inRange : InRange offer.priceSatPerXbt)
    {consumed : Nat} {limiting : Bool} {matchId : String}
    (free : store.TagOk (settled offer consumed limiting matchId)) :
    Proper (store.saveOffer (settled offer consumed limiting matchId)) := by
  refine ⟨proper.priced.saveOffer ?_, taggedLaw.saves proper.tagged trivial free⟩
  rw [settled_price]
  exact inRange

/-- Two offers that trade at `price`, of which one is on the book. -/
structure Crossing (entering : Offer → Prop) (store : Store) (seller buyer : Offer)
    (price : Nat) : Prop where
  sells : Held entering store seller
  buys : Held entering store buyer
  booked : Stored store seller ∨ Stored store buyer
  sellerRange : InRange seller.priceSatPerXbt
  buyerRange : InRange buyer.priceSatPerXbt
  low : seller.priceSatPerXbt ≤ price
  high : price ≤ buyer.priceSatPerXbt
  own : price = seller.priceSatPerXbt ∨ price = buyer.priceSatPerXbt

section

variable (crossing : Crossing entering store seller buyer price)
include crossing

theorem Crossing.inRange : InRange price := by
  rcases crossing.own with own | own
  · exact own ▸ crossing.sellerRange
  · exact own ▸ crossing.buyerRange

/-- Only an offer that is not on the book can bring a claimed tag. -/
theorem Crossing.claims_seller
    (tagged : Tagged store) (claimed : ¬ store.TagOk seller) : entering seller := by
  rcases crossing.sells with stored | enters
  · exact absurd (tagged stored).tagOk claimed
  · exact enters

theorem Crossing.claims_buyer
    (tagged : Tagged store) {consumed : Nat} {limiting : Bool} {matchId : String}
    (claimed : ¬ (store.saveOffer (settled seller consumed limiting matchId)).TagOk buyer) :
    entering buyer ∧ ¬ store.TagOk buyer := by
  have unstored : ¬ Stored store buyer := fun stored =>
    claimed (tagOk_saveOffer (tagged stored))
  refine ⟨crossing.buys.resolve_left unstored, fun free => claimed ?_⟩
  have holds := (tagged (crossing.booked.resolve_right unstored)).settled consumed limiting matchId
  exact TagsFree.second (.inr ⟨holds, free⟩)

end

theorem acceptable_buildMatch (id : String) (now : Nat)
    (crossing : Crossing entering store seller buyer price)
    (directions : seller.direction = .xbtToBtc ∧ buyer.direction = .btcToXbt)
    (least : minBtcLegSat ≤ btcForXbt (fillXbt config seller buyer price) price)
    (known : networkParams config.network = .ok (btc, xbt)) :
    Acceptable config seller buyer (buildMatch id (buildTerms config (swapTimelocks btc xbt) id
        (fillXbt config seller buyer price) (btcForXbt (fillXbt config seller buyer price) price)
        price now) seller buyer) where
  parties := ⟨rfl, rfl⟩
  directions := directions
  sellerLimit := crossing.low
  buyerLimit := crossing.high
  ownPrice := crossing.own
  xbtLeft := fillXbt_le_amount config seller buyer price
  btcLeft := btcForXbt_fillXbt_le_amount config seller buyer price
  capped := btcForXbt_fillXbt_le_cap config seller buyer price
  least := least
  initiatorAccepts := fun fits _ accepting =>
    (wellFormed_buildTerms known crossing.inRange least fits).validates
      (ne_of_gt crossing.sellerRange.1) (not_lt.mpr crossing.low) accepting.1 accepting.2
  participantAccepts := fun fits _ accepting =>
    (wellFormed_buildTerms known crossing.inRange least fits).validates
      (ne_of_gt crossing.buyerRange.1) (not_lt.mpr crossing.high) accepting.1 accepting.2

/-- However it ends, `prog` fills from `store`. -/
def FillsFrom {α : Type} (config : Matching) (entering : Offer → Prop) (prog : StoreM α)
    (store : Store) : Prop :=
  wp prog (fun _ => Fills config entering store) (fun _ => Fills config entering store) store

variable {prog : StoreM α}

/-- Filling is asked only of a proper book. -/
theorem FillsFrom.of_proper (fills : Proper store → FillsFrom config entering prog store) :
    FillsFrom config entering prog store := by
  have filled : Fills config entering store (finalState prog store) :=
    fun proper => finalState_iff_wp.mpr (fills proper) proper
  exact finalState_iff_wp.mp filled

theorem fills_draw (store : Store) (ids : List String) :
    Fills config entering store { store with ids := ids } := fun proper =>
  ⟨proper.of_offers rfl rfl, fun _ present => present, .single (.quiet ⟨rfl, rfl⟩)⟩

theorem storeFill_fills (now : Nat) (crossing : Crossing entering store seller buyer price)
    (directions : seller.direction = .xbtToBtc ∧ buyer.direction = .btcToXbt)
    (least : minBtcLegSat ≤ btcForXbt (fillXbt config seller buyer price) price)
    (known : networkParams config.network = .ok (btc, xbt)) : FillsFrom config entering
      (storeFill config (swapTimelocks btc xbt) seller buyer price now) store := by
  refine FillsFrom.of_proper fun proper => ?_
  unfold storeFill FillsFrom
  rw [wp_bind]
  refine wp_newId (fun id rest supply => ?_) (Fills.refl store)
  have drawn : Fills config entering store _ := fills_draw store rest
  rw [wp_bind]
  refine wp_settle ?_ drawn
  rw [wp_bind]
  refine wp_settle ?_ drawn
  rw [wp_bind, wp_putMatch, wp_bind]
  -- From here on the match is stored, whether or not the offers' writes are refused.
  have acceptable := acceptable_buildMatch id now crossing directions least known
  have stored : Proper { store with ids := rest } := proper.of_offers rfl rfl
  refine wp_putOffer (fun freeSeller => ?_) fun refused _ => ?_
  · have sold := stored.saveSettled crossing.sellerRange freeSeller
    rw [wp_bind]
    refine wp_putOffer (fun freeBuyer _ => ?_) fun refused _ => ?_
    · refine ⟨(sold.saveSettled crossing.buyerRange freeBuyer).of_offers rfl rfl,
        (grows_saveOffer store _).trans (grows_saveOffer _ _), .single (.fill seller buyer _
          ⟨crossing.sells, crossing.buys, acceptable, rfl⟩ rfl)⟩
    · have claims := crossing.claims_buyer proper.tagged fun free =>
        refused (tagOk_settled free _ _ _)
      refine ⟨sold.of_offers rfl rfl, grows_saveOffer store _, .single (.refused seller buyer _
        ⟨crossing.sells, crossing.buys, acceptable, rfl⟩ (.inr ⟨claims.1, claims.2, rfl⟩))⟩
  · have claimed : ¬ store.TagOk seller := fun free => refused (tagOk_settled free _ _ _)
    exact ⟨stored.of_offers rfl rfl, fun _ present => present, .single (.refused seller buyer _
      ⟨crossing.sells, crossing.buys, acceptable, rfl⟩
      (.inl ⟨crossing.claims_seller proper.tagged claimed, claimed, rfl⟩))⟩

theorem Crossing.fill {now : Nat}
    (crossing : Crossing entering store (pairSides first second).1 (pairSides first second).2
      price) : wpFill config first second price now (Fills config entering store)
      (fun _ => Fills config entering store) store :=
  fun _ _ known sells buys least => storeFill_fills now crossing ⟨sells, buys⟩ least known

theorem mem_candidates_cross {cand : Offer} {barred : List String}
    (mem : cand ∈ candidates store incoming barred now) : offersCross incoming cand = true := by
  simp only [candidates, mem_insertionSort, mem_filter, Bool.and_eq_true] at mem
  exact mem.2.2

theorem crossing_of_offersCross (heldFirst : Held entering store first)
    (booked : Stored store second) (rangeFirst : InRange first.priceSatPerXbt)
    (rangeSecond : InRange second.priceSatPerXbt) (cross : offersCross first second = true)
    (own : price = first.priceSatPerXbt ∨ price = second.priceSatPerXbt) :
    Crossing entering store (pairSides first second).1 (pairSides first second).2 price := by
  unfold offersCross crosses at cross
  unfold pairSides
  cases direction : first.direction with
  | xbtToBtc =>
    simp only [direction, decide_eq_true_eq] at cross
    refine ⟨heldFirst, .inl booked, .inr booked, rangeFirst, rangeSecond, ?_, ?_, own⟩ <;>
      dsimp only <;> omega
  | btcToXbt =>
    simp only [direction, decide_eq_true_eq] at cross
    refine ⟨.inl booked, heldFirst, .inl booked, rangeSecond, rangeFirst, ?_, ?_, own.symm⟩ <;>
      dsimp only <;> omega

theorem matchLocked_fills (enters : store.offer incoming.id = none →
      entering incoming ∧ InRange incoming.priceSatPerXbt) (barred : List String) (now : Nat) :
    FillsFrom config entering (matchLocked config incoming barred now) store := by
  refine FillsFrom.of_proper fun proper => ?_
  have current : Held entering store ((store.offer incoming.id).getD incoming) ∧
      InRange ((store.offer incoming.id).getD incoming).priceSatPerXbt := by
    cases found : store.offer incoming.id with
    | none => exact ⟨.inr (enters found).1, (enters found).2⟩
    | some stored =>
      refine ⟨.inl ?_, proper.priced found⟩
      rw [Option.getD_some, Stored, id_of_offer found, found]
  refine wp_matchLocked (fun _ => Fills.refl store) (Fills.refl store) ?_
  rintro _ rfl _ cand mem _ own
  have stored := (mem_candidates mem).1
  exact (crossing_of_offersCross current.1 stored current.2 (proper.priced stored)
    (mem_candidates_cross mem) own).fill

theorem FillsFrom.logged (fills : FillsFrom config entering prog store) :
    FillsFrom config entering (Edge.logged prog) store := by
  unfold FillsFrom Edge.logged
  rw [wp_tryCatch]
  refine wp_seq fills (fun _ _ => id) (fun raised _ filled => ?_)
  cases raised <;> exact filled

theorem rematch_fills (store : Store) (now : Nat) :
    FillsFrom config entering (rematch config now) store := by
  refine FillsFrom.of_proper fun proper => ?_
  unfold rematch FillsFrom
  simp only [wp_bind, wp_get]
  refine wp_imp (wp_forEach (fun rest after => Fills config entering store after ∧
    ∀ offer ∈ rest, (after.offer offer.id).isSome) ⟨Fills.refl store, ?_⟩ ?_)
    fun _ after kept => kept.1
  · intro offer mem
    simp only [mem_filter, mem_insertionSort, allOffers] at mem
    have found : store.offer offer.id = some offer := Table.get?_of_mem mem.1.1
    simp [found]
  rintro first rest after ⟨filled, present⟩
  have here := present first mem_cons_self
  refine wp_mono (FillsFrom.logged (matchLocked_fills (fun missing => by
    simp [missing] at here) _ now)) (fun _ final later => ⟨Fills.trans filled later, ?_⟩)
    (fun _ _ later => Fills.trans filled later)
  intro offer mem
  have grown := (later (filled proper).1).2.1
  exact grown offer.id (present offer (mem_cons_of_mem first mem))

theorem takePrivate_fills {code : String} (enters : entering taker)
    (range : InRange taker.priceSatPerXbt) (fair : ∀ maker, store.offerByCode code = some maker →
      offersCross taker maker = true) (now : Nat) :
    FillsFrom config entering (takePrivate config code taker now) store := by
  refine FillsFrom.of_proper fun proper => ?_
  exact wp_takePrivate (fun _ => Fills.refl store) fun maker found stored _ =>
    (crossing_of_offersCross (.inr enters) stored range (proper.priced stored) (fair maker found)
      (.inr rfl)).fill

theorem takePublic_fills {offerId : String} (enters : entering taker)
    (range : InRange taker.priceSatPerXbt) (now : Nat) :
    FillsFrom config entering (takePublic config offerId taker now) store := by
  refine FillsFrom.of_proper fun proper => ?_
  refine wp_takePublic (fun _ => Fills.refl store) fun maker stored _ same => ?_
  have cross : offersCross taker maker = true := by
    unfold offersCross crosses
    cases taker.direction <;> simp [same]
  exact (crossing_of_offersCross (.inr enters) stored range (proper.priced stored) cross
    (.inr rfl)).fill

/-- A taker's offer is given its id; drawing it moves no offer. -/
theorem withNewId_fills {next : Offer → StoreM α}
    (rest : ∀ id ids, FillsFrom config entering (next { offer with id := id })
      { store with ids := ids }) : FillsFrom config entering (withNewId offer next) store := by
  unfold withNewId FillsFrom
  rw [wp_bind]
  refine wp_newId (fun id ids _ => ?_) (Fills.refl store)
  exact wp_mono (rest id ids) (fun _ _ later => Fills.trans (fills_draw store ids) later)
    (fun _ _ later => Fills.trans (fills_draw store ids) later)

theorem FillsFrom.ignore (fills : FillsFrom config entering prog store) :
    FillsFrom config entering (do let _ ← prog) store := by
  unfold FillsFrom
  rw [wp_bind]
  exact fills

end Fills

def LockedOp.makesMatches : LockedOp → Bool
  | .matchOffer .. | .rematch _ | .takePrivate .. | .takePublic .. => true
  | _ => false

def LockedOp.Enters : LockedOp → Offer → Prop
  | .matchOffer incoming _, offer => offer = incoming
  | .takePrivate _ taker _, offer => ∃ id, offer = { taker with id := id }
  | .takePublic _ taker _, offer => ∃ id, offer = { taker with id := id }
  | _, _ => False

/-- An operation as its route calls it: a taker's offer is built from an offer read before the
lock. -/
def LockedOp.Routed (config : Matching) : LockedOp → Prop
  | .create post => ∃ store now, checkOffer config store now post = .ok ()
  | .matchOffer incoming _ => ∃ store now post id code,
      checkOffer config store now post = .ok () ∧ incoming = post.toOffer id code
  | .takePrivate _ taker _ => ∃ maker who now,
      InRange maker.priceSatPerXbt ∧ taker = codeTaker maker who now
  | .takePublic _ taker _ => ∃ store maker who amountSat price now, InRange maker.priceSatPerXbt ∧
        checkTake config store maker who amountSat price now = .ok () ∧
          taker = takerOffer maker who amountSat price now
  | _ => True

def Offer.allows (offer : Offer) (price : Nat) : Prop :=
  match offer.direction with
  | .xbtToBtc => offer.priceSatPerXbt ≤ price
  | .btcToXbt => price ≤ offer.priceSatPerXbt

/-- If the share code a take was given finds an offer, its price is within the taker's limit. -/
def LockedOp.CodeFair (store : Store) : LockedOp → Prop
  | .takePrivate code taker _ => ∀ maker, store.offerByCode code = some maker →
      taker.allows maker.priceSatPerXbt
  | _ => True

/-- A take made no match, or one beyond the taker's limit. -/
def LockedOp.Unfair (before after : Store) : LockedOp → Prop
  | .takePrivate _ taker _ => after.cfMatches = before.cfMatches ∨
      ∃ m, after.cfMatches = before.cfMatches.put m ∧ ¬ taker.allows m.terms.priceSatPerXbt
  | _ => False

theorem offersCross_iff : offersCross first second = true ↔ first.allows second.priceSatPerXbt := by
  unfold offersCross crosses Offer.allows
  cases first.direction <;> simp

variable {op : LockedOp}

theorem LockedOp.Routed.inRange {config : Matching} (routed : op.Routed config)
    (enters : op.Enters offer) : InRange offer.priceSatPerXbt := by
  cases op with
  | matchOffer incoming now =>
    obtain ⟨_, _, post, id, code, passed, rfl⟩ := routed
    cases enters
    exact inRange_of_checkOffer passed
  | takePrivate code taker now =>
    obtain ⟨maker, who, _, inRange, rfl⟩ := routed
    obtain ⟨id, rfl⟩ := enters
    exact inRange
  | takePublic offerId taker now =>
    obtain ⟨_, maker, who, amountSat, price, _, inRange, passed, rfl⟩ := routed
    obtain ⟨id, rfl⟩ := enters
    exact price_of_checkTake passed ▸ inRange
  | _ => cases enters

variable {env : EdgeEnv}

theorem LockedOp.fills (makes : op.makesMatches = true)
    (routed : op.Routed env.config) (fair : op.CodeFair store) :
    FillsFrom env.config op.Enters (op.run env) store := by
  cases op with
  | matchOffer incoming now =>
    refine FillsFrom.ignore (matchLocked_fills (fun _ => ?_) [] now)
    exact ⟨rfl, routed.inRange rfl⟩
  | rematch now => exact rematch_fills store now
  | takePrivate code taker now =>
    refine FillsFrom.ignore (withNewId_fills fun id ids => ?_)
    have enters : (LockedOp.takePrivate code taker now).Enters { taker with id := id } := ⟨id, rfl⟩
    have cross : ∀ maker, ({ store with ids := ids } : Store).offerByCode code = some maker →
        offersCross { taker with id := id } maker = true :=
      fun maker found => offersCross_iff.mpr (fair maker found)
    exact takePrivate_fills enters (routed.inRange enters) cross now
  | takePublic offerId taker now =>
    refine FillsFrom.ignore (withNewId_fills fun id ids => ?_)
    have enters : (LockedOp.takePublic offerId taker now).Enters { taker with id := id } :=
      ⟨id, rfl⟩
    exact takePublic_fills enters (routed.inRange enters) now
  | _ => cases makes

/-! ## A take through a code that was given away -/

/-- No match is made, or one at `price`. -/
def MatchedAt (price : Nat) (before after : Store) : Prop :=
  after.cfMatches = before.cfMatches ∨
    ∃ m, after.cfMatches = before.cfMatches.put m ∧ m.terms.priceSatPerXbt = price

theorem storeFill_matchedAt (config : Matching) (timelocks : SwapTimelocks) (seller buyer : Offer)
    (price now : Nat) : Relates (MatchedAt price)
      (storeFill config timelocks seller buyer price now) := by
  refine relates_iff_wp.mpr fun store => ?_
  unfold storeFill
  rw [wp_bind]
  refine wp_newId (fun id rest supply => ?_) (.inl rfl)
  rw [wp_bind]
  refine wp_settle ?_ (.inl rfl)
  rw [wp_bind]
  refine wp_settle ?_ (.inl rfl)
  rw [wp_bind, wp_putMatch, wp_bind]
  refine wp_putOffer (fun _ => ?_) fun _ => .inr ⟨_, rfl, rfl⟩
  rw [wp_bind]
  exact wp_putOffer (fun _ => .inr ⟨_, rfl, rfl⟩) fun _ => .inr ⟨_, rfl, rfl⟩

/-- Whatever is behind the code now, a match is at its price. -/
theorem LockedOp.unfair (unfair : ¬ op.CodeFair store) :
    op.Unfair store (finalState (op.run env) store) := by
  cases op with
  | takePrivate code taker now =>
    obtain ⟨maker, behind⟩ := not_forall.mp unfair
    obtain ⟨found, beyond⟩ := Classical.not_imp.mp behind
    have taken : ∀ id ids, MatchedAt maker.priceSatPerXbt store (finalState
        (Edge.takePrivate env.config code { taker with id := id } now)
        { store with ids := ids }) := by
      intro id ids
      refine finalState_iff_wp.mpr (wp_takePrivate (fun _ => .inl rfl) fun other again _ _ => ?_)
      cases found.symm.trans again
      exact fun btc xbt _ _ _ _ => finalState_iff_wp.mp (storeFill_matchedAt _ _ _ _ _ _ _)
    have matched : MatchedAt maker.priceSatPerXbt store
        (finalState ((LockedOp.takePrivate code taker now).run env) store) := by
      rw [LockedOp.run, finalState_ignore]
      exact finalState_withNewId (.inl rfl) fun id rest _ => taken id rest
    rcases matched with same | ⟨m, made, atPrice⟩
    · exact .inl same
    · exact .inr ⟨m, made, atPrice ▸ beyond⟩
  | _ => exact absurd trivial unfair

inductive BookTurn (env : EdgeEnv) (store : Store) : Store → Prop
  | locked (op : LockedOp) (routed : op.Routed env.config) :
      BookTurn env store (finalState (op.run env) store)
  | dropOffer (id : String) : BookTurn env store { store with cfOffers := store.cfOffers.delete id }
  | dropMatch (id : String) :
      BookTurn env store { store with cfMatches := store.cfMatches.delete id }

/-- Prices stay in range under every operation as its route calls it. -/
theorem LockedOp.keepsPriced (routed : op.Routed env.config)
    (priced : Priced store) : Priced (finalState (op.run env) store) := by
  refine pricedLaw.run env op ?_ priced
  cases op with
  | create post =>
    obtain ⟨_, _, passed⟩ := routed
    exact fun _ _ _ _ _ => inRange_of_checkOffer passed
  | matchOffer incoming now => exact fun _ => routed.inRange rfl
  | takePrivate code taker now => exact fun id _ _ => routed.inRange ⟨id, rfl⟩
  | takePublic offerId taker now => exact fun id _ _ => routed.inRange ⟨id, rfl⟩
  | _ => trivial

theorem Proper.dropOffer (proper : Proper store) (id : String) :
    Proper { store with cfOffers := store.cfOffers.delete id } := by
  have kept : ∀ {other offer}, ({ store with cfOffers := store.cfOffers.delete id } : Store).offer
      other = some offer → store.offer other = some offer := by
    intro other offer found
    rw [Store.offer, Table.get?_delete] at found
    split at found
    · cases found
    · exact found
  exact ⟨fun _ _ found => proper.priced (kept found), fun _ _ found => proper.tagged (kept found)⟩

theorem proper_of_run {ids : List String}
    (run : ReflTransGen (BookTurn env) (Store.opened ids) store) : Proper store := by
  induction run with
  | refl =>
    refine ⟨fun id offer found => ?_, fun id offer found => ?_⟩
    · cases found
    · cases found
  | tail _ turn ih =>
    cases turn with
    | locked op routed =>
      refine ⟨op.keepsPriced routed ih.priced, taggedLaw.run env op ?_ ih.tagged⟩
      cases op <;> simp [LockedOp.Allowed]
    | dropOffer id => exact ih.dropOffer id
    | dropMatch id => exact ih.of_offers rfl rfl

/-- Every match an operation makes is acceptable, unless the share code of a take has gone to an
offer beyond the taker's limit since the take read it; then a match it makes is not. -/
theorem matches_acceptable {env : EdgeEnv} {ids : List String} {store : Store}
    (run : ReflTransGen (BookTurn env) (Store.opened ids) store) (op : LockedOp)
    (makes : op.makesMatches = true) (routed : op.Routed env.config) :
    (op.CodeFair store →
      ReflTransGen (Change env.config op.Enters) store (finalState (op.run env) store)) ∧
    (¬ op.CodeFair store → op.Unfair store (finalState (op.run env) store)) :=
  ⟨fun fair => (finalState_iff_wp.mpr (op.fills makes routed fair) (proper_of_run run)).2.2,
    op.unfair⟩

def postedBook : Store :=
  finalState ((LockedOp.create sampleBuyer).run sampleEnv)
    (finalState ((LockedOp.create sampleSeller).run sampleEnv) (Store.opened ["s", "b", "m"]))

theorem run_postedBook : ReflTransGen (BookTurn sampleEnv)
    (Store.opened ["s", "b", "m"]) postedBook :=
  .tail (.single (.locked (.create sampleSeller) ⟨opened [], 1000, by decide⟩))
    (.locked (.create sampleBuyer) ⟨opened [], 1000, by decide⟩)

/-- Matching the sample buyer's post makes one acceptable match. -/
theorem matches_acceptable_posted :
    let op := LockedOp.matchOffer (sampleBuyer.toOffer "b" none) 1000
    let after := finalState (op.run sampleEnv) postedBook
    after.allMatches.map (fun m => (m.terms.xbtSat, m.terms.btcSat)) = [(60000000, 600000)] ∧
      ReflTransGen (Change sampleEnv.config op.Enters) postedBook after :=
  ⟨by decide, (matches_acceptable run_postedBook
    (.matchOffer (sampleBuyer.toOffer "b" none) 1000) rfl
    ⟨opened [], 1000, sampleBuyer, "b", none, by decide, rfl⟩).1 trivial⟩

def privatePost (token : String) (price createdAt : Nat) : NewOffer :=
  { samplePost token .xbtToBtc 100000000 with
    priceSatPerXbt := price
    createdAt := createdAt
    isPrivate := true
    codes := ["K7Q2M9XA"] }

/-- A private offer is purged, and another, at twice the price, draws the same code. -/
def firstCode : Store :=
  finalState ((LockedOp.create (privatePost "first" 1000000 1000)).run sampleEnv)
    (Store.opened ["a", "c", "t", "m"])

def codeExpired : Store := finalState ((LockedOp.tick 700000).run sampleEnv) firstCode

def codePurged : Store := { codeExpired with cfOffers := codeExpired.cfOffers.delete "a" }

def codeReused : Store :=
  finalState ((LockedOp.create (privatePost "second" 2000000 700000)).run sampleEnv) codePurged

theorem run_codeReused : ReflTransGen (BookTurn sampleEnv) firstCode codeReused := by
  refine .tail (.tail (.single (.locked (.tick 700000) trivial)) (.dropOffer "a")) ?_
  exact .locked (.create (privatePost "second" 2000000 700000))
    ⟨opened [], 700000, by decide⟩

def lateTaker : Offer :=
  codeTaker ((privatePost "first" 1000000 1000).toOffer "a" (some "K7Q2M9XA"))
    ⟨"taker", sampleBuyer.secretHash, none, none⟩ 690000

/-- A take that read the code before the purge pays twice its limit. -/
theorem take_above_limit : firstCode.offerByCode "K7Q2M9XA" =
        some ((privatePost "first" 1000000 1000).toOffer "a" (some "K7Q2M9XA")) ∧
      codeExpired.allOffers.map (fun offer =>
        (offerDone codeExpired offer, old 700000 offer.expiresAt)) = [(true, true)] ∧
      ReflTransGen (BookTurn sampleEnv) firstCode codeReused ∧
      let op := LockedOp.takePrivate "K7Q2M9XA" lateTaker 700010
      op.Routed sampleEnv.config ∧
        (finalState (op.run sampleEnv) codeReused).allMatches.map (fun m =>
          (m.participantOffer, m.terms.priceSatPerXbt, lateTaker.priceSatPerXbt,
            validateTerms m.terms lateTaker.priceSatPerXbt .participant 700010)) =
          [("t", 2000000, 1000000, .error (.termsRejected "price is worse than your limit"))] :=
  ⟨by decide, by decide, run_codeReused,
    ⟨_, _, _, ⟨by decide, by decide⟩, rfl⟩, by decide⟩

end Fortis.Edge
