import Fortis.Edge.MatchStep

/-!
# Offer conservation

An offer may be in many partial matches at once.  What it still shows while open and what its live
matches consumed never exceed what it was posted with.

A match cancelled at the participant's deadline can be reinstated, so what it consumed stays held.
An offer held by a match remembers that putting back the amount from before the fill keeps the
bound.
-/

namespace Fortis.Edge

open Store Nat

open Option

open List

open Fortis.Core Lib

variable (m : Match) (id : String)

/-- The sum of the sides of `m` that are the offer `id`, each with its own amount. -/
def sidesOn (initiator participant : Nat) : Nat :=
  (if m.initiatorOffer = id then initiator else 0) +
    if m.participantOffer = id then participant else 0

def consumedOn : Nat := sidesOn m id m.terms.xbtSat m.terms.btcSat

def preOn : Nat :=
  sidesOn m id m.preMatchAmounts.1 m.preMatchAmounts.2

def liveOn (id : String) (m : Match) : Nat :=
  if m.status = .cancelled then 0 else consumedOn m id

/-- As `liveOn`, and a match that missed the participant's deadline still counts. -/
def holdOn (id : String) (m : Match) : Nat :=
  if m.status = .cancelled ∧ m.missedParticipantDeadline = false then 0 else consumedOn m id

def Store.consumed (store : Store) (id : String) : Nat := store.cfMatches.total (liveOn id)

def Store.held (store : Store) (id : String) : Nat := store.cfMatches.total (holdOn id)

def shown (offer : Offer) : Nat := if offer.status = .opened then offer.amountSat else 0

theorem liveOn_le_holdOn (id : String) (m : Match) : liveOn id m ≤ holdOn id m := by
  unfold liveOn holdOn
  split
  · exact zero_le _
  next live => simp [live]

theorem consumed_le_held (store : Store) (id : String) : store.consumed id ≤ store.held id :=
  Table.total_le_total _ fun m _ => liveOn_le_holdOn id m

theorem holdOn_le_consumedOn (id : String) (m : Match) : holdOn id m ≤ consumedOn m id := by
  unfold holdOn
  split
  · exact zero_le _
  · exact le_rfl

theorem shown_le (offer : Offer) : shown offer ≤ offer.amountSat := by
  unfold shown
  split
  · exact le_rfl
  · exact zero_le _

variable {changed m : Match}

theorem MatchStep.holdOn_le (step : MatchStep m changed) (id : String) :
    holdOn id changed ≤ holdOn id m := by
  obtain ⟨terms, initiator, participant, _⟩ := step.made_eq
  have same : consumedOn changed id = consumedOn m id := by
    simp only [consumedOn, sidesOn, terms, initiator, participant]
  by_cases finished : m.status = .cancelled ∧ m.missedParticipantDeadline = false
  · -- a match that holds nothing stays cancelled for good
    have stays : changed.status = .cancelled ∧ changed.missedParticipantDeadline = false := by
      obtain ⟨status, missed⟩ := finished
      cases step with
      | funds role outpoint turn slot => cases role <;> simp [fundedNeeds, status] at turn
      | records chain outpoint unset => cases chain <;> exact ⟨status, missed⟩
      | rekeys role hash => cases role <;> exact ⟨status, missed⟩
      | requests txs finished unset => exact ⟨status, missed⟩
      | releases sigs finished unset => exact ⟨status, missed⟩
      | reinstates missed' funded => simp [eligible, missed] at missed'
      | _ => simp_all [terminal]
    simp [holdOn, stays]
  calc holdOn id changed ≤ consumedOn changed id := holdOn_le_consumedOn id changed
    _ = consumedOn m id := same
    _ = holdOn id m := (if_neg finished).symm

theorem MatchStep.missed_cancelled (step : MatchStep m changed)
    (before : m.missedParticipantDeadline = true → m.status = .cancelled) :
    changed.missedParticipantDeadline = true → changed.status = .cancelled := by
  cases step with
  | funds role outpoint turn slot =>
    cases role <;> simp_all [fundedNeeds, Match.setFunding, SwapRole.sendChain]
  | records chain outpoint unset => cases chain <;> exact before
  | rekeys role hash => cases role <;> exact before
  | accepts accepted proposed => simp_all
  | closes now funded => rcases funded with status | status <;> simp_all
  | _ => simp_all

/-! ## The invariant -/

/-- The books balance: every offer covers what it shows and what is held of it. -/
structure Books (posted : String → Nat) (store : Store) : Prop where
  room : ∀ {id offer}, store.offer id = some offer → shown offer + store.held id ≤ posted id
  /-- Reopening an offer at the amount from before its match keeps the bound. -/
  holder : ∀ {id offer mid m}, store.offer id = some offer → offer.matchId = some mid →
    store.getMatch mid = some m → preOn m id + store.held id ≤ posted id + consumedOn m id
  sides : ∀ {mid m}, store.getMatch mid = some m →
    (∃ offer, store.offer m.initiatorOffer = some offer ∧ offer.direction = .xbtToBtc) ∧
      ∃ offer, store.offer m.participantOffer = some offer ∧ offer.direction = .btcToXbt
  missed : ∀ {mid m}, store.getMatch mid = some m → m.missedParticipantDeadline = true →
    m.status = .cancelled
  tags : ∀ {id offer tag}, store.offer id = some offer → offer.recoveryTag = some tag →
    store.cfTags.get? tag = some (tag, id)
  distinct : store.ids.Nodup
  drawnOffer : ∀ {id offer}, store.offer id = some offer →
    id ∉ store.ids ∧ ∀ mid, offer.matchId = some mid → mid ∉ store.ids
  drawnMatch : ∀ {mid m}, store.getMatch mid = some m → mid ∉ store.ids

def Grows (before after : Store) : Prop :=
  ∀ id, (before.offer id).isSome → (after.offer id).isSome

theorem Grows.refl (store : Store) : Grows store store := fun _ stored => stored

theorem Grows.trans ⦃first second third : Store⦄ (early : Grows first second)
    (late : Grows second third) : Grows first third := fun id stored => late id (early id stored)

theorem books_opened {ids : List String} (distinct : ids.Nodup) (posted : String → Nat) :
    Books posted (Store.opened ids) where
  room found := by simp [opened, offer] at found
  holder found := by simp [opened, offer] at found
  sides found := by simp [opened, getMatch] at found
  missed found := by simp [opened, getMatch] at found
  tags found := by simp [opened, offer] at found
  distinct := distinct
  drawnOffer found := by simp [opened, offer] at found
  drawnMatch found := by simp [opened, getMatch] at found

variable {offer old : Offer}

namespace Books

variable {posted : String → Nat} {store : Store}

variable (books : Books posted store)
include books

theorem sides_ne {mid : String}
    (found : store.getMatch mid = some m) : m.initiatorOffer ≠ m.participantOffer := by
  obtain ⟨⟨seller, sold, selling⟩, buyer, bought, buying⟩ := books.sides found
  intro same
  rw [same, bought] at sold
  cases sold
  exact absurd (selling.symm.trans buying) (by decide)

theorem held_eq_zero {id : String} (missing : store.offer id = none) : store.held id = 0 := by
  refine Table.total_eq_zero fun m mem => ?_
  have found : store.getMatch m.id = some m := Table.get?_of_mem mem
  obtain ⟨⟨seller, sold, _⟩, buyer, bought, _⟩ := books.sides found
  have notInitiator : m.initiatorOffer ≠ id := by
    rintro rfl
    simp [missing] at sold
  have notParticipant : m.participantOffer ≠ id := by
    rintro rfl
    simp [missing] at bought
  simp [holdOn, consumedOn, sidesOn, notInitiator, notParticipant]

/-- The books only read what stored offers were posted with. -/
theorem congr {other : String → Nat}
    (agree : ∀ {id offer}, store.offer id = some offer → other id = posted id) :
    Books other store where
  __ := books
  room found := by rw [agree found]; exact books.room found
  holder found holds stored := by rw [agree found]; exact books.holder found holds stored

theorem saveOffer (free : store.TagOk offer)
    (way : ∀ old, store.offer offer.id = some old → old.direction = offer.direction)
    (covers : shown offer + store.held offer.id ≤ posted offer.id)
    (holds : ∀ mid m, offer.matchId = some mid → store.getMatch mid = some m →
      preOn m offer.id + store.held offer.id ≤ posted offer.id + consumedOn m offer.id)
    (drawn : offer.id ∉ store.ids ∧ ∀ mid, offer.matchId = some mid → mid ∉ store.ids) :
    Books posted (store.saveOffer offer) := by
  -- an offer a match names is still there, and still sells or buys
  have kept : ∀ {id old way'}, store.offer id = some old → old.direction = way' →
      ∃ other, (store.saveOffer offer).offer id = some other ∧ other.direction = way' := by
    intro id old way' found wayOld
    rw [offer_saveOffer]
    by_cases same : id = offer.id
    · rw [if_pos same]
      exact ⟨offer, rfl, (way old (same ▸ found)).symm.trans wayOld⟩
    rw [if_neg same]
    exact ⟨old, found, wayOld⟩
  refine { books with
    room := Table.forall_put covers books.room
    holder := Table.forall_put (holds _ _) books.holder
    sides := fun found =>
      have ⟨⟨_, sold, selling⟩, _, bought, buying⟩ := books.sides found
      ⟨kept sold selling, kept bought buying⟩
    tags := fun found own => ?_
    drawnOffer := Table.forall_put drawn books.drawnOffer }
  rcases Table.get?_put_cases found with ⟨rfl, rfl⟩ | ⟨_, old⟩
  · exact claimTag_own free own
  · exact claimTag_of_held (books.tags old own)

theorem tagOk
    (found : store.offer offer.id = some old) (same : offer.recoveryTag = old.recoveryTag) :
    store.TagOk offer := by
  intro tag holder own held
  rw [books.tags found (same ▸ own)] at held
  cases held
  rfl

theorem shrink (found : store.offer offer.id = some old) (tag : offer.recoveryTag = old.recoveryTag)
    (way : offer.direction = old.direction) (less : shown offer ≤ shown old)
    (matched : offer.matchId = old.matchId) : Books posted (store.saveOffer offer) := by
  refine books.saveOffer (books.tagOk found tag) ?_ ?_ ?_ ?_
  · intro other stored
    rw [found] at stored
    cases stored
    exact way.symm
  · exact Nat.le_trans (Nat.add_le_add_right less _) (books.room found)
  · intro mid m own stored
    exact books.holder found (matched ▸ own) stored
  obtain ⟨drawn, drawnMatch⟩ := books.drawnOffer found
  exact ⟨drawn, fun mid own => drawnMatch mid (matched ▸ own)⟩

theorem draw {id : String} {rest : List String}
    (supply : store.ids = id :: rest) : Books posted { store with ids := rest } := by
  have later : ∀ {other}, other ∉ store.ids → other ∉ rest := by
    intro other unseen mem
    exact unseen (supply ▸ mem_cons_of_mem id mem)
  exact { books with
    distinct := by
      have distinct := books.distinct
      rw [supply] at distinct
      exact (nodup_cons.mp distinct).2
    drawnOffer := fun found => ⟨later (books.drawnOffer found).1,
      fun mid own => later ((books.drawnOffer found).2 mid own)⟩
    drawnMatch := fun found => later (books.drawnMatch found) }

theorem matchStep (stored : store.getMatch m.id = some m) (step : MatchStep m changed) :
    Books posted (store.saveMatch changed) := by
  have id_eq := step.id_eq
  obtain ⟨terms, initiator, participant, pre⟩ := step.made_eq
  rw [← id_eq] at stored
  have less : ∀ id, (store.saveMatch changed).held id ≤ store.held id := by
    intro id
    have exchanged : (store.saveMatch changed).held id + holdOn id m =
        store.held id + holdOn id changed :=
      Table.total_put_replace (holdOn id) store.cfMatches stored
    have below := step.holdOn_le id
    omega
  refine { books with
    room := fun found => Nat.le_trans (Nat.add_le_add_left (less _) _) (books.room found)
    holder := fun {id offer mid other} found matched later => ?_
    sides := Table.forall_put (by rw [initiator, participant]; exact books.sides stored) books.sides
    missed := Table.forall_put (step.missed_cancelled (books.missed stored)) books.missed
    drawnMatch := Table.forall_put (books.drawnMatch stored) books.drawnMatch }
  have below := less id
  rcases Table.get?_put_cases later with ⟨rfl, rfl⟩ | ⟨_, old⟩
  · have bound := books.holder found matched stored
    have preEq : preOn other id = preOn m id := by
      simp only [preOn, sidesOn, initiator, participant, pre]
    have consumedEq : consumedOn other id = consumedOn m id := by
      simp only [consumedOn, sidesOn, terms, initiator, participant]
    omega
  have bound := books.holder found matched old
  omega

theorem addMatch (new : store.getMatch m.id = none)
    (drawn : m.id ∉ store.ids) (fine : m.missedParticipantDeadline = false)
    (sides : (∃ offer, store.offer m.initiatorOffer = some offer ∧ offer.direction = .xbtToBtc) ∧
      ∃ offer, store.offer m.participantOffer = some offer ∧ offer.direction = .btcToXbt)
    (covers : ∀ id offer, store.offer id = some offer →
      shown offer + store.held id + consumedOn m id ≤ posted id)
    (holds : ∀ id offer, store.offer id = some offer → offer.matchId = some m.id →
      preOn m id + store.held id ≤ posted id)
    (others : ∀ id offer mid other, store.offer id = some offer → offer.matchId = some mid →
      store.getMatch mid = some other → consumedOn m id = 0) : Books posted
        (store.saveMatch m) := by
  have held : ∀ id, (store.saveMatch m).held id = store.held id + holdOn id m := fun id =>
    Table.total_put_new (holdOn id) store.cfMatches new
  refine { books with
    room := fun {id offer} found => ?_
    holder := fun {id offer mid other} found matched later => ?_
    sides := Table.forall_put sides books.sides
    missed := Table.forall_put (by simp [fine]) books.missed
    drawnMatch := Table.forall_put drawn books.drawnMatch }
  · have bound := covers id offer found
    have below := holdOn_le_consumedOn id m
    rw [held]
    omega
  have below := holdOn_le_consumedOn id m
  rw [held]
  rcases Table.get?_put_cases later with ⟨rfl, rfl⟩ | ⟨_, old⟩
  · have bound := holds id offer found matched
    omega
  have bound := books.holder found matched old
  have nothing := others id offer mid other found matched old
  omega

end Books

/-! ## Fills -/

theorem shown_settled_add_le {consumed : Nat} (enough : consumed ≤ offer.amountSat)
    (limiting : Bool) (matchId : String) :
    shown (settled offer consumed limiting matchId) + consumed ≤ offer.amountSat := by
  have left := shown_le (settled offer consumed limiting matchId)
  rw [settled_amountSat] at left
  omega

/-- An offer a fill may take from: as it stands in the store, or not stored yet. -/
structure Room (posted : String → Nat) (store : Store) (offer : Offer) : Prop where
  current : ∀ old, store.offer offer.id = some old → old = offer
  drawn : offer.id ∉ store.ids
  fits : offer.amountSat + store.held offer.id ≤ posted offer.id

section

variable {posted : String → Nat} {store : Store} (books : Books posted store)
include books

theorem Room.of_stored (found : store.offer offer.id = some offer)
    (status : offer.status = .opened) : Room posted store offer where
  current old stored := by
    rw [found] at stored
    exact (some.inj stored).symm
  drawn := (books.drawnOffer found).1
  fits := by
    have bound := books.room found
    rwa [shown, if_pos status] at bound

theorem Room.of_new (missing : store.offer offer.id = none)
    (drawn : offer.id ∉ store.ids) (amount : posted offer.id = offer.amountSat) :
    Room posted store offer where
  current old stored := by simp [missing] at stored
  drawn := drawn
  fits := by rw [books.held_eq_zero missing, amount, add_zero]

end

variable {posted : String → Nat} {store : Store} {id : String} {rest : List String}

/-- One side of a fill: the offer settles into a store whose next id is the match's. -/
theorem Books.settle (books : Books posted store) (undrawn : store.getMatch id = none)
    (taken : id ∉ store.ids) (room : Room posted store offer) {consumed : Nat}
    (enough : consumed ≤ offer.amountSat) (limiting : Bool)
    (free : store.TagOk (settled offer consumed limiting id)) :
    Books posted (store.saveOffer (settled offer consumed limiting id)) := by
  refine books.saveOffer free ?_ ?_ ?_ ?_
  · intro old found
    rw [settled_id] at found
    rw [room.current old found, settled_direction]
  · have left := shown_settled_add_le enough limiting id
    have fits := room.fits
    rw [settled_id]
    omega
  · intro mid m held found
    rw [settled_matchId held, undrawn] at found
    cases found
  refine ⟨by simpa using room.drawn, fun mid held => ?_⟩
  rw [settled_matchId held]
  exact taken

/-- Filling two offers keeps the books. -/
theorem Books.fill (books : Books posted store) (supply : store.ids = id :: rest)
    {init part : Offer} (roomInit : Room posted store init) (roomPart : Room posted store part)
    (ne : init.id ≠ part.id) (sells : init.direction = .xbtToBtc)
    (buys : part.direction = .btcToXbt) {terms : SwapTerms}
    (enoughInit : terms.xbtSat ≤ init.amountSat) (enoughPart : terms.btcSat ≤ part.amountSat)
    (limitingInit limitingPart : Bool)
    (freeInit : store.TagOk (settled init terms.xbtSat limitingInit id))
    (freePart : (store.saveOffer (settled init terms.xbtSat limitingInit id)).TagOk
      (settled part terms.btcSat limitingPart id)) :
    Books posted ((({ store with ids := rest }.saveOffer
      (settled init terms.xbtSat limitingInit id)).saveOffer
        (settled part terms.btcSat limitingPart id)).saveMatch
          (buildMatch id terms init part)) := by
  have mem : id ∈ store.ids := supply ▸ mem_cons_self
  have undrawn : store.getMatch id = none := by
    cases found : store.getMatch id with
    | none => rfl
    | some m => exact absurd mem (books.drawnMatch found)
  have taken : id ∉ rest := by
    have distinct := books.distinct
    rw [supply] at distinct
    exact (nodup_cons.mp distinct).1
  have later : ∀ {other}, other ∉ store.ids → other ∉ rest := fun unseen seen =>
    unseen (supply ▸ mem_cons_of_mem id seen)
  set drawn : Store := { store with ids := rest }
  set first := drawn.saveOffer (settled init terms.xbtSat limitingInit id) with firstEq
  set second := first.saveOffer (settled part terms.btcSat limitingPart id) with secondEq
  have booksFirst : Books posted first :=
    (books.draw supply).settle undrawn taken
      ⟨roomInit.current, later roomInit.drawn, roomInit.fits⟩ enoughInit limitingInit freeInit
  have roomFirst : Room posted first part := by
    refine ⟨fun old found => roomPart.current old ?_, later roomPart.drawn, roomPart.fits⟩
    rwa [firstEq, offer_saveOffer, settled_id, if_neg ne.symm] at found
  have booksSecond : Books posted second :=
    booksFirst.settle undrawn taken roomFirst enoughPart limitingPart freePart
  have initFound : second.offer init.id = some (settled init terms.xbtSat limitingInit id) := by
    rw [secondEq, offer_saveOffer, settled_id, if_neg ne, firstEq,
      offer_saveOffer, settled_id, if_pos rfl]
  have partFound : second.offer part.id = some (settled part terms.btcSat limitingPart id) := by
    rw [secondEq, offer_saveOffer, settled_id, if_pos rfl]
  have initSide : consumedOn (buildMatch id terms init part) init.id = terms.xbtSat ∧
      preOn (buildMatch id terms init part) init.id = init.amountSat := by
    simp [consumedOn, preOn, sidesOn, buildMatch, ne.symm]
  have partSide : consumedOn (buildMatch id terms init part) part.id = terms.btcSat ∧
      preOn (buildMatch id terms init part) part.id = part.amountSat := by
    simp [consumedOn, preOn, sidesOn, buildMatch, ne]
  have otherSide : ∀ {other}, other ≠ init.id → other ≠ part.id →
      consumedOn (buildMatch id terms init part) other = 0 := by
    intro other notInit notPart
    simp [consumedOn, sidesOn, buildMatch, notInit.symm, notPart.symm]
  refine booksSecond.addMatch undrawn taken rfl ⟨⟨_, initFound, ?_⟩, _, partFound, ?_⟩ ?_ ?_ ?_
  · rw [settled_direction, sells]
  · rw [settled_direction, buys]
  · intro other offer found
    by_cases isInit : other = init.id
    · subst isInit
      rw [initFound] at found
      cases found
      have left := shown_settled_add_le enoughInit limitingInit id
      have fits : init.amountSat + second.held init.id ≤ posted init.id := roomInit.fits
      rw [initSide.1]
      omega
    by_cases isPart : other = part.id
    · subst isPart
      rw [partFound] at found
      cases found
      have left := shown_settled_add_le enoughPart limitingPart id
      have fits : part.amountSat + second.held part.id ≤ posted part.id := roomPart.fits
      rw [partSide.1]
      omega
    rw [otherSide isInit isPart]
    exact booksSecond.room found
  · intro other offer found held
    by_cases isInit : other = init.id
    · subst isInit
      rw [initSide.2]
      exact roomInit.fits
    by_cases isPart : other = part.id
    · subst isPart
      rw [partSide.2]
      exact roomPart.fits
    -- no other offer carries an id that was still to be drawn
    rw [secondEq, offer_saveOffer, settled_id, if_neg isPart, firstEq,
      offer_saveOffer, settled_id, if_neg isInit] at found
    exact absurd mem ((books.drawnOffer found).2 id held)
  intro other offer mid m found held stored
  by_cases isInit : other = init.id
  · subst isInit
    rw [initFound] at found
    cases found
    rw [settled_matchId held] at stored
    exact absurd stored (by simp [show second.getMatch id = none from undrawn])
  by_cases isPart : other = part.id
  · subst isPart
    rw [partFound] at found
    cases found
    rw [settled_matchId held] at stored
    exact absurd stored (by simp [show second.getMatch id = none from undrawn])
  · exact otherSide isInit isPart

end Fortis.Edge
