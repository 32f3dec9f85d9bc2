import Fortis.Edge.MatchRuns

/-!
# Invariants of the stored offers

An operation writes an offer back with another amount, status, match or owner secret; everything
else of it is as posted.  `OfferLaw` states what an invariant needs to be kept by that, and every
operation under the matching lock is gone through once.
-/

namespace Fortis.Edge

open Fortis.Core Lib List

def Offer.posted (offer : Offer) : Offer :=
  { offer with
    secretHash := Fixed.zero 32, amountSat := 0, status := .opened, matchId := none }

variable {first second : Offer}

theorem id_of_posted (same : first.posted = second.posted) : first.id = second.id := by
  have posted : first.posted.id = second.posted.id := congrArg Offer.id same
  exact posted

theorem settled_posted (offer : Offer) (consumed : Nat) (limiting : Bool) (matchId : String) :
    (settled offer consumed limiting matchId).posted = offer.posted := by
  simp only [settled]
  split <;> rfl

variable {consumed : Nat} {changed offer : Offer}

theorem releasedOffer_posted {m : Match} {pre : Nat}
    {how : Release} (released : releasedOffer m offer pre consumed how = some changed) :
    changed.posted = offer.posted := by
  unfold releasedOffer at released
  split at released
  · cases how <;> cases released <;> rfl
  split at released
  · cases how <;> cases released <;> rfl
  · cases released

structure OffersAsWere (before after : Store) : Prop where
  offers : after.cfOffers = before.cfOffers
  tags : after.cfTags = before.cfTags
  ids : after.ids <:+ before.ids

variable {store : Store} {id : String}

theorem offersAsWere_draw {rest : List String}
    (supply : store.ids = id :: rest) : OffersAsWere store { store with ids := rest } :=
  ⟨rfl, rfl, supply ▸ suffix_cons id rest⟩

/-- An invariant that every write of an allowed offer keeps. -/
structure OfferLaw (inv : Store → Prop) (allowed : Offer → Prop) : Prop where
  elsewhere : ∀ {before after}, OffersAsWere before after → inv before → inv after
  saves : ∀ {store offer}, inv store → allowed offer → store.TagOk offer →
    inv (store.saveOffer offer)
  stored : ∀ {store id offer}, inv store → store.offer id = some offer → allowed offer
  same : ∀ {offer changed : Offer}, changed.posted = offer.posted → allowed offer → allowed changed

variable {incoming taker : Offer} {prog : StoreM α}

namespace OfferLaw

variable {inv : Store → Prop} {allowed : Offer → Prop} {α : Type} {config : Matching}

theorem logged (kept : Preserves inv prog) : Preserves inv (logged prog) := by
  refine Relates.tryCatch (fun _ _ _ early late held => late (early held)) kept.ignore
    fun raised => ?_
  cases raised <;> exact fun _ => id

variable (law : OfferLaw inv allowed)

include law

theorem frame (frame : Completes Frame prog) : Preserves inv prog :=
  frame.relates.mono fun _ _ same => law.elsewhere ⟨same.offers, same.tags, same.ids ▸ suffix_rfl⟩

theorem step (step : Completes SectionStep prog) : Preserves inv prog :=
  step.relates.mono fun _ _ taken => by
    cases taken with
    | idle frame => exact law.elsewhere ⟨frame.offers, frame.tags, frame.ids ▸ suffix_rfl⟩
    | step m changed stored change frame =>
      exact law.elsewhere ⟨frame.offers, frame.tags, frame.ids ▸ suffix_rfl⟩

theorem putOffer (may : allowed offer) : Preserves inv (putOffer offer) :=
  relates_iff_wp.mpr fun _ => wp_putOffer (fun free held => law.saves held may free) (fun _ => id)

theorem rewrite (held : inv store) (found : store.offer id = some offer)
    (same : changed.posted = offer.posted) : Preserves inv (Edge.putOffer changed) :=
  law.putOffer (law.same same (law.stored held found))

variable (m : Match) (offerId : String) (now : Nat)

theorem putMatch : Preserves inv (putMatch m) :=
  fun _ => law.elsewhere ⟨rfl, rfl, suffix_rfl⟩

theorem newId : Preserves inv newId :=
  relates_iff_wp.mpr fun _ =>
    wp_newId (fun _ _ supply => law.elsewhere (offersAsWere_draw supply)) id

theorem of_mem (held : inv store) (mem : offer ∈ store.allOffers) : allowed offer :=
  law.stored held (Table.get?_of_mem mem)

theorem release (pre consumed : Nat)
    (how : Release) : Preserves inv (release m offerId pre consumed how) := by
  refine Preserves.read fun store held => ?_
  rcases found : store.offer offerId with _ | offer
  · exact Preserves.pure _
  dsimp only
  cases changed : releasedOffer m offer pre consumed how with
  | none => exact Preserves.pure _
  | some released => exact law.rewrite held found (releasedOffer_posted changed)

theorem cancel
    (initiator participant : Release) : Preserves inv (cancel m now initiator participant) :=
  Preserves.bind (law.putMatch _) fun _ =>
    Preserves.bind (law.release _ _ _ _ _) fun _ => law.release _ _ _ _ _

theorem tickMatch : Preserves inv (tickMatch m now) :=
  tickMatch_preserves (fun token => law.frame (addStrike_frame token now)) fun _ => law.cancel _ now

theorem expireOffer (may : allowed offer) (now : Nat) : Preserves inv (expireOffer now offer) := by
  unfold Edge.expireOffer
  split
  · have expired : ({ offer with status := .expired } : Offer).posted = offer.posted := rfl
    exact logged (law.putOffer (law.same expired may))
  · exact Preserves.pure _

theorem tick : Preserves inv (tick now) := by
  refine Preserves.read fun _ _ => Preserves.bind
    (Preserves.forEach fun m _ => logged (law.tickMatch m now)) fun _ => ?_
  exact Preserves.read fun store held =>
    Preserves.forEach fun offer mem => law.expireOffer (law.of_mem held mem) now

theorem onDecline (matchId : String) (side : SwapRole) (now : Nat) :
    Preserves inv (onDecline matchId side now) :=
  onDecline_relates (fun _ => id)
    (fun _ _ initiator participant => law.cancel _ now initiator participant _) matchId side

theorem dropRemainderSection (takerId : String) : Preserves inv (dropRemainderSection takerId) := by
  refine Preserves.read fun store held => ?_
  rcases found : store.offer takerId with _ | offer
  · exact Preserves.pure _
  dsimp only
  split
  · exact law.rewrite held found rfl
  · exact Preserves.pure _

theorem cancelOfferSection (id : String)
    (presented : Option (Fixed 32)) : Preserves inv (cancelOfferSection id presented) := by
  refine Preserves.read fun store held => ?_
  rcases found : store.offer id with _ | offer
  · exact Preserves.pure _
  dsimp only
  split
  · exact Preserves.pure _
  split
  · exact Preserves.pure _
  · exact Preserves.bind (law.rewrite held found rfl) fun _ => Preserves.pure _

theorem rekey (secret : String × Fixed 32) : Preserves inv (rekey m offerId secret) := by
  refine Preserves.bind (law.putMatch _) fun _ => Preserves.bind ?_ fun _ => Preserves.pure _
  refine Preserves.read fun store held => ?_
  cases found : store.offer offerId with
  | none => exact Preserves.throw _
  | some offer => exact law.rewrite held found rfl

theorem recoverTags (tagHash : String → String) (claim : Bool)
    (tags : List String) (secrets : List (String × Fixed 32)) :
    Preserves inv (recoverTags tagHash claim tags secrets) :=
  recoverTags_relates (fun _ => id) (fun _ _ _ early late held => late (early held))
    (fun _ offerId secret => relates_iff_wp.mp (law.rekey _ offerId secret) _) tagHash claim tags
    secrets

theorem settle {limiting : Bool} {matchId : String} {next : Offer → StoreM α} (may : allowed offer)
    (rest : ∀ left, allowed left → Preserves inv (next left)) :
    Preserves inv (settle offer consumed limiting matchId >>= next) := by
  refine relates_iff_wp.mpr fun store => ?_
  rw [wp_bind]
  refine wp_settle ?_ id
  exact relates_iff_wp.mp (rest _ (law.same (settled_posted ..) may)) store

theorem storeFill {init part : Offer} (sells : allowed init)
    (buys : allowed part) (timelocks : SwapTimelocks) (price now : Nat) :
    Preserves inv (storeFill config timelocks init part price now) := by
  refine Preserves.bind law.newId fun _ => ?_
  refine law.settle sells fun _ sold => law.settle buys fun _ bought => ?_
  exact Preserves.bind (law.putMatch _) fun _ => Preserves.bind (law.putOffer sold) fun _ =>
    Preserves.bind (law.putOffer bought) fun _ => Preserves.pure _

theorem fill {price now : Nat} (mayFirst : allowed first)
    (maySecond : allowed second) (held : inv store) :
    wpFill config first second price now inv (fun _ => inv) store := by
  have sides : allowed (pairSides first second).1 ∧ allowed (pairSides first second).2 := by
    unfold pairSides
    cases first.direction with
    | xbtToBtc => exact ⟨mayFirst, maySecond⟩
    | btcToXbt => exact ⟨maySecond, mayFirst⟩
  exact fun _ _ _ _ _ _ => finalState_iff_wp.mp (law.storeFill sides.1 sides.2 _ _ _ store held)

theorem matchLocked
    (may : store.offer incoming.id = none → allowed incoming) (barred : List String) (now : Nat)
    (held : inv store) : inv (finalState (matchLocked config incoming barred now) store) := by
  have current : allowed ((store.offer incoming.id).getD incoming) := by
    cases found : store.offer incoming.id with
    | none => exact may found
    | some offer => exact law.stored held found
  refine finalState_iff_wp.mpr (wp_matchLocked (fun _ => held) held ?_)
  rintro _ rfl _ cand mem _ _
  exact law.fill current (law.stored held (mem_candidates mem).1) held

theorem rematch : Preserves inv (rematch config now) := by
  refine Preserves.read fun store held => Preserves.forEach fun offer mem => ?_
  refine logged fun later => law.matchLocked (fun _ => law.of_mem held ?_) _ _
  have booked := (mem_filter.mp mem).1
  exact (mem_filter.mp ((perm_insertionSort _ _).mem_iff.mp booked)).1

theorem takePrivate (may : allowed taker)
    (code : String) (now : Nat) : Preserves inv (takePrivate config code taker now) :=
  fun _ held => finalState_iff_wp.mpr (wp_takePrivate (fun _ => held) fun _ _ stored _ =>
    law.fill may (law.stored held stored) held)

theorem takePublic (may : allowed taker)
    (offerId : String) (now : Nat) : Preserves inv (takePublic config offerId taker now) :=
  fun _ held => finalState_iff_wp.mpr (wp_takePublic (fun _ => held) fun _ stored _ _ =>
    law.fill may (law.stored held stored) held)

end OfferLaw

variable {holds : Store → Prop}

theorem finalState_withNewId {α : Type} {next : Offer → StoreM α} (dry : holds store)
    (drawn : ∀ id rest, store.ids = id :: rest →
    holds (finalState (next { offer with id := id }) { store with ids := rest })) :
    holds (finalState (withNewId offer next) store) := by
  refine finalState_both ?_
  unfold withNewId
  rw [wp_bind]
  exact wp_newId (fun id rest supply => finalState_iff_wp.mp (drawn id rest supply)) dry

theorem shareCodeFor_same (post : NewOffer) : Relates Eq (shareCodeFor post) := by
  unfold shareCodeFor
  split
  · refine Relates.get_bind fun store => ?_
    cases unusedShareCode store post.codes <;> rfl
  · exact fun _ => rfl

/-- A post whose key is not on the book is written under the next id. -/
theorem finalState_createSection {post : NewOffer} (unchanged : holds store)
    (drawn : post.clientId.bind (store.offerByClient post.token) = none →
      ∀ id rest code, store.ids = id :: rest →
        holds (finalState (putOffer (post.toOffer id code)) { store with ids := rest })) :
    holds (finalState (createSection post) store) := by
  refine finalState_both ?_
  unfold createSection
  rw [wp_bind, wp_get]
  cases known : post.clientId.bind (store.offerByClient post.token) with
  | some existing => exact unchanged
  | none =>
    refine wp_seq (relates_iff_wp.mp (shareCodeFor_same post) store) (fun code _ same => ?_)
      (fun _ _ same => same ▸ unchanged)
    subst same
    rw [wp_bind]
    refine wp_newId (fun id rest supply => ?_) unchanged
    rw [wp_bind]
    exact finalState_iff_wp.mp (drawn known id rest code supply)

/-- The law allows the offer an operation brings, if it comes to storing it. -/
def LockedOp.Allowed (allowed : Offer → Prop) (store : Store) : LockedOp → Prop
  | .create post => post.clientId.bind (store.offerByClient post.token) = none →
      ∀ id rest code, store.ids = id :: rest → allowed (post.toOffer id code)
  | .matchOffer incoming _ => store.offer incoming.id = none → allowed incoming
  | .takePrivate _ taker _ => ∀ id rest, store.ids = id :: rest → allowed { taker with id := id }
  | .takePublic _ taker _ => ∀ id rest, store.ids = id :: rest → allowed { taker with id := id }
  | _ => True

theorem OfferLaw.run {inv : Store → Prop} {allowed : Offer → Prop} (law : OfferLaw inv allowed)
    (env : EdgeEnv) (op : LockedOp) (may : op.Allowed allowed store)
    (held : inv store) : inv (finalState (op.run env) store) := by
  have done : Preserves inv (op.run env) → inv (finalState (op.run env) store) :=
    fun kept => kept store held
  have ignored : ∀ {α : Type} {prog : StoreM α}, inv (finalState prog store) →
      inv (finalState (do let _ ← prog : StoreM Unit) store) := by
    intro _ prog left
    rw [finalState_ignore]
    exact left
  cases op with
  | create post =>
    refine ignored (finalState_createSection held fun unknown id rest code supply => ?_)
    exact law.putOffer (may unknown id rest code supply) _
      (law.elsewhere (offersAsWere_draw supply) held)
  | matchOffer incoming now => exact ignored (law.matchLocked may [] now held)
  | rematch now => exact done (law.rematch now)
  | takePrivate code taker now =>
    refine ignored (finalState_withNewId held fun id rest supply => ?_)
    exact law.takePrivate (may id rest supply) code now _
      (law.elsewhere (offersAsWere_draw supply) held)
  | takePublic offerId taker now =>
    refine ignored (finalState_withNewId held fun id rest supply => ?_)
    exact law.takePublic (may id rest supply) offerId now _
      (law.elsewhere (offersAsWere_draw supply) held)
  | dropRemainder takerId => exact done (law.dropRemainderSection takerId)
  | cancelOffer id presented => exact done (.ignore (law.cancelOfferSection id presented))
  | decline matchId side now => exact done (law.onDecline matchId side now)
  | tick now => exact done (law.tick now)
  | reinstate id txid => exact done (.ignore (law.step (reinstateSection_step id txid)))
  | recover tags claim secrets =>
    exact done (.ignore (law.recoverTags env.tagHash claim tags secrets))
  | _ =>
    refine done (law.step fun store => ?_)
    exact wp_imp (LockedOp.decides env rfl store) fun _ _ decides => decides.step

/-- An invariant that allows every offer and outlives deletes is kept by every
process of the edge. -/
theorem OfferLaw.kept {inv : Store → Prop} (law : OfferLaw inv fun _ => True) (sw : Swap)
    (drops : ∀ store key, inv store → inv { store with cfOffers := store.cfOffers.delete key }) :
    Kept sw fun before after => inv before → inv after where
  refl _ := id
  locked op := fun store held => by
    refine law.run sw.env op ?_ held
    cases op <;> simp [LockedOp.Allowed]
  relays _ _ _ := fun _ => law.elsewhere ⟨rfl, rfl, suffix_rfl⟩
  watches _ := fun _ => law.elsewhere ⟨rfl, rfl, suffix_rfl⟩
  dropsMsg _ _ := law.elsewhere ⟨rfl, rfl, suffix_rfl⟩
  dropsWatch _ _ := law.elsewhere ⟨rfl, rfl, suffix_rfl⟩
  dropsMatch _ _ := law.elsewhere ⟨rfl, rfl, suffix_rfl⟩
  dropsOffer store key := drops store key
  dropsStrikes now := (purgeStrikes_frame now).relates.mono fun _ _ frame =>
    law.elsewhere ⟨frame.offers, frame.tags, frame.ids ▸ suffix_rfl⟩

end Fortis.Edge
