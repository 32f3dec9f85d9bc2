import Fortis.Edge.FillBooks

/-!
# Cancels keep the books

A cancel writes the match and then undoes its hold on its two offers.  Writing the match alone
credits what it consumed, unless it may still be reinstated; each offer then spends its own credit.
-/

namespace Fortis.Edge

open Fortis.Core Lib List Table Store

/-! ## Cancels -/

variable {m : Match} {consumed pre : Nat} {changed offer : Offer} {how : Release} {after : Store}
  {offerId : String} {α : Type} {prog : StoreM α}

section Cancel

variable {posted : String → Nat} {store : Store}

/-- What undoing the hold of `m` on an offer needs: the match holds nothing of it any more. -/
def Credit (posted : String → Nat) (store : Store) (m : Match) (offerId : String)
    (pre consumed : Nat) : Prop :=
  ∀ offer, store.offer offerId = some offer →
    shown offer + store.held offerId + consumed ≤ posted offerId ∧
      (offer.matchId = some m.id → pre + store.held offerId ≤ posted offerId)

theorem releasedOffer_same (released : releasedOffer m offer pre consumed how = some changed) :
    changed.id = offer.id ∧ changed.direction = offer.direction ∧
      changed.recoveryTag = offer.recoveryTag ∧
        (changed.matchId = none ∨ changed.matchId = offer.matchId) := by
  unfold releasedOffer at released
  split at released
  · cases how <;> cases released <;> exact ⟨rfl, rfl, rfl, .inl rfl⟩
  split at released
  · cases how <;> cases released <;> exact ⟨rfl, rfl, rfl, .inr rfl⟩
  · cases released

theorem Credit.frame (credit : Credit posted store m offerId pre consumed)
    (found : after.cfMatches = store.cfMatches)
    (untouched : after.offer offerId = store.offer offerId) :
    Credit posted after m offerId pre consumed := by
  intro offer stored
  have held : after.held offerId = store.held offerId := by
    unfold held
    rw [found]
  rw [held]
  exact credit offer (untouched ▸ stored)

def cancelledMatch (m : Match) (now : Nat) : Match :=
  { m with status := .cancelled, closedAt := some now }

theorem addStrike_frame (token : String) (now : Nat) : Completes Frame (addStrike token now) :=
  fun _ => ⟨rfl, rfl, rfl, rfl⟩

theorem wp_logged_of_never {post : Store → Prop}
    {fail : Fail → Store → Prop} (run : wp prog (fun _ => post) (fun _ _ => False) store) :
    wp (logged prog) (fun _ => post) fail store := by
  unfold logged
  rw [wp_tryCatch]
  exact wp_seq run (fun _ _ => id) nofun

/-- A pass over a snapshot of distinct records meets each as it was read. -/
theorem wp_pass {row : Type} (key : row → String) (lookup : Store → String → Option row)
    {body : row → StoreM Unit} {items : List row} (books : Books posted store)
    (distinct : (items.map key).Nodup) (fresh : ∀ item ∈ items, lookup store (key item) = some item)
    (each : ∀ {item now}, Books posted now → lookup now (key item) = some item →
      wp (body item) (fun _ after => Books posted after ∧ Grows now after ∧
        ∀ id ≠ key item, lookup after id = lookup now id) (fun _ _ => False) now) :
    wp (forEach body items) (fun _ after => Books posted after ∧ Grows store after)
      (fun _ _ => False) store := by
  refine wp_imp (wp_forEach (fun rest after => Books posted after ∧ Grows store after ∧
    (rest.map key).Nodup ∧ ∀ item ∈ rest, lookup after (key item) = some item)
    ⟨books, Grows.refl store, distinct, fresh⟩ ?_) fun _ _ kept => ⟨kept.1, kept.2.1⟩
  rintro first rest now ⟨kept, grown, nodup, current⟩
  obtain ⟨unrepeated, restNodup⟩ := nodup_cons.mp nodup
  refine wp_imp (each kept (current first mem_cons_self)) ?_
  rintro _ after ⟨keptAfter, grownAfter, untouched⟩
  refine ⟨keptAfter, grown.trans grownAfter, restNodup, fun item mem => ?_⟩
  have ne : key item ≠ key first := fun same =>
    unrepeated (same ▸ mem_map_of_mem mem)
  rw [untouched _ ne]
  exact current item (mem_cons_of_mem first mem)

variable (books : Books posted store)
include books

theorem shown_releasedOffer (found : store.offer offerId = some offer)
    (credit : how = .cancel ∨ Credit posted store m offerId pre consumed)
    (released : releasedOffer m offer pre consumed how = some changed) :
    shown changed + store.held offerId ≤ posted offerId := by
  have room := books.room found
  unfold releasedOffer at released
  cases how with
  | cancel =>
    have gone : shown changed = 0 := by
      simp only at released
      split at released
      · cases released; rfl
      split at released
      · cases released; rfl
      · cases released
    omega
  | reopen =>
    obtain ⟨covers, holds⟩ := (credit.resolve_left (by decide)) offer found
    simp only at released
    split at released
    next own =>
      cases released
      exact holds own
    next =>
    split at released
    next status =>
      cases released
      have sum := addU64_le offer.amountSat consumed
      simp only [shown, if_pos status] at covers ⊢
      omega
    · cases released

theorem wp_release (m : Match) (offerId : String) (pre consumed : Nat) (how : Release)
    (credit : how = .cancel ∨ Credit posted store m offerId pre consumed) :
    wp (release m offerId pre consumed how) (fun _ after => Books posted after ∧ Grows store after ∧
        after.cfMatches = store.cfMatches ∧ ∀ id ≠ offerId, after.offer id = store.offer id)
      (fun _ _ => False) store := by
  unfold release
  rw [wp_bind, wp_get]
  rcases found : store.offer offerId with _ | offer
  · exact ⟨books, Grows.refl store, rfl, fun _ _ => rfl⟩
  rcases released : releasedOffer m offer pre consumed how with _ | changed
  · simp only [released]
    exact ⟨books, Grows.refl store, rfl, fun _ _ => rfl⟩
  obtain ⟨id_eq, way, tag, matched⟩ := releasedOffer_same released
  have own : changed.id = offerId := id_eq.trans (id_of_offer found)
  have free := books.tagOk (own ▸ found) tag
  simp only [released]
  refine wp_putOffer (fun _ => ⟨?_, grows_saveOffer store changed, rfl, ?_⟩)
    (fun taken => taken free)
  · refine books.saveOffer free ?_ ?_ ?_ ?_
    · intro old stored
      rw [own, found] at stored
      cases stored
      exact way.symm
    · rw [own]
      exact shown_releasedOffer books found credit released
    · intro mid other held stored
      rw [own]
      rcases matched with none' | same
      · simp [none'] at held
      · exact books.holder found (same ▸ held) stored
    obtain ⟨drawn, drawnMatch⟩ := books.drawnOffer found
    refine ⟨own ▸ drawn, fun mid held => ?_⟩
    rcases matched with none' | same
    · simp [none'] at held
    · exact drawnMatch mid (same ▸ held)
  intro id ne
  rw [offer_saveOffer, own, if_neg ne]

theorem Books.frame (frame : Frame store after) : Books posted after := by
  obtain ⟨offers, found, tags, ids⟩ := frame
  cases after
  cases store
  cases offers
  cases found
  cases tags
  cases ids
  exact { books with }

section

variable (stored : store.getMatch m.id = some m)
include stored

/-- Once a live match is cancelled for good, what it consumed is credited to its offers. -/
theorem credit_of_cancelled {changed : Match} (step : MatchStep m changed)
    (live : m.status ≠ .cancelled) (finished : changed.status = .cancelled)
    (final : changed.missedParticipantDeadline = false)
    (consumedEq : consumedOn m offerId = consumed) (preEq : preOn m offerId = pre) :
    Credit posted (store.saveMatch changed) changed offerId pre consumed := by
  intro offer found
  have exchanged : (store.saveMatch changed).held offerId + holdOn offerId m =
      store.held offerId + holdOn offerId changed :=
    total_put_replace (holdOn offerId) store.cfMatches (step.id_eq.symm ▸ stored)
  have before : holdOn offerId m = consumed := by simp [holdOn, live, consumedEq]
  have after : holdOn offerId changed = 0 := by simp [holdOn, finished, final]
  have room := books.room found
  refine ⟨by omega, fun own => ?_⟩
  have bound := books.holder found (own.trans (congrArg some step.id_eq)) stored
  omega

theorem sideOn_initiator : consumedOn m m.initiatorOffer = m.terms.xbtSat ∧
      preOn m m.initiatorOffer = m.preMatchAmounts.1 := by
  have different := books.sides_ne stored
  simp [consumedOn, preOn, sidesOn, different.symm]

theorem sideOn_participant : consumedOn m m.participantOffer = m.terms.btcSat ∧
      preOn m m.participantOffer = m.preMatchAmounts.2 := by
  have different := books.sides_ne stored
  simp [consumedOn, preOn, sidesOn, different]

/-- A cancel keeps the books: it reopens an offer only when the match is over for good. -/
theorem wp_cancel {told : Match} {now : Nat}
    (step : MatchStep m (cancelledMatch told now)) (live : m.status ≠ .cancelled)
    {initiator participant : Release} (final : (initiator = .cancel ∧ participant = .cancel) ∨
      told.missedParticipantDeadline = false) : wp (cancel told now initiator participant)
      (fun _ after => Books posted after ∧ Grows store after ∧
        ∀ id ≠ m.id, after.getMatch id = store.getMatch id) (fun _ _ => False) store := by
  obtain ⟨terms, initiatorEq, participantEq, pre⟩ := step.made_eq
  have different := books.sides_ne stored
  have written := books.matchStep stored step
  have others : ∀ id ≠ m.id, (store.saveMatch (cancelledMatch told now)).getMatch id =
      store.getMatch id := by
    intro id away
    rw [getMatch_saveMatch, step.id_eq, if_neg away]
  have credit : ∀ {how : Release} {offerId : String} {pre consumed : Nat},
      (initiator = .cancel ∧ participant = .cancel →
      how = .cancel) → consumedOn m offerId = consumed → preOn m offerId = pre →
      how = .cancel ∨ Credit posted (store.saveMatch (cancelledMatch told now))
        (cancelledMatch told now) offerId pre consumed := by
    intro how offerId pre consumed silent consumedEq preEq
    rcases final with both | fine
    · exact .inl (silent both)
    · exact .inr (credit_of_cancelled books stored step live rfl fine consumedEq preEq)
  have initiatorSide := sideOn_initiator books stored
  have participantSide := sideOn_participant books stored
  rw [← initiatorEq, ← terms, ← pre] at initiatorSide
  rw [← participantEq, ← terms, ← pre] at participantSide
  rw [← initiatorEq, ← participantEq] at different
  unfold cancel
  rw [wp_bind, wp_putMatch]
  refine wp_seq (wp_release written _ _ _ _ initiator
    (credit And.left initiatorSide.1 initiatorSide.2)) ?_ (fun _ _ never => never)
  rintro _ middle ⟨booksMiddle, grown, found, untouched⟩
  refine wp_imp (wp_release booksMiddle _ _ _ _ participant ?_) ?_
  · exact (credit And.right participantSide.1 participantSide.2).imp_right fun own =>
      own.frame found (untouched _ different.symm)
  rintro _ after ⟨booksAfter, grownAfter, foundAfter, _⟩
  refine ⟨booksAfter, grown.trans grownAfter, fun id away => ?_⟩
  calc after.getMatch id = (store.saveMatch (cancelledMatch told now)).getMatch id := by
        unfold getMatch
        rw [foundAfter, found]
    _ = store.getMatch id := others id away

/-! ## Ticks -/

theorem Books.unmissed (live : m.status ≠ .cancelled) : m.missedParticipantDeadline = false :=
  Bool.eq_false_iff.mpr fun missed => live (books.missed stored missed)

theorem wp_tickMatch (now : Nat) : wp (tickMatch m now)
      (fun _ after => Books posted after ∧ Grows store after ∧
        ∀ id ≠ m.id, after.getMatch id = store.getMatch id) (fun _ _ => False) store := by
  have idle : Books posted store ∧ Grows store store ∧
      ∀ id ≠ m.id, store.getMatch id = store.getMatch id :=
    ⟨books, Grows.refl store, fun _ _ => rfl⟩
  unfold tickMatch
  cases status : m.status with
  | proposed =>
    dsimp only
    split
    · have live : m.status ≠ .cancelled := by simp [status]
      exact wp_cancel books stored (.cancels now (.inl status)) live
        (.inr (books.unmissed stored live))
    · exact idle
  | accepted =>
    dsimp only
    split
    next due =>
      have live : m.status ≠ .cancelled := by simp [status]
      exact wp_cancel (books.frame (addStrike_frame m.initiatorToken now store)) stored
        (.cancels now (.inr ⟨status, due.1⟩)) live
        (.inr (books.unmissed stored live))
    · exact idle
  | initiatorFunded =>
    dsimp only
    split
    next due =>
      have live : m.status ≠ .cancelled := by simp [status]
      exact wp_cancel (books.frame (addStrike_frame m.participantToken now store)) stored
        (show MatchStep m (cancelledMatch { m with missedParticipantDeadline := true } now) from
          .misses now status due.1 due.2) live (.inl ⟨rfl, rfl⟩)
    · exact idle
  | _ => exact idle

end

theorem wp_closeOffer (stored : Stored store offer)
    {status : OfferStatus} (closed : status ≠ .opened) :
      wp (putOffer { offer with status := status })
      (fun _ after => Books posted after ∧ Grows store after ∧
        ∀ id ≠ offer.id, after.offer id = store.offer id) (fun _ _ => False) store := by
  refine wp_putOffer (fun _ => ⟨?_, grows_saveOffer store _, ?_⟩)
    (fun taken => taken (books.tagOk stored rfl))
  · exact books.shrink stored rfl rfl (by simp [shown, closed]) rfl
  intro id ne
  rw [offer_saveOffer, if_neg ne]

theorem wp_expireOffer (stored : Stored store offer) (now : Nat) :
    wp (expireOffer now offer) (fun _ after => Books posted after ∧ Grows store after ∧
        ∀ id ≠ offer.id, after.offer id = store.offer id) (fun _ _ => False) store := by
  unfold expireOffer
  split
  · exact wp_logged_of_never (wp_closeOffer books stored (by decide))
  · exact ⟨books, Grows.refl store, fun _ _ => rfl⟩

theorem wp_tick (now : Nat) : wp (tick now) (fun _ after => Books posted after ∧ Grows store after)
      (fun _ _ => False) store := by
  unfold tick
  simp only [wp_bind, wp_get]
  refine wp_imp (wp_pass Match.id getMatch books
    store.cfMatches.keys_nodup (fun m mem => get?_of_mem mem)
    fun kept stored => wp_logged_of_never (wp_tickMatch kept stored now)) ?_
  rintro _ middle ⟨kept, grown⟩
  rw [wp_get]
  refine wp_imp (wp_pass Offer.id offer kept
    middle.cfOffers.keys_nodup (fun offer mem => get?_of_mem mem)
    fun kept' stored => wp_expireOffer kept' stored now) ?_
  rintro _ after ⟨keptAfter, grownAfter⟩
  exact ⟨keptAfter, grown.trans grownAfter⟩

theorem safe_onDecline (matchId : String) (side : SwapRole)
    (now : Nat) (ok : Prop) : Safe ok posted (onDecline matchId side now) store := by
  unfold onDecline Safe
  rw [wp_bind, wp_get]
  rcases found : store.getMatch matchId with _ | m
  · exact Safe.bail books _
  have stored := getMatch_self found
  refine wp_guard (fun _ => ⟨books, Grows.refl store⟩) fun checks => ?_
  push Not at checks
  have live : m.status ≠ .cancelled := by simp [checks.1]
  cases side with
  | initiator | participant =>
    exact wp_mono (wp_cancel books stored (.cancels now (.inl checks.1)) live (.inr (books.unmissed
      stored live))) (fun _ _ kept => ⟨kept.1, kept.2.1⟩) nofun

end Cancel

/-! ## The other sections -/

variable {posted : String → Nat} {store : Store} {ok : Prop}

theorem Safe.ignore (safe : Safe ok posted prog store) :
    Safe ok posted (do let _ ← prog) store := by
  unfold Safe
  rw [wp_bind]
  exact safe

variable (books : Books posted store)
include books

theorem Books.sectionStep
    (step : SectionStep store after) : Books posted after ∧ Grows store after := by
  cases step with
  | idle frame =>
    refine ⟨books.frame frame, fun id stored => ?_⟩
    rwa [offer, frame.offers]
  | step m changed stored change frame =>
    refine ⟨(books.matchStep stored change).frame frame, fun id present => ?_⟩
    rwa [offer, frame.offers]

theorem safe_section
    (completes : Completes SectionStep prog) : Safe ok posted (do let _ ← prog) store := by
  exact wp_seq (completes store) (fun _ _ step => books.sectionStep step) nofun

theorem safe_shareCodeFor (post : NewOffer) :
    wp (shareCodeFor post) (fun _ after => after = store) (Refused ok posted store) store := by
  unfold shareCodeFor
  split
  · rw [wp_bind, wp_get]
    cases unusedShareCode store post.codes with
    | none => exact ⟨books, Grows.refl store⟩
    | some code => rfl
  · rfl

theorem Books.undrawn_offer {id : String} (mem : id ∈ store.ids) : store.offer id = none := by
  cases found : store.offer id with
  | none => rfl
  | some offer => exact absurd mem (books.drawnOffer found).1

theorem Books.next_id {id : String} {rest : List String}
    (supply : store.ids = id :: rest) : store.offer id = none ∧ id ∉ rest :=
  ⟨books.undrawn_offer (supply ▸ mem_cons_self), (nodup_cons.mp (supply ▸ books.distinct)).1⟩

theorem safe_createSection (post : NewOffer)
    (amount : ∀ id, store.offer id = none → posted id = post.amountSat) :
    Safe False posted (createSection post) store := by
  unfold createSection Safe
  rw [wp_bind, wp_get]
  cases post.clientId.bind (store.offerByClient post.token) with
  | some existing => exact Safe.pure books _
  | none =>
    refine wp_seq (safe_shareCodeFor books post) ?_ (fun _ _ refused => refused)
    intro shareCode after same
    rw [same]
    simp only [wp_bind]
    refine wp_newId (fun id rest supply => ?_) ⟨books, Grows.refl _⟩
    obtain ⟨missing, taken⟩ := books.next_id supply
    refine wp_putOffer (fun free => ⟨?_, grows_saveOffer _ _⟩) (fun _ no => no)
    refine (books.draw supply).saveOffer free ?_ ?_ ?_ ?_
    · intro old found
      exact absurd (found.symm.trans missing) (by simp)
    · have held : Store.held { store with ids := rest } id = 0 := books.held_eq_zero missing
      change post.amountSat + Store.held { store with ids := rest } id ≤ posted id
      rw [held, amount id missing, Nat.add_zero]
    · intro mid m held
      cases held
    · exact ⟨taken, fun mid held => by cases held⟩

theorem safe_withNewId (offer : Offer)
    (amount : ∀ id, store.offer id = none → posted id = offer.amountSat) {next : Offer → StoreM α}
    (filled : ∀ {after taker}, Books posted after → Entering posted after taker →
      Safe False posted (next taker) after) : Safe False posted (withNewId offer next) store := by
  unfold withNewId Safe
  rw [wp_bind]
  refine wp_newId (fun id rest supply => ?_) ⟨books, Grows.refl _⟩
  obtain ⟨missing, taken⟩ := books.next_id supply
  exact filled (books.draw supply) ⟨missing, taken, amount id missing⟩

theorem safe_withdraw (stored : Stored store offer) : Safe ok posted (withdraw offer) store :=
  (wp_mono (wp_closeOffer books stored (by decide)) (fun _ _ kept => ⟨kept.1, kept.2.1⟩) nofun)

theorem safe_cancelOfferSection (id : String)
    (presented : Option (Fixed 32)) : Safe ok posted (cancelOfferSection id presented) store := by
  unfold cancelOfferSection Safe
  rw [wp_bind, wp_get]
  rcases found : store.offer id with _ | offer
  · exact Safe.pure books _
  have stored := stored_of_offer found
  dsimp only
  split
  · exact Safe.pure books _
  split
  · exact Safe.pure books _
  · exact Safe.bind (safe_withdraw books stored) fun _ _ kept _ => Safe.pure kept _

theorem safe_dropRemainderSection (takerId : String) :
    Safe ok posted (dropRemainderSection takerId) store := by
  unfold dropRemainderSection Safe
  rw [wp_bind, wp_get]
  rcases found : store.offer takerId with _ | offer
  · exact Safe.pure books _
  have stored := stored_of_offer found
  dsimp only
  split
  · exact safe_withdraw books stored
  · exact Safe.pure books _

theorem safe_setSecretHash (offerId : String) (hash : Fixed 32) :
    Safe ok posted (setSecretHash offerId hash) store := by
  unfold setSecretHash Safe
  rw [wp_bind, wp_get]
  rcases found : store.offer offerId with _ | offer
  · exact Safe.bail books _
  have stored := stored_of_offer found
  exact safe_putOffer (fun _ => books.shrink stored rfl rfl le_rfl rfl)
    fun _ => books.tagOk stored rfl

theorem safe_rekey
    (stored : store.getMatch m.id = some m) (offerId : String) (secret : String × Fixed 32) :
    Safe ok posted (rekey m offerId secret) store := by
  have written := books.matchStep stored (.rekeys (roleOf m offerId) secret.2)
  unfold rekey Safe
  rw [wp_bind, wp_putMatch]
  exact Safe.bind (safe_setSecretHash written offerId secret.2) fun _ _ kept _ =>
    Safe.pure kept _

theorem safe_recoverTags (tagHash : String → String) (claim : Bool)
    (tags : List String) (secrets : List (String × Fixed 32)) :
    Safe ok posted (recoverTags tagHash claim tags secrets) store := by
  induction tags generalizing secrets store with
  | nil => exact Safe.pure books _
  | cons tag rest ih =>
    have next : ∀ {after secrets} (entry : Recovered), Books posted after →
        Safe ok posted (do return entry :: (← recoverTags tagHash claim rest secrets)) after :=
      fun entry kept => Safe.bind (ih kept _) fun _ _ later _ => Safe.pure later _
    unfold recoverTags Safe
    rw [wp_bind, wp_get]
    split
    · exact ih books _
    split
    · exact next _ books
    split
    · exact next _ books
    next m chosen =>
    split
    · cases secrets with
      | nil => exact Safe.bail books _
      | cons secret left =>
      have stored : store.getMatch m.id = some m := by
        obtain ⟨id, _, found⟩ := Option.bind_eq_some_iff.mp chosen
        exact getMatch_self found
      exact Safe.bind (safe_rekey books stored _ secret) fun _ _ kept _ => next _ kept
    · exact next _ books

end Fortis.Edge
