import Fortis.Edge.CancelBooks
import Fortis.Edge.Routes

/-!
# What one action does to the stored matches

`Follows` says of two stores that every match of the later one comes, by a given relation, from the
match of the same id in the earlier one, or is newly made under an id drawn in between.  Every
action of every process of the edge is a `Follows Moved` step, whatever the process read before.
-/

namespace Fortis.Edge

open Fortis.Core Lib List Option Relation Table Store

/-- Ids are drawn once: what is stored is not in the supply. -/
structure Fresh (store : Store) : Prop where
  nodup : store.ids.Nodup
  drawn : ∀ {id m}, store.getMatch id = some m → id ∉ store.ids

def Made (m : Match) : Prop := ∃ id terms init part, m = buildMatch id terms init part

/-- Every match afterwards comes from one before by `rel`, or was made in between. -/
def Follows (rel : Match → Match → Prop) (before after : Store) : Prop :=
  Fresh before → Fresh after ∧ (∀ id ∈ after.ids, id ∈ before.ids) ∧
    ∀ {id now}, after.getMatch id = some now → (∃ m, before.getMatch id = some m ∧ rel m now) ∨
        (id ∈ before.ids ∧ ∃ made, Made made ∧ rel made now)

variable {after before : Store}

namespace Follows

variable {rel : Match → Match → Prop}

theorem trans (transitive : Composes rel) ⦃first second third : Store⦄
    (early : Follows rel first second)
    (late : Follows rel second third) : Follows rel first third := by
  intro fresh
  obtain ⟨freshSecond, drawnFirst, fromFirst⟩ := early fresh
  obtain ⟨freshThird, drawnSecond, fromSecond⟩ := late freshSecond
  refine ⟨freshThird, fun id left => drawnFirst id (drawnSecond id left), fun stored => ?_⟩
  rcases fromSecond stored with ⟨m, held, moved⟩ | ⟨drawn, made, isMade, moved⟩
  · rcases fromFirst held with ⟨origin, held', moved'⟩ | ⟨drawn, made, isMade, moved'⟩
    · exact .inl ⟨origin, held', transitive moved' moved⟩
    · exact .inr ⟨drawn, made, isMade, transitive moved' moved⟩
  · exact .inr ⟨drawnFirst _ drawn, made, isMade, moved⟩

theorem mono {weaker : Match → Match → Prop} (le : ∀ ⦃m now⦄, rel m now → weaker m now)
    ⦃before after : Store⦄ (follows : Follows rel before after) : Follows weaker before after := by
  intro fresh
  obtain ⟨freshAfter, drawn, stored⟩ := follows fresh
  refine ⟨freshAfter, drawn, fun found => ?_⟩
  rcases stored found with ⟨m, held, moved⟩ | ⟨new, made, isMade, moved⟩
  · exact .inl ⟨m, held, le moved⟩
  · exact .inr ⟨new, made, isMade, le moved⟩

/-- Nothing is made: every match comes from its own record. -/
theorem of_each (ids : after.ids = before.ids) (each : ∀ {id now}, after.getMatch id = some now →
      ∃ m, before.getMatch id = some m ∧ rel m now) : Follows rel before after := by
  intro fresh
  refine ⟨⟨ids ▸ fresh.nodup, fun stored => ?_⟩, fun id left => ids ▸ left,
    fun stored => .inl (each stored)⟩
  obtain ⟨m, held, _⟩ := each stored
  exact ids ▸ fresh.drawn held

theorem refl (reflexive : ∀ m, rel m m) (store : Store) : Follows rel store store :=
  of_each rfl fun {_ now} stored => ⟨now, stored, reflexive now⟩

end Follows

theorem follows_eq_trans ⦃first second third : Store⦄ (early : Follows Eq first second)
    (late : Follows Eq second third) : Follows Eq first third :=
  Follows.trans (fun _ _ _ same => same.trans) early late

structure Untouched (before after : Store) : Prop where
  found : after.cfMatches = before.cfMatches
  ids : after.ids = before.ids

theorem Untouched.refl (store : Store) : Untouched store store := ⟨rfl, rfl⟩

theorem Untouched.trans ⦃first second third : Store⦄ (early : Untouched first second)
    (late : Untouched second third) : Untouched first third :=
  ⟨late.found.trans early.found, late.ids.trans early.ids⟩

theorem Untouched.follows {rel : Match → Match → Prop} (refl : ∀ m, rel m m)
    ⦃before after : Store⦄ (same : Untouched before after) : Follows rel before after := by
  refine Follows.of_each same.ids fun {id now} stored => ⟨now, ?_, refl now⟩
  rwa [getMatch, same.found] at stored

theorem Frame.untouched ⦃before after : Store⦄ (frame : Frame before after) :
    Untouched before after := ⟨frame.found, frame.ids⟩

theorem putOffer_untouched (offer : Offer) : Relates Untouched (putOffer offer) :=
  relates_iff_wp.mpr fun store =>
    wp_putOffer (fun _ => ⟨rfl, rfl⟩) (fun _ => Untouched.refl store)

theorem release_untouched (m : Match) (offerId : String) (pre consumed : Nat) (how : Release) :
    Relates Untouched (release m offerId pre consumed how) := by
  refine Relates.get_bind fun store => ?_
  rcases store.offer offerId with _ | offer
  · exact Untouched.refl store
  dsimp only
  cases releasedOffer m offer pre consumed how with
  | none => exact Untouched.refl store
  | some changed => exact putOffer_untouched changed store

variable {α : Type}

variable {rel : Store → Store → Prop}

theorem relates_logged {prog : StoreM α} (related : Relates rel prog) :
    Relates rel (logged prog) := by
  rw [relates_iff_wp] at related ⊢
  intro store
  unfold Edge.logged
  rw [wp_tryCatch]
  refine wp_seq (related store) (fun _ _ => id) (fun raised _ kept => ?_)
  cases raised <;> exact kept

/-! ## Fills -/

variable {rest : List String} {store : Store} {id : String}

theorem follows_draw (supply : store.ids = id :: rest) :
    Follows Eq store { store with ids := rest } := by
  have later : ∀ {other}, other ∈ rest → other ∈ store.ids := by
    intro other left
    rw [supply]
    exact mem_cons_of_mem id left
  intro fresh
  have nodup := fresh.nodup
  rw [supply] at nodup
  exact ⟨⟨nodup.of_cons, fun stored left => fresh.drawn stored (later left)⟩,
    fun _ left => later left, fun stored => .inl ⟨_, stored, rfl⟩⟩

variable {m : Match}

/-- A match made under the id just drawn overwrites nothing. -/
theorem follows_made (supply : store.ids = id :: rest) (made : Made m) (own : m.id = id) :
    Follows Eq store (({ store with ids := rest } : Store).saveMatch m) := by
  intro fresh
  obtain ⟨freshAfter, left, kept⟩ := follows_draw supply fresh
  have nodup := fresh.nodup
  rw [supply] at nodup
  refine ⟨⟨freshAfter.nodup, forall_put ?_ freshAfter.drawn⟩, left, forall_put ?_ kept⟩
  · exact own ▸ (nodup_cons.mp nodup).1
  refine .inr ⟨?_, m, made, rfl⟩
  rw [own, supply]
  exact mem_cons_self

theorem wp_settle {post : Offer → Store → Prop} {fail : Fail → Store → Prop}
    {offer : Offer} {consumed : Nat} {limiting : Bool} {matchId : String}
    (filled : post (settled offer consumed limiting matchId) store) (short : fail .fault store) :
    wp (settle offer consumed limiting matchId) post fail store := by
  unfold settle
  split
  · exact short
  · exact filled

theorem storeFill_follows (config : Matching) (timelocks : SwapTimelocks) (init part : Offer)
    (price now : Nat) : Relates (Follows Eq) (storeFill config timelocks init part price now) := by
  refine relates_iff_wp.mpr fun store => ?_
  unfold storeFill
  rw [wp_bind]
  refine wp_newId (fun id rest supply => ?_) (Follows.refl (fun _ => rfl) store)
  have short := follows_draw supply
  rw [wp_bind]
  refine wp_settle ?_ short
  rw [wp_bind]
  refine wp_settle ?_ short
  rw [wp_bind, wp_putMatch]
  have written := fun terms => follows_made supply ⟨id, terms, init, part, rfl⟩ rfl
  refine wp_mono (relates_iff_wp.mp (Relates.bind Untouched.trans (putOffer_untouched _) fun _ =>
    Relates.bind Untouched.trans (putOffer_untouched _) fun _ =>
      Relates.pure Untouched.refl _) _) ?_ ?_
  · exact fun _ _ same => follows_eq_trans (written _) (same.follows fun _ => rfl)
  · exact fun _ _ same => follows_eq_trans (written _) (same.follows fun _ => rfl)

theorem follows_eq_refl (store : Store) : Follows Eq store store :=
  Follows.refl (fun _ => rfl) store

/-- A relation kept by a draw, a fill and a write of an offer, and so by all the
programs of the matcher and the book. -/
structure BookLaw (rel : Store → Store → Prop) : Prop where
  refl : ∀ store, rel store store
  trans : ∀ ⦃first second third⦄, rel first second → rel second third → rel first third
  draws : Relates rel newId
  saves : ∀ offer, Relates rel (putOffer offer)
  fills : ∀ config timelocks init part price now,
    Relates rel (storeFill config timelocks init part price now)

namespace BookLaw

variable {rel : Store → Store → Prop}

variable (law : BookLaw rel)
include law

variable (config : Matching) (post : NewOffer)

theorem fill (first second : Offer) (price now : Nat)
    (store : Store) : wpFill config first second price now (rel store) (fun _ => rel store) store :=
  fun _ _ _ _ _ _ => relates_iff_wp.mp (law.fills _ _ _ _ _ _) store

theorem matchLocked (incoming : Offer) (barred : List String) (now : Nat) :
      Relates rel (Edge.matchLocked config incoming barred now) :=
  relates_iff_wp.mpr fun store => wp_matchLocked (fun _ => law.refl store) (law.refl store)
    fun _ _ _ _ _ _ _ => law.fill _ _ _ _ _ store

theorem rematch (now : Nat) : Relates rel (Edge.rematch config now) :=
  Relates.get_bind fun store =>
    Relates.forEach law.refl law.trans (fun _ => relates_logged (law.matchLocked _ _ _ _)) _ store

theorem takePrivate (code : String) (taker : Offer)
    (now : Nat) : Relates rel (Edge.takePrivate config code taker now) :=
  relates_iff_wp.mpr fun store => wp_takePrivate (fun _ => law.refl store)
    fun _ _ _ _ => law.fill _ _ _ _ _ store

theorem takePublic (offerId : String) (taker : Offer)
    (now : Nat) : Relates rel (Edge.takePublic config offerId taker now) :=
  relates_iff_wp.mpr fun store => wp_takePublic (fun _ => law.refl store)
    fun _ _ _ _ => law.fill _ _ _ _ _ store

theorem withNewId (offer : Offer) {next : Offer → StoreM α}
    (rest : ∀ taker, Relates rel (next taker)) : Relates rel (Edge.withNewId offer next) :=
  Relates.bind law.trans law.draws fun _ => rest _

theorem shareCodeFor : Relates rel (Edge.shareCodeFor post) := by
  unfold Edge.shareCodeFor
  split
  · refine Relates.get_bind fun store => ?_
    cases unusedShareCode store post.codes <;> exact law.refl store
  · exact law.refl

theorem createSection : Relates rel (Edge.createSection post) := by
  refine Relates.get_bind fun store => ?_
  cases post.clientId.bind (store.offerByClient post.token) with
  | some existing => exact law.refl store
  | none =>
    exact Relates.bind law.trans (law.shareCodeFor post) (fun _ =>
      Relates.bind law.trans law.draws fun _ =>
        Relates.bind law.trans (law.saves _) fun _ => Relates.pure law.refl _) store

theorem dropRemainderSection (takerId : String) :
    Relates rel (Edge.dropRemainderSection takerId) := by
  refine Relates.get_bind fun store => ?_
  rcases store.offer takerId with _ | offer
  · exact law.refl store
  dsimp only
  split
  · exact law.saves _ store
  · exact law.refl store

theorem cancelOfferSection (id : String) (presented : Option (Fixed 32)) :
    Relates rel (Edge.cancelOfferSection id presented) := by
  refine Relates.get_bind fun store => ?_
  rcases store.offer id with _ | offer
  · exact law.refl store
  dsimp only
  split
  · exact law.refl store
  split
  · exact law.refl store
  · exact Relates.bind law.trans (law.saves _) (fun _ => Relates.pure law.refl _) store

end BookLaw

def LockedOp.ofBook : LockedOp → Bool
  | .create _ | .matchOffer .. | .rematch _ | .takePrivate .. | .takePublic .. => true
  | .dropRemainder _ | .cancelOffer .. => true
  | _ => false

theorem BookLaw.run (law : BookLaw rel) (env : EdgeEnv) {op : LockedOp}
    (ofBook : op.ofBook = true) : Relates rel (op.run env) := by
  cases op with
  | create post => exact relates_ignore_iff.mpr (law.createSection post)
  | matchOffer incoming now =>
    exact relates_ignore_iff.mpr (law.matchLocked env.config incoming [] now)
  | rematch now => exact law.rematch env.config now
  | takePrivate code taker now =>
    exact relates_ignore_iff.mpr
      (law.withNewId taker fun taker => law.takePrivate env.config code taker now)
  | takePublic offerId taker now =>
    exact relates_ignore_iff.mpr
      (law.withNewId taker fun taker => law.takePublic env.config offerId taker now)
  | dropRemainder takerId => exact law.dropRemainderSection takerId
  | cancelOffer id presented => exact relates_ignore_iff.mpr (law.cancelOfferSection id presented)
  | _ => cases ofBook

/-- The book makes matches and touches none that is there. -/
theorem follows_book : BookLaw (Follows Eq) where
  refl := follows_eq_refl
  trans := follows_eq_trans
  draws := (relates_iff_wp.mpr fun store => wp_newId (fun _ _ supply => follows_draw supply)
    (Follows.refl (fun _ => rfl) store))
  saves offer := (putOffer_untouched offer).mono (Untouched.follows fun _ => rfl)
  fills := storeFill_follows

/-- Only the owner secrets were replaced. -/
def Rekeyed (m now : Match) : Prop :=
  ∃ initiator participant, now =
    { m with initiatorSecretHash := initiator, participantSecretHash := participant }

theorem Rekeyed.refl (m : Match) : Rekeyed m m := ⟨_, _, rfl⟩

theorem Rekeyed.trans ⦃first second third : Match⦄ (early : Rekeyed first second)
    (late : Rekeyed second third) : Rekeyed first third := by
  obtain ⟨_, _, rfl⟩ := early
  obtain ⟨_, _, rfl⟩ := late
  exact ⟨_, _, rfl⟩

theorem rekeyed_setSecret (m : Match) (role : SwapRole) (hash : Fixed 32) :
    Rekeyed m (m.setSecret role hash) := by
  cases role <;> exact ⟨_, _, rfl⟩

/-- What one action does to a match: owner secrets replaced, or one step. -/
def Moved (m now : Match) : Prop := Rekeyed m now ∨ MatchStep m now

theorem Moved.refl (m : Match) : Moved m m := .inl (Rekeyed.refl m)

variable {now : Match}

theorem Moved.id_eq (moved : Moved m now) : now.id = m.id := by
  rcases moved with ⟨_, _, rfl⟩ | step
  · rfl
  · exact step.id_eq

structure Writes (changed : Match) (before after : Store) : Prop where
  found : after.cfMatches = (before.saveMatch changed).cfMatches
  ids : after.ids = before.ids

variable {changed : Match}

theorem Writes.getMatch (writes : Writes changed before after) (id : String) :
    after.getMatch id = if id = changed.id then some changed else before.getMatch id := by
  rw [← getMatch_saveMatch]
  simp only [Store.getMatch, writes.found]

variable {first second third : Store}

theorem Untouched.writes (early : Untouched first second) (late : Writes changed second third) :
    Writes changed first third :=
  ⟨late.found.trans (congrArg (put · changed) early.found), late.ids.trans early.ids⟩

theorem Writes.untouched (early : Writes changed first second) (late : Untouched second third) :
    Writes changed first third :=
  ⟨late.found.trans early.found, late.ids.trans early.ids⟩

theorem Writes.follows {rel : Match → Match → Prop} (refl : ∀ m, rel m m)
    (writes : Writes changed before after)
    (stored : before.getMatch m.id = some m) (same : changed.id = m.id) (moved : rel m changed) :
    Follows rel before after := by
  refine Follows.of_each writes.ids fun {id now} held => ?_
  rw [writes.getMatch, same] at held
  by_cases own : id = m.id
  · rw [if_pos own] at held
    cases held
    exact ⟨m, own ▸ stored, moved⟩
  rw [if_neg own] at held
  exact ⟨now, held, refl now⟩

theorem SectionStep.follows ⦃before after : Store⦄ (step : SectionStep before after) :
    Follows Moved before after := by
  cases step with
  | idle frame => exact frame.untouched.follows Moved.refl
  | step m changed stored change frame =>
    exact Writes.follows Moved.refl ⟨frame.found, frame.ids⟩ stored change.id_eq (.inr change)

/-! ## Deadlines and declines -/

theorem cancel_writes (m : Match) (now : Nat) (initiator participant : Release) :
    Relates (Writes (cancelledMatch m now)) (cancel m now initiator participant) := by
  refine relates_iff_wp.mpr fun store => ?_
  unfold cancel
  rw [wp_bind, wp_putMatch]
  have written : Writes (cancelledMatch m now) store (store.saveMatch (cancelledMatch m now)) :=
    ⟨rfl, rfl⟩
  refine wp_mono (relates_iff_wp.mp (Relates.bind Untouched.trans (release_untouched _ _ _ _ _)
    fun _ => release_untouched _ _ _ _ _) _) ?_ ?_
  · exact fun _ _ same => written.untouched same
  · exact fun _ _ same => written.untouched same

/-- At most one step of `m`, written over whatever is there. -/
def Steps (m : Match) (before after : Store) : Prop :=
  Untouched before after ∨ ∃ changed, MatchStep m changed ∧ Writes changed before after

theorem addStrike_untouched (token : String) (now : Nat) :
    Relates Untouched (addStrike token now) :=
  (addStrike_frame token now).relates.mono Frame.untouched

theorem strike_cancel_steps {told : Match} {token : String} {now : Nat}
    {initiator participant : Release} (step : MatchStep m (cancelledMatch told now)) :
    Relates (Steps m) (do
      addStrike token now
      cancel told now initiator participant) := by
  refine relates_iff_wp.mpr fun store => ?_
  refine wp_seq (relates_iff_wp.mp (addStrike_untouched token now) store)
    (fun _ middle struck => ?_) (fun _ _ struck => .inl struck)
  have writes := cancel_writes told now initiator participant
  exact wp_mono (relates_iff_wp.mp writes middle)
    (fun _ _ written => .inr ⟨_, step, struck.writes written⟩)
    (fun _ _ written => .inr ⟨_, step, struck.writes written⟩)

theorem tickMatch_steps (m : Match) (now : Nat) : Relates (Steps m) (tickMatch m now) := by
  have idle : ∀ store, Steps m store store := fun store => .inl (Untouched.refl store)
  unfold tickMatch
  cases status : m.status with
  | proposed =>
    dsimp only
    split
    · exact (cancel_writes m now .reopen .reopen).mono fun _ _ written =>
        .inr ⟨_, .cancels now (.inl status), written⟩
    · exact idle
  | accepted =>
    dsimp only
    split
    next due => exact strike_cancel_steps (.cancels now (.inr ⟨status, due.1⟩))
    · exact idle
  | initiatorFunded =>
    dsimp only
    split
    next due =>
      exact strike_cancel_steps (show MatchStep m (cancelledMatch
        { m with missedParticipantDeadline := true } now) from .misses now status due.1 due.2)
    · exact idle
  | _ => exact idle

/-- Strikes and cancellations are all a deadline writes. -/
theorem tickMatch_preserves {inv : Store → Prop} {now : Nat}
    (strikes : ∀ token, Preserves inv (addStrike token now))
    (cancels : ∀ missed initiator participant, Preserves inv
      (cancel { m with missedParticipantDeadline := missed } now initiator participant)) :
    Preserves inv (tickMatch m now) := by
  unfold tickMatch
  split
  · split
    · exact cancels _ .reopen .reopen
    · exact Preserves.pure _
  · split
    · exact Preserves.bind (strikes _) fun _ => cancels _ .cancel .reopen
    · exact Preserves.pure _
  · split
    · exact Preserves.bind (strikes _) fun _ => cancels true .cancel .cancel
    · exact Preserves.pure _
  · exact Preserves.pure _

/-- A pass over a snapshot of the matches steps each of them at most once. -/
theorem wp_stepEach {body : Match → StoreM Unit} (each : ∀ m, Relates (Steps m) (body m)) :
    wp (forEach body store.allMatches) (fun _ => Follows Moved store)
      (fun _ => Follows Moved store) store := by
  -- What is left of the snapshot is still stored as it was read.
  refine wp_imp (wp_forEach (fun rest now => Follows Moved store now ∧ now.ids = store.ids ∧
    (∀ {id m'}, now.getMatch id = some m' → ∃ m, store.getMatch id = some m ∧ Moved m m') ∧
    (rest.map Match.id).Nodup ∧ ∀ m ∈ rest, store.getMatch m.id = some m ∧
      now.getMatch m.id = some m)
    ⟨Follows.refl Moved.refl store, rfl, fun {_ m'} held => ⟨m', held, Moved.refl m'⟩,
      store.cfMatches.keys_nodup, fun m mem =>
        ⟨get?_of_mem mem, get?_of_mem mem⟩⟩ ?_)
    fun _ _ kept => kept.1
  rintro first rest now ⟨_, ids, origin, nodup, current⟩
  obtain ⟨unrepeated, restNodup⟩ := nodup_cons.mp nodup
  obtain ⟨read, unchanged⟩ := current first mem_cons_self
  have stepped : ∀ after, Steps first now after → after.ids = store.ids ∧
      (∀ {id m'}, after.getMatch id = some m' → ∃ m, store.getMatch id = some m ∧ Moved m m') ∧
      ∀ id ≠ first.id, after.getMatch id = now.getMatch id := by
    rintro after (same | ⟨changed, step, writes⟩)
    · have looked (id : String) : after.getMatch id = now.getMatch id := by
        simp only [getMatch, same.found]
      exact ⟨same.ids.trans ids, fun held => origin (looked _ ▸ held), fun id _ => looked id⟩
    refine ⟨writes.ids.trans ids, fun {id m'} held => ?_, fun id other => ?_⟩
    · rw [writes.getMatch, step.id_eq] at held
      by_cases own : id = first.id
      · rw [if_pos own] at held
        cases held
        exact ⟨first, own ▸ read, .inr step⟩
      rw [if_neg own] at held
      exact origin held
    · rw [writes.getMatch, step.id_eq, if_neg other]
  have settled : ∀ after, Steps first now after → Follows Moved store after := by
    intro after steps
    obtain ⟨idsAfter, originAfter, _⟩ := stepped after steps
    exact Follows.of_each idsAfter originAfter
  refine wp_mono (relates_iff_wp.mp (each first) now) (fun _ after steps => ?_)
    (fun _ after steps => settled after steps)
  obtain ⟨idsAfter, originAfter, others⟩ := stepped after steps
  refine ⟨settled after steps, idsAfter, originAfter, restNodup, fun m mem => ?_⟩
  have other : m.id ≠ first.id := fun same => unrepeated (same ▸ mem_map_of_mem mem)
  obtain ⟨readM, currentM⟩ := current m (mem_cons_of_mem first mem)
  exact ⟨readM, (others _ other).trans currentM⟩

theorem expireOffer_untouched (now : Nat) (offer : Offer) :
    Relates Untouched (expireOffer now offer) := by
  unfold expireOffer
  split
  · exact relates_logged (putOffer_untouched _)
  · exact Relates.pure Untouched.refl _

theorem Follows.untouched {rel : Match → Match → Prop}
    (early : Follows rel first second) (late : Untouched second third) :
      Follows rel first third := by
  have looked (id : String) : third.getMatch id = second.getMatch id := by
    simp only [getMatch, late.found]
  intro fresh
  obtain ⟨freshSecond, drawn, stored⟩ := early fresh
  refine ⟨⟨late.ids ▸ freshSecond.nodup, fun held => ?_⟩, fun id left => ?_, fun held => ?_⟩
  · exact late.ids ▸ freshSecond.drawn (looked _ ▸ held)
  · exact drawn id (late.ids ▸ left)
  · exact stored (looked _ ▸ held)

theorem tick_follows (now : Nat) : Relates (Follows Moved) (tick now) := by
  refine relates_iff_wp.mpr fun store => ?_
  unfold tick
  rw [wp_bind, wp_get]
  refine wp_next (wp_stepEach fun m => relates_logged (tickMatch_steps m now))
    fun _ middle ticked => ?_
  rw [wp_bind, wp_get]
  have expired := Relates.forEach Untouched.refl Untouched.trans (expireOffer_untouched now)
    middle.allOffers
  exact wp_mono (relates_iff_wp.mp expired middle) (fun _ _ same => ticked.untouched same)
    (fun _ _ same => ticked.untouched same)

/-- A decline cancels a stored match that is still proposed, or does nothing. -/
theorem onDecline_relates {now : Nat} (refl : ∀ store, rel store store)
    (cancels : ∀ {store : Store} {m : Match}, store.getMatch m.id = some m →
      m.status = .proposed → ∀ initiator participant,
        rel store (finalState (cancel m now initiator participant) store))
    (matchId : String) (side : SwapRole) : Relates rel (onDecline matchId side now) := by
  refine Relates.get_bind fun store => ?_
  rcases found : store.getMatch matchId with _ | m
  · exact refl store
  have stored := getMatch_self found
  dsimp only
  split
  · exact refl store
  next checks =>
  push Not at checks
  cases side with
  | initiator => exact cancels stored checks.1 .cancel .reopen
  | participant => exact cancels stored checks.1 .reopen .cancel

theorem onDecline_follows (matchId : String) (side : SwapRole) (now : Nat) :
    Relates (Follows Moved) (onDecline matchId side now) := by
  refine onDecline_relates (Follows.refl Moved.refl) ?_ matchId side
  intro store m stored proposed initiator participant
  have step : MatchStep m (cancelledMatch m now) := .cancels now (.inl proposed)
  exact Writes.follows Moved.refl (cancel_writes m now initiator participant store) stored
    step.id_eq (.inr step)

theorem setSecretHash_untouched (offerId : String) (hash : Fixed 32) :
    Relates Untouched (setSecretHash offerId hash) := by
  refine Relates.get_bind fun store => ?_
  cases store.offer offerId with
  | none => exact Untouched.refl store
  | some offer => exact putOffer_untouched _ store

theorem rekey_follows (stored : store.getMatch m.id = some m)
    (offerId : String) (secret : String × Fixed 32) :
    wp (rekey m offerId secret) (fun _ => Follows Rekeyed store) (fun _ => Follows Rekeyed store)
      store := by
  have written : Writes (m.setSecret (roleOf m offerId) secret.2) store
      (store.saveMatch (m.setSecret (roleOf m offerId) secret.2)) := ⟨rfl, rfl⟩
  have follows : ∀ after, Untouched (store.saveMatch (m.setSecret (roleOf m offerId) secret.2))
      after → Follows Rekeyed store after := fun after same =>
    (written.untouched same).follows Rekeyed.refl stored (setSecret_id _ _ _)
      (rekeyed_setSecret m _ _)
  unfold rekey
  rw [wp_bind, wp_putMatch]
  exact wp_seq (relates_iff_wp.mp (setSecretHash_untouched offerId secret.2) _)
    (fun _ after same => follows after same) (fun _ after same => follows after same)

theorem recoverTags_relates (refl : ∀ store, rel store store) (transitive : Composes rel)
    (rekeys : ∀ {store : Store} {m : Match}, store.getMatch m.id = some m → ∀ offerId secret,
      wp (rekey m offerId secret) (fun _ => rel store) (fun _ => rel store) store)
    (tagHash : String → String) (claim : Bool) (tags : List String)
    (secrets : List (String × Fixed 32)) :
      Relates rel (recoverTags tagHash claim tags secrets) := by
  induction tags generalizing secrets with
  | nil => exact refl
  | cons tag rest ih =>
    have next : ∀ (entry : Recovered) (left : List (String × Fixed 32)),
        Relates rel (do return entry :: (← recoverTags tagHash claim rest left)) :=
      fun entry left => Relates.bind transitive (ih left) fun _ => Relates.pure refl _
    refine Relates.get_bind fun store => ?_
    split
    · exact ih secrets store
    split
    · exact next _ secrets store
    split
    · exact next _ secrets store
    next m chosen =>
    split
    · cases secrets with
      | nil => exact refl store
      | cons secret left =>
      have stored : store.getMatch m.id = some m := by
        obtain ⟨id, _, found⟩ := bind_eq_some_iff.mp chosen
        exact getMatch_self found
      refine finalState_iff_wp.mpr ?_
      refine wp_seq (rekeys stored _ secret) (fun _ middle rekeyed => ?_)
        (fun _ _ rekeyed => rekeyed)
      have rest' := fun entry => relates_iff_wp.mp (next entry left) middle
      exact wp_mono (rest' _) (fun _ _ later => transitive rekeyed later)
        (fun _ _ later => transitive rekeyed later)
    · exact next _ secrets store

theorem recoverTags_follows (tagHash : String → String) (claim : Bool) (tags : List String)
    (secrets : List (String × Fixed 32)) :
    Relates (Follows Rekeyed) (recoverTags tagHash claim tags secrets) :=
  recoverTags_relates (Follows.refl Rekeyed.refl) (Follows.trans Rekeyed.trans) rekey_follows
    tagHash claim tags secrets

theorem run_follows (env : EdgeEnv) (op : LockedOp) : Relates (Follows Moved) (op.run env) := by
  have book : ∀ {op : LockedOp}, op.ofBook = true → Relates (Follows Moved) (op.run env) :=
    fun ofBook => (follows_book.run env ofBook).mono
      (Follows.mono fun _ _ same => same ▸ Moved.refl _)
  have stepped : ∀ {op : LockedOp}, op.ofMatch = true → Relates (Follows Moved) (op.run env) :=
    fun ofMatch => (LockedOp.decides env ofMatch).relates.mono fun _ _ decides =>
      decides.step.follows
  cases op with
  | decline matchId side now => exact onDecline_follows matchId side now
  | tick now => exact tick_follows now
  | reinstate id txid =>
    exact relates_ignore_iff.mpr ((reinstateSection_step id txid).relates.mono SectionStep.follows)
  | recover tags claim secrets =>
    exact relates_ignore_iff.mpr ((recoverTags_follows env.tagHash claim tags secrets).mono
      (Follows.mono fun _ _ rekeyed => .inl rekeyed))
  | _ => first | exact book rfl | exact stepped rfl

theorem purgeStrikes_completes (refl : ∀ store, rel store store) (transitive : Composes rel)
    (drops : ∀ store token, rel store { store with cfStrikes := store.cfStrikes.delete token })
    (now : Nat) : Completes rel (purgeStrikes now) := by
  refine Completes.modify fun store => ?_
  generalize store.cfStrikes.rows.filter (fun row => !(row.2.any (inWindow · now))) = rows
  induction rows generalizing store with
  | nil => exact refl store
  | cons row rest ih => exact transitive (drops store row.1) (ih _)

theorem purgeStrikes_frame (now : Nat) : Completes Frame (purgeStrikes now) :=
  purgeStrikes_completes Frame.refl Frame.trans (fun _ _ => ⟨rfl, rfl, rfl, rfl⟩) now

theorem kept_follows (sw : Swap) : Kept sw (Follows Moved) where
  refl := Follows.refl Moved.refl
  locked := run_follows sw.env
  relays _ _ _ := fun _ => Untouched.follows Moved.refl ⟨rfl, rfl⟩
  watches _ := fun _ => Untouched.follows Moved.refl ⟨rfl, rfl⟩
  dropsMsg _ _ := Untouched.follows Moved.refl ⟨rfl, rfl⟩
  dropsWatch _ _ := Untouched.follows Moved.refl ⟨rfl, rfl⟩
  dropsMatch store key := by
    refine Follows.of_each rfl fun {id now} held => ⟨now, ?_, Moved.refl now⟩
    rw [getMatch, get?_delete] at held
    split at held
    · cases held
    · exact held
  dropsOffer _ _ := Untouched.follows Moved.refl ⟨rfl, rfl⟩
  dropsStrikes now := (purgeStrikes_frame now).relates.mono fun _ _ frame =>
    frame.untouched.follows Moved.refl

variable {ids : List String}

theorem fresh_opened (nodup : ids.Nodup) : Fresh (Store.opened ids) :=
  ⟨nodup, nofun⟩

theorem Follows.of_run {last : Store} (run : ReflTransGen (Follows Moved) first last) :
    Follows (ReflTransGen Moved) first last := by
  have transitive : ∀ ⦃first second third⦄, ReflTransGen Moved first second →
      ReflTransGen Moved second third → ReflTransGen Moved first third :=
    fun _ _ _ early late => early.trans late
  induction run with
  | refl => exact Follows.refl (fun _ => .refl) first
  | tail _ step ih => exact Follows.trans transitive ih (Follows.mono (fun _ _ => .single) step)

/-- Between any two moments of a run every match follows its own record. -/
theorem follows_between (sw : Swap) (ids : List String) (moves later : EdgeRun) :
    Follows (ReflTransGen Moved) (storeAfter sw ids moves) (storeAfter sw ids (moves ++ later)) :=
  Follows.of_run (Pool.related_between (Follows.refl Moved.refl) (keeps_serve (kept_follows sw))
    (opened ids) moves later)

theorem follows_step (sw : Swap) (ids : List String) (moves : EdgeRun)
    (step : Move Request Outside) :
    Follows Moved (storeAfter sw ids moves) (storeAfter sw ids (moves ++ [step])) :=
  Pool.related_last (Follows.refl Moved.refl) (keeps_serve (kept_follows sw))
    (opened ids) moves step

theorem fresh_storeAfter (sw : Swap) (nodup : ids.Nodup)
    (moves : EdgeRun) : Fresh (storeAfter sw ids moves) :=
  (follows_between sw ids [] moves (fresh_opened nodup)).1

/-- Every match of a run was made by a fill and moved from there. -/
theorem made_storeAfter (sw : Swap) (nodup : ids.Nodup) (moves : EdgeRun)
    (stored : (storeAfter sw ids moves).getMatch id = some m) :
    ∃ made, Made made ∧ ReflTransGen Moved made m := by
  rcases (follows_between sw ids [] moves (fresh_opened nodup)).2.2 stored with
    ⟨_, never, _⟩ | ⟨_, made, isMade, moved⟩
  · exact nomatch never
  · exact ⟨made, isMade, moved⟩

theorem Follows.moved {rel : Match → Match → Prop}
    (follows : Follows rel before after) (fresh : Fresh before)
    (stored : before.getMatch id = some m) (held : after.getMatch id = some now) : rel m now := by
  rcases (follows fresh).2.2 held with ⟨origin, own, moved⟩ | ⟨drawn, _⟩
  · rw [stored] at own
    cases own
    exact moved
  · exact absurd drawn (fresh.drawn stored)

end Fortis.Edge
