import Fortis.Edge.FillFailure

/-!
# What a purge keeps

A purge deletes old finished matches with their messages and watch jobs, then offers no match left
names, then strikes out of their window.  Here it runs by itself, on any store and at any clock.
Tags are never deleted, so a tag stays with the offer that first claimed it.
-/

namespace Fortis.Edge

open Lib List Table Store Proc

def Store.purged (store : Store) (now : Nat) : Store :=
  ((purge now).alone ⟨now, none, false⟩ store).2

def Store.msgsOf (store : Store) (matchId : String) : List RelayedMsg :=
  store.cfMsgs.rows.filter (·.matchId = matchId)

def Store.jobsOf (store : Store) (matchId : String) : List WatchJob :=
  store.cfWatch.rows.filter (·.matchId = matchId)

structure Purgeable (store : Store) (now : Nat) (m : Match) : Prop where
  finished : m.status = .closed ∨ m.status = .cancelled
  longAgo : ∃ time, m.closedAt = some time ∧ 7 * 24 * 3600 < now - time
  worked : ∀ job ∈ store.watchJobs, job.matchId = m.id → job.done = true

/-! ## One match -/

structure Leaves (id : String) (before after : Store) : Prop where
  msgs : ∀ other, other ≠ id → after.msgsOf other = before.msgsOf other
  jobs : ∀ other, other ≠ id → after.jobsOf other = before.jobsOf other
  found : ∀ other, other ≠ id → after.getMatch other = before.getMatch other
  offers : after.cfOffers = before.cfOffers
  tags : after.cfTags = before.cfTags

variable {id : String}

theorem Leaves.refl (store : Store) : Leaves id store store :=
  ⟨fun _ _ => rfl, fun _ _ => rfl, fun _ _ => rfl, rfl, rfl⟩

theorem Leaves.trans ⦃first second third : Store⦄ (early : Leaves id first second)
    (late : Leaves id second third) : Leaves id first third where
  msgs other different := (late.msgs other different).trans (early.msgs other different)
  jobs other different := (late.jobs other different).trans (early.jobs other different)
  found other different := (late.found other different).trans (early.found other different)
  offers := late.offers.trans early.offers
  tags := late.tags.trans early.tags

variable {α : Type}

theorem filter_delete {κ : Type} [LinearOrder κ] {key : α → κ} (table : Table κ α key) {k : κ}
    {kind : α → Bool} (apart : ∀ row, kind row = true → key row ≠ k) :
    (table.delete k).rows.filter kind = table.rows.filter kind := by
  unfold delete
  rw [filter_filter]
  refine filter_congr fun row _ => ?_
  cases is : kind row with
  | false => rfl
  | true => simp [apart row is]

theorem leaves_dropMsg (store : Store) {msg : RelayedMsg} (own : msg.matchId = id) : Leaves id store
      { store with cfMsgs := store.cfMsgs.delete (toLex (msg.matchId, msg.seq)) } where
  msgs other different := by
    refine filter_delete store.cfMsgs fun row named same => different ?_
    have equal := congrArg (fun key => (ofLex key).1) same
    exact (of_decide_eq_true named).symm.trans (equal.trans own)
  jobs _ _ := rfl
  found _ _ := rfl
  offers := rfl
  tags := rfl

theorem leaves_dropJob (store : Store) {job : WatchJob} (own : job.matchId = id) : Leaves id store
      { store with
        cfWatch := store.cfWatch.delete
          (toLex (job.matchId, toLex (job.chain.asStr, job.kind.keyTag))) } where
  msgs _ _ := rfl
  jobs other different := by
    refine filter_delete store.cfWatch fun row named same => different ?_
    have equal := congrArg (fun key => (ofLex key).1) same
    exact (of_decide_eq_true named).symm.trans (equal.trans own)
  found _ _ := rfl
  offers := rfl
  tags := rfl

theorem leaves_dropMatch (store : Store) (id : String) :
    Leaves id store { store with cfMatches := store.cfMatches.delete id } where
  msgs _ _ := rfl
  jobs _ _ := rfl
  found other different := by
    unfold getMatch
    rw [get?_delete, if_neg different]
  offers := rfl
  tags := rfl

theorem keeps_lookEach {rel : Store → Store → Prop} (refl : ∀ store, rel store store)
    {read : Store → List α} {body : α → EdgeProc Unit} {rest : EdgeProc Unit}
    (kept : ∀ store, ∀ item ∈ read store, (body item).Keeps rel) (later : rest.Keeps rel) :
    Proc.Keeps rel (do
      let items ← Proc.look fun store _ => read store
      Proc.each body items
      rest) := by
  have each : ∀ items : List α, (∀ item ∈ items, (body item).Keeps rel) →
      (each body items).Keeps rel := by
    intro items
    induction items with
    | nil => exact fun _ => trivial
    | cons first left ih =>
      intro kept
      refine keeps_bind (kept first mem_cons_self) fun _ => ?_
      exact ih fun item mem => kept item (mem_cons_of_mem first mem)
  have worked : ∀ store, Proc.Keeps rel (do
      Proc.each body (read store)
      rest) := fun store => Proc.keeps_bind (each _ (kept store)) fun _ => later
  exact fun store _ => ⟨refl store, worked store⟩

theorem leaves_purgeMatch (now : Nat) (pending : List String) (m : Match) :
    (purgeMatch now pending m).Keeps (Leaves m.id) := by
  unfold purgeMatch
  split
  · refine keeps_lookEach Leaves.refl (fun store msg mem => ?_) ?_
    · have own : msg.matchId = m.id := (of_decide_eq_true (mem_filter.mp mem).2).1
      exact keeps_drop Leaves.refl fun store => leaves_dropMsg store own
    refine keeps_lookEach Leaves.refl (fun store job mem => ?_) ?_
    · have own : job.matchId = m.id := of_decide_eq_true (mem_filter.mp mem).2
      exact keeps_drop Leaves.refl fun store => leaves_dropJob store own
    · exact keeps_drop Leaves.refl fun store => leaves_dropMatch store m.id
  · trivial

/-! ## All matches -/

def Gone (now : Nat) (pending : List String) (m : Match) : Prop :=
  terminal m.status ∧ m.closedAt.any (old now) ∧ m.id ∉ pending

/-- Only matches that may go are gone, and those that stay have their messages and jobs. -/
structure Cleared (gone : Match → Prop) (before after : Store) : Prop where
  found : ∀ id, after.getMatch id = before.getMatch id ∨
    after.getMatch id = none ∧ ∃ m, before.getMatch id = some m ∧ gone m
  msgs : ∀ id, after.getMatch id ≠ none → after.msgsOf id = before.msgsOf id
  jobs : ∀ id, after.getMatch id ≠ none → after.jobsOf id = before.jobsOf id
  offers : after.cfOffers = before.cfOffers
  tags : after.cfTags = before.cfTags

variable {gone : Match → Prop}

theorem Cleared.refl (store : Store) : Cleared gone store store :=
  ⟨fun _ => .inl rfl, fun _ _ => rfl, fun _ _ => rfl, rfl, rfl⟩

theorem Cleared.stays {before after : Store}
    (cleared : Cleared gone before after) (here : after.getMatch id ≠ none) :
    after.getMatch id = before.getMatch id := by
  rcases cleared.found id with same | ⟨missing, _⟩
  · exact same
  · exact absurd missing here

theorem Cleared.trans {first second third : Store}
    (early : Cleared gone first second) (late : Cleared gone second third) :
    Cleared gone first third where
  found id := by
    rcases late.found id with same | ⟨missing, m, stored, may⟩
    · rw [same]
      exact early.found id
    have here : second.getMatch id ≠ none := by simp [stored]
    exact .inr ⟨missing, m, early.stays here ▸ stored, may⟩
  msgs id here :=
    (late.msgs id here).trans (early.msgs id (late.stays here ▸ here))
  jobs id here :=
    (late.jobs id here).trans (early.jobs id (late.stays here ▸ here))
  offers := late.offers.trans early.offers
  tags := late.tags.trans early.tags

variable {m : Match} {offer : Offer} {store : Store}

section Alone

variable {now : Nat} {pending : List String} {outside : Outside}

section

variable (quiet : outside.overtaken = false)
include quiet

theorem getMatch_purgeMatch (gone : Gone now pending m) (store : Store) :
    ((purgeMatch now pending m).alone outside store).2.getMatch m.id = none := by
  have deleted : ∀ store : Store,
      ((drop fun store => { store with cfMatches := store.cfMatches.delete m.id }).alone
        outside store).2.getMatch m.id = none := by
    intro store
    simp only [drop, alone, quiet, Bool.false_eq_true, if_false, getMatch]
    rw [get?_delete, if_pos rfl]
  unfold Gone at gone
  unfold purgeMatch
  rw [if_pos gone]
  simp only [alone_bind]
  exact deleted _

theorem cleared_purgeMatch (stored : store.getMatch m.id = some m) :
    Cleared (Gone now pending) store ((purgeMatch now pending m).alone outside store).2 := by
  have leaves := related_alone Leaves.refl Leaves.trans (leaves_purgeMatch now pending m)
    outside store
  by_cases gone : Gone now pending m
  · have missing := getMatch_purgeMatch quiet gone store
    generalize ((purgeMatch now pending m).alone outside store).2 = after at leaves missing
    have apart : ∀ {id}, after.getMatch id ≠ none → id ≠ m.id := by
      rintro id here rfl
      exact here missing
    refine ⟨fun id => ?_, fun id here => leaves.msgs id (apart here),
      fun id here => leaves.jobs id (apart here), leaves.offers, leaves.tags⟩
    by_cases own : id = m.id
    · subst own
      exact .inr ⟨missing, m, stored, gone⟩
    · exact .inl (leaves.found id own)
  unfold Gone at gone
  unfold purgeMatch
  rw [if_neg gone]
  exact Cleared.refl store

theorem cleared_purgeMatches {found : List Match}
    (nodup : (found.map Match.id).Nodup) (stored : ∀ m ∈ found, store.getMatch m.id = some m) :
    Cleared (Gone now pending) store
      ((Proc.each (purgeMatch now pending) found).alone outside store).2 := by
  induction found generalizing store with
  | nil => exact Cleared.refl store
  | cons m rest ih =>
    rw [map_cons, nodup_cons] at nodup
    have here : Cleared (Gone now pending) store
      ((purgeMatch now pending m).alone outside store).2 :=
      cleared_purgeMatch quiet (stored m mem_cons_self)
    have leaves := related_alone Leaves.refl Leaves.trans (leaves_purgeMatch now pending m)
      outside store
    have still : ∀ other ∈ rest,
        ((purgeMatch now pending m).alone outside store).2.getMatch other.id = some other := by
      intro other mem
      have ne : other.id ≠ m.id := fun same =>
        nodup.1 (same ▸ mem_map_of_mem mem)
      rw [leaves.found other.id ne]
      exact stored other (mem_cons_of_mem m mem)
    rw [alone_each_cons]
    exact here.trans (ih nodup.2 still)

end

structure Swept (named : List String) (before after : Store) : Prop where
  offers : ∀ id, after.offer id = before.offer id ∨
    after.offer id = none ∧ ∃ offer, before.offer id = some offer ∧ offer.status ≠ .opened ∧
      id ∉ named
  found : after.cfMatches = before.cfMatches
  msgs : after.cfMsgs = before.cfMsgs
  jobs : after.cfWatch = before.cfWatch
  tags : after.cfTags = before.cfTags

variable {named : List String}

theorem Swept.refl (store : Store) : Swept named store store :=
  ⟨fun _ => .inl rfl, rfl, rfl, rfl, rfl⟩

theorem Swept.trans ⦃first second third : Store⦄
    (early : Swept named first second) (late : Swept named second third) :
    Swept named first third where
  offers id := by
    rcases late.offers id with same | ⟨missing, offer, stored, may⟩
    · rw [same]
      exact early.offers id
    rcases early.offers id with same | ⟨already, _⟩
    · exact .inr ⟨missing, offer, same ▸ stored, may⟩
    rw [already] at stored
    cases stored
  found := late.found.trans early.found
  msgs := late.msgs.trans early.msgs
  jobs := late.jobs.trans early.jobs
  tags := late.tags.trans early.tags

theorem not_opened_of_offerDone (done : offerDone store offer = true) : offer.status ≠ .opened := by
  intro opened
  unfold offerDone at done
  rw [opened] at done
  cases done

theorem purgeOffer_alone (now : Nat) (outside : Outside) (named : List String) (offer : Offer)
    (store : Store) : ((purgeOffer now named offer).alone outside store).2 = store ∨
      offer.id ∉ named ∧ offer.status ≠ .opened ∧
        ((purgeOffer now named offer).alone outside store).2 =
          { store with cfOffers := store.cfOffers.delete offer.id } := by
  unfold purgeOffer
  split
  · exact .inl rfl
  next unnamed =>
  rw [alone_bind, alone_look]
  split
  next may =>
    have closed := not_opened_of_offerDone may.1
    cases overtaken : outside.overtaken with
    | true =>
      simp only [drop, alone, overtaken, if_true]
      exact .inl trivial
    | false =>
      simp only [drop, alone, overtaken, Bool.false_eq_true, if_false]
      exact .inr ⟨unnamed, closed, trivial⟩
  · exact .inl rfl

theorem offer_delete (store : Store) (gone id : String) :
    ({ store with cfOffers := store.cfOffers.delete gone } : Store).offer id =
      if id = gone then none else store.offer id := get?_delete _ _ _

theorem swept_purgeOffers {offers : List Offer} (nodup : (offers.map Offer.id).Nodup)
    (stored : ∀ offer ∈ offers, store.offer offer.id = some offer) :
    Swept named store ((Proc.each (purgeOffer now named) offers).alone outside store).2 := by
  induction offers generalizing store with
  | nil => exact Swept.refl store
  | cons offer rest ih =>
    rw [map_cons, nodup_cons] at nodup
    have later : ∀ other ∈ rest, store.offer other.id = some other :=
      fun other mem => stored other (mem_cons_of_mem offer mem)
    rw [alone_each_cons]
    rcases purgeOffer_alone now outside named offer store with
      same | ⟨unnamed, closed, deleted⟩
    · rw [same]
      exact ih nodup.2 later
    rw [deleted]
    have here : Swept named store { store with cfOffers := store.cfOffers.delete offer.id } := by
      refine ⟨fun id => ?_, rfl, rfl, rfl, rfl⟩
      rw [offer_delete]
      split
      next own =>
        subst own
        exact .inr ⟨rfl, offer, stored offer mem_cons_self, closed, unnamed⟩
      · exact .inl rfl
    refine here.trans (ih nodup.2 fun other mem => ?_)
    have ne : other.id ≠ offer.id := fun same =>
      nodup.1 (same ▸ mem_map_of_mem mem)
    rw [offer_delete, if_neg ne]
    exact later other mem

end Alone

def Store.pending (store : Store) : List String :=
  (store.watchJobs.filter fun job => !job.done).map WatchJob.matchId

def Store.named (store : Store) : List String :=
  store.allMatches.flatMap fun m => [m.initiatorOffer, m.participantOffer]

/-- The matches first, then the offers that no match left names, then the strikes. -/
theorem purged_steps (store : Store) (now : Nat) :
    ∃ middle, Cleared (Gone now store.pending) store middle ∧
      Swept middle.named middle (store.purged now) := by
  let outside : Outside := ⟨now, none, false⟩
  let middle := ((each (purgeMatch now store.pending) store.allMatches).alone outside store).2
  let later := ((each (purgeOffer now middle.named) middle.allOffers).alone outside middle).2
  have cleared : Cleared (Gone now store.pending) store middle :=
    cleared_purgeMatches rfl store.cfMatches.keys_nodup fun m mem => get?_of_mem mem
  have swept : Swept middle.named middle later :=
    swept_purgeOffers middle.cfOffers.keys_nodup fun offer mem => get?_of_mem mem
  have struck : Swept middle.named later (finalState (purgeStrikes now) later) :=
    (purgeStrikes_completes Swept.refl Swept.trans
      (fun _ _ => ⟨fun _ => .inl rfl, rfl, rfl, rfl, rfl⟩) now).relates later
  refine ⟨middle, cleared, ?_⟩
  have whole : store.purged now = finalState (purgeStrikes now) later := by
    unfold purged purge
    simp only [alone_bind, alone_look]
    rw [← alone_atomically outside fun _ => purgeStrikes now]
    rfl
  rw [whole]
  exact swept.trans struck

theorem purgeable_of_gone {now : Nat} (gone : Gone now store.pending m) :
    Purgeable store now m where
  finished := by
    have finished := of_decide_eq_true gone.1
    exact finished.symm
  longAgo := by
    have long := gone.2.1
    rcases is : m.closedAt with _ | time
    · simp [is] at long
    rw [is] at long
    exact ⟨time, rfl, of_decide_eq_true long⟩
  worked job mem own := by
    by_contra unfinished
    refine gone.2.2 (mem_map.mpr ⟨job, mem_filter.mpr ⟨mem, ?_⟩, own⟩)
    simpa using unfinished

def TagHeldBy (tag owner : String) (store : Store) : Prop :=
  store.cfTags.get? tag = some (tag, owner)

theorem tagHeldLaw (tag owner : String) : OfferLaw (TagHeldBy tag owner) fun _ => True where
  elsewhere {before after} same held := by
    unfold TagHeldBy
    rw [same.tags]
    exact held
  saves held _ _ := claimTag_of_held held
  stored _ _ := trivial
  same _ _ := trivial

/-- A tag stays with the offer it was claimed for, whatever the edge does later. -/
theorem tag_stays (sw : Swap) (tagged : Tagged store) {tag owner : String}
    (held : TagHeldBy tag owner store) (later : EdgeRun)
    (stored : (Pool.sharedAfter (serve sw) store later).offer id = some offer)
    (own : offer.recoveryTag = some tag) : offer.id = owner := by
  have still := Pool.invariant_run
    (keeps_serve ((tagHeldLaw tag owner).kept sw fun _ _ held => held)) held later
  have tagged := Pool.invariant_run (keeps_serve (kept_tagged sw)) tagged later
  have mine := tagged stored tag own
  rw [TagHeldBy, mine] at still
  exact (Prod.mk.inj (Option.some.inj still)).2

/-- A match goes only if it is finished, long ago and with all its jobs done; an offer only if it is
not open and no match that stays names it; and a tag is never another offer's later. -/
theorem purge_keeps_needed (sw : Swap) (store : Store) (now : Nat) :
    (∀ id, (store.purged now).getMatch id = store.getMatch id ∨
      (store.purged now).getMatch id = none ∧
        ∃ m, store.getMatch id = some m ∧ Purgeable store now m) ∧
    (∀ id, (store.purged now).offer id = store.offer id ∨ (store.purged now).offer id = none ∧
        ∃ offer, store.offer id = some offer ∧ offer.status ≠ .opened ∧
          ∀ m ∈ (store.purged now).allMatches, m.initiatorOffer ≠ id ∧ m.participantOffer ≠ id) ∧
    (∀ m ∈ (store.purged now).allMatches, (store.purged now).msgsOf m.id = store.msgsOf m.id ∧
        (store.purged now).jobsOf m.id = store.jobsOf m.id) ∧
    (Tagged store → ∀ id offer tag, store.offer id = some offer →
      offer.recoveryTag = some tag → ∀ (later : EdgeRun) (other : Offer) (key : String),
        (Pool.sharedAfter (serve sw) (store.purged now) later).offer key = some other →
          other.recoveryTag = some tag → other.id = id) := by
  obtain ⟨middle, cleared, swept⟩ := purged_steps store now
  have sameMatch : ∀ id, (store.purged now).getMatch id = middle.getMatch id := by
    intro id
    unfold getMatch
    rw [swept.found]
  refine ⟨fun id => ?_, fun id => ?_, fun m mem => ?_, fun tagged id offer tag stored own => ?_⟩
  · rw [sameMatch]
    rcases cleared.found id with same | ⟨missing, m, stored, gone⟩
    · exact .inl same
    · exact .inr ⟨missing, m, stored, purgeable_of_gone gone⟩
  · have sameOffer : middle.offer id = store.offer id := by
      unfold offer
      rw [cleared.offers]
    rw [← sameOffer]
    rcases swept.offers id with same | ⟨missing, offer, stored, closed, unnamed⟩
    · exact .inl same
    refine .inr ⟨missing, offer, stored, closed, fun m mem => ?_⟩
    unfold allMatches at mem
    rw [swept.found] at mem
    have named : ∀ offerId ∈ [m.initiatorOffer, m.participantOffer], offerId ∈ middle.named :=
      fun offerId among => mem_flatMap.mpr ⟨m, mem, among⟩
    constructor
    · rintro rfl
      exact unnamed (named _ mem_cons_self)
    rintro rfl
    exact unnamed (named _ (mem_cons_of_mem _ mem_cons_self))
  · have here : middle.getMatch m.id ≠ none := by
      rw [← sameMatch, getMatch, get?_of_mem mem]
      exact Option.some_ne_none m
    constructor
    · rw [← cleared.msgs m.id here]
      unfold msgsOf
      rw [swept.msgs]
    rw [← cleared.jobs m.id here]
    unfold jobsOf
    rw [swept.jobs]
  intro later other key found same
  have tags : (store.purged now).cfTags = store.cfTags := swept.tags.trans cleared.tags
  have tagged' : Tagged (store.purged now) := by
    intro key offer found tag own
    rw [tags]
    rcases swept.offers key with same | ⟨missing, _⟩
    · rw [same, Store.offer, cleared.offers] at found
      exact tagged found tag own
    rw [missing] at found
    cases found
  have held : TagHeldBy tag id (store.purged now) := by
    unfold TagHeldBy
    rw [tags, tagged stored tag own, id_of_offer stored]
  exact tag_stays sw tagged' held later found same

end Fortis.Edge
