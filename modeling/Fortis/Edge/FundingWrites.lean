import Fortis.Edge.Lifecycle

/-!
# Which operations record a funding

`Grants` says of two stores that every funding of a match in the later one was recorded for that
match in the earlier one, or is one of those granted.  Only the section of a `funded` message and
that of a refund's watch grant one.
-/

namespace Fortis.Edge

open Fortis.Core Lib Store

def Grants (granted : String → Chain → Outpoint → Prop) (before after : Store) : Prop :=
  ∀ ⦃id now chain outpoint⦄, after.getMatch id = some now → now.funding chain = some outpoint →
    (∃ m, before.getMatch id = some m ∧ m.funding chain = some outpoint) ∨ granted id chain outpoint

def nothing : String → Chain → Outpoint → Prop := fun _ _ _ => False

section Grants

variable {granted : String → Chain → Outpoint → Prop}

theorem Grants.refl (store : Store) : Grants granted store store :=
  fun _ now _ _ held funded => .inl ⟨now, held, funded⟩

theorem Grants.untouched {first second third : Store} (grants : Grants granted first second)
    (same : Untouched second third) : Grants granted first third := by
  intro id now chain outpoint held funded
  rw [getMatch, same.found] at held
  exact grants held funded

variable {m : Match}

theorem Grants.saveMatch {before store : Store} (grants : Grants granted before store)
    (may : ∀ ⦃chain outpoint⦄, m.funding chain = some outpoint →
      (∃ old, before.getMatch m.id = some old ∧ old.funding chain = some outpoint) ∨
        granted m.id chain outpoint) : Grants granted before (store.saveMatch m) := by
  intro id now chain outpoint held
  exact Table.forall_put (@may chain outpoint) (fun old => grants old) held

theorem Follows.grants {rel : Match → Match → Prop} {before after : Store}
    (same : ∀ ⦃m now⦄, rel m now → ∀ chain, now.funding chain = m.funding chain)
    (follows : Follows rel before after) (fresh : Fresh before) : Grants granted before after := by
  intro id now chain outpoint held funded
  rcases (follows fresh).2.2 held with
    ⟨m, stored, moved⟩ | ⟨_, made, ⟨mid, terms, init, part, rfl⟩, moved⟩
  · exact .inl ⟨m, stored, (same moved chain).symm.trans funded⟩
  rw [same moved chain] at funded
  cases chain <;> cases funded

/-- A section grants what its decision adds to the match it reads. -/
theorem Decides.grants ⦃before after : Store⦄ (decides : Decides granted before after) :
    Grants granted before after := by
  cases decides with
  | idle => exact Grants.refl before
  | writes m changed stored decided relays =>
    obtain ⟨_, rfl⟩ := relays
    have written : Grants granted before (before.saveMatch changed) := by
      refine (Grants.refl before).saveMatch fun chain outpoint funded => ?_
      rw [decided.step.id_eq]
      exact (decided.funded funded).imp_left fun had => ⟨m, stored, had⟩
    exact written.untouched ⟨rfl, rfl⟩

theorem reinstateSection_grants (id txid : String) :
    Relates (Grants granted) (reinstateSection id txid) := by
  refine relates_iff_wp.mpr fun store => ?_
  unfold reinstateSection
  rw [wp_bind, wp_get]
  rcases found : store.getMatch id with _ | m
  · exact Grants.refl store
  have stored := getMatch_self found
  dsimp only
  split
  · cases m.closedAt with
    | none =>
      exact (Grants.refl store).saveMatch fun _ _ funded => .inl ⟨m, stored, funded⟩
    | some struckAt =>
    dsimp only
    refine wp_seq (removeStrike_frame m.participantToken struckAt store)
      (fun _ after frame => ?_) nofun
    exact ((Grants.refl store).untouched frame.untouched).saveMatch
      fun _ _ funded => .inl ⟨m, stored, funded⟩
  · exact Grants.refl store

theorem cancel_grants {start : Store} (told : Match)
    (stored : start.getMatch m.id = some m) (same : told.id = m.id)
    (fundings : ∀ chain, told.funding chain = m.funding chain) (now : Nat)
    (initiator participant : Release) :
    Preserves (Grants granted start) (cancel told now initiator participant) := by
  refine (cancel_writes told now initiator participant).mono fun before after writes grants => ?_
  intro id found chain outpoint held funded
  rw [writes.getMatch] at held
  split at held
  next own =>
    cases held
    refine .inl ⟨m, ?_, (fundings chain).symm.trans funded⟩
    rw [own]
    exact same ▸ stored
  · exact grants held funded

theorem tickMatch_grants {start : Store} (stored : start.getMatch m.id = some m)
    (now : Nat) : Preserves (Grants granted start) (tickMatch m now) :=
  tickMatch_preserves (fun token => ((addStrike_untouched token now).mono fun _ _ same grants =>
    grants.untouched same)) fun missed =>
    cancel_grants { m with missedParticipantDeadline := missed } stored rfl (fun _ => rfl) now

theorem tick_grants (now : Nat) : Relates (Grants granted) (tick now) := by
  refine Relates.get_bind fun store => ?_
  have matches' : Preserves (Grants granted store) (do
      forEach (fun m => logged (tickMatch m now)) store.allMatches
      forEach (expireOffer now) (← get).allOffers) := by
    refine Preserves.bind (Preserves.forEach fun m mem => ?_) fun _ => ?_
    · exact relates_logged (tickMatch_grants (Table.get?_of_mem mem) now)
    refine Preserves.read fun later _ => Preserves.forEach fun offer _ => ?_
    exact (expireOffer_untouched now offer).mono fun _ _ same grants => grants.untouched same
  exact matches' store (Grants.refl store)

theorem onDecline_grants (matchId : String) (side : SwapRole) (now : Nat) :
    Relates (Grants granted) (onDecline matchId side now) := by
  refine onDecline_relates Grants.refl ?_ matchId side
  intro store m stored _ initiator participant
  exact cancel_grants m stored rfl (fun _ => rfl) now initiator participant store
    (Grants.refl store)

end Grants

theorem LockedOp.grants (env : EdgeEnv) {op : LockedOp} (quiet : op.records = false)
    {store : Store} (fresh : Fresh store) :
      Grants nothing store (finalState (op.run env) store) := by
  have filled : op.ofBook = true → Grants nothing store (finalState (op.run env) store) :=
    fun ofBook => (follows_book.run env ofBook store).grants
      (fun m now same chain => by rw [same]) fresh
  have done : Relates (Grants nothing) (op.run env) →
      Grants nothing store (finalState (op.run env) store) := fun grants => grants store
  have ignore : ∀ {α : Type} {rel : Store → Store → Prop} {prog : StoreM α}, Relates rel prog →
      Relates rel (do let _ ← prog : StoreM Unit) := relates_ignore_iff.mpr
  cases op with
  | decline matchId side now => exact done (onDecline_grants matchId side now)
  | tick now => exact done (tick_grants now)
  | funded id role outpoint => cases quiet
  | record id chain want => cases quiet
  | reinstate id txid => exact done (ignore (reinstateSection_grants id txid))
  | recover tags claim secrets =>
    have follows := ignore (recoverTags_follows env.tagHash claim tags secrets)
    refine (follows store).grants (fun m now rekeyed chain => ?_) fresh
    obtain ⟨_, _, rfl⟩ := rekeyed
    rfl
  | _ =>
    first
    | exact filled rfl
    | exact ((LockedOp.decides env rfl).relates store).grants

end Fortis.Edge
