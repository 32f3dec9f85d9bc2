import Fortis.Edge.Locked

/-!
# What one write does to a match

`MatchStep` lists every change a section under the matching lock makes to a stored match, each with
the condition the section checks on the record it read under the lock.  Later results about matches
split on this relation and never unfold a section.
-/

namespace Fortis.Edge

open Fortis.Core Lib

inductive MatchStep (m : Match) : Match → Prop
  | accepts (accepted : Bool × Bool) (open' : m.status = .proposed) : MatchStep m { m with
        accepted := accepted
        status := if accepted = (true, true) then .accepted else m.status }
  | keys (role : SwapRole) (keys : KeysHex) (live : terminal m.status = false)
      (unset : sideOf role m.keys = none) :
      MatchStep m { m with keys := setSide role m.keys (some keys) }
  | hashlock (hash : String) (live : terminal m.status = false) (unset : m.hashlock = none) :
      MatchStep m { m with hashlock := some hash }
  | requests (txs : List String) (finished : releasable m = true) (unset : m.releaseTxs = none) :
      MatchStep m { m with releaseTxs := some txs }
  | releases (sigs : List String) (finished : releasable m = true) (unset : m.releaseSigs = none) :
      MatchStep m { m with releaseSigs := some sigs }
  | funds (role : SwapRole) (outpoint : Outpoint) (turn : m.status = fundedNeeds role)
      (slot : m.funding role.sendChain = none ∨ m.funding role.sendChain = some outpoint) :
      MatchStep m { m.setFunding role.sendChain outpoint with status := fundedNext role }
  | records (chain : Chain) (outpoint : Outpoint) (unset : m.funding chain = none) :
      MatchStep m (m.setFunding chain outpoint)
  | reinstates (missed : eligible m = true) (funded : m.btcFunding ≠ none) : MatchStep m { m with
        status := .participantFunded
        missedParticipantDeadline := false
        closedAt := none }
  | clock (fundBy : Nat) (turn : m.status = .initiatorFunded) (unset : m.participantFundBy = none) :
      MatchStep m { m with participantFundBy := some fundBy }
  | closes (now : Nat) (funded : m.status = .initiatorFunded ∨ m.status = .participantFunded) :
      MatchStep m { m with status := .closed, closedAt := some now }
  | rekeys (role : SwapRole) (hash : Fixed 32) : MatchStep m (m.setSecret role hash)
  | cancels (now : Nat)
      (early : m.status = .proposed ∨ (m.status = .accepted ∧ m.xbtFunding = none)) :
      MatchStep m { m with status := .cancelled, closedAt := some now }
  | misses (now : Nat) (turn : m.status = .initiatorFunded) (unfunded : m.btcFunding = none)
      (late : m.participantFundBy.any (· < now) = true) :
      MatchStep m { m with
        missedParticipantDeadline := true
        status := .cancelled
        closedAt := some now }

@[simp]
theorem setFunding_id (m : Match) (chain : Chain) (outpoint : Outpoint) :
    (m.setFunding chain outpoint).id = m.id := by
  cases chain <;> rfl

@[simp]
theorem setSecret_id (m : Match) (role : SwapRole) (hash : Fixed 32) :
    (m.setSecret role hash).id = m.id := by
  cases role <;> rfl

variable {changed m : Match}

theorem MatchStep.id_eq (step : MatchStep m changed) : changed.id = m.id := by
  cases step <;> simp

theorem MatchStep.made_eq (step : MatchStep m changed) :
    changed.terms = m.terms ∧ changed.initiatorOffer = m.initiatorOffer ∧
      changed.participantOffer = m.participantOffer ∧
        changed.preMatchAmounts = m.preMatchAmounts := by
  cases step with
  | funds role outpoint turn slot => cases role <;> exact ⟨rfl, rfl, rfl, rfl⟩
  | records chain outpoint unset => cases chain <;> exact ⟨rfl, rfl, rfl, rfl⟩
  | rekeys role hash => cases role <;> exact ⟨rfl, rfl, rfl, rfl⟩
  | _ => exact ⟨rfl, rfl, rfl, rfl⟩

theorem funding_setFunding (m : Match) (chain leg : Chain) (outpoint : Outpoint) :
    (m.setFunding chain outpoint).funding leg = if leg = chain then some outpoint else m.funding
      leg := by
  cases chain <;> cases leg <;> rfl

/-! ## The decisions -/

/-- What a decision makes of the match it reads: a step that records at most the fundings
`granted`. -/
structure Decided (granted : Chain → Outpoint → Prop) (m changed : Match) : Prop where
  step : MatchStep m changed
  missed : changed.missedParticipantDeadline = m.missedParticipantDeadline
  funded : ∀ ⦃chain outpoint⦄, changed.funding chain = some outpoint →
    m.funding chain = some outpoint ∨ granted chain outpoint

section Decisions

variable {now : Nat} {role : SwapRole} {granted : Chain → Outpoint → Prop}

theorem Decided.mono {more : Chain → Outpoint → Prop} (decided : Decided granted m changed)
    (weaker : ∀ chain outpoint, granted chain outpoint → more chain outpoint) :
    Decided more m changed :=
  ⟨decided.step, decided.missed, fun chain outpoint funded =>
    (decided.funded funded).imp_right (weaker chain outpoint)⟩

theorem acceptMatch_decided (decided : acceptMatch role now m = .ok changed) :
    Decided granted m changed := by
  unfold acceptMatch at decided
  split at decided
  next status =>
    split at decided
    · cases decided
    split at decided
    · cases decided
    cases decided
    exact ⟨.accepts _ status, rfl, fun _ _ => .inl⟩
  all_goals cases decided

theorem keysMatch_decided {keys : KeysHex}
    (decided : keysMatch role keys m = .ok changed) : Decided granted m changed := by
  unfold keysMatch at decided
  split at decided
  · cases decided
  next live =>
  split at decided
  · split at decided <;> cases decided
  next unset =>
  cases decided
  exact ⟨.keys role keys (by simpa using live) unset, rfl, fun _ _ => .inl⟩

theorem hashlockMatch_decided {hash : String}
    (decided : hashlockMatch hash m = .ok changed) : Decided granted m changed := by
  unfold hashlockMatch at decided
  split at decided
  · cases decided
  next live =>
  split at decided
  · split at decided <;> cases decided
  next unset =>
  cases decided
  exact ⟨.hashlock hash (by simpa using live) unset, rfl, fun _ _ => .inl⟩

theorem releaseRequestMatch_decided {txs : Outpoint → Except Reply (List String)}
    (decided : releaseRequestMatch txs m = .ok changed) : Decided granted m changed := by
  unfold releaseRequestMatch at decided
  split at decided
  next finished =>
    split at decided
    · cases decided
    split at decided
    · cases decided
    split at decided
    · split at decided <;> cases decided
    next unset =>
    cases decided
    exact ⟨.requests _ finished unset, rfl, fun _ _ => .inl⟩
  · cases decided

theorem releaseMatch_decided {sigs : List String}
    (decided : releaseMatch sigs m = .ok changed) : Decided granted m changed := by
  unfold releaseMatch at decided
  split at decided
  next finished =>
    split at decided
    · cases decided
    split at decided
    · cases decided
    split at decided
    · split at decided <;> cases decided
    next unset =>
    cases decided
    exact ⟨.releases sigs finished unset, rfl, fun _ _ => .inl⟩
  · cases decided

variable {outpoint : Outpoint}

theorem decided_setFunding {chain : Chain} {status : MatchStatus}
    (step : MatchStep m { m.setFunding chain outpoint with status }) :
    Decided (fun leg want => leg = chain ∧ want = outpoint) m
      { m.setFunding chain outpoint with status } where
  step := step
  missed := by cases chain <;> rfl
  funded leg want funded := by
    change (m.setFunding chain outpoint).funding leg = some want at funded
    rw [funding_setFunding] at funded
    split at funded
    next own =>
      cases funded
      exact .inr ⟨own, rfl⟩
    · exact .inl funded

theorem fundedMatch_decided (decided : fundedMatch role outpoint m = .ok changed) :
    Decided (fun leg want => leg = role.sendChain ∧ want = outpoint) m changed := by
  simp only [fundedMatch] at decided
  split at decided
  · cases decided
  next notRepeated =>
  split at decided
  · cases decided
  next notOther =>
  split at decided
  · cases decided
  next turn =>
  cases decided
  refine decided_setFunding (.funds role outpoint (not_not.mp turn) ?_)
  rcases slot : m.funding role.sendChain with _ | existing
  · exact .inl rfl
  rw [slot] at notOther
  exact .inr (by simpa using notOther)

theorem recordMatch_decided {chain : Chain} {want : Outpoint}
    (decided : recordMatch chain want m = .ok changed) :
    Decided (fun leg outpoint => leg = chain ∧ outpoint = want) m changed := by
  unfold recordMatch at decided
  split at decided
  · split at decided <;> cases decided
  next unset =>
  cases decided
  exact decided_setFunding (.records chain want unset)

variable {seen : Match}

theorem clockMatch_decided {fundBy : Nat}
    (decided : clockMatch seen fundBy m = .ok changed) : Decided granted m changed := by
  unfold clockMatch at decided
  split at decided
  · cases decided
  next checks =>
  push Not at checks
  cases decided
  exact ⟨.clock fundBy checks.1 (by simpa using checks.2.1), rfl, fun _ _ => .inl⟩

theorem closeMatch_decided (funded : seen.status = .initiatorFunded ∨
    seen.status = .participantFunded)
    (decided : closeMatch seen now m = .ok changed) : Decided granted m changed := by
  unfold closeMatch at decided
  split at decided
  · cases decided
  next checks =>
  push Not at checks
  cases decided
  exact ⟨.closes now (checks.1 ▸ funded), rfl, fun _ _ => .inl⟩

end Decisions

/-! ## The sections -/

structure Frame (before after : Store) : Prop where
  offers : after.cfOffers = before.cfOffers
  found : after.cfMatches = before.cfMatches
  tags : after.cfTags = before.cfTags
  ids : after.ids = before.ids

theorem Frame.refl (store : Store) : Frame store store := ⟨rfl, rfl, rfl, rfl⟩

theorem Frame.trans ⦃first second third : Store⦄ (early : Frame first second)
    (late : Frame second third) : Frame first third :=
  ⟨late.offers.trans early.offers, late.found.trans early.found, late.tags.trans early.tags,
    late.ids.trans early.ids⟩

/-- What one section does: at most one step of one stored match. -/
inductive SectionStep (before after : Store) : Prop
  | idle (frame : Frame before after)
  | step (m changed : Match) (stored : before.getMatch m.id = some m) (change : MatchStep m changed)
      (frame : Frame (before.saveMatch changed) after)

theorem removeStrike_frame (token : String) (struckAt : Nat) :
    Completes Frame (removeStrike token struckAt) := by
  refine Completes.modify fun store => ?_
  dsimp only
  split
  · exact ⟨rfl, rfl, rfl, rfl⟩
  · exact Frame.refl store

def Relays (before after : Store) : Prop := ∃ cfMsgs, after = { before with cfMsgs }

inductive Decides (granted : String → Chain → Outpoint → Prop) (before : Store) : Store → Prop
  | idle : Decides granted before before
  | writes {after : Store} (m changed : Match) (stored : before.getMatch m.id = some m)
      (decided : Decided (granted m.id) m changed)
      (relays : Relays (before.saveMatch changed) after) : Decides granted before after

variable {granted : String → Chain → Outpoint → Prop}

theorem Decides.step ⦃before after : Store⦄
    (decides : Decides granted before after) : SectionStep before after := by
  cases decides with
  | idle => exact .idle (Frame.refl before)
  | writes m changed stored decided relays =>
    obtain ⟨_, rfl⟩ := relays
    exact .step m changed stored decided.step ⟨rfl, rfl, rfl, rfl⟩

variable (id : String)

theorem pushed_relays (role : SwapRole) (body : Relay) : Completes Relays (pushed id role body) :=
  fun _ => ⟨_, rfl⟩

theorem updateMatch_decides {ρ : Type} {id : String} {missing : ρ}
    {decision : Match → Except ρ Match} {finish : Match → StoreM ρ}
    (decides : ∀ m changed, decision m = .ok changed → Decided (granted id) m changed)
    (finishes : ∀ changed, Completes Relays (finish changed)) :
    Completes (Decides granted) (updateMatch id missing decision finish) := by
  intro store
  unfold updateMatch
  rw [wp_bind, wp_get]
  rcases found : store.getMatch id with _ | m
  · exact .idle
  cases Store.id_of_getMatch found
  rcases decided : decision m with reply | changed
  · simp only [decided]
    exact .idle
  simp only [decided]
  rw [wp_bind, wp_putMatch]
  exact wp_imp (finishes changed (store.saveMatch changed))
    fun _ _ relays => .writes m changed found (decides m changed decided) relays

def LockedOp.ofMatch : LockedOp → Bool
  | .accept .. | .keys .. | .hashlock .. | .releaseRequest .. | .release .. => true
  | .funded .. | .record .. | .clock .. | .close .. => true
  | _ => false

def LockedOp.mayRecord : LockedOp → String → Chain → Outpoint → Prop
  | .funded id role outpoint => fun other chain want =>
    other = id ∧ chain = role.sendChain ∧ want = outpoint
  | .record id leg outpoint => fun other chain want => other = id ∧ chain = leg ∧ want = outpoint
  | _ => fun _ _ _ => False

theorem fundedSection_decides (role : SwapRole) (outpoint : Outpoint) :
    Completes (Decides (LockedOp.funded id role outpoint).mayRecord)
      (fundedSection id role outpoint) := by
  refine updateMatch_decides (fun m changed decided => ?_) fun _ => pushed_relays _ _ _
  exact (fundedMatch_decided decided).mono fun _ _ own => ⟨rfl, own⟩

theorem recordSection_decides (chain : Chain) (want : Outpoint) :
    Completes (Decides (LockedOp.record id chain want).mayRecord)
      (recordSection id chain want) := by
  refine updateMatch_decides (fun m changed decided => ?_) fun _ => (fun _ => ⟨_, rfl⟩)
  exact (recordMatch_decided decided).mono fun _ _ own => ⟨rfl, own⟩

theorem LockedOp.decides (env : EdgeEnv) {op : LockedOp} (ofMatch : op.ofMatch = true) :
    Completes (Decides op.mayRecord) (op.run env) := by
  have ignore {α : Type} {prog : StoreM α} (completes : Completes (Decides op.mayRecord) prog) :
      Completes (Decides op.mayRecord) (do let _ ← prog : StoreM Unit) := by
    intro store
    rw [wp_bind]
    exact completes store
  cases op with
  | accept id role now =>
    exact ignore (updateMatch_decides (fun _ _ => acceptMatch_decided) fun _ => pushed_relays _ _ _)
  | keys id role keys =>
    exact ignore (updateMatch_decides (fun _ _ => keysMatch_decided) fun _ => pushed_relays _ _ _)
  | hashlock id hash nonce =>
    exact ignore (updateMatch_decides (fun _ _ => hashlockMatch_decided)
      fun _ => pushed_relays _ _ _)
  | releaseRequest id txs =>
    exact ignore (updateMatch_decides (fun _ _ => releaseRequestMatch_decided)
      fun _ => pushed_relays _ _ _)
  | release id sigs =>
    exact ignore (updateMatch_decides (fun _ _ => releaseMatch_decided)
      fun _ => pushed_relays _ _ _)
  | funded id role outpoint => exact ignore (fundedSection_decides id role outpoint)
  | record id chain want => exact ignore (recordSection_decides id chain want)
  | clock seen fundBy =>
    exact ignore (updateMatch_decides (fun _ _ => clockMatch_decided) fun _ => (fun _ => ⟨_, rfl⟩))
  | close seen now =>
    change Completes _ (closeSection seen now)
    unfold closeSection
    split
    next funded =>
      exact updateMatch_decides (fun _ _ => closeMatch_decided funded) fun _ => (fun _ => ⟨_, rfl⟩)
    · exact fun _ => .idle
  | _ => cases ofMatch

theorem reinstateSection_step (id txid : String) :
    Completes SectionStep (reinstateSection id txid) := by
  intro store
  unfold reinstateSection
  rw [wp_bind, wp_get]
  rcases found : store.getMatch id with _ | m
  · exact .idle (Frame.refl store)
  have own : m.id = id := Store.id_of_getMatch found
  dsimp only
  split
  next checks =>
    have funded : m.btcFunding ≠ none := by
      intro unfunded
      simp [unfunded] at checks
    have step := MatchStep.reinstates checks.1 funded
    rcases struck : m.closedAt with _ | struckAt
    · exact .step m _ (own ▸ found) step (Frame.refl _)
    dsimp only
    refine wp_seq (removeStrike_frame m.participantToken struckAt store)
      (fun _ after frame => ?_) (fun _ _ never => never)
    exact .step m _ (own ▸ found) step
      ⟨frame.offers, congrArg (Table.put · _) frame.found, frame.tags, frame.ids⟩
  · exact .idle (Frame.refl store)

end Fortis.Edge
