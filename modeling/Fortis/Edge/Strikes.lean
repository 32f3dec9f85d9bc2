import Fortis.Edge.Lifecycle
import Fortis.Lib.Window

/-!
# Strikes and reinstatements

A deadline pass strikes the side that did not fund; a participant whose funding turns out to have
been mined in time is reinstated, and the strike is taken back.  The store keeps bare times for a
token, so what is taken back is any strike of the same second.  A run is followed here with the
marks it makes beside the store.
-/

namespace Fortis.Edge

open Fortis.Core Lib Lib.Window List Function Relation Table Store Option Mark

abbrev Strike := Standing String String

abbrev StrikeMark := Mark String String

theorem strikeTimes_put (store : Store) (token : String) (times : List Nat) :
    ({ store with cfStrikes := store.cfStrikes.put (token, times) } : Store).strikeTimes =
      update store.strikeTimes token times := by
  funext key
  unfold strikeTimes
  rw [get?_put]
  by_cases own : key = token
  · subst own
    simp
  · simp [own]

variable {fail : Fail -> Store -> Prop} {store : Store}

theorem wp_addStrike {post : Unit -> Store -> Prop} (owner token : String) (now : Nat)
    (struck : ∀ after, Untouched store after ->
      after.strikeTimes = Mark.play inWindow store.strikeTimes
        (.add ⟨owner, token, now⟩ : StrikeMark) -> post () after) :
    wp (addStrike token now) post fail store :=
  struck _ ⟨rfl, rfl⟩ (strikeTimes_put store token _)

theorem strikeTimes_removed (store : Store) (owner token : String) (struckAt : Nat) :
    (finalState (removeStrike token struckAt) store).strikeTimes =
      Mark.play inWindow store.strikeTimes (.lift ⟨owner, token, struckAt⟩ : StrikeMark) := by
  have final : finalState (removeStrike token struckAt) store =
      if struckAt ∈ store.strikeTimes token then
        { store with cfStrikes :=
            store.cfStrikes.put (token, (store.strikeTimes token).erase struckAt) }
      else store := rfl
  rw [final]
  split
  · exact strikeTimes_put store token _
  next missing =>
    rw [play, erase_of_not_mem missing, update_eq_self]

theorem get?_dropped (rows : List (String × List Nat)) (store : Store) (token : String) :
    (rows.foldl (fun store row => { store with cfStrikes := store.cfStrikes.delete row.1 })
      store).cfStrikes.get? token =
        if token ∈ rows.map Prod.fst then none else store.cfStrikes.get? token := by
  induction rows generalizing store with
  | nil => rfl
  | cons row rest ih =>
    rw [foldl_cons, ih, get?_delete]
    by_cases later : token ∈ rest.map Prod.fst
    · simp [later]
    by_cases own : token = row.1
    · simp [own]
    · simp [later, own]

theorem strikeTimes_purged (store : Store) (now : Nat) :
    (finalState (purgeStrikes now) store).strikeTimes =
      Mark.play inWindow store.strikeTimes (.purge now : StrikeMark) := by
  funext token
  have final : (finalState (purgeStrikes now) store).strikeTimes token =
      (((store.cfStrikes.rows.filter fun row => !(row.2.any (inWindow · now))).foldl
        (fun store row => { store with cfStrikes := store.cfStrikes.delete row.1 })
          store).cfStrikes.get? token |>.map Prod.snd).getD [] := rfl
  rw [final, get?_dropped, play]
  simp only [strikeTimes]
  rcases eq_none_or_eq_some (store.cfStrikes.get? token) with found | ⟨row, found⟩
  · simp [found]
  obtain ⟨stored, rfl⟩ := get?_eq_some_iff.mp found
  have only : ∀ other ∈ store.cfStrikes.rows, other.1 = row.1 -> other = row := by
    intro other mem same
    have found' := get?_of_mem mem
    rw [same, found] at found'
    exact (some.inj found').symm
  have dropped : row.1 ∈ (store.cfStrikes.rows.filter fun row =>
      !(row.2.any (inWindow · now))).map Prod.fst ↔ row.2.any (inWindow · now) = false := by
    constructor
    · intro mem
      obtain ⟨other, kept, same⟩ := mem_map.mp mem
      obtain ⟨stored', out⟩ := mem_filter.mp kept
      rw [only other stored' same] at out
      simpa using out
    intro out
    exact mem_map.mpr ⟨row, mem_filter.mpr ⟨stored, by simp [out]⟩, rfl⟩
  simp only [found, dropped, map_some, getD_some]
  cases row.2.any (inWindow · now) <;> simp

def SameStrikes (before after : Store) : Prop := after.strikeTimes = before.strikeTimes

/-! ## The deadline pass -/

def ticked (now : Nat) (m : Match) : Match :=
  match m.status with
  | .proposed => if m.terms.acceptBy < now then cancelledMatch m now else m
  | .accepted =>
    if m.xbtFunding = none /\ m.terms.initiatorFundBy < now then cancelledMatch m now else m
  | .initiatorFunded =>
    if m.btcFunding = none /\ m.participantFundBy.any (· < now) then
      cancelledMatch { m with missedParticipantDeadline := true } now
    else m
  | _ => m

def strikeOf (now : Nat) (m : Match) : Option Strike :=
  match m.status with
  | .accepted =>
    if m.xbtFunding = none /\ m.terms.initiatorFundBy < now then
      some ⟨m.id, m.initiatorToken, now⟩
    else none
  | .initiatorFunded =>
    if m.btcFunding = none /\ m.participantFundBy.any (· < now) then
      some ⟨m.id, m.participantToken, now⟩
    else none
  | _ => none

@[simp]
theorem ticked_id (now : Nat) (m : Match) : (ticked now m).id = m.id := by
  unfold ticked cancelledMatch
  split <;> first | rfl | (split <;> rfl)

def passMarks (now : Nat) (found : List Match) : List StrikeMark :=
  (found.filterMap (strikeOf now)).map .add

structure TicksOne (now : Nat) (m : Match) (before after : Store) : Prop where
  found : ∀ id, after.getMatch id =
    if id = m.id then some (ticked now m) else before.getMatch id
  ids : after.ids = before.ids
  strikes : after.strikeTimes = (passMarks now [m]).foldl (Mark.play inWindow) before.strikeTimes

theorem wp_release_strikes (m : Match) (offerId : String) (pre consumed : Nat) (how : Release)
    (store : Store) : wp (release m offerId pre consumed how)
      (fun _ after => Untouched store after /\ SameStrikes store after)
      (fun raised after => raised ≠ .fault /\ Untouched store after /\ SameStrikes store after)
        store := by
  unfold release
  rw [wp_bind, wp_get]
  rcases store.offer offerId with _ | offer
  · exact ⟨Untouched.refl store, rfl⟩
  dsimp only
  rcases releasedOffer m offer pre consumed how with _ | changed
  · exact ⟨Untouched.refl store, rfl⟩
  refine wp_putOffer (fun _ => ⟨⟨rfl, rfl⟩, rfl⟩) (fun _ => ⟨?_, Untouched.refl store, rfl⟩)
  exact nofun

theorem wp_cancel_strikes (m : Match) (now : Nat) (initiator participant : Release)
    (store : Store) : wp (cancel m now initiator participant)
      (fun _ after => Writes (cancelledMatch m now) store after /\ SameStrikes store after)
      (fun raised after => raised ≠ .fault /\ Writes (cancelledMatch m now) store after /\
        SameStrikes store after) store := by
  have written : Writes (cancelledMatch m now) store (store.saveMatch (cancelledMatch m now)) :=
    ⟨rfl, rfl⟩
  have saved : SameStrikes store (store.saveMatch (cancelledMatch m now)) := rfl
  unfold cancel
  rw [wp_bind, wp_putMatch]
  refine wp_seq (wp_release_strikes _ _ _ _ _ _) (fun _ middle first => ?_)
    (fun _ _ first => ⟨first.1, written.untouched first.2.1, first.2.2.trans saved⟩)
  have soFar := written.untouched first.1
  have sameSoFar := first.2.trans saved
  exact wp_mono (wp_release_strikes _ _ _ _ _ middle)
    (fun _ _ second => ⟨soFar.untouched second.1, second.2.trans sameSoFar⟩)
    (fun _ _ second => ⟨second.1, soFar.untouched second.2.1, second.2.2.trans sameSoFar⟩)

theorem wp_logged {α : Type} {prog : StoreM α} {post : Store -> Prop}
    (run : wp prog (fun _ => post) (fun raised after => raised ≠ .fault /\ post after) store) :
    wp (logged prog) (fun _ => post) fail store := by
  unfold logged
  rw [wp_tryCatch]
  refine wp_seq run (fun _ _ => id) (fun raised _ kept => ?_)
  cases raised with
  | bail text => exact kept.2
  | write text => exact kept.2
  | fault => exact absurd rfl kept.1

variable {m : Match}

theorem wp_tickMatch_strikes (stored : store.getMatch m.id = some m) (now : Nat) :
    wp (tickMatch m now) (fun _ => TicksOne now m store)
      (fun raised after => raised ≠ .fault /\ TicksOne now m store after) store := by
  have idle (unmoved : ticked now m = m) (unstruck : strikeOf now m = none) :
      TicksOne now m store store := by
    refine ⟨fun id => ?_, rfl, by simp [passMarks, unstruck]⟩
    rw [unmoved]
    split
    next own => rw [own, stored]
    · rfl
  have cancels {told : Match} {start : Store} (same : Untouched store start)
      (moved : ticked now m = cancelledMatch told now)
      (struck : start.strikeTimes = (passMarks now [m]).foldl (play inWindow) store.strikeTimes)
      (initiator participant : Release) :
      wp (cancel told now initiator participant) (fun _ => TicksOne now m store)
        (fun raised after => raised ≠ .fault /\ TicksOne now m store after) start := by
    have done : ∀ after, Writes (cancelledMatch told now) start after /\ SameStrikes start after ->
        TicksOne now m store after := by
      rintro after ⟨writes, unstruck⟩
      refine ⟨fun id => ?_, writes.ids.trans same.ids, unstruck.trans struck⟩
      rw [writes.getMatch, <- moved, ticked_id]
      simp only [getMatch, same.found]
    exact wp_mono (wp_cancel_strikes told now initiator participant start)
      (fun _ after held => done after held) (fun _ after held => ⟨held.1, done after held.2⟩)
  unfold tickMatch
  cases status : m.status with
  | proposed =>
    have unstruck : strikeOf now m = none := by simp [strikeOf, status]
    dsimp only
    split
    next due =>
      exact cancels (Untouched.refl store) (by simp [ticked, status, due])
        (by simp [passMarks, unstruck]) .reopen .reopen
    next notDue => exact idle (by simp [ticked, status, notDue]) unstruck
  | accepted | initiatorFunded =>
    dsimp only
    split
    next due =>
      rw [wp_bind]
      refine wp_addStrike m.id _ _ fun after same times => ?_
      exact cancels same (by simp only [ticked, status, if_pos due])
        (by simp [passMarks, strikeOf, status, if_pos due, times]) _ _
    next notDue =>
    exact idle (by simp only [ticked, status, if_neg notDue])
      (by simp only [strikeOf, status, if_neg notDue])
  | participantFunded | closed | cancelled =>
    exact idle (by simp [ticked, status]) (by simp [strikeOf, status])

/-- Every match was passed over. -/
structure Passed (now : Nat) (before after : Store) : Prop where
  found : ∀ id, after.getMatch id = (before.getMatch id).map (ticked now)
  strikes : after.strikeTimes =
    (passMarks now before.allMatches).foldl (Mark.play inWindow) before.strikeTimes

theorem passMarks_cons (now : Nat) (first : Match) (rest : List Match) :
    passMarks now (first :: rest) = passMarks now [first] ++ passMarks now rest := by
  unfold passMarks
  cases struck : strikeOf now first <;> simp [struck]

structure Passing (now : Nat) (before : Store) (rest : List Match) (state : Store) : Prop where
  nodup : (rest.map Match.id).Nodup
  read : ∀ m ∈ rest, before.getMatch m.id = some m
  found : ∀ id, state.getMatch id = if id ∈ rest.map Match.id then before.getMatch id
    else (before.getMatch id).map (ticked now)
  strikes : (passMarks now rest).foldl (Mark.play inWindow) state.strikeTimes =
    (passMarks now before.allMatches).foldl (Mark.play inWindow) before.strikeTimes

theorem passing_start (now : Nat) (store : Store) : Passing now store store.allMatches store := by
  refine ⟨store.cfMatches.keys_nodup, fun m mem => get?_of_mem mem, fun id => ?_, rfl⟩
  split
  · rfl
  next missing =>
  have unknown : store.getMatch id = none :=
    get?_eq_none_iff.mpr fun m mem own => missing (mem_map.mpr ⟨m, mem, own⟩)
  rw [unknown]
  rfl

variable {now : Nat} {after before : Store}

theorem Passing.next {state : Store} {first : Match} {rest : List Match}
    (passing : Passing now before (first :: rest) state) (ticks : TicksOne now first state after) :
    Passing now before rest after := by
  obtain ⟨unrepeated, nodup⟩ := nodup_cons.mp passing.nodup
  refine ⟨nodup, fun m mem => passing.read m (mem_cons_of_mem first mem), fun id => ?_, ?_⟩
  · rw [ticks.found]
    by_cases own : id = first.id
    · subst own
      rw [if_pos rfl, if_neg unrepeated, passing.read first mem_cons_self]
      rfl
    rw [if_neg own, passing.found]
    simp only [map_cons, mem_cons, own, false_or]
  rw [ticks.strikes, <- foldl_append, <- passMarks_cons]
  exact passing.strikes

theorem wp_tick_strikes (now : Nat) (store : Store) :
    wp (tick now) (fun _ => Passed now store) (fun _ _ => False) store := by
  unfold tick
  rw [wp_bind, wp_get]
  refine wp_seq (wp_forEach (Passing now store) (passing_start now store) ?_)
    (fun _ middle passing => ?_) (fun _ _ never => never)
  · intro first rest state passing
    have stored : state.getMatch first.id = some first := by
      rw [passing.found, if_pos (by simp)]
      exact passing.read first mem_cons_self
    exact wp_logged (wp_mono (wp_tickMatch_strikes stored now)
      (fun _ _ ticks => passing.next ticks) (fun _ _ ticks => ⟨ticks.1, passing.next ticks.2⟩))
  have passed : Passed now store middle :=
    ⟨fun id => by simpa using passing.found id, by simpa [passMarks] using passing.strikes⟩
  rw [wp_bind, wp_get]
  refine wp_forEach (fun _ => Passed now store) passed fun offer rest state passed => ?_
  unfold expireOffer
  split
  · refine wp_logged (wp_putOffer (fun _ => ⟨passed.found, passed.strikes⟩) fun _ => ?_)
    exact ⟨by simp, passed⟩
  · exact passed

theorem passed_tick (now : Nat) (store : Store) : Passed now store (finalState (tick now) store) :=
  finalState_cases (wp_tick_strikes now store) (fun _ _ => id) nofun

/-- A reinstatement that read its match and heard from the chain that the
funding `txid` was mined in time. -/
structure Inquiry where
  (id txid : String)
  (fundBy mined : Nat)

/-- What `reinstate_if_funded_in_time` does before it takes the lock. -/
def inquiryOf (store : Store) (id : String) (answer : String -> Option Nat) : Option Inquiry :=
  match (store.getMatch id).filter (eligible ·) with
  | none => none
  | some m =>
    match m.btcFunding, m.participantFundBy with
    | some (txid, _), some fundBy =>
      match answer txid with
      | none => none
      | some mined => if fundBy < mined then none else some ⟨id, txid, fundBy, mined⟩
    | _, _ => none

variable {inquiry : Inquiry} {id : String}

theorem inquiryOf_eq_some {answer : String -> Option Nat}
    (asks : inquiryOf store id answer = some inquiry) :
    inquiry.id = id /\ answer inquiry.txid = some inquiry.mined /\
        inquiry.mined <= inquiry.fundBy /\
        ∃ m, store.getMatch id = some m /\ m.participantFundBy = some inquiry.fundBy := by
  unfold inquiryOf at asks
  split at asks
  · cases asks
  next m found =>
  obtain ⟨stored, _⟩ := filter_eq_some_iff.mp found
  split at asks
  next txid vout fundBy funded clock =>
    split at asks
    · cases asks
    next mined answered =>
    split at asks
    · cases asks
    next inTime =>
    cases asks
    exact ⟨rfl, answered, Nat.le_of_not_lt inTime, m, stored, clock⟩
  · cases asks

def reinstatable (store : Store) (inquiry : Inquiry) : Option Match :=
  (store.getMatch inquiry.id).filter fun m =>
    eligible m /\ m.btcFunding.map Prod.fst = some inquiry.txid

def reinstatedMatch (m : Match) : Match :=
  { m with
    status := .participantFunded
    missedParticipantDeadline := false
    closedAt := none }

def liftOf (store : Store) (inquiry : Inquiry) : Option Strike := do
  let m <- reinstatable store inquiry
  let struckAt <- m.closedAt
  return ⟨m.id, m.participantToken, struckAt⟩

theorem reinstateSection_refused (refused : reinstatable store inquiry = none) :
    reinstateSection inquiry.id inquiry.txid store = .ok .notEligible store := by
  unfold reinstateSection
  simp only [bind, EStateM.bind, MonadState.get, getThe, MonadStateOf.get, EStateM.get]
  unfold reinstatable at refused
  rcases found : store.getMatch inquiry.id with _ | m
  · rfl
  rw [found, filter_some] at refused
  split at refused
  · cases refused
  next checks =>
  rw [decide_eq_true_eq] at checks
  simp only [if_neg checks]
  rfl

theorem reinstateSection_done {struckAt : Nat}
    (found : reinstatable store inquiry = some m) (closed : m.closedAt = some struckAt) :
    ∃ after, reinstateSection inquiry.id inquiry.txid store = .ok .done after /\
      Writes (reinstatedMatch m) store after /\
        after.strikeTimes = Mark.play inWindow store.strikeTimes
          (.lift ⟨m.id, m.participantToken, struckAt⟩ : StrikeMark) := by
  obtain ⟨stored, checks⟩ := filter_eq_some_iff.mp found
  rw [decide_eq_true_eq] at checks
  have unfolded : reinstateSection inquiry.id inquiry.txid store =
      .ok .done ((finalState (removeStrike m.participantToken struckAt) store).saveMatch
        (reinstatedMatch m)) := by
    unfold reinstateSection
    simp only [bind, EStateM.bind, MonadState.get, getThe, MonadStateOf.get, EStateM.get, stored,
      if_pos checks, closed]
    rfl
  refine ⟨_, unfolded, ?_, ?_⟩
  · have frame := (removeStrike_frame m.participantToken struckAt).relates store
    exact ⟨congrArg (put · _) frame.found, frame.ids⟩
  · exact strikeTimes_removed store m.id m.participantToken struckAt

/-! ## Runs -/

structure Docket where
  store : Store
  asked : List Inquiry
  marks : List StrikeMark

def Docket.opened (ids : List String) : Docket := ⟨Store.opened ids, [], []⟩

inductive StrikeMove
  | pass (now : Nat)
  | purge (now : Nat)
  /-- A reinstatement reads its match and asks the chain. -/
  | inquire (id : String) (answer : String -> Option Nat)
  /-- The reinstatement `number` takes the lock. -/
  | reinstate (number : Nat)
  /-- Whatever else the edge does. -/
  | other (after : Store)

def Docket.step (docket : Docket) : StrikeMove -> Docket
  | .pass now => { docket with
      store := finalState (tick now) docket.store
      marks := docket.marks ++ passMarks now docket.store.allMatches }
  | .purge now => { docket with
      store := finalState (purgeStrikes now) docket.store
      marks := docket.marks ++ [.purge now] }
  | .inquire id answer => { docket with
      asked := docket.asked ++ (inquiryOf docket.store id answer).toList }
  | .reinstate number =>
    match docket.asked[number]? with
    | none => docket
    | some inquiry => { docket with
        store := finalState (reinstateSection inquiry.id inquiry.txid) docket.store
        marks := docket.marks ++ (liftOf docket.store inquiry).toList.map .lift }
  | .other after => { docket with store := after }

def Docket.run (docket : Docket) (moves : List StrikeMove) : Docket := moves.foldl step docket

def Docket.reinstated (docket : Docket) : StrikeMove -> Option String
  | .reinstate number => do
    let inquiry <- docket.asked[number]?
    match reinstateSection inquiry.id inquiry.txid docket.store with
    | .ok .done _ => some inquiry.id
    | _ => none
  | _ => none

/-- A step that neither marks a match as late nor takes that back. -/
def Calm (m now : Match) : Prop :=
  Moved m now /\ now.missedParticipantDeadline = m.missedParticipantDeadline

/-- What else the edge does: the deadline pass and the reinstatement alone write strikes. -/
structure Elsewhere (before after : Store) : Prop where
  follows : Follows (ReflTransGen Calm) before after
  strikes : SameStrikes before after

theorem Elsewhere.refl (store : Store) : Elsewhere store store :=
  ⟨Follows.refl (fun _ => .refl) store, rfl⟩

variable {changed : Match}

theorem elsewhere_writes (stored : before.getMatch m.id = some m) (calm : Calm m changed)
    (writes : Writes changed before after) (unstruck : SameStrikes before after) :
    Elsewhere before after :=
  ⟨writes.follows (fun _ => .refl) stored calm.1.id_eq (.single calm), unstruck⟩

theorem sameStrikes_book : BookLaw SameStrikes where
  refl _ := rfl
  trans _ _ _ early late := late.trans early
  draws := relates_iff_wp.mpr fun _ => wp_newId (fun _ _ _ => rfl) rfl
  saves _ := relates_iff_wp.mpr fun _ => wp_putOffer (fun _ => rfl) (fun _ => rfl)
  fills config timelocks init part price now := by
    refine relates_iff_wp.mpr fun store => ?_
    unfold storeFill
    rw [wp_bind]
    refine wp_newId (fun id rest supply => ?_) rfl
    rw [wp_bind]
    refine wp_settle ?_ rfl
    rw [wp_bind]
    refine wp_settle ?_ rfl
    rw [wp_bind, wp_putMatch, wp_bind]
    refine wp_putOffer (fun _ => ?_) (fun _ => rfl)
    rw [wp_bind]
    exact wp_putOffer (fun _ => rfl) (fun _ => rfl)

theorem Decides.elsewhere {granted : String -> Chain -> Outpoint -> Prop} ⦃before after : Store⦄
    (decides : Decides granted before after) : Elsewhere before after := by
  cases decides with
  | idle => exact Elsewhere.refl before
  | writes m changed stored decided relays =>
    obtain ⟨_, rfl⟩ := relays
    exact elsewhere_writes stored ⟨.inr decided.step, decided.missed⟩ ⟨rfl, rfl⟩ rfl

theorem onDecline_elsewhere (matchId : String) (side : SwapRole) (now : Nat) :
    Relates Elsewhere (onDecline matchId side now) := by
  refine onDecline_relates Elsewhere.refl ?_ matchId side
  intro store m stored proposed initiator participant
  have calm : Calm m (cancelledMatch m now) := ⟨.inr (.cancels now (.inl proposed)), rfl⟩
  exact finalState_iff_wp.mpr (wp_mono (wp_cancel_strikes m now initiator participant store)
    (fun _ _ done => elsewhere_writes stored calm done.1 done.2)
    (fun _ _ done => elsewhere_writes stored calm done.2.1 done.2.2))

theorem rekey_sameStrikes (store : Store) (m : Match) (offerId : String)
    (secret : String × Fixed 32) :
    wp (rekey m offerId secret) (fun _ => SameStrikes store)
      (fun _ => SameStrikes store) store := by
  unfold rekey setSecretHash
  rw [wp_bind, wp_putMatch, wp_bind, wp_bind, wp_get]
  split
  · exact (rfl : SameStrikes store _)
  · exact wp_putOffer (fun _ => rfl) (fun _ => rfl)

theorem recoverTags_elsewhere (tagHash : String -> String) (claim : Bool) (tags : List String)
    (secrets : List (String × Fixed 32)) :
    Relates Elsewhere (recoverTags tagHash claim tags secrets) := by
  have unstruck : Relates SameStrikes (recoverTags tagHash claim tags secrets) :=
    recoverTags_relates sameStrikes_book.refl sameStrikes_book.trans
      (fun _ => rekey_sameStrikes _ _) tagHash claim tags secrets
  intro store
  refine ⟨Follows.mono (fun m now rekeyed => ?_)
    (recoverTags_follows tagHash claim tags secrets store), unstruck store⟩
  refine .single ⟨.inl rekeyed, ?_⟩
  obtain ⟨_, _, rfl⟩ := rekeyed
  rfl

def LockedOp.judges : LockedOp -> Bool
  | .tick _ | .reinstate .. => true
  | _ => false

theorem LockedOp.elsewhere (env : EdgeEnv) {op : LockedOp} (lenient : op.judges = false) :
    Relates Elsewhere (op.run env) := by
  have book : ∀ {op : LockedOp}, op.ofBook = true -> Relates Elsewhere (op.run env) :=
    fun ofBook store => ⟨Follows.mono (fun _ _ same => same ▸ .refl)
      (follows_book.run env ofBook store), sameStrikes_book.run env ofBook store⟩
  have ignore : ∀ {α : Type} {prog : StoreM α}, Relates Elsewhere prog ->
      Relates Elsewhere (do let _ <- prog : StoreM Unit) := relates_ignore_iff.mpr
  cases op with
  | decline matchId side now => exact onDecline_elsewhere matchId side now
  | tick now => cases lenient
  | reinstate id txid => cases lenient
  | recover tags claim secrets =>
    exact ignore (recoverTags_elsewhere env.tagHash claim tags secrets)
  | _ =>
    first
    | exact book rfl
    | exact (LockedOp.decides env rfl).relates.mono Decides.elsewhere

/-- What one action of the edge does: the deadline pass, the purge of the
strikes, a reinstatement, or none of them. -/
inductive StrikeStep (before : Store) : Store -> Prop
  | pass (now : Nat) : StrikeStep before (finalState (tick now) before)
  | purge (now : Nat) : StrikeStep before (finalState (purgeStrikes now) before)
  | reinstate (id txid : String) : StrikeStep before (finalState (reinstateSection id txid) before)
  | other {after : Store} (elsewhere : Elsewhere before after) : StrikeStep before after

theorem StrikeStep.untouched (same : Untouched before after)
    (unstruck : SameStrikes before after) : StrikeStep before after :=
  .other ⟨same.follows fun _ => .refl, unstruck⟩

theorem kept_strikeStep (sw : Swap) : Kept sw StrikeStep where
  refl store := .other (Elsewhere.refl store)
  locked op := by
    intro store
    rcases lenient : op.judges with _ | _
    · exact .other (LockedOp.elsewhere sw.env lenient store)
    cases op with
    | tick now => exact .pass now
    | reinstate id txid =>
      refine relates_ignore_iff.mpr ?_ store
      exact fun store => .reinstate id txid
    | _ => cases lenient
  relays _ _ _ := fun _ => .untouched ⟨rfl, rfl⟩ rfl
  watches _ := fun _ => .untouched ⟨rfl, rfl⟩ rfl
  dropsMsg _ _ := .untouched ⟨rfl, rfl⟩ rfl
  dropsWatch _ _ := .untouched ⟨rfl, rfl⟩ rfl
  dropsMatch store key := by
    refine .other ⟨Follows.of_each rfl fun {id now} held => ⟨now, ?_, .refl⟩, rfl⟩
    rw [getMatch, get?_delete] at held
    split at held
    · cases held
    · exact held
  dropsOffer _ _ := .untouched ⟨rfl, rfl⟩ rfl
  dropsStrikes now := fun _ => .purge now

/-- Every action of a run of the edge is a move of this kind. -/
theorem strikeStep_last (sw : Swap) (ids : List String) (moves : EdgeRun)
    (step : Move Request Outside) :
    StrikeStep (storeAfter sw ids moves) (storeAfter sw ids (moves ++ [step])) :=
  Pool.related_last (fun store => .other (Elsewhere.refl store)) (keeps_serve (kept_strikeStep sw))
    (opened ids) moves step

def StrikeMove.Lawful (store : Store) : StrikeMove -> Prop
  | .other after => Elsewhere store after
  | _ => True

def Docket.Lawful (docket : Docket) : List StrikeMove -> Prop
  | [] => True
  | move :: rest => move.Lawful docket.store /\ (docket.step move).Lawful rest

variable {docket : Docket}

theorem Docket.lawful_append {early late : List StrikeMove} :
    docket.Lawful (early ++ late) ↔ docket.Lawful early /\ (docket.run early).Lawful late := by
  induction early generalizing docket with
  | nil => exact ⟨fun lawful => ⟨trivial, lawful⟩, fun lawful => lawful.2⟩
  | cons move rest ih =>
    simp only [cons_append, Docket.Lawful, ih, Docket.run, foldl_cons, and_assoc]

/-! ## Matches along a run -/

theorem moved_of_calm {now : Match} (path : ReflTransGen Calm m now) :
    ReflTransGen Moved m now := by
  induction path with
  | refl => exact .refl
  | tail _ calm ih => exact ih.tail calm.1

theorem Docket.step_follows (docket : Docket) (move : StrikeMove)
    (lawful : move.Lawful docket.store) :
    Follows (ReflTransGen Moved) docket.store (docket.step move).store := by
  have single : ∀ ⦃before after : Store⦄, Follows Moved before after ->
      Follows (ReflTransGen Moved) before after :=
    fun _ _ follows => Follows.mono (fun _ _ moved => ReflTransGen.single moved) follows
  have still : Follows (ReflTransGen Moved) docket.store docket.store :=
    Follows.refl (fun _ => .refl) _
  cases move with
  | pass now => exact single (tick_follows now docket.store)
  | purge now =>
    exact ((purgeStrikes_frame now).relates docket.store).untouched.follows fun _ => .refl
  | inquire id answer => exact still
  | reinstate number =>
    rw [Docket.step]
    split
    · exact still
    · exact single (SectionStep.follows ((reinstateSection_step _ _).relates docket.store))
  | other after =>
    exact Follows.mono (fun _ _ path => moved_of_calm path) lawful.follows

/-- A match drawn before, of which `p` holds if it is still stored. -/
def Of (p : Match -> Prop) (id : String) (store : Store) : Prop :=
  id ∉ store.ids /\ ∀ m, store.getMatch id = some m -> p m

theorem Of.follows {p : Match -> Prop} (holds : Of p id before) (fresh : Fresh before)
    (follows : Follows (ReflTransGen Moved) before after)
    (closed : ∀ {m now}, Moved m now -> p m -> p now) : Of p id after := by
  obtain ⟨_, drawn, origin⟩ := follows fresh
  refine ⟨fun left => holds.1 (drawn id left), fun now stored => ?_⟩
  rcases origin stored with ⟨m, found, moved⟩ | ⟨left, _⟩
  · have start := holds.2 m found
    clear stored found
    induction moved with
    | refl => exact start
    | tail _ step ih => exact closed step ih
  · exact absurd left holds.1

/-- A match that was reinstated, or closed since. -/
def PastReinstatement (m : Match) : Prop := m.status = .participantFunded \/ m.status = .closed

theorem PastReinstatement.moved {now : Match} (moved : Moved m now)
    (past : PastReinstatement m) : PastReinstatement now := by
  unfold PastReinstatement at past ⊢
  rcases moved.statusEdge with same | edge
  · rwa [same]
  generalize now.status = after at edge ⊢
  rcases past with status | status
  · rw [status] at edge
    cases edge
    exact .inr rfl
  rw [status] at edge
  cases edge

/-- A match cancelled for the participant's deadline, with the strike it was given. -/
structure Missed (strike : Strike) (m : Match) : Prop where
  owner : m.id = strike.owner
  token : m.participantToken = strike.key
  status : m.status = .cancelled
  closedAt : m.closedAt = some strike.time

variable {strike : Strike}

theorem Missed.calm {now : Match} (calm : Calm m now)
    (late : m.missedParticipantDeadline = true) (missed : Missed strike m) : Missed strike now := by
  obtain ⟨owner, token, status, closedAt⟩ := missed
  obtain ⟨⟨_, _, rfl⟩ | step, kept⟩ := calm
  · exact ⟨owner, token, status, closedAt⟩
  cases step with
  | requests | releases => exact ⟨owner, token, status, closedAt⟩
  | records chain => cases chain <;> exact ⟨owner, token, status, closedAt⟩
  | rekeys role => cases role <;> exact ⟨owner, token, status, closedAt⟩
  | accepts accepted turn => simp [status] at turn
  | keys role keys live => simp [status, terminal] at live
  | hashlock hash live => simp [status, terminal] at live
  | funds role outpoint turn => cases role <;> simp [status, fundedNeeds] at turn
  | reinstates => simp [late] at kept
  | clock fundBy turn => simp [status] at turn
  | closes at' turn => simp [status] at turn
  | cancels at' turn => simp [status] at turn
  | misses at' turn => simp [status] at turn

def standingAfter (marks : List StrikeMark) : List Strike := marks.foldl Mark.stand []

/-- What holds along every run. -/
structure Docket.Kept (docket : Docket) : Prop where
  fresh : Fresh docket.store
  books : docket.store.strikeTimes = docket.marks.foldl (Mark.play inWindow) fun _ => []
  fits : Fits [] docket.marks
  missed : ∀ {id m}, docket.store.getMatch id = some m -> m.missedParticipantDeadline = true ->
    ∃ strike ∈ standingAfter docket.marks, Missed strike m
  lifted : ∀ {strike}, .lift strike ∈ docket.marks -> Of PastReinstatement strike.owner docket.store
  asked : ∀ inquiry ∈ docket.asked, inquiry.mined <= inquiry.fundBy /\
    Of (·.participantFundBy = some inquiry.fundBy) inquiry.id docket.store

theorem Docket.kept_opened {ids : List String} (nodup : ids.Nodup) : (Docket.opened ids).Kept where
  fresh := fresh_opened nodup
  books := rfl
  fits := trivial
  missed stored := nomatch stored
  lifted member := nomatch member
  asked _ member := nomatch member

theorem standingAfter_append (early late : List StrikeMark) :
    standingAfter (early ++ late) = late.foldl Mark.stand (standingAfter early) :=
  foldl_append

theorem mem_stand_adds {strikes standing : List Strike} :
    strike ∈ (strikes.map Mark.add).foldl Mark.stand standing ↔ strike ∈ strikes \/
      strike ∈ standing := by
  induction strikes generalizing standing with
  | nil => simp
  | cons first rest ih =>
    rw [map_cons, foldl_cons, ih, stand]
    simp only [mem_cons]
    tauto

theorem fits_adds (strikes standing : List Strike) : Fits standing (strikes.map Mark.add) := by
  induction strikes generalizing standing with
  | nil => trivial
  | cons first rest ih => exact ⟨nofun, ih _⟩

/-- A match marked late after a pass was so before, or is struck in it. -/
theorem missed_ticked (late : (ticked now m).missedParticipantDeadline = true)
    (before : m.missedParticipantDeadline = true -> m.status = .cancelled) :
    (m.missedParticipantDeadline = true /\ ticked now m = m) \/
      ∃ strike, strikeOf now m = some strike /\ Missed strike (ticked now m) := by
  unfold ticked at late
  unfold ticked strikeOf
  cases status : m.status with
  | initiatorFunded =>
    simp only [status] at late ⊢
    split at late
    next due =>
      rw [if_pos due, if_pos due]
      exact .inr ⟨_, rfl, rfl, rfl, rfl, rfl⟩
    next notDue =>
    have cancelled := before late
    rw [status] at cancelled
    cases cancelled
  | proposed | accepted =>
    simp only [status] at late
    have marked : m.missedParticipantDeadline = true := by
      split at late <;> exact late
    have cancelled := before marked
    rw [status] at cancelled
    cases cancelled
  | participantFunded | closed | cancelled =>
    simp only [status] at late
    exact .inl ⟨late, rfl⟩

variable {moves : List StrikeMove} {number : Nat}

namespace Docket

variable {docket : Docket}

section

variable (kept : docket.Kept)
include kept

/-- What was lifted or asked about stays so as the matches make their steps. -/
theorem Kept.along (follows : Follows (ReflTransGen Moved) docket.store after) :
    (∀ {strike}, .lift strike ∈ docket.marks -> Of PastReinstatement strike.owner after) /\
      ∀ inquiry ∈ docket.asked, inquiry.mined <= inquiry.fundBy /\
        Of (·.participantFundBy = some inquiry.fundBy) inquiry.id after := by
  refine ⟨fun mem => ?_, fun inquiry mem => ?_⟩
  · exact (kept.lifted mem).follows kept.fresh follows PastReinstatement.moved
  obtain ⟨inTime, clock⟩ := kept.asked inquiry mem
  exact ⟨inTime, clock.follows kept.fresh follows fun moved set => moved.setOnce.fundBy set⟩

theorem Kept.pass (now : Nat) : (docket.step (.pass now)).Kept := by
  have follows := docket.step_follows (.pass now) trivial
  have passed := passed_tick now docket.store
  refine ⟨(follows kept.fresh).1, ?_, ?_, fun {id m} stored late => ?_, fun mem => ?_,
    (kept.along follows).2⟩
  · have times : (docket.step (.pass now)).store.strikeTimes = _ := passed.strikes
    rw [times, kept.books]
    exact foldl_append.symm
  · exact fits_append.mpr ⟨kept.fits, fits_adds _ _⟩
  · have found : (docket.step (.pass now)).store.getMatch id = _ := passed.found id
    rw [stored] at found
    obtain ⟨origin, held, rfl⟩ := map_eq_some_iff.mp found.symm
    have stands : standingAfter (docket.step (.pass now)).marks =
        ((docket.store.allMatches.filterMap (strikeOf now)).map add).foldl stand
          (standingAfter docket.marks) := standingAfter_append _ _
    rw [stands]
    have before : origin.missedParticipantDeadline = true -> origin.status = .cancelled := by
      intro marked
      obtain ⟨_, _, missed⟩ := kept.missed held marked
      exact missed.status
    rcases missed_ticked late before with ⟨marked, same⟩ | ⟨strike, struck, missed⟩
    · obtain ⟨strike, stood, missed⟩ := kept.missed held marked
      exact ⟨strike, mem_stand_adds.mpr (.inr stood), same.symm ▸ missed⟩
    have mem : strike ∈ docket.store.allMatches.filterMap (strikeOf now) :=
      mem_filterMap.mpr ⟨origin, mem_of_get? held, struck⟩
    exact ⟨strike, mem_stand_adds.mpr (.inl mem), missed⟩
  · rcases mem_append.mp mem with old | new
    · exact (kept.along follows).1 old
    obtain ⟨_, _, never⟩ := mem_map.mp new
    cases never

theorem Kept.purge (now : Nat) : (docket.step (.purge now)).Kept := by
  have follows := docket.step_follows (.purge now) trivial
  have frame := (purgeStrikes_frame now).relates docket.store
  refine ⟨(follows kept.fresh).1, ?_, ?_, fun {id m} stored late => ?_, fun {strike} mem => ?_,
    (kept.along follows).2⟩
  · have times : (docket.step (.purge now)).store.strikeTimes = _ :=
      strikeTimes_purged docket.store now
    rw [times, kept.books]
    have marks : (docket.step (.purge now)).marks = docket.marks ++ [.purge now] := rfl
    rw [marks, foldl_append]
    rfl
  · exact fits_append.mpr ⟨kept.fits, nofun, trivial⟩
  · have held : docket.store.getMatch id = some m := by
      rw [<- stored]
      exact congrArg (get? · id) frame.found.symm
    obtain ⟨strike, stood, missed⟩ := kept.missed held late
    refine ⟨strike, ?_, missed⟩
    rw [show (docket.step (.purge now)).marks = docket.marks ++ [.purge now] from rfl,
      standingAfter_append]
    exact stood
  · rcases mem_concat.mp mem with old | new
    · exact (kept.along follows).1 old
    · cases new

theorem Kept.inquire (id : String) (answer : String -> Option Nat) :
    (docket.step (.inquire id answer)).Kept := by
  refine { kept with asked := fun inquiry mem => ?_ }
  rcases mem_append.mp mem with old | new
  · exact kept.asked inquiry old
  obtain ⟨own, _, inTime, m, stored, clock⟩ :=
    inquiryOf_eq_some (mem_toList.mp new)
  refine ⟨inTime, own.symm ▸ kept.fresh.drawn stored, fun found held => ?_⟩
  have held' : docket.store.getMatch inquiry.id = some found := held
  rw [own, stored] at held'
  cases held'
  exact clock

theorem Kept.other (elsewhere : Elsewhere docket.store after) :
    (docket.step (.other after)).Kept := by
  have follows := docket.step_follows (.other after) elsewhere
  obtain ⟨fresh, _, origin⟩ := elsewhere.follows kept.fresh
  refine ⟨fresh, elsewhere.strikes.trans kept.books, kept.fits, fun {id m} stored late => ?_,
    (kept.along follows).1, (kept.along follows).2⟩
  · have same : ∀ {first last : Match}, ReflTransGen Calm first last ->
        last.missedParticipantDeadline = first.missedParticipantDeadline := by
      intro first last calm
      induction calm with
      | refl => rfl
      | tail _ step ih => exact step.2.trans ih
    rcases origin stored with ⟨first, held, calm⟩ | ⟨_, made, ⟨_, _, _, _, rfl⟩, calm⟩
    · have marked : first.missedParticipantDeadline = true := (same calm).symm.trans late
      obtain ⟨strike, stood, missed⟩ := kept.missed held marked
      refine ⟨strike, stood, ?_⟩
      clear stored late
      induction calm with
      | refl => exact missed
      | tail early step ih => exact Missed.calm step ((same early).trans marked) ih
    have never := (same calm).symm.trans late
    cases never

/-- A reinstatement that finds its match takes back the strike the match was given. -/
theorem Kept.step_reinstate (asks : docket.asked[number]? = some inquiry)
    (found : reinstatable docket.store inquiry = some m) :
    ∃ strike ∈ standingAfter docket.marks, Missed strike m /\
      docket.reinstated (.reinstate number) = some inquiry.id /\
      (docket.step (.reinstate number)).marks = docket.marks ++ [.lift strike] /\
      (docket.step (.reinstate number)).asked = docket.asked /\
      Writes (reinstatedMatch m) docket.store (docket.step (.reinstate number)).store /\
      (docket.step (.reinstate number)).store.strikeTimes =
        Mark.play inWindow docket.store.strikeTimes (.lift strike : StrikeMark) := by
  obtain ⟨stored, checks⟩ := filter_eq_some_iff.mp found
  simp only [eligible, decide_eq_true_eq] at checks
  obtain ⟨strike, stands, missed⟩ := kept.missed stored checks.1.1
  obtain ⟨after, ran, writes, times⟩ := reinstateSection_done found missed.closedAt
  have lifted : liftOf docket.store inquiry = some strike := by
    simp only [liftOf, found, missed.closedAt, missed.owner, missed.token, Option.bind_eq_bind,
      Option.bind_some, Option.pure_def]
  have own : (⟨m.id, m.participantToken, strike.time⟩ : Strike) = strike := by
    rw [missed.owner, missed.token]
  refine ⟨strike, stands, missed, ?_, ?_, ?_, ?_, ?_⟩
  · simp only [reinstated, asks, ran, bind_eq_bind, bind_some]
  · simp only [step, asks, lifted, toList_some, map_cons, map_nil]
  · simp only [step, asks]
  · simp only [step, asks, finalState, ran]
    exact writes
  simp only [step, asks, finalState, ran]
  rw [times, own]

end

theorem step_refused (asks : docket.asked[number]? = some inquiry)
    (refused : reinstatable docket.store inquiry = none) :
    docket.step (.reinstate number) = docket /\ docket.reinstated (.reinstate number) = none := by
  have ran := reinstateSection_refused refused
  constructor
  · simp [step, asks, finalState, ran, liftOf, refused]
  · simp [reinstated, asks, ran]

theorem Kept.reinstate (kept : docket.Kept) (number : Nat) :
    (docket.step (.reinstate number)).Kept := by
  rcases asks : docket.asked[number]? with _ | inquiry
  · have idle : docket.step (.reinstate number) = docket := by simp [step, asks]
    rwa [idle]
  rcases found : reinstatable docket.store inquiry with _ | m
  · rwa [(step_refused asks found).1]
  have follows := docket.step_follows (.reinstate number) trivial
  obtain ⟨strike, stands, struck, _, marks, asked, writes, times⟩ :=
    kept.step_reinstate asks found
  have stored : docket.store.getMatch m.id = some m := by
    have held := (filter_eq_some_iff.mp found).1
    rwa [id_of_getMatch held]
  refine ⟨(follows kept.fresh).1, ?_, ?_, fun {id now} held late => ?_,
    fun {other} mem => ?_, fun other mem => (kept.along follows).2 other (asked ▸ mem)⟩
  · rw [times, marks, kept.books, foldl_append]
    rfl
  · rw [marks]
    refine fits_append.mpr ⟨kept.fits, fun other same => ?_, trivial⟩
    cases same
    exact stands
  · -- Another match: its own strike still stands.
    rw [writes.getMatch] at held
    split at held
    · cases held
      exact absurd late (by simp [reinstatedMatch])
    next another =>
    obtain ⟨other, stood, missed⟩ := kept.missed held late
    have differs : other ≠ strike := by
      rintro rfl
      refine another ?_
      rw [<- id_of_getMatch held, missed.owner]
      exact struck.owner.symm
    refine ⟨other, ?_, missed⟩
    rw [marks, standingAfter_append]
    exact (mem_erase_of_ne differs).mpr stood
  · rw [marks] at mem
    rcases mem_concat.mp mem with old | new
    · exact (kept.along follows).1 old
    cases new
    rw [<- struck.owner]
    refine ⟨writes.ids ▸ kept.fresh.drawn stored, fun now held => ?_⟩
    have record : m.id = (reinstatedMatch m).id := rfl
    rw [writes.getMatch, if_pos record] at held
    cases held
    exact .inl rfl

theorem Kept.step (kept : docket.Kept) {move : StrikeMove} (lawful : move.Lawful docket.store) :
    (docket.step move).Kept := by
  cases move with
  | pass now => exact kept.pass now
  | purge now => exact kept.purge now
  | inquire id answer => exact kept.inquire id answer
  | reinstate number => exact kept.reinstate number
  | other after => exact kept.other lawful

theorem Kept.run (kept : docket.Kept) (lawful : docket.Lawful moves) : (docket.run moves).Kept := by
  induction moves generalizing docket with
  | nil => exact kept
  | cons move rest ih => exact ih (kept.step lawful.1) lawful.2

variable (docket : Docket) (moves : List StrikeMove)

theorem marks_step (move : StrikeMove) :
    ∃ last, (docket.step move).marks = docket.marks ++ last := by
  cases move with
  | pass now => exact ⟨_, rfl⟩
  | purge now => exact ⟨_, rfl⟩
  | inquire id answer => exact ⟨[], (append_nil _).symm⟩
  | reinstate number =>
    cases asks : docket.asked[number]? with
    | none => exact ⟨[], by simp [Docket.step, asks]⟩
    | some inquiry =>
      exact ⟨(liftOf docket.store inquiry).toList.map .lift, by simp [Docket.step, asks]⟩
  | other after => exact ⟨[], (append_nil _).symm⟩

theorem marks_run : ∃ last, (docket.run moves).marks = docket.marks ++ last := by
  induction moves generalizing docket with
  | nil => exact ⟨[], (append_nil _).symm⟩
  | cons move rest ih =>
    obtain ⟨first, early⟩ := docket.marks_step move
    obtain ⟨last, late⟩ := ih (docket.step move)
    refine ⟨first ++ last, ?_⟩
    rw [show docket.run (move :: rest) = (docket.step move).run rest from rfl, late, early,
      append_assoc]

/-- Every reinstatement under way asked the chain. -/
theorem asked_run (mem : inquiry ∈ (docket.run moves).asked) : inquiry ∈ docket.asked \/
      ∃ answer, .inquire inquiry.id answer ∈ moves /\ answer inquiry.txid = some inquiry.mined := by
  induction moves generalizing docket with
  | nil => exact .inl mem
  | cons move rest ih =>
    rcases ih (docket.step move) mem with before | ⟨answer, later, answered⟩
    · cases move with
      | inquire id answer =>
        rcases mem_append.mp before with old | new
        · exact .inl old
        obtain ⟨own, answered, _⟩ := inquiryOf_eq_some (mem_toList.mp new)
        exact .inr ⟨answer, own ▸ mem_cons_self, answered⟩
      | reinstate number =>
        refine .inl ?_
        rw [Docket.step] at before
        split at before <;> exact before
      | pass now => exact .inl before
      | purge now => exact .inl before
      | other after => exact .inl before
    · exact .inr ⟨answer, mem_cons_of_mem move later, answered⟩

end Docket

theorem inWindow_backwards : Backwards inWindow := by
  intro time early late past forward isLive
  simp only [inWindow, Bool.and_eq_true, decide_eq_true_eq] at isLive ⊢
  exact ⟨past, by omega⟩

/-- A match is reinstated only for a funding mined by the stored deadline and with no release
signed, never a second time, and with a clock that does not step back the strikes of every token are
then those without the one strike and its lifting. -/
theorem strikes_undone {ids : List String} (distinct : ids.Nodup) {early late : List StrikeMove}
    {number : Nat} {id : String}
    (lawful : (Docket.opened ids).Lawful (early ++ .reinstate number :: late))
    (done : ((Docket.opened ids).run early).reinstated (.reinstate number) = some id) :
    let before := (Docket.opened ids).run early
    let after := (Docket.opened ids).run (early ++ .reinstate number :: late)
    ∃ (m : Match) (txid : String) (fundBy mined : Nat) (answer : String -> Option Nat),
      before.store.getMatch id = some m /\ m.missedParticipantDeadline = true /\
      m.status = .cancelled /\ m.releaseSigs = none /\
      m.btcFunding.map Prod.fst = some txid /\ m.participantFundBy = some fundBy /\
      .inquire id answer ∈ early /\ answer txid = some mined /\ mined <= fundBy /\
      (∀ again, after.reinstated (.reinstate again) ≠ some id) /\
      ∃ (strike : Strike) (first middle last : List StrikeMark),
        strike.owner = id /\ strike.key = m.participantToken /\
        m.closedAt = some strike.time /\
        before.marks = first ++ .add strike :: middle /\
        after.marks = before.marks ++ .lift strike :: last /\
        (Ordered 0 after.marks -> ∀ now, clockAfter 0 after.marks <= now -> ∀ token,
          after.store.strikes token now =
            (((first ++ middle ++ last).foldl (Mark.play inWindow) (fun _ => []) token).filter
              (inWindow · now)).length) := by
  intro before after
  obtain ⟨lawfulEarly, lawfulRest⟩ := Docket.lawful_append.mp lawful
  have kept : before.Kept := (Docket.kept_opened distinct).run lawfulEarly
  have keptAfter : after.Kept := (Docket.kept_opened distinct).run lawful
  have reaches : after = (before.step (.reinstate number)).run late := by
    simp only [before, after, Docket.run, foldl_append, foldl_cons]
  -- What the reinstatement asked, and the match it found.
  rcases asks : before.asked[number]? with _ | inquiry
  · simp [Docket.reinstated, before, asks] at done
  rcases found : reinstatable before.store inquiry with _ | m
  · have refused := (Docket.step_refused asks found).2
    rw [refused] at done
    cases done
  obtain ⟨strike, stands, missed, result, marks, _, writes, _⟩ := kept.step_reinstate asks found
  have own : inquiry.id = id := by
    rw [result] at done
    exact some.inj done
  obtain ⟨stored, checks⟩ := filter_eq_some_iff.mp found
  simp only [eligible, decide_eq_true_eq] at checks
  have mem : inquiry ∈ before.asked := mem_of_getElem? asks
  obtain ⟨inTime, clock⟩ := kept.asked inquiry mem
  obtain ⟨answer, asked, answered⟩ :=
    ((Docket.opened ids).asked_run early mem).resolve_left not_mem_nil
  have ownStrike : strike.owner = id := by
    rw [<- missed.owner, id_of_getMatch stored, own]
  -- The strike of this match was added once and is lifted here for the first time.
  obtain ⟨first, middle, split⟩ :=
    append_of_mem ((add_mem_of_stands stands).resolve_left not_mem_nil)
  have unlifted : .lift strike ∉ before.marks := by
    intro lifted
    have past := (kept.lifted lifted).2 m (by rw [ownStrike, <- own]; exact stored)
    simp [PastReinstatement, missed.status] at past
  have spared : .lift strike ∉ middle := fun lifted =>
    unlifted (split ▸ mem_append_right first (mem_cons_of_mem _ lifted))
  obtain ⟨last, rest⟩ := (before.step (.reinstate number)).marks_run late
  have marksAfter : after.marks = before.marks ++ .lift strike :: last := by
    rw [reaches, rest, marks, append_assoc]
    rfl
  refine ⟨m, inquiry.txid, inquiry.fundBy, inquiry.mined, answer, own ▸ stored, checks.1.1,
    checks.1.2.1, checks.1.2.2, checks.2, clock.2 m stored, own ▸ asked, answered, inTime,
    fun again twice => ?_, strike, first, middle, last, ownStrike, missed.token.symm,
    missed.closedAt, split, marksAfter, fun ordered now reached token => ?_⟩
  · -- A second reinstatement would find the match cancelled.
    have past : Of PastReinstatement strike.owner after.store :=
      keptAfter.lifted (by rw [marksAfter]; simp)
    rcases asksAgain : after.asked[again]? with _ | other
    · simp [Docket.reinstated, asksAgain] at twice
    rcases foundAgain : reinstatable after.store other with _ | now
    · rw [(Docket.step_refused asksAgain foundAgain).2] at twice
      cases twice
    obtain ⟨_, _, missedAgain, resultAgain, _⟩ :=
      keptAfter.step_reinstate asksAgain foundAgain
    rw [resultAgain] at twice
    have held := (filter_eq_some_iff.mp foundAgain).1
    rw [some.inj twice, <- ownStrike] at held
    have status := past.2 now held
    simp [PastReinstatement, missedAgain.status] at status
  rw [marksAfter, split] at ordered reached
  have fits := keptAfter.fits
  rw [marksAfter, split] at fits
  have books := keptAfter.books
  rw [marksAfter, split] at books
  unfold strikes
  rw [books]
  exact (filter_without inWindow_backwards spared ordered fits reached token).length_eq

/-! ## Runs with one strike taken back -/

theorem elsewhere_make {rest : List String} {made : Match} (isMade : Made made)
    (path : ReflTransGen Calm made m) (supply : store.ids = m.id :: rest) :
    Elsewhere store ({ store with ids := rest }.saveMatch m) := by
  refine ⟨fun fresh => ?_, rfl⟩
  have nodup := fresh.nodup
  rw [supply] at nodup
  obtain ⟨drawn, nodupRest⟩ := nodup_cons.mp nodup
  have left : ∀ id ∈ rest, id ∈ store.ids := fun id mem =>
    supply ▸ mem_cons_of_mem m.id mem
  refine ⟨⟨nodupRest, forall_put drawn fun old mem => fresh.drawn old (left _ mem)⟩, left,
    fun {id now} stored => ?_⟩
  rcases get?_put_cases stored with ⟨rfl, rfl⟩ | ⟨_, old⟩
  · exact .inr ⟨supply ▸ mem_cons_self, made, isMade, path⟩
  · exact .inl ⟨now, old, .refl⟩

namespace StrikeSample

open LifecycleSample

def terms (id : String) : SwapTerms where
  matchId := id
  network := "bitcoin"
  xbtSat := 200000
  btcSat := 100000
  priceSatPerXbt := 50000000
  feeBps := 0
  feeAddress := ""
  matchedAt := 10
  xbtLocktime := 1000
  btcLocktime := 500
  xbtConfs := 6
  btcConfs := 1
  acceptBy := 20
  initiatorFundBy := 30
  contractVersion := contractV2

def proposed (id : String) : Match :=
  buildMatch id (terms id) (seller.toOffer "s" none) (buyer.toOffer "b" none)

def waiting (id : String) (fundBy : Nat) : Match :=
  { proposed id with
    accepted := (true, true)
    status := .initiatorFunded
    xbtFunding := some ("xbt", 0)
    participantFundBy := some fundBy }

theorem waiting_path (id : String) (fundBy : Nat) :
    ReflTransGen Calm (proposed id) (waiting id fundBy) := by
  let accepted : Match := { proposed id with accepted := (true, true), status := .accepted }
  let funded : Match := { accepted with status := .initiatorFunded, xbtFunding := some ("xbt", 0) }
  have accepts : Calm (proposed id) accepted := ⟨.inr (.accepts (true, true) rfl), rfl⟩
  have funds : Calm accepted funded :=
    ⟨.inr (.funds .initiator ("xbt", 0) rfl (.inl rfl)), rfl⟩
  have clock : Calm funded (waiting id fundBy) := ⟨.inr (.clock fundBy rfl rfl), rfl⟩
  exact ((ReflTransGen.single accepts).tail funds).tail clock

/-- Another match of the same two enters the store. -/
def enter (docket : Docket) (id : String) (fundBy : Nat) : StrikeMove :=
  .other ({ docket.store with ids := docket.store.ids.tail }.saveMatch (waiting id fundBy))

def record (docket : Docket) (m : Match) : StrikeMove :=
  .other (docket.store.saveMatch (m.setFunding .btc ("btc", 0)))

theorem lawful_enter (rest : List String)
    (supply : docket.store.ids = id :: rest) : (enter docket id fundBy).Lawful docket.store := by
  have made := elsewhere_make ⟨_, _, _, _, rfl⟩ (waiting_path id fundBy) supply
  simp only [enter, StrikeMove.Lawful, supply, tail_cons]
  exact made

theorem lawful_record (stored : docket.store.getMatch m.id = some m)
    (unset : m.btcFunding = none) : (record docket m).Lawful docket.store :=
  elsewhere_writes stored ⟨.inr (.records .btc ("btc", 0) unset), rfl⟩ ⟨rfl, rfl⟩ rfl

/-- The match `a` as the deadline pass at 100 leaves it. -/
def late : Match := ticked 100 (waiting "a" 99)

def start : Docket := Docket.opened ["a", "b", "c"]

def struck : List StrikeMove := [enter start "a" 99, .pass 100]

def found (moves : List StrikeMove) : List StrikeMove :=
  moves ++ [record (start.run moves) late, .inquire "a" fun _ => some 90]

theorem lawful_struck : start.Lawful struck := ⟨lawful_enter ["b", "c"] rfl, trivial, trivial⟩

theorem lawful_found (lawful : start.Lawful moves)
    (stored : (start.run moves).store.getMatch "a" = some late) (number : Nat) :
    start.Lawful (found moves ++ [.reinstate number]) := by
  rw [found, append_assoc]
  exact Docket.lawful_append.mpr
    ⟨lawful, lawful_record (m := late) stored rfl, trivial, trivial, trivial⟩

/-- The same with the clock stepping back one second: a strike at 99 and another
at 100 in between. -/
def setBack : List StrikeMove :=
  let first := struck ++ [enter (start.run struck) "b" 50, .pass 99]
  first ++ [enter (start.run first) "c" 99, .pass 100]

theorem lawful_setBack : start.Lawful setBack := by
  refine Docket.lawful_append.mpr ⟨Docket.lawful_append.mpr ⟨lawful_struck, ?_, trivial, trivial⟩,
    ?_, trivial, trivial⟩
  · exact lawful_enter ["c"] (by decide)
  · exact lawful_enter [] (by decide)

end StrikeSample

open StrikeSample

/-- A match reinstated once, its only strike gone. -/
theorem strikes_undone_late : start.Lawful (found struck ++ [.reinstate 0]) /\
      (∀ again, (start.run (found struck ++ [.reinstate 0])).reinstated (.reinstate again) ≠
        some "a") /\ (start.run (found struck ++ [.reinstate 0])).store.strikes "participant" 100 =
          0 := by
  have lawful : start.Lawful (found struck ++ [.reinstate 0]) :=
    lawful_found lawful_struck (by decide) 0
  have distinct : ["a", "b", "c"].Nodup := by decide
  have done : (start.run (found struck)).reinstated (.reinstate 0) = some "a" := by
    decide
  obtain ⟨_, _, _, _, _, _, _, _, _, _, _, _, _, _, once, _⟩ :=
    strikes_undone distinct lawful done
  exact ⟨lawful, once, by decide⟩

/-- With the clock set back the strike taken back is another match's: one is left of two. -/
theorem strike_lost : start.Lawful (found setBack ++ [.reinstate 0]) /\
      (start.run (found setBack)).reinstated (.reinstate 0) = some "a" /\
      (start.run (found setBack ++ [.reinstate 0])).marks =
        [.add ⟨"a", "participant", 100⟩, .add ⟨"b", "participant", 99⟩,
          .add ⟨"c", "participant", 100⟩, .lift ⟨"a", "participant", 100⟩] /\
      (start.run (found setBack ++ [.reinstate 0])).store.strikes "participant" 100 = 1 /\
      ((([.add ⟨"b", "participant", 99⟩, .add ⟨"c", "participant", 100⟩] :
        List StrikeMark).foldl (Mark.play inWindow) (fun _ => []) "participant").filter
          (inWindow · 100)).length = 2 :=
  ⟨lawful_found lawful_setBack (by decide) 0, by decide, by decide,
    by decide, by decide⟩

end Fortis.Edge
