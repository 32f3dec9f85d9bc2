import Fortis.Edge.FundingWrites
import Fortis.Lib.Attest

/-!
# Recorded fundings are real

A funding is checked on chain outside the lock, against a copy of the match, and written later under
the lock.  What the check reads of a match is set once, so what the chain showed for the copy holds
for the match as it is stored ever after.
-/

namespace Fortis.Edge

open Fortis.Core Lib List Option Proc

/-- The chain reader reports `outpoint` to pay exactly the leg of `m`. -/
def Shown (sw : Swap) (outside : Outside) (m : Match) (chain : Chain) (outpoint : Outpoint) :
    Prop :=
  ∃ htlc : OutPoint, outpoint = (htlc.txid.toStr, htlc.vout) ∧
    legPaidOnChain sw.lib (outside.chain.map ChainView.createdOutput) m chain htlc = .ok ()

variable {lib : BitcoinLib} {chain : Chain} {moves more : EdgeRun} {ids : List String}
  {now m : Match} {outpoint : Outpoint} {before after : Store}

theorem legContract_setOnce (kept : SetOnce m now)
    {contract : HtlcContract} (built : legContract lib m chain = some contract) :
    legContract lib now chain = some contract := by
  have keys : now.keys = m.keys ∧ now.hashlock = m.hashlock := by
    unfold legContract at built
    simp only [bind_eq_bind, bind_eq_some_iff] at built
    obtain ⟨initiator, isInitiator, participant, isParticipant, _, ⟨hex, isHex, _⟩, _⟩ := built
    have first : sideOf .initiator now.keys = some initiator := kept.keys isInitiator
    have second : sideOf .participant now.keys = some participant := kept.keys isParticipant
    exact ⟨Prod.ext (first.trans isInitiator.symm) (second.trans isParticipant.symm),
      (kept.hashlock isHex).trans isHex.symm⟩
  rw [← built]
  unfold legContract
  rw [keys.1, keys.2, kept.terms]

theorem legPaidOnChain_setOnce {reader : Option ChainReader}
    (kept : SetOnce m now) {htlc : OutPoint}
    (paid : legPaidOnChain lib reader m chain htlc = .ok ()) :
    legPaidOnChain lib reader now chain htlc = .ok () := by
  have script : legWitnessScript lib now chain = legWitnessScript lib m chain := by
    rcases built : legContract lib m chain with _ | contract
    · unfold legPaidOnChain legWitnessScript at paid
      rw [built] at paid
      cases paid
    unfold legWitnessScript
    rw [legContract_setOnce kept built, built]
  rw [← paid]
  unfold legPaidOnChain
  rw [script, kept.terms]

theorem Shown.setOnce {sw : Swap} {outside : Outside}
    (shown : Shown sw outside m chain outpoint) (kept : SetOnce m now) :
    Shown sw outside now chain outpoint := by
  obtain ⟨htlc, same, paid⟩ := shown
  exact ⟨htlc, same, legPaidOnChain_setOnce kept paid⟩

abbrev EdgeViews := Proc.Views Store Outside

/-- What a process may record for a match it read: a funding the match had, or one the
chain showed to pay it. -/
def Justified (sw : Swap) (views : EdgeViews) (id : String) (chain : Chain) (outpoint : Outpoint) :
    Prop :=
  ∃ early ∈ views, ∃ m, early.1.getMatch id = some m ∧
    (m.funding chain = some outpoint ∨ ∃ late ∈ views, Shown sw late.2 m chain outpoint)

def Permitted (sw : Swap) (views : EdgeViews) (before after : Store) : Prop :=
  Follows Moved before after ∧ (Fresh before → Grants (Justified sw views) before after)

def Quiet (before after : Store) : Prop :=
  Follows Moved before after ∧ (Fresh before → Grants nothing before after)

theorem Grants.mono {granted weaker : String → Chain → Outpoint → Prop}
    (grants : Grants granted before after)
    (le : ∀ ⦃id chain outpoint⦄, granted id chain outpoint → weaker id chain outpoint) :
    Grants weaker before after :=
  fun _ _ _ _ held funded => (grants held funded).imp_right fun given => le given

theorem Quiet.permitted {sw : Swap} {views : EdgeViews}
    (quiet : Quiet before after) : Permitted sw views before after :=
  ⟨quiet.1, fun fresh => (quiet.2 fresh).mono fun _ _ _ never => never.elim⟩

theorem steady_quiet (sw : Swap) : Steady sw Quiet := by
  have follows := kept_follows sw
  have same : ∀ {before after : Store}, Follows Moved before after → Untouched before after →
      Quiet before after := fun moved untouched =>
    ⟨moved, fun _ => (Grants.refl _).untouched untouched⟩
  exact
    { refl := fun store => same (follows.refl store) (Untouched.refl store)
      locked := fun op quiet store =>
        ⟨follows.locked op store, fun fresh => op.grants sw.env quiet fresh⟩
      relays := fun matchId fromRole body store =>
        same (follows.relays matchId fromRole body store) ⟨rfl, rfl⟩
      watches := fun job store => same (follows.watches job store) ⟨rfl, rfl⟩
      dropsMsg := fun store key => same (follows.dropsMsg store key) ⟨rfl, rfl⟩
      dropsWatch := fun store key => same (follows.dropsWatch store key) ⟨rfl, rfl⟩
      dropsMatch := fun store key => by
        refine ⟨follows.dropsMatch store key, fun _ id now chain outpoint held funded => ?_⟩
        rw [Store.getMatch, Table.get?_delete] at held
        split at held
        · cases held
        · exact .inl ⟨now, held, funded⟩
      dropsOffer := fun store key => same (follows.dropsOffer store key) ⟨rfl, rfl⟩
      dropsStrikes := fun now store => same (follows.dropsStrikes now store)
        ((purgeStrikes_frame now).relates store).untouched }

/-! ## Routes -/

section

variable {sw : Swap} {views : EdgeViews} {α β : Type}

def RouteM.Attests (sw : Swap) (post : α → EdgeViews → Prop) (route : RouteM α)
    (views : EdgeViews) : Prop :=
  Proc.Attests (Permitted sw) (fun ended seen => ∀ value, ended = .ok value → post value seen)
    route.run views

variable {chain : Chain} {seen : EdgeViews} {m : Match} {outpoint : Outpoint} {route : RouteM α}
  {mid : α → EdgeViews → Prop} (presented : Option (Fixed 32)) (id : String) (role : SwapRole)

theorem attests_then {post : β → EdgeViews → Prop}
    {rest : α → RouteM β} (first : route.Attests sw mid views)
    (later : ∀ value seen, views <:+ seen → mid value seen → (rest value).Attests sw post seen) :
    (route >>= rest).Attests sw post views :=
  attests_exceptBind first later nofun

theorem RouteM.Attests.any
    (first : route.Attests sw mid views) : route.Attests sw (fun _ _ => True) views :=
  attests_mono first fun _ _ _ _ _ _ => trivial

theorem attests_lift (value : Except Reply α) :
    (lift value).Attests sw (fun result _ => value = .ok result) views := fun _ same => same

theorem permitted_refl (seen : EdgeViews) (store : Store) : Permitted sw seen store store :=
  ((steady_quiet sw).refl store).permitted

theorem attests_peek (read : Store → Outside → α) :
    (peek read).Attests sw (fun value seen => ∃ view ∈ seen, value = read view.1 view.2) views := by
  refine attests_bind (attests_look read permitted_refl) fun value seen _ isRead => ?_
  intro result same
  cases same
  exact isRead

theorem attests_quiet (kept : RouteM.Keeps Quiet route) :
    route.Attests sw (fun _ _ => True) views :=
  attests_mono (attests_of_keeps kept fun _ _ _ quiet => quiet.permitted) fun _ _ _ _ _ _ => trivial

theorem attests_locked {prog : Outside → StoreM α}
    (may : ∀ state outside, Permitted sw ((state, outside) :: views) state
      (finalState (prog outside) state)) : (locked prog).Attests sw (fun _ _ => True) views :=
  attests_bind (attests_atomically may) fun _ _ _ _ _ _ => trivial

def Copy (views : EdgeViews) (m : Match) : Prop := ∃ view ∈ views, view.1.getMatch m.id = some m

theorem Copy.later (copy : Copy views m) (longer : views <:+ seen) : Copy seen m := by
  obtain ⟨view, isView, stored⟩ := copy
  exact ⟨view, longer.subset isView, stored⟩

theorem Copy.of_getMatch {view : Store × Outside} {id : String}
    (isView : view ∈ views) (found : view.1.getMatch id = some m) : m.id = id ∧ Copy views m := by
  have own := Store.id_of_getMatch found
  exact ⟨own, view, isView, own ▸ found⟩

theorem permitted_section {prog : StoreM α} {id : String} {leg : Chain} (completes : Completes
      (Decides fun other chain want => other = id ∧ chain = leg ∧ want = outpoint) prog)
    (justified : Justified sw seen id leg outpoint) (state : Store) :
    Permitted sw seen state (finalState prog state) := by
  have decides := completes.relates state
  refine ⟨decides.step.follows, fun _ => decides.grants.mono ?_⟩
  rintro other chain want ⟨rfl, rfl, rfl⟩
  exact justified

theorem justified_of_shown (copy : Copy views m) {htlc : OutPoint}
    {late : Store × Outside} (isLate : late ∈ views)
    (paid : legPaidOnChain sw.lib (late.2.chain.map ChainView.createdOutput) m chain htlc =
      .ok ()) : Justified sw views m.id chain (htlc.txid.toStr, htlc.vout) := by
  obtain ⟨early, isEarly, stored⟩ := copy
  exact ⟨early, isEarly, m, stored, .inr ⟨late, isLate, htlc, rfl, paid⟩⟩

theorem Justified.later {id : String}
    (justified : Justified sw views id chain outpoint) (longer : views <:+ seen) :
    Justified sw seen id chain outpoint := by
  obtain ⟨early, isEarly, m, stored, had | ⟨late, isLate, shown⟩⟩ := justified
  · exact ⟨early, longer.subset isEarly, m, stored, .inl had⟩
  · exact ⟨early, longer.subset isEarly, m, stored, .inr ⟨late, longer.subset isLate, shown⟩⟩

theorem ok_of_mapError {ε ε' : Type} {value : Except ε α} {change : ε → ε'} {result : α}
    (passed : value.mapError change = .ok result) : value = .ok result := by
  rcases value with raised | given
  · cases passed
  cases passed
  rfl

theorem attests_checked (copy : Copy views m) (chain : Chain) (htlc : OutPoint)
    (reply : Unpaid → Reply) {next : RouteM α}
    (records : ∀ seen, Justified sw seen m.id chain (htlc.txid.toStr, htlc.vout) →
      next.Attests sw (fun _ _ => True) seen) :
    RouteM.Attests sw (fun _ _ => True) (do
      let paid ← peek fun _ outside =>
        legPaidOnChain sw.lib (outside.chain.map ChainView.createdOutput) m chain htlc
      lift (paid.mapError reply)
      next) views := by
  refine attests_then (attests_peek _) fun paid seen longer isPaid => ?_
  obtain ⟨view, isView, isRead⟩ := isPaid
  refine attests_then (attests_lift _) fun _ later longerStill passed => records later ?_
  rw [isRead] at passed
  exact (justified_of_shown (copy.later longer) isView (ok_of_mapError passed)).later longerStill

theorem attests_recordLegFunding (copy : Copy views m) (chain : Chain)
    (htlc : OutPoint) (byOwner : Bool) :
    (recordLegFunding sw m chain htlc byOwner).Attests sw (fun _ _ => True) views := by
  unfold recordLegFunding
  cases m.funding chain with
  | some existing => exact (attests_lift _).any
  | none =>
    refine attests_then (attests_lift _) fun _ seen longer _ => ?_
    refine attests_checked (copy.later longer) chain htlc _ fun later justified => ?_
    refine attests_then (attests_locked fun state outside => ?_) fun _ _ _ _ =>
      (attests_lift _).any
    exact permitted_section (recordSection_decides _ _ _) (justified.later (suffix_cons _ _)) state

theorem attests_timelyFunded (htlc : OutPoint) :
    (timelyFunded sw id role htlc).Attests sw (fun _ _ => True) views := by
  have funds : ∀ seen, Justified sw seen id role.sendChain (htlc.txid.toStr, htlc.vout) →
      RouteM.Attests sw (fun _ _ => True)
        (locked fun _ => fundedSection id role (htlc.txid.toStr, htlc.vout)) seen := by
    intro seen justified
    refine attests_locked fun state outside => ?_
    exact permitted_section (fundedSection_decides _ _ _) (justified.later (suffix_cons _ _)) state
  refine attests_then (attests_peek _) fun found seen longer isFound => ?_
  obtain ⟨view, isView, isRead⟩ := isFound
  refine attests_then (attests_lift _) fun m later longerStill passed => ?_
  rw [isRead] at passed
  obtain ⟨own, copy⟩ := Copy.of_getMatch (longerStill.subset isView) (some_of_orFail passed)
  split
  next recorded =>
    obtain ⟨early, isEarly, stored⟩ := copy
    exact funds later ⟨early, isEarly, m, own ▸ stored, .inl recorded⟩
  · refine attests_then (attests_lift _) fun _ last longest _ => ?_
    exact attests_checked (copy.later longest) role.sendChain htlc unpaidReply fun seen justified =>
      funds seen (own ▸ justified)

theorem attests_lateParticipantFunded (copy : Copy views m) (htlc : OutPoint)
    {relayed : RouteM Reply} (relays : RouteM.Keeps Quiet relayed) :
    (lateParticipantFunded sw m htlc relayed).Attests sw (fun _ _ => True) views := by
  refine attests_then (attests_recordLegFunding copy .btc htlc true) fun _ seen _ _ => ?_
  have steady := steady_quiet sw
  refine attests_quiet (keeps_exceptBind
    (keeps_exceptLift (keeps_reinstateIfFundedInTime steady m.id)) fun found => ?_)
  split
  · exact relays
  · trivial
  · trivial
  · refine keeps_exceptBind (keeps_peek steady _) fun already => ?_
    split <;> trivial
  · trivial

theorem attests_fundedRoute (chain txid : String) (vout : Nat) :
    (fundedRoute sw id role chain txid vout).Attests sw (fun _ _ => True) views := by
  have steady := steady_quiet sw
  refine attests_then (attests_quiet (keeps_peekMatchFor steady role id _ _)) fun _ _ _ _ => ?_
  refine attests_then (attests_lift _) fun _ _ _ _ => ?_
  refine attests_then (attests_lift _) fun _ _ _ _ => ?_
  refine attests_then (attests_lift _) fun parsed seen _ _ => ?_
  have missed : (peekMatchFor role id none fun m =>
      if m.missedParticipantDeadline then some m else none).Attests sw
        (fun found seen => ∀ m, found = some m → Copy seen m) seen := by
    cases role with
    | initiator =>
      intro value same m isSome
      cases same
      cases isSome
    | participant =>
      refine attests_mono (attests_peek _) fun ended later _ isRead value same m isSome => ?_
      obtain ⟨view, isView, read⟩ := isRead value same
      rcases found : view.1.getMatch id with _ | stored
      · rw [read, found] at isSome
        cases isSome
      rw [read, found] at isSome
      simp only [map_some, getD_some] at isSome
      split at isSome
      · cases isSome
        exact (Copy.of_getMatch isView found).2
      · cases isSome
  refine attests_then missed fun found later _ copies => ?_
  cases found with
  | none => exact attests_timelyFunded id role ⟨parsed, vout⟩
  | some m =>
    exact attests_lateParticipantFunded (copies m rfl) ⟨parsed, vout⟩ (keeps_relay steady _ _ _)

theorem attests_authedMatch :
    (authedMatch presented id).Attests sw (fun authed seen => Copy seen authed.1) views := by
  refine attests_then (attests_peek _) fun found seen _ isFound => ?_
  obtain ⟨view, isView, isRead⟩ := isFound
  refine attests_then (attests_lift _) fun m later longer passed => ?_
  rw [isRead] at passed
  obtain ⟨_, copy⟩ := Copy.of_getMatch (longer.subset isView) (some_of_orFail passed)
  refine attests_then (attests_lift _) fun role last longest _ => ?_
  intro authed same
  cases same
  exact copy.later longest

theorem attests_postMessage (msg : Msg) :
    (postMessage sw presented id msg).Attests sw (fun _ _ => True) views := by
  have steady := steady_quiet sw
  refine attests_then (attests_authedMatch presented id) fun authed _ _ _ => ?_
  refine attests_then (attests_peek _) fun _ _ _ _ => ?_
  refine attests_then (attests_lift _) fun _ _ _ _ => ?_
  cases msg with
  | funded chain txid vout => exact attests_fundedRoute id authed.2 chain txid vout
  | _ => exact attests_quiet (keeps_onMessage_unfunded steady id authed.2 (by simp))

theorem attests_watch (req : WatchReq) :
    (watch sw presented req).Attests sw (fun _ _ => True) views := by
  have steady := steady_quiet sw
  refine attests_then (attests_authedMatch presented req.matchId) fun authed first _ copy => ?_
  refine attests_then (attests_lift _) fun chain second longer2 _ => ?_
  refine attests_then (attests_lift _) fun kind third longer3 _ => ?_
  refine attests_then (attests_lift _) fun _ fourth longer4 _ => ?_
  refine attests_then (attests_lift _) fun txid fifth longer5 _ => ?_
  refine attests_then (attests_lift _) fun _ sixth longer6 _ => ?_
  refine attests_then (attests_lift _) fun _ seventh longer7 _ => ?_
  have still : Copy seventh authed.1 := copy.later
    (longer2.trans (longer3.trans (longer4.trans (longer5.trans (longer6.trans longer7)))))
  refine attests_then (attests_recordLegFunding still _ _ _) fun _ _ _ _ => ?_
  refine attests_quiet (keeps_exceptBind (keeps_exceptLift ?_) fun _ => ?_)
  · split
    · exact keeps_reinstateIfFundedInTime steady _
    · trivial
  · exact keeps_lockedOr fun _ => steady.watches _

end

/-- Every process of the edge can answer for the fundings it records. -/
theorem attests_serve (sw : Swap) (request : Request) :
    (serve sw request).Attests (Permitted sw) (fun _ _ => True) [] := by
  have steady := steady_quiet sw
  have quiet : ∀ {α : Type} {proc : EdgeProc α}, proc.Keeps Quiet →
      proc.Attests (Permitted sw) (fun _ _ => True) [] := fun kept =>
    attests_of_keeps kept fun _ _ _ quiet => quiet.permitted
  cases request with
  | postMessage presented id msg =>
    exact attests_bind (attests_postMessage presented id msg) fun _ _ _ _ => trivial
  | watch presented req =>
    exact attests_bind (attests_watch presented req) fun _ _ _ _ => trivial
  | recover tags claim secrets =>
    exact quiet (keeps_bind (keeps_recover steady tags claim secrets) fun _ => trivial)
  | offers op =>
    have other : op.val.records = false := by
      obtain ⟨op, isOffers⟩ := op
      cases op <;> first | rfl | cases isOffers
    exact quiet (keeps_bind (keeps_atomically fun _ => steady.locked op.val other) fun _ => trivial)
  | pass => exact quiet (keeps_runOnce steady)

/-! ## Runs -/

/-- At some action of the run the chain reader reported `outpoint` to pay the leg. -/
def ShownIn (sw : Swap) (moves : EdgeRun) (m : Match) (chain : Chain) (outpoint : Outpoint) :
    Prop :=
  ∃ index outside, .act index outside ∈ moves ∧ Shown sw outside m chain outpoint

theorem ShownIn.later {sw : Swap}
    (shown : ShownIn sw moves m chain outpoint) (longer : moves <+: more)
    (kept : SetOnce m now) : ShownIn sw more now chain outpoint := by
  obtain ⟨index, outside, happened, reported⟩ := shown
  exact ⟨index, outside, longer.subset happened, reported.setOnce kept⟩

def Evidenced (sw : Swap) (ids : List String) (moves : EdgeRun) : Prop :=
  ∀ ⦃id m chain outpoint⦄, (storeAfter sw ids moves).getMatch id = some m →
    m.funding chain = some outpoint → ShownIn sw moves m chain outpoint

theorem setOnce_between (sw : Swap) (nodup : ids.Nodup) (longer : moves <+: more) {id : String}
    (stored : (storeAfter sw ids moves).getMatch id = some m)
    (held : (storeAfter sw ids more).getMatch id = some now) : SetOnce m now := by
  obtain ⟨later, rfl⟩ := longer
  exact setOnce_of_moves
    ((follows_between sw ids moves later).moved (fresh_storeAfter sw nodup moves) stored held)

theorem prefix_of_happened {early rest : EdgeRun} {step move : Move Request Outside}
    (split : moves ++ [step] = early ++ move :: rest) : early <+: moves := by
  have longer : early <+: moves ++ [step] := ⟨move :: rest, split.symm⟩
  refine (prefix_concat_iff.mp longer).resolve_left fun same => ?_
  have lengths := congrArg length split
  rw [same] at lengths
  simp only [length_append, length_cons, length_nil] at lengths
  omega

theorem evidenced_step (sw : Swap) (nodup : ids.Nodup)
    (before : ∀ early, early <+: moves → Evidenced sw ids early) (step : Move Request Outside) :
    Evidenced sw ids (moves ++ [step]) := by
  have longer : moves <+: moves ++ [step] := prefix_append _ _
  have attested := Pool.attested_run (attests_serve sw) (Store.opened ids) moves
  intro id now chain outpoint held funded
  -- A funding the match had before was shown before.
  have had : ∀ m, (storeAfter sw ids moves).getMatch id = some m →
      m.funding chain = some outpoint → ShownIn sw (moves ++ [step]) now chain outpoint := by
    intro m stored already
    exact (before moves prefix_rfl stored already).later longer
      (setOnce_between sw nodup longer stored held)
  rcases (Pool.attested_step (attests_serve sw) attested step).2 with
    same | ⟨views, happened, _, grants⟩
  · refine had now ?_ funded
    rw [storeAfter, ← same]
    exact held
  rcases grants (fresh_storeAfter sw nodup moves) held funded with
    ⟨m, stored, already⟩ | ⟨early, isEarly, m, stored, evidence⟩
  · exact had m stored already
  obtain ⟨past, _, _, split, isPast⟩ := happened early isEarly
  have prior := prefix_of_happened split
  rw [isPast] at stored
  have kept := setOnce_between sw nodup (prior.trans longer) stored held
  rcases evidence with already | ⟨late, isLate, shown⟩
  · exact (before past prior stored already).later (prior.trans longer) kept
  obtain ⟨_, index, _, isMove, _⟩ := happened late isLate
  refine ⟨index, late.2, ?_, shown.setOnce kept⟩
  rw [isMove]
  exact mem_append_right _ mem_cons_self

theorem evidenced_run (sw : Swap) (nodup : ids.Nodup) (moves : EdgeRun) :
    Evidenced sw ids moves := by
  suffices all : ∀ early, early <+: moves → Evidenced sw ids early from all moves prefix_rfl
  induction moves using reverseRecOn with
  | nil =>
    intro early isEarly id m chain outpoint stored
    cases prefix_nil.mp isEarly
    exact nomatch stored
  | append_singleton rest step ih =>
    intro early isEarly
    rcases prefix_concat_iff.mp isEarly with rfl | shorter
    · exact evidenced_step sw nodup ih step
    · exact ih early shorter

/-- The step that sets the XBT funding either moves the match on from accepted, or
changes nothing else. -/
theorem Moved.setsXbt (moved : Moved m now)
    (unset : m.xbtFunding = none) (set : now.xbtFunding = some outpoint) : (m.status = .accepted ∧
        now = { m with xbtFunding := some outpoint, status := .initiatorFunded }) ∨
      now = { m with xbtFunding := some outpoint } := by
  have still : now.xbtFunding = m.xbtFunding → False := fun same => by
    rw [set, unset] at same
    cases same
  rcases moved with ⟨_, _, rfl⟩ | step
  · exact (still rfl).elim
  cases step with
  | funds role given turn slot =>
    cases role with
    | initiator =>
      cases set
      exact .inl ⟨turn, rfl⟩
    | participant => exact (still rfl).elim
  | records chain given free =>
    cases chain with
    | xbt =>
      cases set
      exact .inr rfl
    | btc => exact (still rfl).elim
  | rekeys role hash => cases role <;> exact (still rfl).elim
  | _ => exact (still rfl).elim

/-- A recorded funding was at some action reported to pay its leg, by the keys and hashlock the
match still has. -/
theorem fundings_real (sw : Swap) {ids : List String} (distinct : ids.Nodup) (moves : EdgeRun)
    (step : Move Request Outside) {id : String} {now : Match}
    (held : (storeAfter sw ids (moves ++ [step])).getMatch id = some now) :
    (∀ chain outpoint, now.funding chain = some outpoint →
        ShownIn sw (moves ++ [step]) now chain outpoint) ∧
      ∀ m outpoint, (storeAfter sw ids moves).getMatch id = some m → m.xbtFunding = none →
        now.xbtFunding = some outpoint → (m.status = .accepted ∧
            now = { m with xbtFunding := some outpoint, status := .initiatorFunded }) ∨
          now = { m with xbtFunding := some outpoint } := by
  refine ⟨fun chain outpoint funded => evidenced_run sw distinct _ held funded, ?_⟩
  intro m outpoint stored unset set
  exact ((follows_step sw ids moves step).moved (fresh_storeAfter sw distinct moves) stored
    held).setsXbt unset set

namespace FundingSample

open HtlcSample AgreementSample LifecycleSample

def outside : Outside := ⟨1699913610, some view, false⟩

def refund : WatchReq where
  matchId := "m"
  chain := "xbt"
  kind := "refund"
  htlcOutpoint := (xbtPrevout.txid.toStr, 0)
  notBefore := 1700086400
  variants := [hexEncode releaseRaw]
  sigs := none
  pubkey := none
  witnessScript := none

/-- Keys and hashlock are relayed for a match neither side accepted, and the
initiator hands in its refund. -/
def early : EdgeRun :=
  inTurn outside 0 (opening.take 3 ++ (opening.drop 5).take 3 ++
    [(.watch (some (secretHash .initiator)) refund, 2)])

theorem early_records :
    ((storeAfter sw supply early).getMatch "m").map (fun m => (m.status, m.xbtFunding)) =
        some (.proposed, none) ∧
      ((storeAfter sw supply (early ++ [.act 6 outside])).getMatch "m").map
          (fun m => (m.status, m.xbtFunding)) = some
            (.proposed, some (xbtPrevout.txid.toStr, 0)) := by
  decide +kernel

end FundingSample

open LifecycleSample FundingSample

theorem fundings_real_refund :
    ∃ now, (storeAfter sw supply (early ++ [.act 6 outside])).getMatch "m" = some now ∧
      ShownIn sw (early ++ [.act 6 outside]) now .xbt (xbtPrevout.txid.toStr, 0) := by
  obtain ⟨now, held, same⟩ := map_eq_some_iff.mp early_records.2
  exact ⟨now, held, (fundings_real sw (by decide) early (.act 6 outside) held).1 .xbt _
    (congrArg Prod.snd same)⟩

/-- The initiator's refund job records the XBT funding of a match still proposed. -/
theorem funded_while_proposed : ∃ (moves : EdgeRun) (step : Move Request Outside) (m now : Match),
      (storeAfter sw supply moves).getMatch "m" = some m ∧
      (storeAfter sw supply (moves ++ [step])).getMatch "m" = some now ∧
      m.status = .proposed ∧ m.xbtFunding = none ∧ now.xbtFunding ≠ none := by
  obtain ⟨m, stored, before⟩ := map_eq_some_iff.mp early_records.1
  obtain ⟨now, held, after⟩ := map_eq_some_iff.mp early_records.2
  have set : now.xbtFunding = some (xbtPrevout.txid.toStr, 0) := congrArg Prod.snd after
  exact ⟨early, .act 6 outside, m, now, stored, held, congrArg Prod.fst before,
    congrArg Prod.snd before, by simp [set]⟩

end Fortis.Edge
