import Fortis.Edge.ConservationRuns
import Fortis.Edge.OfferRoutes

/-!
# Client keys

A post and a take carry a client key, by which a repeat is told from a new request.  Each looks the
key up when it arrives and takes the matching lock later.  A post looks its key up once more under
the lock; a take does not.  A run of the desk takes the requests' steps in any order.
-/

namespace Fortis.Edge

open Fortis.Core Lib Option Table Store

/-- The body of `POST /swap/offers/{id}/take`, with the token it came under. -/
structure TakeReq where
  token : String
  secretHash : Fixed 32
  (amountSat priceSatPerXbt : Nat)
  clientId : String
  recoveryTag : Option String

def TakeReq.taker (req : TakeReq) : Taker :=
  ⟨req.token, req.secretHash, some req.clientId, req.recoveryTag⟩

inductive KeyedRequest
  | post (post : NewOffer)
  | take (offerId : String) (req : TakeReq)

def KeyedRequest.known (store : Store) : KeyedRequest → Option Offer
  | .post body => body.clientId.bind (store.offerByClient body.token)
  | .take _ req => store.offerByClient req.token req.clientId

def claimedTag (store : Store) (tag : Option String) : Except Reply Unit :=
  refuseIf (tag.any store.tagHeld) (.err 409 tagUsed)

def KeyedRequest.checked (config : Matching) (store : Store) (now : Nat) :
    KeyedRequest → Except Reply LockedOp
  | .post body => do
    claimedTag store body.recoveryTag
    checkOffer config store now body
    return .create { body with createdAt := now }
  | .take offerId req => do
    claimedTag store req.recoveryTag
    refuseIf (struckOut store req.token now) (.err 429 struckOutText)
    let maker ← orFail (store.offer offerId) (.err 404 "no such offer")
    checkTake config store maker req.taker req.amountSat req.priceSatPerXbt now
    return .takePublic offerId (takerOffer maker req.taker req.amountSat req.priceSatPerXbt now) now

/-- The section a request enters next: a new public offer is matched while it is open and finds
matches, and a taker's remainder is dropped. -/
def LockedOp.followUp (env : EdgeEnv) (store : Store) : LockedOp → Option LockedOp
  | .create post =>
    match createSection post store with
    | .ok (offer, true) _ =>
      if offer.isPrivate then none else some (.matchOffer offer post.createdAt)
    | _ => none
  | .matchOffer incoming now =>
    match Edge.matchOffer env.config incoming now store with
    | .ok (some _) after =>
      if (after.offer incoming.id).any (·.status = .opened) then some (.matchOffer incoming now)
      else none
    | _ => none
  | .takePublic offerId taker now =>
    match (LockedOp.takePublic offerId taker now).run env store with
    | .ok _ _ => store.ids.head?.map .dropRemainder
    | .error _ _ => none
  | _ => none

/-! ## The desk -/

/-- A request whose key was not found, or one that waits for the lock. -/
inductive Errand
  | asked (request : KeyedRequest)
  | waits (op : LockedOp)

structure Desk where
  store : Store
  errands : List Errand
  /-- The keys of the takes that made a match. -/
  taken : List (String × String)

def Desk.opened (ids : List String) : Desk := ⟨Store.opened ids, [], []⟩

inductive DeskMove
  | arrives (request : KeyedRequest)
  | checks (index now : Nat)
  | enters (index : Nat)
  /-- An operation of another route or of the watchtower. -/
  | other (op : LockedOp)
  | drops (id : String)

/-- The operations that bring no client key: an offer posted or taken without one, and
all that bring no offer. -/
def LockedOp.keyless (store : Store) : LockedOp → Bool
  | .create post => post.clientId.isNone
  | .matchOffer incoming _ => (store.offer incoming.id).isSome
  | .takePrivate _ taker _ => taker.clientId.isNone
  | .takePublic _ taker _ => taker.clientId.isNone
  | _ => true

def takenBy (env : EdgeEnv) (store : Store) : LockedOp → List (String × String)
  | .takePublic offerId taker now =>
    match taker.clientId, raised? ((LockedOp.takePublic offerId taker now).run env) store with
    | some key, none => [(taker.token, key)]
    | _, _ => []
  | _ => []

namespace Desk

variable (env : EdgeEnv)

def step (desk : Desk) : DeskMove → Desk
  | .arrives request =>
    match request.known desk.store with
    | some _ => desk
    | none => { desk with errands := desk.errands ++ [.asked request] }
  | .checks index now =>
    match desk.errands[index]? with
    | some (.asked request) =>
      match request.checked env.config desk.store now with
      | .ok op => { desk with errands := desk.errands.set index (.waits op) }
      | .error _ => { desk with errands := desk.errands.eraseIdx index }
    | _ => desk
  | .enters index =>
    match desk.errands[index]? with
    | some (.waits op) =>
      { store := finalState (op.run env) desk.store
        errands := match op.followUp env desk.store with
          | some next => desk.errands.set index (.waits next)
          | none => desk.errands.eraseIdx index
        taken := takenBy env desk.store op ++ desk.taken }
    | _ => desk
  | .other op =>
    if op.keyless desk.store then { desk with store := finalState (op.run env) desk.store }
    else desk
  | .drops id =>
    { desk with store := { desk.store with cfOffers := desk.store.cfOffers.delete id } }

def run (desk : Desk) (moves : List DeskMove) : Desk := moves.foldl (step env) desk

end Desk

/-- A take that enters its section still finds its key free, and no offer with a key is
purged. -/
def DeskMove.Apart (desk : Desk) : DeskMove → Prop
  | .enters index =>
    match desk.errands[index]? with
    | some (.waits (.takePublic _ taker _)) =>
      taker.clientId.bind (desk.store.offerByClient taker.token) = none
    | _ => True
  | .drops id => (desk.store.offer id).bind Offer.clientId = none
  | _ => True

instance (desk : Desk) (move : DeskMove) : Decidable (move.Apart desk) := by
  unfold DeskMove.Apart
  split
  · split <;> infer_instance
  · infer_instance
  · infer_instance

def Desk.Apart (env : EdgeEnv) : Desk → List DeskMove → Prop
  | _, [] => True
  | desk, move :: rest => move.Apart desk ∧ Desk.Apart env (desk.step env move) rest

instance Desk.decidableApart (env : EdgeEnv) :
    (desk : Desk) → (moves : List DeskMove) → Decidable (Desk.Apart env desk moves)
  | _, [] => isTrue trivial
  | desk, move :: rest =>
    have := Desk.decidableApart env (desk.step env move) rest
    inferInstanceAs (Decidable (_ ∧ _))

/-- Ids are drawn once: no stored offer's is in the supply. -/
structure DrawnOffers (store : Store) : Prop where
  nodup : store.ids.Nodup
  drawn : ∀ {id offer}, store.offer id = some offer → id ∉ store.ids

variable {rest : List String} {id : String}

section

variable {store after : Store} {env : EdgeEnv}

theorem DrawnOffers.draw (drawn : DrawnOffers store) (supply : store.ids = id :: rest) :
    DrawnOffers { store with ids := rest } ∧ store.offer id = none ∧ id ∉ rest := by
  have nodup := drawn.nodup
  rw [supply] at nodup
  refine ⟨⟨nodup.of_cons, fun found left => drawn.drawn found ?_⟩, ?_, (List.nodup_cons.mp nodup).1⟩
  · rw [supply]
    exact List.mem_cons_of_mem id left
  rcases found : store.offer id with _ | offer
  · rfl
  refine absurd ?_ (drawn.drawn found)
  rw [supply]
  exact List.mem_cons_self

/-- An offer of `start`, or `entering` under an id that is not stored there. -/
def Brought (start : Store) (entering : Option Offer) (offer : Offer) : Prop :=
  (∃ old, start.offer offer.id = some old ∧ offer.posted = old.posted) ∨
    start.offer offer.id = none ∧ entering.map Offer.posted = some offer.posted

/-- The offers of `start` are all there, as they were posted, and besides them at most
`entering`, whose id was drawn. -/
structure Carried (start : Store) (entering : Option Offer) (store : Store) : Prop where
  kept : ∀ {id old}, start.offer id = some old →
    ∃ new, store.offer id = some new ∧ new.posted = old.posted
  made : ∀ {id new}, store.offer id = some new → Brought start entering new
  ids : store.ids <:+ start.ids
  fresh : ∀ {offer}, entering = some offer → offer.id ∉ store.ids

variable {entering : Option Offer}

theorem carried_refl (fresh : ∀ {offer}, entering = some offer → offer.id ∉ store.ids) :
    Carried store entering store where
  kept found := ⟨_, found, rfl⟩
  made found := .inl ⟨_, id_of_offer found ▸ found, rfl⟩
  ids := List.suffix_rfl
  fresh := fresh

theorem carriedLaw (start : Store) (entering : Option Offer) :
    OfferLaw (Carried start entering) (Brought start entering) where
  elsewhere {before after} same carried := by
    have looked : ∀ id, after.offer id = before.offer id := fun id => by
      simp only [offer, same.offers]
    refine ⟨fun found => ?_, fun found => carried.made (looked _ ▸ found),
      same.ids.trans carried.ids, fun isIt left => carried.fresh isIt (same.ids.subset left)⟩
    rw [looked]
    exact carried.kept found
  saves {store offer} carried brought _ := by
    refine ⟨fun {id old} found => ?_, fun {id new} found => ?_, carried.ids, carried.fresh⟩
    · rw [offer_saveOffer]
      split
      next own =>
        rcases brought with ⟨known, isKnown, same⟩ | ⟨missing, _⟩
        · rw [← own, found] at isKnown
          cases isKnown
          exact ⟨offer, rfl, same⟩
        rw [← own, found] at missing
        cases missing
      · exact carried.kept found
    rcases get?_put_cases found with ⟨rfl, rfl⟩ | ⟨_, old⟩
    · exact brought
    · exact carried.made old
  stored carried found := carried.made found
  same {offer changed} same brought := by
    unfold Brought
    rw [same, id_of_posted same]
    exact brought

variable {start : Store}

theorem Carried.drawnOffers
    (carried : Carried start entering store) (drawn : DrawnOffers start) : DrawnOffers store where
  nodup := drawn.nodup.sublist carried.ids.sublist
  drawn {id new} found left := by
    have own := id_of_offer found
    rcases carried.made found with ⟨old, isOld, _⟩ | ⟨_, isIt⟩
    · exact drawn.drawn isOld (carried.ids.subset (own ▸ left))
    obtain ⟨offer, isOffer, posted⟩ := map_eq_some_iff.mp isIt
    exact carried.fresh isOffer (id_of_posted posted ▸ own ▸ left)

def Keyed (offer : Offer) (token key : String) : Prop :=
  offer.token = token ∧ offer.clientId = some key

variable {changed offer : Offer} {key token : String}

theorem Keyed.posted (keyed : Keyed offer token key)
    (same : changed.posted = offer.posted) : Keyed changed token key := by
  have tokens : changed.posted.token = offer.posted.token := congrArg Offer.token same
  have keys : changed.posted.clientId = offer.posted.clientId := congrArg Offer.clientId same
  exact ⟨tokens.trans keyed.1, keys.trans keyed.2⟩

theorem not_keyed_of_offerByClient (free : store.offerByClient token key = none)
    (found : store.offer id = some offer) : ¬ Keyed offer token key := by
  intro keyed
  have none := List.find?_eq_none.mp free offer (mem_of_get? found)
  simp only [decide_eq_true_eq] at none
  exact none keyed

def OneEach (store : Store) : Prop :=
  ∀ ⦃first second token key left right⦄, store.offer left = some first →
    store.offer right = some second → Keyed first token key → Keyed second token key → left = right

theorem OneEach.carried (oneEach : OneEach start) (carried : Carried start entering store)
    (free : ∀ {offer token key}, entering = some offer → Keyed offer token key →
      start.offerByClient token key = none) : OneEach store := by
  -- What is stored was stored under its id before, or is the one that came.
  have origin : ∀ {id offer token key}, store.offer id = some offer → Keyed offer token key →
      (∃ old, start.offer id = some old ∧ Keyed old token key) ∨
        ∃ came, entering = some came ∧ came.id = id ∧ Keyed came token key := by
    intro id offer token key found keyed
    have own := id_of_offer found
    rcases carried.made found with ⟨old, isOld, same⟩ | ⟨_, isIt⟩
    · exact .inl ⟨old, own ▸ isOld, keyed.posted same.symm⟩
    obtain ⟨came, isCame, same⟩ := map_eq_some_iff.mp isIt
    exact .inr ⟨came, isCame, (id_of_posted same).trans own, keyed.posted same⟩
  intro first second token key left right isFirst isSecond keyedFirst keyedSecond
  rcases origin isFirst keyedFirst with ⟨one, isOne, keyedOne⟩ | ⟨came, isCame, own, keyedCame⟩
  · rcases origin isSecond keyedSecond with ⟨two, isTwo, keyedTwo⟩ | ⟨came, isCame, _, keyedCame⟩
    · exact oneEach isOne isTwo keyedOne keyedTwo
    · exact absurd keyedOne (not_keyed_of_offerByClient (free isCame keyedCame) isOne)
  rcases origin isSecond keyedSecond with ⟨two, isTwo, keyedTwo⟩ | ⟨other, isOther, same, _⟩
  · exact absurd keyedTwo (not_keyed_of_offerByClient (free isCame keyedCame) isTwo)
  rw [isCame] at isOther
  cases isOther
  exact own.symm.trans same

/-- What an operation does to the offers: none is lost, ids are drawn once, and a key
comes at most once. -/
structure Turns (store after : Store) : Prop where
  drawn : DrawnOffers after
  ids : after.ids <:+ store.ids
  kept : ∀ {id old}, store.offer id = some old →
    ∃ new, after.offer id = some new ∧ new.posted = old.posted
  oneEach : OneEach store → OneEach after

theorem turns_refl (drawn : DrawnOffers store) : Turns store store :=
  ⟨drawn, List.suffix_rfl, fun found => ⟨_, found, rfl⟩, id⟩

def LockedOp.KeyFree (store : Store) : LockedOp → Prop
  | .matchOffer incoming _ => (store.offer incoming.id).isSome ∨
      incoming.clientId = none ∧ incoming.id ∉ store.ids
  | .takePrivate _ taker _ => taker.clientId.bind (store.offerByClient taker.token) = none
  | .takePublic _ taker _ => taker.clientId.bind (store.offerByClient taker.token) = none
  | _ => True

theorem turns_of_drawn {α : Type} (drawn : DrawnOffers store) (offer : Offer)
    (supply : store.ids = offer.id :: rest)
    (free : offer.clientId.bind (store.offerByClient offer.token) = none) {prog : StoreM α}
    (keeps : ∀ {inv allowed}, OfferLaw inv allowed → allowed offer → Preserves inv prog) :
    Turns store (finalState prog { store with ids := rest }) := by
  obtain ⟨later, missing, undrawn⟩ := drawn.draw supply
  have start : Carried { store with ids := rest } (some offer) { store with ids := rest } := by
    refine carried_refl fun isIt => ?_
    cases isIt
    exact undrawn
  have carried := keeps (carriedLaw { store with ids := rest } (some offer))
    (.inr ⟨missing, rfl⟩) _ start
  have ids : (finalState prog { store with ids := rest }).ids <:+ store.ids :=
    carried.ids.trans (supply ▸ List.suffix_cons _ rest)
  refine ⟨carried.drawnOffers later, ids, carried.kept, fun oneEach => ?_⟩
  have same : OneEach { store with ids := rest } := oneEach
  refine same.carried carried fun isIt keyed => ?_
  cases isIt
  rw [keyed.2, keyed.1] at free
  exact free

theorem LockedOp.turns (env : EdgeEnv) (op : LockedOp)
    (drawn : DrawnOffers store) (free : op.KeyFree store) :
    Turns store (finalState (op.run env) store) := by
  -- An operation that brings no offer carries over what is stored.
  have nothing : op.Allowed (Brought store none) store →
      Turns store (finalState (op.run env) store) := by
    intro may
    have carried := (carriedLaw store none).run env op may (carried_refl nofun)
    exact ⟨carried.drawnOffers drawn, carried.ids, carried.kept,
      fun oneEach => oneEach.carried carried nofun⟩
  have ignored : ∀ {α : Type} {prog : StoreM α}, Turns store (finalState prog store) →
      Turns store (finalState (do let _ ← prog : StoreM Unit) store) := by
    intro _ prog turns
    rw [finalState_ignore]
    exact turns
  cases op with
  | create post =>
    refine ignored (finalState_createSection (turns_refl drawn)
      fun unknown id rest code supply => ?_)
    exact turns_of_drawn drawn (post.toOffer id code) supply unknown fun law may => law.putOffer may
  | takePrivate code taker now =>
    refine ignored (finalState_withNewId (turns_refl drawn) fun id rest supply => ?_)
    exact turns_of_drawn drawn { taker with id := id } supply free
      fun law may => law.takePrivate may code now
  | takePublic offerId taker now =>
    refine ignored (finalState_withNewId (turns_refl drawn) fun id rest supply => ?_)
    exact turns_of_drawn drawn { taker with id := id } supply free
      fun law may => law.takePublic may offerId now
  | matchOffer incoming now =>
    rcases free with stored | ⟨keyless, undrawn⟩
    · refine nothing fun missing => ?_
      rw [missing] at stored
      cases stored
    -- The offer was purged meanwhile and comes back, without a key.
    have start : Carried store (some incoming) store := by
      refine carried_refl fun isIt => ?_
      cases isIt
      exact undrawn
    have carried := (carriedLaw store (some incoming)).run env (.matchOffer incoming now)
      (fun missing => .inr ⟨missing, rfl⟩) start
    refine ⟨carried.drawnOffers drawn, carried.ids, carried.kept,
      fun oneEach => oneEach.carried carried fun isIt keyed => ?_⟩
    cases isIt
    rw [keyed.2] at keyless
    cases keyless
  | _ => exact nothing trivial

/-! ## A take that returns -/

def StoredAs (store : Store) (offer : Offer) : Prop :=
  ∃ found, store.offer offer.id = some found ∧ found.posted = offer.posted

theorem storedAs_saveOffer (store : Store)
    (same : changed.posted = offer.posted) : StoredAs (store.saveOffer changed) offer := by
  refine ⟨changed, ?_, same⟩
  rw [offer_saveOffer, if_pos (id_of_posted same).symm]

theorem StoredAs.saveOffer {other : Offer} (stored : StoredAs store offer)
    (ne : offer.id ≠ other.id) : StoredAs (store.saveOffer other) offer := by
  obtain ⟨found, isFound, same⟩ := stored
  refine ⟨found, ?_, same⟩
  rw [offer_saveOffer, if_neg ne]
  exact isFound

section Stores

variable {store : Store} {config : Matching}

theorem storeFill_stores {init part : Offer} (ne : init.id ≠ part.id)
    (timelocks : SwapTimelocks) (price now : Nat) :
    wp (storeFill config timelocks init part price now)
      (fun _ after => StoredAs after init ∧ StoredAs after part) (fun _ _ => True) store := by
  unfold storeFill
  rw [wp_bind]
  refine wp_newId (fun id rest supply => ?_) trivial
  rw [wp_bind]
  refine wp_settle ?_ trivial
  rw [wp_bind]
  refine wp_settle ?_ trivial
  rw [wp_bind, wp_putMatch, wp_bind]
  refine wp_putOffer (fun _ => ?_) (fun _ => trivial)
  rw [wp_bind]
  refine wp_putOffer (fun _ => ⟨StoredAs.saveOffer (storedAs_saveOffer _ (settled_posted ..)) ?_,
    storedAs_saveOffer _ (settled_posted ..)⟩) (fun _ => trivial)
  rw [settled_id]
  exact ne

theorem fill_stores {first second : Offer} {price now : Nat} (ne : first.id ≠ second.id) :
    wpFill config first second price now (StoredAs · first) (fun _ _ => True) store := by
  unfold wpFill pairSides
  cases first.direction with
  | xbtToBtc =>
    exact fun _ _ _ _ _ _ => wp_mono (storeFill_stores ne _ _ _) (fun _ _ both => both.1)
      (fun _ _ _ => trivial)
  | btcToXbt =>
    exact fun _ _ _ _ _ _ => wp_mono (storeFill_stores ne.symm _ _ _)
      (fun _ _ both => both.2) (fun _ _ _ => trivial)

theorem takePublic_stores {taker : Offer} (missing : store.offer taker.id = none)
    (offerId : String) (now : Nat) :
    wp (takePublic config offerId taker now) (fun _ after => StoredAs after taker)
      (fun _ _ => True) store := by
  refine wp_takePublic (fun _ => trivial) fun maker stored _ _ => fill_stores fun same => ?_
  rw [same, stored] at missing
  cases missing

end Stores

variable {op : LockedOp}

theorem keyed_of_takenBy (drawn : DrawnOffers store)
    {entry : String × String} (mem : entry ∈ takenBy env store op) :
    ∃ id offer, (finalState (op.run env) store).offer id = some offer ∧
      Keyed offer entry.1 entry.2 := by
  cases op with
  | takePublic offerId taker now =>
    simp only [takenBy] at mem
    split at mem
    next key isKey returned =>
      cases List.mem_singleton.mp mem
      have stores : wp ((LockedOp.takePublic offerId taker now).run env)
          (fun _ after => ∃ id, StoredAs after { taker with id := id }) (fun _ _ => True)
          store := by
        simp only [LockedOp.run, withNewId]
        rw [wp_bind, wp_bind]
        refine wp_newId (fun id rest supply => ?_) trivial
        obtain ⟨_, missing, _⟩ := drawn.draw supply
        exact wp_mono (takePublic_stores missing offerId now)
          (fun _ _ stored => ⟨id, stored⟩) (fun _ _ _ => trivial)
      obtain ⟨id, found, isFound, same⟩ := post_of_returned stores returned
      have keyed : Keyed { taker with id := id } taker.token key := ⟨rfl, isKey⟩
      exact ⟨id, found, isFound, keyed.posted same⟩
    · cases mem
  | _ => cases mem

theorem createSection_stores (post : NewOffer) (store : Store) :
    wp (createSection post) (fun made after => made.2 = true → StoredAs after made.1)
      (fun _ _ => True) store := by
  unfold createSection
  rw [wp_bind, wp_get]
  cases post.clientId.bind (store.offerByClient post.token) with
  | some existing => exact nofun
  | none =>
    refine wp_seq (relates_iff_wp.mp (shareCodeFor_same post) store) (fun code _ same => ?_)
      (fun _ _ _ => trivial)
    subst same
    rw [wp_bind]
    refine wp_newId (fun id rest supply => ?_) trivial
    rw [wp_bind]
    exact wp_putOffer (fun _ _ => storedAs_saveOffer _ rfl) (fun _ => trivial)

/-! ## Runs of the desk -/

/-- What a waiting section needs of the store: an offer to be matched is stored, or has
no key and an id that was drawn. -/
def LockedOp.Queued (store : Store) : LockedOp → Prop
  | .create _ => True
  | .takePublic .. => True
  | .dropRemainder _ => True
  | .matchOffer incoming _ =>
    StoredAs store incoming ∨ incoming.clientId = none ∧ incoming.id ∉ store.ids
  | _ => False

structure Orderly (desk : Desk) : Prop where
  drawn : DrawnOffers desk.store
  oneEach : OneEach desk.store
  queued : ∀ {op}, Errand.waits op ∈ desk.errands → op.Queued desk.store
  taken : desk.taken.Nodup
  onBook : ∀ {entry}, entry ∈ desk.taken →
    ∃ id offer, desk.store.offer id = some offer ∧ Keyed offer entry.1 entry.2

def KeepsKeyed (before after : Store) : Prop :=
  ∀ {id old token key}, before.offer id = some old → Keyed old token key →
    ∃ new, after.offer id = some new ∧ Keyed new token key

theorem Turns.keepsKeyed (turns : Turns store after) : KeepsKeyed store after := by
  intro id old token key found keyed
  obtain ⟨new, isNew, same⟩ := turns.kept found
  exact ⟨new, isNew, keyed.posted same⟩

theorem Turns.queued (turns : Turns store after) (queued : op.Queued store) : op.Queued after := by
  cases op with
  | matchOffer incoming now =>
    rcases queued with ⟨found, isFound, same⟩ | ⟨keyless, undrawn⟩
    · obtain ⟨new, isNew, still⟩ := turns.kept isFound
      exact .inl ⟨new, isNew, still.trans same⟩
    · exact .inr ⟨keyless, fun left => undrawn (turns.ids.subset left)⟩
  | _ => exact queued

theorem queued_followUp {next : LockedOp}
    (queued : op.Queued store) (turns : Turns store (finalState (op.run env) store))
    (follows : op.followUp env store = some next) :
      next.Queued (finalState (op.run env) store) := by
  cases op with
  | create post =>
    simp only [LockedOp.followUp] at follows
    split at follows
    next offer after made =>
      split at follows
      · cases follows
      cases follows
      have stores := createSection_stores post store
      simp only [wp, made] at stores
      have final : finalState ((LockedOp.create post).run env) store = after := by
        change finalState (do let _ ← createSection post : StoreM Unit) store = after
        rw [finalState_ignore]
        simp only [finalState, made]
      rw [final]
      exact .inl (stores trivial)
    · cases follows
  | matchOffer incoming now =>
    simp only [LockedOp.followUp] at follows
    split at follows
    · split at follows
      · cases follows
        exact turns.queued queued
      · cases follows
    · cases follows
  | takePublic offerId taker now =>
    simp only [LockedOp.followUp] at follows
    split at follows
    · obtain ⟨id, _, rfl⟩ := map_eq_some_iff.mp follows
      trivial
    · cases follows
  | _ => cases follows

theorem queued_of_checked {config : Matching} {now : Nat}
    {request : KeyedRequest} (passed : request.checked config store now = .ok op) :
      op.Queued store := by
  cases request with
  | post body =>
    obtain ⟨_, _, passed⟩ := ok_of_bind passed
    obtain ⟨_, _, passed⟩ := ok_of_bind passed
    cases passed
    trivial
  | take offerId req =>
    obtain ⟨_, _, passed⟩ := ok_of_bind passed
    obtain ⟨_, _, passed⟩ := ok_of_bind passed
    obtain ⟨maker, _, passed⟩ := ok_of_bind passed
    obtain ⟨_, _, passed⟩ := ok_of_bind passed
    cases passed
    trivial

theorem LockedOp.keyFree_of_keyless (keyless : op.keyless store = true) : op.KeyFree store := by
  cases op with
  | matchOffer incoming now => exact .inl keyless
  | takePrivate code taker now =>
    rw [LockedOp.KeyFree, isNone_iff_eq_none.mp keyless]
    rfl
  | takePublic offerId taker now =>
    rw [LockedOp.KeyFree, isNone_iff_eq_none.mp keyless]
    rfl
  | _ => trivial

variable {moves : List DeskMove} {index : Nat}

section DeskSteps

variable {env : EdgeEnv} {desk : Desk}

variable (orderly : Orderly desk)
include orderly

theorem Orderly.arrives (request : KeyedRequest) : Orderly (desk.step env (.arrives request)) := by
  simp only [Desk.step]
  split
  · exact orderly
  refine { orderly with queued := fun mem => ?_ }
  rcases mem_concat.mp mem with old | new
  · exact orderly.queued old
  · cases new

theorem Orderly.checks (index now : Nat) : Orderly (desk.step env (.checks index now)) := by
  simp only [Desk.step]
  split
  · split
    next op passed =>
      refine { orderly with queued := fun mem => ?_ }
      rcases List.mem_or_eq_of_mem_set mem with old | new
      · exact orderly.queued old
      cases new
      exact queued_of_checked passed
    · exact { orderly with queued := fun mem => orderly.queued (List.mem_of_mem_eraseIdx mem) }
  · exact orderly

theorem Orderly.turns {after : Store} (turns : Turns desk.store after) :
    Orderly { desk with store := after } where
  drawn := turns.drawn
  oneEach := turns.oneEach orderly.oneEach
  queued member := turns.queued (orderly.queued member)
  taken := orderly.taken
  onBook member := by
    obtain ⟨id, offer, found, keyed⟩ := orderly.onBook member
    obtain ⟨new, isNew, still⟩ := turns.keepsKeyed found keyed
    exact ⟨id, new, isNew, still⟩

theorem nodup_taken (free : op.KeyFree desk.store) :
    (takenBy env desk.store op ++ desk.taken).Nodup := by
  cases op with
  | takePublic offerId taker now =>
    simp only [takenBy]
    split
    next key isKey _ =>
      refine List.nodup_cons.mpr ⟨fun mem => ?_, orderly.taken⟩
      obtain ⟨id, offer, found, keyed⟩ := orderly.onBook mem
      rw [LockedOp.KeyFree, isKey] at free
      exact not_keyed_of_offerByClient free found keyed
    · exact orderly.taken
  | _ => exact orderly.taken

theorem Orderly.keyFree (found : desk.errands[index]? = some (.waits op))
    (apart : (DeskMove.enters index).Apart desk) : op.KeyFree desk.store := by
  have queued := orderly.queued (List.mem_of_getElem? found)
  cases op with
  | takePublic offerId taker now =>
    simp only [DeskMove.Apart, found] at apart
    exact apart
  | matchOffer incoming now =>
    rcases queued with ⟨held, isHeld, _⟩ | keyless
    · refine .inl ?_
      rw [isHeld]
      rfl
    · exact .inr keyless
  | create post => trivial
  | dropRemainder takerId => trivial
  | _ => cases queued

theorem Orderly.enters
    (apart : (DeskMove.enters index).Apart desk) : Orderly (desk.step env (.enters index)) ∧
      KeepsKeyed desk.store (desk.step env (.enters index)).store := by
  simp only [Desk.step]
  split
  next op found =>
    have free := orderly.keyFree found apart
    have turns := op.turns env orderly.drawn free
    have later := orderly.turns turns
    refine ⟨⟨later.drawn, later.oneEach, fun mem => ?_, nodup_taken orderly free,
      fun mem => ?_⟩, turns.keepsKeyed⟩
    · have queued := orderly.queued (List.mem_of_getElem? found)
      revert mem
      split
      next next follows =>
        intro mem
        rcases List.mem_or_eq_of_mem_set mem with old | new
        · exact later.queued old
        cases new
        exact queued_followUp queued turns follows
      · exact fun mem => later.queued (List.mem_of_mem_eraseIdx mem)
    rcases List.mem_append.mp mem with new | old
    · exact keyed_of_takenBy orderly.drawn new
    · exact later.onBook old
  · exact ⟨orderly, fun found keyed => ⟨_, found, keyed⟩⟩

theorem Orderly.drops
    (apart : (DeskMove.drops id).Apart desk) : Orderly (desk.step env (.drops id)) ∧
      KeepsKeyed desk.store (desk.step env (.drops id)).store := by
  have looked : ∀ other, (desk.step env (.drops id)).store.offer other =
      if other = id then none else desk.store.offer other := fun other => get?_delete _ _ _
  have before : ∀ {other offer}, (desk.step env (.drops id)).store.offer other = some offer →
      desk.store.offer other = some offer := by
    intro other offer found
    rw [looked] at found
    split at found
    · cases found
    · exact found
  have kept : KeepsKeyed desk.store (desk.step env (.drops id)).store := by
    intro other old token key found keyed
    refine ⟨old, ?_, keyed⟩
    rw [looked, if_neg]
    · exact found
    rintro rfl
    rw [DeskMove.Apart, found] at apart
    rw [bind_some, keyed.2] at apart
    cases apart
  refine ⟨⟨⟨orderly.drawn.nodup, fun found => orderly.drawn.drawn (before found)⟩,
    fun first second token key left right isFirst isSecond =>
      orderly.oneEach (before isFirst) (before isSecond), fun {op} mem => ?_, orderly.taken,
    fun mem => ?_⟩, kept⟩
  · have queued := orderly.queued mem
    cases op with
    | matchOffer incoming now =>
      rcases queued with ⟨offer, found, same⟩ | keyless
      · by_cases dropped : incoming.id = id
        · refine .inr ⟨?_, orderly.drawn.drawn found⟩
          rw [dropped] at found
          rw [DeskMove.Apart, found] at apart
          exact (congrArg Offer.clientId same).symm.trans apart
        refine .inl ⟨offer, ?_, same⟩
        rw [looked, if_neg dropped]
        exact found
      · exact .inr keyless
    | _ => exact queued
  obtain ⟨other, offer, found, keyed⟩ := orderly.onBook mem
  obtain ⟨new, isNew, still⟩ := kept found keyed
  exact ⟨other, new, isNew, still⟩

theorem Orderly.step {move : DeskMove} (apart : move.Apart desk) :
    Orderly (desk.step env move) ∧ KeepsKeyed desk.store (desk.step env move).store := by
  have still : ∀ {store : Store}, KeepsKeyed store store :=
    fun found keyed => ⟨_, found, keyed⟩
  cases move with
  | arrives request =>
    refine ⟨orderly.arrives request, ?_⟩
    simp only [Desk.step]
    split <;> exact still
  | checks index now =>
    refine ⟨orderly.checks index now, ?_⟩
    simp only [Desk.step]
    split
    · split <;> exact still
    · exact still
  | enters index => exact orderly.enters apart
  | other op =>
    simp only [Desk.step]
    split
    next keyless =>
      have turns := op.turns env orderly.drawn (LockedOp.keyFree_of_keyless keyless)
      exact ⟨orderly.turns turns, turns.keepsKeyed⟩
    · exact ⟨orderly, still⟩
  | drops id => exact orderly.drops apart

theorem Orderly.run (apart : Desk.Apart env desk moves) :
    Orderly (desk.run env moves) ∧ KeepsKeyed desk.store (desk.run env moves).store := by
  induction moves generalizing desk with
  | nil => exact ⟨orderly, fun found keyed => ⟨_, found, keyed⟩⟩
  | cons move rest ih =>
    obtain ⟨one, keptOne⟩ := orderly.step apart.1
    obtain ⟨all, keptRest⟩ := ih one apart.2
    refine ⟨all, fun found keyed => ?_⟩
    obtain ⟨new, isNew, keyedNew⟩ := keptOne found keyed
    exact keptRest isNew keyedNew

end DeskSteps

theorem apart_append {desk : Desk} {later : List DeskMove}
    (apart : Desk.Apart env desk (moves ++ later)) :
    Desk.Apart env desk moves ∧ Desk.Apart env (desk.run env moves) later := by
  induction moves generalizing desk with
  | nil => exact ⟨trivial, apart⟩
  | cons move rest ih =>
    obtain ⟨early, late⟩ := ih apart.2
    exact ⟨⟨apart.1, early⟩, late⟩

theorem orderly_opened {ids : List String} (nodup : ids.Nodup) : Orderly (Desk.opened ids) where
  drawn := ⟨nodup, nofun⟩
  oneEach _ _ _ _ _ _ found := nomatch found
  queued member := nomatch member
  taken := List.nodup_nil
  onBook member := nomatch member

/-- As long as no take enters its section once its key is on the book and no offer with a key is
purged, a token and key name one offer, and at most one of their takes makes a match. -/
theorem client_keys_idempotent (env : EdgeEnv) {ids : List String} (distinct : ids.Nodup)
    (moves later : List DeskMove) (apart : Desk.Apart env (.opened ids) (moves ++ later)) :
    let desk := (Desk.opened ids).run env moves
    (∀ first ∈ desk.store.allOffers, ∀ second ∈ (desk.run env later).store.allOffers,
      first.token = second.token → first.clientId = second.clientId → first.clientId.isSome →
        first.id = second.id) ∧
    (desk.run env later).taken.Nodup := by
  intro desk
  obtain ⟨early, late⟩ := apart_append apart
  obtain ⟨orderly, _⟩ := (orderly_opened distinct).run early
  obtain ⟨final, kept⟩ := orderly.run late
  refine ⟨fun first isFirst second isSecond tokens keys isKeyed => ?_, final.taken⟩
  obtain ⟨key, isKey⟩ := isSome_iff_exists.mp isKeyed
  obtain ⟨still, isStill, keyed⟩ := kept (get?_of_mem isFirst) ⟨rfl, isKey⟩
  exact final.oneEach isStill (get?_of_mem isSecond) keyed ⟨tokens.symm, keys ▸ isKey⟩

end

namespace DeskSample

def take : KeyedRequest :=
  .take "b" ⟨"seller", sampleBuyer.secretHash, 20000000, 1000000, "ab", none⟩

def opening : List DeskMove := [.other (.create sampleBuyer), .arrives take]

def after (moves : List DeskMove) : Desk :=
  (Desk.opened ["b", "s", "m", "u", "n"]).run sampleEnv moves

def keyed (desk : Desk) : List Offer :=
  desk.store.allOffers.filter fun offer => offer.token = "seller" ∧ offer.clientId = some "ab"

end DeskSample

open DeskSample

/-- A take sent again once it was answered is answered from the book. -/
theorem client_keys_idempotent_repeated :
    let later : List DeskMove := [.checks 0 1010, .enters 0, .arrives take, .enters 0]
    ((after opening).run sampleEnv later).taken = [("seller", "ab")] ∧
      (keyed ((after opening).run sampleEnv later)).length = 1 ∧
      ((after opening).run sampleEnv later).taken.Nodup :=
  ⟨by decide, by decide, (client_keys_idempotent sampleEnv (by decide) opening
      [.checks 0 1010, .enters 0, .arrives take, .enters 0] (by decide)).2⟩

/-- Two takes with one key that overlap both fill. -/
theorem taken_twice :
    let desk := after (opening ++ [.arrives take, .checks 0 1010, .checks 1 1010, .enters 0,
      .enters 1])
    (keyed desk).map Offer.id = ["s", "u"] ∧ desk.store.allMatches.map Match.id = ["m", "n"] ∧
      desk.taken = [("seller", "ab"), ("seller", "ab")] := by
  decide

end Fortis.Edge
