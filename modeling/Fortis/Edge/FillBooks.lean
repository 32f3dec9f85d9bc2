import Fortis.Edge.Conservation

/-!
# Fills keep the books

Pairing, searching and taking offers keep the books and never fault.  Stored offers hold their tags,
so the watchtower's passes, which go on after an error, never meet a refused write.
-/

namespace Fortis.Edge

open Fortis.Core Lib List Option Table Store

/-- How an operation may fail: with the books balanced, or, unless `ok`, with a refused write. -/
def Refused (ok : Prop) (posted : String → Nat) (before : Store) : Fail → Store → Prop
  | .bail _, after => Books posted after ∧ Grows before after
  | .write _, _ => ¬ ok
  | .fault, _ => False

/-- `prog` keeps the books. -/
def Safe {α : Type} (ok : Prop) (posted : String → Nat) (prog : StoreM α) (store : Store) : Prop :=
  wp prog (fun _ after => Books posted after ∧ Grows store after) (Refused ok posted store) store

section Programs

variable {posted : String → Nat} {store : Store} {ok : Prop} {α β : Type}

variable {raised : Fail} {ok' : Prop} {prog : StoreM α}

theorem Refused.trans {middle after : Store} (early : Grows store middle)
    (late : Refused ok posted middle raised after) : Refused ok posted store raised after := by
  cases raised with
  | bail text => exact ⟨late.1, early.trans late.2⟩
  | write text => exact late
  | fault => exact late

theorem Refused.mono {after : Store} (weaker : ok' → ok)
    (refused : Refused ok posted store raised after) : Refused ok' posted store raised after := by
  cases raised with
  | bail text => exact refused
  | write text => exact fun stored => refused (weaker stored)
  | fault => exact refused

theorem Safe.mono (weaker : ok' → ok)
    (safe : Safe ok posted prog store) : Safe ok' posted prog store :=
  wp_mono safe (fun _ _ => id) (fun _ _ refused => refused.mono weaker)

theorem Safe.pure (books : Books posted store) (value : α) :
    Safe ok posted (Pure.pure value : StoreM α) store := ⟨books, Grows.refl store⟩

theorem Safe.bail (books : Books posted store) (text : String) :
    Safe ok posted (throw (.bail text) : StoreM α) store := ⟨books, Grows.refl store⟩

theorem Safe.bind {next : α → StoreM β} (first : Safe ok posted prog store)
    (rest : ∀ value {after}, Books posted after → Grows store after →
      Safe ok posted (next value) after) : Safe ok posted (prog >>= next) store := by
  unfold Safe
  refine wp_next first fun value middle kept => ?_
  exact wp_mono (rest value kept.1 kept.2) (fun _ _ later => ⟨later.1, kept.2.trans later.2⟩)
    (fun _ _ refused => refused.trans kept.2)

theorem Safe.logged (safe : Safe True posted prog store) : Safe ok posted (logged prog) store := by
  unfold Safe Edge.logged
  rw [wp_tryCatch]
  refine wp_seq safe (fun _ _ => id) (fun raised after refused => ?_)
  cases raised with
  | bail text => exact refused
  | write text => exact absurd trivial refused
  | fault => exact refused.elim

end Programs

/-! ## Fills -/

theorem grows_saveOffer (store : Store) (offer : Offer) : Grows store (store.saveOffer offer) := by
  intro id stored
  rw [offer_saveOffer]
  split
  · rfl
  · exact stored

variable {store : Store}

theorem safe_putOffer {posted : String → Nat} {ok : Prop} {offer : Offer}
    (fits : store.TagOk offer → Books posted (store.saveOffer offer))
    (free : ok → store.TagOk offer) : Safe ok posted (putOffer offer) store :=
  wp_putOffer (fun tag => ⟨fits tag, grows_saveOffer store offer⟩)
    (fun taken claimed => taken (free claimed))

theorem tagOk_saveOffer {first second : Offer}
    (held : ∀ tag, second.recoveryTag = some tag → store.cfTags.get? tag = some (tag, second.id)) :
    (store.saveOffer first).TagOk second := by
  intro tag holder own found
  have kept : (store.claimTag first).get? tag = some (tag, second.id) :=
    claimTag_of_held (held tag own)
  have same : some holder = some (tag, second.id) := found.symm.trans kept
  cases same
  rfl

def Stored (store : Store) (offer : Offer) : Prop := store.offer offer.id = some offer

theorem stored_of_offer {id : String} {offer : Offer}
    (found : store.offer id = some offer) : Stored store offer := by
  rw [Stored, id_of_offer found, found]

section Fill

variable {posted : String → Nat} {store : Store}

theorem wp_newId {post : String → Store → Prop} {fail : Fail → Store → Prop}
    (drawn : ∀ id rest, store.ids = id :: rest → post id { store with ids := rest })
    (dry : fail (.bail "CSPRNG") store) : wp newId post fail store := by
  unfold newId
  rw [wp_bind, wp_get]
  cases supply : store.ids with
  | nil => exact dry
  | cons id rest => exact drawn id rest supply

theorem safe_storeFill (books : Books posted store) (config : Matching)
    (timelocks : SwapTimelocks) {init part : Offer} (roomInit : Room posted store init)
    (roomPart : Room posted store part) (ne : init.id ≠ part.id)
    (sells : init.direction = .xbtToBtc) (buys : part.direction = .btcToXbt) (price now : Nat) :
    Safe (Stored store init ∧ Stored store part) posted
      (storeFill config timelocks init part price now) store := by
  have enoughInit := fillXbt_le_amount config init part price
  have enoughPart := btcForXbt_fillXbt_le_amount config init part price
  unfold storeFill Safe
  simp only [wp_bind]
  refine wp_newId (fun id rest supply => ?_) ⟨books, Grows.refl store⟩
  simp only [settle, if_neg (Nat.not_lt.mpr enoughInit), if_neg (Nat.not_lt.mpr enoughPart),
    wp_pure, wp_putMatch]
  -- from here on only the two amounts matter, not how they were computed
  generalize decide (fillXbt config init part price = init.amountSat) = limitingInit
  generalize decide (fillXbt config init part price = xbtForBtc part.amountSat price) = limitingPart
  generalize btcForXbt (fillXbt config init part price) price = btcSat at enoughPart ⊢
  generalize fillXbt config init part price = xbtSat at enoughInit ⊢
  have kept := books.fill supply roomInit roomPart ne sells buys
    (show (buildTerms config timelocks id xbtSat btcSat price now).xbtSat ≤ _ from enoughInit)
    enoughPart limitingInit limitingPart
  refine wp_putOffer (fun freeInit => ?_) (fun taken => ?_)
  · refine wp_putOffer (fun freePart => ?_) (fun taken => ?_)
    · rw [saveOffer_saveMatch, saveOffer_saveMatch]
      exact ⟨kept freeInit freePart, (grows_saveOffer store _).trans (grows_saveOffer _ _)⟩
    intro stored
    refine taken (tagOk_saveOffer fun tag own => ?_)
    rw [settled_recoveryTag] at own
    rw [settled_id]
    exact books.tags stored.2 own
  intro stored
  refine taken fun tag holder own found => ?_
  rw [settled_recoveryTag] at own
  rw [settled_id]
  have held : store.cfTags.get? tag = some (tag, init.id) := books.tags stored.1 own
  have same : some holder = some (tag, init.id) := found.symm.trans held
  cases same
  rfl

/-- What must hold before two offers so that `holds` after a fill of them at `price`. -/
def wpFill (config : Matching) (first second : Offer) (price now : Nat) (holds : Store → Prop)
    (fail : Fail → Store → Prop) (store : Store) : Prop :=
  ∀ btc xbt, networkParams config.network = .ok (btc, xbt) →
    (pairSides first second).1.direction = .xbtToBtc →
    (pairSides first second).2.direction = .btcToXbt →
    minBtcLegSat ≤ btcForXbt
      (fillXbt config (pairSides first second).1 (pairSides first second).2 price) price →
    wp (storeFill config (swapTimelocks btc xbt) (pairSides first second).1
      (pairSides first second).2 price now) (fun _ => holds) fail store

section Rules

variable {config : Matching} {first second incoming maker taker : Offer} {price now : Nat}
  {holds : Store → Prop} {fail : Fail → Store → Prop} (refused : ∀ text, fail (.bail text) store)

include refused

theorem wp_pair {post : Option Match → Store → Prop} (small : post none store)
    (filled : ∀ {m after}, holds after → post (some m) after)
    (fill : wpFill config first second price now holds fail store) :
    wp (pair config first second price now) post fail store := by
  simp only [pair]
  split
  · exact refused _
  split
  · exact refused _
  next opposite =>
  push Not at opposite
  split
  · exact small
  next enough =>
  split
  · exact refused _
  next btc xbt known =>
  split
  · exact refused _
  rw [wp_map]
  exact wp_imp (fill btc xbt known opposite.1 opposite.2 (Nat.not_lt.mp enough)) fun _ _ => filled

/-- After a pair below the minimum the search goes on where it was. -/
theorem wp_tryCandidates {cands : List Offer} (small : holds store) (fill : ∀ cand ∈ cands, ∀ price,
      price = incoming.priceSatPerXbt ∨ price = cand.priceSatPerXbt →
      wpFill config incoming cand price now holds fail store) :
    wp (tryCandidates config incoming now cands) (fun _ => holds) fail store := by
  induction cands with
  | nil => exact small
  | cons cand rest ih =>
    unfold tryCandidates
    rw [wp_bind]
    refine wp_pair refused (ih fun other mem => fill other (mem_cons_of_mem cand mem))
      (fun held => held) (fill cand mem_cons_self _ ?_)
    split
    · exact .inl rfl
    · exact .inr rfl

theorem wp_matchLocked {barred : List String} (small : holds store)
    (fill : ∀ current, (store.offer incoming.id).getD incoming = current →
      matchable current now = true → ∀ cand ∈ candidates store current barred now, ∀ price,
        price = current.priceSatPerXbt ∨ price = cand.priceSatPerXbt →
        wpFill config current cand price now holds fail store) :
    wp (matchLocked config incoming barred now) (fun _ => holds) fail store := by
  unfold matchLocked
  rw [wp_bind, wp_get]
  dsimp only
  split
  next able => exact wp_tryCandidates refused small (fill _ rfl able)
  · exact small

theorem wp_takeMaker (fill : wpFill config taker maker maker.priceSatPerXbt now holds fail store) :
    wp (takeMaker config maker taker now) (fun _ => holds) fail store := by
  unfold takeMaker
  rw [wp_bind]
  exact wp_pair refused (refused _) (fun held => held) fill

theorem wp_guard {α : Type} {post : α → Store → Prop} {condition : Prop} [Decidable condition]
    {text : String} {rest : StoreM α} (next : ¬ condition → wp rest post fail store) :
    wp (do
      if condition then throw (.bail text)
      rest) post fail store := by
  split
  · exact refused text
  next passed => exact next passed

theorem wp_takePrivate {code : String}
    (fill : ∀ maker, store.offerByCode code = some maker → Stored store maker →
      matchable maker now = true →
      wpFill config taker maker maker.priceSatPerXbt now holds fail store) :
    wp (takePrivate config code taker now) (fun _ => holds) fail store := by
  unfold takePrivate
  rw [wp_bind, wp_get]
  rcases found : store.offerByCode code with _ | maker
  · exact refused _
  have stored : Stored store maker := get?_of_mem (mem_of_find?_eq_some found)
  refine wp_guard refused fun able => ?_
  refine wp_guard refused fun _ => ?_
  refine wp_guard refused fun _ => ?_
  exact wp_takeMaker refused (fill maker found stored (by simpa using able))

theorem wp_takePublic {offerId : String}
    (fill : ∀ maker, Stored store maker → matchable maker now = true →
      maker.priceSatPerXbt = taker.priceSatPerXbt →
      wpFill config taker maker maker.priceSatPerXbt now holds fail store) :
    wp (takePublic config offerId taker now) (fun _ => holds) fail store := by
  unfold takePublic
  rw [wp_bind, wp_get]
  rcases found : store.offer offerId with _ | maker
  · exact refused _
  have stored := stored_of_offer found
  refine wp_guard refused fun _ => ?_
  refine wp_guard refused fun able => ?_
  refine wp_guard refused fun _ => ?_
  refine wp_guard refused fun _ => ?_
  refine wp_guard refused fun samePrice => ?_
  exact wp_takeMaker refused (fill maker stored (by simpa using able) (not_not.mp samePrice))

end Rules

theorem safe_fill (books : Books posted store) {config : Matching} {first second : Offer}
    {price now : Nat} {ok : Prop} (roomFirst : Room posted store first)
    (roomSecond : Room posted store second) (ne : first.id ≠ second.id)
    (stored : ok → Stored store first ∧ Stored store second) : wpFill config first second price now
      (fun after => Books posted after ∧ Grows store after) (Refused ok posted store) store := by
  unfold wpFill pairSides
  cases first.direction with
  | xbtToBtc =>
    exact fun _ _ _ sells buys _ => Safe.mono stored
      (safe_storeFill books config _ roomFirst roomSecond ne sells buys price now)
  | btcToXbt =>
    exact fun _ _ _ sells buys _ => Safe.mono (fun held => (stored held).symm)
      (safe_storeFill books config _ roomSecond roomFirst ne.symm sells buys price now)

end Fill

section Search

variable {posted : String → Nat} {store : Store}

theorem mem_candidates {incoming cand : Offer} {barred : List String} {now : Nat}
    (mem : cand ∈ candidates store incoming barred now) :
    Stored store cand ∧ cand.status = .opened ∧ cand.direction = incoming.direction.opposite := by
  simp only [candidates, openOffers, allOffers, mem_insertionSort,
    mem_filter, decide_eq_true_eq] at mem
  exact ⟨get?_of_mem mem.1.1, mem.1.2.1, mem.1.2.2⟩

theorem Direction.opposite_ne (direction : Direction) : direction.opposite ≠ direction := by
  cases direction <;> decide

theorem safe_matchLocked (books : Books posted store) (config : Matching) {incoming : Offer}
    (entering : store.offer incoming.id = none →
      incoming.id ∉ store.ids ∧ posted incoming.id = incoming.amountSat)
    (barred : List String) (now : Nat) : Safe ((store.offer incoming.id).isSome = true) posted
      (matchLocked config incoming barred now) store := by
  refine wp_matchLocked (fun _ => ⟨books, Grows.refl store⟩) ⟨books, Grows.refl store⟩ ?_
  intro current chosen able cand mem price _
  have status : current.status = .opened := (of_decide_eq_true able).1
  obtain ⟨storedCand, statusCand, opposite⟩ := mem_candidates mem
  have roomCand := Room.of_stored books storedCand statusCand
  rcases found : store.offer incoming.id with _ | offer
  · rw [found, getD_none] at chosen
    subst chosen
    refine safe_fill books (Room.of_new books found (entering found).1 (entering found).2)
      roomCand (fun same => ?_) (fun stored => by simp at stored)
    rw [Stored, ← same, found] at storedCand
    cases storedCand
  rw [found, getD_some] at chosen
  subst chosen
  have stored := stored_of_offer found
  refine safe_fill books (Room.of_stored books stored status) roomCand (fun same => ?_)
    (fun _ => ⟨stored, storedCand⟩)
  rw [Stored, ← same, stored] at storedCand
  cases storedCand
  exact Direction.opposite_ne _ opposite.symm

theorem safe_rematch (books : Books posted store) (config : Matching) (now : Nat) (ok : Prop) :
    Safe ok posted (rematch config now) store := by
  unfold rematch Safe
  simp only [wp_bind, wp_get]
  refine wp_imp (wp_forEach (fun rest after => Books posted after ∧ Grows store after ∧
    ∀ offer ∈ rest, (after.offer offer.id).isSome) ⟨books, Grows.refl store, ?_⟩ ?_)
    fun _ after kept => ⟨kept.1, kept.2.1⟩
  · intro offer mem
    simp only [mem_filter, mem_insertionSort, allOffers] at mem
    have found : store.offer offer.id = some offer := get?_of_mem mem.1.1
    simp [found]
  rintro first rest after ⟨kept, grown, stored⟩
  have present := stored first mem_cons_self
  refine wp_mono (Safe.logged (Safe.mono (fun _ => present)
    (safe_matchLocked kept config (fun missing => by simp [missing] at present) _ now)))
    (fun _ final later => ⟨later.1, grown.trans later.2, ?_⟩)
    (fun _ _ refused => refused.trans grown)
  exact fun offer mem => later.2 offer.id (stored offer (mem_cons_of_mem first mem))

end Search

variable {posted : String → Nat} {store : Store}

structure Entering (posted : String → Nat) (store : Store) (offer : Offer) : Prop where
  new : store.offer offer.id = none
  drawn : offer.id ∉ store.ids
  amount : posted offer.id = offer.amountSat

variable {taker : Offer}

theorem Entering.fill (books : Books posted store) {config : Matching} {maker : Offer}
    (entering : Entering posted store taker) (stored : Stored store maker)
    (able : matchable maker now = true) : wpFill config taker maker maker.priceSatPerXbt now
      (fun after => Books posted after ∧ Grows store after) (Refused False posted store) store := by
  have status : maker.status = .opened := (of_decide_eq_true able).1
  refine safe_fill books (Room.of_new books entering.new entering.drawn entering.amount)
    (Room.of_stored books stored status) (fun same => ?_) False.elim
  rw [Stored, ← same, entering.new] at stored
  cases stored

theorem safe_takePrivate (books : Books posted store) (config : Matching) (code : String)
    (now : Nat) (entering : Entering posted store taker) :
    Safe False posted (takePrivate config code taker now) store :=
  wp_takePrivate (fun _ => ⟨books, Grows.refl store⟩) fun _ _ stored able =>
    entering.fill books stored able

theorem safe_takePublic (books : Books posted store) (config : Matching) (offerId : String)
    (now : Nat) (entering : Entering posted store taker) :
    Safe False posted (takePublic config offerId taker now) store :=
  wp_takePublic (fun _ => ⟨books, Grows.refl store⟩) fun _ stored able _ =>
    entering.fill books stored able

end Fortis.Edge
