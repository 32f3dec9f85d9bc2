import Fortis.Edge.Agreement
import Fortis.Edge.ConservationRuns
import Fortis.Edge.OfferLaws

/-!
# Fills that fail

A fill writes its match first and its two offers after it, and each offer's
write may be refused for its recovery tag.  Stored offers hold their tags, in
every run; so a fill is refused only for the tag of the offer it brings, and a
fill that fails for anything else has written nothing.
-/

namespace Fortis.Edge

open Fortis.Core Lib Store Pool

def HoldsTag (store : Store) (offer : Offer) : Prop :=
  ∀ tag, offer.recoveryTag = some tag → store.cfTags.get? tag = some (tag, offer.id)

def Tagged (store : Store) : Prop :=
  ∀ ⦃id offer⦄, store.offer id = some offer → HoldsTag store offer

variable {offer : Offer} {store : Store}

theorem HoldsTag.tagOk (holds : HoldsTag store offer) : store.TagOk offer := by
  intro tag holder own found
  rw [holds tag own] at found
  cases found
  rfl

theorem taggedLaw : OfferLaw Tagged fun _ => True where
  elsewhere {before after} same tagged := by
    intro id offer found tag own
    rw [Store.offer, same.offers] at found
    rw [same.tags]
    exact tagged found tag own
  saves {store offer} tagged _ free := by
    intro id found stored tag own
    rcases Table.get?_put_cases stored with ⟨rfl, rfl⟩ | ⟨_, old⟩
    · exact claimTag_own free own
    · exact claimTag_of_held (tagged old tag own)
  stored _ _ := trivial
  same _ _ := trivial

theorem kept_tagged (sw : Swap) : Kept sw fun before after => Tagged before → Tagged after := by
  refine taggedLaw.kept sw fun store key tagged id offer found => ?_
  rw [Store.offer, Table.get?_delete] at found
  split at found
  · cases found
  · exact tagged found

structure SameBook (before after : Store) : Prop where
  offers : after.cfOffers = before.cfOffers
  found : after.cfMatches = before.cfMatches

theorem SameBook.refl (store : Store) : SameBook store store := ⟨rfl, rfl⟩

/-- A match under an id not used so far is stored. -/
def Torn (before after : Store) : Prop :=
  ∃ m, m.id ∈ before.ids ∧ after.cfMatches = before.cfMatches.put m

/-- How a fill that raised has left the book: the refusal of a tag comes after the match's
write, every other error before it. -/
def FailsAs (raised : Fail) (before after : Store) : Prop :=
  if raised = .write tagUsed then Torn before after else SameBook before after

theorem FailsAs.of_same {raised : Fail} {before after : Store} (early : raised ≠ .write tagUsed)
    (same : SameBook before after) : FailsAs raised before after := by
  rw [FailsAs, if_neg early]
  exact same

theorem fails_bail (free : Prop) (text : String) (store : Store) :
    FailsAs (.bail text) store store ∧ (free → Fail.bail text ≠ .write tagUsed) :=
  ⟨FailsAs.of_same (by simp) (SameBook.refl store), by simp⟩

/-- `prog` fails as fills do, and not for a tag if `free`. -/
def Whole {α : Type} (free : Prop) (prog : StoreM α) (store : Store) : Prop :=
  wp prog (fun _ _ => True)
    (fun raised after => FailsAs raised store after ∧ (free → raised ≠ .write tagUsed)) store

variable {incoming init part taker : Offer}

section Whole

variable {store : Store} {config : Matching} {α : Type}

theorem tagOk_settled (free : store.TagOk offer) (consumed : Nat)
    (limiting : Bool) (matchId : String) :
      store.TagOk (settled offer consumed limiting matchId) := by
  intro tag holder own found
  rw [settled_recoveryTag] at own
  rw [settled_id]
  exact free tag holder own found

theorem HoldsTag.settled (holds : HoldsTag store offer) (consumed : Nat)
    (limiting : Bool) (matchId : String) :
      HoldsTag store (settled offer consumed limiting matchId) := by
  intro tag own
  rw [settled_recoveryTag] at own
  rw [settled_id]
  exact holds tag own

theorem HoldsTag.claimTag (holds : HoldsTag store offer) : store.claimTag offer = store.cfTags := by
  unfold Store.claimTag
  rcases own : offer.recoveryTag with _ | tag
  · rfl
  dsimp only
  rw [holds tag own, if_neg (by simp)]

/-- Of the two offers of a fill one holds its tag and the other's is free or its own. -/
def TagsFree (store : Store) (first second : Offer) : Prop :=
  store.TagOk first ∧ HoldsTag store second ∨ HoldsTag store first ∧ store.TagOk second

theorem TagsFree.first {first second : Offer} (free : TagsFree store first second) :
    store.TagOk first := by
  rcases free with ⟨ok, _⟩ | ⟨holds, _⟩
  · exact ok
  · exact holds.tagOk

theorem TagsFree.second {first second : Offer} (free : TagsFree store first second) :
    (store.saveOffer first).TagOk second := by
  rcases free with ⟨_, holds⟩ | ⟨holds, ok⟩
  · exact tagOk_saveOffer holds
  intro tag holder own found
  rw [saveOffer, holds.claimTag] at found
  exact ok tag holder own found

theorem TagsFree.settled (free : TagsFree store init part)
    (sold bought : Nat) (limitsInit limitsPart : Bool) (matchId : String) :
    TagsFree store (settled init sold limitsInit matchId)
      (settled part bought limitsPart matchId) := by
  rcases free with ⟨ok, holds⟩ | ⟨holds, ok⟩
  · exact .inl ⟨tagOk_settled ok _ _ _, holds.settled _ _ _⟩
  · exact .inr ⟨holds.settled _ _ _, tagOk_settled ok _ _ _⟩

theorem storeFill_whole (timelocks : SwapTimelocks) (price now : Nat) :
    Whole (TagsFree store init part) (storeFill config timelocks init part price now) store := by
  unfold Whole storeFill
  rw [wp_bind]
  refine wp_newId (fun id rest supply => ?_) (fails_bail _ _ store)
  have faulted : FailsAs .fault store { store with ids := rest } ∧
      (TagsFree store init part → Fail.fault ≠ .write tagUsed) :=
    ⟨FailsAs.of_same (by simp) ⟨rfl, rfl⟩, by simp⟩
  rw [wp_bind]
  refine wp_settle ?_ faulted
  rw [wp_bind]
  refine wp_settle ?_ faulted
  rw [wp_bind, wp_putMatch, wp_bind]
  -- From here on the match is stored, and only a tag can be refused.
  have torn : ∀ {after m}, m.id = id → after.cfMatches = store.cfMatches.put m →
      FailsAs (.write tagUsed) store after := by
    intro after m isId made
    rw [FailsAs, if_pos rfl]
    exact ⟨m, by simp [supply, isId], made⟩
  have left := fun free : TagsFree store init part => free.settled (fillXbt config init part price)
    (btcForXbt (fillXbt config init part price) price)
    (fillXbt config init part price = init.amountSat)
    (fillXbt config init part price = xbtForBtc part.amountSat price) id
  refine wp_putOffer (fun _ => ?_) fun refused =>
    ⟨torn rfl rfl, fun free => absurd (left free).first refused⟩
  rw [wp_bind]
  exact wp_putOffer (fun _ => trivial) fun refused =>
    ⟨torn rfl rfl, fun free => absurd (left free).second refused⟩

theorem fill_whole {first second : Offer} {price now : Nat} (holds : HoldsTag store second) :
    wpFill config first second price now (fun _ => True) (fun raised after =>
      FailsAs raised store after ∧ (store.TagOk first → raised ≠ .write tagUsed)) store := by
  have free : store.TagOk first →
      TagsFree store (pairSides first second).1 (pairSides first second).2 := by
    intro ok
    unfold pairSides
    cases first.direction with
    | xbtToBtc => exact .inl ⟨ok, holds⟩
    | btcToXbt => exact .inr ⟨holds, ok⟩
  exact fun _ _ _ _ _ _ => wp_mono (storeFill_whole _ _ _) (fun _ _ _ => trivial)
    fun _ _ fails => ⟨fails.1, fun ok => fails.2 (free ok)⟩

theorem matchLocked_whole (tagged : Tagged store) (incoming : Offer) (barred : List String)
    (now : Nat) : Whole (store.offer incoming.id = none → store.TagOk incoming)
      (matchLocked config incoming barred now) store := by
  have current : (store.offer incoming.id = none → store.TagOk incoming) →
      store.TagOk ((store.offer incoming.id).getD incoming) := by
    intro ok
    cases found : store.offer incoming.id with
    | none => exact ok found
    | some offer => exact (tagged found).tagOk
  refine wp_matchLocked (fun _ => fails_bail _ _ store) trivial ?_
  rintro _ rfl _ cand mem _ _ btc xbt known sells buys least
  exact wp_mono (fill_whole (tagged (mem_candidates mem).1) btc xbt known sells buys least)
    (fun _ _ _ => trivial) fun _ _ fails => ⟨fails.1, fun ok => fails.2 (current ok)⟩

theorem takePrivate_whole (tagged : Tagged store) (taker : Offer) (code : String) (now : Nat) :
    Whole (store.TagOk taker) (takePrivate config code taker now) store :=
  wp_takePrivate (fun _ => fails_bail _ _ store) fun _ _ stored _ => fill_whole (tagged stored)

theorem takePublic_whole (tagged : Tagged store) (taker : Offer) (offerId : String) (now : Nat) :
    Whole (store.TagOk taker) (takePublic config offerId taker now) store :=
  wp_takePublic (fun _ => fails_bail _ _ store) fun _ stored _ _ => fill_whole (tagged stored)

theorem withNewId_whole {next : Offer → StoreM α} {free : Prop}
    (rest : ∀ id ids, Whole free (next { taker with id := id }) { store with ids := ids }) :
    Whole free (withNewId taker next) store := by
  unfold Whole withNewId
  rw [wp_bind]
  refine wp_newId (fun id ids supply => ?_) (fails_bail _ _ store)
  refine wp_mono (rest id ids) (fun _ _ _ => trivial) fun raised after fails => ⟨?_, fails.2⟩
  have left := fails.1
  unfold FailsAs at left ⊢
  split
  next late =>
    rw [if_pos late] at left
    obtain ⟨m, fresh, made⟩ := left
    exact ⟨m, supply ▸ List.mem_cons_of_mem id fresh, made⟩
  next early =>
    rw [if_neg early] at left
    exact ⟨left.offers, left.found⟩

end Whole

/-! ## Fills in a run -/

def LockedOp.isFill : LockedOp → Bool
  | .matchOffer .. | .takePrivate .. | .takePublic .. => true
  | _ => false

/-- The tag of the offer a fill brings is not claimed, or not for another offer. -/
def LockedOp.TagFree (store : Store) : LockedOp → Prop
  | .matchOffer incoming _ => store.offer incoming.id = none → store.TagOk incoming
  | .takePrivate _ taker _ => ∀ tag, taker.recoveryTag = some tag → store.cfTags.get? tag = none
  | .takePublic _ taker _ => ∀ tag, taker.recoveryTag = some tag → store.cfTags.get? tag = none
  | _ => True

theorem tagOk_of_unclaimed
    (free : ∀ tag, taker.recoveryTag = some tag → store.cfTags.get? tag = none) (id : String) :
    store.TagOk { taker with id := id } := by
  intro tag holder own found
  rw [free tag own] at found
  cases found

theorem LockedOp.whole (tagged : Tagged store) (env : EdgeEnv) {op : LockedOp}
    (fill : op.isFill = true) : Whole (op.TagFree store) (op.run env) store := by
  have ignored : ∀ {α : Type} {free : Prop} {prog : StoreM α}, Whole free prog store →
      Whole free (do let _ ← prog : StoreM Unit) store := by
    intro _ _ prog whole
    unfold Whole
    exact wp_seq whole (fun _ _ _ => trivial) (fun _ _ fails => fails)
  have later : ∀ ids, Tagged { store with ids := ids } := fun _ _ _ found => tagged found
  cases op with
  | matchOffer incoming now => exact ignored (matchLocked_whole tagged incoming [] now)
  | takePrivate code taker now =>
    refine ignored (withNewId_whole fun id ids => ?_)
    exact wp_mono (takePrivate_whole (later ids) _ code now) (fun _ _ _ => trivial)
      fun _ _ fails => ⟨fails.1, fun free => fails.2 (tagOk_of_unclaimed free id)⟩
  | takePublic offerId taker now =>
    refine ignored (withNewId_whole fun id ids => ?_)
    exact wp_mono (takePublic_whole (later ids) _ offerId now) (fun _ _ _ => trivial)
      fun _ _ fails => ⟨fails.1, fun free => fails.2 (tagOk_of_unclaimed free id)⟩
  | _ => cases fill

namespace FillSample

def sw : Swap := ⟨AgreementSample.lib, sampleEnv.config, fun tag => tag⟩

def maker : NewOffer := samplePost "buyer" .btcToXbt 600000

/-- An offer that claims the tag `t`. -/
def claimer : NewOffer := { samplePost "other" .xbtToBtc 100000000 with recoveryTag := some "t" }

def take (amountSat : Nat) : LockedOp :=
  .takePublic "b" (NewOffer.toOffer
    { samplePost "seller" .xbtToBtc amountSat with recoveryTag := some "t" } "" none) 1010

def claimed : Store :=
  finalState ((LockedOp.create claimer).run sampleEnv)
    (finalState ((LockedOp.create maker).run sampleEnv) (Store.opened ["b", "c", "s", "m"]))

def refused : Store := finalState ((take 60000000).run sampleEnv) claimed

/-- The deadline pass after the time to accept is over. -/
def expired : Store := finalState ((LockedOp.tick 5000).run sampleEnv) refused

end FillSample

open FillSample

end Fortis.Edge
