import Fortis.Edge.Acceptance

/-!
# Price-time priority

The book lists offers by age and id.  The matcher sorts an offer's candidates by price
and age and tries them in turn.  The sort is stable, so the first that fills has the
best price, then is the oldest, then has the least id.
-/

namespace Fortis.Edge

open Fortis.Core Lib List Relation Store

/-- An insertion sort keeps the order of what it need not move. -/
theorem pairwise_insertionSort_stable {α : Type} {r s : α → α → Prop} [DecidableRel r]
    (total : ∀ x y, r x y ∨ r y x) (trans : ∀ ⦃x y z⦄, r x y → r y z → r x z)
    {items : List α} (came : items.Pairwise s) :
    (items.insertionSort r).Pairwise fun x y => r x y ∧ (r y x → s x y) := by
  induction items with
  | nil => exact .nil
  | cons item rest ih =>
    have first : ∀ other ∈ rest.insertionSort r, s item other := fun other mem =>
      rel_of_pairwise_cons came ((mem_insertionSort r).mp mem)
    replace ih := ih came.of_cons
    change (orderedInsert r item (rest.insertionSort r)).Pairwise _
    generalize rest.insertionSort r = sorted at first ih ⊢
    induction sorted with
    | nil => exact pairwise_singleton _ _
    | cons head tail further =>
      obtain ⟨below, sorted⟩ := pairwise_cons.mp ih
      obtain ⟨ahead, firstTail⟩ := forall_mem_cons.mp first
      rw [orderedInsert_cons]
      split
      next before =>
        refine pairwise_cons.mpr ⟨forall_mem_cons.mpr ⟨⟨before, fun _ => ahead⟩, ?_⟩, ih⟩
        exact fun other mem =>
          ⟨trans before (below other mem).1, fun _ => firstTail other mem⟩
      next behind =>
      refine pairwise_cons.mpr ⟨fun other mem => ?_, further firstTail sorted⟩
      rcases (mem_orderedInsert r).mp mem with rfl | old
      · exact ⟨(total _ _).resolve_left behind, fun before => absurd before behind⟩
      · exact below other old

/-- The limit of the older offer, and the candidate's where neither is older. -/
def tradePrice (incoming cand : Offer) : Nat :=
  if incoming.createdAt < cand.createdAt then incoming.priceSatPerXbt else cand.priceSatPerXbt

def fillable (config : Matching) (incoming cand : Offer) : Bool :=
  minBtcLegSat ≤ btcForXbt (fillXbt config (pairSides incoming cand).1 (pairSides incoming cand).2
    (tradePrice incoming cand)) (tradePrice incoming cand)

def Eligible (store : Store) (incoming : Offer) (barred : List String) (now : Nat)
    (other : Offer) : Prop :=
  Stored store other ∧ other.direction = incoming.direction.opposite ∧ other.isPrivate = false ∧
    matchable other now ∧ other.token ≠ incoming.token ∧ other.id ∉ barred ∧
      offersCross incoming other

/-- At least as good a price and age, and where the other has both too, the smaller id. -/
def Prior (direction : Direction) (first second : Offer) : Prop :=
  betterOrSame direction first second ∧
    (betterOrSame direction second first → olderOrSame first second)

def Paired (incoming cand : Offer) (m : Match) : Prop :=
  m.initiatorOffer = (pairSides incoming cand).1.id ∧
    m.participantOffer = (pairSides incoming cand).2.id ∧
      m.terms.priceSatPerXbt = tradePrice incoming cand

section Priority

variable {cand incoming : Offer} (config : Matching) (store : Store) (barred : List String)
    (now : Nat)

theorem mem_candidates_iff :
    cand ∈ candidates store incoming barred now ↔ Eligible store incoming barred now cand := by
  simp only [candidates, openOffers, allOffers, mem_insertionSort, mem_filter, Eligible, Stored,
    offer, Table.get?_eq_some_iff, matchable, Bool.and_eq_true, decide_eq_true_eq,
    Bool.not_eq_true']
  tauto

theorem candidates_prior (incoming : Offer) :
    (candidates store incoming barred now).Pairwise (Prior incoming.direction) := by
  have listed : (store.openOffers incoming.direction.opposite).Pairwise olderOrSame := by
    refine (pairwise_insertionSort_stable (fun x y => ?_) (fun x y z => ?_)
      (pairwise_of_forall fun _ _ => trivial)).imp And.left
    · have := le_total x.id y.id
      unfold olderOrSame
      grind
    · unfold olderOrSame
      grind
  refine pairwise_insertionSort_stable (fun x y => ?_) (fun x y z => ?_) (listed.filter _)
  all_goals
    unfold betterOrSame
    cases incoming.direction <;> dsimp only <;> omega

theorem pair_eq (opposite : cand.direction = incoming.direction.opposite)
    (pos : 0 < tradePrice incoming cand) :
    ∃ fill : StoreM Match, (pair config incoming cand (tradePrice incoming cand) now =
        if fillable config incoming cand then some <$> fill else pure none) ∧
      ∀ store, wp fill (fun m _ => Paired incoming cand m) (fun _ _ => True) store := by
  have sides : ¬ ((pairSides incoming cand).1.direction ≠ .xbtToBtc ∨
      (pairSides incoming cand).2.direction ≠ .btcToXbt) := by
    unfold pairSides
    cases isDirection : incoming.direction <;> simp [isDirection, opposite, Direction.opposite]
  simp only [pair, if_neg pos.ne', if_neg sides, fillable, decide_eq_true_eq, ← Nat.not_le, ite_not]
  rcases networkParams config.network with _ | params
  · exact ⟨throw (.bail ("unknown network " ++ config.network)), rfl, fun _ => trivial⟩
  by_cases late : u32Size ≤ now
  · simp only [if_pos late]
    exact ⟨throw (.bail "out of range integral type conversion attempted"), rfl, fun _ => trivial⟩
  simp only [if_neg late]
  refine ⟨_, rfl, fun store => ?_⟩
  unfold storeFill
  -- Whatever is drawn and written, the match names the two offers and their price.
  iterate 6 refine wp_next wp_true fun _ _ _ => ?_
  exact ⟨rfl, rfl, rfl⟩

theorem tryCandidates_eq {cands : List Offer}
    (able : ∀ cand ∈ cands, cand.direction = incoming.direction.opposite ∧
      0 < tradePrice incoming cand) :
    tryCandidates config incoming now cands =
      match cands.find? (fillable config incoming) with
      | some cand => pair config incoming cand (tradePrice incoming cand) now
      | none => pure none := by
  induction cands with
  | nil => rfl
  | cons cand rest ih =>
    obtain ⟨⟨opposite, positive⟩, later⟩ := forall_mem_cons.mp able
    obtain ⟨fill, same, -⟩ := pair_eq config now opposite positive
    change pair config incoming cand (tradePrice incoming cand) now >>= _ = _
    rw [same, find?_cons]
    cases fits : fillable config incoming cand with
    | true => simp [same, fits]
    | false => exact ih later

variable {store barred now} {current : Offer}

/-- The matcher pairs an offer with the first that fills with it, if there is one. -/
def PriceTime (config : Matching) (store : Store) (incoming current : Offer)
    (barred : List String) (now : Nat) : Prop :=
  (∃ best, Eligible store current barred now best ∧ fillable config current best ∧
    (∀ other, Eligible store current barred now other → fillable config current other →
      other ≠ best → Prior current.direction best other) ∧
    matchLocked config incoming barred now store =
      pair config current best (tradePrice current best) now store ∧
    wp (pair config current best (tradePrice current best) now)
      (fun made _ => ∃ m, made = some m ∧ Paired current best m) (fun _ _ => True) store) ∨
  ((∀ other, Eligible store current barred now other → ¬ fillable config current other) ∧
    matchLocked config incoming barred now store = .ok none store)

theorem priceTime_of_positive
    (isCurrent : (store.offer incoming.id).getD incoming = current) (able : matchable current now)
    (positive : ∀ other, Eligible store current barred now other → 0 < tradePrice current other) :
    PriceTime config store incoming current barred now := by
  have ran : matchLocked config incoming barred now store =
      tryCandidates config current now (candidates store current barred now) store := by
    subst isCurrent
    exact congrFun (if_pos able) store
  unfold PriceTime
  rw [ran, tryCandidates_eq config now fun cand member => ⟨(mem_candidates member).2.2,
    positive cand ((mem_candidates_iff ..).mp member)⟩]
  rcases found : (candidates store current barred now).find? (fillable config current) with _ | best
  · exact .inr ⟨fun other eligible =>
      find?_eq_none.mp found other ((mem_candidates_iff ..).mpr eligible), rfl⟩
  obtain ⟨fits, before, after, listed, skipped⟩ := find?_eq_some_iff_append.mp found
  have eligible := (mem_candidates_iff ..).mp (mem_of_find?_eq_some found)
  obtain ⟨fill, same, made⟩ := pair_eq config now eligible.2.1 (positive best eligible)
  refine .inl ⟨best, eligible, fits, fun other able fitsOther ne => ?_, rfl, ?_⟩
  · have sorted := candidates_prior store barred now current
    have member := (mem_candidates_iff ..).mpr able
    rw [listed] at sorted member
    rcases mem_append.mp member with early | late
    · exact absurd fitsOther (by simpa using skipped other early)
    · exact rel_of_pairwise_cons (pairwise_append.mp sorted).2.1
        ((mem_cons.mp late).resolve_left ne)
  · rw [same, if_pos fits, wp_map]
    exact wp_imp (made store) fun m _ paired => ⟨m, rfl, paired⟩

end Priority

/-- On every book of a run, for an offer of the book or one a post brings: no price there is
zero. -/
theorem price_time_priority {env : EdgeEnv} {ids : List String} {store : Store}
    (run : ReflTransGen (BookTurn env) (Store.opened ids) store) {incoming : Offer} {posted : Nat}
    (brought : store.offer incoming.id = none →
      (LockedOp.matchOffer incoming posted).Routed env.config) (barred : List String) {now : Nat}
    (able : matchable ((store.offer incoming.id).getD incoming) now) :
    PriceTime env.config store incoming ((store.offer incoming.id).getD incoming) barred now := by
  have priced := (proper_of_run run).priced
  have current : InRange ((store.offer incoming.id).getD incoming).priceSatPerXbt := by
    cases found : store.offer incoming.id with
    | none => exact (brought found).inRange rfl
    | some stored => exact priced found
  refine priceTime_of_positive env.config rfl able fun other eligible => ?_
  unfold tradePrice
  split
  · exact current.1
  · exact (priced eligible.1).1

/-- A seller's post at a price. -/
def asking (token : String) (price createdAt : Nat) : NewOffer :=
  { samplePost token .xbtToBtc 100000000 with priceSatPerXbt := price, createdAt := createdAt }

def posting (post : NewOffer) (store : Store) : Store :=
  finalState ((LockedOp.create post).run sampleEnv) store

/-- The dearest ask is the oldest; of the two cheaper ones the younger is posted first. -/
def askedBook : Store :=
  posting (asking "early" 900000 1001) (posting (asking "late" 900000 1002)
    (posting (asking "dear" 1000000 1000) (Store.opened ["d", "l", "e", "m"])))

def bidding : NewOffer := { sampleBuyer with createdAt := 1005 }

theorem turn_posting {post : NewOffer} (now : Nat)
    (passes : checkOffer sampleEnv.config (opened []) now post = .ok ()) (store : Store) :
    BookTurn sampleEnv store (posting post store) :=
  .locked (.create post) ⟨opened [], now, passes⟩

theorem run_askedBook :
    ReflTransGen (BookTurn sampleEnv) (Store.opened ["d", "l", "e", "m"]) askedBook :=
  .tail (.tail (.single (turn_posting 1000 (by decide) _))
    (turn_posting 1002 (by decide) _)) (turn_posting 1001 (by decide) _)

/-- A bid takes the older of the two cheapest asks, at their price. -/
theorem price_time_priority_asks :
    let bid := bidding.toOffer "b" none
    let after := finalState (matchLocked sampleEnv.config bid [] 1010) askedBook
    after.allMatches.map (fun m => (m.initiatorOffer, m.terms.priceSatPerXbt)) =
        [("e", 900000)] ∧ PriceTime sampleEnv.config askedBook bid bid [] 1010 := by
  have routed : (LockedOp.matchOffer (bidding.toOffer "b" none) 1005).Routed sampleEnv.config :=
    ⟨opened [], 1005, bidding, "b", none, by decide, rfl⟩
  have able : matchable ((askedBook.offer "b").getD (bidding.toOffer "b" none)) 1010 := by
    decide
  exact ⟨by decide, price_time_priority run_askedBook (fun _ => routed) [] able⟩

end Fortis.Edge
