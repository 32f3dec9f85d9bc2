import Fortis.Edge.CancelBooks

/-!
# Offer conservation over runs

The operations that hold the matching lock run one at a time, in any order and
with any clock.  Every one of them keeps the books, so every run does.  An
operation whose write the store refuses is outside the statement.
-/

namespace Fortis.Edge

open Fortis.Core Lib Relation

def LockedOp.offered : LockedOp → Nat
  | .create post => post.amountSat
  | .matchOffer incoming _ => incoming.amountSat
  | .takePrivate _ taker _ => taker.amountSat
  | .takePublic _ taker _ => taker.amountSat
  | _ => 0

def LockedOp.Drawn (store : Store) : LockedOp → Prop
  | .matchOffer incoming _ => incoming.id ∉ store.ids
  | _ => True

structure Book where
  store : Store
  posted : String → Nat

def Book.opened (ids : List String) : Book := ⟨Store.opened ids, fun _ => 0⟩

def Book.postedAfter (book : Book) (op : LockedOp) (id : String) : Nat :=
  if (book.store.offer id).isSome then book.posted id else op.offered

def Book.after (book : Book) (env : EdgeEnv) (op : LockedOp) : Book where
  store := finalState (op.run env) book.store
  posted := book.postedAfter op

/-- One operation under the matching lock, none of whose writes the store refuses. -/
inductive BookStep (book : Book) : Book → Prop
  | perform (env : EdgeEnv) (op : LockedOp) (drawn : op.Drawn book.store)
      (written : ∀ text, raised? (op.run env) book.store ≠ some (.write text)) :
      BookStep book (book.after env op)

variable {book : Book}

theorem safe_run (books : Books book.posted book.store) (env : EdgeEnv)
    (op : LockedOp) (drawn : op.Drawn book.store) :
    Safe False (book.postedAfter op) (op.run env) book.store := by
  have amount : ∀ id, book.store.offer id = none → book.postedAfter op id = op.offered := by
    intro id missing
    simp [Book.postedAfter, missing]
  have kept : Books (book.postedAfter op) book.store :=
    books.congr fun found => by simp [Book.postedAfter, found]
  cases op with
  | create post => exact (safe_createSection kept post amount).ignore
  | matchOffer incoming now =>
    exact (Safe.mono (fun no => no.elim) (safe_matchLocked kept env.config
      (fun missing => ⟨drawn, amount _ missing⟩) [] now)).ignore
  | rematch now => exact safe_rematch kept env.config now False
  | takePrivate code taker now =>
    exact (safe_withNewId kept taker amount fun later entering =>
      safe_takePrivate later env.config code now entering).ignore
  | takePublic offerId taker now =>
    exact (safe_withNewId kept taker amount fun later entering =>
      safe_takePublic later env.config offerId now entering).ignore
  | dropRemainder takerId => exact safe_dropRemainderSection kept takerId
  | cancelOffer id presented => exact (safe_cancelOfferSection kept id presented).ignore
  | decline matchId side now => exact safe_onDecline kept matchId side now False
  | tick now =>
    exact wp_mono (wp_tick kept now) (fun _ _ later => later) nofun
  | reinstate id txid => exact safe_section kept (reinstateSection_step id txid)
  | recover tags claim secrets =>
    exact (safe_recoverTags kept env.tagHash claim tags secrets).ignore
  | _ =>
    exact wp_mono (LockedOp.decides env rfl book.store)
      (fun _ _ decides => kept.sectionStep decides.step) nofun

theorem BookStep.books {later : Book} (books : Books book.posted book.store)
    (step : BookStep book later) : Books later.posted later.store := by
  obtain ⟨env, op, drawn, written⟩ := step
  refine finalState_of_wp (fun raised => ∃ text, raised = .write text)
    (wp_mono (safe_run books env op drawn) (fun _ _ kept => kept.1) ?_) ?_
  · intro raised after refused
    cases raised with
    | bail text => exact .inr refused.1
    | write text => exact .inl ⟨text, rfl⟩
    | fault => exact refused.elim
  rintro raised ended ⟨text, rfl⟩
  exact written text ended

theorem books_of_run {ids : List String} (nodup : ids.Nodup)
    (run : ReflTransGen BookStep (Book.opened ids) book) : Books book.posted book.store := by
  induction run with
  | refl => exact books_opened nodup _
  | tail _ step ih => exact step.books ih

/-- Over every run every offer covers what it shows while open and what its live matches
consumed. -/
theorem offers_conserved {ids : List String} (distinct : ids.Nodup) {book : Book}
    (run : ReflTransGen BookStep (Book.opened ids) book) : (∀ offer ∈ book.store.allOffers,
      shown offer + book.store.consumed offer.id ≤ book.posted offer.id) ∧
    ∀ (env : EdgeEnv) (op : LockedOp), op.Drawn book.store →
      raised? (op.run env) book.store ≠ some .fault := by
  have books := books_of_run distinct run
  constructor
  · intro offer mem
    have room := books.room (Table.get?_of_mem mem)
    have live := consumed_le_held book.store offer.id
    omega
  intro env op drawn ended
  have safe := safe_run books env op drawn
  unfold Safe wp at safe
  unfold raised? at ended
  cases final : op.run env book.store with
  | ok value after => simp [final] at ended
  | error raised after =>
    rw [final] at safe
    simp only [final, Option.some.injEq] at ended
    subst ended
    exact safe

def Book.afterAll (env : EdgeEnv) : List LockedOp → Book → Book
  | [], book => book
  | op :: rest, book => Book.afterAll env rest (book.after env op)

instance (store : Store) (op : LockedOp) : Decidable (op.Drawn store) := by
  unfold LockedOp.Drawn
  cases op <;> infer_instance

def Book.Performs (env : EdgeEnv) : List LockedOp → Book → Prop
  | [], _ => True
  | op :: rest, book =>
    op.Drawn book.store ∧ raised? (op.run env) book.store = none ∧
      Book.Performs env rest (book.after env op)

instance Book.decidablePerforms (env : EdgeEnv) :
    (ops : List LockedOp) → (book : Book) → Decidable (Book.Performs env ops book)
  | [], _ => isTrue trivial
  | op :: rest, book =>
    have := Book.decidablePerforms env rest (book.after env op)
    inferInstanceAs (Decidable (_ ∧ _ ∧ _))

theorem Book.run_afterAll {env : EdgeEnv} {ops : List LockedOp}
    (performs : Book.Performs env ops book) :
    ReflTransGen BookStep book (Book.afterAll env ops book) := by
  induction ops generalizing book with
  | nil => exact .refl
  | cons op rest ih =>
    obtain ⟨drawn, returned, later⟩ := performs
    exact .head (.perform env op drawn fun text refused => by simp [returned] at refused) (ih later)

def sampleEnv : EdgeEnv where
  config := ⟨u64Max, "bitcoin", "bc1qfee"⟩
  codec := ⟨fun _ => [], fun _ => none⟩
  tagHash := fun tag => tag

def samplePost (token : String) (direction : Direction) (amountSat : Nat) : NewOffer where
  token := token
  secretHash := Fixed.zero 32
  direction := direction
  amountSat := amountSat
  priceSatPerXbt := 1000000
  createdAt := 1000
  expiresIn := 86400
  isPrivate := false
  codes := []
  clientId := none
  recoveryTag := none

def sampleSeller : NewOffer := samplePost "seller" .xbtToBtc 100000000
def sampleBuyer : NewOffer := samplePost "buyer" .btcToXbt 600000

def sampleFunded : Match :=
  { buildMatch "m" (buildTerms sampleEnv.config (swapTimelocks .bitcoin .blake2b) "m" 60000000
      600000 1000000 1000) (sampleSeller.toOffer "s" none) (sampleBuyer.toOffer "b" none) with
    xbtFunding := some ("xbt", 0) }

/-- A partial fill, both fundings, the participant's recorded late, and the
reinstatement that follows. -/
def sampleOps : List LockedOp :=
  [.create sampleSeller, .create sampleBuyer, .matchOffer (sampleBuyer.toOffer "b" none) 1000,
    .accept "m" .initiator 1010, .accept "m" .participant 1020,
    .funded "m" .initiator ("xbt", 0), .clock sampleFunded 5000, .tick 5001,
    .record "m" .btc ("btc", 1), .reinstate "m" "btc"]

/-- The sample run ends with the match reinstated and the seller's remainder off the book. -/
theorem offers_conserved_reinstated :
    let book := Book.afterAll sampleEnv sampleOps (Book.opened ["s", "b", "m"])
    book.store.allMatches.map Match.status = [.participantFunded] ∧
      book.store.allOffers.map Offer.status = [.cancelled, .cancelled] ∧
      book.store.consumed "s" = 60000000 ∧
      (∀ offer ∈ book.store.allOffers,
        shown offer + book.store.consumed offer.id ≤ book.posted offer.id) ∧
      ∀ (env : EdgeEnv) (op : LockedOp), op.Drawn book.store →
        raised? (op.run env) book.store ≠ some .fault :=
  ⟨by decide +kernel, by decide +kernel, by decide +kernel,
    offers_conserved (by decide) (Book.run_afterAll (by decide +kernel))⟩

end Fortis.Edge
