import Fortis.Edge.ScanLaw

/-!
# Scans in a row

Trust in the databases is carried from scan to scan, so that each scan of a run lists what it would
have listed without them.  What has to hold for that is said of each scan where it stands.
-/

namespace Fortis.Edge.Scan

open Lib List Option

/-! ## Runs -/

structure Request where
  addresses : List String
  history : Nat
  (seen fetched : Upstream)
  disk : Disk

def Request.on (request : Request) (caches : Caches) : Except String Scanned × Caches :=
  scan request.seen request.fetched request.addresses request.history request.disk caches

inductive Op where
  | scan (request : Request)
  | forget (address : String)

def Op.run (caches : Caches) : Op → Caches
  | scan request => (request.on caches).2
  | forget address => { caches with scanCache := caches.scanCache.map (ScanCache.forget address) }

def afterOps (caches : Caches) (ops : List Op) : Caches :=
  ops.foldl Op.run caches

def Caches.create (historyKeys cacheKeys : Option Nat) : Caches where
  btcHistory := historyKeys.map fun maxKeys => ⟨Table.empty, maxKeys⟩
  scanCache := cacheKeys.map fun maxKeys => ⟨Table.empty, maxKeys⟩

def upstreams : List Op → List Upstream
  | [] => []
  | .scan request :: rest => upstreams rest ++ [request.seen]
  | .forget _ :: rest => upstreams rest

theorem upstreams_append (first second : List Op) :
    upstreams (first ++ second) = upstreams second ++ upstreams first := by
  induction first with
  | nil => exact (append_nil _).symm
  | cons op rest ih =>
    cases op with
    | scan request =>
      change upstreams (rest ++ second) ++ [request.seen] = _
      rw [ih, append_assoc]
      rfl
    | forget address => exact ih

/-- A scan that one state of the upstream answers in full, and the history store takes. -/
structure Whole (caches : Caches) (request : Request) : Prop where
  still : request.fetched = request.seen
  uncut : Uncut request.seen request.addresses request.history
  took : ∀ answers, ask request.seen request.fetched request.addresses request.history caches =
    .ok answers → Took request.seen caches (caches.noted request.disk answers) answers

/-- A scan at one point of a run: the upstream follows its past, the scan is whole. -/
structure Sound (caches : Caches) (past : List Upstream) (request : Request) : Prop where
  steady : Steady past request.seen
  lasting : Lasting past request.seen
  whole : Whole caches request

variable {caches : Caches} {past : List Upstream} {request : Request}

theorem Trusted.scan (trusted : Trusted past caches) (sound : Sound caches past request) :
    Trusted (request.seen :: past) (request.on caches).2 := by
  have took := sound.whole.took
  have still := sound.whole.still
  unfold Request.on Scan.scan
  rcases asked : ask request.seen request.fetched request.addresses request.history caches
    with e | answers
  · exact trusted.more fun up isPast => mem_cons_of_mem _ isPast
  rw [still] at asked took
  exact trusted_noted trusted sound.lasting asked sound.whole.uncut (took answers asked)

theorem Trusted.forget (trusted : Trusted past caches)
    (address : String) : Trusted past ((Op.forget address).run caches) where
  paired cache isCache := by
    obtain ⟨before, isBefore, _⟩ := map_eq_some_iff.mp isCache
    exact trusted.paired before isBefore
  stored := trusted.stored
  vouched cache store other entry isCache isStore found := by
    obtain ⟨before, isBefore, rfl⟩ := map_eq_some_iff.mp isCache
    refine trusted.vouched before store other entry isBefore isStore ?_
    obtain ⟨row, here, isEntry⟩ := map_eq_some_iff.mp found
    rw [ScanCache.forget, Table.get?_delete] at here
    split at here
    · cases here
    · exact map_eq_some_iff.mpr ⟨row, here, isEntry⟩

theorem trusted_create {historyKeys cacheKeys : Option Nat}
    (paired : cacheKeys.isSome = true → historyKeys.isSome = true) :
    Trusted [] (Caches.create historyKeys cacheKeys) where
  paired cache isCache := by
    obtain ⟨keys, isKeys, _⟩ := map_eq_some_iff.mp isCache
    obtain ⟨size, isSize⟩ := isSome_iff_exists.mp (paired (isKeys ▸ rfl))
    exact ⟨_, map_eq_some_iff.mpr ⟨size, isSize, rfl⟩⟩
  stored store isStore row member := by
    obtain ⟨size, _, rfl⟩ := map_eq_some_iff.mp isStore
    exact (nomatch member)
  vouched cache store address entry isCache isStore found := by
    obtain ⟨size, _, rfl⟩ := map_eq_some_iff.mp isCache
    exact (nomatch found)

def SoundRun (caches : Caches) (ops : List Op) : Prop :=
  ∀ before request after, ops = before ++ .scan request :: after →
    Sound (afterOps caches before) (upstreams before) request

theorem trusted_run (start : Trusted [] caches) {ops : List Op}
    (sound : SoundRun caches ops) : Trusted (upstreams ops) (afterOps caches ops) := by
  induction ops using reverseRecOn with
  | nil => exact start
  | append_singleton before op ih =>
    have earlier : SoundRun caches before := fun first request rest split =>
      sound first request (rest ++ [op]) (by rw [split, append_assoc]; rfl)
    have trusted := ih earlier
    rw [upstreams_append, afterOps, foldl_append]
    cases op with
    | scan request => exact trusted.scan (sound before request [] rfl)
    | forget address => exact trusted.forget address

theorem ask_of_plain {up : Upstream} {addresses : List String} {history : Nat}
    {plain : Answers} (asked : ask up up addresses history Caches.none = .ok plain) :
    ∃ answers, ask up up addresses history caches = .ok answers ∧ answers.rows = plain.rows ∧
      answers.utxos = plain.utxos := by
  obtain ⟨rows, balances, asked⟩ := ok_of_bind asked
  obtain ⟨utxos, unspent, asked⟩ := ok_of_bind asked
  obtain ⟨fresh, fetch, asked⟩ := ok_of_bind asked
  cases asked
  have all : Caches.none.needsFetch rows = usedRows rows :=
    filter_eq_self.mpr fun row _ => rfl
  have answered : ∃ fetched, up.fetch (caches.needsFetch rows) history = .ok fetched := by
    unfold Upstream.fetch at fetch ⊢
    by_cases none : caches.needsFetch rows = []
    · exact ⟨_, if_pos none⟩
    have some : usedRows rows ≠ [] := fun empty => none (by simp [Caches.needsFetch, empty])
    rw [if_neg (all.symm ▸ some)] at fetch
    rw [if_neg none]
    unfold Upstream.transactionsByAddress at fetch ⊢
    rcases down : up.down with _ | fault
    · exact ⟨_, rfl⟩
    rw [down] at fetch
    cases fetch
  obtain ⟨fetched, isFetched⟩ := answered
  refine ⟨⟨rows, utxos, fetched⟩, ?_, rfl, rfl⟩
  unfold ask
  rw [balances, ok_bind, unspent, ok_bind, isFetched]
  rfl

theorem scan_ok {scanned : Scanned} (told : (request.on caches).1 = .ok scanned) :
    ∃ answers, ask request.seen request.fetched request.addresses request.history caches =
        .ok answers ∧ scanned = ⟨(usedRows answers.rows).map Prod.fst, answers.utxos,
          mergeHistory (caches.gathered request.disk answers) request.history⟩ := by
  unfold Request.on scan at told
  rcases asked : ask request.seen request.fetched request.addresses request.history caches
    with e | answers
  · rw [asked] at told
    cases told
  rw [asked] at told
  cases told
  exact ⟨answers, rfl, rfl⟩

/-- A scan answers through the caches what it answers without them. -/
theorem caches_change_nothing {historyKeys cacheKeys : Option Nat}
    (paired : cacheKeys.isSome = true → historyKeys.isSome = true) (ops : List Op)
    (sound : SoundRun (Caches.create historyKeys cacheKeys) ops) (before : List Op)
    (request : Request) (after : List Op) (split : ops = before ++ .scan request :: after)
    (plain : Scanned) (bare : (request.on Caches.none).1 = .ok plain) :
    ∃ cached, (request.on (afterOps (Caches.create historyKeys cacheKeys) before)).1 = .ok cached ∧
      cached.used = plain.used ∧ cached.utxos = plain.utxos ∧ cached.txs.Perm plain.txs := by
  have here := sound before request after split
  have earlier : SoundRun (Caches.create historyKeys cacheKeys) before :=
    fun first other rest inner => sound first other (rest ++ .scan request :: after)
      (by rw [split, inner, append_assoc]; rfl)
  have trusted := trusted_run (trusted_create paired) earlier
  generalize afterOps (Caches.create historyKeys cacheKeys) before = caches at here trusted ⊢
  obtain ⟨plainAnswers, plainAsked, rfl⟩ := scan_ok bare
  have took := here.whole.took
  have still := here.whole.still
  rw [still] at plainAsked took
  obtain ⟨answers, asked, sameRows, sameUtxos⟩ := ask_of_plain plainAsked
  -- A scan without caches is one whose databases hold nothing.
  have gathered := mem_gathered trusted here.lasting here.steady asked here.whole.uncut
    (took answers asked)
  have nothing : Trusted [] Caches.none :=
    ⟨nofun, nofun, nofun⟩
  have noStore : ∀ answers, (Caches.none.noted request.disk answers).btcHistory = none := by
    intro answers
    rcases isStore : (Caches.none.noted request.disk answers).btcHistory with _ | store
    · rfl
    obtain ⟨_, isNone, _⟩ := notes_store isStore
    cases isNone
  have plainGathered := mem_gathered nothing nofun nofun plainAsked here.whole.uncut
    (fun store isStore => by rw [noStore] at isStore; cases isStore)
  refine ⟨⟨(usedRows answers.rows).map Prod.fst, answers.utxos,
    mergeHistory (caches.gathered request.disk answers) request.history⟩, ?_, ?_, sameUtxos, ?_⟩
  · unfold Request.on scan
    rw [still, asked]
  · dsimp only
    rw [sameRows]
  refine mergeHistory_perm (fun first isFirst second isSecond => ?_) fun tx => ?_
  · exact request.seen.unique first ((gathered first).mp isFirst).1 second
      ((gathered second).mp isSecond).1
  · rw [gathered tx, plainGathered tx, sameRows]

def bought : Tx := ⟨"b0", some 7, ["b"]⟩

def paid : Tx := ⟨"a0", none, ["a"]⟩

def quiet : Upstream where
  balance address := .ok (if address = "b" then ⟨1, 1, 0⟩ else ⟨0, 0, 0⟩)
  unspent _ := .ok []
  txs := [bought]
  down := none
  once := by decide

/-- The same with a payment to a second address. -/
def busier : Upstream where
  balance address := .ok (if address = "b" then ⟨1, 1, 0⟩ else if address = "a" then ⟨1, 0, 5⟩
    else ⟨0, 0, 0⟩)
  unspent _ := .ok []
  txs := [paid, bought]
  down := none
  once := by decide

def goodDisk : Disk := ⟨fun _ => true, fun _ => true⟩

def firstLook : Request := ⟨["a", "b"], 5, quiet, quiet, goodDisk⟩

def secondLook : Request := ⟨["b", "a"], 5, busier, busier, goodDisk⟩

theorem whole_of_small
    (still : request.fetched = request.seen) (small : request.seen.txs.length ≤ request.history)
    (took : (match ask request.seen request.fetched request.addresses request.history caches with
      | .error _ => true
      | .ok answers => decide (Took request.seen caches (caches.noted request.disk answers)
          answers)) = true) : Whole caches request where
  still := still
  uncut _ _ _ := Nat.le_trans (length_filter_le _ _) small
  took answers asked := by
    rw [asked] at took
    exact of_decide_eq_true took

theorem busier_steady : Steady [quiet] busier := by
  intro old isOld address sig before now tx touches
  cases mem_singleton.mp isOld
  constructor
  · exact fun known => mem_cons_of_mem paid known
  intro known
  rcases mem_cons.mp known with rfl | known
  · -- The payment shows in the balance row of the address it touches.
    cases mem_singleton.mp (of_decide_eq_true touches)
    have differ : quiet.balance "a" ≠ busier.balance "a" := by decide
    exact absurd (before.trans now.symm) differ
  · exact known

theorem looks_sound :
    SoundRun (Caches.create (some 9) (some 9)) [.scan firstLook, .scan secondLook] := by
  intro before request after split
  rcases before with _ | ⟨first, _ | ⟨second, rest⟩⟩
  · cases split
    exact ⟨nofun, nofun, whole_of_small rfl (by decide) (by decide)⟩
  · cases split
    refine ⟨busier_steady, fun old isOld tx known _ => ?_,
      whole_of_small rfl (by decide) (by decide)⟩
    cases mem_singleton.mp isOld
    exact mem_cons_of_mem paid known
  cases rest with
  | nil => cases split
  | cons _ _ => cases split

theorem caches_change_nothing_second :
    ∃ cached, (secondLook.on (afterOps (Caches.create (some 9) (some 9)) [.scan firstLook])).1 =
        .ok cached ∧ cached.used = ["b", "a"] ∧ cached.utxos = [] ∧
          cached.txs.Perm [paid, bought] :=
  caches_change_nothing (fun _ => rfl) [.scan firstLook, .scan secondLook] looks_sound
    [.scan firstLook] secondLook [] rfl ⟨["b", "a"], [], [paid, bought]⟩ (by decide)

def sold : Tx := ⟨"a1", some 8, ["a"]⟩

def traded : Upstream where
  balance address := .ok (if address = "a" ∨ address = "b" then ⟨1, 1, 0⟩ else ⟨0, 0, 0⟩)
  unspent _ := .ok []
  txs := [sold, bought]
  down := none
  once := by decide

/-- The limit is spent on the first address; the second one's signature is saved all the same. -/
theorem shared_limit_hides :
    let both : Request := ⟨["a", "b"], 1, traded, traded, goodDisk⟩
    let alone : Request := ⟨["b"], 1, traded, traded, goodDisk⟩
    Steady [traded] traded ∧
      (alone.on (afterOps (Caches.create (some 9) (some 9)) [.scan both])).1 = .ok ⟨["b"], [], []⟩ ∧
      (alone.on Caches.none).1 = .ok ⟨["b"], [], [bought]⟩ := by
  refine ⟨fun old isOld _ _ _ _ _ _ => ?_, by decide, by decide⟩
  rw [mem_singleton.mp isOld]

end Fortis.Edge.Scan
