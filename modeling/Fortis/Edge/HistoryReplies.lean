import Fortis.Edge.ScanRuns

/-!
# The replies with an address's history

A fetch is merged into the store of confirmed transactions, which forgets nothing; the reply lists
what is pending in the fetch and everything the store has of the address.
-/

namespace Fortis.Edge.Scan

open Lib List Option Table

/-- The confirmed part of a reply: what could not be stored goes to its place, and neighbours that
repeat a txid are dropped. -/
def ranked (known unstored : List Tx) : List Tx :=
  if unstored = [] then known
  else ((known ++ unstored).insertionSort newerOrSame).destutter fun first second =>
    first.txid ≠ second.txid

/-- What `merge` answers. -/
def BtcHistory.reply (disk : Disk) (address : String) (store : BtcHistory) (txs : List Tx) :
    List Tx :=
  let merged := store.merge disk address txs
  (txs.filter fun tx => !tx.isConfirmed) ++ ranked (merged.1.get address) merged.2

def BtcHistory.after (disk : Disk) (maxKeys : Nat) (fetches : List (String × List Tx)) :
    BtcHistory :=
  fetches.foldl (fun store fetch => (store.merge disk fetch.1 fetch.2).1) ⟨Table.empty, maxKeys⟩

/-- Everything fetched for an address. -/
def reported (fetches : List (String × List Tx)) (address : String) : List Tx :=
  (fetches.filter fun fetch => fetch.1 = address).flatMap Prod.snd

/-- A fetch that repeats no pending transaction, after reports of which none was confirmed in two
ways, and none is pending now. -/
structure SteadyFetch (earlier txs : List Tx) : Prop where
  small : ∀ tx ∈ earlier ++ txs, tx.heightOf ≤ i64Max
  once : ∀ first ∈ earlier ++ txs, ∀ second ∈ earlier ++ txs, first.isConfirmed →
    second.isConfirmed → first.txid = second.txid → first = second
  pending : ∀ tx ∈ txs, tx.isConfirmed = false → ∀ other ∈ earlier ++ txs, other.isConfirmed →
    tx.txid ≠ other.txid
  distinct : ((txs.filter fun tx => !tx.isConfirmed).map Tx.txid).Nodup

section Merges

variable {disk : Disk} {store : BtcHistory} {address : String} {tx : Tx} {txs : List Tx}
  {state : BtcHistory × List Tx}

/-- A merge so far has the transaction: stored, or left out. -/
def Has (address : String) (tx : Tx) (state : BtcHistory × List Tx) : Prop :=
  tx ∈ state.2 ∨ ∃ row ∈ state.1.rows.rows, historyKey row = historyKey (address, tx)

theorem Has.mergeOne (has : Has address tx state) (next : Tx) :
    Has address tx (BtcHistory.mergeOne disk address state next) := by
  rcases has with waits | ⟨row, stored, isKey⟩
  · unfold BtcHistory.mergeOne
    dsimp only
    split_ifs
    · exact .inl waits
    · exact .inl waits
    · exact .inl (mem_append_left _ waits)
  · exact .inr ⟨row, mergeOne_keeps stored, isKey⟩

theorem has_mergeOne (state : BtcHistory × List Tx) :
    Has address tx (BtcHistory.mergeOne disk address state tx) := by
  unfold BtcHistory.mergeOne
  dsimp only
  split_ifs with known room
  · obtain ⟨row, found⟩ := isSome_iff_exists.mp known
    exact .inr ⟨row, mem_of_get? found, key_of_get? found⟩
  · exact .inr ⟨_, mem_put.mpr (.inl rfl), rfl⟩
  · exact .inl (by simp)

theorem has_foldl {confirmed : List Tx} (listed : tx ∈ confirmed ∨ Has address tx state) :
    Has address tx (confirmed.foldl (BtcHistory.mergeOne disk address) state) := by
  induction confirmed generalizing state with
  | nil => exact listed.resolve_left nofun
  | cons first rest ih =>
    refine ih ?_
    rcases listed with mem | has
    · rcases mem_cons.mp mem with rfl | later
      · exact .inr (has_mergeOne state)
      · exact .inl later
    · exact .inr (has.mergeOne first)

theorem mem_unstored (waits : tx ∈ (store.merge disk address txs).2) :
    tx ∈ txs ∧ tx.isConfirmed := by
  have whole := foldl_source (fun state : BtcHistory × List Tx => tx ∈ state.2) waits
    fun state next later => show tx ∈ state.2 ∨ tx = next by
      unfold BtcHistory.mergeOne at later
      dsimp only at later
      split_ifs at later
      · exact .inl later
      · exact .inl later
      · simpa using later
  obtain ⟨_, merged, rfl⟩ := whole.resolve_left nofun
  exact mem_filter.mp merged

theorem mem_get : tx ∈ store.get address ↔ (address, tx) ∈ store.rows.rows := by
  constructor
  · intro listed
    obtain ⟨⟨own, _⟩, mem, rfl⟩ := mem_map.mp listed
    obtain ⟨stored, same⟩ := mem_filter.mp mem
    obtain rfl : own = address := by simpa using same
    exact stored
  · exact fun stored => mem_map.mpr ⟨_, mem_filter.mpr ⟨stored, by simp⟩, rfl⟩

theorem merge_lists (disk : Disk) (store : BtcHistory) (address : String) (mem : tx ∈ txs)
    (confirmed : tx.isConfirmed) :
    ∃ listed ∈ (store.merge disk address txs).1.get address ++ (store.merge disk address txs).2,
      listed.txid = tx.txid := by
  rcases has_foldl (.inl (mem_filter.mpr ⟨mem, confirmed⟩)) with
    waits | ⟨row, stored, isKey⟩
  · exact ⟨tx, mem_append_right _ waits, rfl⟩
  obtain ⟨own, listed⟩ := row
  simp only [historyKey, EmbeddingLike.apply_eq_iff_eq, Prod.mk.injEq] at isKey
  obtain ⟨rfl, _, named⟩ := isKey
  exact ⟨listed, mem_append_left _ (mem_get.mpr stored), named⟩

theorem mem_after {maxKeys : Nat} {fetches : List (String × List Tx)} {row : String × Tx}
    (stored : row ∈ (BtcHistory.after disk maxKeys fetches).rows.rows) :
    row.2 ∈ reported fetches row.1 ∧ row.2.isConfirmed := by
  have whole := foldl_source (fun store : BtcHistory => row ∈ store.rows.rows) stored
    fun _ _ => mem_merge
  obtain ⟨fetch, mem, own, listed, confirmed⟩ := whole.resolve_left nofun
  have asked : fetch ∈ fetches.filter fun fetch => fetch.1 = row.1 := by simp [mem, own]
  exact ⟨mem_flatMap.mpr ⟨fetch, asked, listed⟩, confirmed⟩

end Merges

section Replies

variable {store : BtcHistory} {address : String} {last tx : Tx} {rest txs known unstored : List Tx}

theorem mem_ranked (listed : tx ∈ ranked known unstored) : tx ∈ known ++ unstored := by
  unfold ranked at listed
  split at listed
  · exact mem_append_left _ listed
  · exact (mem_insertionSort newerOrSame).mp ((destutter_sublist _ _).subset listed)

theorem destutter_txids (mem : tx ∈ last :: rest) :
    ∃ listed ∈ rest.destutter' (fun first second => first.txid ≠ second.txid) last,
      listed.txid = tx.txid := by
  induction rest generalizing last with
  | nil => exact ⟨tx, mem, rfl⟩
  | cons first rest ih =>
    rw [destutter'_cons]
    split
    · rcases mem_cons.mp mem with rfl | later
      · exact ⟨tx, mem_cons_self, rfl⟩
      obtain ⟨listed, inRest, named⟩ := ih later
      exact ⟨listed, mem_cons_of_mem _ inRest, named⟩
    next same =>
    rcases mem_cons.mp mem with rfl | later
    · exact ih mem_cons_self
    rcases mem_cons.mp later with rfl | further
    · exact ⟨last, mem_destutter' _ _ _, not_not.mp same⟩
    · exact ih (mem_cons_of_mem _ further)

theorem ranked_txids (member : tx ∈ known ++ unstored) :
    ∃ listed ∈ ranked known unstored, listed.txid = tx.txid := by
  unfold ranked
  split
  next stored => exact ⟨tx, by simpa [stored] using member, rfl⟩
  replace member := (mem_insertionSort newerOrSame).mpr member
  generalize (known ++ unstored).insertionSort newerOrSame = sorted at member ⊢
  cases sorted with
  | nil => cases member
  | cons first rest => exact destutter_txids member

theorem strict_of_chain (sorted : txs.Pairwise newerOrSame)
    (chain : txs.IsChain fun first second => first.txid ≠ second.txid) :
    txs.Pairwise fun first second => ¬ newerOrSame second first := by
  induction txs with
  | nil => exact List.Pairwise.nil
  | cons first rest ih =>
    obtain ⟨after, later⟩ := pairwise_cons.mp sorted
    refine pairwise_cons.mpr ⟨fun other listed back => ?_, ih later chain.tail⟩
    rcases rest with _ | ⟨second, rest⟩
    · cases listed
    have next : newerOrSame second other := by
      rcases mem_cons.mp listed with rfl | further
      · exact .inr ⟨rfl, le_rfl⟩
      · exact (pairwise_cons.mp later).1 other further
    have between := IsTrans.trans _ _ _ next back
    rcases after second mem_cons_self with higher | ⟨_, before⟩ <;>
      rcases between with lower | ⟨_, back⟩ <;> try omega
    exact (isChain_cons_cons.mp chain).1 (le_antisymm before back)

theorem ranked_strict (unstored : List Tx)
    (strict : known.Pairwise fun first second => ¬ newerOrSame second first) :
    (ranked known unstored).Pairwise fun first second => ¬ newerOrSame second first := by
  unfold ranked
  split
  · exact strict
  have sorted := pairwise_insertionSort newerOrSame (known ++ unstored)
  exact strict_of_chain (sorted.sublist (destutter_sublist _ _)) (isChain_destutter _ _)

/-- The rows of an address stand in the order of the reply. -/
theorem get_strict (small : ∀ tx ∈ store.get address, tx.heightOf ≤ i64Max) :
    (store.get address).Pairwise fun first second => ¬ newerOrSame second first := by
  refine pairwise_map.mpr ((store.rows.sorted.filter _).imp_of_mem ?_)
  intro first second inFirst inSecond ordered
  have low := small _ (mem_map_of_mem inFirst)
  have high := small _ (mem_map_of_mem inSecond)
  have own : first.1 = second.1 := by
    have one := (mem_filter.mp inFirst).2
    have two := (mem_filter.mp inSecond).2
    simp only [decide_eq_true_eq] at one two
    exact one.trans two.symm
  simp only [historyKey, Prod.Lex.toLex_lt_toLex, own, lt_irrefl, true_and, false_or] at ordered
  rcases ordered with lower | ⟨level, names⟩
  · rintro (higher | ⟨same, _⟩) <;> omega
  · rintro (higher | ⟨_, back⟩)
    · omega
    · exact absurd names (not_lt.mpr back)

end Replies

/-- The reply to a fetch holds every transaction of it, no txid twice, the confirmed ones newest
first, if each was reported confirmed in one way only and is not pending after that. -/
theorem merged_history_lists_once (disk : Disk) (maxKeys : Nat)
    (earlier : List (String × List Tx)) (address : String) (txs : List Tx)
    (steady : SteadyFetch (reported earlier address) txs) :
    let reply := (BtcHistory.after disk maxKeys earlier).reply disk address txs
    (∀ tx ∈ txs, tx ∈ reply) ∧ (reply.map Tx.txid).Nodup ∧
      (reply.filter Tx.isConfirmed).Pairwise fun first second =>
        second.heightOf ≤ first.heightOf := by
  generalize isStore : BtcHistory.after disk maxKeys earlier = store
  have known : ∀ tx ∈ (store.merge disk address txs).1.get address ++
      (store.merge disk address txs).2, tx ∈ reported earlier address ++ txs ∧ tx.isConfirmed := by
    intro tx mem
    rcases mem_append.mp mem with stored | waits
    · rcases mem_merge (mem_get.mp stored) with old | ⟨_, listed, confirmed⟩
      · obtain ⟨listed, confirmed⟩ := mem_after (isStore ▸ old)
        exact ⟨mem_append_left _ listed, confirmed⟩
      · exact ⟨mem_append_right _ listed, confirmed⟩
    · obtain ⟨listed, confirmed⟩ := mem_unstored waits
      exact ⟨mem_append_right _ listed, confirmed⟩
  have strict := ranked_strict (store.merge disk address txs).2 (get_strict
    fun tx listed => steady.small tx (known tx (mem_append_left _ listed)).1)
  have listed : ∀ tx ∈ txs, tx.isConfirmed → tx ∈ ranked
      ((store.merge disk address txs).1.get address) (store.merge disk address txs).2 := by
    intro tx mem confirmed
    obtain ⟨stored, isStored, named⟩ := merge_lists disk store address mem confirmed
    obtain ⟨kept, isKept, named'⟩ := ranked_txids isStored
    have found := known kept (mem_ranked isKept)
    rwa [steady.once tx (mem_append_right _ mem) kept found.1 confirmed found.2
      (named'.trans named).symm]
  have among := fun tx (mem : tx ∈ ranked _ _) => known tx (mem_ranked mem)
  unfold BtcHistory.reply
  dsimp only
  generalize ranked _ _ = confirmed at strict listed among ⊢
  refine ⟨fun tx mem => ?_, ?_, ?_⟩
  · cases isConfirmed : tx.isConfirmed with
    | true => exact mem_append_right _ (listed tx mem isConfirmed)
    | false => exact mem_append_left _ (mem_filter.mpr ⟨mem, by simp [isConfirmed]⟩)
  · rw [map_append]
    refine List.Nodup.append steady.distinct ?_ ?_
    · refine pairwise_map.mpr (strict.imp_of_mem fun inFirst inSecond before same => ?_)
      have equal := steady.once _ (among _ inFirst).1 _ (among _ inSecond).1 (among _ inFirst).2
        (among _ inSecond).2 same
      exact before (equal ▸ .inr ⟨rfl, le_rfl⟩)
    · intro txid inPending inConfirmed
      obtain ⟨tx, mem, rfl⟩ := mem_map.mp inPending
      obtain ⟨other, listed, same⟩ := mem_map.mp inConfirmed
      obtain ⟨mem, waiting⟩ := mem_filter.mp mem
      exact steady.pending tx mem (by simpa using waiting) other (among other listed).1
        (among other listed).2 same.symm
  · have none_pending : ∀ tx ∈ txs.filter fun tx => !tx.isConfirmed, ¬ tx.isConfirmed := by simp
    rw [filter_append, filter_eq_nil_iff.mpr none_pending, nil_append]
    exact (strict.filter _).imp fun before => not_lt.mp fun lower => before (.inl lower)

theorem merged_history_lists_once_pending :
    let reply := (BtcHistory.after goodDisk 1 [("a", [⟨"t", some 9, []⟩])]).reply goodDisk "a"
      [⟨"u", none, []⟩, ⟨"v", some 8, []⟩]
    (∀ tx ∈ [⟨"u", none, []⟩, ⟨"v", some 8, []⟩], tx ∈ reply) ∧ (reply.map Tx.txid).Nodup ∧
      (reply.filter Tx.isConfirmed).Pairwise fun first second =>
        second.heightOf ≤ first.heightOf :=
  merged_history_lists_once goodDisk 1 [("a", [⟨"t", some 9, []⟩])] "a"
    [⟨"u", none, []⟩, ⟨"v", some 8, []⟩] ⟨by decide, by decide, by decide, by decide⟩

/-- A transaction that a reorganisation moved to another height stays in the store under both. -/
theorem reorganised_tx_listed_twice :
    ((BtcHistory.after goodDisk 9 [("a", [⟨"t", some 8, []⟩])]).reply goodDisk "a"
      [⟨"t", some 9, []⟩]).map Tx.txid = ["t", "t"] := by
  decide

/-! ## The route of one address -/

structure CachedTxs where
  address : String
  goodUntil : Nat
  body : List Tx

/-- A request for an address's transactions, with the upstream's answer. -/
structure TxsRequest where
  address : String
  now : Nat
  answer : Option (List Tx)
  keeps : CachedTxs → Bool

structure TxsRoute where
  btcHistory : Option BtcHistory
  cache : Table String CachedTxs CachedTxs.address

def ttlFor (body : List Tx) : Nat :=
  if body.any Tx.isConfirmed ∧ body.all Tx.isConfirmed then 21600 else 60

def TxsRoute.known (route : TxsRoute) (address : String) : List Tx :=
  (route.btcHistory.map fun store => store.get address).getD []

def TxsRoute.serve (disk : Disk) (route : TxsRoute) (request : TxsRequest) :
    Option (List Tx) × TxsRoute :=
  let cached := route.cache.get? request.address
  match cached.filter fun row => request.now < row.goodUntil with
  | some hit => (some hit.body, route)
  | none =>
    if route.known request.address ≠ [] then (some (route.known request.address), route)
    else match request.answer with
      | some txs =>
        let body := match route.btcHistory with
          | some store => store.reply disk request.address txs
          | none => txs
        (some body, ⟨route.btcHistory.map fun store => (store.merge disk request.address txs).1,
          (route.cache.retain request.keeps).put
            ⟨request.address, request.now + ttlFor body, body⟩⟩)
      -- the store has nothing here, so a failing upstream leaves what was cached lately
      | none => ((cached.filter fun row => request.now < row.goodUntil + 600).map (·.body), route)

def TxsRoute.after (disk : Disk) (store : Option BtcHistory) (requests : List TxsRequest) :
    TxsRoute :=
  requests.foldl (fun route request => (route.serve disk request).2) ⟨store, Table.empty⟩

theorem ttlFor_le (body : List Tx) : ttlFor body ≤ 21600 := by
  unfold ttlFor
  split <;> decide

variable {requests : List TxsRequest}

theorem cached_after {disk : Disk} {store : Option BtcHistory}
    {row : CachedTxs} (cached : row ∈ (TxsRoute.after disk store requests).cache.rows) :
    ∃ old ∈ requests, old.address = row.address ∧ row.goodUntil ≤ old.now + 21600 := by
  have start : row ∉ (⟨store, empty⟩ : TxsRoute).cache.rows := nofun
  refine (foldl_source (fun route : TxsRoute => row ∈ route.cache.rows) cached
    fun route request served => ?_).resolve_left start
  unfold TxsRoute.serve at served
  dsimp only at served
  split at served
  · exact .inl served
  split at served
  · exact .inl served
  split at served
  · rcases mem_put.mp served with rfl | ⟨old, _⟩
    · exact .inr ⟨rfl, Nat.add_le_add_left (ttlFor_le _) _⟩
    · exact .inl (mem_filter.mp old).1
  · exact .inl served

theorem cache_expired (disk : Disk) (store : Option BtcHistory) {address : String} {now : Nat}
    (spaced : ∀ old ∈ requests, old.address = address → old.now + 21600 ≤ now) :
    ((TxsRoute.after disk store requests).cache.get? address).filter
      (fun row => now < row.goodUntil) = none := by
  refine filter_eq_none_iff.mpr fun row found => ?_
  obtain ⟨old, mem, own, lifetime⟩ := cached_after (mem_of_get? found)
  have apart := spaced old mem (own.trans (key_of_get? found))
  simp only [decide_eq_true_eq, Nat.not_lt]
  exact lifetime.trans apart

/-! ## What the store knows after requests of this route alone -/

/-- The first answer for an address that has a confirmed transaction. -/
def firstConfirmed (requests : List TxsRequest) (address : String) : Option (List Tx) :=
  (requests.filter fun request => request.address = address).findSome? fun request =>
    request.answer.filter fun txs => txs.any Tx.isConfirmed

/-- Requests for one address are further apart than any cache lifetime. -/
def Spaced (requests : List TxsRequest) : Prop :=
  requests.Pairwise fun old new => old.address = new.address → old.now + 21600 ≤ new.now

/-- Along the requests the store takes every confirmed transaction it is given. -/
def TxsRoute.Stores (disk : Disk) : TxsRoute → List TxsRequest → Prop
  | _, [] => True
  | route, request :: rest =>
    (∀ store ∈ route.btcHistory, ∀ txs ∈ request.answer,
      (store.merge disk request.address txs).2 = []) ∧
      ((route.serve disk request).2).Stores disk rest

section Known

variable {disk : Disk} {route : TxsRoute} {store : BtcHistory} {request : TxsRequest}
  {address : String} {tx : Tx} {txs : List Tx}

theorem stores_append {rest : List TxsRequest} (stores : route.Stores disk (requests ++ rest)) :
    route.Stores disk requests ∧
      (requests.foldl (fun route request => (route.serve disk request).2) route).Stores disk
        rest := by
  induction requests generalizing route with
  | nil => exact ⟨trivial, stores⟩
  | cons first later ih => exact ⟨⟨stores.1, (ih stores.2).1⟩, (ih stores.2).2⟩

theorem after_snoc (store : Option BtcHistory) (request : TxsRequest) :
    TxsRoute.after disk store (requests ++ [request]) =
      ((TxsRoute.after disk store requests).serve disk request).2 := by
  rw [TxsRoute.after, foldl_append]
  rfl

/-- A merge into an address leaves the others as they were. -/
theorem mem_get_merge_other {other : String} (apart : other ≠ address) :
    tx ∈ (store.merge disk other txs).1.get address ↔ tx ∈ store.get address := by
  rw [mem_get, mem_get]
  constructor
  · intro stored
    rcases mem_merge stored with old | ⟨same, _⟩
    · exact old
    · exact absurd same.symm apart
  · exact fun stored => foldl_keeps stored

section

variable (expired : (route.cache.get? request.address).filter
    (fun row => request.now < row.goodUntil) = none)
include expired

/-- Once the store knows of an address, the route serves that and changes nothing. -/
theorem serve_known (known : route.known request.address ≠ []) :
    route.serve disk request = (some (route.known request.address), route) := by
  unfold TxsRoute.serve
  simp only [expired, if_pos known]

/-- With nothing known, an answer is merged into the store. -/
theorem serve_unknown
    (unknown : route.known request.address = []) (answered : request.answer = some txs) :
    (route.serve disk request).2.btcHistory =
        route.btcHistory.map (fun store => (store.merge disk request.address txs).1) ∧
      ∃ reply, (route.serve disk request).1 = some reply ∧
        ∀ tx ∈ txs, tx.isConfirmed → ∃ listed ∈ reply, listed.txid = tx.txid := by
  unfold TxsRoute.serve
  simp only [expired, unknown, answered, ne_eq, not_true_eq_false, if_false]
  refine ⟨trivial, _, rfl, fun tx mem confirmed => ?_⟩
  cases route.btcHistory with
  | none => exact ⟨tx, mem, rfl⟩
  | some store =>
    obtain ⟨stored, isStored, named⟩ := merge_lists disk store request.address mem confirmed
    obtain ⟨listed, isListed, named'⟩ := ranked_txids isStored
    exact ⟨listed, mem_append_right _ isListed, named'.trans named⟩

end

/-- A request for another address leaves what is known of this one. -/
theorem known_other (apart : request.address ≠ address) :
    tx ∈ (route.serve disk request).2.known address ↔ tx ∈ route.known address := by
  unfold TxsRoute.serve
  dsimp only
  split
  · rfl
  · split
    · rfl
    · split
      next txs _ =>
        unfold TxsRoute.known
        cases route.btcHistory with
        | none => rfl
        | some store => exact mem_get_merge_other apart
      · rfl

/-- A configured store stays configured, and none is made. -/
theorem store_after (disk : Disk) (store : Option BtcHistory) (requests : List TxsRequest) :
    (TxsRoute.after disk store requests).btcHistory.isSome = store.isSome := by
  induction requests using List.reverseRecOn with
  | nil => rfl
  | append_singleton requests request ih =>
    rw [after_snoc, ← ih]
    unfold TxsRoute.serve
    dsimp only
    split
    · rfl
    · split
      · rfl
      · split
        · exact Option.isSome_map
        · rfl

theorem firstConfirmed_confirmed {first : List Tx}
    (found : firstConfirmed requests address = some first) : ∃ tx ∈ first, tx.isConfirmed := by
  obtain ⟨request, _, answered⟩ := exists_of_findSome?_eq_some found
  exact any_eq_true.mp (Option.filter_eq_some_iff.mp answered).2

theorem firstConfirmed_snoc : firstConfirmed (requests ++ [request]) address =
    (firstConfirmed requests address).or (if request.address = address then
      request.answer.filter fun txs => txs.any Tx.isConfirmed else none) := by
  unfold firstConfirmed
  rw [filter_append, findSome?_append]
  by_cases own : request.address = address <;> simp [own]

/-- The first answer merged for an address is what the store knows of it. -/
theorem known_first (expired : (route.cache.get? request.address).filter
      (fun row => request.now < row.goodUntil) = none)
    (unknown : route.known request.address = []) (configured : route.btcHistory = some store)
    (takes : ∀ txs ∈ request.answer, (store.merge disk request.address txs).2 = [])
    {txid : String} :
    (∃ tx ∈ (route.serve disk request).2.known request.address, tx.txid = txid) ↔
      ∃ first, (request.answer.filter fun txs => txs.any Tx.isConfirmed) = some first ∧
        ∃ tx ∈ first, tx.isConfirmed ∧ tx.txid = txid := by
  have nothing : store.get request.address = [] := by
    simpa [TxsRoute.known, configured] using unknown
  cases answered : request.answer with
  | none =>
    have same : (route.serve disk request).2 = route := by
      unfold TxsRoute.serve
      simp only [expired, unknown, answered, ne_eq, not_true_eq_false, if_false]
    simp [same, unknown]
  | some txs =>
    have merged : (route.serve disk request).2.known request.address =
        (store.merge disk request.address txs).1.get request.address := by
      rw [TxsRoute.known, (serve_unknown expired unknown answered).1, configured]
      rfl
    have all := takes txs answered
    rw [merged]
    constructor
    · rintro ⟨tx, listed, named⟩
      rcases mem_merge (mem_get.mp listed) with old | ⟨_, mem, confirmed⟩
      · have stored := mem_get.mpr old
        rw [nothing] at stored
        cases stored
      · exact ⟨txs, Option.filter_eq_some_iff.mpr ⟨rfl, any_eq_true.mpr ⟨tx, mem, confirmed⟩⟩,
          tx, mem, confirmed, named⟩
    · rintro ⟨first, isFirst, tx, mem, confirmed, named⟩
      obtain ⟨same, _⟩ := Option.filter_eq_some_iff.mp isFirst
      cases same
      obtain ⟨listed, isListed, alike⟩ := merge_lists disk store request.address mem confirmed
      rw [all, append_nil] at isListed
      exact ⟨listed, isListed, alike.trans named⟩

/-- What the store knows of an address, started empty, is what the first answer with a confirmed
transaction had confirmed: the route merges no other. -/
theorem known_after (address : String) (maxKeys : Nat) (spaced : Spaced requests)
    (stores : TxsRoute.Stores disk ⟨some ⟨Table.empty, maxKeys⟩, Table.empty⟩ requests)
    (txid : String) :
    (∃ tx ∈ (TxsRoute.after disk (some ⟨Table.empty, maxKeys⟩) requests).known address,
        tx.txid = txid) ↔
      ∃ first, firstConfirmed requests address = some first ∧
        ∃ tx ∈ first, tx.isConfirmed ∧ tx.txid = txid := by
  induction requests using List.reverseRecOn generalizing txid with
  | nil => simp [firstConfirmed, TxsRoute.after, TxsRoute.known, BtcHistory.get, Table.empty]
  | append_singleton requests request ih =>
    obtain ⟨before, _, apart⟩ := pairwise_append.mp spaced
    have ih := ih before (stores_append stores).1
    have expired := cache_expired disk (some ⟨Table.empty, maxKeys⟩)
      fun old mem => apart old mem request mem_cons_self
    obtain ⟨store, configured⟩ := isSome_iff_exists.mp
      (store_after disk (some ⟨Table.empty, maxKeys⟩) requests)
    have takes := (stores_append stores).2.1
    change ∀ store ∈ (TxsRoute.after disk _ requests).btcHistory, _ at takes
    rw [after_snoc, firstConfirmed_snoc]
    by_cases own : request.address = address
    · subst own
      rw [if_pos rfl]
      by_cases unknown : (TxsRoute.after disk (some ⟨Table.empty, maxKeys⟩) requests).known
          request.address = []
      · have none : firstConfirmed requests request.address = none := by
          refine Option.eq_none_iff_forall_ne_some.mpr fun first found => ?_
          obtain ⟨tx, mem, confirmed⟩ := firstConfirmed_confirmed found
          obtain ⟨listed, isListed, _⟩ := (ih tx.txid).mpr ⟨first, found, tx, mem, confirmed, rfl⟩
          rw [unknown] at isListed
          cases isListed
        rw [none, Option.none_or]
        exact known_first expired unknown configured (takes store configured)
      · -- What is known stays, and so does the answer it came from.
        obtain ⟨known, isKnown⟩ := exists_mem_of_ne_nil _ unknown
        obtain ⟨first, found, _⟩ := (ih known.txid).mp ⟨known, isKnown, rfl⟩
        rw [serve_known expired unknown, found, Option.some_or, ← found]
        exact ih txid
    · rw [if_neg own, Option.or_none]
      simp only [known_other own]
      exact ih txid

end Known

/-- A confirmed transaction of the upstream's answer is in the reply exactly when the store knows
nothing of the address or knows it already; that is, over requests of this route alone from an empty
store, exactly when the first answer with any confirmed transaction had it.  Without a store it
always is. -/
theorem history_follows_upstream (disk : Disk) (store : Option BtcHistory)
    (earlier : List TxsRequest) (request : TxsRequest) (txs : List Tx)
    (answered : request.answer = some txs) (spaced : Spaced (earlier ++ [request])) :
    let route := TxsRoute.after disk store earlier
    ∃ reply, (route.serve disk request).1 = some reply ∧ ∀ tx ∈ txs, tx.isConfirmed →
      ((∃ listed ∈ reply, listed.txid = tx.txid) ↔ route.known request.address = [] ∨
        ∃ known ∈ route.known request.address, known.txid = tx.txid) ∧
      (store = none → ∃ listed ∈ reply, listed.txid = tx.txid) ∧
      ∀ maxKeys, store = some ⟨Table.empty, maxKeys⟩ →
        TxsRoute.Stores disk ⟨store, Table.empty⟩ earlier →
          ((∃ listed ∈ reply, listed.txid = tx.txid) ↔
            ∀ first, firstConfirmed earlier request.address = some first →
              ∃ old ∈ first, old.isConfirmed ∧ old.txid = tx.txid) := by
  intro route
  obtain ⟨before, _, apart⟩ := pairwise_append.mp spaced
  have expired := cache_expired disk store fun old mem => apart old mem request mem_cons_self
  have exact : ∃ reply, (route.serve disk request).1 = some reply ∧ ∀ tx ∈ txs, tx.isConfirmed →
      ((∃ listed ∈ reply, listed.txid = tx.txid) ↔ route.known request.address = [] ∨
        ∃ known ∈ route.known request.address, known.txid = tx.txid) := by
    by_cases unknown : route.known request.address = []
    · have merged : _ ∧ ∃ reply, (route.serve disk request).1 = some reply ∧ _ :=
        serve_unknown expired unknown answered
      obtain ⟨_, reply, served, lists⟩ := merged
      exact ⟨reply, served, fun tx mem confirmed =>
        iff_of_true (lists tx mem confirmed) (.inl unknown)⟩
    · exact ⟨_, congrArg Prod.fst (serve_known expired unknown), fun tx _ _ =>
        (or_iff_right unknown).symm⟩
  obtain ⟨reply, served, listed⟩ := exact
  refine ⟨reply, served, fun tx mem confirmed => ⟨listed tx mem confirmed, fun none => ?_, ?_⟩⟩
  · have unconfigured : route.btcHistory = Option.none := by
      have same := store_after disk store earlier
      rw [none] at same
      exact Option.not_isSome_iff_eq_none.mp (by simp [route, none, same])
    refine (listed tx mem confirmed).mpr (.inl ?_)
    rw [TxsRoute.known, unconfigured]
    rfl
  · intro maxKeys isEmpty stores
    subst isEmpty
    have known := known_after request.address maxKeys before stores
    rw [listed tx mem confirmed]
    constructor
    · rintro (unknown | listed) first found
      · obtain ⟨one, isOne, isConfirmed⟩ := firstConfirmed_confirmed found
        obtain ⟨row, isRow, _⟩ := (known one.txid).mpr ⟨first, found, one, isOne, isConfirmed, rfl⟩
        rw [show (TxsRoute.after disk _ earlier).known request.address = [] from unknown] at isRow
        cases isRow
      · obtain ⟨other, found', has⟩ := (known tx.txid).mp listed
        cases found.symm.trans found'
        exact has
    · intro has
      cases found : firstConfirmed earlier request.address with
      | none =>
        refine .inl (eq_nil_iff_forall_not_mem.mpr fun row isRow => ?_)
        obtain ⟨first, found', _⟩ := (known row.txid).mp ⟨row, isRow, rfl⟩
        rw [found] at found'
        cases found'
      | some first => exact .inr ((known tx.txid).mpr ⟨first, found, has first found⟩)

namespace HistorySample

def older : Tx := ⟨"t", some 7, []⟩

def newer : Tx := ⟨"u", some 8, []⟩

def latest : Tx := ⟨"v", some 9, []⟩

/-- Nothing confirmed, then two transactions, with another address asked for in between. -/
def earlier : List TxsRequest :=
  [⟨"a", 0, some [], fun _ => true⟩, ⟨"b", 5, some [latest], fun _ => true⟩,
    ⟨"a", 21600, some [newer, older], fun _ => true⟩]

def request : TxsRequest := ⟨"a", 43200, some [latest, newer, older], fun _ => true⟩

end HistorySample

open HistorySample in
/-- The store has the two transactions of the second answer; the third is not in the reply. -/
theorem history_follows_upstream_second :
    ∃ reply, ((TxsRoute.after goodDisk (some ⟨Table.empty, 9⟩) earlier).serve goodDisk
        request).1 = some reply ∧
      (∃ listed ∈ reply, listed.txid = "u") ∧ ¬ ∃ listed ∈ reply, listed.txid = "v" := by
  obtain ⟨reply, served, lists⟩ := history_follows_upstream goodDisk (some ⟨Table.empty, 9⟩) earlier
    request [latest, newer, older] rfl (by simp [Spaced, earlier, request])
  have stores : TxsRoute.Stores goodDisk ⟨some ⟨Table.empty, 9⟩, Table.empty⟩ earlier := by
    refine ⟨?_, ?_, ?_, trivial⟩ <;> rintro _ ⟨⟩ _ ⟨⟩ <;> decide
  refine ⟨reply, served, ?_, ?_⟩
  · refine ((lists newer (by decide) rfl).2.2 9 rfl stores).mpr fun first found => ?_
    cases found
    decide
  · intro listed
    have had := ((lists latest (by decide) rfl).2.2 9 rfl stores).mp listed _ rfl
    revert had
    decide

/-- The first answer enters the store, and every later request is answered with it. -/
theorem history_frozen :
    let route := TxsRoute.after goodDisk (some ⟨Table.empty, 9⟩)
      [⟨"a", 0, some [⟨"t", some 8, []⟩], fun _ => true⟩]
    route.known "a" = [⟨"t", some 8, []⟩] ∧ ∀ now answer keeps, 21600 ≤ now →
      route.serve goodDisk ⟨"a", now, answer, keeps⟩ = (some [⟨"t", some 8, []⟩], route) := by
  intro route
  have known : route.known "a" = [⟨"t", some 8, []⟩] := by decide
  refine ⟨known, fun now answer keeps late => ?_⟩
  have expired : (route.cache.get? "a").filter (fun row => now < row.goodUntil) = none :=
    cache_expired goodDisk _ (by simpa using late)
  unfold TxsRoute.serve
  simp [expired, known]

end Fortis.Edge.Scan
