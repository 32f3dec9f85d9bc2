import Fortis.Edge.Scan
import Fortis.Lib.Prog

/-!
# When the caches change nothing

A saved signature is trusted when some earlier state of the upstream had this
row for the address, with exactly the pending transactions saved and with every
confirmed one in the history store.  A scan keeps that as long as nothing cuts a
fetch short; under it the scan gathers exactly what the upstream has.
-/

namespace Fortis.Edge.Scan

open Lib List Table Nat

variable {rows : List (String × Signature)} {size : Nat} {address : String}
  {row : String × Signature} {α : Type} {history : Nat}

section Fetch

variable {addresses : List String} {items chunk : List α} {up : Upstream} {item : α}

theorem mem_of_mem_chunksOf
    (isChunk : chunk ∈ chunksOf size items) (mem : item ∈ chunk) : item ∈ items := by
  obtain ⟨index, _, rfl⟩ := mem_map.mp isChunk
  exact mem_of_mem_drop (mem_of_mem_take mem)

theorem length_of_mem_chunksOf (isChunk : chunk ∈ chunksOf size items) : chunk.length ≤ size := by
  obtain ⟨index, _, rfl⟩ := mem_map.mp isChunk
  exact length_take_le _ _

theorem exists_chunk (pos : 0 < size)
    (mem : item ∈ items) : ∃ chunk ∈ chunksOf size items, item ∈ chunk := by
  obtain ⟨position, inside, rfl⟩ := getElem_of_mem mem
  have split := div_add_mod position size
  have small := mod_lt position pos
  have slice : position / size < (items.length + size - 1) / size := by
    rw [lt_div_iff_mul_lt pos]
    have : position / size * size ≤ position := div_mul_le_self position size
    omega
  refine ⟨_, mem_map.mpr ⟨position / size, mem_range.mpr slice, rfl⟩, ?_⟩
  rw [mem_take_iff_getElem]
  have start : position / size * size + position % size = position := by
    rw [mul_comm]
    exact split
  refine ⟨position % size, ?_, ?_⟩
  · rw [length_drop]
    omega
  rw [getElem_drop]
  congr 1

/-- No request about some of the addresses has more transactions than the limit. -/
def Uncut (up : Upstream) (addresses : List String) (history : Nat) : Prop :=
  ∀ chunk : List String, chunk.length ≤ addrsPerCall → (∀ address ∈ chunk, address ∈ addresses) →
    (up.txs.filter fun tx => chunk.any tx.touches).length ≤ history

theorem mem_fresh
    {fresh : String → List Tx} (told : up.transactionsByAddress addresses history = .ok fresh)
    (uncut : Uncut up addresses history) (asked : address ∈ addresses)
    (tx : Tx) : tx ∈ fresh address ↔ tx ∈ up.txs ∧ tx.touches address = true := by
  unfold Upstream.transactionsByAddress at told
  split at told
  · cases told
  cases told
  rw [mem_filter]
  constructor
  · rintro ⟨listed, touched⟩
    obtain ⟨reply, isReply, listed⟩ := mem_flatten.mp listed
    obtain ⟨chunk, _, rfl⟩ := mem_map.mp isReply
    exact ⟨(mem_filter.mp (mem_of_mem_take listed)).1, touched⟩
  rintro ⟨known, touched⟩
  refine ⟨?_, touched⟩
  obtain ⟨chunk, isChunk, inChunk⟩ := exists_chunk (by decide : 0 < addrsPerCall) asked
  refine mem_flatten.mpr ⟨_, mem_map.mpr ⟨chunk, isChunk, rfl⟩, ?_⟩
  have short := uncut chunk (length_of_mem_chunksOf isChunk)
    fun item inside => mem_of_mem_chunksOf isChunk inside
  unfold Upstream.full
  rw [take_of_length_le short, mem_filter]
  exact ⟨known, any_eq_true.mpr ⟨address, inChunk, touched⟩⟩

theorem mem_balances (told : up.balances addresses = .ok rows)
    (mem : row ∈ rows) : row.1 ∈ addresses ∧ up.balance row.1 = .ok row.2 := by
  obtain ⟨address, asked, found⟩ := mem_of_mapM told mem
  rcases balance : up.balance address with e | sig
  · rw [balance] at found
    cases found
  rw [balance] at found
  cases found
  exact ⟨asked, balance⟩

end Fetch

/-! ## Listings -/

variable {seen : List String} {txs : List Tx} {tx : Tx}

theorem mem_of_mem_firsts (mem : tx ∈ firsts seen txs) : tx ∈ txs := by
  induction txs generalizing seen with
  | nil => exact mem
  | cons first rest ih =>
    unfold firsts at mem
    split at mem
    · exact mem_cons_of_mem first (ih mem)
    rcases mem_cons.mp mem with same | later
    · exact same ▸ mem_cons_self
    · exact mem_cons_of_mem first (ih later)

/-- Where an id belongs to one transaction, none is lost. -/
theorem mem_firsts
    (unique : ∀ first ∈ txs, ∀ second ∈ txs, first.txid = second.txid → first = second)
    (unseen : tx.txid ∉ seen) (mem : tx ∈ txs) : tx ∈ firsts seen txs := by
  induction txs generalizing seen with
  | nil => exact mem
  | cons first rest ih =>
    have uniqueRest : ∀ one ∈ rest, ∀ two ∈ rest, one.txid = two.txid → one = two :=
      fun one isOne two isTwo => unique one (mem_cons_of_mem _ isOne) two (mem_cons_of_mem _ isTwo)
    unfold firsts
    split
    next known =>
      have ne : tx ≠ first := fun same => unseen (same ▸ known)
      exact ih uniqueRest unseen ((mem_cons.mp mem).resolve_left ne)
    next new =>
    by_cases same : tx = first
    · exact same ▸ mem_cons_self
    have later := (mem_cons.mp mem).resolve_left same
    have sameId : tx.txid ≠ first.txid :=
      fun equal => same (unique tx mem first mem_cons_self equal)
    exact mem_cons_of_mem _ (ih uniqueRest (by simp [unseen, sameId]) later)

theorem nodup_firsts (seen : List String) (txs : List Tx) : (firsts seen txs).Nodup ∧
    ∀ tx ∈ firsts seen txs, tx.txid ∉ seen := by
  induction txs generalizing seen with
  | nil => exact ⟨nodup_nil, nofun⟩
  | cons first rest ih =>
    unfold firsts
    split
    · exact ih seen
    next new =>
    obtain ⟨nodup, apart⟩ := ih (first.txid :: seen)
    refine ⟨nodup_cons.mpr ⟨fun again => ?_, nodup⟩, fun tx mem => ?_⟩
    · exact apart first again mem_cons_self
    rcases mem_cons.mp mem with rfl | later
    · exact new
    · exact fun known => apart tx later (mem_cons_of_mem _ known)

instance : Std.Total newerOrSame where
  total first second := by
    unfold newerOrSame
    rcases Nat.lt_trichotomy first.heightOf second.heightOf with lower | same | higher
    · exact .inr (.inl lower)
    · rcases le_total first.txid second.txid with before | after
      · exact .inl (.inr ⟨same.symm, before⟩)
      · exact .inr (.inr ⟨same, after⟩)
    · exact .inl (.inl higher)

instance : IsTrans Tx newerOrSame where
  trans first second third := by
    rintro (higher | ⟨same, before⟩) (higher' | ⟨same', before'⟩)
    · exact .inl (Nat.lt_trans higher' higher)
    · exact .inl (same' ▸ higher)
    · exact .inl (same ▸ higher')
    · exact .inr ⟨same'.trans same, before.trans before'⟩

/-- Lists of the same transactions, whose ids are unique, are merged to the same
listing up to the order of the pending ones. -/
theorem mergeHistory_perm {others : List Tx}
    (unique : ∀ first ∈ txs, ∀ second ∈ txs, first.txid = second.txid → first = second)
    (same : ∀ tx, tx ∈ txs ↔ tx ∈ others) :
    (mergeHistory txs history).Perm (mergeHistory others history) := by
  have uniqueOthers : ∀ first ∈ others, ∀ second ∈ others,
      first.txid = second.txid → first = second := fun first isFirst second isSecond =>
    unique first ((same first).mpr isFirst) second ((same second).mpr isSecond)
  have listed : (firsts [] txs).Perm (firsts [] others) := by
    rw [perm_ext_iff_of_nodup (nodup_firsts [] txs).1 (nodup_firsts [] others).1]
    refine fun tx => ⟨fun mem => ?_, fun mem => ?_⟩
    · exact mem_firsts uniqueOthers not_mem_nil ((same tx).mp (mem_of_mem_firsts mem))
    · exact mem_firsts unique not_mem_nil ((same tx).mpr (mem_of_mem_firsts mem))
  -- The confirmed ones are sorted by height and id, which leaves one order.
  have sorted : ((firsts [] txs).filter Tx.isConfirmed).insertionSort newerOrSame =
      ((firsts [] others).filter Tx.isConfirmed).insertionSort newerOrSame := by
    have perm := (perm_insertionSort newerOrSame _).trans
      ((listed.filter Tx.isConfirmed).trans (perm_insertionSort newerOrSame _).symm)
    refine List.Perm.eq_of_pairwise ?_ (pairwise_insertionSort newerOrSame _)
      (pairwise_insertionSort newerOrSame _) perm
    intro first second isFirst isSecond before after
    have mem : ∀ {tx}, tx ∈ ((firsts [] txs).filter Tx.isConfirmed).insertionSort newerOrSame →
        tx ∈ txs := fun here =>
      mem_of_mem_firsts (mem_filter.mp ((mem_insertionSort newerOrSame).mp here)).1
    refine unique first (mem isFirst) second (mem (perm.mem_iff.mpr isSecond)) ?_
    rcases before with higher | ⟨_, before⟩ <;> rcases after with higher' | ⟨_, after⟩
    · omega
    · omega
    · omega
    · exact le_antisymm before after
  unfold mergeHistory
  dsimp only
  rw [sorted]
  exact (listed.filter _).append_right _

variable {store : BtcHistory} {state : BtcHistory × List Tx}

section Databases

variable {disk : Disk} {row : String × Tx}

theorem mem_mergeOne (mem : row ∈ (BtcHistory.mergeOne disk address state tx).1.rows.rows) :
    row ∈ state.1.rows.rows ∨ row = (address, tx) := by
  unfold BtcHistory.mergeOne at mem
  dsimp only at mem
  split at mem
  · exact .inl mem
  split at mem
  · rcases mem_put.mp mem with same | ⟨old, _⟩
    · exact .inr same
    · exact .inl old
  · exact .inl mem

theorem mergeOne_keeps (mem : row ∈ state.1.rows.rows) :
    row ∈ (BtcHistory.mergeOne disk address state tx).1.rows.rows := by
  unfold BtcHistory.mergeOne
  dsimp only
  split
  · exact mem
  next missing =>
  split
  · refine mem_put.mpr (.inr ⟨mem, fun sameKey => missing ?_⟩)
    rw [← sameKey, get?_of_mem mem]
    rfl
  · exact mem

theorem mem_merge (mem : row ∈ (store.merge disk address txs).1.rows.rows) :
    row ∈ store.rows.rows ∨ (row.1 = address ∧ row.2 ∈ txs ∧ row.2.isConfirmed = true) := by
  rcases foldl_source (fun state : BtcHistory × List Tx => row ∈ state.1.rows.rows) mem
    fun _ _ => mem_mergeOne with old | ⟨tx, merged, rfl⟩
  · exact .inl old
  obtain ⟨listed, confirmed⟩ := mem_filter.mp merged
  exact .inr ⟨rfl, listed, confirmed⟩

theorem foldl_keeps {confirmed : List Tx} (mem : row ∈ state.1.rows.rows) :
    row ∈ (confirmed.foldl (BtcHistory.mergeOne disk address) state).1.rows.rows := by
  induction confirmed generalizing state with
  | nil => exact mem
  | cons first rest ih => exact ih (mergeOne_keeps mem)

theorem entry_update {cache : ScanCache} {other : String} {signature : Signature}
    {pending : List Tx} {entry : Entry}
    (found : (cache.update disk address signature pending).entry other = some entry) :
    cache.entry other = some entry ∨ (other = address ∧ entry = ⟨signature, pending⟩) := by
  unfold ScanCache.update at found
  dsimp only at found
  split at found
  · exact .inl found
  split at found
  · unfold ScanCache.entry at found
    rw [get?_put] at found
    split at found
    next same =>
      cases found
      exact .inr ⟨same, rfl⟩
    · exact .inl found
  · exact .inl found

end Databases

section

variable (up : Upstream) (address : String) (tx : Tx)

def Upstream.PendingOf : Prop :=
  tx ∈ up.txs ∧ tx.touches address = true ∧ tx.isConfirmed = false

def Upstream.ConfirmedOf : Prop :=
  tx ∈ up.txs ∧ tx.touches address = true ∧ tx.isConfirmed = true

end

/-- A saved fetch is what an earlier upstream had, its confirmed part in the store. -/
def Vouched (past : List Upstream) (store : BtcHistory) (address : String) (entry : Entry) : Prop :=
  ∃ up ∈ past, up.balance address = .ok entry.signature ∧
    (∀ tx, tx ∈ entry.pending ↔ up.PendingOf address tx) ∧
    ∀ tx, up.ConfirmedOf address tx → (address, tx) ∈ store.rows.rows

structure Trusted (past : List Upstream) (caches : Caches) : Prop where
  paired : ∀ cache, caches.scanCache = some cache → ∃ store, caches.btcHistory = some store
  stored : ∀ store, caches.btcHistory = some store → ∀ row ∈ store.rows.rows,
    ∃ up ∈ past, up.ConfirmedOf row.1 row.2
  vouched : ∀ cache store address entry, caches.scanCache = some cache →
    caches.btcHistory = some store → cache.entry address = some entry →
      Vouched past store address entry

variable {past : List Upstream}

theorem Trusted.more {more : List Upstream} {caches : Caches} (trusted : Trusted past caches)
    (longer : ∀ up ∈ past, up ∈ more) : Trusted more caches where
  paired := trusted.paired
  stored store isStore row member := by
    obtain ⟨up, isPast, has⟩ := trusted.stored store isStore row member
    exact ⟨up, longer up isPast, has⟩
  vouched cache store address entry isCache isStore found := by
    obtain ⟨up, isPast, has⟩ := trusted.vouched cache store address entry isCache isStore found
    exact ⟨up, longer up isPast, has⟩

/-! ## What a scan leaves -/

section

variable {disk : Disk} {fresh : String → List Tx} {caches : Caches}

theorem notes_store {after : BtcHistory}
    (left : (rows.foldl (Caches.note disk fresh) caches).btcHistory = some after) :
    ∃ store, caches.btcHistory = some store ∧ (∀ row ∈ store.rows.rows, row ∈ after.rows.rows) ∧
      ∀ row ∈ after.rows.rows, row ∈ store.rows.rows ∨ ∃ asked ∈ rows, row.1 = asked.1 ∧
        row.2 ∈ fresh asked.1 ∧ row.2.isConfirmed = true := by
  induction rows generalizing caches with
  | nil => exact ⟨after, left, fun _ => id, fun _ here => .inl here⟩
  | cons first rest ih =>
    obtain ⟨middle, isMiddle, kept, added⟩ := ih left
    simp only [Caches.note, Option.map_eq_some_iff] at isMiddle
    obtain ⟨store, isStore, rfl⟩ := isMiddle
    refine ⟨store, isStore, fun row here => kept row ((by exact foldl_keeps here)), fun row here =>
      ?_⟩
    rcases added row here with earlier | ⟨asked, isAsked, has⟩
    · rcases mem_merge earlier with old | ⟨own, merged, confirmed⟩
      · exact .inl old
      · exact .inr ⟨first, mem_cons_self, own, (mem_filter.mp merged).1, confirmed⟩
    · exact .inr ⟨asked, mem_cons_of_mem first isAsked, has⟩

theorem notes_some (rows : List (String × Signature)) (isStore : caches.btcHistory = some store) :
    ∃ after, (rows.foldl (Caches.note disk fresh) caches).btcHistory = some after := by
  induction rows generalizing caches store with
  | nil => exact ⟨store, isStore⟩
  | cons first rest ih =>
    have next : (caches.note disk fresh first).btcHistory = some
        (store.merge disk first.1 ((fresh first.1).filter Tx.isConfirmed)).1 := by
      simp only [Caches.note, isStore, Option.map_some]
    exact ih next

theorem notes_cache {after : ScanCache}
    (left : (rows.foldl (Caches.note disk fresh) caches).scanCache = some after) :
    ∃ cache, caches.scanCache = some cache ∧ ∀ address entry,
      after.entry address = some entry → cache.entry address = some entry ∨
        ∃ asked ∈ rows, address = asked.1 ∧
          entry = ⟨asked.2, (fresh asked.1).filter fun tx => !tx.isConfirmed⟩ := by
  induction rows generalizing caches with
  | nil => exact ⟨after, left, fun _ _ found => .inl found⟩
  | cons first rest ih =>
    obtain ⟨middle, isMiddle, found⟩ := ih left
    simp only [Caches.note, Option.map_eq_some_iff] at isMiddle
    obtain ⟨cache, isCache, rfl⟩ := isMiddle
    refine ⟨cache, isCache, fun address entry here => ?_⟩
    rcases found address entry here with earlier | ⟨asked, isAsked, has⟩
    · rcases entry_update earlier with old | ⟨own, written⟩
      · exact .inl old
      · exact .inr ⟨first, mem_cons_self, own, written⟩
    · exact .inr ⟨asked, mem_cons_of_mem first isAsked, has⟩

end

theorem ask_ok {seen fetched : Upstream} {addresses : List String}
    {caches : Caches} {answers : Answers}
    (asked : ask seen fetched addresses history caches = .ok answers) :
    seen.balances addresses = .ok answers.rows ∧
      (caches.needsFetch answers.rows ≠ [] → fetched.transactionsByAddress
        ((caches.needsFetch answers.rows).map Prod.fst) history = .ok answers.fresh) := by
  obtain ⟨rows, balances, asked⟩ := ok_of_bind asked
  obtain ⟨utxos, _, asked⟩ := ok_of_bind asked
  obtain ⟨fresh, fetch, asked⟩ := ok_of_bind asked
  cases asked
  refine ⟨balances, fun needs => ?_⟩
  rw [Upstream.fetch, if_neg needs] at fetch
  exact fetch

variable {up : Upstream} {addresses : List String} {history : Nat} {disk : Disk}
  {caches : Caches} {answers : Answers}

theorem mem_needsFetch :
    row ∈ caches.needsFetch rows ↔ row ∈ usedRows rows ∧ caches.hit row = false := by
  unfold Caches.needsFetch
  rw [mem_filter, Bool.not_eq_true']

def Took (up : Upstream) (caches after : Caches) (answers : Answers) : Prop :=
  ∀ store ∈ after.btcHistory, ∀ row ∈ caches.needsFetch answers.rows, ∀ tx ∈ up.txs,
    tx.touches row.1 = true → tx.isConfirmed = true →
      (store.rows.get? (historyKey (row.1, tx))).isSome = true

instance {after : Caches} : Decidable (Took up caches after answers) := by
  unfold Took
  infer_instance

def Lasting (past : List Upstream) (up : Upstream) : Prop :=
  ∀ old ∈ past, ∀ tx ∈ old.txs, tx.isConfirmed = true → tx ∈ up.txs

theorem Upstream.unique (up : Upstream) : ∀ first ∈ up.txs, ∀ second ∈ up.txs,
    first.txid = second.txid → first = second :=
  fun _ isFirst _ isSecond same => inj_on_of_nodup_map up.once isFirst isSecond same

/-- An unchanged row means unchanged transactions. -/
def Steady (past : List Upstream) (up : Upstream) : Prop :=
  ∀ old ∈ past, ∀ address sig, old.balance address = .ok sig → up.balance address = .ok sig →
    ∀ tx, tx.touches address = true → (tx ∈ old.txs ↔ tx ∈ up.txs)

theorem confirmed_of_stored (lasting : Lasting past up) {row : String × Tx}
    (origin : ∃ old ∈ up :: past, old.ConfirmedOf row.1 row.2) : up.ConfirmedOf row.1 row.2 := by
  obtain ⟨old, isOld, known, touches, confirmed⟩ := origin
  rcases mem_cons.mp isOld with rfl | older
  · exact ⟨known, touches, confirmed⟩
  · exact ⟨lasting old older row.2 known confirmed, touches, confirmed⟩

variable (trusted : Trusted past caches) (lasting : Lasting past up) (steady : Steady past up)
variable (asked : ask up up addresses history caches = .ok answers)
    (uncut : Uncut up addresses history)
variable (took : Took up caches (caches.noted disk answers) answers)

include asked in
theorem row_of_used
    (used : row ∈ usedRows answers.rows) : row.1 ∈ addresses ∧ up.balance row.1 = .ok row.2 :=
  mem_balances (ask_ok asked).1 (mem_filter.mp used).1

include asked uncut in
theorem mem_fetched (fetched : row ∈ caches.needsFetch answers.rows) (tx : Tx) :
    tx ∈ answers.fresh row.1 ↔ tx ∈ up.txs ∧ tx.touches row.1 = true := by
  have answered := (ask_ok asked).2 (ne_nil_of_mem fetched)
  have requested : ∀ address ∈ (caches.needsFetch answers.rows).map Prod.fst,
      address ∈ addresses := by
    intro address inside
    obtain ⟨other, isRow, rfl⟩ := mem_map.mp inside
    exact (row_of_used asked (mem_needsFetch.mp isRow).1).1
  exact mem_fresh answered (fun chunk short inside => uncut chunk short fun address here =>
      requested address (inside address here))
    (mem_map_of_mem fetched) tx

include trusted lasting asked uncut took in
theorem trusted_noted : Trusted (up :: past) (caches.noted disk answers) := by
  have stored : ∀ store, (caches.noted disk answers).btcHistory = some store →
      ∀ row ∈ store.rows.rows, ∃ old ∈ up :: past, old.ConfirmedOf row.1 row.2 := by
    intro after isAfter row member
    obtain ⟨store, isStore, _, added⟩ := notes_store isAfter
    rcases added row member with old | ⟨asked', isAsked, own, fresh, confirmed⟩
    · obtain ⟨origin, isPast, has⟩ := trusted.stored store isStore row old
      exact ⟨origin, mem_cons_of_mem up isPast, has⟩
    have known := (mem_fetched asked uncut isAsked row.2).mp fresh
    rw [← own] at known
    exact ⟨up, mem_cons_self, known.1, known.2, confirmed⟩
  refine ⟨?_, stored, ?_⟩
  · intro after isAfter
    obtain ⟨cache, isCache, _⟩ := notes_cache isAfter
    obtain ⟨store, isStore⟩ := trusted.paired cache isCache
    exact notes_some _ isStore
  intro after store address entry isAfter isStore found
  obtain ⟨cache, isCache, written⟩ := notes_cache isAfter
  obtain ⟨before, isBefore, kept, _⟩ := notes_store isStore
  rcases written address entry found with old | ⟨row, isRow, rfl, rfl⟩
  · obtain ⟨origin, isPast, balance, pending, confirmed⟩ :=
      trusted.vouched cache before address entry isCache isBefore old
    exact ⟨origin, mem_cons_of_mem up isPast, balance, pending,
      fun tx has => kept _ (confirmed tx has)⟩
  have used := (mem_needsFetch.mp isRow).1
  refine ⟨up, mem_cons_self, (row_of_used asked used).2, fun tx => ?_, fun tx has => ?_⟩
  · rw [mem_filter, mem_fetched asked uncut isRow tx, Bool.not_eq_true']
    exact and_assoc
  -- The key is there; what it holds is this transaction, as ids are unique.
  obtain ⟨held, isHeld⟩ := Option.isSome_iff_exists.mp
    (took store isStore row isRow tx has.1 has.2.1 has.2.2)
  have member := mem_of_get? isHeld
  have sameKey : historyKey held = historyKey (row.1, tx) := key_of_get? isHeld
  have here := confirmed_of_stored lasting (stored store isStore held member)
  have sameAddress : held.1 = row.1 := congrArg (fun key => (ofLex key).1) sameKey
  have sameId : held.2.txid = tx.txid :=
    congrArg (fun key => (ofLex (ofLex key).2).2) sameKey
  have sameTx : held.2 = tx := up.unique _ here.1 _ has.1 sameId
  have same : held = (row.1, tx) := Prod.ext sameAddress sameTx
  exact same ▸ member

include trusted steady in
theorem mem_pending (balance : up.balance row.1 = .ok row.2)
    (hit : caches.hit row = true) : ∃ store, caches.btcHistory = some store ∧
      (∀ tx, tx ∈ caches.pending row ↔ up.PendingOf row.1 tx) ∧
      ∀ tx, up.ConfirmedOf row.1 tx → (row.1, tx) ∈ store.rows.rows := by
  have known := of_decide_eq_true hit
  obtain ⟨cache, isCache, signed⟩ := Option.bind_eq_some_iff.mp known
  obtain ⟨entry, found, same⟩ := Option.map_eq_some_iff.mp signed
  obtain ⟨store, isStore⟩ := trusted.paired cache isCache
  obtain ⟨old, isPast, before, pending, confirmed⟩ :=
    trusted.vouched cache store row.1 entry isCache isStore found
  have unchanged := steady old isPast row.1 row.2 (same ▸ before) balance
  refine ⟨store, isStore, fun tx => ?_, fun tx has => ?_⟩
  · simp only [Caches.pending, isCache, ScanCache.pending, found, Option.map_some, Option.getD_some,
      pending tx]
    exact and_congr_left fun has => unchanged tx has.1
  · exact confirmed tx ⟨(unchanged tx has.2.1).mpr has.1, has.2⟩

theorem mem_stored (isStore : caches.btcHistory = some store) {used : List (String × Signature)} :
    tx ∈ caches.stored used ↔ ∃ row ∈ used, (row.1, tx) ∈ store.rows.rows := by
  simp only [Caches.stored, isStore, BtcHistory.get, mem_flatMap, mem_map,
    mem_filter, decide_eq_true_eq]
  constructor
  · rintro ⟨row, isRow, ⟨address, stored⟩, ⟨mem, rfl⟩, rfl⟩
    exact ⟨row, isRow, mem⟩
  rintro ⟨row, isRow, mem⟩
  exact ⟨row, isRow, (row.1, tx), ⟨mem, rfl⟩, rfl⟩

theorem mem_listing {fresh : String → List Tx} : tx ∈ listing fresh row ↔ tx ∈ fresh row.1 := by
  simp only [listing, mem_append, mem_filter]
  cases tx.isConfirmed <;> simp

include trusted lasting steady asked uncut took in
/-- What a scan gathers: the transactions of the used addresses, all of them. -/
theorem mem_gathered (tx : Tx) : tx ∈ caches.gathered disk answers ↔
      tx ∈ up.txs ∧ ∃ row ∈ usedRows answers.rows, tx.touches row.1 = true := by
  have trustedAfter := trusted_noted trusted lasting asked uncut took
  unfold Caches.gathered
  rw [mem_append, mem_append, mem_flatMap, mem_flatMap]
  constructor
  · rintro ((⟨row, isRow, listed⟩ | ⟨row, isRow, listed⟩) | listed)
    · obtain ⟨used, hit⟩ := mem_filter.mp isRow
      obtain ⟨_, _, pending, _⟩ := mem_pending trusted steady (row_of_used asked used).2 hit
      obtain ⟨known, touches, _⟩ := (pending tx).mp listed
      exact ⟨known, row, used, touches⟩
    · obtain ⟨known, touches⟩ := (mem_fetched asked uncut isRow tx).mp (mem_listing.mp listed)
      exact ⟨known, row, (mem_needsFetch.mp isRow).1, touches⟩
    rcases isStore : (caches.noted disk answers).btcHistory with _ | store
    · simp only [Caches.stored, isStore] at listed
      exact (nomatch listed)
    obtain ⟨row, used, mem⟩ := (mem_stored isStore).mp listed
    have has := confirmed_of_stored lasting (trustedAfter.stored store isStore _ mem)
    exact ⟨has.1, row, used, has.2.1⟩
  rintro ⟨known, row, used, touches⟩
  rcases hit : caches.hit row with _ | _
  · have isRow := mem_needsFetch.mpr ⟨used, hit⟩
    have fetched := (mem_fetched asked uncut isRow tx).mpr ⟨known, touches⟩
    exact .inl (.inr ⟨row, isRow, mem_listing.mpr fetched⟩)
  obtain ⟨store, isStore, pending, confirmed⟩ :=
    mem_pending trusted steady (row_of_used asked used).2 hit
  rcases isConfirmed : tx.isConfirmed with _ | _
  · refine .inl (.inl ⟨row, mem_filter.mpr ⟨used, hit⟩, ?_⟩)
    exact (pending tx).mpr ⟨known, touches, isConfirmed⟩
  have remains : ∃ after, (caches.noted disk answers).btcHistory = some after :=
    notes_some _ isStore
  obtain ⟨after, isAfter⟩ := remains
  obtain ⟨before, isBefore, kept, _⟩ := notes_store isAfter
  have same : store = before := Option.some.inj (isStore.symm.trans isBefore)
  refine .inr ((mem_stored isAfter).mpr ⟨row, used, kept _ ?_⟩)
  exact same ▸ confirmed tx ⟨known, touches, isConfirmed⟩

end Fortis.Edge.Scan
