import Fortis.Lib.Table

/-!
# The BTC scan and its caches

A scan asks the upstream for the balance row of every requested address, and for the transactions
of the used ones.  A row doubles as a signature: an address whose row is the one its last fetch was
made under is not fetched again.  Its pending transactions then come from the scan cache and its
confirmed ones from the history store.

The signature vouches for a fetch that was cut at the scan's limit, and for a store that may be
absent or full.
-/

namespace Fortis.Edge.Scan

open Lib

structure Signature where
  (txs utxo unconfirmed : Int)
  deriving DecidableEq

def Signature.isUsed (sig : Signature) : Bool :=
  0 < sig.txs || 0 < sig.utxo || sig.unconfirmed ≠ 0

def Signature.isFunded (sig : Signature) : Bool :=
  0 < sig.utxo || sig.unconfirmed ≠ 0

/-- A transaction as the scan lists it; `blockHeight` is there once it is
confirmed, `addresses` are those of its inputs and outputs. -/
structure Tx where
  txid : String
  blockHeight : Option Nat
  addresses : List String
  deriving DecidableEq

namespace Tx

def isConfirmed (tx : Tx) : Bool := tx.blockHeight.isSome

def heightOf (tx : Tx) : Nat := tx.blockHeight.getD 0

def touches (tx : Tx) (address : String) : Bool := address ∈ tx.addresses

end Tx

structure Utxo where
  txid : String
  (vout valueSat : Nat)
  address : String
  deriving DecidableEq

/-- The upstream at one moment; `down` is how a request for transactions fails. -/
structure Upstream where
  balance : String → Except String Signature
  unspent : List String → Except String (List Utxo)
  txs : List Tx
  down : Option String
  once : (txs.map Tx.txid).Nodup

def addrsPerCall : Nat := 150

def chunksOf {α : Type} (size : Nat) (items : List α) : List (List α) :=
  (List.range ((items.length + size - 1) / size)).map fun index =>
    (items.drop (index * size)).take size

/-- The reply for one chunk: the first `limit` of the transactions that touch it. -/
def Upstream.full (up : Upstream) (limit : Nat) (chunk : List String) : List Tx :=
  (up.txs.filter fun tx => chunk.any tx.touches).take limit

def Upstream.balances (up : Upstream) (addresses : List String) :
    Except String (List (String × Signature)) :=
  addresses.mapM fun address => (up.balance address).map fun sig => (address, sig)

def Upstream.transactionsByAddress (up : Upstream) (addresses : List String) (history : Nat) :
    Except String (String → List Tx) :=
  match up.down with
  | some fault => .error fault
  | none =>
    let replies := (chunksOf addrsPerCall addresses).map (up.full history)
    .ok fun address => replies.flatten.filter fun tx => tx.touches address

def i64Max : Nat := 9223372036854775807

/-- Newest first within an address. -/
def historyKey (row : String × Tx) : String ×ₗ Nat ×ₗ String :=
  toLex (row.1, toLex (i64Max - row.2.heightOf, row.2.txid))

structure BtcHistory where
  rows : Table (String ×ₗ Nat ×ₗ String) (String × Tx) historyKey
  maxKeys : Nat

/-- Which writes the disk takes. -/
structure Disk where
  history : String × Tx → Bool
  cache : String → Bool

namespace BtcHistory

/-- Store one confirmed transaction unless its key is there; the rest of the
answer is what could not be stored. -/
def mergeOne (disk : Disk) (address : String) (state : BtcHistory × List Tx) (tx : Tx) :
    BtcHistory × List Tx :=
  let store := state.1
  if (store.rows.get? (historyKey (address, tx))).isSome then state
  else if store.rows.rows.length < store.maxKeys ∧ disk.history (address, tx) then
    ({ store with rows := store.rows.put (address, tx) }, state.2)
  else (store, state.2 ++ [tx])

def merge (disk : Disk) (address : String) (store : BtcHistory) (txs : List Tx) :
    BtcHistory × List Tx :=
  (txs.filter Tx.isConfirmed).foldl (mergeOne disk address) (store, [])

def get (store : BtcHistory) (address : String) : List Tx :=
  (store.rows.rows.filter fun row => row.1 = address).map Prod.snd

end BtcHistory

structure Entry where
  signature : Signature
  pending : List Tx

/-- The last fetch of each address. -/
structure ScanCache where
  rows : Table String (String × Entry) Prod.fst
  maxKeys : Nat

namespace ScanCache

variable (cache : ScanCache) (address : String)

def entry : Option Entry :=
  (cache.rows.get? address).map Prod.snd

def signature : Option Signature :=
  (cache.entry address).map Entry.signature

def pending : List Tx :=
  ((cache.entry address).map Entry.pending).getD []

def update (disk : Disk) (address : String) (signature : Signature) (pending : List Tx)
    (cache : ScanCache) : ScanCache :=
  let known := (cache.rows.get? address).isSome
  if !known && cache.maxKeys ≤ cache.rows.rows.length then cache
  else if disk.cache address then
    { cache with rows := cache.rows.put (address, ⟨signature, pending⟩) }
  else cache

def forget (address : String) (cache : ScanCache) : ScanCache :=
  { cache with rows := cache.rows.delete address }

end ScanCache

/-- The two databases, each configured or not. -/
structure Caches where
  btcHistory : Option BtcHistory
  scanCache : Option ScanCache

def Caches.none : Caches := ⟨.none, .none⟩

def firsts : List String → List Tx → List Tx
  | _, [] => []
  | seen, tx :: rest =>
    if tx.txid ∈ seen then firsts seen rest else tx :: firsts (tx.txid :: seen) rest

/-- Newest block first, then by id. -/
def newerOrSame (first second : Tx) : Prop :=
  second.heightOf < first.heightOf ∨ (second.heightOf = first.heightOf ∧ first.txid ≤ second.txid)

instance : DecidableRel newerOrSame := fun first second => by
  unfold newerOrSame
  infer_instance

def mergeHistory (txs : List Tx) (history : Nat) : List Tx :=
  let listed := firsts [] txs
  (listed.filter fun tx => !tx.isConfirmed) ++
    ((listed.filter Tx.isConfirmed).insertionSort newerOrSame).take history

structure Scanned where
  used : List String
  utxos : List Utxo
  txs : List Tx
  deriving DecidableEq

/-- Whether the last fetch of an address was made under this row. -/
def Caches.hit (caches : Caches) (row : String × Signature) : Bool :=
  caches.scanCache.bind (·.signature row.1) = some row.2

def Caches.note (disk : Disk) (fresh : String → List Tx) (caches : Caches)
    (row : String × Signature) : Caches where
  btcHistory := caches.btcHistory.map fun store =>
    (store.merge disk row.1 ((fresh row.1).filter Tx.isConfirmed)).1
  scanCache := caches.scanCache.map
    (ScanCache.update disk row.1 row.2 ((fresh row.1).filter fun tx => !tx.isConfirmed))

def Caches.stored (caches : Caches) (used : List (String × Signature)) : List Tx :=
  match caches.btcHistory with
  | .none => []
  | some store => used.flatMap fun row => store.get row.1

def Caches.pending (caches : Caches) (row : String × Signature) : List Tx :=
  match caches.scanCache with
  | .none => []
  | some cache => cache.pending row.1

def listing (fresh : String → List Tx) (row : String × Signature) : List Tx :=
  (fresh row.1).filter Tx.isConfirmed ++ (fresh row.1).filter fun tx => !tx.isConfirmed

def usedRows (rows : List (String × Signature)) : List (String × Signature) :=
  rows.filter (·.2.isUsed)

def Caches.needsFetch (caches : Caches) (rows : List (String × Signature)) :
    List (String × Signature) :=
  (usedRows rows).filter fun row => !caches.hit row

structure Answers where
  rows : List (String × Signature)
  utxos : List Utxo
  fresh : String → List Tx

def Upstream.fetch (up : Upstream) (rows : List (String × Signature)) (history : Nat) :
    Except String (String → List Tx) :=
  if rows = [] then .ok fun _ => []
  else up.transactionsByAddress (rows.map Prod.fst) history

/-- The requests of a scan: the balance rows are read from `seen`, the rest,
later, from `fetched`. -/
def ask (seen fetched : Upstream) (addresses : List String) (history : Nat) (caches : Caches) :
    Except String Answers := do
  let rows ← seen.balances addresses
  let utxos ← fetched.unspent ((rows.filter (·.2.isFunded)).map Prod.fst)
  let fresh ← fetched.fetch (caches.needsFetch rows) history
  return ⟨rows, utxos, fresh⟩

variable (caches : Caches) (disk : Disk) (answers : Answers)

def Caches.noted : Caches :=
  (caches.needsFetch answers.rows).foldl (Caches.note disk answers.fresh) caches

def Caches.gathered : List Tx :=
  ((usedRows answers.rows).filter caches.hit).flatMap caches.pending ++
    (caches.needsFetch answers.rows).flatMap (listing answers.fresh) ++
    (caches.noted disk answers).stored (usedRows answers.rows)

def scan (seen fetched : Upstream) (addresses : List String) (history : Nat) (disk : Disk)
    (caches : Caches) : Except String Scanned × Caches :=
  match ask seen fetched addresses history caches with
  | .error e => (.error e, caches)
  | .ok answers =>
    (.ok ⟨(usedRows answers.rows).map Prod.fst, answers.utxos,
      mergeHistory (caches.gathered disk answers) history⟩, caches.noted disk answers)

end Fortis.Edge.Scan
