import Fortis.Edge.Agreement
import Fortis.Edge.Routes
import Fortis.Lib.Calls

/-!
# The watchtower's pass over watch jobs

A pass reads all jobs that are not done, then works them one after another.  Each may end by writing
the whole job back, marked done or with the output it has sent a spend of.  Phones post jobs at any
moment; a post replaces the stored job.  No lock is shared between the two.
-/

namespace Fortis.Edge

open Fortis.Core Lib Proc Table

/-! ## Working one job -/

structure TowerView where
  txout : Chain -> String -> Nat -> Except String (Option TxOutInfo)
  spendConfirmed : Chain -> String -> Nat -> Except String Bool
  spendingTxHex : Chain -> String -> Nat -> Except String (Option String)
  feerate : Chain -> Except String Nat
  broadcast : Chain -> String -> Except String String

def WatchJob.key (job : WatchJob) : String ×ₗ String ×ₗ String :=
  toLex (job.matchId, toLex (job.chain.asStr, job.kind.keyTag))

def decode (lib : BitcoinLib) (text : String) : Except String Transaction :=
  orFail (lib.fromHex (trim text)) "tx decode"

def decodeAll (lib : BitcoinLib) (variants : List String) : Except String (List Transaction) := do
  let txs <- variants.mapM (decode lib)
  refuseIf (txs = []) "no variants"
  return txs

def revealedBy (lib : BitcoinLib) (tx : Transaction) (outpoint : OutPoint) (hashlock : Fixed 32) :
    Option (Fixed 32) := do
  let input <- tx.input.find? fun input => input.previousOutput = outpoint
  preimageFromWitness lib.toCrypto input.witness hashlock

def parseOutpoint (outpoint : Outpoint) : Except String OutPoint := do
  let txid <- orFail (Txid.fromStr outpoint.1) "txid"
  return ⟨txid, outpoint.2⟩

/-- Whether the signature of a finished redeem is valid for its input. -/
def signatureCovers (lib : BitcoinLib) (tx : Transaction) (prevout : TxOut)
    (variant : SighashVariant) : Bool :=
  (do
    let input <- tx.input.head?
    let sig <- input.witness[0]?
    let pubkey <- input.witness[1]?
    let script <- input.witness[4]?
    let flag <- sig.getLast?
    let message <- (sighashAll lib tx [prevout] 0 script variant).toOption
    if flag ≠ variant.flag then return false
    else
      let pubkey <- lib.fromSlice pubkey
      return lib.verifyEcdsa message sig.dropLast pubkey).getD false

/-- The sum of a `u64` wraps, the difference saturates. -/
def fee (tx : Transaction) (prevoutValue : Nat) : Nat :=
  prevoutValue - (tx.output.map TxOut.value).sum % 2 ^ 64

def pickVariant (variants : List Transaction) (prevoutValue feerate : Nat) : Option Transaction :=
  let meets := variants.filter fun tx => feerate <= fee tx prevoutValue / max tx.vsize 1
  match meets, variants with
  | first :: rest, _ => some (rest.foldl
      (fun best tx => if fee tx prevoutValue < fee best prevoutValue then tx else best) first)
  | [], first :: rest => some (rest.foldl
      (fun best tx => if fee best prevoutValue <= fee tx prevoutValue then tx else best) first)
  | [], [] => none

def confsNeeded (m : Match) : Chain -> Nat
  | .xbt => m.terms.xbtConfs
  | .btc => m.terms.btcConfs

namespace Tower

inductive TowerCall
  | txout (chain : Chain) (txid : String) (vout : Nat)
  | spendConfirmed (chain : Chain) (txid : String) (vout : Nat)
  | spendingTxHex (chain : Chain) (txid : String) (vout : Nat)
  | feerate (chain : Chain)
  | broadcast (chain : Chain) (txHex : String)
  | getMatch (id : String)
  | putWatch (job : WatchJob)

@[reducible]
def TowerCall.Answer : TowerCall -> Type
  | txout _ _ _ => Except String (Option TxOutInfo)
  | spendConfirmed _ _ _ => Except String Bool
  | spendingTxHex _ _ _ => Except String (Option String)
  | feerate _ => Except String Nat
  | broadcast _ _ => Except String String
  | getMatch _ => Option Match
  | putWatch _ => Unit

abbrev tower : Interface := ⟨TowerCall, TowerCall.Answer⟩

/-- The work on a job, by its calls: it ends with an error, which is logged, or without. -/
abbrev TowerM := Calls tower String

/-- What the calls do, one action each. -/
def handler : Calls.Handler tower Store TowerView where
  write
    | .putWatch job, store, _ => finalState (Edge.putWatch job) store
    | _, store, _ => store
  read
    | .txout chain txid vout, _, view => view.txout chain txid vout
    | .spendConfirmed chain txid vout, _, view => view.spendConfirmed chain txid vout
    | .spendingTxHex chain txid vout, _, view => view.spendingTxHex chain txid vout
    | .feerate chain, _, view => view.feerate chain
    | .broadcast chain txHex, _, view => view.broadcast chain txHex
    | .getMatch id, store, _ => store.getMatch id
    | .putWatch _, _, _ => ()

namespace TowerM

variable (chain : Chain) (outpoint : Outpoint)

def txout : TowerM (Option TxOutInfo) :=
  .call (.txout chain outpoint.1 outpoint.2) .done

def spendConfirmed : TowerM Bool :=
  .call (.spendConfirmed chain outpoint.1 outpoint.2) .done

def spendingTxHex : TowerM (Option String) :=
  .call (.spendingTxHex chain outpoint.1 outpoint.2) .done

def broadcast (chain : Chain) (txHex : String) : TowerM String :=
  .call (.broadcast chain txHex) .done

/-- A feerate that cannot be read picks the highest variant. -/
def feerate (chain : Chain) : TowerM Nat :=
  .call (.feerate chain) fun answer => .done (.ok (match answer with
    | .ok rate => rate
    | .error _ => u64Max))

def getMatch (id : String) : TowerM (Option Match) :=
  .call (.getMatch id) fun found => .done (.ok found)

/-- `put_watch`: the whole job, without a lock. -/
def writeBack (job : WatchJob) : TowerM Unit :=
  .call (.putWatch job) fun _ => .done (.ok ())

end TowerM

open TowerM

def phoneSentRedeem (lib : BitcoinLib) (job : WatchJob) : TowerM (Option TxOutInfo) :=
  if job.chain ≠ .btc \/ job.kind ≠ .redeem then return none
  else do
    let found <- getMatch job.matchId
    match found with
    | none => return none
    | some m =>
      match m.hashlock, legWitnessScript lib m .btc with
      | some hashlock, some script => do
        let spender <- spendingTxHex .btc job.htlc
        match spender with
        | none => return none
        | some spenderHex => do
          let outpoint <- Calls.given (parseOutpoint job.htlc)
          match hex32 hashlock with
          | none => return none
          | some hashlock => do
            let tx <- Calls.given (decode lib spenderHex)
            if revealedBy lib tx outpoint hashlock = none then return none
            else return some ⟨m.terms.btcSat, hexEncode (newP2wsh (lib.sha256 script)), 0⟩
      | _, _ => return none

/-- A presigned redeem's variants, finished with the preimage the other leg's
spender reveals; nothing until then. -/
def finishedRedeems (lib : BitcoinLib) (job : WatchJob) (out : TxOutInfo)
    (pubkeyHex witnessScriptHex : String) (sigsHex : List String) :
    TowerM (Option (List Transaction)) := do
  let found <- getMatch job.matchId
  match found with
  | none => return none
  | some m =>
    match m.funding job.chain.other with
    | none => return none
    | some outpoint => do
      let spender <- spendingTxHex job.chain.other outpoint
      match spender with
      | none => return none
      | some spenderHex => do
        let tx <- Calls.given (decode lib spenderHex)
        let spent <- Calls.given (parseOutpoint outpoint)
        match (m.hashlock.bind hex32).bind (revealedBy lib tx spent) with
        | none => return none
        | some preimage => do
          let (btcParams, xbtParams) <- Calls.given
            ((networkParams m.terms.network).mapError fun _ => "network")
          let params := match job.chain with
            | .xbt => xbtParams
            | .btc => btcParams
          let script <- Calls.given (orFail (hexDecode out.scriptpubkeyHex) "hex")
          Calls.given (refuseIf (sigsHex.length ≠ job.variants.length) "sigs for variants")
          let finished := (job.variants.zip sigsHex).filterMap fun (txHex, sigHex) =>
            match finishPresignedRedeem lib ⟨txHex, sigHex, pubkeyHex, witnessScriptHex⟩
                preimage with
            | .ok tx => if signatureCovers lib tx ⟨out.valueSat, script⟩
                params.sighashVariant then some tx else none
            | .error _ => none
          Calls.given (refuseIf (finished = []) "preimage found, but no variant is validly signed")
          return some finished

def dueSpends (lib : BitcoinLib) (job : WatchJob) (out : TxOutInfo) (resend : Bool) (now : Nat) :
    TowerM (Option (List Transaction)) :=
  match job.kind with
  | .refund =>
    if now < job.notBefore then return none
    else do
      let txs <- Calls.given (decodeAll lib job.variants)
      return some txs
  | .redeem => do
    let found <- getMatch job.matchId
    match found with
    | none => return none
    | some m =>
      if resend = false /\ out.confirmations < confsNeeded m job.chain then return none
      else do
        let txs <- Calls.given (decodeAll lib job.variants)
        return some txs
  | .waitingRedeem pubkeyHex witnessScriptHex sigsHex =>
    finishedRedeems lib job out pubkeyHex witnessScriptHex sigsHex

def sendSpend (lib : BitcoinLib) (job : WatchJob) (out : TxOutInfo) (resend : Bool) (now : Nat) :
    TowerM Unit := do
  let due <- dueSpends lib job out resend now
  match due with
  | none => return ()
  | some txs => do
    let feerate <- feerate job.chain
    let tx <- Calls.given (orFail (pickVariant txs out.valueSat feerate) "no variants")
    let _ <- broadcast job.chain (lib.toHex tx)
    match job.sentPrevout with
    | none => writeBack { job with sentPrevout := some (out.valueSat, out.scriptpubkeyHex) }
    | some _ => return ()

def runJob (lib : BitcoinLib) (job : WatchJob) (now : Nat) : TowerM Unit := do
  let found <- txout job.chain job.htlc
  match found with
  | some out => sendSpend lib job out false now
  | none => do
    let confirmed <- spendConfirmed job.chain job.htlc
    if confirmed then writeBack { job with done := true }
    else
      match job.sentPrevout with
      | some (valueSat, scriptpubkeyHex) =>
        sendSpend lib job ⟨valueSat, scriptpubkeyHex, 0⟩ true now
      | none => do
        let sent <- phoneSentRedeem lib job
        match sent with
        | none => return ()
        | some prevout => do
          let job := { job with
            sentPrevout := some (prevout.valueSat, prevout.scriptpubkeyHex) }
          writeBack job
          sendSpend lib job prevout true now

end Tower

open Tower TowerM

/-- The work on a job as a process over the store. -/
def runJob (lib : BitcoinLib) (job : WatchJob) (now : Nat) :
    Proc Store TowerView (Except String Unit) :=
  (Tower.runJob lib job now).toProc handler

/-! ## What the work on a job writes -/

def Unwatched (before after : Store) : Prop := after.cfWatch = before.cfWatch

/-- The job as its post carried it. -/
def WatchJob.post (job : WatchJob) : WatchJob := { job with done := false, sentPrevout := none }

/-- The job with nothing taken back: what was posted, done if it was, and the same
output sent if one was. -/
structure Advances (job later : WatchJob) : Prop where
  post : later.post = job.post
  done : job.done = true -> later.done = true
  sent : ∀ prevout, job.sentPrevout = some prevout -> later.sentPrevout = some prevout

def WritesBack (job : WatchJob) (before after : Store) : Prop :=
  ∃ later, Advances job later /\ after.cfWatch = before.cfWatch.put later

theorem key_of_post {first second : WatchJob} (same : first.post = second.post) :
    first.key = second.key := by
  have ids : first.post.matchId = second.post.matchId := by rw [same]
  have chains : first.post.chain = second.post.chain := by rw [same]
  have kinds : first.post.kind = second.post.kind := by rw [same]
  change first.matchId = second.matchId at ids
  change first.chain = second.chain at chains
  change first.kind = second.kind at kinds
  unfold WatchJob.key
  rw [ids, chains, kinds]

section Work

variable {α β : Type} (lib : BitcoinLib) {job : WatchJob}

theorem unwatched_ask {made : TowerCall} {result : made.Answer → Except String α}
    (quiet : ∀ store view, Unwatched store (handler.write made store view)) :
    Keeps Unwatched (Calls.toProc handler
      (.call made fun answer => .done (result answer) : TowerM α)) :=
  fun store view => ⟨quiet store view, trivial⟩

variable {rest : α → TowerM β}

theorem unwatched_bind {first : TowerM α} (one : Keeps Unwatched (first.toProc handler))
    (two : ∀ value, Keeps Unwatched ((rest value).toProc handler)) :
    Keeps Unwatched ((first >>= rest).toProc handler) := by
  have both : Keeps Unwatched (first.act handler >>= fun value => (rest value).act handler).run :=
    keeps_exceptBind one two
  rwa [← Calls.act_bind] at both

theorem unwatched_given (value : Except String α) :
    Keeps Unwatched (Calls.toProc handler (Calls.given value : TowerM α)) := trivial

theorem unwatched_phoneSentRedeem : Keeps Unwatched ((phoneSentRedeem lib job).toProc handler) := by
  unfold phoneSentRedeem
  split
  · trivial
  refine unwatched_bind (unwatched_ask fun _ _ => rfl) fun found => ?_
  split
  · trivial
  split
  · refine unwatched_bind (unwatched_ask fun _ _ => rfl) fun spender => ?_
    split
    · trivial
    rename_i spenderHex
    refine unwatched_bind (unwatched_given _) fun outpoint => ?_
    split
    · trivial
    generalize decode lib spenderHex = spending
    refine unwatched_bind (unwatched_given _) fun tx => ?_
    split <;> trivial
  · trivial

variable (out : TxOutInfo) (resend : Bool) (now : Nat)

theorem unwatched_finishedRedeems (pubkeyHex witnessScriptHex : String)
    (sigsHex : List String) : Keeps Unwatched
      ((finishedRedeems lib job out pubkeyHex witnessScriptHex sigsHex).toProc handler) := by
  refine unwatched_bind (unwatched_ask fun _ _ => rfl) fun found => ?_
  split
  · trivial
  dsimp only
  split
  · trivial
  refine unwatched_bind (unwatched_ask fun _ _ => rfl) fun spender => ?_
  split
  · trivial
  rename_i spenderHex
  generalize decode lib spenderHex = spending
  refine unwatched_bind (unwatched_given _) fun tx => ?_
  refine unwatched_bind (unwatched_given _) fun spent => ?_
  split
  · trivial
  refine unwatched_bind (unwatched_given _) fun params => ?_
  refine unwatched_bind (unwatched_given _) fun script => ?_
  refine unwatched_bind (unwatched_given _) fun _ => ?_
  exact unwatched_bind (unwatched_given _) fun _ => trivial

theorem unwatched_dueSpends :
    Keeps Unwatched ((dueSpends lib job out resend now).toProc handler) := by
  unfold dueSpends
  split
  · split
    · trivial
    · exact unwatched_bind (unwatched_given _) fun _ => trivial
  · refine unwatched_bind (unwatched_ask fun _ _ => rfl) fun found => ?_
    split
    · trivial
    split
    · trivial
    · exact unwatched_bind (unwatched_given _) fun _ => trivial
  · exact unwatched_finishedRedeems lib out _ _ _

/-- A first part that writes nothing, and a rest that writes once. -/
theorem once_bind {change : Store → Store → Prop} {first : TowerM α}
    (one : Keeps Unwatched (first.toProc handler))
    (two : ∀ value, ChangesOnce Unwatched change ((rest value).toProc handler)) :
    ChangesOnce Unwatched change ((first >>= rest).toProc handler) := by
  have both : ChangesOnce Unwatched change
      (first.act handler >>= fun value => (rest value).act handler).run :=
    changesOnce_exceptBind one two
  rwa [← Calls.act_bind] at both

theorem unwatched_sendSpend {prevout : Nat × String} (isSent : job.sentPrevout = some prevout) :
    Keeps Unwatched ((sendSpend lib job out resend now).toProc handler) := by
  refine unwatched_bind (unwatched_dueSpends lib out resend now) fun due => ?_
  split
  · trivial
  refine unwatched_bind (unwatched_ask fun _ _ => rfl) fun feerate => ?_
  refine unwatched_bind (unwatched_given _) fun tx => ?_
  refine unwatched_bind (unwatched_ask fun _ _ => rfl) fun _ => ?_
  rw [isSent]
  trivial

theorem once_writeBack {later : WatchJob} (advances : Advances job later) :
    ChangesOnce Unwatched (WritesBack job) ((writeBack later).toProc handler) :=
  fun _ _ => .inr ⟨⟨later, advances, rfl⟩, trivial⟩

theorem once_sendSpend :
    ChangesOnce Unwatched (WritesBack job) ((sendSpend lib job out resend now).toProc handler) := by
  cases isSent : job.sentPrevout with
  | some prevout => exact changesOnce_of_keeps (unwatched_sendSpend lib out resend now isSent)
  | none =>
    refine once_bind (unwatched_dueSpends lib out resend now) fun due => ?_
    split
    · trivial
    refine once_bind (unwatched_ask fun _ _ => rfl) fun feerate => ?_
    refine once_bind (unwatched_given _) fun tx => ?_
    refine once_bind (unwatched_ask fun _ _ => rfl) fun _ => ?_
    rw [isSent]
    exact once_writeBack ⟨rfl, id, fun _ never => absurd (isSent.symm.trans never) nofun⟩

/-- The work on a job writes it back once at most, and never less than was read. -/
theorem once_runJob : ChangesOnce Unwatched (WritesBack job) (runJob lib job now) := by
  refine once_bind (unwatched_ask fun _ _ => rfl) fun found => ?_
  split
  · exact once_sendSpend lib _ false now
  refine once_bind (unwatched_ask fun _ _ => rfl) fun confirmed => ?_
  split
  · exact once_writeBack ⟨rfl, fun _ => rfl, fun _ sent => sent⟩
  split
  · exact once_sendSpend lib _ true now
  next isSent =>
    refine once_bind (unwatched_phoneSentRedeem lib) fun sent => ?_
    split
    · trivial
    next prevout =>
      have advances : Advances job { job with
          sentPrevout := some (prevout.valueSat, prevout.scriptpubkeyHex) } :=
        ⟨rfl, id, fun _ never => absurd (isSent.symm.trans never) nofun⟩
      exact fun store view => .inr
        ⟨⟨_, advances, rfl⟩, unwatched_sendSpend lib prevout true now rfl⟩

end Work

abbrev WatchKey := String ×ₗ String ×ₗ String

/-- The store, the jobs the pass has read and not finished with what is left to do
on each, and the latest post of each job. -/
structure Watching where
  store : Store
  pass : List (WatchJob × Proc Store TowerView (Except String Unit))
  latest : WatchKey -> Option WatchJob

inductive WatchMove
  | post (job : WatchJob)
  | begin (now : Nat)
  | act (view : TowerView)
  | drop (key : WatchKey)
  /-- Anything else that happens to the store. -/
  | other (store : Store)

namespace Watching

def stored (watching : Watching) (key : WatchKey) : Option WatchJob :=
  watching.store.cfWatch.get? key

def start (store : Store) : Watching :=
  ⟨store, [], fun key => (store.cfWatch.get? key).map WatchJob.post⟩

variable (lib : BitcoinLib)

def step (watching : Watching) : WatchMove -> Watching
  | .post job => { watching with
      store := finalState (putWatch job.post) watching.store
      latest := fun key => if key = job.key then some job.post else watching.latest key }
  | .begin now =>
    match watching.pass with
    | [] => { watching with
        pass := (watching.store.watchJobs.filter fun job => !job.done).map fun job =>
          (job, runJob lib job now) }
    | _ :: _ => watching
  | .act view =>
    match watching.pass with
    | [] => watching
    | (_, .done _) :: rest => { watching with pass := rest }
    | (job, .act write next) :: rest => { watching with
        store := write watching.store view
        pass := (job, next watching.store view) :: rest }
  | .drop key =>
    match watching.pass with
    | [] => { watching with
        store := { watching.store with cfWatch := watching.store.cfWatch.delete key }
        latest := fun other => if other = key then none else watching.latest other }
    | _ :: _ => watching
  | .other store => { watching with store := { store with cfWatch := watching.store.cfWatch } }

def run (watching : Watching) (moves : List WatchMove) : Watching := moves.foldl (step lib) watching

end Watching

/-- No job is posted while the pass has a copy of it, nor once it is done or has sent a spend. -/
def WatchMove.Timely (watching : Watching) : WatchMove -> Prop
  | .post job => (∀ entry ∈ watching.pass, entry.1.key ≠ job.key) /\
      ∀ old, watching.stored job.key = some old -> old.done = false /\ old.sentPrevout = none
  | .drop key => ∀ old, watching.stored key = some old -> old.done = true
  | _ => True

def TimelyWatch (lib : BitcoinLib) : Watching -> List WatchMove -> Prop
  | _, [] => True
  | watching, move :: rest => move.Timely watching /\ TimelyWatch lib (watching.step lib move) rest

/-! ## What a run keeps -/

/-- A job the pass still has: it is stored as it was read and is yet to be written
back, or it has been. -/
def Pending (store : Store) (entry : WatchJob × Proc Store TowerView (Except String Unit)) : Prop :=
  (store.cfWatch.get? entry.1.key = some entry.1 /\
    entry.2.ChangesOnce Unwatched (WritesBack entry.1)) \/ entry.2.Keeps Unwatched

structure Watching.Faithful (watching : Watching) : Prop where
  latest : ∀ key, (watching.stored key).map WatchJob.post = watching.latest key
  pending : ∀ entry ∈ watching.pass, Pending watching.store entry
  distinct : (watching.pass.map fun entry => entry.1.key).Nodup

/-- A stored job is still there and nothing of it was taken back. -/
def KeptJob (watching after : Watching) (key : WatchKey) : Prop :=
  ∀ old, watching.stored key = some old -> ∃ new, after.stored key = some new /\
    (old.done = true -> new.done = true) /\
    ∀ prevout, old.sentPrevout = some prevout -> new.sentPrevout = some prevout

variable {moves : List WatchMove}

section Steps

variable {lib : BitcoinLib} {watching : Watching}

theorem keptJob_refl (key : WatchKey) : KeptJob watching watching key :=
  fun old found => ⟨old, found, id, fun _ sent => sent⟩

theorem KeptJob.trans {middle after : Watching} {key : WatchKey}
    (one : KeptJob watching middle key) (two : KeptJob middle after key) :
    KeptJob watching after key := by
  intro old found
  obtain ⟨between, isBetween, done, sent⟩ := one old found
  obtain ⟨new, isNew, doneToo, sentToo⟩ := two between isBetween
  exact ⟨new, isNew, fun isDone => doneToo (done isDone),
    fun prevout isSent => sentToo prevout (sent prevout isSent)⟩

variable {store after : Store} {job : WatchJob}

theorem Pending.same
    {entry : WatchJob × Proc Store TowerView (Except String Unit)} (pending : Pending store entry)
    (same : after.cfWatch.get? entry.1.key = store.cfWatch.get? entry.1.key) :
      Pending after entry := by
  rcases pending with ⟨found, once⟩ | kept
  · exact .inl ⟨same.trans found, once⟩
  · exact .inr kept

theorem stored_post (job : WatchJob) (key : WatchKey) :
    (finalState (putWatch job.post) watching.store).cfWatch.get? key =
      if key = job.key then some job.post else watching.stored key :=
  get?_put _ _ _

theorem Watching.Faithful.post (faithful : watching.Faithful)
    (timely : (WatchMove.post job).Timely watching) : (watching.step lib (.post job)).Faithful := by
  refine ⟨fun key => ?_, fun entry mem => ?_, faithful.distinct⟩
  · change ((finalState (putWatch job.post) watching.store).cfWatch.get? key).map _ = _
    rw [stored_post]
    change _ = if key = job.key then some job.post else watching.latest key
    split
    · rfl
    · exact faithful.latest key
  refine (faithful.pending entry mem).same ?_
  exact (stored_post job _).trans (if_neg (timely.1 entry mem))

theorem Watching.Faithful.begin (faithful : watching.Faithful) (now : Nat) :
    (watching.step lib (.begin now)).Faithful := by
  simp only [Watching.step]
  split
  · refine ⟨faithful.latest, fun entry mem => ?_, ?_⟩
    · obtain ⟨job, listed, rfl⟩ := List.mem_map.mp mem
      have stored : watching.store.cfWatch.get? job.key = some job :=
        get?_of_mem (List.mem_filter.mp listed).1
      exact .inl ⟨stored, once_runJob lib now⟩
    rw [List.map_map]
    have sorted := watching.store.cfWatch.sorted.filter fun job => !job.done
    exact List.pairwise_map.mpr (sorted.imp fun less => ne_of_lt less)
  · exact faithful

theorem Pending.act {write : Store -> TowerView -> Store}
    {next : Store -> TowerView -> Proc Store TowerView (Except String Unit)}
    (pending : Pending store (job, .act write next)) (view : TowerView) :
    Pending (write store view) (job, next store view) /\
      (Unwatched store (write store view) \/ store.cfWatch.get? job.key = some job /\
        WritesBack job store (write store view)) := by
  rcases pending with ⟨found, once⟩ | kept
  · rcases once store view with ⟨idle, rest⟩ | ⟨change, rest⟩
    · refine ⟨.inl ⟨?_, rest⟩, .inl idle⟩
      rw [idle]
      exact found
    · exact ⟨.inr rest, .inr ⟨found, change⟩⟩
  obtain ⟨idle, rest⟩ := kept store view
  exact ⟨.inr rest, .inl idle⟩

theorem WritesBack.stored (writes : WritesBack job store after) :
    ∃ later, Advances job later /\ ∀ key, after.cfWatch.get? key =
      if key = job.key then some later else store.cfWatch.get? key := by
  obtain ⟨later, advances, written⟩ := writes
  refine ⟨later, advances, fun key => ?_⟩
  rw [written, <- key_of_post advances.post]
  exact get?_put _ _ _

variable (faithful : watching.Faithful)
include faithful

theorem Watching.Faithful.act (view : TowerView) : (watching.step lib (.act view)).Faithful /\
      ∀ key, KeptJob watching (watching.step lib (.act view)) key := by
  have pending := faithful.pending
  have distinct := faithful.distinct
  simp only [Watching.step]
  split
  · exact ⟨faithful, keptJob_refl⟩
  next job value rest isPass =>
    rw [isPass] at pending distinct
    exact ⟨⟨faithful.latest, fun entry mem => pending entry (List.mem_cons_of_mem _ mem),
      (List.nodup_cons.mp distinct).2⟩, keptJob_refl⟩
  next job write next rest isPass =>
  rw [isPass] at pending distinct
  obtain ⟨others, distinctRest⟩ := List.nodup_cons.mp distinct
  obtain ⟨head, moved⟩ := (pending _ List.mem_cons_self).act view
  have tail : ∀ entry ∈ rest, entry.1.key ≠ job.key /\ Pending watching.store entry :=
    fun entry mem => ⟨fun same => others (List.mem_map.mpr ⟨entry, mem, same⟩),
      pending entry (List.mem_cons_of_mem _ mem)⟩
  rcases moved with idle | ⟨found, writes⟩
  · refine ⟨⟨fun key => ?_, fun entry mem => ?_, distinct⟩, fun key old isOld => ?_⟩
    · change ((write watching.store view).cfWatch.get? key).map _ = _
      rw [idle]
      exact faithful.latest key
    · rcases List.mem_cons.mp mem with rfl | later
      · exact head
      · exact (tail entry later).2.same (by rw [idle])
    refine ⟨old, ?_, id, fun _ sent => sent⟩
    change (write watching.store view).cfWatch.get? key = _
    rw [idle]
    exact isOld
  obtain ⟨later, advances, stored⟩ := writes.stored
  refine ⟨⟨fun key => ?_, fun entry mem => ?_, distinct⟩, fun key old isOld => ?_⟩
  · change ((write watching.store view).cfWatch.get? key).map _ = _
    rw [stored, <- faithful.latest key]
    split
    next same =>
      rw [same, Watching.stored, found]
      exact congrArg some advances.post
    · rfl
  · rcases List.mem_cons.mp mem with rfl | inRest
    · exact head
    · exact (tail entry inRest).2.same ((stored _).trans (if_neg (tail entry inRest).1))
  change ∃ new, (write watching.store view).cfWatch.get? key = some new /\ _
  rw [stored]
  split
  next same =>
    rw [same, Watching.stored, found] at isOld
    cases isOld
    exact ⟨later, rfl, advances.done, advances.sent⟩
  · exact ⟨old, isOld, id, fun _ sent => sent⟩

theorem Watching.Faithful.drop (key : WatchKey) : (watching.step lib (.drop key)).Faithful /\
      ∀ other, other ≠ key -> KeptJob watching (watching.step lib (.drop key)) other := by
  simp only [Watching.step]
  split
  next isPass =>
    refine ⟨⟨fun other => ?_, fun entry mem => ?_, faithful.distinct⟩,
      fun other ne old isOld => ⟨old, ?_, id, fun _ sent => sent⟩⟩
    · change ((watching.store.cfWatch.delete key).get? other).map _ =
        if other = key then none else watching.latest other
      rw [get?_delete]
      split
      · rfl
      · exact faithful.latest other
    · rw [isPass] at mem
      cases mem
    change (watching.store.cfWatch.delete key).get? other = _
    rw [get?_delete, if_neg ne]
    exact isOld
  · exact ⟨faithful, fun other _ => keptJob_refl other⟩

theorem Watching.Faithful.step {move : WatchMove}
    (timely : move.Timely watching) : (watching.step lib move).Faithful /\
      ∀ key, move ≠ .drop key -> KeptJob watching (watching.step lib move) key := by
  cases move with
  | post job =>
    refine ⟨faithful.post timely, fun key _ old isOld => ?_⟩
    change ∃ new, (finalState (putWatch job.post) watching.store).cfWatch.get? key = some new /\ _
    rw [stored_post]
    split
    next same =>
      obtain ⟨undone, unsent⟩ := timely.2 old (same ▸ isOld)
      refine ⟨job.post, rfl, fun isDone => ?_, fun prevout isSent => ?_⟩
      · rw [undone] at isDone
        cases isDone
      rw [unsent] at isSent
      cases isSent
    · exact ⟨old, isOld, id, fun _ sent => sent⟩
  | begin now =>
    refine ⟨faithful.begin now, fun key _ old isOld => ⟨old, ?_, id, fun _ sent => sent⟩⟩
    simp only [Watching.step]
    split
    · exact isOld
    · exact isOld
  | act view => exact ⟨(faithful.act view).1, fun key _ => (faithful.act view).2 key⟩
  | drop key =>
    refine ⟨(faithful.drop key).1, fun other isOther => (faithful.drop key).2 other ?_⟩
    rintro rfl
    exact isOther rfl
  | other store =>
    exact ⟨⟨faithful.latest, fun entry mem => (faithful.pending entry mem).same rfl,
      faithful.distinct⟩, fun key _ => keptJob_refl key⟩

theorem Watching.Faithful.run
    (timely : TimelyWatch lib watching moves) : (watching.run lib moves).Faithful /\
      ∀ key, (∀ move ∈ moves, move ≠ .drop key) ->
        KeptJob watching (watching.run lib moves) key := by
  induction moves generalizing watching with
  | nil => exact ⟨faithful, fun key _ => keptJob_refl key⟩
  | cons move rest ih =>
    obtain ⟨one, keptOne⟩ := faithful.step timely.1
    obtain ⟨all, keptRest⟩ := ih one timely.2
    exact ⟨all, fun key undropped => (keptOne key (undropped move List.mem_cons_self)).trans
      (keptRest key fun later mem => undropped later (List.mem_cons_of_mem _ mem))⟩

end Steps

theorem timelyWatch_append {lib : BitcoinLib} {watching : Watching} {later : List WatchMove}
    (timely : TimelyWatch lib watching (moves ++ later)) :
    TimelyWatch lib watching moves /\ TimelyWatch lib (watching.run lib moves) later := by
  induction moves generalizing watching with
  | nil => exact ⟨trivial, timely⟩
  | cons move rest ih =>
    obtain ⟨early, late⟩ := ih timely.2
    exact ⟨⟨timely.1, early⟩, late⟩

theorem timelyWatch_of_forall {lib : BitcoinLib} {watching : Watching}
    (timely : ∀ watching, ∀ move ∈ moves, move.Timely watching) :
      TimelyWatch lib watching moves := by
  induction moves generalizing watching with
  | nil => trivial
  | cons move rest ih =>
    exact ⟨timely watching move List.mem_cons_self,
      ih fun watching later mem => timely watching later (List.mem_cons_of_mem _ mem)⟩

/-- As long as posts are timely and only jobs that are done are purged, the stored jobs are the
latest posts, and a job stays done and keeps the output it sent a spend of. -/
theorem watch_jobs_kept (lib : BitcoinLib) (store : Store) (moves later : List WatchMove)
    (timely : TimelyWatch lib (.start store) (moves ++ later)) :
    let watching := (Watching.start store).run lib moves
    (∀ key, (watching.stored key).map WatchJob.post = watching.latest key) /\
    ∀ key, (∀ move ∈ later, move ≠ .drop key) -> ∀ old, watching.stored key = some old ->
      ∃ new, (watching.run lib later).stored key = some new /\
        (old.done = true -> new.done = true) /\
        ∀ prevout, old.sentPrevout = some prevout -> new.sentPrevout = some prevout := by
  intro watching
  have start : (Watching.start store).Faithful :=
    ⟨fun _ => rfl, nofun, List.nodup_nil⟩
  obtain ⟨early, late⟩ := timelyWatch_append timely
  obtain ⟨faithful, _⟩ := start.run early
  exact ⟨faithful.latest, fun key undropped => (faithful.run late).2 key undropped⟩

namespace WatchSample

open AgreementSample

def job : WatchJob := ⟨"m", .xbt, .refund, ("00", 0), 100, ["aa"], false, none⟩

def newer : WatchJob := { job with notBefore := 200, variants := ["bb"] }

/-- The HTLC is spent, and the spend is confirmed. -/
def spent : TowerView :=
  ⟨fun _ _ _ => .ok none, fun _ _ _ => .ok true, fun _ _ _ => .ok none, fun _ => .ok 1,
    fun _ _ => .error "refused"⟩

def sweep : List WatchMove := [.begin 300, .act spent, .act spent, .act spent, .act spent]

def finished : WatchJob := { job with done := true }

def after (moves : List WatchMove) : Watching := (Watching.start (.opened [])).run lib moves

theorem sweep_timely (watching : Watching) : ∀ move ∈ sweep, move.Timely watching := by
  intro move mem
  simp only [sweep, List.mem_cons, List.not_mem_nil, or_false] at mem
  rcases mem with rfl | rfl | rfl | rfl | rfl <;> trivial

theorem sweep_undropped (key : WatchKey) : ∀ move ∈ sweep, move ≠ .drop key := by
  intro move mem
  simp only [sweep, List.mem_cons, List.not_mem_nil, or_false] at mem
  rcases mem with rfl | rfl | rfl | rfl | rfl <;> exact nofun

end WatchSample

open WatchSample

theorem watch_jobs_kept_done :
    ∃ new, ((after ([.post job] ++ sweep)).run AgreementSample.lib sweep).stored job.key =
      some new /\ new.done = true := by
  have unposted : (Watching.start (.opened [])).stored job.key = none := rfl
  have postTimely : (WatchMove.post job).Timely (.start (.opened [])) :=
    ⟨nofun, fun _ isOld =>
      absurd (unposted.symm.trans isOld) (Option.some_ne_none _).symm⟩
  have timely :
      TimelyWatch AgreementSample.lib (.start (.opened [])) ([.post job] ++ sweep ++ sweep) :=
    ⟨postTimely, timelyWatch_of_forall fun watching move mem => sweep_timely watching move
      ((List.mem_append.mp mem).elim id id)⟩
  have found : ((Watching.start (.opened [])).run AgreementSample.lib
      ([.post job] ++ sweep)).stored job.key = some finished := by
    decide
  have kept :=
    (watch_jobs_kept AgreementSample.lib (.opened []) ([.post job] ++ sweep) sweep timely).2
  exact (kept job.key (sweep_undropped _) finished found).imp fun new isNew =>
    ⟨isNew.1, isNew.2.1 rfl⟩

/-- A post between the pass's reading and its writing back is lost; posting again undoes its being
done. -/
theorem watch_jobs_rolled_back :
    (after ([.post job, .begin 300, .post newer] ++ sweep.drop 1)).stored job.key = some finished /\
    (after ([.post job, .begin 300, .post newer] ++ sweep.drop 1)).latest job.key = some newer /\
    (after ([.post job] ++ sweep ++ [.post job])).stored job.key = some job := by
  decide

end Fortis.Edge
