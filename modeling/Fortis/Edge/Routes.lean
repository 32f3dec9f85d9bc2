import Fortis.Edge.Contract
import Fortis.Edge.Locked
import Fortis.Lib.Interleave

/-!
# The routes and the watchtower as processes

A route reads the store without the matching lock, asks the chain, and makes its writes in sections
that hold the lock.  Each read and each section is one action of a process, so whatever a route read
may be stale when its section runs.  The offer routes are given as their sections.
-/

namespace Fortis.Edge

open Fortis.Core Lib
open Proc (keeps_atomically keeps_bind keeps_each keeps_exceptBind keeps_exceptLift keeps_look)

structure TxOutInfo where
  valueSat : Nat
  scriptpubkeyHex : String
  confirmations : Nat

structure ChainView where
  txout : Chain -> String -> Nat -> Except String (Option TxOutInfo)
  createdOutput : ChainReader
  txBlockTime : Chain -> String -> Except String (Option Nat)

/-- What a process sees at one action besides the store; `overtaken` if a delete outside the lock
falls between a section's read and its write. -/
structure Outside where
  now : Nat
  chain : Option ChainView
  overtaken : Bool

structure Swap where
  lib : BitcoinLib
  config : Matching
  tagHash : String -> String

def Swap.env (sw : Swap) : EdgeEnv := ⟨sw.config, sw.lib.toCodec, sw.tagHash⟩

abbrev EdgeProc := Proc Store Outside

/-- A route: it ends with its value or early with a reply. -/
abbrev RouteM := ExceptT Reply EdgeProc

def internal : Reply := .err 500 "internal error"

def unavailable (what : String) : Reply := .err 502 (what ++ " is unavailable")

variable {α : Type}

def peek (read : Store -> Outside -> α) : RouteM α :=
  ExceptT.lift (Proc.look read)

def lockedOr (failed : Fail -> Reply) (prog : Outside -> StoreM α) : RouteM α :=
  ExceptT.mk ((Proc.atomically prog).bind fun ended => .done (ended.mapError failed))

def locked (prog : Outside -> StoreM α) : RouteM α := lockedOr (fun _ => internal) prog

def lift (value : Except Reply α) : RouteM α := ExceptT.mk (.done value)

def ask (question : ChainView -> Except String α) : EdgeProc (Option (Except String α)) :=
  Proc.look fun _ outside => outside.chain.map question

def relay (id : String) (role : SwapRole) (body : Relay) : RouteM Reply :=
  locked fun _ => pushed id role body

def roleIn (presented : Option (Fixed 32)) (m : Match) : Option SwapRole :=
  match presented with
  | none => none
  | some hash =>
    if hash = m.initiatorSecretHash then some .initiator
    else if hash = m.participantSecretHash then some .participant
    else none

def authedMatch (presented : Option (Fixed 32)) (id : String) : RouteM (Match × SwapRole) := do
  let found <- peek fun store _ => store.getMatch id
  let m <- lift (orFail found .noSuchMatch)
  let role <- lift (orFail (roleIn presented m) (.err 403 "wrong or missing X-Swap-Secret"))
  return (m, role)

def parseChain (text : String) : Option Chain :=
  if text = "btc" then some .btc else if text = "xbt" then some .xbt else none

/-! ## Fundings -/

/-- Makes `htlc` the match's funding on `chain`, if the leg's owner asks and the chain shows it. -/
def recordLegFunding (sw : Swap) (m : Match) (chain : Chain) (htlc : OutPoint) (byOwner : Bool) :
    RouteM Unit := do
  let want : Outpoint := (htlc.txid.toStr, htlc.vout)
  let unrecorded : Reply :=
    .err 409 "htlc_outpoint is not this match's recorded funding on that chain"
  match m.funding chain with
  | some existing => lift (refuseIf (existing ≠ want) unrecorded)
  | none => do
    lift (refuseIf (byOwner = false) unrecorded)
    let paid <- peek fun _ outside =>
      legPaidOnChain sw.lib (outside.chain.map ChainView.createdOutput) m chain htlc
    lift (paid.mapError fun
      | .noScript => .err 409
          "htlc_outpoint is not recorded, and both keys and the hashlock are needed to check it"
      | .readFailed _ => unavailable "the chain"
      | .noReader | .notSeen | .mismatch =>
        .err 409 "htlc_outpoint is not this match's HTLC on that chain")
    let recorded <- locked fun _ => recordSection m.id chain want
    lift recorded

/-- Undo a deadline cancel whose BTC funding was mined in time; an error is a
failed chain read. -/
def reinstateIfFundedInTime (id : String) : ExceptT String EdgeProc Reinstate := do
  let found <- ExceptT.lift (Proc.look fun store _ => (store.getMatch id).filter (eligible ·))
  match found with
  | none => return .notEligible
  | some m =>
    match m.btcFunding, m.participantFundBy with
    | some (txid, _), some fundBy =>
      let answer <- ExceptT.lift (ask fun view => view.txBlockTime .btc txid)
      match answer with
      | none => return .notEligible
      | some (.error text) => throw text
      | some (.ok none) => return .notMined
      | some (.ok (some mined)) =>
        if fundBy < mined then return .minedLate
        else
          let ended <- ExceptT.lift (Proc.atomically fun _ => reinstateSection id txid)
          match ended with
          | .ok result => return result
          | .error _ => throw "store"
    | _, _ => return .notEligible

def lateParticipantFunded (sw : Swap) (m : Match) (htlc : OutPoint) (relayed : RouteM Reply) :
    RouteM Reply := do
  recordLegFunding sw m .btc htlc true
  let found <- ExceptT.lift (reinstateIfFundedInTime m.id).run
  match found with
  | .ok .done => relayed
  | .ok .minedLate =>
    throw (.err 410 "the match was cancelled: this funding was mined after its deadline")
  | .ok .notMined => throw (.err 409 "the match was cancelled: this funding isn't mined yet")
  | .ok .notEligible => do
    let already <- peek fun store _ => (store.getMatch m.id).any fun current =>
      current.status = .participantFunded /\ current.btcFunding = some (htlc.txid.toStr, htlc.vout)
    if already then return .seq none else throw (.err 409 "the match was cancelled")
  | .error _ => throw (unavailable "the chain")

def unpaidReply : Unpaid -> Reply
  | .noScript =>
    .err 409 "send both keys and the hashlock before funding: they are needed to check it"
  | .noReader => .err 503 "fundings can't be checked on chain right now: try again later"
  | .notSeen => .err 503 "this funding isn't seen on chain yet: try again shortly"
  | .mismatch => .err 409 "this output doesn't pay this match's HTLC: wrong script or amount"
  | .readFailed _ => unavailable "the chain"

def timelyFunded (sw : Swap) (id : String) (role : SwapRole) (htlc : OutPoint) : RouteM Reply := do
  let outpoint : Outpoint := (htlc.txid.toStr, htlc.vout)
  let found <- peek fun store _ => store.getMatch id
  let m <- lift (orFail found .noSuchMatch)
  if m.funding role.sendChain = some outpoint then
    locked fun _ => fundedSection id role outpoint
  else do
    lift (refuseIf (m.status ≠ fundedNeeds role) (.err 409 "not your turn to fund"))
    let paid <- peek fun _ outside =>
      legPaidOnChain sw.lib (outside.chain.map ChainView.createdOutput) m role.sendChain htlc
    lift (paid.mapError unpaidReply)
    locked fun _ => fundedSection id role outpoint

/-- A read only the participant's `funded` makes. -/
def peekMatchFor {α : Type} (role : SwapRole) (id : String) (none' : α) (read : Match -> α) :
    RouteM α :=
  match role with
  | .initiator => pure none'
  | .participant => peek fun store _ => ((store.getMatch id).map read).getD none'

def fundedRoute (sw : Swap) (id : String) (role : SwapRole) (chain txid : String) (vout : Nat) :
    RouteM Reply := do
  let released <- peekMatchFor role id false fun m => m.releaseSigs.isSome
  lift (refuseIf (released = true) (.err 409 "this match was released: it can't be funded"))
  lift (refuseIf (parseChain chain ≠ some role.sendChain)
    (.err 400 ("the " ++ role.asStr ++ " funds on " ++ role.sendChain.asStr)))
  let txid <- lift (orFail (Txid.fromStr txid) (.err 400 "bad txid"))
  let htlc : OutPoint := ⟨txid, vout⟩
  let missed <- peekMatchFor role id none fun m =>
    if m.missedParticipantDeadline then some m else none
  match missed with
  | some m =>
    lateParticipantFunded sw m htlc (relay id role (.funded role.sendChain.asStr txid.toStr vout))
  | none => timelyFunded sw id role htlc

inductive Msg
  | accept
  | decline
  | keys (xbt btc : String)
  | hashlock (hex : String) (nonce : Option String)
  | funded (chain txid : String) (vout : Nat)
  | releaseRequest (txs : List String)
  | release (sigs : List String)

def maxMessagesPerMatch : Nat := 200

def compressedHex (lib : BitcoinLib) (text : String) : Option String :=
  if text.length = 66 then
    (pubkeyFromStr lib text).map fun key => hexEncode key.serialize.val
  else none

def releaseSig (text : String) : Option String :=
  ((hexDecode text).filter fun bytes => 9 <= bytes.length /\ bytes.length <= 73).map hexEncode

def relayedNonce (nonce : Option String) : Except Reply (Option String) :=
  match nonce with
  | none => .ok none
  | some text =>
    match (hexDecode text).filter (·.length = 16) with
    | some bytes => .ok (some (hexEncode bytes))
    | none => .error (.err 400 "nonce must be 16 bytes of hex")

def declined : Fail -> Reply
  | .bail text => .err 409 text
  | .write text => .err 409 text
  | .fault => internal

def onMessage (sw : Swap) (id : String) (role : SwapRole) : Msg -> RouteM Reply
  | .decline => do
    lockedOr declined fun outside => onDecline id role outside.now
    relay id role .decline
  | .accept => locked fun outside => acceptSection id role outside.now
  | .keys xbt btc => do
    let unread : Reply := .err 400 "keys must be compressed public keys"
    let xbt <- lift (orFail (compressedHex sw.lib xbt) unread)
    let btc <- lift (orFail (compressedHex sw.lib btc) unread)
    locked fun _ => keysSection id role (xbt, btc)
  | .hashlock hex nonce => do
    lift (refuseIf (role ≠ .initiator) (.err 403 "only the initiator sends the hashlock"))
    let hash <- lift (orFail (hex32 hex) (.err 400 "hashlock must be 32 bytes of hex"))
    let nonce <- lift (relayedNonce nonce)
    locked fun _ => hashlockSection id (hexEncode hash.val) nonce
  | .releaseRequest txs => do
    lift (refuseIf (role ≠ .initiator) (.err 403 "only the initiator asks for a release"))
    locked fun _ => releaseRequestSection sw.lib.toCodec id txs
  | .release sigs => do
    lift (refuseIf (role ≠ .participant) (.err 403 "only the participant signs a release"))
    let sigs <- lift (orFail (sigs.mapM releaseSig)
      (.err 400 "release signatures must be DER signatures in hex"))
    locked fun _ => releaseSection id sigs
  | .funded chain txid vout => fundedRoute sw id role chain txid vout

def postMessage (sw : Swap) (presented : Option (Fixed 32)) (id : String) (msg : Msg) :
    RouteM Reply := do
  let (_, role) <- authedMatch presented id
  let relayed <- peek fun store _ => (store.msgsAfter id 0).length
  lift (refuseIf (maxMessagesPerMatch <= relayed)
    (.err 429 "this match has relayed too many messages"))
  onMessage sw id role msg

structure WatchReq where
  (matchId chain kind : String)
  htlcOutpoint : String × Nat
  notBefore : Nat
  variants : List String
  sigs : Option (List String)
  (pubkey witnessScript : Option String)

def maxVariants : Nat := 16

def isHex (text : String) : Bool := text ≠ "" /\ (hexDecode text).isSome

def watchKind (req : WatchReq) : Except Reply WatchKind :=
  let bad : Reply := .err 400
    "kind must be refund or redeem (with sigs, pubkey and witness_script hex for a preimage-less redeem)"
  match req.sigs, req.pubkey, req.witnessScript with
  | none, none, none =>
    if req.kind = "refund" then .ok .refund
    else if req.kind = "redeem" then .ok .redeem
    else .error bad
  | some sigs, some pubkey, some script =>
    if req.kind = "redeem" /\ isHex pubkey /\ isHex script /\ sigs.all isHex then
      if sigs.length ≠ req.variants.length then
        .error (.err 400 "sigs must hold one signature per variant, in order")
      else .ok (.waitingRedeem pubkey script sigs)
    else .error bad
  | _, _, _ => .error bad

def spendsHtlc (codec : Codec) (htlc : OutPoint) (hexTx : String) : Bool :=
  match (hexDecode hexTx).bind codec.deserialize with
  | some tx => tx.input.map TxIn.previousOutput = [htlc]
  | none => false

def watch (sw : Swap) (presented : Option (Fixed 32)) (req : WatchReq) : RouteM Unit := do
  let (m, role) <- authedMatch presented req.matchId
  let chain <- lift (orFail (parseChain req.chain) (.err 400 "chain must be xbt or btc"))
  let kind <- lift (watchKind req)
  lift (refuseIf (decide (chain = role.sendChain) ≠ decide (kind = .refund))
    (.err 403 "refund your own HTLC, redeem the counterparty's"))
  let txid <- lift (orFail (Txid.fromStr req.htlcOutpoint.1) (.err 400 "bad htlc_outpoint txid"))
  let htlc : OutPoint := ⟨txid, req.htlcOutpoint.2⟩
  lift (refuseIf (req.variants = [] \/ maxVariants < req.variants.length)
    (.err 400 "1 to 16 variants"))
  lift (refuseIf (req.variants.all (spendsHtlc sw.lib.toCodec htlc) = false)
    (.err 400 "every variant must be a transaction spending only htlc_outpoint"))
  recordLegFunding sw m chain htlc (kind = .refund)
  -- A failed reinstatement is logged: the watch is stored whatever it finds.
  let _ <- ExceptT.lift (if chain = .btc /\ kind = .refund then
    (reinstateIfFundedInTime m.id).run else pure (.ok .notEligible))
  locked fun _ => putWatch
    { matchId := m.id
      chain := chain
      kind := kind
      htlc := (txid.toStr, htlc.vout)
      notBefore := req.notBefore
      variants := req.variants
      done := false
      sentPrevout := none }

def maxRecoverTags : Nat := 100

def parseTag (text : String) : Except Reply String :=
  if text.length = 64 /\ text.toList.all (hexValue · |>.isSome) then .ok text.toLower
  else .error (.err 400 "recovery_tag must be 64 hex digits")

/-- `secrets` are the owner secrets drawn on the way. -/
def recover (sw : Swap) (tags : List String) (claim : Bool)
    (secrets : List (String × Fixed 32)) : RouteM (List Recovered) := do
  lift (refuseIf (maxRecoverTags < tags.length) (.err 400 "at most 100 tags"))
  let tags <- lift (tags.mapM parseTag)
  locked fun _ => recoverTags sw.tagHash claim tags secrets

/-- Start the participant's clock once the XBT funding `m` was read with is confirmed. -/
def startParticipantClock (sw : Swap) (m : Match) (now : Nat) : EdgeProc Unit :=
  match m.xbtFunding, legWitnessScript sw.lib m .xbt with
  | some (txid, vout), some script => do
    let answer <- ask fun view => view.txout .xbt txid vout
    match answer with
    | some (.ok (some out)) =>
      if eqIgnoreAsciiCase out.scriptpubkeyHex (hexEncode (newP2wsh (sw.lib.sha256 script))) /\
          out.valueSat = m.terms.xbtSat /\ m.terms.xbtConfs <= out.confirmations then do
        let fundBy := min (now + participantFundSecs) (participantFundLatest m.terms)
        let started <- Proc.atomically fun _ => clockSection m fundBy
        match started with
        | .ok true => do
          let _ <- Proc.atomically fun _ => pushMsg m.id "edge" (.deadline fundBy)
        | _ => pure ()
      else pure ()
    | _ => pure ()
  | _, _ => pure ()

/-- Whether every one of `legs` is spent or gone; a failed read counts as not. -/
def allSpent : List (Chain × Outpoint) -> EdgeProc Bool
  | [] => pure true
  | (chain, txid, vout) :: rest => do
    let answer <- ask fun view => view.txout chain txid vout
    match answer with
    | some (.ok none) => allSpent rest
    | _ => pure false

def fundedLegs (m : Match) : List (Chain × Outpoint) :=
  (m.xbtFunding.toList.map (Chain.xbt, ·)) ++ (m.btcFunding.toList.map (Chain.btc, ·))

def closeIfSpent (m : Match) (now : Nat) : EdgeProc Unit :=
  if (m.status = .initiatorFunded \/ m.status = .participantFunded) /\ fundedLegs m ≠ [] then do
    let spent <- allSpent (fundedLegs m)
    if spent then
      let _ <- Proc.atomically fun _ => closeSection m now
    else pure ()
  else pure ()

def purgeAfterSecs : Nat := 7 * 24 * 3600

def old (now time : Nat) : Bool := purgeAfterSecs < now - time

/-- A delete without the lock; one that a section overtakes is undone by it. -/
def drop (delete : Store -> Store) : EdgeProc Unit :=
  .act (fun store outside => if outside.overtaken then store else delete store) fun _ _ => .done ()

def purgeMatch (now : Nat) (pending : List String) (m : Match) : EdgeProc Unit :=
  if terminal m.status /\ m.closedAt.any (old now) /\ m.id ∉ pending then do
    let msgs <- Proc.look fun store _ => store.msgsAfter m.id 0
    Proc.each (fun msg => drop fun store =>
      { store with cfMsgs := store.cfMsgs.delete (toLex (msg.matchId, msg.seq)) }) msgs
    let jobs <- Proc.look fun store _ => store.watchJobs.filter (·.matchId = m.id)
    Proc.each (fun job => drop fun store =>
      { store with
        cfWatch := store.cfWatch.delete
          (toLex (job.matchId, toLex (job.chain.asStr, job.kind.keyTag))) }) jobs
    drop fun store => { store with cfMatches := store.cfMatches.delete m.id }
  else pure ()

def offerDone (store : Store) (offer : Offer) : Bool :=
  match offer.status with
  | .cancelled | .expired | .filled => true
  | .matched =>
    match offer.matchId.bind store.getMatch with
    | none => true
    | some m => m.status = .closed
  | .opened => false

def purgeOffer (now : Nat) (inMatches : List String) (offer : Offer) : EdgeProc Unit :=
  if offer.id ∈ inMatches then pure ()
  else do
    let done <- Proc.look fun store _ => offerDone store offer
    if done /\ old now offer.expiresAt then
      drop fun store => { store with cfOffers := store.cfOffers.delete offer.id }
    else pure ()

def purgeStrikes (now : Nat) : StoreM Unit :=
  modify fun store => (store.cfStrikes.rows.filter fun row =>
    !(row.2.any (inWindow · now))).foldl
      (fun store row => { store with cfStrikes := store.cfStrikes.delete row.1 }) store

def purge (now : Nat) : EdgeProc Unit := do
  let pending <- Proc.look fun store _ =>
    (store.watchJobs.filter fun job => !job.done).map WatchJob.matchId
  let found <- Proc.look fun store _ => store.allMatches
  Proc.each (purgeMatch now pending) found
  let inMatches <- Proc.look fun store _ =>
    store.allMatches.flatMap fun m => [m.initiatorOffer, m.participantOffer]
  let offers <- Proc.look fun store _ => store.allOffers
  Proc.each (purgeOffer now inMatches) offers
  let _ <- Proc.atomically fun _ => purgeStrikes now

def runOnce (sw : Swap) : EdgeProc Unit := do
  let now <- Proc.look fun _ outside => outside.now
  let _ <- Proc.atomically fun _ => tick now
  let _ <- Proc.atomically fun _ => rematch sw.config now
  let waiting <- Proc.look fun store _ => store.allMatches
  Proc.each (fun m => if m.status = .initiatorFunded /\ m.participantFundBy = none then
    startParticipantClock sw m now else pure ()) waiting
  let funded <- Proc.look fun store _ => store.allMatches
  Proc.each (closeIfSpent · now) funded
  purge now

def LockedOp.ofOffers : LockedOp -> Bool
  | .create _ | .matchOffer .. | .takePrivate .. | .takePublic .. | .dropRemainder _
  | .cancelOffer .. => true
  | _ => false

/-- What begins a process of the edge. -/
inductive Request
  | postMessage (presented : Option (Fixed 32)) (id : String) (msg : Msg)
  | watch (presented : Option (Fixed 32)) (req : WatchReq)
  | recover (tags : List String) (claim : Bool) (secrets : List (String × Fixed 32))
  | offers (op : { op : LockedOp // op.ofOffers = true })
  | pass

def serve (sw : Swap) : Request -> EdgeProc Unit
  | .postMessage presented id msg => do let _ <- (postMessage sw presented id msg).run
  | .watch presented req => do let _ <- (watch sw presented req).run
  | .recover tags claim secrets => do let _ <- (recover sw tags claim secrets).run
  | .offers op => do let _ <- Proc.atomically fun _ => op.val.run sw.env
  | .pass => runOnce sw

abbrev EdgeRun := List (Move Request Outside)

def storeAfter (sw : Swap) (ids : List String) (moves : EdgeRun) : Store :=
  Pool.sharedAfter (serve sw) (Store.opened ids) moves

/-! ## What every process keeps -/

/-- A relation kept outside the lock: by relaying, handing in a watch job and purging. -/
structure Beside (rel : Store -> Store -> Prop) : Prop where
  refl : ∀ store, rel store store
  relays : ∀ matchId fromRole body, Relates rel (pushMsg matchId fromRole body)
  watches : ∀ job, Relates rel (putWatch job)
  dropsMsg : ∀ store key, rel store { store with cfMsgs := store.cfMsgs.delete key }
  dropsWatch : ∀ store key, rel store { store with cfWatch := store.cfWatch.delete key }
  dropsMatch : ∀ store key, rel store { store with cfMatches := store.cfMatches.delete key }
  dropsOffer : ∀ store key, rel store { store with cfOffers := store.cfOffers.delete key }
  dropsStrikes : ∀ now, Relates rel (purgeStrikes now)

structure Kept (sw : Swap) (rel : Store -> Store -> Prop) : Prop extends Beside rel where
  locked : ∀ op : LockedOp, Relates rel (op.run sw.env)

def LockedOp.records : LockedOp -> Bool
  | .funded .. | .record .. => true
  | _ => false

/-- A relation kept by all of that but the operations that record a funding. -/
structure Steady (sw : Swap) (rel : Store -> Store -> Prop) : Prop extends Beside rel where
  locked : ∀ op : LockedOp, op.records = false -> Relates rel (op.run sw.env)

theorem Kept.steady {sw : Swap} {rel : Store -> Store -> Prop} (kept : Kept sw rel) :
    Steady sw rel :=
  { kept with locked := fun op _ => kept.locked op }

variable {sw : Swap} {rel : Store -> Store -> Prop} {α β : Type}

def RouteM.Keeps (rel : Store -> Store -> Prop) (route : RouteM α) : Prop :=
  Proc.Keeps rel route.run

variable {next : α -> RouteM β}

theorem keeps_liftBind {value : Except Reply α}
    (keeps : ∀ got, RouteM.Keeps rel (next got)) : RouteM.Keeps rel (lift value >>= next) :=
  keeps_exceptBind (trivial) keeps

variable {prog : Outside -> StoreM α}

theorem keeps_lockedOr {failed : Fail -> Reply}
    (relates : ∀ outside, Relates rel (prog outside)) : RouteM.Keeps rel (lockedOr failed prog) :=
  keeps_bind (keeps_atomically relates) fun _ => trivial

theorem keeps_section (op : Outside -> LockedOp)
    (relates : ∀ outside, Relates rel ((op outside).run sw.env))
    (runs : ∀ outside, (op outside).run sw.env = (do let _ <- prog outside)) :
    RouteM.Keeps rel (locked prog) :=
  keeps_lockedOr fun outside => relates_ignore_iff.mp (runs outside ▸ relates outside)

theorem keeps_drop (refl : ∀ store, rel store store) {delete : Store -> Store}
    (drops : ∀ store, rel store (delete store)) : (drop delete).Keeps rel := by
  intro store outside
  refine ⟨?_, trivial⟩
  dsimp only
  split
  · exact refl store
  · exact drops store

section

variable (kept : Steady sw rel)

include kept

theorem keeps_peek (read : Store -> Outside -> α) : RouteM.Keeps rel (peek read) :=
  keeps_exceptLift (keeps_look kept.refl read)

theorem keeps_peekBind {read : Store -> Outside -> α}
    (keeps : ∀ got, RouteM.Keeps rel (next got)) : RouteM.Keeps rel (peek read >>= next) :=
  keeps_exceptBind (keeps_peek kept read) keeps

theorem keeps_relay (id : String) (role : SwapRole) (body : Relay) :
    RouteM.Keeps rel (relay id role body) := by
  refine keeps_lockedOr fun _ => ?_
  have pushes := kept.relays id role.asStr body
  rw [relates_iff_wp] at pushes ⊢
  intro store
  unfold pushed
  rw [wp_bind]
  exact pushes store

theorem keeps_authedMatch (presented : Option (Fixed 32)) (id : String) :
    RouteM.Keeps rel (authedMatch presented id) := by
  refine keeps_peekBind kept fun _ => ?_
  refine keeps_liftBind fun _ => ?_
  exact keeps_liftBind fun _ => trivial

theorem keeps_ask (question : ChainView -> Except String α) : (ask question).Keeps rel :=
  keeps_look kept.refl _

theorem keeps_reinstateIfFundedInTime (id : String) :
    Proc.Keeps rel (reinstateIfFundedInTime id).run := by
  refine keeps_exceptBind (keeps_exceptLift (keeps_look kept.refl _)) fun found => ?_
  rcases found with _ | m
  · trivial
  dsimp only
  split
  next txid _ fundBy _ _ =>
    refine keeps_exceptBind (keeps_exceptLift (keeps_ask kept _)) fun answer => ?_
    split
    · trivial
    · trivial
    · trivial
    split
    · trivial
    refine keeps_exceptBind (keeps_exceptLift (keeps_atomically fun _ =>
      relates_ignore_iff.mp (kept.locked (.reinstate id txid) rfl))) fun ended => ?_
    cases ended <;> trivial
  · trivial

theorem keeps_peekMatchFor (role : SwapRole) (id : String) (none' : α)
    (read : Match -> α) : RouteM.Keeps rel (peekMatchFor role id none' read) := by
  cases role with
  | initiator => trivial
  | participant => exact keeps_peek kept _

theorem keeps_onMessage_unfunded (id : String) (role : SwapRole) {msg : Msg}
    (other : ∀ chain txid vout, msg ≠ .funded chain txid vout) :
    RouteM.Keeps rel (onMessage sw id role msg) := by
  cases msg with
  | accept =>
    exact keeps_section (fun outside => .accept id role outside.now)
      (fun _ => kept.locked _ rfl) fun _ => rfl
  | decline =>
    refine keeps_exceptBind (keeps_lockedOr fun outside =>
      kept.locked (.decline id role outside.now) rfl) fun _ => ?_
    exact keeps_relay kept id role .decline
  | keys xbt btc =>
    refine keeps_liftBind fun xbtHex => ?_
    refine keeps_liftBind fun btcHex => ?_
    exact keeps_section (fun _ => .keys id role (xbtHex, btcHex)) (fun _ => kept.locked _ rfl)
      fun _ => rfl
  | hashlock hex nonce =>
    refine keeps_liftBind fun _ => ?_
    refine keeps_liftBind fun hash => ?_
    refine keeps_liftBind fun nonce => ?_
    exact keeps_section (fun _ => .hashlock id (hexEncode hash.val) nonce)
      (fun _ => kept.locked _ rfl) fun _ => rfl
  | funded chain txid vout => exact absurd rfl (other chain txid vout)
  | releaseRequest txs =>
    refine keeps_liftBind fun _ => ?_
    exact keeps_section (fun _ => .releaseRequest id txs) (fun _ => kept.locked _ rfl) fun _ => rfl
  | release sigs =>
    refine keeps_liftBind fun _ => ?_
    refine keeps_liftBind fun sigs => ?_
    exact keeps_section (fun _ => .release id sigs) (fun _ => kept.locked _ rfl) fun _ => rfl

theorem keeps_recover (tags : List String) (claim : Bool)
    (secrets : List (String × Fixed 32)) : RouteM.Keeps rel (recover sw tags claim secrets) := by
  refine keeps_liftBind fun _ => ?_
  refine keeps_liftBind fun tags => ?_
  exact keeps_section (fun _ => .recover tags claim secrets) (fun _ => kept.locked _ rfl)
    fun _ => rfl

/-! ### The pass -/

theorem keeps_startParticipantClock (m : Match) (now : Nat) :
    (startParticipantClock sw m now).Keeps rel := by
  unfold startParticipantClock
  split
  · refine keeps_bind (keeps_ask kept _) fun answer => ?_
    split
    · split
      · refine keeps_bind (keeps_atomically fun _ =>
          relates_ignore_iff.mp (kept.locked (.clock m _) rfl)) fun started => ?_
        split
        · exact keeps_bind (keeps_atomically fun _ => kept.relays _ _ _) fun _ => trivial
        · trivial
      · trivial
    · trivial
  · trivial

theorem keeps_allSpent (legs : List (Chain × Outpoint)) : (allSpent legs).Keeps rel := by
  induction legs with
  | nil => trivial
  | cons leg rest ih =>
    refine keeps_bind (keeps_ask kept _) fun answer => ?_
    split
    · exact ih
    · trivial

theorem keeps_closeIfSpent (m : Match) (now : Nat) : (closeIfSpent m now).Keeps rel := by
  unfold closeIfSpent
  split
  · refine keeps_bind (keeps_allSpent kept _) fun spent => ?_
    split
    · exact keeps_bind (keeps_atomically fun _ => kept.locked (.close m now) rfl) fun _ => trivial
    · trivial
  · trivial

theorem keeps_purgeMatch (now : Nat) (pending : List String) (m : Match) :
    (purgeMatch now pending m).Keeps rel := by
  unfold purgeMatch
  split
  · refine keeps_bind (keeps_look kept.refl _) fun msgs => ?_
    refine keeps_bind (keeps_each (fun _ =>
      keeps_drop kept.refl fun store => kept.dropsMsg store _) msgs) fun _ => ?_
    refine keeps_bind (keeps_look kept.refl _) fun jobs => ?_
    refine keeps_bind (keeps_each (fun _ =>
      keeps_drop kept.refl fun store => kept.dropsWatch store _) jobs) fun _ => ?_
    exact keeps_drop kept.refl fun store => kept.dropsMatch store m.id
  · trivial

theorem keeps_purgeOffer (now : Nat) (inMatches : List String)
    (offer : Offer) : (purgeOffer now inMatches offer).Keeps rel := by
  unfold purgeOffer
  split
  · trivial
  refine keeps_bind (keeps_look kept.refl _) fun done => ?_
  split
  · exact keeps_drop kept.refl fun store => kept.dropsOffer store offer.id
  · trivial

theorem keeps_purge (now : Nat) : (purge now).Keeps rel := by
  refine keeps_bind (keeps_look kept.refl _) fun pending => ?_
  refine keeps_bind (keeps_look kept.refl _) fun found => ?_
  refine keeps_bind (keeps_each (keeps_purgeMatch kept now pending) found) fun _ => ?_
  refine keeps_bind (keeps_look kept.refl _) fun inMatches => ?_
  refine keeps_bind (keeps_look kept.refl _) fun offers => ?_
  refine keeps_bind (keeps_each (keeps_purgeOffer kept now inMatches) offers) fun _ => ?_
  exact keeps_bind (keeps_atomically fun _ => kept.dropsStrikes now) fun _ => trivial

theorem keeps_runOnce : (runOnce sw).Keeps rel := by
  refine keeps_bind (keeps_look kept.refl _) fun now => ?_
  refine keeps_bind (keeps_atomically fun _ => kept.locked (.tick now) rfl) fun _ => ?_
  refine keeps_bind (keeps_atomically fun _ => kept.locked (.rematch now) rfl) fun _ => ?_
  refine keeps_bind (keeps_look kept.refl _) fun waiting => ?_
  refine keeps_bind (keeps_each (fun m => ?_) waiting) fun _ => ?_
  · split
    · exact keeps_startParticipantClock kept m now
    · trivial
  refine keeps_bind (keeps_look kept.refl _) fun funded => ?_
  refine keeps_bind (keeps_each (keeps_closeIfSpent kept · now) funded) fun _ => ?_
  exact keeps_purge kept now

end

variable (kept : Kept sw rel)

include kept

theorem keeps_recordLegFunding (m : Match) (chain : Chain) (htlc : OutPoint)
    (byOwner : Bool) : RouteM.Keeps rel (recordLegFunding sw m chain htlc byOwner) := by
  unfold recordLegFunding
  cases m.funding chain with
  | some existing => exact trivial
  | none =>
    refine keeps_liftBind fun _ => ?_
    refine keeps_peekBind kept.steady fun _ => ?_
    refine keeps_liftBind fun _ => ?_
    refine keeps_exceptBind ?_ fun _ => trivial
    exact keeps_section (fun _ => .record m.id chain (htlc.txid.toStr, htlc.vout))
      (fun _ => kept.locked _) fun _ => rfl

theorem keeps_lateParticipantFunded (m : Match) (htlc : OutPoint)
    {relayed : RouteM Reply} (relays : RouteM.Keeps rel relayed) :
    RouteM.Keeps rel (lateParticipantFunded sw m htlc relayed) := by
  refine keeps_exceptBind (keeps_recordLegFunding kept m .btc htlc true) fun _ => ?_
  refine keeps_exceptBind
    (keeps_exceptLift (keeps_reinstateIfFundedInTime kept.steady m.id)) fun found => ?_
  split
  · exact relays
  · trivial
  · trivial
  · refine keeps_peekBind kept.steady fun already => ?_
    split <;> trivial
  · trivial

theorem keeps_timelyFunded (id : String) (role : SwapRole)
    (htlc : OutPoint) : RouteM.Keeps rel (timelyFunded sw id role htlc) := by
  have funds : RouteM.Keeps rel
      (locked fun _ => fundedSection id role (htlc.txid.toStr, htlc.vout)) :=
    keeps_section (fun _ => .funded id role (htlc.txid.toStr, htlc.vout))
      (fun _ => kept.locked _) fun _ => rfl
  refine keeps_peekBind kept.steady fun _ => ?_
  refine keeps_liftBind fun m => ?_
  split
  · exact funds
  refine keeps_liftBind fun _ => ?_
  refine keeps_peekBind kept.steady fun _ => ?_
  exact keeps_liftBind fun _ => funds

theorem keeps_fundedRoute (id : String) (role : SwapRole) (chain txid : String) (vout : Nat) :
      RouteM.Keeps rel (fundedRoute sw id role chain txid vout) := by
  refine keeps_exceptBind (keeps_peekMatchFor kept.steady role id _ _) fun _ => ?_
  refine keeps_liftBind fun _ => ?_
  refine keeps_liftBind fun _ => ?_
  refine keeps_liftBind fun parsed => ?_
  refine keeps_exceptBind (keeps_peekMatchFor kept.steady role id _ _) fun missed => ?_
  cases missed with
  | none => exact keeps_timelyFunded kept id role ⟨parsed, vout⟩
  | some m =>
    exact keeps_lateParticipantFunded kept m ⟨parsed, vout⟩ (keeps_relay kept.steady _ _ _)

theorem keeps_onMessage (id : String) (role : SwapRole) (msg : Msg) :
    RouteM.Keeps rel (onMessage sw id role msg) := by
  cases msg with
  | funded chain txid vout => exact keeps_fundedRoute kept id role chain txid vout
  | _ => exact keeps_onMessage_unfunded kept.steady id role (by simp)

theorem keeps_postMessage (presented : Option (Fixed 32)) (id : String)
    (msg : Msg) : RouteM.Keeps rel (postMessage sw presented id msg) := by
  refine keeps_exceptBind (keeps_authedMatch kept.steady presented id) fun authed => ?_
  refine keeps_peekBind kept.steady fun _ => ?_
  refine keeps_liftBind fun _ => ?_
  exact keeps_onMessage kept id authed.2 msg

theorem keeps_watch (presented : Option (Fixed 32)) (req : WatchReq) :
    RouteM.Keeps rel (watch sw presented req) := by
  refine keeps_exceptBind (keeps_authedMatch kept.steady presented req.matchId) fun authed => ?_
  refine keeps_liftBind fun chain => ?_
  refine keeps_liftBind fun kind => ?_
  refine keeps_liftBind fun _ => ?_
  refine keeps_liftBind fun txid => ?_
  refine keeps_liftBind fun _ => ?_
  refine keeps_liftBind fun _ => ?_
  refine keeps_exceptBind (keeps_recordLegFunding kept _ _ _ _) fun _ => ?_
  refine keeps_exceptBind (keeps_exceptLift ?_) fun _ => ?_
  · split
    · exact keeps_reinstateIfFundedInTime kept.steady _
    · trivial
  · exact keeps_lockedOr fun _ => kept.watches _

/-- Every process of the edge keeps what its actions keep. -/
theorem keeps_serve (request : Request) : (serve sw request).Keeps rel := by
  cases request with
  | postMessage presented id msg =>
    exact keeps_bind (keeps_postMessage kept presented id msg) fun _ => trivial
  | watch presented req =>
    exact keeps_bind (keeps_watch kept presented req) fun _ => trivial
  | recover tags claim secrets =>
    exact keeps_bind (keeps_recover kept.steady tags claim secrets) fun _ => trivial
  | offers op =>
    exact keeps_bind (keeps_atomically fun _ => kept.locked op.val) fun _ => trivial
  | pass => exact keeps_runOnce kept.steady

end Fortis.Edge
