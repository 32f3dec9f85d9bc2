import Fortis.Core.Tx
import Fortis.Edge.Matcher

/-!
# Sections under the matching lock

Every route that changes a match or an offer does so in one section that takes the matching lock,
reads the record again and writes it whole.  Each section is one program over the store; what the
route read before taking the lock is an argument.
-/

namespace Fortis.Edge

open Fortis.Core Lib

/-- A reply of a message route: the sequence number it relayed, or an error. -/
inductive Reply
  | seq (number : Option Nat)
  | err (status : Nat) (text : String)
  deriving DecidableEq

def Reply.noSuchMatch : Reply := .err 404 "no such match"

variable {α : Type} (role : SwapRole) (pair : α × α)

def sideOf : α :=
  match role with
  | .initiator => pair.1
  | .participant => pair.2

def setSide (value : α) : α × α :=
  match role with
  | .initiator => (value, pair.2)
  | .participant => (pair.1, value)

def Match.setFunding (m : Match) (chain : Chain) (outpoint : Outpoint) : Match :=
  match chain with
  | .xbt => { m with xbtFunding := some outpoint }
  | .btc => { m with btcFunding := some outpoint }

/-- Read the match, decide, write the change and finish; a refusal is the reply. -/
def updateMatch {ρ : Type} (id : String) (missing : ρ) (decision : Match → Except ρ Match)
    (finish : Match → StoreM ρ) : StoreM ρ := do
  match (← get).getMatch id with
  | none => return missing
  | some m =>
    match decision m with
    | .error reply => return reply
    | .ok changed =>
      putMatch changed
      finish changed

def pushed (id : String) (role : SwapRole) (body : Relay) : StoreM Reply := do
  return .seq (some (← pushMsg id role.asStr body))

def terminal (status : MatchStatus) : Bool :=
  status = .cancelled ∨ status = .closed

/-! ## Messages -/

def acceptMatch (role : SwapRole) (now : Nat) (m : Match) : Except Reply Match :=
  match m.status with
  | .proposed =>
    if sideOf role m.accepted then .error (.seq none)
    else if m.terms.acceptBy < now then .error (.err 409 "accept deadline passed")
    else
      let accepted := setSide role m.accepted true
      .ok { m with
        accepted := accepted
        status := if accepted = (true, true) then .accepted else m.status }
  | .accepted => .error (.seq none)
  | _ => .error (.err 409 "match is past acceptance")

def acceptSection (id : String) (role : SwapRole) (now : Nat) : StoreM Reply :=
  updateMatch id .noSuchMatch (acceptMatch role now) fun _ => pushed id role .accept

def keysMatch (role : SwapRole) (keys : KeysHex) (m : Match) : Except Reply Match :=
  if terminal m.status then .error (.err 409 "match is over")
  else
    match sideOf role m.keys with
    | some existing =>
      if existing = keys then .error (.seq none)
      else .error (.err 409 "different keys are already recorded")
    | none => .ok { m with keys := setSide role m.keys (some keys) }

def keysSection (id : String) (role : SwapRole) (keys : KeysHex) : StoreM Reply :=
  updateMatch id .noSuchMatch (keysMatch role keys) fun _ =>
    pushed id role (.keys keys.1 keys.2)

def hashlockMatch (hash : String) (m : Match) : Except Reply Match :=
  if terminal m.status then .error (.err 409 "match is over")
  else
    match m.hashlock with
    | some existing =>
      if existing = hash then .error (.seq none)
      else .error (.err 409 "a different hashlock is already recorded")
    | none => .ok { m with hashlock := some hash }

def hashlockSection (id : String) (hash : String) (nonce : Option String) : StoreM Reply :=
  updateMatch id .noSuchMatch (hashlockMatch hash) fun _ =>
    pushed id .initiator (.hashlock hash nonce)

/-- A match with the release branch, cancelled, with the initiator's XBT locked
and nothing of the participant's. -/
def releasable (m : Match) : Bool :=
  contractV2 ≤ m.terms.contractVersion ∧ m.status = .cancelled ∧ m.xbtFunding.isSome ∧
    m.btcFunding = none

def notReleasable : Reply :=
  .err 409 "a release is only for a cancelled match with only the XBT locked"

def maxReleaseTxs : Nat := 4

/-- One release transaction of a request: a single-input spend of the funding,
re-encoded. -/
def releaseTx (codec : Codec) (funding : Option OutPoint) (text : String) : Except Reply String :=
  match ((hexDecode text).filter (·.length ≤ 1000)).bind codec.deserialize with
  | none => .error (.err 400 "release transactions must be hex transactions of at most 1000 bytes")
  | some tx =>
    match tx.input with
    | [only] =>
      if some only.previousOutput = funding then .ok (codec.toHex tx)
      else .error (.err 400 "a release spends exactly the match's XBT HTLC")
    | _ => .error (.err 400 "a release spends exactly the match's XBT HTLC")

def releaseTxs (codec : Codec) (txs : List String) (xbtFunding : Outpoint) :
    Except Reply (List String) :=
  if txs = [] ∨ maxReleaseTxs < txs.length then
    .error (.err 400 "a release request carries 1 to 4 transactions")
  else
    let funding := (Txid.fromStr xbtFunding.1).map fun txid => ⟨txid, xbtFunding.2⟩
    txs.mapM (releaseTx codec funding)

def releaseRequestMatch (txs : Outpoint → Except Reply (List String)) (m : Match) :
    Except Reply Match :=
  if releasable m then
    match m.xbtFunding with
    | none => .error notReleasable
    | some funding =>
      match txs funding with
      | .error reply => .error reply
      | .ok txs =>
        match m.releaseTxs with
        | some existing =>
          if existing = txs then .error (.seq none)
          else .error (.err 409 "a different release request is already recorded")
        | none => .ok { m with releaseTxs := some txs }
  else .error notReleasable

def releaseRequestSection (codec : Codec) (id : String) (txs : List String) : StoreM Reply :=
  updateMatch id .noSuchMatch (releaseRequestMatch (releaseTxs codec txs)) fun changed =>
    pushed id .initiator (.releaseRequest (changed.releaseTxs.getD []))

def releaseMatch (sigs : List String) (m : Match) : Except Reply Match :=
  if releasable m then
    match m.releaseTxs with
    | none => .error (.err 409 "no release was asked for")
    | some txs =>
      if sigs.length ≠ txs.length then .error (.err 400 "one signature per release transaction")
      else
        match m.releaseSigs with
        | some existing =>
          if existing = sigs then .error (.seq none)
          else .error (.err 409 "a different release is already recorded")
        | none => .ok { m with releaseSigs := some sigs }
  else .error notReleasable

def releaseSection (id : String) (sigs : List String) : StoreM Reply :=
  updateMatch id .noSuchMatch (releaseMatch sigs) fun _ => pushed id .participant (.release sigs)

/-- The status a side's `funded` needs, and the one it leads to. -/
def fundedNeeds : SwapRole → MatchStatus
  | .initiator => .accepted
  | .participant => .initiatorFunded

def fundedNext : SwapRole → MatchStatus
  | .initiator => .initiatorFunded
  | .participant => .participantFunded

def fundedMatch (role : SwapRole) (outpoint : Outpoint) (m : Match) : Except Reply Match :=
  let slot := m.funding role.sendChain
  if slot = some outpoint ∧ m.status ≠ fundedNeeds role then .error (.seq none)
  else if slot.isSome ∧ slot ≠ some outpoint then
    .error (.err 409 "a different funding is already recorded")
  else if m.status ≠ fundedNeeds role then .error (.err 409 "not your turn to fund")
  else .ok { m.setFunding role.sendChain outpoint with status := fundedNext role }

def fundedSection (id : String) (role : SwapRole) (outpoint : Outpoint) : StoreM Reply :=
  updateMatch id .noSuchMatch (fundedMatch role outpoint) fun _ =>
    pushed id role (.funded role.sendChain.asStr outpoint.1 outpoint.2)

def recordMatch (chain : Chain) (want : Outpoint) (m : Match) : Except (Except Reply Unit) Match :=
  match m.funding chain with
  | some existing =>
    if existing = want then .error (.ok ())
    else .error (.error (.err 409 "a different funding was recorded meanwhile"))
  | none => .ok (m.setFunding chain want)

def recordSection (id : String) (chain : Chain) (want : Outpoint) : StoreM (Except Reply Unit) :=
  updateMatch id (.error .noSuchMatch) (recordMatch chain want) fun _ => pure (.ok ())

inductive Reinstate
  | done
  | notMined
  | minedLate
  | notEligible

/-- Cancelled only for the participant's deadline, and never released. -/
def eligible (m : Match) : Bool :=
  m.missedParticipantDeadline ∧ m.status = .cancelled ∧ m.releaseSigs = none

/-- The write of `reinstate_if_funded_in_time`, once the funding `txid` was
found mined in time. -/
def reinstateSection (id : String) (txid : String) : StoreM Reinstate := do
  match (← get).getMatch id with
  | none => return .notEligible
  | some m =>
    if eligible m ∧ m.btcFunding.map Prod.fst = some txid then
      match m.closedAt with
      | some struckAt => removeStrike m.participantToken struckAt
      | none => pure ()
      putMatch { m with
        status := .participantFunded
        missedParticipantDeadline := false
        closedAt := none }
      return .done
    else return .notEligible

variable (seen : Match)

/-- The write of `start_participant_clock`, for the match `seen` before the lock. -/
def clockMatch (fundBy : Nat) (m : Match) : Except Bool Match :=
  if m.status ≠ .initiatorFunded ∨ m.participantFundBy.isSome ∨
    m.xbtFunding ≠ seen.xbtFunding then
    .error false
  else .ok { m with participantFundBy := some fundBy }

/-- Whether the clock was started here: the deadline is relayed only then. -/
def clockSection (fundBy : Nat) : StoreM Bool :=
  updateMatch seen.id false (clockMatch seen fundBy) fun _ => pure true

def closeMatch (now : Nat) (m : Match) : Except Unit Match :=
  if m.status ≠ seen.status ∨ m.xbtFunding ≠ seen.xbtFunding ∨ m.btcFunding ≠ seen.btcFunding then
    .error ()
  else .ok { m with status := .closed, closedAt := some now }

def closeSection (now : Nat) : StoreM Unit :=
  if seen.status = .initiatorFunded ∨ seen.status = .participantFunded then
    updateMatch seen.id () (closeMatch seen now) fun _ => pure ()
  else pure ()

/-- A posted offer's data once the route has checked it; `codes` are the share
codes drawn for a private one. -/
structure NewOffer where
  token : String
  secretHash : Fixed 32
  direction : Direction
  (amountSat priceSatPerXbt createdAt expiresIn : Nat)
  isPrivate : Bool
  codes : List String
  (clientId recoveryTag : Option String)

def unusedShareCode (store : Store) (codes : List String) : Option String :=
  (codes.take 8).find? fun code => store.offerByCode code = none

def NewOffer.toOffer (post : NewOffer) (id : String) (shareCode : Option String) : Offer where
  id := id
  token := post.token
  secretHash := post.secretHash
  direction := post.direction
  amountSat := post.amountSat
  priceSatPerXbt := post.priceSatPerXbt
  createdAt := post.createdAt
  expiresAt := addU64 post.createdAt post.expiresIn
  isPrivate := post.isPrivate
  shareCode := shareCode
  status := .opened
  matchId := none
  clientId := post.clientId
  recoveryTag := post.recoveryTag

/-- The share code a post carries. -/
def shareCodeFor (post : NewOffer) : StoreM (Option String) := do
  if post.isPrivate then
    match unusedShareCode (← get) post.codes with
    | some code => return some code
    | none => throw (.bail "no free share code")
  else return none

/-- Look up the idempotency key and insert: the offer and whether it is new. -/
def createSection (post : NewOffer) : StoreM (Offer × Bool) := do
  match post.clientId.bind ((← get).offerByClient post.token) with
  | some existing => return (existing, false)
  | none =>
    let shareCode ← shareCodeFor post
    let offer := post.toOffer (← newId) shareCode
    putOffer offer
    return (offer, true)

def withdraw (offer : Offer) : StoreM Unit := putOffer { offer with status := .cancelled }

def cancelOfferSection (id : String) (presented : Option (Fixed 32)) :
    StoreM (Except Reply Offer) := do
  match (← get).offer id with
  | none => return .error (.err 404 "no such offer")
  | some offer =>
    if presented ≠ some offer.secretHash then
      return .error (.err 403 "wrong or missing X-Swap-Secret")
    if offer.status ≠ .opened then
      return .error (.err 409 "only an unmatched offer can be cancelled")
    withdraw offer
    return .ok { offer with status := .cancelled }

def dropRemainderSection (takerId : String) : StoreM Unit := do
  match (← get).offer takerId with
  | none => return
  | some offer => if offer.status = .opened then withdraw offer

def ownFunded (m : Match) (offerId : String) : Bool :=
  if m.initiatorOffer = offerId then m.xbtFunding.isSome else m.btcFunding.isSome

def chosenMatch (store : Store) (offer : Offer) : Option Match :=
  let all := store.offerMatches offer.id
  let id := ((all.reverse.find? (ownFunded · offer.id)).map Match.id).or
    (offer.matchId.or (all.getLast?.map Match.id))
  id.bind store.getMatch

def roleOf (m : Match) (offerId : String) : SwapRole :=
  if m.initiatorOffer = offerId then .initiator else .participant

def Match.setSecret (m : Match) (role : SwapRole) (hash : Fixed 32) : Match :=
  match role with
  | .initiator => { m with initiatorSecretHash := hash }
  | .participant => { m with participantSecretHash := hash }

structure Recovered where
  tag : String
  offer : Option Offer
  matched : Option (Match × SwapRole)
  ownerSecret : Option String

def rekey (m : Match) (offerId : String) (secret : String × Fixed 32) : StoreM Match := do
  let m := m.setSecret (roleOf m offerId) secret.2
  putMatch m
  setSecretHash offerId secret.2
  return m

/-- The tags in turn; `secrets` are the owner secrets drawn on the way. -/
def recoverTags (tagHash : String → String) (claim : Bool) :
    List String → List (String × Fixed 32) → StoreM (List Recovered)
  | [], _ => return []
  | tag :: rest, secrets => do
    let store ← get
    if !store.tagHeld (tagHash tag) then recoverTags tagHash claim rest secrets
    else
      match store.offerByTag (tagHash tag) with
      | none => return ⟨tag, none, none, none⟩ :: (← recoverTags tagHash claim rest secrets)
      | some offer =>
        match chosenMatch store offer with
        | none =>
          return ⟨tag, some offer, none, none⟩ :: (← recoverTags tagHash claim rest secrets)
        | some m =>
          if ownFunded m offer.id && claim then
            match secrets with
            | [] => throw (.bail "CSPRNG")
            | secret :: left =>
              let m ← rekey m offer.id secret
              return ⟨tag, some offer, some (m, roleOf m offer.id), some secret.1⟩ ::
                (← recoverTags tagHash claim rest left)
          else
            return ⟨tag, some offer, some (m, roleOf m offer.id), none⟩ ::
              (← recoverTags tagHash claim rest secrets)

/-- What an edge runs with: its matching configuration, the transaction
encoding and the hash of recovery tags. -/
structure EdgeEnv where
  config : Matching
  codec : Codec
  tagHash : String → String

inductive LockedOp
  | create (post : NewOffer)
  | matchOffer (incoming : Offer) (now : Nat)
  | rematch (now : Nat)
  | takePrivate (code : String) (taker : Offer) (now : Nat)
  | takePublic (offerId : String) (taker : Offer) (now : Nat)
  | dropRemainder (takerId : String)
  | cancelOffer (id : String) (presented : Option (Fixed 32))
  | decline (matchId : String) (side : SwapRole) (now : Nat)
  | tick (now : Nat)
  | accept (id : String) (role : SwapRole) (now : Nat)
  | keys (id : String) (role : SwapRole) (relayed : KeysHex)
  | hashlock (id hash : String) (nonce : Option String)
  | releaseRequest (id : String) (txs : List String)
  | release (id : String) (sigs : List String)
  | funded (id : String) (role : SwapRole) (outpoint : Outpoint)
  | record (id : String) (chain : Chain) (want : Outpoint)
  | reinstate (id txid : String)
  | clock (seen : Match) (fundBy : Nat)
  | close (seen : Match) (now : Nat)
  | recover (tags : List String) (claim : Bool) (secrets : List (String × Fixed 32))

def withNewId {α : Type} (offer : Offer) (next : Offer → StoreM α) : StoreM α := do
  let id ← newId
  next { offer with id := id }

def LockedOp.run (env : EdgeEnv) : LockedOp → StoreM Unit
  | .create post => do let _ ← createSection post
  | .matchOffer incoming now => do let _ ← Edge.matchOffer env.config incoming now
  | .rematch now => Edge.rematch env.config now
  | .takePrivate code taker now => do
    let _ ← withNewId taker fun taker => Edge.takePrivate env.config code taker now
  | .takePublic offerId taker now => do
    let _ ← withNewId taker fun taker => Edge.takePublic env.config offerId taker now
  | .dropRemainder takerId => dropRemainderSection takerId
  | .cancelOffer id presented => do let _ ← cancelOfferSection id presented
  | .decline matchId side now => onDecline matchId side now
  | .tick now => Edge.tick now
  | .accept id role now => do let _ ← acceptSection id role now
  | .keys id role relayed => do let _ ← keysSection id role relayed
  | .hashlock id hash nonce => do let _ ← hashlockSection id hash nonce
  | .releaseRequest id txs => do let _ ← releaseRequestSection env.codec id txs
  | .release id sigs => do let _ ← releaseSection id sigs
  | .funded id role outpoint => do let _ ← fundedSection id role outpoint
  | .record id chain want => do let _ ← recordSection id chain want
  | .reinstate id txid => do let _ ← reinstateSection id txid
  | .clock seen fundBy => do let _ ← clockSection seen fundBy
  | .close seen now => closeSection seen now
  | .recover tags claim secrets => do let _ ← recoverTags env.tagHash claim tags secrets

end Fortis.Edge
