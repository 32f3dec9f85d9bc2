import Fortis.Core.Terms
import Fortis.Lib.Prog
import Fortis.Lib.Table

/-!
# The edge's swap store

Offers, matches, relayed messages, watch jobs, strikes and recovery tags, each in its own column
family, which is a keyed table.  `ids` is the supply of random ids that `newId` draws from.
Operations are programs over the store: an exception keeps what was written before it.
-/

namespace Fortis.Edge

open Fortis.Core Lib Table

inductive Direction
  | xbtToBtc
  | btcToXbt
  deriving DecidableEq

namespace Direction

def opposite : Direction → Direction
  | xbtToBtc => btcToXbt
  | btcToXbt => xbtToBtc

end Direction

inductive OfferStatus
  | opened
  | matched
  | cancelled
  | expired
  | filled
  deriving DecidableEq

/-- One posted offer; `amountSat` is on the owner's own send chain. -/
structure Offer where
  (id token : String)
  secretHash : Fixed 32
  direction : Direction
  (amountSat priceSatPerXbt createdAt expiresAt : Nat)
  isPrivate : Bool
  shareCode : Option String
  status : OfferStatus
  (matchId clientId recoveryTag : Option String)
  deriving DecidableEq

inductive MatchStatus
  | proposed
  | accepted
  | initiatorFunded
  | participantFunded
  | closed
  | cancelled
  deriving DecidableEq

abbrev KeysHex := String × String

abbrev Outpoint := String × Nat

/-- One match.  Pairs are `(initiator, participant)`. -/
structure Match where
  id : String
  terms : SwapTerms
  (initiatorOffer participantOffer initiatorToken participantToken : String)
  (initiatorSecretHash participantSecretHash : Fixed 32)
  accepted : Bool × Bool
  status : MatchStatus
  (xbtFunding btcFunding : Option Outpoint)
  participantFundBy : Option Nat
  preMatchAmounts : Nat × Nat
  closedAt : Option Nat
  keys : Option KeysHex × Option KeysHex
  hashlock : Option String
  missedParticipantDeadline : Bool
  (releaseTxs releaseSigs : Option (List String))
  deriving DecidableEq

def Match.funding (m : Match) : Chain → Option Outpoint
  | .xbt => m.xbtFunding
  | .btc => m.btcFunding

inductive WatchKind
  | refund
  | redeem
  | waitingRedeem (pubkeyHex witnessScriptHex : String) (sigsHex : List String)
  deriving DecidableEq

def WatchKind.keyTag : WatchKind → String
  | refund => "refund"
  | redeem => "redeem"
  | waitingRedeem .. => "waiting_redeem"

structure WatchJob where
  matchId : String
  chain : Chain
  kind : WatchKind
  htlc : Outpoint
  notBefore : Nat
  variants : List String
  done : Bool
  sentPrevout : Option (Nat × String)
  deriving DecidableEq

inductive Relay
  | accept
  | decline
  | keys (xbt btc : String)
  | hashlock (hex : String) (nonce : Option String)
  | funded (chain txid : String) (vout : Nat)
  | releaseRequest (txs : List String)
  | release (sigs : List String)
  | deadline (participantFundBy : Nat)
  deriving DecidableEq

structure RelayedMsg where
  matchId : String
  seq : Nat
  fromRole : String
  body : Relay
  deriving DecidableEq

abbrev Offers := Table String Offer Offer.id
abbrev Matches := Table String Match Match.id
abbrev Msgs := Table (String ×ₗ Nat) RelayedMsg (fun msg => toLex (msg.matchId, msg.seq))
abbrev Watches := Table (String ×ₗ String ×ₗ String) WatchJob
  (fun job => toLex (job.matchId, toLex (job.chain.asStr, job.kind.keyTag)))
abbrev Strikes := Table String (String × List Nat) Prod.fst
abbrev Tags := Table String (String × String) Prod.fst

structure Store where
  cfOffers : Offers
  cfMatches : Matches
  cfMsgs : Msgs
  cfWatch : Watches
  cfStrikes : Strikes
  cfTags : Tags
  ids : List String

def Store.opened (ids : List String) : Store :=
  ⟨.empty, .empty, .empty, .empty, .empty, .empty, ids⟩

/-- How an operation can end early: an error of its own, a refused write, or
an arithmetic fault. -/
inductive Fail
  | bail (text : String)
  | write (text : String)
  | fault
  deriving DecidableEq

abbrev StoreM := EStateM Fail Store

def tagUsed : String := "this swap index was used before"

def strikeWindowSecs : Nat := 24 * 3600

namespace Store

def offer (store : Store) (id : String) : Option Offer := store.cfOffers.get? id

def allOffers (store : Store) : List Offer := store.cfOffers.rows

def olderOrSame (first second : Offer) : Prop :=
  first.createdAt < second.createdAt ∨ (first.createdAt = second.createdAt ∧ first.id ≤ second.id)

instance : DecidableRel olderOrSame := fun first second => by
  unfold olderOrSame
  infer_instance

variable (store : Store)

def openOffers (direction : Direction) : List Offer :=
  (store.allOffers.filter fun offer =>
    offer.status = .opened ∧ offer.direction = direction).insertionSort olderOrSame

def offerByCode (code : String) : Option Offer :=
  store.allOffers.find? fun offer => offer.shareCode = some code

def offerByClient (token clientId : String) : Option Offer :=
  store.allOffers.find? fun offer => offer.token = token ∧ offer.clientId = some clientId

def tagHeld (hash : String) : Bool := (store.cfTags.get? hash).isSome

def offerByTag (hash : String) : Option Offer := do
  let (_, id) ← store.cfTags.get? hash
  store.offer id

def getMatch (id : String) : Option Match := store.cfMatches.get? id

def allMatches : List Match := store.cfMatches.rows

def matchesFundedBy (chain : Chain) (txid : String) (vout : Nat) : List Match :=
  store.allMatches.filter fun m => m.funding chain = some (txid, vout)

def offerMatches (offerId : String) : List Match :=
  (store.allMatches.filter fun m =>
    m.initiatorOffer = offerId ∨ m.participantOffer = offerId).insertionSort
      (fun first second => first.terms.matchedAt ≤ second.terms.matchedAt)

def msgsAfter (matchId : String) (seq : Nat) : List RelayedMsg :=
  store.cfMsgs.rows.filter fun msg => msg.matchId = matchId ∧ seq < msg.seq

def watchJobs : List WatchJob := store.cfWatch.rows

def strikeTimes (token : String) : List Nat :=
  ((store.cfStrikes.get? token).map Prod.snd).getD []

end Store

def inWindow (time now : Nat) : Bool := time ≤ now && now - time < strikeWindowSecs

def Store.strikes (store : Store) (token : String) (now : Nat) : Nat :=
  ((store.strikeTimes token).filter (inWindow · now)).length

def putOffer (offer : Offer) : StoreM Unit := do
  match offer.recoveryTag with
  | none => pure ()
  | some tag =>
    match (← get).cfTags.get? tag with
    | some (_, id) => if id ≠ offer.id then throw (.write tagUsed)
    | none => modify fun store => { store with cfTags := store.cfTags.put (tag, offer.id) }
  modify fun store => { store with cfOffers := store.cfOffers.put offer }

def putMatch (m : Match) : StoreM Unit :=
  modify fun store => { store with cfMatches := store.cfMatches.put m }

def putWatch (job : WatchJob) : StoreM Unit :=
  modify fun store => { store with cfWatch := store.cfWatch.put job }

def pushMsg (matchId fromRole : String) (body : Relay) : StoreM Nat := do
  let last := ((← get).msgsAfter matchId 0).getLast?.elim 0 RelayedMsg.seq
  let seq := last + 1
  modify fun store =>
    { store with cfMsgs := store.cfMsgs.put ⟨matchId, seq, fromRole, body⟩ }
  return seq

def addStrike (token : String) (now : Nat) : StoreM Unit :=
  modify fun store =>
    let times := (store.strikeTimes token).filter (inWindow · now) ++ [now]
    { store with cfStrikes := store.cfStrikes.put (token, times) }

def removeStrike (token : String) (struckAt : Nat) : StoreM Unit :=
  modify fun store =>
    let times := store.strikeTimes token
    if struckAt ∈ times then
      { store with cfStrikes := store.cfStrikes.put (token, times.erase struckAt) }
    else store

def setSecretHash (offerId : String) (hash : Fixed 32) : StoreM Unit := do
  match (← get).offer offerId with
  | none => throw (.bail ("no offer " ++ offerId))
  | some offer => putOffer { offer with secretHash := hash }

def newId : StoreM String := do
  match (← get).ids with
  | [] => throw (.bail "CSPRNG")
  | id :: rest =>
    modify fun store => { store with ids := rest }
    return id

/-! ## What a write leaves -/

variable {m : Match} {store : Store} {id tag : String}

namespace Store

def saveMatch (store : Store) (m : Match) : Store :=
  { store with cfMatches := store.cfMatches.put m }

def claimTag (store : Store) (offer : Offer) : Tags :=
  match offer.recoveryTag with
  | none => store.cfTags
  | some tag =>
    if store.cfTags.get? tag = none then store.cfTags.put (tag, offer.id) else store.cfTags

def saveOffer (store : Store) (offer : Offer) : Store :=
  { store with cfTags := store.claimTag offer, cfOffers := store.cfOffers.put offer }

def TagOk (store : Store) (offer : Offer) : Prop :=
  ∀ tag holder, offer.recoveryTag = some tag → store.cfTags.get? tag = some holder →
    holder.2 = offer.id

theorem offer_saveOffer (store : Store) (offer : Offer) (id : String) :
    (store.saveOffer offer).offer id = if id = offer.id then some offer else store.offer id :=
  get?_put _ _ _

theorem getMatch_saveMatch (store : Store) (m : Match) (id : String) :
    (store.saveMatch m).getMatch id = if id = m.id then some m else store.getMatch id :=
  get?_put _ _ _

theorem saveOffer_saveMatch (store : Store) (m : Match) (offer : Offer) :
    (store.saveMatch m).saveOffer offer = (store.saveOffer offer).saveMatch m := rfl

variable {offer : Offer}

theorem id_of_offer (found : store.offer id = some offer) : offer.id = id := key_of_get? found

theorem id_of_getMatch (found : store.getMatch id = some m) : m.id = id := key_of_get? found

theorem getMatch_self (found : store.getMatch id = some m) : store.getMatch m.id = some m :=
  id_of_getMatch found ▸ found

theorem claimTag_of_held (held : store.cfTags.get? tag = some (tag, id)) :
    (store.claimTag offer).get? tag = some (tag, id) := by
  unfold claimTag
  rcases offer.recoveryTag with _ | own
  · exact held
  dsimp only
  split
  next free =>
    have ne : tag ≠ own := by
      rintro rfl
      simp [held] at free
    rw [get?_put_of_ne _ ne]
    exact held
  · exact held

theorem claimTag_own (free : store.TagOk offer) (own : offer.recoveryTag = some tag) :
      (store.claimTag offer).get? tag = some (tag, offer.id) := by
  simp only [claimTag, own]
  rcases found : store.cfTags.get? tag with _ | holder
  · rw [if_pos rfl]
    exact get?_put_self store.cfTags (tag, offer.id)
  have key : holder.1 = tag := key_of_get? found
  have mine : holder.2 = offer.id := free tag holder own found
  rw [if_neg (by simp), found, ← key, ← mine]

end Store

variable {fail : Fail → Store → Prop} {post : Unit → Store → Prop}

theorem wp_putMatch : wp (putMatch m) post fail store = post () (store.saveMatch m) := rfl

/-- A write of an offer succeeds exactly when its tag is free or its own. -/
theorem wp_putOffer {offer : Offer} (saved : store.TagOk offer → post () (store.saveOffer offer))
    (refused : ¬ store.TagOk offer → fail (.write tagUsed) store) :
    wp (putOffer offer) post fail store := by
  rcases own : offer.recoveryTag with _ | tag
  · have free : store.TagOk offer := fun tag holder some' => by simp [own] at some'
    have done := saved free
    simpa [putOffer, own, Store.saveOffer, Store.claimTag] using done
  rcases found : store.cfTags.get? tag with _ | holder
  · have free : store.TagOk offer := fun other holder own' found' => by
      rw [own] at own'
      cases own'
      simp [found] at found'
    have done := saved free
    simpa [putOffer, own, found, Store.saveOffer, Store.claimTag] using done
  by_cases mine : holder.2 = offer.id
  · have free : store.TagOk offer := fun other holder' own' found' => by
      rw [own] at own'
      cases own'
      rw [found] at found'
      cases found'
      exact mine
    have done := saved free
    simpa [putOffer, own, found, mine, Store.saveOffer, Store.claimTag] using done
  have taken : ¬ store.TagOk offer := fun free => mine (free tag holder own found)
  have done := refused taken
  simpa [putOffer, own, found, mine] using done

end Fortis.Edge
