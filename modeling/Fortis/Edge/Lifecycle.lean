import Fortis.Edge.Agreement
import Fortis.Edge.MatchRuns

/-!
# The life of a match

Under every interleaving of the routes, recovery and the watchtower a match
moves along a fixed graph of statuses, and what it records once it records for
good: its terms, each party's keys, the hashlock, each funding, the
participant's deadline, the release transactions and the release signatures.
-/

namespace Fortis.Edge

open Fortis.Core Lib Option Relation

/-- The moves of a match's status. -/
inductive StatusEdge : MatchStatus → MatchStatus → Prop
  | accepts : StatusEdge .proposed .accepted
  | initiatorFunds : StatusEdge .accepted .initiatorFunded
  | participantFunds : StatusEdge .initiatorFunded .participantFunded
  | closes : StatusEdge .participantFunded .closed
  | closesUnmatched : StatusEdge .initiatorFunded .closed
  | cancelsProposed : StatusEdge .proposed .cancelled
  | cancelsAccepted : StatusEdge .accepted .cancelled
  | cancelsFunded : StatusEdge .initiatorFunded .cancelled
  | reinstates : StatusEdge .cancelled .participantFunded

/-- What `m` has set, `now` still has. -/
structure SetOnce (m now : Match) : Prop where
  terms : now.terms = m.terms
  keys : ∀ {role keys}, sideOf role m.keys = some keys → sideOf role now.keys = some keys
  hashlock : ∀ {hash}, m.hashlock = some hash → now.hashlock = some hash
  funding : ∀ {chain outpoint}, m.funding chain = some outpoint → now.funding chain = some outpoint
  fundBy : ∀ {time}, m.participantFundBy = some time → now.participantFundBy = some time
  releaseTxs : ∀ {txs}, m.releaseTxs = some txs → now.releaseTxs = some txs
  releaseSigs : ∀ {sigs}, m.releaseSigs = some sigs → now.releaseSigs = some sigs

theorem SetOnce.refl (m : Match) : SetOnce m m := ⟨rfl, id, id, id, id, id, id⟩

theorem SetOnce.trans {first second third : Match} (early : SetOnce first second)
    (late : SetOnce second third) : SetOnce first third where
  terms := late.terms.trans early.terms
  keys set := late.keys (early.keys set)
  hashlock set := late.hashlock (early.hashlock set)
  funding set := late.funding (early.funding set)
  fundBy set := late.fundBy (early.fundBy set)
  releaseTxs set := late.releaseTxs (early.releaseTxs set)
  releaseSigs set := late.releaseSigs (early.releaseSigs set)

theorem setOnce_setFunding {m : Match} {chain : Chain} {outpoint : Outpoint}
    (slot : m.funding chain = none ∨ m.funding chain = some outpoint) :
    SetOnce m (m.setFunding chain outpoint) := by
  have kept : ∀ {leg found}, m.funding leg = some found →
      (m.setFunding chain outpoint).funding leg = some found := by
    intro leg found set
    rw [funding_setFunding]
    split
    next same =>
      subst same
      rcases slot with unset | set'
      · rw [unset] at set
        cases set
      · exact set'.symm.trans set
    · exact set
  cases chain <;> exact ⟨rfl, id, id, kept, id, id, id⟩

variable {m now : Match}

theorem MatchStep.setOnce (step : MatchStep m now) : SetOnce m now := by
  have fresh : ∀ {α : Type} {slot : Option α} {old : α} {now : Option α}, slot = none →
      slot = some old → now = some old := by
    rintro α slot old now rfl set
    cases set
  cases step with
  | keys role keys live unset =>
    refine { SetOnce.refl m with keys := fun {side found} set => ?_ }
    cases role <;> cases side
    · exact fresh unset set
    · exact set
    · exact set
    · exact fresh unset set
  | hashlock hash live unset => exact { SetOnce.refl m with hashlock := fresh unset }
  | requests txs finished unset => exact { SetOnce.refl m with releaseTxs := fresh unset }
  | releases sigs finished unset => exact { SetOnce.refl m with releaseSigs := fresh unset }
  | funds role outpoint turn slot => exact { setOnce_setFunding slot with }
  | records chain outpoint unset => exact setOnce_setFunding (.inl unset)
  | clock fundBy turn unset => exact { SetOnce.refl m with fundBy := fresh unset }
  | rekeys role hash => cases role <;> exact { SetOnce.refl m with }
  | accepts | reinstates | closes | cancels | misses => exact { SetOnce.refl m with }

theorem MatchStep.statusEdge (step : MatchStep m now) :
    now.status = m.status ∨ StatusEdge m.status now.status := by
  cases step with
  | accepts accepted proposed =>
    split
    · rw [proposed]
      exact .inr .accepts
    · exact .inl rfl
  | keys | hashlock | requests | releases | clock => exact .inl rfl
  | records chain => cases chain <;> exact .inl rfl
  | rekeys role => cases role <;> exact .inl rfl
  | funds role outpoint turn slot =>
    rw [turn]
    cases role
    · exact .inr .initiatorFunds
    · exact .inr .participantFunds
  | reinstates missed funded =>
    simp only [eligible, decide_eq_true_eq] at missed
    rw [missed.2.1]
    exact .inr .reinstates
  | closes now funded =>
    rcases funded with turn | turn <;> rw [turn]
    · exact .inr .closesUnmatched
    · exact .inr .closes
  | cancels now early =>
    rcases early with turn | ⟨turn, _⟩ <;> rw [turn]
    · exact .inr .cancelsProposed
    · exact .inr .cancelsAccepted
  | misses now turn unfunded late =>
    rw [turn]
    exact .inr .cancelsFunded

theorem Moved.setOnce (moved : Moved m now) : SetOnce m now := by
  rcases moved with ⟨_, _, rfl⟩ | step
  · exact { SetOnce.refl m with }
  · exact step.setOnce

theorem Moved.statusEdge (moved : Moved m now) :
    now.status = m.status ∨ StatusEdge m.status now.status := by
  rcases moved with ⟨_, _, rfl⟩ | step
  · exact .inl rfl
  · exact step.statusEdge

theorem setOnce_of_moves (moves : ReflTransGen Moved m now) : SetOnce m now := by
  induction moves with
  | refl => exact SetOnce.refl m
  | tail _ moved ih => exact ih.trans moved.setOnce

theorem statusPath_of_moves (moves : ReflTransGen Moved m now) :
    ReflTransGen StatusEdge m.status now.status := by
  induction moves with
  | refl => exact .refl
  | tail _ moved ih =>
    rcases moved.statusEdge with same | edge
    · exact same ▸ ih
    · exact ih.tail edge

/-- Every match starts as proposed, moves along `StatusEdge`, and keeps what it has set. -/
theorem match_lifecycle (sw : Swap) {ids : List String} (distinct : ids.Nodup)
    (moves later : EdgeRun) {id : String} {m now : Match}
    (stored : (storeAfter sw ids moves).getMatch id = some m)
    (held : (storeAfter sw ids (moves ++ later)).getMatch id = some now) :
    ReflTransGen StatusEdge .proposed m.status ∧ ReflTransGen StatusEdge m.status now.status ∧
      (∀ step, later = [step] → now.status = m.status ∨ StatusEdge m.status now.status) ∧
      SetOnce m now := by
  have fresh := fresh_storeAfter sw distinct moves
  have moved := (follows_between sw ids moves later).moved fresh stored held
  refine ⟨?_, statusPath_of_moves moved, ?_, setOnce_of_moves moved⟩
  · obtain ⟨made, ⟨_, _, _, _, rfl⟩, path⟩ := made_storeAfter sw distinct moves stored
    exact statusPath_of_moves path
  rintro step rfl
  exact ((follows_step sw ids moves step).moved fresh stored held).statusEdge

/-! ## A run -/

namespace LifecycleSample

open HtlcSample AgreementSample

def xbtPrevout : OutPoint :=
  ⟨fixed 32 0x2222222222222222222222222222222222222222222222222222222222222222, 0⟩

def release : Transaction where
  version := 2
  lockTime := 0
  input := [⟨xbtPrevout, [], enableRbfNoLocktime, []⟩]
  output := [⟨199000, dest⟩]

def releaseRaw : Bytes :=
  (fixed 5 0x0200000001).val ++ xbtPrevout.txid.val ++ (fixed 10 0x0000000000fdffffff01).val ++
    (fixed 8 0x5809030000000000).val ++ 22 :: dest ++ (fixed 4 0).val

def pubkeyHashes : Crypto :=
  { HtlcSample.crypto with
    hash160 := fun item =>
      if item = (keys .initiator).1.serialize.val then
        fixed 20 0x7dd65592d0ab2fe0d0257d571abf032cd9db93dc
      else if item = (keys .participant).1.serialize.val then
        fixed 20 0xc42e7ef92fdb603af844d064faad95db9bcdfd3d
      else HtlcSample.crypto.hash160 item }

def xbtScript : Bytes :=
  contractScriptV2 pubkeyHashes hashlock (keys .participant).1 (keys .initiator).1 1700086400

def xbtScriptHash : Fixed 32 :=
  fixed 32 0x4a80b67f9e2b0e30b89fac9a68ee9a9430e9c7bececcd3a156227f45dcaa5955

def lib : BitcoinLib :=
  { AgreementSample.lib with
    hash160 := pubkeyHashes.hash160
    sha256 := fun item =>
      if item = xbtScript then xbtScriptHash else HtlcSample.crypto.sha256 item
    serialize := fun tx => if tx = release then releaseRaw else AgreementSample.lib.serialize tx
    deserialize := fun bytes =>
      if bytes = releaseRaw then some release else AgreementSample.lib.deserialize bytes }

def sw : Swap := ⟨lib, ⟨100000000, "bitcoin", ""⟩, fun tag => tag⟩

def secretHash : SwapRole → Fixed 32
  | .initiator => fixed 32 1
  | .participant => fixed 32 2

def post (role : SwapRole) (direction : Direction) (amountSat : Nat) : NewOffer where
  token := role.asStr
  secretHash := secretHash role
  direction := direction
  amountSat := amountSat
  priceSatPerXbt := 50000000
  createdAt := 1699913600
  expiresIn := 86400
  isPrivate := false
  codes := []
  clientId := none
  recoveryTag := none

def seller : NewOffer := post .initiator .xbtToBtc 200000
def buyer : NewOffer := post .participant .btcToXbt 100000

def view : ChainView where
  txout
    | .xbt, _, _ => .ok (some ⟨200000, hexEncode (newP2wsh xbtScriptHash), 6⟩)
    | .btc, _, _ => .ok (some ⟨100000, hexEncode contract.scriptPubkey, 1⟩)
  createdOutput
    | .xbt, _, _ => .ok (some ⟨hexEncode (newP2wsh xbtScriptHash), 200000⟩)
    | .btc, _, _ => .ok (some ⟨hexEncode contract.scriptPubkey, 100000⟩)
  txBlockTime _ _ := .ok none

/-- The chain once the XBT leg is spent or gone. -/
def spentView : ChainView := { view with txout := fun _ _ _ => .ok none }

def sends (role : SwapRole) (msg : Msg) : Request := .postMessage (some (secretHash role)) "m" msg

def sendsKeys (role : SwapRole) : Request :=
  sends role (.keys (hexEncode (keys role).1.serialize.val) (hexEncode (keys role).2.serialize.val))

def opening : List (Request × Nat) :=
  [(.offers ⟨.create seller, rfl⟩, 1), (.offers ⟨.create buyer, rfl⟩, 1),
    (.offers ⟨.matchOffer (buyer.toOffer "b" none) 1699913600, rfl⟩, 1),
    (sends .initiator .accept, 3), (sends .participant .accept, 3),
    (sendsKeys .initiator, 3), (sendsKeys .participant, 3),
    (sends .initiator (.hashlock (hexEncode hashlock.val) none), 3),
    (sends .initiator (.funded "xbt" xbtPrevout.txid.toStr 0), 5)]

def inTurn (outside : Outside) (index : Nat) : List (Request × Nat) → EdgeRun
  | [] => []
  | (request, actions) :: rest =>
    .begin request :: List.replicate actions (.act index outside) ++ inTurn outside (index + 1) rest

def supply : List String := ["s", "b", "m"]

def gone : EdgeRun :=
  inTurn ⟨1699913610, some view, false⟩ 0 opening ++
    inTurn ⟨1699913620, some spentView, false⟩ 9 [(.pass, 7)]

def closing : Move Request Outside := .act 9 ⟨1699913620, some spentView, false⟩

theorem gone_closing :
    ((storeAfter sw supply gone).getMatch "m").map Match.status = some .initiatorFunded ∧
      ((storeAfter sw supply (gone ++ [closing])).getMatch "m").map Match.status =
        some .closed := by
  decide +kernel

end LifecycleSample

open LifecycleSample

theorem match_lifecycle_closes : ∃ m now, (storeAfter sw supply gone).getMatch "m" = some m ∧
      (storeAfter sw supply (gone ++ [closing])).getMatch "m" = some now ∧
      ReflTransGen StatusEdge .proposed m.status ∧
      ReflTransGen StatusEdge m.status now.status ∧
      (∀ step, [closing] = [step] → now.status = m.status ∨ StatusEdge m.status now.status) ∧
      SetOnce m now := by
  obtain ⟨m, stored, _⟩ := map_eq_some_iff.mp gone_closing.1
  obtain ⟨now, held, _⟩ := map_eq_some_iff.mp gone_closing.2
  exact ⟨m, now, stored, held, match_lifecycle sw (by decide) gone [closing] stored held⟩

/-- One action of the watchtower takes a match from its first funding straight to closed. -/
theorem closes_unmatched : ∃ (moves : EdgeRun) (step : Move Request Outside) (m now : Match),
      (storeAfter sw supply moves).getMatch "m" = some m ∧
      (storeAfter sw supply (moves ++ [step])).getMatch "m" = some now ∧
      m.status = .initiatorFunded ∧ now.status = .closed := by
  obtain ⟨m, stored, before⟩ := map_eq_some_iff.mp gone_closing.1
  obtain ⟨now, held, after⟩ := map_eq_some_iff.mp gone_closing.2
  exact ⟨gone, closing, m, now, stored, held, before, after⟩

end Fortis.Edge
