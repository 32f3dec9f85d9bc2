import Fortis.Lsp.Holds

/-!
# Moving balances into channels

A loop looks at the accounts over the cap, plans from the free balance it read what to push into
each user's channel, holds whatever is free when it gets to the account, pushes the planned amount
and debits the whole hold once the push has arrived.  Account requests run in between.
-/

namespace Fortis.Lsp

open Fortis.Core Lib List Option Table

/-- The fee for a conversion: 1 % of the amount, at least 1,000 sat. -/
def conversionFeeMsat (movedMsat : Nat) : Nat := max (movedMsat / 100) 1000000

inductive Job
  | payOverChannel (amountMsat : Nat)
  | openChannel (channelSat pushMsat : Nat)
  /-- A balance delivery, which pushes what it holds. -/
  | deliver
  deriving DecidableEq

def plan (balanceMsat capMsat : Nat) (peerConnected : Bool) (inboundRoomMsat : Nat)
    (inProgress : Bool) (channelMinSat : Nat) : Option Job :=
  if balanceMsat ≤ capMsat ∨ peerConnected = false ∨ inProgress = true then none
  else
    let fee := conversionFeeMsat balanceMsat
    if balanceMsat ≤ fee then none
    else
      let moved := balanceMsat - fee
      if moved ≤ inboundRoomMsat then some (.payOverChannel moved)
      else some (.openChannel (max channelMinSat (2 * ((moved + 999) / 1000))) moved)

def Job.pushed (job : Job) (heldMsat : Nat) : Nat :=
  match job with
  | .payOverChannel amount | .openChannel _ amount => amount
  | .deliver => heldMsat

def Job.isDelivery : Job → Bool
  | .deliver => true
  | _ => false

/-- An account to be handled, with the free balance it was planned from. -/
structure Task where
  node : PublicKey
  freeMsat : Nat
  job : Job
  deriving DecidableEq

/-- What the node says of its peers: who is connected, and how much it can still
send to each over the channels they have. -/
structure Peers where
  connected : PublicKey → Bool
  roomMsat : PublicKey → Nat

inductive HoldName
  | pay (paymentId : Fixed 32)
  | chan (userChannelId : Nat)
  | deliver (paymentId : Fixed 32)

namespace HoldName

def id : HoldName → String
  | pay paymentId => "conv:pay:" ++ hexEncode paymentId.val
  | chan userChannelId => "conv:chan:" ++ toString userChannelId
  | deliver paymentId => "deliver:pay:" ++ hexEncode paymentId.val

def isDelivery : HoldName → Bool
  | deliver _ => true
  | _ => false

def feeMsat (name : HoldName) (heldMsat : Nat) : Nat :=
  if name.isDelivery then 0 else conversionFeeMsat heldMsat

end HoldName

def Task.pendingId (task : Task) : String :=
  (if task.job.isDelivery then "deliver:pending:" else "conv:pending:") ++ key task.node

/-- Its name after it, from the payment or channel id the node gave. -/
def Job.name (job : Job) (answer : Fixed 32 × Nat) : HoldName :=
  match job with
  | .payOverChannel _ => .pay answer.1
  | .openChannel .. => .chan answer.2
  | .deliver => .deliver answer.1

/-! ## The loop and the other thread -/

inductive Loop
  | next (tasks : List Task)
  /-- `start_conversion` has read the free balance. -/
  | counted (freeMsat : Nat) (task : Task) (rest : List Task)
  | holding (heldMsat : Nat) (task : Task) (rest : List Task)
  deriving DecidableEq

/-- What the node took: for whom, under which name, how much, and out of which hold. -/
structure Push where
  node : PublicKey
  name : HoldName
  (pushedMsat heldMsat : Nat)

def Push.feeMsat (push : Push) : Nat := push.name.feeMsat push.heldMsat

structure Converter where
  ledger : Ledger
  loop : Loop
  (pushes finished : List Push)

inductive ConvMove
  | request (op : Op)
  /-- `run_conversions` reads the accounts over the cap and plans for each. -/
  | look (capMsat channelMinSat : Nat) (peers : Peers)
  /-- `deliver_balances` does so for the accounts that hold anything. -/
  | lookDeliver (peers : Peers)
  | count
  | hold
  | send (answer : Option (Fixed 32 × Nat))
  | outcome (name : HoldName) (arrived : Bool) (now : Nat)

namespace Converter

variable (parse : String → Option PublicKey)

def overCap (capMsat : Nat) : LedgerM (List (PublicKey × Account)) := do
  let ledger ← get
  let rows := ledger.accounts.rows.filter fun row => (asI64 capMsat : Int) < row.balance.value
  (rows.filterMap fun row => (parse row.node).map fun node => (node, row.node)).mapM
    fun (node, name) => do return (node, ← accountOf name)

def busy (ledger : Ledger) : List PublicKey :=
  (ledger.holds.rows.filter fun row => row.kind = "conversion").filterMap fun row =>
    parse row.node

def holdOwner (ledger : Ledger) (id : String) : Option (PublicKey × Nat) := do
  let row ← ledger.holds.get? id
  let node ← parse row.node
  return (node, row.amountMsat)

/-- The task for an account over the cap. -/
def convert (busy : List PublicKey) (capMsat channelMinSat : Nat) (peers : Peers) :
    PublicKey × Account → Option Task
  | (node, account) =>
    (plan account.freeMsat capMsat (peers.connected node) (peers.roomMsat node)
      (decide (node ∈ busy)) channelMinSat).map fun job => ⟨node, account.freeMsat, job⟩

def delivery (busy : List PublicKey) (peers : Peers) : PublicKey × Account → Option Task
  | (node, account) =>
    if account.freeMsat < 1000 ∨ node ∈ busy ∨ peers.connected node = false ∨
        peers.roomMsat node < account.freeMsat then none
    else some ⟨node, account.freeMsat, .deliver⟩

def tasks (ledger : Ledger) (capMsat : Nat)
    (task : List PublicKey → PublicKey × Account → Option Task) : List Task :=
  match overCap parse capMsat ledger with
  | .ok accounts _ => accounts.filterMap (task (busy parse ledger))
  | .error _ _ => []

/-- What the event handler does with a hold of the loops once the node reports. -/
def resolve (name : HoldName) (heldMsat : Nat) (arrived : Bool) (now : Nat) : LedgerM PUnit :=
  if arrived then
    match name with
    | .deliver paymentId => finishConversionBy now name.id 0 (some paymentId)
    | .pay _ | .chan _ => finishConversion now name.id (conversionFeeMsat heldMsat)
  else abandonConversion name.id

def step (conv : Converter) : ConvMove → Converter
  | .request op => { conv with ledger := finalState op.exec conv.ledger }
  | .look capMsat channelMinSat peers =>
    match conv.loop with
    | .next [] => { conv with
        loop := .next (tasks parse conv.ledger capMsat fun busy =>
          convert busy capMsat channelMinSat peers) }
    | _ => conv
  | .lookDeliver peers =>
    match conv.loop with
    | .next [] => { conv with
        loop := .next (tasks parse conv.ledger 0 fun busy => delivery busy peers) }
    | _ => conv
  | .count =>
    match conv.loop with
    | .next (task :: rest) =>
      match accountOf (key task.node) conv.ledger with
      | .ok account _ => { conv with loop := .counted account.freeMsat task rest }
      | .error _ _ => { conv with loop := .next rest }
    | _ => conv
  | .hold =>
    match conv.loop with
    | .counted free task rest =>
      match holdKind task.node task.pendingId free free "conversion" conv.ledger with
      | .ok _ after => { conv with ledger := after, loop := .holding free task rest }
      | .error _ after => { conv with ledger := after, loop := .next rest }
    | _ => conv
  | .send answer =>
    match conv.loop with
    | .holding held task rest =>
      match answer with
      | some answer =>
        let name := task.job.name answer
        { conv with
          ledger := finalState (renameHold task.pendingId name.id) conv.ledger
          loop := .next rest
          pushes := conv.pushes ++ [⟨task.node, name, task.job.pushed held, held⟩] }
      | none => { conv with
          ledger := finalState (abandonConversion task.pendingId) conv.ledger
          loop := .next rest }
    | _ => conv
  | .outcome name arrived now =>
    match holdOwner parse conv.ledger name.id with
    | none => conv
    | some (_, held) =>
      match resolve name held arrived now conv.ledger with
      | .ok _ after => { conv with
          ledger := after
          finished := if arrived then
              conv.finished ++ (conv.pushes.find? fun push => push.name.id = name.id).toList
            else conv.finished }
      | .error _ after => { conv with ledger := after }

def run (conv : Converter) (moves : List ConvMove) : Converter := moves.foldl (step parse) conv

end Converter

/-- The account, amount and fee of a conversion's entry. -/
abbrev Debit := String × Int × Nat

def converted (ledger : Ledger) : List Debit :=
  (ledger.entries.filter fun row => row.kind = .converted).map fun row =>
    (row.node, row.amountMsat, row.feeMsat)

/-- What a push that arrived comes to: its account is debited what was pushed and the fee computed
for it. -/
def Push.debit (push : Push) : Debit :=
  (key push.node, -((push.pushedMsat + push.feeMsat : Nat) : Int), push.feeMsat)

/-- A hold of the loops. -/
def IsConversion (id : String) : Prop :=
  (∃ name : HoldName, id = name.id) ∨ ∃ task : Task, id = task.pendingId

/-- The balance held for a conversion is the one it was planned from, and names are new. -/
def ConvMove.Settled (conv : Converter) : ConvMove → Prop
  | .request op => (∀ id ∈ op.holdIds, ¬ IsConversion id) ∧
      ∀ row, op.MayEnter row → row.kind ≠ .converted
  | .hold => ∀ free task rest, conv.loop = .counted free task rest →
      free ≤ i64Max ∧ (task.job.isDelivery = false → free = task.freeMsat)
  | .send (some answer) => ∀ held task rest, conv.loop = .holding held task rest →
      ∀ push ∈ conv.pushes, push.name.id ≠ (task.job.name answer).id
  | _ => True

def Settled (parse : String → Option PublicKey) : Converter → List ConvMove → Prop
  | _, [] => True
  | conv, move :: rest => move.Settled conv ∧ Settled parse (conv.step parse move) rest

theorem isDelivery_of_id {first second : HoldName} (same : first.id = second.id) :
    first.isDelivery = second.isDelivery := by
  cases first <;> cases second <;> first
    | rfl
    | (have letters := congrArg String.toList same
       simp [HoldName.id, String.toList_append] at letters)

theorem name_ne_pending (name : HoldName) (task : Task) : name.id ≠ task.pendingId := by
  intro same
  have letters := congrArg String.toList same
  unfold Task.pendingId at letters
  generalize task.job.isDelivery = delivers at letters
  cases name <;> cases delivers <;>
    simp [HoldName.id, String.toList_append] at letters

theorem Job.pushed_delivery (job : Job) (heldMsat : Nat) (delivers : job.isDelivery = true) :
    job.pushed heldMsat = heldMsat := by
  cases job with
  | deliver => rfl
  | payOverChannel amountMsat => cases delivers
  | openChannel channelSat pushMsat => cases delivers

theorem Job.name_isDelivery (job : Job) (answer : Fixed 32 × Nat) :
    (job.name answer).isDelivery = job.isDelivery := by
  cases job <;> rfl

section Specs

variable {ledger : Ledger} {row : HoldRow}

theorem wp_abandon {id : String} (found : ledger.holds.get? id = some row) :
    wp (abandonConversion id) (fun _ after => after = ledger.released id)
      (fun _ _ => False) ledger := by
  rw [abandonConversion, wp_transaction, wp_bind, wp_takeHold_found found]
  rfl

def Ledger.renamed (ledger : Ledger) (old : String) (row : HoldRow) (new : String) : Ledger :=
  { ledger with holds := (ledger.holds.delete old).put { row with id := new } }

theorem wp_rename {old new : String} (found : ledger.holds.get? old = some row)
    (free : ledger.holds.get? new = none) : wp (renameHold old new)
      (fun _ after => after = ledger.renamed old row new) (fun _ _ => False) ledger := by
  unfold renameHold
  rw [wp_bind, wp_get, found]
  rw [wp_bind, wp_abortIf, if_neg fun taken => taken.2 free]
  rfl

theorem wp_finish {id : String} (found : ledger.holds.get? id = some row)
    (now fee : Nat) (hash : Option (Fixed 32)) :
    wp (finishConversionBy now id fee hash) (fun _ after => after.holds = ledger.holds.delete id ∧
        converted after =
          converted ledger ++ [(row.node, -(asI64 row.amountMsat : Int), asI64 fee)])
      (Unchanged ledger) ledger := by
  refine wp_imp (wp_closeWithShare found) fun _ after closed => ⟨closed.1, ?_⟩
  unfold converted
  rw [closed.2, filter_append, map_append, filter_cons_of_pos (by rfl)]
  rfl

/-- A push that arrived closes its hold and writes its debit; one that failed closes
the hold; or nothing is done. -/
theorem wp_resolve {name : HoldName}
    (found : ledger.holds.get? name.id = some row) (arrived : Bool) (now : Nat) :
    wp (Converter.resolve name row.amountMsat arrived now)
      (fun _ after => after.holds = ledger.holds.delete name.id ∧
        converted after = converted ledger ++ if arrived then
          [(row.node, -(asI64 row.amountMsat : Int), asI64 (name.feeMsat row.amountMsat))]
          else []) (Unchanged ledger) ledger := by
  rcases arrived with _ | _
  · refine wp_mono (wp_abandon found) (fun _ after released => ?_) nofun
    rw [released]
    exact ⟨rfl, (append_nil _).symm⟩
  cases name with
  | deliver paymentId => exact wp_finish found now 0 (some paymentId)
  | pay paymentId => exact wp_finish found now _ none
  | chan userChannelId => exact wp_finish found now _ none

end Specs

/-! ## Every push is covered by its hold -/

def Task.Exact (task : Task) : Prop :=
  task.job.isDelivery = false →
    task.freeMsat = task.job.pushed task.freeMsat + conversionFeeMsat task.freeMsat

theorem plan_exact {balanceMsat capMsat roomMsat channelMinSat : Nat} {connected inProgress : Bool}
    {job : Job} (planned : plan balanceMsat capMsat connected roomMsat inProgress channelMinSat =
      some job) (other : Nat) : balanceMsat = job.pushed other + conversionFeeMsat balanceMsat := by
  unfold plan at planned
  split at planned
  · cases planned
  dsimp only at planned
  split at planned
  · cases planned
  next covers =>
  split at planned <;>
  · cases planned
    exact (Nat.sub_add_cancel (le_of_not_ge covers)).symm

def Loop.Exact (ledger : Ledger) : Loop → Prop
  | .next tasks => ∀ task ∈ tasks, task.Exact
  | .counted _ task rest => ∀ one ∈ task :: rest, one.Exact
  | .holding held task rest => (∀ one ∈ rest, one.Exact) ∧ held ≤ i64Max ∧
      (task.job.isDelivery = false → held = task.job.pushed held + conversionFeeMsat held) ∧
      ∃ row, ledger.holds.get? task.pendingId = some row ∧ row.amountMsat = held ∧
        row.node = key task.node

/-- The holds under the names the node gave are those of the pushes it took, and
the debits are those of the pushes that arrived. -/
structure Covered (earlier : List Debit) (pushes finished : List Push) (ledger : Ledger) :
    Prop where
  exact : ∀ push ∈ pushes, push.heldMsat = push.pushedMsat + push.feeMsat ∧ push.heldMsat ≤ i64Max
  rows : ∀ push ∈ pushes, ∀ row, ledger.holds.get? push.name.id = some row →
    row.amountMsat = push.heldMsat ∧ row.node = key push.node
  owned : ∀ (name : HoldName) row, ledger.holds.get? name.id = some row →
    ∃ push ∈ pushes, push.name.id = name.id
  taken : ∀ push ∈ finished, push ∈ pushes
  debits : converted ledger = earlier ++ finished.map Push.debit

section Covered

variable {earlier : List Debit} {pushes finished : List Push} {ledger after : Ledger}

variable (covered : Covered earlier pushes finished ledger)
include covered

theorem Covered.elsewhere
    (holds : ∀ name : HoldName, after.holds.get? name.id = ledger.holds.get? name.id)
    (same : converted after = converted ledger) : Covered earlier pushes finished after where
  exact := covered.exact
  rows push mem row found := covered.rows push mem row ((holds push.name).symm.trans found)
  owned name row found := covered.owned name row ((holds name).symm.trans found)
  taken := covered.taken
  debits := same.trans covered.debits

theorem Covered.renamed (task : Task)
    {row : HoldRow} (push : Push) (new : ∀ one ∈ pushes, one.name.id ≠ push.name.id)
    (amount : row.amountMsat = push.heldMsat) (node : row.node = key push.node)
    (fits : push.heldMsat ≤ i64Max)
    (exact : push.heldMsat = push.pushedMsat + push.feeMsat) :
    Covered earlier (pushes ++ [push]) finished
      (ledger.renamed task.pendingId row push.name.id) := by
  have lookup : ∀ name : HoldName,
      (ledger.renamed task.pendingId row push.name.id).holds.get? name.id =
        if name.id = push.name.id then some { row with id := push.name.id }
        else ledger.holds.get? name.id := by
    intro name
    rw [Ledger.renamed, get?_put, get?_delete, if_neg (name_ne_pending name task)]
  refine ⟨?_, ?_, ?_, fun one mem => mem_append_left _ (covered.taken one mem), covered.debits⟩
  · exact forall_mem_append.mpr ⟨covered.exact, forall_mem_singleton.mpr ⟨exact, fits⟩⟩
  · intro one mem held found
    rw [lookup] at found
    rcases mem_concat.mp mem with old | rfl
    · rw [if_neg (new one old)] at found
      exact covered.rows one old held found
    rw [if_pos rfl] at found
    cases found
    exact ⟨amount, node⟩
  intro name held found
  rw [lookup] at found
  split at found
  next same => exact ⟨push, mem_append_right _ mem_cons_self, same.symm⟩
  · obtain ⟨one, mem, same⟩ := covered.owned name held found
    exact ⟨one, mem_append_left _ mem, same⟩

theorem Covered.closed {name : HoldName}
    {row : HoldRow} {arrived : Bool} (found : ledger.holds.get? name.id = some row)
    (holds : after.holds = ledger.holds.delete name.id)
    (debits : converted after = converted ledger ++ if arrived then
      [(row.node, -(asI64 row.amountMsat : Int), asI64 (name.feeMsat row.amountMsat))] else []) :
    Covered earlier pushes (if arrived then
      finished ++ (pushes.find? fun push => push.name.id = name.id).toList else finished)
        after := by
  have lookup : ∀ (other : HoldName) held, after.holds.get? other.id = some held →
      ledger.holds.get? other.id = some held := by
    intro other held isHeld
    rw [holds, get?_delete] at isHeld
    split at isHeld
    · cases isHeld
    · exact isHeld
  obtain ⟨one, listed, named⟩ := covered.owned name row found
  obtain ⟨push, isFound⟩ := isSome_iff_exists.mp (find?_isSome.mpr
    ⟨one, listed, decide_eq_true named⟩ :
      (pushes.find? fun push => push.name.id = name.id).isSome = true)
  have mem : push ∈ pushes := mem_of_find?_eq_some isFound
  have sameId : push.name.id = name.id := by
    have passes := find?_some isFound
    exact of_decide_eq_true passes
  obtain ⟨amount, node⟩ := covered.rows push mem row (sameId ▸ found)
  refine ⟨covered.exact, fun other isOther held isHeld =>
    covered.rows other isOther held (lookup other.name held isHeld), fun other held isHeld =>
    covered.owned other held (lookup other held isHeld), ?_, ?_⟩
  · cases arrived with
    | false => exact covered.taken
    | true =>
    intro other isOther
    rw [if_pos rfl, isFound] at isOther
    rcases mem_concat.mp isOther with old | rfl
    · exact covered.taken other old
    exact mem
  rcases arrived with _ | _
  · rw [debits, covered.debits]
    exact append_nil _
  obtain ⟨sum, fits⟩ := covered.exact push mem
  have fee : name.feeMsat row.amountMsat = push.feeMsat := by
    unfold Push.feeMsat HoldName.feeMsat
    rw [amount, isDelivery_of_id sameId]
  have whole : asI64 row.amountMsat = push.pushedMsat + push.feeMsat := by
    rw [amount, asI64, Nat.min_eq_left fits, sum]
  have small : asI64 push.feeMsat = push.feeMsat := Nat.min_eq_left (by omega)
  rw [debits, covered.debits, if_pos rfl, if_pos rfl, isFound, map_append,
    append_assoc, fee, whole, small, node]
  rfl

end Covered

theorem Loop.Exact.elsewhere {ledger after : Ledger} {loop : Loop} (exact : loop.Exact ledger)
    (same : ∀ task : Task, after.holds.get? task.pendingId = ledger.holds.get? task.pendingId) :
    loop.Exact after := by
  cases loop with
  | next tasks => exact exact
  | counted free task rest => exact exact
  | holding held task rest =>
    obtain ⟨others, fits, covers, row, found, owned⟩ := exact
    exact ⟨others, fits, covers, row, (same task).trans found, owned⟩

structure Converter.Exact (earlier : List Debit) (conv : Converter) : Prop where
  loop : conv.loop.Exact conv.ledger
  covered : Covered earlier conv.pushes conv.finished conv.ledger

section Steps

variable {parse : String → Option PublicKey} {earlier : List Debit} {conv : Converter}

theorem tasks_exact {capMsat : Nat} {make : List PublicKey → PublicKey × Account → Option Task}
    (exact : ∀ busy one task, make busy one = some task → task.Exact) :
    ∀ task ∈ Converter.tasks parse conv.ledger capMsat make, task.Exact := by
  intro task mem
  unfold Converter.tasks at mem
  split at mem
  · obtain ⟨one, _, made⟩ := mem_filterMap.mp mem
    exact exact _ one task made
  · cases mem

theorem convert_exact {capMsat channelMinSat : Nat} {peers : Peers} (busy : List PublicKey)
    (one : PublicKey × Account) (task : Task)
    (made : Converter.convert busy capMsat channelMinSat peers one = some task) : task.Exact := by
  obtain ⟨job, planned, rfl⟩ := map_eq_some_iff.mp made
  exact fun _ => plan_exact planned _

theorem delivery_exact {peers : Peers} (busy : List PublicKey) (one : PublicKey × Account)
    (task : Task) (made : Converter.delivery busy peers one = some task) : task.Exact := by
  obtain ⟨node, account⟩ := one
  unfold Converter.delivery at made
  dsimp only at made
  split at made
  · cases made
  cases made
  exact fun never => Bool.noConfusion never

variable (exact : conv.Exact earlier)
include exact

theorem Converter.Exact.request {op : Op} (settled : (ConvMove.request op).Settled conv) :
      (conv.step parse (.request op)).Exact earlier := by
  have apart : Apart IsConversion (fun row => row.kind = .converted) conv.ledger
      (finalState op.exec conv.ledger) :=
    apart_exec op settled.1 (fun row enters => decide_eq_false (settled.2 row enters)) conv.ledger
  refine ⟨exact.loop.elsewhere fun task => apart.holds _ (.inr ⟨task, rfl⟩),
    exact.covered.elsewhere (fun name => apart.holds _ (.inl ⟨name, rfl⟩)) ?_⟩
  unfold converted
  exact congrArg _ apart.entries

theorem Converter.Exact.hold
    (settled : ConvMove.hold.Settled conv) : (conv.step parse .hold).Exact earlier := by
  simp only [Converter.step]
  split
  next free task rest isLoop =>
    obtain ⟨fits, same⟩ := settled free task rest isLoop
    have planned : ∀ one ∈ task :: rest, one.Exact := by
      have inLoop := exact.loop
      rw [isLoop] at inLoop
      exact inLoop
    have others : ∀ one ∈ rest, one.Exact := fun one mem =>
      planned one (mem_cons_of_mem _ mem)
    have spec : wp (holdKind task.node task.pendingId free free "conversion") _ _ conv.ledger :=
      wp_holdKind
    unfold wp at spec
    split at spec
    next after ended =>
      obtain ⟨_, rfl⟩ := spec
      rw [ended]
      refine ⟨⟨others, fits, fun converts => ?_, _, get?_put_self _ _,
        Nat.min_eq_left fits, rfl⟩, exact.covered.elsewhere (fun name =>
          get?_put_of_ne _ (name_ne_pending name task)) rfl⟩
      rw [same converts]
      exact planned task mem_cons_self converts
    next after ended =>
    subst spec
    rw [ended]
    exact ⟨others, exact.covered⟩
  · exact exact

theorem Converter.Exact.send {answer : Option (Fixed 32 × Nat)}
    (settled : (ConvMove.send answer).Settled conv) :
      (conv.step parse (.send answer)).Exact earlier := by
  simp only [Converter.step]
  split
  next held task rest isLoop =>
    have inLoop := exact.loop
    rw [isLoop] at inLoop
    obtain ⟨others, fits, covers, row, found, amount, node⟩ := inLoop
    rcases answer with _ | answer
    · have released : finalState (abandonConversion task.pendingId) conv.ledger =
          conv.ledger.released task.pendingId :=
        finalState_cases (wp_abandon found) (fun _ _ => id) nofun
      rw [released]
      refine ⟨others, exact.covered.elsewhere (fun name => ?_) rfl⟩
      change (conv.ledger.holds.delete _).get? _ = _
      rw [get?_delete, if_neg (name_ne_pending name task)]
    have new := settled held task rest isLoop
    have free : conv.ledger.holds.get? (task.job.name answer).id = none := by
      by_contra taken
      obtain ⟨other, isOther⟩ := ne_none_iff_exists'.mp taken
      obtain ⟨push, mem, same⟩ := exact.covered.owned _ other isOther
      exact new push mem same
    have renamed : finalState (renameHold task.pendingId (task.job.name answer).id) conv.ledger =
        conv.ledger.renamed task.pendingId row (task.job.name answer).id :=
      finalState_cases (wp_rename found free) (fun _ _ => id) nofun
    dsimp only
    rw [renamed]
    refine ⟨others, exact.covered.renamed task
      ⟨task.node, task.job.name answer, task.job.pushed held, held⟩ new amount node fits ?_⟩
    unfold Push.feeMsat HoldName.feeMsat
    rw [Job.name_isDelivery]
    cases delivers : task.job.isDelivery with
    | false => exact covers delivers
    | true => exact (task.job.pushed_delivery held delivers).symm
  · exact exact

theorem Converter.Exact.outcome (name : HoldName) (arrived : Bool)
    (now : Nat) : (conv.step parse (.outcome name arrived now)).Exact earlier := by
  simp only [Converter.step]
  split
  · exact exact
  next owner held isOwner =>
  obtain ⟨row, found, owns⟩ := bind_eq_some_iff.mp isOwner
  obtain ⟨node, _, same⟩ := bind_eq_some_iff.mp owns
  cases same
  have spec := wp_resolve found arrived now
  unfold wp at spec
  split at spec
  next after ended =>
    obtain ⟨holds, debits⟩ := spec
    rw [ended]
    refine ⟨exact.loop.elsewhere fun task => ?_, exact.covered.closed found holds debits⟩
    rw [holds, get?_delete, if_neg (name_ne_pending name task).symm]
  next after ended =>
  subst spec
  rw [ended]
  exact exact

theorem Converter.Exact.step {move : ConvMove}
    (settled : move.Settled conv) : (conv.step parse move).Exact earlier := by
  cases move with
  | request op => exact exact.request settled
  | look capMsat channelMinSat peers =>
    simp only [Converter.step]
    split
    · exact ⟨tasks_exact convert_exact, exact.covered⟩
    · exact exact
  | lookDeliver peers =>
    simp only [Converter.step]
    split
    · exact ⟨tasks_exact delivery_exact, exact.covered⟩
    · exact exact
  | count =>
    simp only [Converter.step]
    split
    next task rest isLoop =>
      have planned := exact.loop
      rw [isLoop] at planned
      split
      · exact ⟨planned, exact.covered⟩
      · exact ⟨fun one mem => planned one (mem_cons_of_mem _ mem), exact.covered⟩
    · exact exact
  | hold => exact exact.hold settled
  | send answer => exact exact.send settled
  | outcome name arrived now => exact exact.outcome name arrived now

theorem Converter.Exact.run {moves : List ConvMove}
    (settled : Settled parse conv moves) : (conv.run parse moves).Exact earlier := by
  induction moves generalizing conv with
  | nil => exact exact
  | cons move rest ih => exact ih (exact.step settled.1) settled.2

end Steps

/-- As long as no request changes an account's free balance between a conversion's reading and its
hold, every push is covered by its hold, and the debits are those of the pushes that arrived, each
on the account it was made for. -/
theorem conversions_exact (parse : String → Option PublicKey) (ledger : Ledger)
    (moves : List ConvMove)
    (unused : ∀ name : HoldName, ledger.holds.get? name.id = none)
    (settled : Settled parse ⟨ledger, .next [], [], []⟩ moves) :
    let conv := Converter.run parse ⟨ledger, .next [], [], []⟩ moves
    (∀ push ∈ conv.pushes, push.pushedMsat ≤ push.heldMsat) ∧
    (∀ push ∈ conv.finished, push ∈ conv.pushes ∧ push.heldMsat = push.pushedMsat + push.feeMsat) ∧
    converted conv.ledger = converted ledger ++ conv.finished.map Push.debit := by
  have start : Converter.Exact (converted ledger) ⟨ledger, .next [], [], []⟩ :=
    ⟨nofun, nofun, nofun, fun name row found => absurd ((unused name).symm.trans found) nofun,
      nofun, (append_nil _).symm⟩
  have covered := (start.run settled).covered
  refine ⟨fun push mem => ?_, fun push mem =>
    ⟨covered.taken push mem, (covered.exact push (covered.taken push mem)).1⟩,
    covered.debits⟩
  have sum := (covered.exact push mem).1
  omega

namespace ConversionSample

open LedgerSample

def known (text : String) : Option PublicKey :=
  if text = key alice then some alice else if text = key bob then some bob else none

def peers : Peers := ⟨fun _ => true, fun _ => 1000000000⟩

def arrival : List ConvMove := [.request (.credit 100 alice (hash 1) 60000000)]

def look : List ConvMove := [.look 50000000 20000 peers]

def pushed : List ConvMove :=
  [.count, .hold, .send (some (hash 9, 0)), .outcome (.pay (hash 9)) true 200]

def start : Converter := ⟨.empty, .next [], [], []⟩

def amounts (pushes : List Push) : List (Nat × Nat × Nat) :=
  pushes.map fun push => (push.pushedMsat, push.heldMsat, push.feeMsat)

end ConversionSample

open LedgerSample ConversionSample

theorem conversions_exact_undisturbed :
    converted (Converter.run known start (arrival ++ (look ++ pushed))).ledger =
      [(key alice, -60000000, 1000000)] := by
  have counted : (Converter.run known start (arrival ++ (look ++ pushed.take 1))).loop =
      .counted 60000000 ⟨alice, 60000000, .payOverChannel 59000000⟩ [] := by decide +kernel
  have sent : (Converter.run known start (arrival ++ (look ++ pushed.take 2))).pushes.length = 0 :=
    by decide +kernel
  have settled : Settled known start (arrival ++ (look ++ pushed)) := by
    refine ⟨⟨nofun, fun row enters never => ?_⟩, trivial, trivial, ?_, ?_, trivial, trivial⟩
    · cases enters.1.symm.trans never
    · intro free task rest isLoop
      cases counted.symm.trans isLoop
      exact ⟨by decide, fun _ => rfl⟩
    intro held task rest _ push mem
    have listed : push ∈ (Converter.run known start
      (arrival ++ (look ++ pushed.take 2))).pushes := mem
    rw [eq_nil_of_length_eq_zero sent] at listed
    cases listed
  have exact := (conversions_exact known .empty _ (fun _ => rfl) settled).2.2
  have arrived : (Converter.run known start (arrival ++ (look ++ pushed))).finished.map Push.debit =
      [(key alice, -60000000, 1000000)] := by decide +kernel
  exact exact.trans arrived

/-- Bob's 40,000 sat reach Alice between the plan and the hold: 59,000 sat are pushed and 100,000
debited.  A payment of Alice's leaves a hold of 30,000 instead. -/
theorem conversions_disturbed :
    (let conv := Converter.run known start
      (arrival ++ [.request (.credit 100 bob (hash 2) 40000000)] ++ look ++
        [.request (.transfer 110 bob alice (hash 3) 40000000)] ++ pushed)
    amounts conv.finished = [(59000000, 100000000, 1000000)] ∧
      converted conv.ledger = [(key alice, -100000000, 1000000)]) ∧
    (let conv := Converter.run known start
      (arrival ++ look ++ [.request (.holdSend alice "send:1" 30000000 30000000)] ++ pushed.take 3)
    amounts conv.pushes = [(59000000, 30000000, 1000000)]) := by
  decide +kernel

end Fortis.Lsp
