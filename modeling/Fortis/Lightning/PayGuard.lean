import Fortis.Core.Terms
import Fortis.Lib.Ownership
import Fortis.Lightning.DeviceLock

/-!
# Paying an invoice once

Three things keep a BOLT11 invoice from being sent twice: the set of hashes a `pay` of this process
is working on, a file of attempts written before each send, and ldk-node's payment store, which
refuses a hash it lists as pending or paid.  A restart ends every call and empties the set.

The store hears of a send only after it went out.  A send whose record ldk-node could not save is
guarded by the attempts file alone, and the guard takes any entry of the store, a failed one of an
earlier try included, as the news of that send.
-/

namespace Fortis.Lightning.Pay

open Fortis.Core Lib List Proc Nat

inductive LnNetwork
  | bitcoin
  | testnet
  | signet
  | regtest
  deriving DecidableEq

/-- What `pay` reads of an invoice; `expiresAt` is none past the end of time. -/
structure Bolt11Invoice where
  paymentHash : Fixed 32
  network : LnNetwork
  expiresAt : Option Nat
  payee : String
  amountMsat : Option Nat

namespace Bolt11Invoice

def idHex (invoice : Bolt11Invoice) : String := hexEncode invoice.paymentHash.val

def wouldExpire (invoice : Bolt11Invoice) (now : Nat) : Bool :=
  invoice.expiresAt.any (· < now)

end Bolt11Invoice

structure NodeInfo where
  network : LnNetwork
  nodeId : String

def fixedOrGiven (fixed given : Option Nat) : Except LnError (Option Nat × Nat) :=
  match fixed, given with
  | some f, none => .ok (none, f)
  | some f, some g => if f = g then .ok (none, f) else .error (.other "amount_mismatch")
  | none, some g => if 0 < g then .ok (some g, g) else .error (.other "amount_required")
  | none, none => .error (.other "amount_required")

def checkBolt11 (node : NodeInfo) (invoice : Bolt11Invoice) (amountMsat : Option Nat)
    (now : Nat) : Except LnError (Option Nat × Nat) := do
  refuseIf (invoice.network ≠ node.network) .wrongNetwork
  refuseIf (invoice.wouldExpire now) .invoiceExpired
  refuseIf (invoice.payee = node.nodeId) (.other "pay_self")
  fixedOrGiven invoice.amountMsat amountMsat

inductive NodeError
  | notRunning
  | paymentSendingFailed
  | persistenceFailed
  | duplicatePayment
  | unsupportedCurrency
  | other (text : String)
  deriving DecidableEq

def mapSendError : NodeError -> LnError
  | .notRunning => .other "not_started"
  | .paymentSendingFailed => .noRoute
  | .persistenceFailed => .paymentStateUnknown
  | .duplicatePayment => .other "duplicate_payment"
  | .unsupportedCurrency => .other "unsupported_currency"
  | .other text => .other ("pay: " ++ text)

def attemptMarginSecs : Nat := 600

def recordUntil (invoice : Bolt11Invoice) : Nat :=
  min (invoice.expiresAt.getD u64Max + attemptMarginSecs) u64Max

inductive PaymentStatus
  | pending
  | succeeded
  | failed
  deriving DecidableEq

/-- Hex payment id to the second its record is ignored from. -/
abbrev Attempts := String -> Option Nat

namespace Attempts

def insert (id : String) (expiresAt : Nat) (attempts : Attempts) : Attempts :=
  fun other => if other = id then some expiresAt else attempts other

def remove (id : String) (attempts : Attempts) : Attempts :=
  fun other => if other = id then none else attempts other

def retain (now : Nat) (attempts : Attempts) : Attempts :=
  fun other => (attempts other).filter (now < ·)

end Attempts

/-- The clock, the hashes in flight in this process, the attempts file and ldk-node's store.  `live`
are the hashes with a send that may be in flight or has succeeded, and `sends` is each send that
went out, newest first, with whether one of the same hash was live. -/
structure World where
  clock : Nat
  inFlight : List String
  attempts : Attempts
  payments : String -> Option PaymentStatus
  live : String -> Bool
  deadline : String -> Nat
  sends : List (String × Bool)

/-- Pending or paid in ldk-node's store. -/
def World.listed (world : World) (id : String) : Prop :=
  world.payments id = some .pending \/ world.payments id = some .succeeded

instance (world : World) (id : String) : Decidable (world.listed id) :=
  inferInstanceAs (Decidable (_ \/ _))

def World.opened (clock : Nat) (attempts : Attempts)
    (payments : String -> Option PaymentStatus) : World where
  clock := clock
  inFlight := []
  attempts := attempts
  payments := payments
  live := fun _ => false
  deadline := fun _ => 0
  sends := []

inductive IoError
  | invalidData
  | permissionDenied
  | other (text : String)

/-- What ldk-node makes of a send: taken and stored, not persisted, or failed with nothing out. -/
inductive SendOutcome
  | taken
  | unpersisted (out : Bool)
  | refused (error : NodeError) (noted : Bool)

/-- What a call meets at one action; a failed write may have replaced the file. -/
structure Outside where
  gate : Except LnError Unit
  running : Bool
  read : Except IoError Unit
  write : Except (IoError × Bool) Unit
  send : SendOutcome

abbrev PayProc := Proc World Outside

def load : PayProc (Except IoError Attempts) :=
  .look fun world outside => outside.read.map fun _ => world.attempts

variable (nowSecs : Nat) (change : Attempts -> Attempts)

/-- The file after an update met this outside. -/
def updated (world : World) (outside : Outside) : World :=
  let changed := { world with attempts := (change world.attempts).retain nowSecs }
  match outside.read, outside.write with
  | .error _, _ => world
  | .ok _, .ok _ => changed
  | .ok _, .error (_, replaced) => if replaced then changed else world

/-- Apply `change`, drop the records expired at `nowSecs`, write. -/
def update : PayProc (Except IoError Unit) :=
  .act (updated nowSecs change) fun _ outside =>
    .done (do
      outside.read
      outside.write.mapError Prod.fst)

/-! ## The guard -/

def claim (id : String) : PayProc (Except LnError Unit) :=
  .act (fun world _ =>
      if id ∈ world.inFlight then world else { world with inFlight := id :: world.inFlight })
    fun world _ =>
      .done (if id ∈ world.inFlight then .error .paymentStateUnknown else .ok ())

def dropGuard (id : String) : PayProc Unit :=
  .act (fun world _ => { world with inFlight := world.inFlight.erase id }) fun _ _ => .done ()

def unreadable : LnError := .other "attempt_record_unreadable"

def inLdkStore (id : String) : PayProc Bool :=
  .look fun world _ => (world.payments id).isSome

/-- Whether a record may be dropped: it is expired, or ldk-node lists its payment. -/
def outdated (id : String) (nowSecs expiresAt : Nat) : PayProc Bool :=
  if nowSecs < expiresAt then inLdkStore id else pure true

def checkAttempt (id : String) (nowSecs : Nat) : PayProc (Except LnError Unit) := do
  match <- load with
  | .error _ => return .error unreadable
  | .ok attempts =>
    match attempts id with
    | none => return .ok ()
    | some expiresAt =>
      if <- outdated id nowSecs expiresAt then
        let _ <- update nowSecs (Attempts.remove id)
        return .ok ()
      else return .error .paymentStateUnknown

/-- ldk-node's send, by what it makes of it. -/
def ldkSend (id : String) (expiresAt : Nat) (world : World) : SendOutcome -> World
  | .taken =>
    { world with
      payments := fun other => if other = id then some .pending else world.payments other
      live := fun other => other = id || world.live other
      deadline := fun other => if other = id then expiresAt else world.deadline other
      sends := (id, world.live id) :: world.sends }
  | .unpersisted true =>
    { world with
      live := fun other => other = id || world.live other
      deadline := fun other => if other = id then expiresAt else world.deadline other
      sends := (id, world.live id) :: world.sends }
  | .unpersisted false => world
  | .refused _ true =>
    { world with
      payments := fun other => if other = id then some .failed else world.payments other }
  | .refused _ false => world

def sendResult : SendOutcome -> Except NodeError Unit
  | .taken => .ok ()
  | .unpersisted _ => .error .persistenceFailed
  | .refused error _ => .error error

def send (id : String) (expiresAt : Nat) : PayProc (Except NodeError Unit) :=
  .act (fun world outside =>
      if world.listed id then world else ldkSend id expiresAt world outside.send)
    fun world outside =>
      .done (if world.listed id then .error .duplicatePayment else sendResult outside.send)

/-- What is done with the record once the send answered. -/
def settleRecord (id : String) (expiresAt nowSecs : Nat) : Except NodeError Unit -> PayProc Unit
  | .error .persistenceFailed => do
    match <- load with
    | .ok attempts =>
      if attempts id = some expiresAt then return
      else
        let _ <- update nowSecs (Attempts.insert id expiresAt)
    | .error _ =>
      let _ <- update nowSecs (Attempts.insert id expiresAt)
  | .error .duplicatePayment => return
  | _ => do
    let _ <- update nowSecs (Attempts.remove id)

def recordError : IoError -> LnError
  | .invalidData | .permissionDenied => unreadable
  | .other text => .other ("attempt record: " ++ text)

def sendRecorded (id : String) (expiresAt nowSecs : Nat) : PayProc (Except LnError String) := do
  match <- update nowSecs (Attempts.insert id expiresAt) with
  | .error e => return .error (recordError e)
  | .ok _ =>
    let res <- send id expiresAt
    settleRecord id expiresAt nowSecs res
    return (res.map fun _ => id).mapError mapSendError

def gate : PayProc (Except LnError Unit) := .look fun _ outside => outside.gate

/-- The guarded part: check, gate, send. -/
def whileClaimed (id : String) (expiresAt nowSecs : Nat) : PayProc (Except LnError String) := do
  match <- checkAttempt id nowSecs with
  | .error e => return .error e
  | .ok _ =>
    match <- gate with
    | .error e => return .error e
    | .ok _ => sendRecorded id expiresAt nowSecs

def guardedBolt11 (id : String) (expiresAt nowSecs : Nat) : PayProc (Except LnError String) := do
  match <- claim id with
  | .error e => return .error e
  | .ok _ =>
    let res <- whileClaimed id expiresAt nowSecs
    dropGuard id
    return res

def clockNow : PayProc Nat := .look fun world _ => world.clock

/-- `pay` of a BOLT11 invoice, from the exit gate on. -/
def payWithHttp (node : NodeInfo) (invoice : Bolt11Invoice) (amountMsat : Option Nat) :
    PayProc (Except LnError String) := do
  match <- gate with
  | .error e => return .error e
  | .ok _ =>
    let now <- clockNow
    match checkBolt11 node invoice amountMsat now with
    | .error e => return .error e
    | .ok _ =>
      let running <- look fun _ outside => outside.running
      if running then
        let nowSecs <- clockNow
        guardedBolt11 invoice.idHex (recordUntil invoice) nowSecs
      else return .error (.other "not_started")

/-- What happens besides the calls; a live payment never becomes failed in ldk-node's store. -/
inductive Event
  | tick (secs : Nat)
  | lost (id : String)
  | stored (id : String) (status : PaymentStatus)

def World.after (world : World) : Event -> World
  | .tick secs => { world with clock := world.clock + secs }
  | .lost id => { world with live := fun other => if other = id then false else world.live other }
  | .stored id status =>
    if status = .failed /\ world.live id then world
    else
      { world with
        payments := fun other => if other = id then some status else world.payments other }

inductive Request
  | pay (invoice : Bolt11Invoice) (amountMsat : Option Nat)
  | event (event : Event)

def serve (node : NodeInfo) : Request -> PayProc Unit
  | .pay invoice amountMsat => do let _ <- payWithHttp node invoice amountMsat
  | .event event => .act (fun world _ => world.after event) fun _ _ => .done ()

/-- One turn of the phone: a move of this process, or its end and a new start. -/
inductive Turn
  | move (step : Move Request Outside)
  | restart

def turn (node : NodeInfo) (pool : Pool World Outside Unit) : Turn -> Pool World Outside Unit
  | .move step => pool.move (serve node) step
  | .restart => ⟨{ pool.shared with inFlight := [] }, []⟩

def after (node : NodeInfo) (start : World) (turns : List Turn) : Pool World Outside Unit :=
  turns.foldl (turn node) ⟨start, []⟩

/-- An unlisted send is told apart from an older try: no entry of its hash, and an unexpired
record. -/
def Told (world : World) : Prop :=
  ∀ id, world.live id = true -> ¬ world.listed id ->
    world.payments id = none /\ world.clock < world.deadline id

def Recorded (world : World) : Prop :=
  ∀ id, world.live id = true -> ¬ world.listed id -> world.attempts id = some (world.deadline id)

def SentOnce (world : World) : Prop := ∀ sent ∈ world.sends, sent.2 = false

/-- What others leave of a hash they do not hold. -/
structure Undisturbed (id : String) (before after : World) : Prop where
  held : id ∈ before.inFlight -> id ∈ after.inFlight
  live : after.live id = true -> before.live id = true
  listed : after.live id = true -> before.listed id -> after.listed id
  deadline : after.deadline id = before.deadline id
  record : ∀ expiresAt, before.attempts id = some expiresAt -> after.clock < expiresAt ->
    after.attempts id = some expiresAt

theorem Undisturbed.refl (id : String) (world : World) : Undisturbed id world world :=
  ⟨fun held => held, fun live => live, fun _ listed => listed, rfl, fun _ record _ => record⟩

def discipline : Discipline World String where
  inv world := Recorded world /\ SentOnce world
  good := Told
  owned world id := id ∈ world.inFlight
  rely own before after := before.clock <= after.clock /\ ∀ id, own = some id ->
    Undisturbed id before after
  refl _ world := ⟨le_rfl, fun id _ => Undisturbed.refl id world⟩
  stays rely held := (rely.2 _ rfl).held held

variable {own : Option String} {before : World}

/-- An action that leaves the hashes it does not hold undisturbed and owes only
its own a record. -/
theorem step_of_undisturbed {next : Option String} {after : World}
    (recorded : Recorded before) (told : Told after) (once : SentOnce after)
    (later : before.clock <= after.clock)
    (undisturbed : ∀ id, own ≠ some id -> next ≠ some id -> Undisturbed id before after)
    (mine : ∀ id, own = some id \/ next = some id -> after.live id = true -> ¬ after.listed id ->
      after.attempts id = some (after.deadline id))
    (taken : ∀ id, next = some id -> own = some id \/ id ∉ before.inFlight)
    (held : ∀ id, next = some id -> id ∈ after.inFlight) :
    discipline.Step own next before after where
  inv := by
    refine ⟨fun id live unlisted => ?_, once⟩
    by_cases owner : own = some id \/ next = some id
    · exact mine id owner live unlisted
    rw [not_or] at owner
    have apart := undisturbed id owner.1 owner.2
    have unlistedBefore : ¬ before.listed id :=
      fun listed => unlisted (apart.listed live listed)
    have found := recorded id (apart.live live) unlistedBefore
    have soon := (told id live unlisted).2
    rw [apart.deadline] at soon ⊢
    exact apart.record _ found soon
  others other apart := by
    refine ⟨later, fun id same => ?_⟩
    subst same
    rcases apart with impossible | ⟨notOwn, notNext⟩
    · cases impossible
    · exact undisturbed id (Ne.symm notOwn) (Ne.symm notNext)
  taken := taken
  held := held

/-- An action by the holder of `id`, which goes on holding it. -/
theorem step_of_holder {id : String} {after : World} (recorded : Recorded before)
    (told : Told after) (once : SentOnce after) (later : before.clock <= after.clock)
    (undisturbed : ∀ other, other ≠ id -> Undisturbed other before after)
    (mine : after.live id = true -> ¬ after.listed id ->
    after.attempts id = some (after.deadline id))
    (held : id ∈ after.inFlight) : discipline.Step (some id) (some id) before after := by
  refine step_of_undisturbed recorded told once later ?_ ?_ (fun _ same => .inl same) ?_
  · exact fun other notOwn _ => undisturbed other fun same => notOwn (same ▸ rfl)
  · rintro other (same | same)
    · cases same
      exact mine
    cases same
    exact mine
  intro other same
  cases same
  exact held

section Assertions

variable (id : String) (expiresAt nowSecs : Nat)

variable (world : World)

def Timed : Prop := nowSecs <= world.clock

/-- A live send of the hash is listed, so that ldk-node refuses another. -/
def Cleared : Prop := world.live id = true -> world.listed id

def Entered : Prop :=
  world.clock < expiresAt -> world.attempts id = some expiresAt

/-- A send not listed is the one this call made. -/
def Owing : Prop :=
  world.live id = true -> ¬ world.listed id -> world.deadline id = expiresAt

variable {id expiresAt nowSecs}

theorem stable_timed (own : Option String) : discipline.Stable own (Timed nowSecs) :=
  fun _ _ rely timed => le_trans timed rely.1

theorem stable_cleared : discipline.Stable (some id) (Cleared id) :=
  fun _ _ rely cleared live =>
    have undisturbed := rely.2 id rfl
    undisturbed.listed live (cleared (undisturbed.live live))

theorem stable_owing : discipline.Stable (some id) (Owing id expiresAt) := by
  intro before after rely owing live unlisted
  have undisturbed := rely.2 id rfl
  rw [undisturbed.deadline]
  refine owing (undisturbed.live live) fun listed => ?_
  exact unlisted (undisturbed.listed live listed)

theorem stable_and {first second : World -> Prop}
    (stableFirst : discipline.Stable own first) (stableSecond : discipline.Stable own second) :
    discipline.Stable own fun world => first world /\ second world :=
  fun _ _ rely held => ⟨stableFirst rely held.1, stableSecond rely held.2⟩

theorem stable_imp {given : Prop} {holds : World -> Prop} (stable : discipline.Stable own holds) :
    discipline.Stable own fun world => given -> holds world :=
  fun _ _ rely held holds => stable rely (held holds)

end Assertions

/-! ## The file -/

variable {change : Attempts -> Attempts} {outside : Outside} {other : String} {world : World}

section File

variable {id : String} {expiresAt nowSecs : Nat}

/-- A change of one hash's record; the records of others expire only. -/
def Touches (id : String) (change : Attempts -> Attempts) : Prop :=
  ∀ attempts other, other ≠ id -> change attempts other = attempts other

theorem updated_cases (nowSecs : Nat) (change : Attempts -> Attempts) (world : World)
    (outside : Outside) : updated nowSecs change world outside = world \/
      updated nowSecs change world outside =
        { world with attempts := (change world.attempts).retain nowSecs } := by
  unfold updated
  split
  · exact .inl rfl
  · exact .inr rfl
  split
  · exact .inr rfl
  · exact .inl rfl

theorem retain_of_lt {attempts : Attempts} {now expires : Nat}
    (found : attempts other = some expires) (early : now < expires) :
    attempts.retain now other = some expires := by
  simp [Attempts.retain, found, early]

theorem step_updated (touches : Touches id change) (inv : discipline.inv world) (told : Told world)
    (timed : Timed nowSecs world) (held : id ∈ world.inFlight)
    (own : world.live id = true -> ¬ world.listed id ->
      (change world.attempts).retain nowSecs id = some (world.deadline id)) :
    discipline.Step (some id) (some id) world (updated nowSecs change world outside) := by
  rcases updated_cases nowSecs change world outside with same | changed
  · rw [same]
    exact .idle inv fun other isOwn => by cases isOwn; exact held
  rw [changed]
  refine step_of_holder inv.1 told inv.2 le_rfl (fun other ne => ?_) own held
  refine ⟨fun held => held, fun live => live, fun _ listed => listed, rfl, ?_⟩
  intro expires record soon
  refine retain_of_lt ?_ (lt_of_le_of_lt timed soon)
  rw [touches _ _ ne]
  exact record

theorem updated_live (nowSecs : Nat) (change : Attempts -> Attempts) (world : World)
    (outside : Outside) : (updated nowSecs change world outside).live = world.live /\
      (updated nowSecs change world outside).payments = world.payments /\
      (updated nowSecs change world outside).clock = world.clock := by
  rcases updated_cases nowSecs change world outside with same | changed
  · rw [same]
    exact ⟨rfl, rfl, rfl⟩
  rw [changed]
  exact ⟨rfl, rfl, rfl⟩

theorem cleared_updated
    (cleared : Cleared id world) : Cleared id (updated nowSecs change world outside) := by
  obtain ⟨sameLive, samePayments, _⟩ := updated_live nowSecs change world outside
  intro live
  rw [sameLive] at live
  unfold World.listed
  rw [samePayments]
  exact cleared live

theorem timed_updated
    (timed : Timed nowSecs world) : Timed nowSecs (updated nowSecs change world outside) := by
  rw [Timed, (updated_live nowSecs change world outside).2.2]
  exact timed

theorem update_remove_triple : (update nowSecs (Attempts.remove id)).Triple discipline (some id)
      (fun world => Timed nowSecs world /\ Cleared id world) (fun _ => some id)
      fun _ world => Timed nowSecs world /\ Cleared id world := by
  refine triple_action (fun _ => stable_and (stable_timed _) stable_cleared) ?_
  intro world outside inv told _ holds owns
  refine ⟨step_updated ((fun _ _ ne => if_neg ne)) inv told holds.1 (owns id rfl) ?_, ?_, ?_⟩
  · exact fun live unlisted => absurd (holds.2 live) unlisted
  · exact timed_updated holds.1
  · exact cleared_updated holds.2

/-- The record of an attempt is on file once the update says so. -/
theorem update_insert_triple :
    (update nowSecs (Attempts.insert id expiresAt)).Triple discipline (some id)
      (fun world => Timed nowSecs world /\ Cleared id world) (fun _ => some id)
      fun res world => (Timed nowSecs world /\ Cleared id world) /\
        (res = .ok () -> Entered id expiresAt world) := by
  refine triple_action (fun _ => stable_and (stable_and (stable_timed _) stable_cleared)
    (stable_imp (fun _ _ rely entered early => (rely.2 id rfl).record expiresAt (entered
      (lt_of_le_of_lt rely.1 early)) early))) ?_
  intro world outside inv told _ holds owns
  refine ⟨step_updated ((fun _ _ ne => if_neg ne)) inv told holds.1 (owns id rfl) ?_,
    ⟨timed_updated holds.1, cleared_updated holds.2⟩, fun answered soon => ?_⟩
  · exact fun live unlisted => absurd (holds.2 live) unlisted
  rcases reads : outside.read with e | _
  · rw [reads] at answered
    cases answered
  rcases writes : outside.write with e | _
  · rw [reads, writes] at answered
    cases answered
  simp only [updated, reads, writes] at soon ⊢
  exact retain_of_lt (if_pos rfl) (lt_of_le_of_lt holds.1 soon)

theorem update_owing_triple :
    (update nowSecs (Attempts.insert id expiresAt)).Triple discipline (some id)
      (fun world => Timed nowSecs world /\ Owing id expiresAt world) (fun _ => some id)
      fun _ _ => True := by
  refine triple_action (fun _ => discipline.stable_true _) ?_
  intro world outside inv told _ holds owns
  refine ⟨step_updated ((fun _ _ ne => if_neg ne)) inv told holds.1 (owns id rfl) ?_, trivial⟩
  intro live unlisted
  have due := holds.2 live unlisted
  have soon := (told id live unlisted).2
  rw [due] at soon ⊢
  exact retain_of_lt (if_pos rfl) (lt_of_le_of_lt holds.1 soon)

end File

/-! ## The calls -/

section

variable {id : String} {expiresAt nowSecs : Nat}

/-- A file without an unexpired record of the hash clears it. -/
theorem load_triple : load.Triple discipline (some id) (Timed nowSecs) (fun _ => some id)
      fun res world => Timed nowSecs world /\ ∀ attempts, res = .ok attempts ->
        (∀ expires, attempts id = some expires -> expires <= nowSecs) -> Cleared id world := by
  refine triple_look (fun _ => stable_and (stable_timed _) ?_) ?_
  · exact fun _ _ rely held attempts read expired =>
      stable_cleared rely (held attempts read expired)
  rintro world outside inv told timed
  refine ⟨timed, fun attempts read expired live => ?_⟩
  have same : world.attempts = attempts := by
    rcases reads : outside.read with e | _
    · rw [reads] at read
      cases read
    rw [reads] at read
    exact Except.ok.inj read
  by_contra unlisted
  have recorded := inv.1 id live unlisted
  have soon := (told id live unlisted).2
  rw [same] at recorded
  exact absurd soon (not_lt.mpr (le_trans (expired _ recorded) timed))

/-- An entry of the store is the news of the live send, or there is none. -/
theorem inLdkStore_triple :
    (inLdkStore id).Triple discipline (some id) (Timed nowSecs) (fun _ => some id)
      fun found world => Timed nowSecs world /\ (found = true -> Cleared id world) := by
  refine triple_look (fun _ => stable_and (stable_timed _) (stable_imp stable_cleared)) ?_
  intro world outside _ told timed
  refine ⟨timed, fun found live => ?_⟩
  by_contra unlisted
  have missing := (told id live unlisted).1
  simp [missing] at found

theorem checkAttempt_triple :
    (checkAttempt id nowSecs).Triple discipline (some id) (Timed nowSecs) (fun _ => some id)
      fun res world => Timed nowSecs world /\ (res = .ok () -> Cleared id world) := by
  refine Triple.bind load_triple fun read => ?_
  rcases read with e | attempts
  · exact ⟨rfl, fun _ held => ⟨held.1, nofun⟩⟩
  dsimp only
  rcases found : attempts id with _ | expires
  · refine ⟨rfl, fun world held => ⟨held.1, fun _ => held.2 attempts rfl ?_⟩⟩
    intro expires same
    rw [found] at same
    cases same
  have passes : (outdated id nowSecs expires).Triple discipline
      (some id) (fun world => Timed nowSecs world /\ ∀ attempts', .ok attempts =
        (Except.ok attempts' : Except IoError Attempts) ->
        (∀ expires, attempts' id = some expires -> expires <= nowSecs) -> Cleared id world)
      (fun _ => some id)
      fun passes world => Timed nowSecs world /\ (passes = true -> Cleared id world) := by
    unfold outdated
    split
    · exact inLdkStore_triple.weaken fun _ held => held.1
    next expired =>
    refine ⟨rfl, fun world held => ⟨held.1, fun _ => held.2 attempts rfl ?_⟩⟩
    intro other same
    rw [found] at same
    cases same
    exact not_lt.mp expired
  refine Triple.bind passes fun passed => ?_
  rcases passed with _ | _
  · exact ⟨rfl, fun _ held => ⟨held.1, nofun⟩⟩
  refine Triple.bind (update_remove_triple.weaken fun _ held =>
    ⟨held.1, held.2 rfl⟩) fun _ => ?_
  exact ⟨rfl, fun _ held => ⟨held.1, fun _ => held.2⟩⟩

/-- What a call knows once its send answered. -/
def Answered (id : String) (expiresAt nowSecs : Nat) (res : Except NodeError Unit)
    (world : World) : Prop :=
  Timed nowSecs world /\ (res = .error .persistenceFailed -> Owing id expiresAt world) /\
    (res ≠ .error .persistenceFailed -> res ≠ .error .duplicatePayment -> Cleared id world)

variable (res : Except NodeError Unit)

theorem stable_answered : discipline.Stable (some id) (Answered id expiresAt nowSecs res) :=
  stable_and (stable_timed _)
    (stable_and (stable_imp stable_owing) (stable_imp (stable_imp stable_cleared)))

theorem undisturbed_ldkSend {outcome : SendOutcome}
    (apart : other ≠ id) : Undisturbed other world (ldkSend id expiresAt world outcome) := by
  have payments : (ldkSend id expiresAt world outcome).payments other = world.payments other := by
    unfold ldkSend
    split <;> simp [apart]
  have live : (ldkSend id expiresAt world outcome).live other = world.live other := by
    unfold ldkSend
    split <;> simp [apart]
  have deadline : (ldkSend id expiresAt world outcome).deadline other = world.deadline other := by
    unfold ldkSend
    split <;> simp [apart]
  have rest : (ldkSend id expiresAt world outcome).inFlight = world.inFlight /\
      (ldkSend id expiresAt world outcome).attempts = world.attempts := by
    unfold ldkSend
    split <;> exact ⟨rfl, rfl⟩
  refine ⟨fun held => rest.1 ▸ held, fun now => live ▸ now, fun _ listed => ?_, deadline, ?_⟩
  · unfold World.listed
    rw [payments]
    exact listed
  intro expires record _
  rw [rest.2]
  exact record

theorem ldkSend_same (id : String) (expiresAt : Nat) (world : World) (outcome : SendOutcome) :
    (ldkSend id expiresAt world outcome).clock = world.clock /\
      (ldkSend id expiresAt world outcome).inFlight = world.inFlight := by
  unfold ldkSend
  split <;> exact ⟨rfl, rfl⟩

theorem send_triple : (send id expiresAt).Triple discipline (some id)
      (fun world => (Timed nowSecs world /\ Cleared id world) /\ Entered id expiresAt world)
      (fun _ => some id) (Answered id expiresAt nowSecs) := by
  refine triple_action stable_answered ?_
  rintro world outside inv told told' ⟨⟨timed, cleared⟩, entered⟩ owns
  have held : id ∈ world.inFlight := owns id rfl
  have idle : discipline.Step (some id) (some id) world world :=
    .idle inv fun other isOwn => by cases isOwn; exact held
  by_cases listed : world.listed id
  · simp only [if_pos listed]
    exact ⟨idle, timed, nofun, fun _ ne => absurd rfl ne⟩
  simp only [if_neg listed] at told' ⊢
  have quiet : world.live id = false := by
    cases live : world.live id with
    | false => rfl
    | true => exact absurd (cleared live) listed
  have once : ∀ sent ∈ (id, world.live id) :: world.sends, sent.2 = false :=
    forall_mem_cons.mpr ⟨quiet, inv.2⟩
  have step : ∀ outcome, Told (ldkSend id expiresAt world outcome) ->
      SentOnce (ldkSend id expiresAt world outcome) ->
      ((ldkSend id expiresAt world outcome).live id = true ->
        ¬ (ldkSend id expiresAt world outcome).listed id ->
        (ldkSend id expiresAt world outcome).attempts id =
          some ((ldkSend id expiresAt world outcome).deadline id)) ->
      discipline.Step (some id) (some id) world (ldkSend id expiresAt world outcome) := by
    intro outcome told' once mine
    have same := ldkSend_same id expiresAt world outcome
    exact step_of_holder inv.1 told' once (le_of_eq same.1.symm)
      (fun other apart => undisturbed_ldkSend apart) mine (same.2 ▸ held)
  cases outcome : outside.send with
  | taken =>
    rw [outcome] at told'
    have listed' : (ldkSend id expiresAt world .taken).listed id := .inl (if_pos rfl)
    exact ⟨step _ told' once fun _ unlisted => absurd listed' unlisted, timed, nofun,
      fun _ _ _ => listed'⟩
  | unpersisted out =>
    rw [outcome] at told'
    rcases out with _ | _
    · refine ⟨idle, timed, fun _ live => absurd live (by simp [quiet, ldkSend]), ?_⟩
      exact fun ne => absurd rfl ne
    have due : (ldkSend id expiresAt world (.unpersisted true)).deadline id = expiresAt :=
      if_pos rfl
    refine ⟨step _ told' once fun live unlisted => ?_, timed, fun _ _ _ => due,
      fun ne => absurd rfl ne⟩
    have soon := (told' id live unlisted).2
    rw [due] at soon ⊢
    exact entered soon
  | refused error noted =>
    rw [outcome] at told'
    have dead : (ldkSend id expiresAt world (.refused error noted)).live id = false := by
      cases noted <;> exact quiet
    have sends : SentOnce (ldkSend id expiresAt world (.refused error noted)) := by
      cases noted <;> exact inv.2
    have clock := (ldkSend_same id expiresAt world (.refused error noted)).1
    refine ⟨step _ told' sends fun live => absurd live (by simp [dead]),
      le_trans timed (le_of_eq clock.symm), fun _ live => absurd live (by simp [dead]),
      fun _ _ live => absurd live (by simp [dead])⟩

theorem settleRecord_triple : (settleRecord id expiresAt nowSecs res).Triple discipline (some id)
      (Answered id expiresAt nowSecs res) (fun _ => some id) fun _ _ => True := by
  unfold settleRecord
  split
  · have owing : load.Triple discipline (some id)
        (Answered id expiresAt nowSecs (.error .persistenceFailed)) (fun _ => some id)
        fun _ world => Timed nowSecs world /\ Owing id expiresAt world :=
      triple_look (fun _ => stable_and (stable_timed _) stable_owing)
        fun _ _ _ _ held => ⟨held.1, held.2.1 rfl⟩
    refine Triple.bind owing fun read => ?_
    rcases read with e | attempts
    · exact Triple.bind update_owing_triple fun _ => ⟨rfl, fun _ _ => trivial⟩
    dsimp only
    split
    · exact ⟨rfl, fun _ _ => trivial⟩
    · exact Triple.bind update_owing_triple fun _ => ⟨rfl, fun _ _ => trivial⟩
  · exact ⟨rfl, fun _ _ => trivial⟩
  next notUnknown notDuplicate =>
  refine Triple.bind (update_remove_triple.weaken fun _ held => ⟨held.1, ?_⟩)
    fun _ => ⟨rfl, fun _ _ => trivial⟩
  exact held.2.2 notUnknown notDuplicate

theorem sendRecorded_triple : (sendRecorded id expiresAt nowSecs).Triple discipline (some id)
      (fun world => Timed nowSecs world /\ Cleared id world) (fun _ => some id) fun _ _ =>
        True := by
  refine Triple.bind update_insert_triple fun written => ?_
  rcases written with e | _
  · exact ⟨rfl, fun _ _ => trivial⟩
  refine Triple.bind (send_triple.weaken fun _ held => ⟨held.1, held.2 rfl⟩) fun res => ?_
  exact Triple.bind (settleRecord_triple res) fun _ => ⟨rfl, fun _ _ => trivial⟩

theorem whileClaimed_triple :
    (whileClaimed id expiresAt nowSecs).Triple discipline (some id) (Timed nowSecs)
      (fun _ => some id) fun _ _ => True := by
  refine Triple.bind checkAttempt_triple fun checked => ?_
  rcases checked with e | _
  · exact ⟨rfl, fun _ _ => trivial⟩
  have gated : gate.Triple discipline (some id)
      (fun world => Timed nowSecs world /\ (Except.ok () = (Except.ok () : Except LnError Unit) ->
        Cleared id world)) (fun _ => some id)
      fun _ world => Timed nowSecs world /\ Cleared id world :=
    triple_look (fun _ => stable_and (stable_timed _) stable_cleared)
      fun _ _ _ _ held => ⟨held.1, held.2 rfl⟩
  refine Triple.bind gated fun passed => ?_
  cases passed with
  | error e => exact ⟨rfl, fun _ _ => trivial⟩
  | ok _ => exact sendRecorded_triple

def heldAfter (id : String) : Except LnError Unit -> Option String
  | .ok _ => some id
  | .error _ => none

theorem claim_triple : (claim id).Triple discipline none (Timed nowSecs) (heldAfter id)
      fun _ world => Timed nowSecs world := by
  refine triple_action (fun _ => stable_timed _) ?_
  intro world outside inv told told' timed _
  by_cases claimed : id ∈ world.inFlight
  · simp only [if_pos claimed]
    exact ⟨.idle inv nofun, timed⟩
  simp only [if_neg claimed] at told' ⊢
  refine ⟨step_of_undisturbed inv.1 told' inv.2 le_rfl (fun other _ _ => ?_)
    (fun other _ live unlisted => inv.1 other live unlisted) (fun other same => ?_)
    (fun other same => ?_), timed⟩
  · exact ⟨fun held => mem_cons_of_mem id held, fun live => live,
      fun _ listed => listed, rfl, fun _ record _ => record⟩
  · cases same
    exact .inr claimed
  cases same
  exact mem_cons_self

theorem dropGuard_triple :
    (dropGuard id).Triple discipline (some id) (fun _ => True) (fun _ => none) fun _ _ => True := by
  refine triple_action (fun _ => discipline.stable_true _) ?_
  intro world outside inv told told' _ _
  refine ⟨step_of_undisturbed inv.1 told' inv.2 le_rfl (fun other notOwn _ => ?_)
    (fun other _ live unlisted => inv.1 other live unlisted)
    nofun nofun, trivial⟩
  have ne : other ≠ id := fun same => notOwn (same ▸ rfl)
  exact ⟨fun held => (mem_erase_of_ne ne).mpr held, fun live => live,
    fun _ listed => listed, rfl, fun _ record _ => record⟩

theorem guardedBolt11_triple :
    (guardedBolt11 id expiresAt nowSecs).Triple discipline none (Timed nowSecs) (fun _ => none)
      fun _ _ => True := by
  refine Triple.bind claim_triple fun claimed => ?_
  rcases claimed with e | _
  · exact ⟨rfl, fun _ _ => trivial⟩
  refine Triple.bind whileClaimed_triple fun _ => ?_
  exact Triple.bind dropGuard_triple fun _ => ⟨rfl, fun _ _ => trivial⟩

theorem look_triple {α : Type} (read : World -> Outside -> α) :
    (look read).Triple discipline none (fun _ => True) (fun _ => none) fun _ _ => True :=
  triple_look (fun _ => discipline.stable_true _) fun _ _ _ _ _ => trivial

theorem payWithHttp_triple (node : NodeInfo) (invoice : Bolt11Invoice) (amount : Option Nat) :
    (payWithHttp node invoice amount).Triple discipline none (fun _ => True) (fun _ => none)
      fun _ _ => True := by
  refine Triple.bind (look_triple _) fun passed => ?_
  rcases passed with e | _
  · exact ⟨rfl, fun _ _ => trivial⟩
  refine Triple.bind (look_triple _) fun now => ?_
  rcases checkBolt11 node invoice amount now with e | _
  · exact ⟨rfl, fun _ _ => trivial⟩
  refine Triple.bind (look_triple _) fun running => ?_
  rcases running with _ | _
  · exact ⟨rfl, fun _ _ => trivial⟩
  have timed : clockNow.Triple discipline none (fun _ => True) (fun _ => none) Timed :=
    triple_look (fun nowSecs => stable_timed _) fun world _ _ _ _ => le_refl world.clock
  exact Triple.bind timed fun nowSecs => guardedBolt11_triple

end

/-- No event makes a hash live, takes a live one off the list, or touches the file. -/
theorem undisturbed_after (world : World) (event : Event) (id : String) :
    Undisturbed id world (world.after event) := by
  cases event with
  | tick secs =>
    exact ⟨fun held => held, fun live => live, fun _ listed => listed, rfl,
      fun _ record _ => record⟩
  | lost lostId =>
    refine ⟨fun held => held, fun live => ?_, fun _ listed => listed, rfl, fun _ record _ => record⟩
    simp only [World.after] at live
    split at live
    · cases live
    · exact live
  | stored storedId status =>
    unfold World.after
    dsimp only
    split
    · exact Undisturbed.refl id world
    next truthful =>
    refine ⟨fun held => held, fun live => live, fun live listed => ?_, rfl, fun _ record _ =>
      record⟩
    by_cases same : id = storedId
    · subst same
      have live' : world.live id = true := live
      cases status with
      | pending => exact .inl (if_pos rfl)
      | succeeded => exact .inr (if_pos rfl)
      | failed => exact absurd ⟨rfl, live'⟩ truthful
    · simpa only [World.listed, if_neg same] using listed

theorem clock_after (world : World) (event : Event) :
    world.clock <= (world.after event).clock /\ (world.after event).sends = world.sends := by
  cases event with
  | tick secs => exact ⟨le_add_right _ _, rfl⟩
  | lost id => exact ⟨le_rfl, rfl⟩
  | stored id status =>
    unfold World.after
    dsimp only
    split <;> exact ⟨le_rfl, rfl⟩

variable (node : NodeInfo)

theorem serve_triple (request : Request) :
    (serve node request).Triple discipline none (fun _ => True) (fun _ => none) fun _ _ =>
      True := by
  cases request with
  | pay invoice amountMsat =>
    exact Triple.bind (payWithHttp_triple node invoice amountMsat)
      fun _ => ⟨rfl, fun _ _ => trivial⟩
  | event event =>
    refine triple_action (fun _ => discipline.stable_true _) ?_
    intro world outside inv told told' _ _
    obtain ⟨later, sends⟩ := clock_after world event
    refine ⟨step_of_undisturbed inv.1 told' ?_ later
      (fun id _ _ => undisturbed_after world event id) ?_
      nofun nofun, trivial⟩
    · unfold SentOnce
      rw [sends]
      exact inv.2
    · rintro id (impossible | impossible) <;> cases impossible

theorem disciplined_after {start : World} (inv : discipline.inv start) (turns : List Turn)
    (told : ∀ before, before <+: turns -> Told (after node start before).shared) :
    (after node start turns).Disciplined discipline := by
  induction turns using reverseRecOn with
  | nil => exact Pool.disciplined_empty inv
  | append_singleton turns last ih =>
    have earlier := ih fun before isBefore => told before (isBefore.trans (prefix_append _ _))
    have here := told turns (prefix_append _ _)
    have there := told (turns ++ [last]) prefix_rfl
    unfold after at here there earlier ⊢
    rw [foldl_append, foldl_cons, foldl_nil] at there ⊢
    cases last with
    | move step => exact earlier.move (serve_triple node) step here there
    | restart =>
      have kept : discipline.inv (turns.foldl (turn node) ⟨start, []⟩).shared := earlier.inv
      exact Pool.disciplined_empty ⟨kept.1, kept.2⟩

/-- As long as an unlisted live send has no older entry in ldk-node's store and an unexpired record,
no invoice is sent while a send of its hash may be in flight or has succeeded. -/
theorem invoice_sent_once (node : NodeInfo) (clock : Nat) (attempts : Attempts)
    (payments : String -> Option PaymentStatus) (turns : List Turn)
    (told : ∀ before, before <+: turns ->
      Told (after node (World.opened clock attempts payments) before).shared) :
    ∀ sent ∈ (after node (World.opened clock attempts payments) turns).shared.sends,
      sent.2 = false := by
  have start : discipline.inv (World.opened clock attempts payments) :=
    ⟨nofun, nofun⟩
  exact (disciplined_after node start turns told).inv.2

def sampleNode : NodeInfo := ⟨.bitcoin, "02aa"⟩

def sampleInvoice : Bolt11Invoice where
  paymentHash := ⟨List.replicate 32 7, rfl⟩
  network := .bitcoin
  expiresAt := some 3600
  payee := "02bb"
  amountMsat := some 1000

def samplePhone : World := World.opened 0 (fun _ => none) fun _ => none

def meets (outcome : SendOutcome) : Outside := ⟨.ok (), true, .ok (), .ok (), outcome⟩

def callTurns (index actions : Nat) (outcome : SendOutcome) : List Turn :=
  .move (.begin (.pay sampleInvoice none)) ::
    List.replicate actions (.move (.act index (meets outcome)))

theorem told_of_dead (dead : world.live = fun _ => false) : Told world := by
  intro id live
  rw [dead] at live
  cases live

theorem told_of_recorded {only : String} (alone : world.live = fun other => other = only || false)
    (unknown : world.payments only = none) (recorded : world.clock < world.deadline only) :
    Told world := by
  intro id live _
  rw [alone] at live
  have same : id = only := by simpa using live
  exact same ▸ ⟨unknown, recorded⟩

/-- A send that goes out and is not saved, the end of the process, and another try. -/
def retried : List Turn :=
  callTurns 0 11 (.unpersisted true) ++ .restart :: callTurns 0 11 .taken

/-- The second try does not send: ldk-node knows nothing of the first, the record does. -/
theorem invoice_sent_once_retried :
    let phone := (after sampleNode samplePhone retried).shared
    phone.live sampleInvoice.idHex = true ∧ phone.payments sampleInvoice.idHex = none ∧
      phone.sends = [(sampleInvoice.idHex, false)] ∧ ∀ sent ∈ phone.sends, sent.2 = false := by
  refine ⟨by decide, by decide, by decide,
    invoice_sent_once sampleNode 0 _ _ retried ?_⟩
  intro before isBefore
  have told : ∀ before ∈ retried.inits, Told (after sampleNode samplePhone before).shared := by
    simp only [retried, callTurns, replicate, cons_append, nil_append, inits, map_cons, map_nil,
      forall_mem_cons]
    repeat' apply And.intro
    all_goals first
      | exact told_of_dead rfl
      | exact told_of_recorded rfl rfl (by decide)
      | simp
  exact told before ((mem_inits _ _).mpr isBefore)

/-- No route, then a send whose record is not saved. -/
def twoTries : List Turn :=
  callTurns 0 11 (.refused .paymentSendingFailed true) ++ callTurns 1 11 (.unpersisted true)

/-- A third try within the record's time sends while the second may be in flight. -/
theorem third_try_sends_again :
    let second := (after sampleNode samplePhone twoTries).shared
    second.live sampleInvoice.idHex = true /\ second.payments sampleInvoice.idHex = some .failed /\
      second.attempts sampleInvoice.idHex = some 4200 /\
      (after sampleNode samplePhone (twoTries ++ callTurns 2 13 .taken)).shared.sends.map
        Prod.snd = [true, false] := by
  decide

end Fortis.Lightning.Pay
