import Fortis.Lightning.PayGuard
import Fortis.Lightning.PaymentLinks

/-!
# Paying without a fixed invoice

An LNURL, a Lightning address and a BOLT12 offer give a new invoice or id at every payment, so no
payment hash tells two payments apart.  The session's `pay` reads the node's payment list first,
and starts no such payment while an outgoing one is pending.

The list is read in one action and the payment handed to the node in a later one.  The guard is on
the target's outermost constructor, and a list that cannot be read counts as empty.
-/

namespace Fortis.Lightning.Links.LnTarget

/-- The session's test of what it guards. -/
def freshEachTime : LnTarget → Bool
  | lnurlPay _ | lightningAddress _ _ | bolt12Offer _ _ _ => true
  | bolt11 _ _ _ _ | onChain _ _ | unified _ _ _ => false

/-- What the node's `prepare` goes on with: the Lightning part of a link, nothing
for a plain address. -/
def prepared : LnTarget → Option LnTarget
  | unified _ _ lightning => some lightning.intoPaymentTarget
  | onChain _ _ => none
  | target => some target

def Fresh (target : LnTarget) : Prop := target.prepared.any freshEachTime = true

instance (target : LnTarget) : Decidable target.Fresh := inferInstanceAs (Decidable (_ = true))

/-- Not inside a link. -/
def Direct : LnTarget → Prop
  | unified _ _ _ => False
  | _ => True

theorem freshEachTime_of_fresh {target : LnTarget} (fresh : target.Fresh)
    (direct : target.Direct) : target.freshEachTime = true := by
  cases target with
  | bolt11 invoice amountMsat description expirySecs => exact fresh
  | bolt12Offer offer amountMsat description => rfl
  | lnurlPay url => rfl
  | lightningAddress user domain => rfl
  | onChain address amountSat => cases fresh
  | unified address amountSat lightning => exact direct.elim

end Fortis.Lightning.Links.LnTarget

namespace Fortis.Lightning.FreshPay

open Lib Lightning.Pay List Function Proc Nat
open Links (LnTarget)

/-! ## The nodes of a session -/

inductive LnDirection
  | incoming
  | outgoing
  deriving DecidableEq

structure LnPayment where
  id : String
  direction : LnDirection
  status : PaymentStatus
  deriving DecidableEq

namespace LnPayment

def pendingOut (payment : LnPayment) : Bool :=
  payment.direction = .outgoing ∧ payment.status = .pending

/-- The news of how a payment ended. -/
def settle (id : String) (status : PaymentStatus) (payment : LnPayment) : LnPayment :=
  if payment.id = id ∧ payment.status = .pending then { payment with status := status }
  else payment

end LnPayment

/-- ldk-node's payment store, and the sends it could not save. -/
structure LnNode where
  running : Bool
  (saved unsaved : List LnPayment)

namespace LnNode

def pendingOut (node : LnNode) : Bool :=
  node.saved.any LnPayment.pendingOut || node.unsaved.any LnPayment.pendingOut

def payments (node : LnNode) : List LnPayment := if node.running then node.saved else []

def settle (id : String) (status : PaymentStatus) (node : LnNode) : LnNode :=
  { node with
    saved := node.saved.map (LnPayment.settle id status)
    unsaved := node.unsaved.map (LnPayment.settle id status) }

end LnNode

/-- What becomes of a payment handed to a running node. -/
inductive SendOutcome
  | taken (id : String)
  | unpersisted (id : String)
  | refused (error : LnError) (noted : Option String)
  deriving DecidableEq

def LnNode.pay (node : LnNode) (target : LnTarget) (outcome : SendOutcome) :
    LnNode × Except LnError String :=
  match target.prepared with
  | none => (node, .error (.other "not_lightning"))
  | some _ =>
    if ¬ node.running then (node, .error (.other "not_started"))
    else
      match outcome with
      | .taken id => ({ node with saved := ⟨id, .outgoing, .pending⟩ :: node.saved }, .ok id)
      | .unpersisted id =>
        ({ node with unsaved := ⟨id, .outgoing, .pending⟩ :: node.unsaved },
          .error .paymentStateUnknown)
      | .refused error none => (node, .error error)
      | .refused error (some id) =>
        ({ node with saved := ⟨id, .outgoing, .failed⟩ :: node.saved }, .error error)

/-- One reading of a payment list, with whether a pending outgoing payment was missing from it and
how many payments the node had been handed. -/
structure Reading where
  list : Option (List LnPayment)
  missing : Bool
  handed : Nat
  deriving DecidableEq

/-- A payment handed to a node: how many were before it, whether one was pending, and its call's
reading. -/
structure Handed where
  node : Nat
  target : LnTarget
  before : Nat
  pending : Bool
  reading : Option Reading
  deriving DecidableEq

/-- The node objects of a session, `created` of them so far, and the log of the
payments handed to them. -/
structure Session where
  currentNode : Option Nat
  created : Nat
  nodes : Nat → LnNode
  handed : List Handed

namespace Session

def handedTo (session : Session) (node : Nat) : Nat :=
  (session.handed.filter (·.node = node)).length

def put (session : Session) (index : Nat) (node : LnNode) : Session :=
  { session with nodes := update session.nodes index node }

def hand (session : Session) (entry : Handed) (paid : LnNode) : Session :=
  { session.put entry.node paid with handed := entry :: session.handed }

end Session

/-- What a call meets at one action: whether reading the list throws, and what
the node makes of a payment. -/
structure Outside where
  throws : Bool
  send : SendOutcome

abbrev PayProc := Proc Session Outside

def readPayments (node : Nat) : PayProc Reading :=
  .look fun session outside =>
    let list := if outside.throws then none else some (session.nodes node).payments
    { list := list
      missing := (session.nodes node).pendingOut && !(list.any (·.any LnPayment.pendingOut))
      handed := session.handedTo node }

def Reading.pending (reading : Reading) : Bool :=
  (reading.list.map (·.any LnPayment.pendingOut)).getD false

/-- The reading of a call, if its target is one the session guards. -/
def check (node : Nat) (target : LnTarget) : PayProc (Option Reading) :=
  if target.freshEachTime then some <$> readPayments node else pure none

def handOver (node : Nat) (target : LnTarget) (reading : Option Reading) :
    PayProc (Except LnError String) :=
  .act (fun session outside =>
      session.hand ⟨node, target, session.handedTo node, (session.nodes node).pendingOut, reading⟩
        ((session.nodes node).pay target outside.send).1)
    fun session outside => .done ((session.nodes node).pay target outside.send).2

def statusOf (node : Nat) (id : String) : PayProc (Option PaymentStatus) :=
  .look fun session outside =>
    if outside.throws then none
    else ((session.nodes node).payments.find? (·.id = id)).map LnPayment.status

/-- Poll until the payment ended, the session left the node or the deadline passed. -/
def await (node : Nat) (id : String) : Nat → PayProc (Except LnError String)
  | 0 => pure (.error .paymentStateUnknown)
  | polls + 1 => do
    let current ← look fun session _ => session.currentNode
    if current = some node then
      match ← statusOf node id with
      | some .succeeded => return .ok id
      | some .failed => return .error (.other "Payment failed")
      | some .pending | none => await node id polls
    else return .error .paymentStateUnknown

/-- `polls` is how many polls the clock leaves room for before the deadline. -/
def pay (target : LnTarget) (polls : Nat) : PayProc (Except LnError String) := do
  match ← look fun session _ => session.currentNode with
  | none => return .error (.other "lightning not ready")
  | some node =>
    let reading ← check node target
    if reading.any Reading.pending then return .error .paymentStateUnknown
    match ← handOver node target reading with
    | .error error => return .error error
    | .ok id => await node id polls

/-- What happens beside the calls.  A new node object opens a store with whatever
is in it. -/
inductive Event
  | opened (node : LnNode)
  | closed
  | running (node : Nat) (now : Bool)
  | settled (node : Nat) (id : String) (status : PaymentStatus)
  | received (node : Nat) (id : String)

def Session.after (session : Session) : Event → Session
  | .opened node =>
    { session.put session.created node with
      currentNode := some session.created
      created := session.created + 1 }
  | .closed => { session with currentNode := none }
  | .running index now => session.put index { session.nodes index with running := now }
  | .settled index id status => session.put index ((session.nodes index).settle id status)
  | .received index id =>
    session.put index
      { session.nodes index with
        saved := ⟨id, .incoming, .succeeded⟩ :: (session.nodes index).saved }

inductive Request
  | pay (target : LnTarget) (polls : Nat)
  | event (event : Event)

def serve : Request → PayProc Unit
  | .pay target polls => do
    let _ ← pay target polls
  | .event event => .act (fun session _ => session.after event) fun _ _ => .done ()

def Session.new : Session where
  currentNode := none
  created := 0
  nodes := fun _ => ⟨false, [], []⟩
  handed := []

abbrev sessionAfter (moves : List (Move Request Outside)) : Session :=
  Pool.sharedAfter serve Session.new moves

/-- For the nodes there were: more payments handed over, or none newly pending. -/
structure Later (before after : Session) : Prop where
  created : before.created ≤ after.created
  handed : ∀ node, before.handedTo node ≤ after.handedTo node
  calm : ∀ node, node < before.created → after.handedTo node = before.handedTo node →
    (after.nodes node).pendingOut = true → (before.nodes node).pendingOut = true

variable {status : PaymentStatus} {id : String} (session : Session) (own : Option Empty)
  (node : Nat) (target : LnTarget) (event : Event)

theorem Later.refl : Later session session :=
  ⟨le_rfl, fun _ => le_rfl, fun _ _ _ => id⟩

theorem pendingOut_settle {payment : LnPayment}
    (pending : (payment.settle id status).pendingOut = true) : payment.pendingOut = true := by
  unfold LnPayment.settle at pending
  split at pending
  next open' =>
    simp only [LnPayment.pendingOut, decide_eq_true_eq] at pending ⊢
    exact ⟨pending.1, open'.2⟩
  · exact pending

theorem any_settle {payments : List LnPayment}
    (pending : (payments.map (LnPayment.settle id status)).any LnPayment.pendingOut = true) :
    payments.any LnPayment.pendingOut = true := by
  rw [any_map, any_eq_true] at pending
  obtain ⟨payment, mem, isPending⟩ := pending
  exact any_eq_true.mpr ⟨payment, mem, pendingOut_settle isPending⟩

theorem later_put {session : Session} {index : Nat} {node : LnNode}
    (calm : node.pendingOut = true → (session.nodes index).pendingOut = true) :
    Later session (session.put index node) := by
  refine ⟨le_rfl, fun _ => le_rfl, ?_⟩
  intro other _ _ pending
  by_cases same : other = index
  · subst same
    simp only [Session.put, update_self] at pending
    exact calm pending
  · simpa only [Session.put, update_of_ne same] using pending

theorem later_after : Later session (session.after event) := by
  cases event with
  | opened node =>
    refine ⟨le_succ _, fun _ => le_rfl, ?_⟩
    intro other old _ pending
    have ne : other ≠ session.created := Nat.ne_of_lt old
    simpa only [Session.after, Session.put, update_of_ne ne] using pending
  | closed => exact ⟨le_rfl, fun _ => le_rfl, fun _ _ _ pending => pending⟩
  | running index now => exact later_put fun pending => pending
  | settled index id status =>
    refine later_put fun pending => ?_
    simp only [LnNode.pendingOut, LnNode.settle, Bool.or_eq_true] at pending ⊢
    exact pending.imp any_settle any_settle
  | received index id =>
    refine later_put fun pending => ?_
    simpa [LnNode.pendingOut, LnPayment.pendingOut] using pending

theorem handed_after : (session.after event).handed = session.handed := by
  cases event <;> rfl

/-! ## The guard -/

/-- The session guarded the payment by a reading, and if that missed nothing, none was pending. -/
def Handed.Guarded (handed : Handed) : Prop :=
  handed.target.freshEachTime = true → ∃ reading, handed.reading = some reading ∧
    (reading.missing = false → reading.handed = handed.before → handed.pending = false)

structure Sound (session : Session) : Prop where
  guarded : ∀ handed ∈ session.handed, handed.Guarded
  current : ∀ node, session.currentNode = some node → node < session.created

/-- Calls own nothing: each relies on what any action does to the payments. -/
def discipline : Discipline Session Empty where
  inv := Sound
  good _ := True
  owned _ _ := False
  rely _ := Later
  refl _ := Later.refl
  stays _ owned := owned

theorem step_of_later {before after : Session} (sound : Sound after) (later : Later before after) :
    discipline.Step none none before after where
  inv := sound
  others _ _ := later
  taken _ impossible := nomatch impossible
  held _ impossible := nomatch impossible

def Known (node : Nat) (session : Session) : Prop := node < session.created

/-- The reading still tells what is pending, unless a payment was handed over since. -/
structure Clear (node : Nat) (reading : Reading) (session : Session) : Prop where
  known : Known node session
  since : reading.handed ≤ session.handedTo node
  calm : reading.missing = false → reading.pending = false →
    session.handedTo node = reading.handed → (session.nodes node).pendingOut = false

theorem stable_known : discipline.Stable own (Known node) :=
  fun _ _ later known => lt_of_lt_of_le known later.created

theorem stable_clear (reading : Reading) : discipline.Stable own (Clear node reading) := by
  intro before after later clear
  refine ⟨stable_known own node later clear.known, le_trans clear.since (later.handed node), ?_⟩
  intro complete nothing same
  have still : before.handedTo node = reading.handed :=
    le_antisymm (same ▸ later.handed node) clear.since
  have before' := clear.calm complete nothing still
  by_contra pending
  have now := later.calm node clear.known (same.trans still.symm) (by simpa using pending)
  rw [before'] at now
  cases now

theorem pendingOut_of_missing {node : LnNode} {reading : Reading} (missing : reading.missing =
      (node.pendingOut && !(reading.list.any (·.any LnPayment.pendingOut))))
    (complete : reading.missing = false) (nothing : reading.pending = false) :
    node.pendingOut = false := by
  rw [complete] at missing
  have unseen : reading.list.any (·.any LnPayment.pendingOut) = false := by
    rcases list : reading.list with _ | payments
    · rfl
    simpa only [Reading.pending, list, Option.map_some, Option.getD_some, Option.any_some]
      using nothing
  rw [unseen] at missing
  simpa using missing.symm

/-- A guarded call knows what its reading tells; any other only its node. -/
def Checked (node : Nat) (target : LnTarget) (reading : Option Reading) (session : Session) :
    Prop :=
  Known node session ∧ (target.freshEachTime = true → ∃ seen, reading = some seen ∧
    Clear node seen session)

theorem readPayments_triple :
    (readPayments node).Triple discipline none (Known node) (fun _ => none) (Clear node) := by
  refine triple_look (fun reading => stable_clear none node reading) ?_
  intro session outside _ _ known
  exact ⟨known, le_rfl, fun complete nothing _ => pendingOut_of_missing rfl complete nothing⟩

theorem check_triple : (check node target).Triple discipline none (Known node) (fun _ => none)
      (Checked node target) := by
  unfold check
  split
  next fresh =>
    refine Triple.bind (readPayments_triple node) fun reading => ⟨rfl, ?_⟩
    intro session clear
    exact ⟨clear.known, fun _ => ⟨reading, rfl, clear⟩⟩
  next plain =>
    refine ⟨rfl, fun session known => ⟨known, fun fresh => absurd fresh plain⟩⟩

theorem handedTo_hand (entry : Handed) (paid : LnNode) (node : Nat) :
    (session.hand entry paid).handedTo node =
      session.handedTo node + if entry.node = node then 1 else 0 := by
  unfold Session.handedTo Session.hand
  rw [filter_cons]
  by_cases same : entry.node = node
  · simp [same]
  · simp [same]

theorem handOver_triple (reading : Option Reading) :
    (handOver node target reading).Triple discipline none
      (fun session => Checked node target reading session ∧ reading.any Reading.pending = false)
      (fun _ => none) fun _ _ => True := by
  refine triple_action (fun _ => discipline.stable_true _) ?_
  rintro session outside sound - - ⟨⟨known, checked⟩, nothing⟩ -
  refine ⟨step_of_later ⟨?_, sound.current⟩ ?_, trivial⟩
  · intro handed mem
    rcases mem_cons.mp mem with rfl | old
    · intro fresh
      obtain ⟨seen, rfl, clear⟩ := checked fresh
      exact ⟨seen, rfl, fun complete same => clear.calm complete nothing same.symm⟩
    · exact sound.guarded handed old
  refine ⟨le_rfl, fun other => ?_, fun other _ same pending => ?_⟩
  · rw [handedTo_hand]
    exact le_add_right _ _
  rw [handedTo_hand] at same
  have ne : other ≠ node := by
    rintro rfl
    simp at same
  simpa only [Session.hand, Session.put, update_of_ne ne] using pending

theorem look_triple {α : Type} (read : Session → Outside → α) :
    (look read).Triple discipline none (fun _ => True) (fun _ => none) fun _ _ => True :=
  triple_look (fun _ => discipline.stable_true _) fun _ _ _ _ _ => trivial

theorem await_triple (id : String) (polls : Nat) :
    (await node id polls).Triple discipline none (fun _ => True) (fun _ => none) fun _ _ =>
      True := by
  induction polls with
  | zero => exact ⟨rfl, fun _ _ => trivial⟩
  | succ polls ih =>
    refine Triple.bind (look_triple _) fun current => ?_
    split
    · refine Triple.bind (look_triple _) fun status => ?_
      split
      · exact ⟨rfl, fun _ _ => trivial⟩
      · exact ⟨rfl, fun _ _ => trivial⟩
      · exact ih
      · exact ih
    · exact ⟨rfl, fun _ _ => trivial⟩

theorem pay_triple (polls : Nat) :
    (pay target polls).Triple discipline none (fun _ => True) (fun _ => none) fun _ _ => True := by
  have current : (look fun session (_ : Outside) => session.currentNode).Triple discipline
      none (fun _ => True) (fun _ => none)
      fun found session => ∀ node, found = some node → Known node session :=
    triple_look (fun found before after later known node same => stable_known none node later
        (known node same))
      fun session _ sound _ _ => sound.current
  refine Triple.bind current fun found => ?_
  rcases found with _ | node
  · exact ⟨rfl, fun _ _ => trivial⟩
  refine Triple.bind
    ((check_triple node target).weaken fun session known => known node rfl) fun reading => ?_
  split
  · exact ⟨rfl, fun _ _ => trivial⟩
  next nothing =>
  refine Triple.bind ((handOver_triple node target reading).weaken
    fun session checked => ⟨checked, by simpa using nothing⟩) fun answer => ?_
  cases answer with
  | error error => exact ⟨rfl, fun _ _ => trivial⟩
  | ok id => exact await_triple node id polls

theorem sound_after {session : Session} (sound : Sound session) (event : Event) :
    Sound (session.after event) := by
  refine ⟨by rw [handed_after]; exact sound.guarded, ?_⟩
  intro node same
  cases event with
  | opened opened =>
    cases same
    exact lt_succ_self _
  | closed => cases same
  | running index now => exact sound.current node same
  | settled index id status => exact sound.current node same
  | received index id => exact sound.current node same

theorem serve_triple (request : Request) :
    (serve request).Triple discipline none (fun _ => True) (fun _ => none) fun _ _ => True := by
  cases request with
  | pay target polls =>
    exact Triple.bind (pay_triple target polls) fun _ => ⟨rfl, fun _ _ => trivial⟩
  | event event =>
    refine triple_action (fun _ => discipline.stable_true _) ?_
    intro session outside sound _ _ _ _
    exact ⟨step_of_later (sound_after sound event) (later_after session event), trivial⟩

theorem disciplined_run (moves : List (Move Request Outside)) :
    (Pool.run serve ⟨Session.new, []⟩ moves).Disciplined discipline := by
  have start : Sound Session.new := ⟨nofun, nofun⟩
  induction moves using reverseRecOn with
  | nil => exact Pool.disciplined_empty start
  | append_singleton moves last ih =>
    rw [Pool.run_append]
    exact ih.move serve_triple last trivial trivial

/-- A payment without a fixed invoice that is given directly is handed over with none pending,
provided the list its call read missed none and no payment was handed over since. -/
theorem direct_fresh_payment_alone (moves : List (Move Request Outside)) (handed : Handed)
    (logged : handed ∈ (sessionAfter moves).handed) (fresh : handed.target.Fresh)
    (direct : handed.target.Direct) (reading : Reading) (read : handed.reading = some reading)
    (complete : reading.missing = false) (alone : reading.handed = handed.before) :
    handed.pending = false := by
  obtain ⟨seen, same, guarded⟩ := (disciplined_run moves).inv.guarded handed logged
    (LnTarget.freshEachTime_of_fresh fresh direct)
  obtain rfl : reading = seen := Option.some.inj (read.symm.trans same)
  exact guarded complete alone

namespace Sample

def offer : LnTarget := .bolt12Offer "lno1pq" none ""

def share : LnTarget := .bolt11 "lnbc10n1" (some 1000) "" 3600

/-- Decoders that know this offer, and any address. -/
def decoders : Links.Decoders :=
  { Links.addressOnly with offer := fun text => .ok (.bolt12Offer (String.ofList text) none "") }

def link : LnTarget := .unified "bc1q" none (.bolt12Offer "lno1pq" none "")

def taken (id : String) : Outside := ⟨false, .taken id⟩

def opening : List (Move Request Outside) :=
  [.begin (.event (.opened ⟨true, [], []⟩)), .act 0 (taken "")]

def call (index actions : Nat) (target : LnTarget) (outside : Outside) :
    List (Move Request Outside) :=
  .begin (.pay target 1) :: List.replicate actions (.act index outside)

def overlapping : List (Move Request Outside) :=
  opening ++ call 1 2 offer (taken "a") ++ call 2 2 share (taken "b") ++ [.act 1 (taken "a")]

/-- The first offer settles, a payment comes in, and another offer is paid. -/
def settling : List (Move Request Outside) :=
  opening ++ call 1 3 offer (taken "a") ++ call 2 3 offer (taken "b") ++
    [.begin (.event (.settled 0 "a" .succeeded)), .act 3 (taken ""),
      .begin (.event (.received 0 "c")), .act 4 (taken "")] ++ call 5 3 offer (taken "d")

end Sample

open Sample

/-- An offer is refused while the one before it is pending, and paid once that one settled. -/
theorem direct_fresh_payment_alone_settled :
    let seen : List LnPayment := [⟨"c", .incoming, .succeeded⟩, ⟨"a", .outgoing, .succeeded⟩]
    let handed : Handed := ⟨0, offer, 1, false, some ⟨some seen, false, 1⟩⟩
    (sessionAfter (opening ++ call 1 3 offer (taken "a") ++ call 2 3 offer (taken "b"))).handed =
        [⟨0, offer, 0, false, some ⟨some [], false, 0⟩⟩] ∧
      handed ∈ (sessionAfter settling).handed ∧ handed.pending = false := by
  have logged : (⟨0, offer, 1, false, some ⟨some [⟨"c", .incoming, .succeeded⟩,
      ⟨"a", .outgoing, .succeeded⟩], false, 1⟩⟩ : Handed) ∈ (sessionAfter settling).handed := by
    decide
  exact ⟨by decide, logged,
    direct_fresh_payment_alone settling _ logged (by decide) trivial _ rfl rfl rfl⟩

/-- A link's offer is not guarded, an unreadable list guards nothing, and an invoice may come
between. -/
theorem fresh_payment_beside_pending :
    (Links.parseAt decoders 2 "bitcoin:bc1q?lno=lno1pq".toList).ending = .ok link ∧ link.Fresh ∧
      offer.Fresh ∧ (⟨0, link, 1, true, none⟩ : Handed) ∈ (sessionAfter
        (opening ++ call 1 3 offer (taken "a") ++ call 2 2 link (taken "b"))).handed ∧
      (⟨0, offer, 1, true, some ⟨none, true, 1⟩⟩ : Handed) ∈ (sessionAfter
        (opening ++ call 1 3 offer (taken "a") ++ call 2 3 offer ⟨true, .taken "b"⟩)).handed ∧
      (⟨0, offer, 1, true, some ⟨some [], false, 0⟩⟩ : Handed) ∈
        (sessionAfter overlapping).handed := by
  refine ⟨?_, by decide, by decide, ?_, ?_, ?_⟩ <;> decide +kernel

end Fortis.Lightning.FreshPay
