import Fortis.Core.Machine

/-!
# The swap machine over whole histories

A deep confirmation of the counterparty's funding, and a revealed preimage, are
taken in any state and overwrite it.  What the machine has reached is kept exactly
as long as no such event comes to it.
-/

namespace Fortis.Core.SwapMachine

open SwapState SwapEvent List

def run (machine : SwapMachine) (events : List SwapEvent) : SwapMachine :=
  events.foldl onEvent machine

section Events

variable (params : SwapParams)

/-- The counterparty's funding, as deep as the machine asks for. -/
def deepFunding : SwapEvent → Bool
  | .counterpartyFunded confirmations => params.requiredIncomingConfs ≤ confirmations
  | _ => false

/-- The wallet's own output, as deep as the machine asks for. -/
def deepOutput : SwapEvent → Bool
  | .ourOutputConfirmed confirmations => params.requiredIncomingConfs ≤ confirmations
  | _ => false

def reveals : SwapEvent → Bool
  | .counterpartyRedeemed _ => true
  | _ => false

/-- The event leaves a redeemed machine without its preimage. -/
def forgets (preimage : Fixed 32) : SwapEvent → Bool
  | .counterpartyRedeemed other => other ≠ preimage
  | event => deepFunding params event

end Events

variable {machine : SwapMachine} {event : SwapEvent} {events : List SwapEvent} {preimage : Fixed 32}

@[simp] theorem onEvent_params : (machine.onEvent event).params = machine.params := rfl

theorem run_params : (machine.run events).params = machine.params := by
  induction events generalizing machine with
  | nil => rfl
  | cons event rest ih => exact ih.trans onEvent_params

theorem run_append (later : List SwapEvent) :
    machine.run (events ++ later) = (machine.run events).run later :=
  foldl_append

/-! ## Redeemed machines -/

/-- Along the events the machine knows the preimage, until it is settled. -/
def Keeps (preimage : Fixed 32) : SwapMachine → List SwapEvent → Prop
  | machine, [] => machine.state = redeemed preimage
  | machine, event :: rest => machine.state = redeemed preimage ∧
    ((machine.onEvent event).state = settled ∨ (machine.onEvent event).Keeps preimage rest)

theorem state_of_keeps (keeps : machine.Keeps preimage events) :
    machine.state = redeemed preimage := by
  cases events with
  | nil => exact keeps
  | cons event rest => exact keeps.1

/-- What one event makes of a redeemed machine. -/
theorem onEvent_redeemed (event : SwapEvent) (held : machine.state = redeemed preimage) :
    ((machine.onEvent event).state = settled ↔ deepOutput machine.params event = true) ∧
      (deepOutput machine.params event = false →
        ((machine.onEvent event).state = redeemed preimage ↔
          forgets machine.params preimage event = false)) := by
  cases event with
  | counterpartyFunded confirmations =>
    simp only [onEvent, held, deepOutput, forgets, deepFunding, decide_eq_false_iff_not]
    split <;> simp_all
  | ourOutputConfirmed confirmations =>
    simp only [onEvent, held, deepOutput, forgets, deepFunding, decide_eq_true_eq,
      decide_eq_false_iff_not]
    split <;> simp_all
  | _ => simp [onEvent, held, deepOutput, forgets, deepFunding]

theorem keeps_iff (held : machine.state = redeemed preimage) : machine.Keeps preimage events ↔
      ∀ event ∈ events.takeWhile (!deepOutput machine.params ·),
        forgets machine.params preimage event = false := by
  induction events generalizing machine with
  | nil => simp [Keeps, held]
  | cons event rest ih =>
    obtain ⟨settles, stays⟩ := onEvent_redeemed event held
    rw [Keeps, and_iff_right held, settles]
    cases own : deepOutput machine.params event with
    | true => simp [own]
    | false =>
      simp only [takeWhile_cons, own, Bool.not_false, if_true, forall_mem_cons, ← stays own,
        Bool.false_eq_true, false_or]
      constructor
      · intro keeps
        exact ⟨state_of_keeps keeps, (ih (state_of_keeps keeps)).mp keeps⟩
      · rintro ⟨still, quiet⟩
        exact (ih still).mpr quiet

/-! ## Settled and refunded machines -/

/-- Along the events the machine never leaves its state. -/
def Stays : SwapMachine → List SwapEvent → Prop
  | _, [] => True
  | machine, event :: rest =>
    (machine.onEvent event).state = machine.state ∧ (machine.onEvent event).Stays rest

theorem stays_iff (held : machine.state = settled ∨ machine.state = refunded) :
    machine.Stays events ↔
      ∀ event ∈ events, deepFunding machine.params event = false ∧ reveals event = false := by
  induction events generalizing machine with
  | nil => simp [Stays]
  | cons event rest ih =>
    have here : (machine.onEvent event).state = machine.state ↔
        deepFunding machine.params event = false ∧ reveals event = false := by
      rcases held with held | held <;> cases event <;>
        simp [onEvent, held, deepFunding, reveals]
    rw [Stays, forall_mem_cons, here]
    refine and_congr_right fun quiet => ?_
    exact ih (by rwa [here.mpr quiet])

/-! ## Funded machines -/

/-- Without a preimage a machine that waits for the counterparty to redeem does not stop waiting. -/
theorem run_confirmed (silent : ∀ event ∈ events, reveals event = false)
    (held : machine.state = counterpartyFundingConfirmed) :
    (machine.run events).state = counterpartyFundingConfirmed := by
  induction events generalizing machine with
  | nil => exact held
  | cons event rest ih =>
    obtain ⟨quiet, others⟩ := forall_mem_cons.mp silent
    refine ih others ?_
    cases event <;> simp_all [onEvent, reveals]

/-- A deep confirmation decides what a run without a preimage ends in. -/
theorem run_deep (silent : ∀ event ∈ events, reveals event = false)
    (deep : ∃ event ∈ events, deepFunding machine.params event = true) :
    (machine.run events).state = counterpartyFundingConfirmed := by
  induction events generalizing machine with
  | nil => simp at deep
  | cons event rest ih =>
    obtain ⟨_, others⟩ := forall_mem_cons.mp silent
    obtain ⟨found, mem, isDeep⟩ := deep
    rcases mem_cons.mp mem with rfl | later
    · have waits : (machine.onEvent found).state = counterpartyFundingConfirmed := by
        cases found <;> simp_all [onEvent, deepFunding]
      have stays := run_confirmed others waits
      exact stays
    · exact ih others ⟨found, later, isDeep⟩

/-- A funded machine waits or is refunded while neither a preimage nor a deep confirmation comes. -/
theorem run_funded {txid : Txid} (silent : ∀ event ∈ events, reveals event = false)
    (shallow : ∀ event ∈ events, deepFunding machine.params event = false)
    (held : machine.state = .ourFundingBroadcast txid ∨ machine.state = refunded) :
    (machine.run events).state = .ourFundingBroadcast txid ∨
      (machine.run events).state = refunded := by
  induction events generalizing machine with
  | nil => exact held
  | cons event rest ih =>
    obtain ⟨quiet, others⟩ := forall_mem_cons.mp silent
    obtain ⟨here, later⟩ := forall_mem_cons.mp shallow
    refine ih others later ?_
    rcases held with held | held <;> cases event <;> simp_all [onEvent, reveals, deepFunding]

theorem refunded_iff {txid : Txid} (silent : ∀ event ∈ events, reveals event = false)
    (held : machine.state = .ourFundingBroadcast txid) :
    (machine.run (events ++ [timelockExpired])).state = refunded ↔
      ∀ event ∈ events, deepFunding machine.params event = false := by
  rw [run_append]
  change ((machine.run events).onEvent timelockExpired).state = refunded ↔ _
  constructor
  · intro expired event mem
    by_contra deep
    have waits := run_deep silent ⟨event, mem, Bool.of_not_eq_false deep⟩
    simp [onEvent, waits] at expired
  · intro shallow
    rcases run_funded silent shallow (.inl held) with waits | waits <;> simp [onEvent, waits]

/-- What a machine has reached is kept exactly until an event comes that overwrites it: a deep
confirmation or another preimage before a redeemed machine is settled, a deep confirmation or any
preimage after it is settled or refunded, a deep confirmation before the timelock of a funded
machine expires. -/
theorem machine_goes_forward (params : SwapParams) (events later : List SwapEvent) :
    let reached := (new params).run events
    (∀ preimage, reached.state = redeemed preimage → (reached.Keeps preimage later ↔
      ∀ event ∈ later.takeWhile (!deepOutput params ·), forgets params preimage event = false)) ∧
    (reached.state = settled ∨ reached.state = refunded → (reached.Stays later ↔
      ∀ event ∈ later, deepFunding params event = false ∧ reveals event = false)) ∧
    ∀ txid, reached.state = .ourFundingBroadcast txid → (∀ event ∈ later, reveals event = false) →
        ((reached.run (later ++ [timelockExpired])).state = refunded ↔
          ∀ event ∈ later, deepFunding params event = false) := by
  have same : ((new params).run events).params = params := run_params
  refine ⟨fun preimage held => ?_, fun held => ?_, fun txid held silent => ?_⟩
  · rw [keeps_iff held, same]
  · rw [stays_iff held, same]
  · rw [refunded_iff silent held, same]

def blank : SwapParams :=
  let key : PublicKey := ⟨⟨List.replicate 33 0, rfl⟩⟩
  ⟨⟨List.replicate 16 0, rfl⟩, .initiator, .xbt, .btc, 1, 1, OutPoint.null.txid, key, key, key, key,
    2, 1, 1, 2⟩

/-- A whole swap: funded, confirmed and redeemed, it keeps the preimage while its own output is
still shallow; settled, it stays so. -/
theorem machine_goes_forward_swap :
    let funded := SwapEvent.ourFundingBroadcast OutPoint.null.txid
    let swap := [funded, .counterpartyFunded 5, .counterpartyRedeemed OutPoint.null.txid]
    let own := SwapEvent.ourOutputConfirmed
    ((new blank).run swap).Keeps OutPoint.null.txid [own 0, .counterpartyFunded 0, own 3] ∧
      ((new blank).run (swap ++ [own 3])).Stays [own 4, timelockExpired] ∧
      ((new blank).run ([funded] ++ [.counterpartyFunded 0, timelockExpired])).state =
        refunded := by
  refine ⟨((machine_goes_forward blank _ _).1 _ rfl).mpr (by decide),
    ((machine_goes_forward blank _ _).2.1 (.inl rfl)).mpr (by decide), ?_⟩
  exact ((machine_goes_forward blank [.ourFundingBroadcast OutPoint.null.txid]
    [.counterpartyFunded 0]).2.2 OutPoint.null.txid rfl (by decide)).mpr (by decide)

/-- Late confirmations: a preimage is forgotten, a settled or refunded machine waits again. -/
theorem late_confirmation_overwrites :
    let deep := SwapEvent.counterpartyFunded blank.requiredIncomingConfs
    let seen := SwapEvent.ourOutputConfirmed blank.requiredIncomingConfs
    let revealed := SwapEvent.counterpartyRedeemed OutPoint.null.txid
    let funded := SwapEvent.ourFundingBroadcast OutPoint.null.txid
    let waiting : SwapMachine := { new blank with state := .counterpartyFundingConfirmed }
    (new blank).run [revealed, deep] = waiting ∧
    (new blank).run [revealed, seen, deep] = waiting ∧
    (new blank).run [funded, timelockExpired, deep] = waiting := by
  simp [run, onEvent, new]

end Fortis.Core.SwapMachine
