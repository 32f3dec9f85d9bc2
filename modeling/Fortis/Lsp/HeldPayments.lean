import Fortis.Lsp.Custody

/-!
# Held payments

A payment held for a phone is forwarded to it by a keysend and then claimed, or claimed and credited
to the phone's account when its deadline is near, or given back.  The handlers are followed
statement by statement, so that a run can be cut after the call and before any of them.
-/

namespace Fortis.Lsp

open Fortis.Core Lib List Ledger Desk

/-! ## Statements -/

/-- The rows of one payment changed. -/
def Desk.alter (desk : Desk) (paymentHash : Fixed 32) (change : HeldRow -> HeldRow) : Desk :=
  { desk with
    held := desk.held.map fun row => if row.paymentHash = paymentHash then change row else row }

section

variable (paymentHash : Fixed 32)

def setState (state : HeldState) : DeskM PUnit :=
  modify fun desk => desk.alter paymentHash fun row => { row with state }

def setClaimable (amountMsat : Nat) (deadline : Option Nat) : DeskM PUnit :=
  modify fun desk => desk.alter paymentHash fun row =>
    { row with claimableMsat := some (asI64 amountMsat), deadline }

def setForward (forwardId : Option (Fixed 32)) : DeskM PUnit :=
  modify fun desk => desk.alter paymentHash fun row => { row with forwardId }

end

def inOrder : List (DeskM PUnit) -> DeskM PUnit
  | [] => pure ⟨⟩
  | first :: rest => do
    first
    inOrder rest

/-- The statements of `held_update`. -/
def updates (paymentHash : Fixed 32) (state : HeldState) (claimable : Option (Nat × Option Nat))
    (forwardId : Option (Option (Fixed 32))) : List (DeskM PUnit) :=
  setState paymentHash state ::
    (claimable.map fun known => setClaimable paymentHash known.1 known.2).toList ++
    (forwardId.map (setForward paymentHash)).toList

theorem alter_alter (desk : Desk) (hash : Fixed 32) {first second : HeldRow -> HeldRow}
    (same : ∀ row, (first row).paymentHash = row.paymentHash) :
    (desk.alter hash first).alter hash second = desk.alter hash fun row => second (first row) := by
  unfold alter
  simp only [map_map]
  congr 1
  refine map_congr_left fun row _ => ?_
  by_cases own : row.paymentHash = hash
  · simp [own, same]
  · simp [own]

section Payments

variable {desk : Desk} {hash : Fixed 32} {held row : HeldRow} {change : HeldRow -> HeldRow}
  {id : Fixed 32}

theorem heldGet_eq_some (found : desk.heldGet hash = some held) :
    held ∈ desk.held /\ held.paymentHash = hash :=
  ⟨mem_of_find?_eq_some found, by simpa using find?_some found⟩

theorem heldGet_alter (desk : Desk) (hash : Fixed 32)
    (named : ∀ row, (change row).paymentHash = row.paymentHash) :
    (desk.alter hash change).heldGet hash = (desk.heldGet hash).map change := by
  unfold heldGet alter
  induction desk.held with
  | nil => rfl
  | cons row rest ih =>
    by_cases own : row.paymentHash = hash
    · simp [own, named]
    rw [map_cons, if_neg own, find?_cons_of_neg (by simpa using own),
      find?_cons_of_neg (by simpa using own)]
    exact ih

theorem heldGet_of_mem (nodup : (desk.held.map HeldRow.paymentHash).Nodup)
    (mem : row ∈ desk.held) : desk.heldGet row.paymentHash = some row := by
  rcases found : desk.heldGet row.paymentHash with _ | other
  · have differs := find?_eq_none.mp found row mem
    simp at differs
  obtain ⟨another, same⟩ := heldGet_eq_some found
  rw [inj_on_of_nodup_map nodup another mem same]

theorem inOrder_updates (hash : Fixed 32) (state : HeldState)
    (claimable : Option (Nat × Option Nat)) (forwardId : Option (Option (Fixed 32))) (desk : Desk) :
    inOrder (updates hash state claimable forwardId) desk =
      heldUpdate hash state claimable forwardId desk := by
  have ends (change : HeldRow -> HeldRow) (same : ∀ row, row.paymentHash = hash ->
        change row = row.updated hash state claimable forwardId) :
      desk.alter hash change = { desk with
        held := desk.held.map fun row => row.updated hash state claimable forwardId } := by
    unfold alter
    congr 1
    refine map_congr_left fun row _ => ?_
    by_cases own : row.paymentHash = hash
    · rw [if_pos own, same row own]
    · rw [if_neg own, HeldRow.updated, if_neg own]
  cases claimable <;> cases forwardId
  all_goals
    refine congrArg (EStateM.Result.ok PUnit.unit) ?_
    simp only [alter_alter, implies_true]
    exact ends _ fun row own => by simp [HeldRow.updated, own]

/-! ## Calls to the node -/

inductive NodeCall
  | claim (amountMsat : Nat)
  | giveBack
  | forward (id : Fixed 32)

section

variable (outside : Outside) (ledger : Ledger) (held : HeldRow)

/-- What `settle_into_account` asks of the node. -/
def settleCall (amount : Nat) : Option NodeCall :=
  match totalCustodyMsat ledger with
  | .error _ _ => none
  | .ok total _ =>
    if outside.custodyMaxMsat > 0 /\ outside.custodyMaxMsat - total >= amount then
      if outside.claims held.paymentHash amount held.preimage then some (.claim amount) else none
    else some .giveBack

/-- What `deliver` asks of the node: the call it made, if the node took it. -/
def deliverCall : Option NodeCall :=
  match held.claimableMsat with
  | none => none
  | some amount =>
    if held.state ≠ .claimable then none
    else if min (outside.height + safetyBlocks) u32Max >= held.deadline.getD u32Max then
      settleCall outside ledger held amount
    else if outside.peers.connected held.node /\ outside.peers.roomMsat held.node >= amount /\
        min (outside.height + 2 * safetyBlocks) u32Max < held.deadline.getD u32Max then
      (outside.sends amount held.node).map .forward
    else none

end

/-- The statements after the call. -/
def NodeCall.writes (outside : Outside) (held : HeldRow) : NodeCall -> List (DeskM PUnit)
  | .claim amount =>
    onLedger (discard (credit outside.nowSecs held.node held.paymentHash amount)) ::
      updates held.paymentHash .credited none none
  | .giveBack => updates held.paymentHash .failed none none
  | .forward id => updates held.paymentHash .forwarding none (some (some id))

theorem totalCustody_keeps (ledger : Ledger) :
    wp totalCustodyMsat (fun _ after => after = ledger) (Unchanged ledger) ledger := by
  unfold totalCustodyMsat
  simp only [wp_bind, wp_get, wp_abortIf, wp_pure]
  split
  · trivial
  split
  · trivial
  · trivial

theorem deliver_eq_call (outside : Outside) (held : HeldRow) (desk : Desk) :
    finalState (deliver outside held) desk =
      finalState (inOrder ((deliverCall outside desk.ledger held).elim []
        (NodeCall.writes outside held))) desk := by
  have settles (amount : Nat) : finalState (settleIntoAccount outside held amount) desk =
      finalState (inOrder ((settleCall outside desk.ledger held amount).elim []
        (NodeCall.writes outside held))) desk := by
    have kept := totalCustody_keeps desk.ledger
    unfold wp at kept
    unfold settleIntoAccount settleCall
    simp only [finalState, bind, EStateM.bind, onLedger]
    rcases read : totalCustodyMsat desk.ledger with ⟨total, after⟩ | ⟨raised, after⟩
    swap
    · simp only [read] at kept
      subst kept
      rfl
    simp only [read] at kept
    subst kept
    by_cases room : outside.custodyMaxMsat > 0 /\ outside.custodyMaxMsat - total >= amount
    · by_cases taken : outside.claims held.paymentHash amount held.preimage = true
      · simp only [if_pos room, if_pos taken, Option.elim_some, NodeCall.writes, inOrder, bind,
          EStateM.bind]
        cases onLedger (discard (credit outside.nowSecs held.node held.paymentHash amount))
          desk with
        | error raised after => rfl
        | ok value after =>
          dsimp only
          rw [inOrder_updates]
      simp only [if_pos room, if_neg taken]
      rfl
    simp only [if_neg room, Option.elim_some, NodeCall.writes]
    rw [inOrder_updates]
  unfold deliver deliverCall
  rcases held.claimableMsat with _ | amount
  · rfl
  dsimp only
  split
  · rfl
  split
  · exact settles amount
  split
  · cases outside.sends amount held.node with
    | none => rfl
    | some id =>
    simp only [Option.map_some, Option.elim_some, NodeCall.writes, finalState]
    rw [inOrder_updates]
  · rfl

/-! ## Runs -/

structure Forward where
  (id paymentHash : Fixed 32)
  result : Option Bool
  deriving DecidableEq

structure Vault where
  desk : Desk
  forwards : List Forward
  claimed : List (Fixed 32)

/-- A handler is cut after `cut` of its statements, or runs to its end. -/
inductive VaultMove
  | invoice (paymentHash : Fixed 32) (node : PublicKey) (preimage : Fixed 32) (amountMsat : Nat)
  | claimable (paymentHash : Fixed 32) (amountMsat : Nat) (deadline cut : Option Nat)
  | look (outside : Outside) (paymentHash : Fixed 32) (cut : Option Nat)
  | resolve (id : Fixed 32) (succeeded : Bool)
  | report (outside : Outside) (id : Fixed 32) (cut : Option Nat)
  /-- Whatever else is done to the ledger. -/
  | book (op : Op)

def NodeCall.forwards (paymentHash : Fixed 32) : NodeCall -> List Forward
  | .forward id => [⟨id, paymentHash, none⟩]
  | _ => []

def NodeCall.claims (paymentHash : Fixed 32) : NodeCall -> List (Fixed 32)
  | .claim _ => [paymentHash]
  | _ => []

def upTo (cut : Option Nat) (writes : List (DeskM PUnit)) : List (DeskM PUnit) :=
  match cut with
  | none => writes
  | some count => writes.take count

def Desk.after (desk : Desk) (cut : Option Nat) (writes : List (DeskM PUnit)) : Desk :=
  finalState (inOrder (upTo cut writes)) desk

def Forward.ends (forward : Forward) (id : Fixed 32) (succeeded : Bool) : Forward :=
  if forward.id = id /\ forward.result = none then { forward with result := some succeeded }
  else forward

namespace Vault

def step (vault : Vault) : VaultMove -> Vault
  | .invoice paymentHash node preimage amountMsat =>
    match vault.desk.heldGet paymentHash with
    | some _ => vault
    | none => { vault with desk := { vault.desk with
        held := vault.desk.held ++
          [⟨paymentHash, node, preimage, asI64 amountMsat, none, none, none, .waiting⟩] } }
  | .claimable paymentHash amountMsat deadline cut =>
    match vault.desk.heldGet paymentHash with
    | none => vault
    | some held =>
      if held.state = .waiting then { vault with
        desk := vault.desk.after cut
          (updates paymentHash .claimable (some (amountMsat, deadline)) none) }
      else vault
  | .look outside paymentHash cut =>
    match vault.desk.heldGet paymentHash with
    | none => vault
    | some held =>
      match deliverCall outside vault.desk.ledger held with
      | none => vault
      | some call => {
          desk := vault.desk.after cut (call.writes outside held)
          forwards := vault.forwards ++ call.forwards paymentHash
          claimed := vault.claimed ++ call.claims paymentHash }
  | .resolve id succeeded =>
    { vault with forwards := vault.forwards.map (·.ends id succeeded) }
  | .report outside id cut =>
    match (vault.forwards.find? (·.id = id)).bind Forward.result, vault.desk.heldByForward id with
    | some true, some held =>
      let amount := held.claimableMsat.getD held.amountMsat
      if outside.claims held.paymentHash amount held.preimage then { vault with
        desk := vault.desk.after cut (updates held.paymentHash .done none none)
        claimed := vault.claimed ++ [held.paymentHash] }
      else vault
    | some false, some held => { vault with
        desk := vault.desk.after cut (updates held.paymentHash .claimable none (some none)) }
    | _, _ => vault
  | .book op => { vault with
      desk := { vault.desk with ledger := finalState op.exec vault.desk.ledger } }

def run (vault : Vault) (moves : List VaultMove) : Vault := moves.foldl step vault

def opened : Vault := ⟨⟨⟨.empty, fun _ => none, fun _ => none, fun _ => none⟩, []⟩, [], []⟩

end Vault

theorem after_updates (desk : Desk) (hash : Fixed 32) (state : HeldState)
    (claimable : Option (Nat × Option Nat)) (forwardId : Option (Option (Fixed 32))) :
    desk.after none (updates hash state claimable forwardId) = desk.alter hash fun row => { row with
        state
        claimableMsat := (claimable.map fun known => some (asI64 known.1)).getD row.claimableMsat
        deadline := (claimable.map fun known => known.2).getD row.deadline
        forwardId := forwardId.getD row.forwardId } := by
  unfold Desk.after upTo
  rw [finalState, inOrder_updates]
  rfl

/-! ## The handlers -/

section

variable {vault : Vault} {outside : Outside}

theorem look_desk (found : vault.desk.heldGet hash = some held) :
    (vault.step (.look outside hash none)).desk = finalState (deliver outside held) vault.desk := by
  rw [deliver_eq_call, Vault.step, found]
  dsimp only
  cases deliverCall outside vault.desk.ledger held with
  | none => rfl
  | some call => rfl

theorem heldUpdate_eq (desk : Desk) (hash : Fixed 32) (state : HeldState)
    (claimable : Option (Nat × Option Nat)) (forwardId : Option (Option (Fixed 32))) :
    heldUpdate hash state claimable forwardId desk =
      .ok ⟨⟩ (desk.after none (updates hash state claimable forwardId)) := by
  rw [Desk.after, upTo, finalState, inOrder_updates]
  rfl

/-- A report is the handler of the result. -/
theorem report_desk {succeeded : Bool}
    (ended : (vault.forwards.find? (·.id = id)).bind Forward.result = some succeeded) :
    (vault.step (.report outside id none)).desk =
      finalState (onForwardResult outside id succeeded) vault.desk := by
  rw [Vault.step, ended]
  unfold onForwardResult
  simp only [finalState, bind, EStateM.bind, MonadState.get, getThe, MonadStateOf.get, EStateM.get]
  rcases vault.desk.heldByForward id with _ | held
  · cases succeeded
    · rfl
    · rfl
  rcases succeeded with _ | _
  · dsimp only
    rw [if_neg Bool.false_ne_true, heldUpdate_eq]
  dsimp only
  rw [if_pos rfl]
  split
  · rw [heldUpdate_eq]
  · rfl

/-- A notification is recorded, and the payment looked at. -/
theorem claimable_desk (amount : Nat)
    (deadline : Option Nat) (found : vault.desk.heldGet hash = some held)
    (waits : held.state = .waiting) : (vault.run [.claimable hash amount deadline none,
        .look outside hash none]).desk =
      finalState (onClaimable outside hash amount deadline) vault.desk := by
  have recorded : vault.step (.claimable hash amount deadline none) = { vault with
      desk := vault.desk.after none (updates hash .claimable (some (amount, deadline)) none) } := by
    rw [Vault.step, found]
    dsimp only
    rw [if_pos waits]
  have again : ∃ now, (vault.desk.after none
      (updates hash .claimable (some (amount, deadline)) none)).heldGet hash = some now := by
    rw [after_updates, heldGet_alter, found]
    · exact ⟨_, rfl⟩
    · exact fun _ => rfl
  obtain ⟨now, stored⟩ := again
  rw [Vault.run, foldl_cons, foldl_cons, foldl_nil, recorded, look_desk stored]
  unfold onClaimable
  simp only [finalState, bind, EStateM.bind, MonadState.get, getThe, MonadStateOf.get, EStateM.get,
    found, if_pos waits, heldUpdate_eq, stored]

end

def creditsOf (ledger : Ledger) (node : PublicKey) (paymentHash : Fixed 32) : Nat :=
  (ledger.entries.filter fun row => row.node = key node /\ row.paymentHash = some paymentHash /\
    (row.kind = .received \/ row.kind = .internal)).length

/-- The node takes every claim. -/
def Outside.Claims (outside : Outside) : Prop :=
  ∀ paymentHash amountMsat preimage, outside.claims paymentHash amountMsat preimage = true

/-- Handlers run to their end, the node takes claims, and ids and preimages are new. -/
def Vault.Whole (vault : Vault) : VaultMove -> Prop
  | .invoice paymentHash node _ _ => creditsOf vault.desk.ledger node paymentHash = 0 /\
      paymentHash ∉ vault.claimed /\ ∀ forward ∈ vault.forwards, forward.paymentHash ≠ paymentHash
  | .claimable _ _ _ cut => cut = none
  | .look outside _ cut => cut = none /\ outside.Claims /\ outside.custodyMaxMsat <= i64Max /\
      ∀ amountMsat node id, outside.sends amountMsat node = some id ->
        ∀ forward ∈ vault.forwards, forward.id ≠ id
  | .resolve _ _ => True
  | .report outside _ cut => cut = none /\ outside.Claims
  | .book op => vault.desk.ledger.custody + op.inflow vault.desk.ledger <= i64Max /\
      ∀ row ∈ vault.desk.held,
        creditsOf (finalState op.exec vault.desk.ledger) row.node row.paymentHash =
          creditsOf vault.desk.ledger row.node row.paymentHash

def Vault.WholeRun : Vault -> List VaultMove -> Prop
  | _, [] => True
  | vault, move :: rest => vault.Whole move /\ WholeRun (vault.step move) rest

/-! ## Where a payment has gone -/

variable (forwards : List Forward)

def AllFailed : Prop := ∀ forward ∈ forwards, forward.result = some false

/-- All but the forward `id` failed. -/
def OnlyLive (id : Fixed 32) : Prop :=
  (∃ forward ∈ forwards, forward.id = id) /\
    ∀ forward ∈ forwards, forward.id ≠ id -> forward.result = some false

/-- What the state of a row says of its forwards, its claim and its credits. -/
def Fate (claimed : Bool) (credits : Nat) (row : HeldRow) : Prop :=
  match row.state with
  | .waiting => AllFailed forwards /\ row.forwardId = none /\ claimed = false /\ credits = 0
  | .claimable => AllFailed forwards /\ row.forwardId = none /\ claimed = false /\ credits = 0 /\
      row.claimableMsat ≠ none
  | .forwarding => ∃ id, row.forwardId = some id /\ OnlyLive forwards id /\ claimed = false /\
      credits = 0 /\ row.claimableMsat ≠ none
  | .done => ∃ id, row.forwardId = some id /\ OnlyLive forwards id /\
      (∃ forward ∈ forwards, forward.id = id /\ forward.result = some true) /\ claimed = true /\
      credits = 0
  | .credited => AllFailed forwards /\ row.forwardId = none /\ claimed = true /\ credits = 1
  | .failed => AllFailed forwards /\ row.forwardId = none /\ claimed = false /\ credits = 0

def Vault.forwardsOf (vault : Vault) (paymentHash : Fixed 32) : List Forward :=
  vault.forwards.filter (·.paymentHash = paymentHash)

def Vault.fate (vault : Vault) (row : HeldRow) : Prop :=
  Fate (vault.forwardsOf row.paymentHash) (decide (row.paymentHash ∈ vault.claimed))
    (creditsOf vault.desk.ledger row.node row.paymentHash) row

structure Vault.Kept (vault : Vault) : Prop where
  sound : vault.desk.ledger.Sound
  small : vault.desk.ledger.custody <= i64Max
  hashes : (vault.desk.held.map HeldRow.paymentHash).Nodup
  ids : (vault.forwards.map Forward.id).Nodup
  fates : ∀ row ∈ vault.desk.held, vault.fate row

theorem Vault.kept_opened : Vault.opened.Kept where
  sound := sound_empty
  small := Nat.zero_le _
  hashes := nodup_nil
  ids := nodup_nil
  fates _ member := nomatch member

section Kept

variable {vault : Vault} {outside : Outside} {forward : Forward} {forwards : List Forward}
  {ledger : Ledger} {claimed result : Bool} {hash : Fixed 32} {amount amountMsat credits : Nat}
  {call : NodeCall} {node : PublicKey}

theorem heldByForward_eq_some
    (found : desk.heldByForward id = some held) : held ∈ desk.held /\ held.forwardId = some id :=
  ⟨mem_of_find?_eq_some found, by simpa using find?_some found⟩

theorem Forward.ends_id (forward : Forward) (id : Fixed 32) (succeeded : Bool) :
    (forward.ends id succeeded).id = forward.id := by
  unfold Forward.ends
  split
  · rfl
  · rfl

theorem Forward.ends_hash (forward : Forward) (id : Fixed 32) (succeeded : Bool) :
    (forward.ends id succeeded).paymentHash = forward.paymentHash := by
  unfold Forward.ends
  split
  · rfl
  · rfl

theorem AllFailed.ends (failed : AllFailed forwards) (id : Fixed 32)
    (succeeded : Bool) : AllFailed (forwards.map (·.ends id succeeded)) := by
  intro forward mem
  obtain ⟨before, old, rfl⟩ := mem_map.mp mem
  unfold Forward.ends
  rw [if_neg (by simp [(failed before old)])]
  exact (failed before old)

theorem OnlyLive.ends {live : Fixed 32} (only : OnlyLive forwards live)
    (id : Fixed 32) (succeeded : Bool) : OnlyLive (forwards.map (·.ends id succeeded)) live := by
  obtain ⟨⟨forward, mem, own⟩, rest⟩ := only
  refine ⟨⟨_, mem_map.mpr ⟨forward, mem, rfl⟩, (forward.ends_id id succeeded).trans own⟩, ?_⟩
  intro other another differs
  obtain ⟨before, old, rfl⟩ := mem_map.mp another
  rw [Forward.ends_id] at differs
  unfold Forward.ends
  rw [if_neg (by simp [(rest before old differs)])]
  exact (rest before old differs)

theorem Fate.ends (fate : Fate forwards claimed credits row) (id : Fixed 32) (succeeded : Bool) :
    Fate (forwards.map (·.ends id succeeded)) claimed credits row := by
  unfold Fate at fate ⊢
  cases state : row.state with
  | waiting | claimable | credited | failed =>
    rw [state] at fate
    exact ⟨fate.1.ends id succeeded, fate.2⟩
  | forwarding =>
    rw [state] at fate
    obtain ⟨live, own, only, rest⟩ := fate
    exact ⟨live, own, only.ends id succeeded, rest⟩
  | done =>
    rw [state] at fate
    obtain ⟨live, own, only, ⟨forward, mem, isLive, arrived⟩, rest⟩ := fate
    refine ⟨live, own, only.ends id succeeded, ⟨_, mem_map.mpr ⟨forward, mem, rfl⟩, ?_, ?_⟩, rest⟩
    · exact (forward.ends_id id succeeded).trans isLive
    · unfold Forward.ends
      rw [if_neg (by simp [arrived])]
      exact arrived

theorem credited_of_credits (uncredited : creditsOf ledger node hash = 0) :
    credited ledger (key node) hash = false := by
  unfold creditsOf at uncredited
  rw [length_eq_zero_iff, filter_eq_nil_iff] at uncredited
  unfold credited
  rw [any_eq_false]
  intro row mem
  exact uncredited row mem

theorem wp_credit_counts (sound : ledger.Sound) {now : Nat}
    (uncredited : creditsOf ledger node paymentHash = 0)
    (room : ledger.custody + asI64 amountMsat <= i64Max) :
    wp (credit now node paymentHash amountMsat)
      (fun _ after => (after.Sound /\ after.custody <= i64Max) /\
        creditsOf after node paymentHash = 1 /\
        ∀ other hash, hash ≠ paymentHash ->
          creditsOf after other hash = creditsOf ledger other hash)
      (fun _ _ => False) ledger := by
  have new := credited_of_credits uncredited
  have inflow : (Op.credit now node paymentHash amountMsat).inflow ledger = asI64 amountMsat := by
    simp [Op.inflow, new]
  have booked : wp (credit now node paymentHash amountMsat)
      (fun _ after => after.Sound /\ after.custody <= ledger.custody + asI64 amountMsat)
      (Unchanged ledger) ledger := by
    have kept := wp_exec_custody sound (.credit now node paymentHash amountMsat) (inflow ▸ room)
    rw [inflow, Op.exec, wp_discard] at kept
    exact kept
  have entered : wp (credit now node paymentHash amountMsat)
      (fun _ after => after.entries = ledger.entries ++ [ledger.nextEntry (key node) now .received
        (asI64 amountMsat) 0 (some paymentHash)]) (fun _ _ => False) ledger := by
    simp only [credit, insertCredit, wp_transaction, wp_bind, wp_get, new, Bool.false_eq_true,
      if_false]
    rw [wp_insertEntry, wp_pure, if_pos rfl, wp_bind]
    have integral : (ledger.entered (ledger.nextEntry (key node) now .received
      (asI64 amountMsat) 0 (some paymentHash))).Integral := sound.integral
    have nonneg := sound.balance_nonneg (key node)
    have part := balanceOf_le_custody ledger (key node)
    refine wp_addBalance integral ?_ ?_ rfl
    · rw [balanceOf_entered]
      omega
    rw [balanceOf_entered]
    omega
  refine wp_mono (wp_and booked entered) (fun _ after held => ?_) fun _ _ never => never.2
  obtain ⟨⟨soundAfter, custody⟩, entries⟩ := held
  refine ⟨⟨soundAfter, custody.trans room⟩, ?_, fun other hash differs => ?_⟩
  · unfold creditsOf at uncredited ⊢
    rw [entries, filter_append, length_append, uncredited]
    simp [nextEntry]
  unfold creditsOf
  rw [entries, filter_append, length_append]
  simp [nextEntry, differs.symm]

/-! ## Looks -/

theorem deliverCall_eq_some (called : deliverCall outside ledger held = some call) :
    held.state = .claimable /\ ∃ amount, held.claimableMsat = some amount /\
      (settleCall outside ledger held amount = some call \/
        ∃ id, call = .forward id /\ outside.sends amount held.node = some id) := by
  unfold deliverCall at called
  rcases amounts : held.claimableMsat with _ | amount
  · simp [amounts] at called
  simp only [amounts] at called
  split at called
  · cases called
  next claimable =>
  refine ⟨not_not.mp claimable, amount, rfl, ?_⟩
  split at called
  · exact .inl called
  split at called
  · obtain ⟨id, sent, rfl⟩ := Option.map_eq_some_iff.mp called
    exact .inr ⟨id, rfl, sent⟩
  · cases called

theorem settleCall_eq_some (sound : ledger.Sound)
    (called : settleCall outside ledger held amount = some call) :
    call = .giveBack \/ (call = .claim amount /\
      (amount = 0 \/ ledger.custody + amount <= outside.custodyMaxMsat)) := by
  have read := wp_totalCustody sound
  unfold wp at read
  unfold settleCall at called
  rcases total : totalCustodyMsat ledger with ⟨sum, after⟩ | ⟨raised, after⟩
  swap
  · simp [total] at called
  simp only [total] at called read
  split at called
  next room =>
    split at called
    · cases called
      exact .inr ⟨rfl, by omega⟩
    · cases called
  · cases called
    exact .inl rfl

theorem decide_mem_append_ne {claimed : List (Fixed 32)} {other : Fixed 32}
    (differs : other ≠ hash) : decide (other ∈ claimed ++ [hash]) = decide (other ∈ claimed) := by
  simp [differs]

theorem Fate.named (fate : Fate forwards claimed credits row) (own : row.forwardId = some id) :
    OnlyLive forwards id /\ credits = 0 /\ ((claimed = false /\ row.claimableMsat ≠ none) \/
      ∃ forward ∈ forwards, forward.id = id /\ forward.result = some true) := by
  unfold Fate at fate
  cases state : row.state with
  | waiting | claimable | credited | failed => simp [state, own] at fate
  | forwarding =>
    rw [state] at fate
    obtain ⟨_, same, only, unclaimed, uncredited, known⟩ := fate
    cases own.symm.trans same
    exact ⟨only, uncredited, .inl ⟨unclaimed, known⟩⟩
  | done =>
    rw [state] at fate
    obtain ⟨_, same, only, arrived, _, uncredited⟩ := fate
    cases own.symm.trans same
    exact ⟨only, uncredited, .inr arrived⟩

def HeldState.isFinal : HeldState -> Bool
  | .done | .credited | .failed => true
  | _ => false

theorem totalCustody_reads (sound : ledger.Sound) (small : ledger.custody <= i64Max) :
      ∃ total after, totalCustodyMsat ledger = .ok total after := by
  have whole : (ledger.accounts.rows.any fun row => row.balance ≠ .int row.balance.value) =
    false := by
    rw [any_eq_false]
    intro row mem
    have found := Table.get?_of_mem mem
    have integral := sound.integral row.node row found
    rw [balanceOf, found] at integral
    simpa using integral
  have fits : fitsI64 (ledger.accounts.rows.map fun row => row.balance.value).sum = true := by
    rw [sound.sum_balances]
    simp only [fitsI64, Bool.and_eq_true, decide_eq_true_eq]
    omega
  have reads : wp totalCustodyMsat (fun _ _ => True) (fun _ _ => False) ledger := by
    unfold totalCustodyMsat
    simp only [wp_bind, wp_get, wp_abortIf, wp_pure, whole, fits, Bool.true_eq_false, if_false,
      Bool.false_eq_true]
  obtain ⟨total, after, ran, _⟩ := returns_of_wp reads
  exact ⟨total, after, ran⟩

theorem Vault.look_final (outside : Outside)
    (found : vault.desk.heldGet row.paymentHash = some row) (final : row.state.isFinal = true) :
    vault.step (.look outside row.paymentHash none) = vault := by
  have idle : deliverCall outside vault.desk.ledger row = none := by
    unfold deliverCall
    rcases row.claimableMsat with _ | amount
    · rfl
    have other : row.state ≠ .claimable := by
      intro same
      rw [same] at final
      cases final
    simp [other]
  rw [step, found]
  dsimp only
  rw [idle]

/-- The report of a row's forward, if it has one, and a look at it. -/
def closing (outside : Outside) (row : HeldRow) : List VaultMove :=
  (row.forwardId.map fun id => VaultMove.report outside id none).toList ++
    [.look outside row.paymentHash none]

variable (kept : vault.Kept)
include kept

theorem Vault.Kept.only {other : HeldRow} (mem : row ∈ vault.desk.held)
    (another : other ∈ vault.desk.held) (same : other.paymentHash = row.paymentHash) :
      other = row :=
  inj_on_of_nodup_map kept.hashes another mem same

theorem Vault.Kept.alter {after : Vault} (mem : row ∈ vault.desk.held)
    (held : after.desk.held = (vault.desk.alter row.paymentHash change).held)
    (named : ∀ one, (change one).paymentHash = one.paymentHash)
    (sound : after.desk.ledger.Sound) (small : after.desk.ledger.custody <= i64Max)
    (ids : (after.forwards.map Forward.id).Nodup)
    (others : ∀ other ∈ vault.desk.held, other.paymentHash ≠ row.paymentHash ->
      vault.fate other -> after.fate other) (own : after.fate (change row)) : after.Kept := by
  refine ⟨sound, small, ?_, ids, fun now stored => ?_⟩
  · have same : after.desk.held.map HeldRow.paymentHash =
        vault.desk.held.map HeldRow.paymentHash := by
      rw [held, Desk.alter, map_map]
      refine map_congr_left fun one _ => ?_
      dsimp only [Function.comp_apply]
      split
      · exact named one
      · rfl
    rw [same]
    exact kept.hashes
  rw [held] at stored
  obtain ⟨one, before, rfl⟩ := mem_map.mp stored
  by_cases same : one.paymentHash = row.paymentHash
  · rw [if_pos same, kept.only mem before same]
    exact own
  rw [if_neg same]
  exact others one before same (kept.fates one before)

theorem Vault.Kept.claimable (hash : Fixed 32) (amount : Nat)
    (deadline : Option Nat) : (vault.step (.claimable hash amount deadline none)).Kept := by
  rw [step]
  rcases found : vault.desk.heldGet hash with _ | held
  · exact kept
  obtain ⟨mem, rfl⟩ := heldGet_eq_some found
  dsimp only
  split
  next waits =>
    rw [after_updates]
    refine kept.alter mem rfl (fun _ => rfl) kept.sound kept.small kept.ids (fun _ _ _ => id) ?_
    have fate := kept.fates held mem
    unfold Vault.fate Fate at fate ⊢
    rw [waits] at fate
    obtain ⟨failed, unset, unclaimed, uncredited⟩ := fate
    exact ⟨failed, unset, unclaimed, uncredited, Option.some_ne_none _⟩
  · exact kept

theorem Vault.Kept.invoice {preimage : Fixed 32}
    (whole : vault.Whole (.invoice paymentHash node preimage amountMsat)) :
    (vault.step (.invoice paymentHash node preimage amountMsat)).Kept := by
  obtain ⟨uncredited, unclaimed, unsent⟩ := whole
  rw [step]
  cases found : vault.desk.heldGet paymentHash with
  | some held => exact kept
  | none =>
    have new : ∀ row ∈ vault.desk.held, row.paymentHash ≠ paymentHash := by
      intro row mem
      have differs := find?_eq_none.mp found row mem
      simpa using differs
    refine ⟨kept.sound, kept.small, ?_, kept.ids, fun row stored => ?_⟩
    · rw [map_append, map_cons, map_nil]
      refine List.Nodup.append kept.hashes (nodup_singleton _) ?_
      intro hash old isNew
      obtain ⟨row, mem, rfl⟩ := mem_map.mp old
      exact new row mem (mem_singleton.mp isNew)
    rcases mem_concat.mp stored with old | rfl
    · exact kept.fates row old
    refine ⟨fun forward mem => ?_, rfl, by simpa using unclaimed, uncredited⟩
    obtain ⟨sent, own⟩ := mem_filter.mp mem
    exact absurd (by simpa using own) (unsent forward sent)

theorem Vault.Kept.book {op : Op} (whole : vault.Whole (.book op)) :
    (vault.step (.book op)).Kept := by
  obtain ⟨room, credits⟩ := whole
  have final : (finalState op.exec vault.desk.ledger).Sound /\
      (finalState op.exec vault.desk.ledger).custody <= i64Max := by
    refine finalState_cases (wp_exec_custody kept.sound op room)
      (fun _ after moved => ⟨moved.1, moved.2.trans room⟩) ?_
    rintro _ _ rfl
    exact ⟨kept.sound, kept.small⟩
  refine ⟨final.1, final.2, kept.hashes, kept.ids, fun row mem => ?_⟩
  have fate := kept.fates row mem
  unfold Vault.fate at fate ⊢
  rw [show creditsOf (vault.step (.book op)).desk.ledger row.node row.paymentHash = _ from
    credits row mem]
  exact fate

theorem Vault.Kept.resolve (id : Fixed 32) (succeeded : Bool) :
    (vault.step (.resolve id succeeded)).Kept := by
  refine ⟨kept.sound, kept.small, kept.hashes, ?_, fun row mem => ?_⟩
  · have same : (vault.forwards.map (·.ends id succeeded)).map Forward.id =
        vault.forwards.map Forward.id := by
      rw [map_map]
      exact map_congr_left fun forward _ => forward.ends_id id succeeded
    rw [step, same]
    exact kept.ids
  have fate := (kept.fates row mem).ends id succeeded
  have moved : (vault.step (.resolve id succeeded)).forwardsOf row.paymentHash =
      (vault.forwardsOf row.paymentHash).map (·.ends id succeeded) := by
    unfold forwardsOf
    rw [step, filter_map]
    congr 1
    refine filter_congr fun forward _ => ?_
    simp [Forward.ends_hash]
  unfold Vault.fate
  rw [moved]
  exact fate

theorem Vault.Kept.claim_desk (limit : outside.custodyMaxMsat <= i64Max)
    (room : amount = 0 \/ vault.desk.ledger.custody + amount <= outside.custodyMaxMsat)
    (uncredited : creditsOf vault.desk.ledger held.node held.paymentHash = 0) :
    ∃ ledger : Ledger, ledger.Sound /\ ledger.custody <= i64Max /\
      creditsOf ledger held.node held.paymentHash = 1 /\ (∀ other hash, hash ≠ held.paymentHash ->
        creditsOf ledger other hash = creditsOf vault.desk.ledger other hash) /\
      vault.desk.after none ((NodeCall.claim amount).writes outside held) =
        ({ vault.desk with ledger } : Desk).alter held.paymentHash fun row =>
          { row with state := .credited } := by
  have within : asI64 amount <= amount := by
    unfold asI64
    omega
  have fits : vault.desk.ledger.custody + asI64 amount <= i64Max := by
    have small := kept.small
    omega
  have credits : wp (credit outside.nowSecs held.node held.paymentHash amount) _ _
      vault.desk.ledger := wp_credit_counts kept.sound uncredited fits
  obtain ⟨_, ledger, ran, ⟨sound, small⟩, once, others⟩ := returns_of_wp credits
  have made : discard (credit outside.nowSecs held.node held.paymentHash amount)
      vault.desk.ledger = .ok ⟨⟩ ledger := by
    change EStateM.map (fun _ => PUnit.unit) _ _ = _
    rw [EStateM.map, ran]
  refine ⟨ledger, sound, small, once, others, ?_⟩
  simp only [Desk.after, upTo, NodeCall.writes, inOrder, finalState, bind, EStateM.bind,
    onLedger, made]
  exact after_updates { vault.desk with ledger } held.paymentHash .credited none none

theorem Vault.Kept.look (whole : vault.Whole (.look outside hash none)) :
    (vault.step (.look outside hash none)).Kept := by
  obtain ⟨-, claims, limit, fresh⟩ := whole
  rw [step]
  rcases found : vault.desk.heldGet hash with _ | held
  · exact kept
  obtain ⟨mem, rfl⟩ := heldGet_eq_some found
  dsimp only
  rcases called : deliverCall outside vault.desk.ledger held with _ | call
  · exact kept
  obtain ⟨state, amount, amounts, settled | ⟨id, rfl, sent⟩⟩ := deliverCall_eq_some called
  · have fate := kept.fates held mem
    unfold Vault.fate Fate at fate
    rw [state] at fate
    obtain ⟨failed, unset, unclaimed, uncredited, _⟩ := fate
    rcases settleCall_eq_some kept.sound settled with rfl | ⟨rfl, room⟩
    · -- The payment is given back.
      simp only [NodeCall.writes, NodeCall.forwards, NodeCall.claims, append_nil]
      rw [after_updates]
      refine kept.alter mem rfl (fun _ => rfl) kept.sound kept.small kept.ids
        (fun _ _ _ fate => fate) ?_
      exact ⟨failed, unset, unclaimed, uncredited⟩
    -- It is claimed and credited.
    obtain ⟨ledger, sound, small, once, others, desk⟩ :=
      kept.claim_desk limit room uncredited
    simp only [desk, NodeCall.forwards, NodeCall.claims, append_nil]
    refine kept.alter mem rfl (fun _ => rfl) sound small kept.ids
      (fun other _ differs fate => ?_) ?_
    · unfold Vault.fate at fate ⊢
      rw [decide_mem_append_ne differs]
      dsimp only [Desk.alter]
      rw [others other.node other.paymentHash differs]
      exact fate
    refine ⟨failed, unset, ?_, once⟩
    simp
  -- A new forward is under way.
  have fate := kept.fates held mem
  unfold Vault.fate Fate at fate
  rw [state] at fate
  obtain ⟨failed, unset, unclaimed, uncredited, known⟩ := fate
  simp only [NodeCall.writes, NodeCall.forwards, NodeCall.claims, append_nil]
  rw [after_updates]
  refine kept.alter mem rfl (fun _ => rfl) kept.sound kept.small ?_
    (fun other _ differs fate => ?_) ?_
  · rw [map_append, map_cons, map_nil]
    refine List.Nodup.append kept.ids (nodup_singleton _) ?_
    intro one old isNew
    obtain ⟨forward, earlier, rfl⟩ := mem_map.mp old
    exact fresh amount held.node id sent forward earlier (mem_singleton.mp isNew)
  · unfold Vault.fate Vault.forwardsOf at fate ⊢
    dsimp only
    rw [filter_append, filter_cons_of_neg (by simpa using differs.symm), filter_nil, append_nil]
    exact fate
  have sentOnly : OnlyLive (vault.forwardsOf held.paymentHash ++
      [⟨id, held.paymentHash, none⟩]) id := by
    refine ⟨⟨_, mem_append_right _ mem_cons_self, rfl⟩, fun forward among differs => ?_⟩
    rcases mem_concat.mp among with old | rfl
    · exact failed forward old
    exact absurd rfl differs
  refine ⟨id, rfl, ?_, unclaimed, uncredited, known⟩
  unfold forwardsOf
  dsimp only
  rw [filter_append, filter_cons_of_pos (by simp), filter_nil]
  exact sentOnly

theorem Vault.Kept.find_forward (mem : forward ∈ vault.forwards) :
    vault.forwards.find? (·.id = forward.id) = some forward := by
  rcases first : vault.forwards.find? (·.id = forward.id) with _ | one
  · have differs := find?_eq_none.mp first forward mem
    simp at differs
  have named : one.id = forward.id := by simpa using find?_some first
  rw [first, inj_on_of_nodup_map kept.ids mem (mem_of_find?_eq_some first) named.symm]

theorem Vault.Kept.result_of_find
    (found : (vault.forwards.find? (·.id = id)).bind Forward.result = some result) :
    ∀ forward ∈ vault.forwards, forward.id = id -> forward.result = some result := by
  rintro forward mem rfl
  rwa [kept.find_forward mem] at found

theorem Vault.Kept.report (whole : vault.Whole (.report outside id none)) :
      (vault.step (.report outside id none)).Kept := by
  obtain ⟨-, claims⟩ := whole
  rw [step]
  split
  next held ended found =>
    obtain ⟨mem, own⟩ := heldByForward_eq_some found
    have results := kept.result_of_find ended
    rw [if_pos (claims _ _ _), after_updates]
    refine kept.alter mem rfl (fun _ => rfl) kept.sound kept.small kept.ids
      (fun other _ differs fate => ?_) ?_
    · unfold Vault.fate at fate ⊢
      rw [decide_mem_append_ne differs]
      exact fate
    obtain ⟨only, uncredited, _⟩ := (kept.fates held mem).named own
    obtain ⟨forward, among, isLive⟩ := only.1
    refine ⟨id, own, only, ⟨forward, among, isLive, ?_⟩, by simp, uncredited⟩
    exact results forward (mem_filter.mp among).1 isLive
  next held ended found =>
    obtain ⟨mem, own⟩ := heldByForward_eq_some found
    have results := kept.result_of_find ended
    rw [after_updates]
    refine kept.alter mem rfl (fun _ => rfl) kept.sound kept.small kept.ids
      (fun _ _ _ fate => fate) ?_
    obtain ⟨only, uncredited, ⟨unclaimed, known⟩ | ⟨forward, among, isLive, arrived⟩⟩ :=
      (kept.fates held mem).named own
    · refine ⟨fun forward among => ?_, rfl, unclaimed, uncredited, known⟩
      by_cases isLive : forward.id = id
      · exact results forward (mem_filter.mp among).1 isLive
      · exact only.2 forward among isLive
    rw [results forward (mem_filter.mp among).1 isLive] at arrived
    cases arrived
  · exact kept

theorem Vault.Kept.step {move : VaultMove} (whole : vault.Whole move) : (vault.step move).Kept := by
  cases move with
  | invoice hash node preimage amountMsat => exact kept.invoice whole
  | claimable hash amountMsat deadline cut =>
    cases whole
    exact kept.claimable hash amountMsat deadline
  | look outside hash cut =>
    obtain ⟨rfl, rest⟩ := whole
    exact kept.look ⟨rfl, rest⟩
  | resolve id succeeded => exact kept.resolve id succeeded
  | report outside id cut =>
    obtain ⟨rfl, rest⟩ := whole
    exact kept.report ⟨rfl, rest⟩
  | book op => exact kept.book whole

theorem Vault.Kept.run {moves : List VaultMove}
    (whole : vault.WholeRun moves) : (vault.run moves).Kept := by
  induction moves generalizing vault with
  | nil => exact kept
  | cons move rest ih => exact ih (kept.step whole.1) whole.2

/-! ## The end of a payment -/

variable (mem : row ∈ vault.desk.held)
include mem

theorem Vault.Kept.named_hash (own : row.forwardId = some id)
    (only : OnlyLive (vault.forwardsOf hash) id) : row.paymentHash = hash := by
  obtain ⟨first, among, isFirst⟩ := ((kept.fates row mem).named own).1.1
  obtain ⟨second, amongHash, isSecond⟩ := only.1
  obtain ⟨sentFirst, ofRow⟩ := mem_filter.mp among
  obtain ⟨sentSecond, ofHash⟩ := mem_filter.mp amongHash
  have same : first = second :=
    inj_on_of_nodup_map kept.ids sentFirst sentSecond (isFirst.trans isSecond.symm)
  rw [same] at ofRow
  exact (of_decide_eq_true ofRow).symm.trans (of_decide_eq_true ofHash)

/-- A look near the deadline ends a payment that waits for its phone. -/
theorem Vault.Kept.look_ends (state : row.state = .claimable) (claims : outside.Claims)
    (limit : outside.custodyMaxMsat <= i64Max)
    (late : min (outside.height + safetyBlocks) u32Max >= row.deadline.getD u32Max) :
    ∃ now, (vault.step (.look outside row.paymentHash none)).desk.heldGet row.paymentHash =
      some now /\ now.state.isFinal = true := by
  have found := heldGet_of_mem kept.hashes mem
  have fate := kept.fates row mem
  unfold Vault.fate Fate at fate
  rw [state] at fate
  obtain ⟨_, _, _, uncredited, known⟩ := fate
  obtain ⟨amount, amounts⟩ := Option.ne_none_iff_exists'.mp known
  obtain ⟨total, after, read⟩ := totalCustody_reads kept.sound kept.small
  have called : deliverCall outside vault.desk.ledger row =
      settleCall outside vault.desk.ledger row amount := by
    unfold deliverCall
    simp only [amounts, state, ne_eq, not_true_eq_false, if_false, if_pos late]
  rw [Vault.step, found]
  dsimp only
  rw [called]
  rcases settles : settleCall outside vault.desk.ledger row amount with _ | call
  · unfold settleCall at settles
    simp only [read] at settles
    split at settles
    · rw [if_pos (claims _ _ _)] at settles
      cases settles
    · cases settles
  dsimp only
  rcases settleCall_eq_some kept.sound settles with rfl | ⟨rfl, room⟩
  · rw [NodeCall.writes, after_updates, heldGet_alter, found]
    · exact ⟨_, rfl, rfl⟩
    · exact fun _ => rfl
  obtain ⟨ledger, _, _, _, _, desk⟩ := kept.claim_desk limit room uncredited
  rw [desk, heldGet_alter]
  · exact ⟨_, congrArg (Option.map _) found, rfl⟩
  · exact fun _ => rfl

/-- Past the safety margin a paid row reaches a final state. -/
theorem Vault.Kept.ends (paid : row.state ≠ .waiting) (claims : outside.Claims)
    (limit : outside.custodyMaxMsat <= i64Max)
    (late : min (outside.height + safetyBlocks) u32Max >= row.deadline.getD u32Max)
    (resolved : ∀ forward ∈ vault.forwards, forward.paymentHash = row.paymentHash ->
      forward.result ≠ none) :
    ∃ now, (vault.run (closing outside row)).desk.heldGet row.paymentHash = some now /\
      now.state.isFinal = true := by
  have found := heldGet_of_mem kept.hashes mem
  have fate := kept.fates row mem
  unfold Vault.fate Fate at fate
  -- The result of the forward a row names.
  have ended {id : Fixed 32} (only : OnlyLive (vault.forwardsOf row.paymentHash) id) :
      ∃ result, (vault.forwards.find? (·.id = id)).bind Forward.result = some result := by
    obtain ⟨⟨forward, among, rfl⟩, _⟩ := only
    obtain ⟨sent, own⟩ := mem_filter.mp among
    rw [kept.find_forward sent]
    exact Option.ne_none_iff_exists'.mp (resolved forward sent (by simpa using own))
  have settled : row.forwardId = none -> row.state.isFinal = true ->
      ∃ now, (vault.run (closing outside row)).desk.heldGet row.paymentHash = some now /\
        now.state.isFinal = true := by
    intro unset final
    refine ⟨row, ?_, final⟩
    simp only [closing, unset, Option.map_none, Option.toList_none, nil_append, Vault.run,
      foldl_cons, foldl_nil]
    rw [Vault.look_final outside found final]
    exact found
  -- A row with a forward under way or arrived, once its report is handled.
  have reported {id : Fixed 32} (own : row.forwardId = some id)
      (only : OnlyLive (vault.forwardsOf row.paymentHash) id) :
      ∃ now, (vault.run (closing outside row)).desk.heldGet row.paymentHash = some now /\
        now.state.isFinal = true := by
    have byForward : vault.desk.heldByForward id = some row := by
      rcases other : vault.desk.heldByForward id with _ | one
      · have differs := find?_eq_none.mp other row mem
        simp [own] at differs
      obtain ⟨another, named⟩ := heldByForward_eq_some other
      have owner := kept.named_hash another named only
      rw [kept.only mem another owner]
    have whole : vault.Whole (.report outside id none) := ⟨rfl, claims⟩
    have keptAfter := kept.report whole
    obtain ⟨result, isResult⟩ := ended only
    simp only [closing, own, Option.map_some, Option.toList_some, cons_append,
      nil_append, Vault.run, foldl_cons, foldl_nil]
    cases result with
    | true =>
      have desk : (vault.step (.report outside id none)).desk.heldGet row.paymentHash =
          some { row with state := .done } := by
        rw [Vault.step, isResult, byForward]
        dsimp only
        rw [if_pos (claims _ _ _), after_updates, heldGet_alter, found]
        · rfl
        · exact fun _ => rfl
      refine ⟨{ row with state := .done }, ?_, rfl⟩
      have ended : (vault.step (.report outside id none)).desk.heldGet
          ({ row with state := .done } : HeldRow).paymentHash =
            some { row with state := .done } := desk
      have look := Vault.look_final outside ended rfl
      rw [look]
      exact desk
    | false =>
      have desk : (vault.step (.report outside id none)).desk.heldGet row.paymentHash =
          some { row with state := .claimable, forwardId := none } := by
        rw [Vault.step, isResult, byForward]
        dsimp only
        rw [after_updates, heldGet_alter, found]
        · rfl
        · exact fun _ => rfl
      have waits := (heldGet_eq_some desk).1
      have last := keptAfter.look_ends waits rfl claims limit late
      exact last
  cases state : row.state with
  | waiting => exact absurd state paid
  | claimable =>
    rw [state] at fate
    obtain ⟨_, unset, _⟩ := fate
    simp only [closing, unset, Option.map_none, Option.toList_none, nil_append, Vault.run,
      foldl_cons, foldl_nil]
    exact kept.look_ends mem state claims limit late
  | forwarding | done =>
    rw [state] at fate
    obtain ⟨id, own, only, _⟩ := fate
    exact reported own only
  | credited | failed =>
    rw [state] at fate
    exact settled fate.2.1 (by rw [state]; rfl)

end Kept

/-- At most one credit, none for a payment that arrived, and no claim for nothing. -/
theorem Fate.one_way {forwards : List Forward} (fate : Fate forwards claimed credits row) :
    credits <= 1 /\ ((∃ forward ∈ forwards, forward.result = some true) -> credits = 0) /\
      (claimed = true -> (∃ forward ∈ forwards, forward.result = some true) \/ credits = 1) := by
  unfold Fate at fate
  cases state : row.state with
  | waiting | failed =>
    rw [state] at fate
    obtain ⟨_, _, unclaimed, none'⟩ := fate
    exact ⟨by omega, fun _ => none', fun claim => by simp [unclaimed] at claim⟩
  | claimable =>
    rw [state] at fate
    obtain ⟨_, _, unclaimed, none', _⟩ := fate
    exact ⟨by omega, fun _ => none', fun claim => by simp [unclaimed] at claim⟩
  | forwarding =>
    rw [state] at fate
    obtain ⟨_, _, _, unclaimed, none', _⟩ := fate
    exact ⟨by omega, fun _ => none', fun claim => by simp [unclaimed] at claim⟩
  | done =>
    rw [state] at fate
    obtain ⟨_, _, _, ⟨forward, among, _, arrived⟩, _, none'⟩ := fate
    exact ⟨by omega, fun _ => none', fun _ => .inl ⟨forward, among, arrived⟩⟩
  | credited =>
    rw [state] at fate
    obtain ⟨failed, _, _, once⟩ := fate
    refine ⟨by omega, ?_, fun _ => .inr once⟩
    rintro ⟨forward, among, arrived⟩
    rw [failed forward among] at arrived
    cases arrived

def Vault.Forwarded (vault : Vault) (paymentHash : Fixed 32) : Prop :=
  ∃ forward ∈ vault.forwards, forward.paymentHash = paymentHash /\ forward.result = some true

/-- A held payment that arrived was not credited, none is credited twice, one claimed arrived or was
credited, and a look near the deadline leaves it in a final state. -/
theorem held_one_way (moves : List VaultMove) (whole : Vault.opened.WholeRun moves) :
    let vault := Vault.opened.run moves
    ∀ row ∈ vault.desk.held, ¬ (vault.Forwarded row.paymentHash /\
        0 < creditsOf vault.desk.ledger row.node row.paymentHash) /\
      creditsOf vault.desk.ledger row.node row.paymentHash <= 1 /\
      (row.paymentHash ∈ vault.claimed -> vault.Forwarded row.paymentHash \/
        creditsOf vault.desk.ledger row.node row.paymentHash = 1) /\
      (row.state ≠ .waiting -> (∀ forward ∈ vault.forwards, forward.paymentHash = row.paymentHash ->
          forward.result ≠ none) ->
        ∀ outside : Outside, outside.Claims -> outside.custodyMaxMsat <= i64Max ->
          min (outside.height + safetyBlocks) u32Max >= row.deadline.getD u32Max ->
          ∃ now, (vault.run (closing outside row)).desk.heldGet row.paymentHash = some now /\
            now.state.isFinal = true) := by
  intro vault row mem
  have kept : vault.Kept := Vault.kept_opened.run whole
  have among : vault.Forwarded row.paymentHash ↔
      ∃ forward ∈ vault.forwardsOf row.paymentHash, forward.result = some true := by
    simp only [Vault.Forwarded, Vault.forwardsOf, mem_filter, decide_eq_true_eq, and_assoc]
  obtain ⟨once, either, claim⟩ := (kept.fates row mem).one_way
  rw [among]
  refine ⟨fun both => ?_, once, fun claimed => claim (decide_eq_true claimed),
    fun paid resolved outside claims limit late =>
      kept.ends mem paid claims limit late resolved⟩
  have none' := either both.1
  omega

end Payments

namespace HeldSample

open LedgerSample

/-- The phone is there at height 50. -/
def there : Outside where
  nowSecs := 100
  nowNanos := 0
  height := 50
  peers := ⟨fun _ => true, fun _ => 1000000⟩
  custodyMaxMsat := 1000000
  claims := fun _ _ _ => true
  sends := fun _ _ => some (hash 9)
  paidOffer := fun _ => none

/-- It is gone at height 95. -/
def gone : Outside :=
  { there with height := 95, peers := ⟨fun _ => false, fun _ => 0⟩, sends := fun _ _ => none }

/-- A payment that can be claimed until height 100. -/
def paid : List VaultMove :=
  [.invoice (hash 1) alice (hash 2) 5000, .claimable (hash 1) 5000 (some 100) none]

def delivered : List VaultMove :=
  paid ++ [.look there (hash 1) none, .resolve (hash 9) true, .report there (hash 9) none]

theorem claimable_desk_paid : (Vault.opened.run (delivered.take 3)).desk =
    finalState (onClaimable there (hash 1) 5000 (some 100)) (Vault.opened.run (paid.take 1)).desk :=
  claimable_desk 5000 _ rfl rfl

theorem report_desk_arrived : let vault := Vault.opened.run (delivered.take 4)
    (vault.step (.report there (hash 9) none)).desk =
      finalState (onForwardResult there (hash 9) true) vault.desk :=
  report_desk (by decide)

/-- The program dies after the keysend is taken; the notification and the result
are given again, and the deadline comes. -/
def cutShort : List VaultMove :=
  paid ++ [.look there (hash 1) (some 0), .claimable (hash 1) 5000 (some 100) none,
    .resolve (hash 9) true, .report there (hash 9) none, .look gone (hash 1) none]

theorem whole_delivered : Vault.opened.WholeRun delivered := by
  have unsent : (Vault.opened.run paid).forwards = [] := by decide
  refine ⟨⟨by decide, by decide, nofun⟩, rfl,
    ⟨rfl, fun _ _ _ => rfl, by decide, fun _ _ _ _ forward mem => ?_⟩, trivial,
    ⟨rfl, fun _ _ _ => rfl⟩, trivial⟩
  have none' : forward ∈ (Vault.opened.run paid).forwards := mem
  rw [unsent] at none'
  cases none'

end HeldSample

open HeldSample LedgerSample

/-- A held payment delivered: the phone has it and the account was not credited. -/
theorem held_one_way_delivered : Vault.opened.WholeRun delivered /\
      ∀ row ∈ (Vault.opened.run delivered).desk.held,
        ¬ ((Vault.opened.run delivered).Forwarded row.paymentHash /\
          0 < creditsOf (Vault.opened.run delivered).desk.ledger row.node row.paymentHash) :=
  ⟨whole_delivered, fun row mem => (held_one_way delivered whole_delivered row mem).1⟩

/-- Cut between the keysend and its record, the same payment arrives at the phone
and is credited as well. -/
theorem held_both_ways : (Vault.opened.run cutShort).forwards = [⟨hash 9, hash 1, some true⟩] /\
      creditsOf (Vault.opened.run cutShort).desk.ledger alice (hash 1) = 1 /\
      (Vault.opened.run cutShort).claimed = [LedgerSample.hash 1] := by
  decide

end Fortis.Lsp
