import Fortis.Lsp.Holds

/-!
# Outgoing account payments

A pay request takes a hold under its payment hash and then asks the node to send.  The node reports
the outcome by an event, which settles the hold found under the hash.  Requests and events run on
different threads, and an event not acknowledged before a restart is delivered again.

An attempt is one request that took a hold.  Its number and whether its outcome has been handled
are stored nowhere: they say which payment an outcome belongs to.
-/

namespace Fortis.Lsp

open Fortis.Core Lib List Nat

def feeCapMsat (amountMsat : Nat) : Nat := amountMsat / 100 + 50000

def sendHoldId (paymentHash : Fixed 32) : String := "send:" ++ hexEncode paymentHash.val

inductive Asked
  | refused (status : Nat) (error : String)
  | internal
  | held (amountMsat : Nat)

def payAmount : Option Nat -> Option Nat -> Except String Nat
  | some amount, none => .ok amount
  | some amount, some asked => if amount = asked then .ok amount else .error "amount_mismatch"
  | none, some asked => if 0 < asked then .ok asked else .error "amount_required"
  | none, none => .error "amount_required"

def insufficient : LedgerError -> LedgerM Asked
  | .insufficientBalance => pure (.refused 402 "insufficient")
  | error => throw error

/-- A pay request up to its hold; `owner` is the account the invoice belongs to. -/
def askPay (now : Nat) (node : PublicKey) (paymentHash : Fixed 32) (owner : Option PublicKey)
    (invoice asked : Option Nat) : LedgerM Asked :=
  match payAmount invoice asked with
  | .error text => pure (.refused 400 text)
  | .ok amount =>
    match owner with
    | some receiver =>
      if receiver = node then pure (.refused 400 "own_invoice")
      else tryCatch (do
        let _ <- transfer now node receiver paymentHash amount
        return .internal) insufficient
    | none =>
      tryCatch (do
        holdSend node (sendHoldId paymentHash) amount (amount + feeCapMsat amount)
        return .held amount) insufficient

def onPaymentResolved (now : Nat) (paymentHash : Fixed 32) (feeMsat : Option Nat) :
    LedgerM PUnit := do
  let ledger <- get
  match ledger.holds.get? (sendHoldId paymentHash) with
  | none => pure ⟨⟩
  | some _ =>
    match feeMsat with
    | some fee => settleSend now (sendHoldId paymentHash) fee (some paymentHash)
    | none => settleHold now (sendHoldId paymentHash) 0 0 none

theorem read_bind (next : Ledger -> LedgerM PUnit) (ledger : Ledger) :
    (get >>= next) ledger = next ledger ledger := rfl

/-! ## The node and the two threads -/

inductive Stage
  | waiting
  | refused
  | inFlight
  | succeeded (feeMsat : Nat)
  | failed
  deriving DecidableEq

structure Attempt where
  account : PublicKey
  hash : Fixed 32
  amountMsat : Nat
  stage : Stage
  handled : Bool
  deriving DecidableEq

namespace Attempt

def isLive (attempt : Attempt) : Bool :=
  match attempt.stage with
  | .inFlight | .succeeded _ => true
  | _ => false

def isOpen (attempt : Attempt) : Bool := attempt.stage ≠ .refused && !attempt.handled

end Attempt

structure Sends where
  ledger : Ledger
  attempts : List Attempt

inductive SendMove
  | ask (now : Nat) (node : PublicKey) (paymentHash : Fixed 32) (owner : Option PublicKey)
      (invoice asked : Option Nat)
  | send (index : Nat) (accepts : Bool) (now : Nat)
  | resolve (index : Nat) (feeMsat : Option Nat)
  | deliver (index now : Nat)
  | other (op : Op)

namespace Sends

def busy (sends : Sends) (paymentHash : Fixed 32) : Bool :=
  sends.attempts.any fun attempt => attempt.hash = paymentHash /\ attempt.isLive

def stage (sends : Sends) (index : Nat) (attempt : Attempt) (stage : Stage) : Sends :=
  { sends with attempts := sends.attempts.set index { attempt with stage := stage } }

def outcome (attempt : Attempt) : Option (Option Nat) :=
  match attempt.stage with
  | .succeeded fee => some (some fee)
  | .failed => some none
  | _ => none

def step (sends : Sends) : SendMove -> Sends
  | .ask now node paymentHash owner invoice asked =>
    match askPay now node paymentHash owner invoice asked sends.ledger with
    | .ok (.held amount) after =>
      ⟨after, sends.attempts ++ [⟨node, paymentHash, amount, .waiting, false⟩]⟩
    | .ok _ after | .error _ after => { sends with ledger := after }
  | .send index accepts now =>
    match sends.attempts[index]? with
    | none => sends
    | some attempt =>
      if attempt.stage = .waiting then
        if accepts /\ sends.busy attempt.hash = false then sends.stage index attempt .inFlight
        else { sends.stage index attempt .refused with
          ledger := finalState (settleHold now (sendHoldId attempt.hash) 0 0 none) sends.ledger }
      else sends
  | .resolve index feeMsat =>
    match sends.attempts[index]? with
    | none => sends
    | some attempt =>
      if attempt.stage = .inFlight then
        sends.stage index attempt (feeMsat.elim .failed .succeeded)
      else sends
  | .deliver index now =>
    match sends.attempts[index]? with
    | none => sends
    | some attempt =>
      match outcome attempt with
      | none => sends
      | some feeMsat =>
        match onPaymentResolved now attempt.hash feeMsat sends.ledger with
        | .ok _ after =>
          ⟨after, sends.attempts.set index { attempt with handled := true }⟩
        | .error _ after => { sends with ledger := after }
  | .other op => { sends with ledger := finalState op.exec sends.ledger }

def run (sends : Sends) (moves : List SendMove) : Sends := moves.foldl step sends

end Sends

/-- The debits written for a payment: the account, the amount and the fee. -/
def sentFor (ledger : Ledger) (paymentHash : Fixed 32) : List (String × Int × Nat) :=
  (ledger.entries.filter fun row => row.kind = .sent /\ row.paymentHash = some paymentHash).map
    fun row => (row.node, row.amountMsat, row.feeMsat)

/-- The debit of a payment: its amount and the fee it paid, once, unless both are zero. -/
def Attempt.debit (attempt : Attempt) (feeMsat : Nat) : List (String × Int × Nat) :=
  if attempt.amountMsat + feeMsat = 0 then []
  else [(key attempt.account, -((attempt.amountMsat + feeMsat : Nat) : Int), feeMsat)]

/-- What the attempts with handled outcomes say is debited for a payment. -/
def Attempt.debits (paymentHash : Fixed 32) (attempt : Attempt) : List (String × Int × Nat) :=
  if attempt.hash = paymentHash /\ attempt.handled = true then
    match attempt.stage with
    | .succeeded fee => attempt.debit fee
    | _ => []
  else []

/-- An outcome is delivered only while no later request holds under its hash; fees stay within the
cap and amounts among the file's integers. -/
def SendMove.Timely (sends : Sends) : SendMove -> Prop
  | .ask _ _ _ _ invoice asked => ∀ amount, payAmount invoice asked = .ok amount ->
      amount + feeCapMsat amount <= i64Max
  | .send .. => True
  | .resolve index feeMsat => ∀ attempt fee, sends.attempts[index]? = some attempt ->
      feeMsat = some fee -> fee <= feeCapMsat attempt.amountMsat
  | .deliver index _ => ∀ attempt, sends.attempts[index]? = some attempt ->
      ∀ (other : Nat) later, sends.attempts[other]? = some later -> later.hash = attempt.hash ->
        later.isOpen = true -> other = index
  | .other op => (∀ id ∈ op.holdIds, ∀ paymentHash, id ≠ sendHoldId paymentHash) /\
      ∀ row, op.MayEnter row -> row.kind ≠ .sent \/ row.paymentHash = none

def Timely : Sends -> List SendMove -> Prop
  | _, [] => True
  | sends, move :: rest => move.Timely sends /\ Timely (sends.step move) rest

/-! ## What the ledger operations leave -/

variable {now : Nat} {feeMsat : Option Nat} {node : PublicKey}

section

variable {ledger : Ledger} {paymentHash : Fixed 32}

theorem sendHoldId_injective {first second : Fixed 32}
    (same : sendHoldId first = sendHoldId second) : first = second := by
  unfold sendHoldId at same
  rw [String.append_right_inj] at same
  exact Subtype.ext (hexEncode_injective same)

/-- The holds and entries of sends. -/
abbrev SendsApart : Ledger -> Ledger -> Prop :=
  Apart (fun id => ∃ paymentHash, id = sendHoldId paymentHash)
    fun row => row.kind = .sent /\ row.paymentHash ≠ none

theorem sentFor_of_apart {after : Ledger} (apart : SendsApart ledger after) :
    sentFor after paymentHash = sentFor ledger paymentHash := by
  have narrow : ∀ rows : List EntryRow,
      (rows.filter fun row => row.kind = .sent /\ row.paymentHash = some paymentHash) =
        (rows.filter fun row => row.kind = .sent /\ row.paymentHash ≠ none).filter fun row =>
          row.kind = .sent /\ row.paymentHash = some paymentHash := by
    intro rows
    rw [filter_filter]
    refine filter_congr fun row _ => ?_
    by_cases sent : row.kind = .sent <;> by_cases named : row.paymentHash = some paymentHash <;>
      simp [sent, named]
  unfold sentFor
  rw [narrow, narrow ledger.entries, apart.entries]

def sendRow (node : PublicKey) (paymentHash : Fixed 32) (amountMsat : Nat) : HoldRow :=
  ⟨sendHoldId paymentHash, key node, asI64 (max (amountMsat + feeCapMsat amountMsat) amountMsat),
    asI64 amountMsat, "send"⟩

/-- A pay request takes a hold under its hash, or leaves the sends alone. -/
theorem wp_askPay {owner : Option PublicKey}
    {invoice asked : Option Nat} : wp (askPay now node paymentHash owner invoice asked)
      (fun result after => (∃ amount, result = .held amount /\ payAmount invoice asked =
          .ok amount /\ ledger.holds.get? (sendHoldId paymentHash) = none /\
          after = ledger.reserved (sendRow node paymentHash amount)) \/
        ((∀ amount, result ≠ .held amount) /\ SendsApart ledger after))
      (fun _ after => SendsApart ledger after) ledger := by
  have refuses (error : LedgerError) : wp (insufficient error)
      (fun result after => (∀ amount, result ≠ .held amount) /\ SendsApart ledger after)
      (fun _ after => SendsApart ledger after) ledger := by
    cases error with
    | insufficientBalance => exact ⟨nofun, apart_refl ledger⟩
    | unknownHold | db => exact apart_refl ledger
  unfold askPay
  split
  · exact .inr ⟨nofun, apart_refl ledger⟩
  next amount isAmount =>
  split
  · split
    · exact .inr ⟨nofun, apart_refl ledger⟩
    next receiver _ =>
    rw [wp_tryCatch, wp_bind]
    have moves : Relates SendsApart (Op.transfer now node receiver paymentHash amount).exec :=
      apart_exec _ nofun fun row kind => by
        have internal : row.kind = .internal := kind
        simp [internal]
    have apart := relates_iff_wp.mp (relates_ignore_iff.mp moves) ledger
    have fails : wp (transfer now node receiver paymentHash amount) (fun _ _ => True)
        (fun _ final => final = ledger) ledger := transaction_failed
    refine wp_mono (wp_and apart fails) (fun _ after related => ?_) fun error after related => ?_
    · exact .inr ⟨nofun, related.1⟩
    rw [related.2]
    exact wp_imp (refuses error) fun _ _ => .inr
  rw [wp_tryCatch]
  refine wp_seq wp_holdKind (fun _ after taken => ?_) fun error after same => ?_
  · exact .inl ⟨amount, rfl, isAmount, taken.1, taken.2⟩
  rw [same]
  exact wp_imp (refuses error) fun _ _ => .inr

def outcomeDebit (row : HoldRow) : Option Nat -> List (String × Int × Nat)
  | none => []
  | some fee =>
    let spent := min (min (row.baseMsat + fee) u64Max) row.amountMsat
    if spent = 0 then [] else [(row.node, -(asI64 spent : Int), asI64 fee)]

/-- An outcome closes the hold under its hash and writes its debit, or does nothing. -/
theorem wp_onPaymentResolved {row : HoldRow}
    (found : ledger.holds.get? (sendHoldId paymentHash) = some row) :
    wp (onPaymentResolved now paymentHash feeMsat)
      (fun _ after => after.holds = ledger.holds.delete (sendHoldId paymentHash) /\
        ∀ other, sentFor after other = sentFor ledger other ++
          if other = paymentHash then outcomeDebit row feeMsat else [])
      (Unchanged ledger) ledger := by
  have released : ∀ debit : List (String × Int × Nat), debit = [] -> ∀ other,
      sentFor (ledger.released (sendHoldId paymentHash)) other = sentFor ledger other ++
        if other = paymentHash then debit else [] := by
    rintro debit rfl other
    rw [ite_self, append_nil]
    rfl
  unfold onPaymentResolved
  rw [wp_bind, wp_get, found]
  rcases feeMsat with _ | fee
  · dsimp only
    rw [wp, settleHold_nothing found (zero_min _)]
    exact ⟨rfl, released [] rfl⟩
  dsimp only
  rw [settleSend, wp_bind, wp_get, found]
  dsimp only
  by_cases nothing : min (min (row.baseMsat + fee) u64Max) row.amountMsat = 0
  · rw [wp, settleHold_nothing found nothing]
    exact ⟨rfl, released _ (if_pos nothing)⟩
  refine wp_imp (wp_settleHold found (pos_of_ne_zero nothing))
    fun _ after settled => ⟨settled.1, fun other => ?_⟩
  unfold sentFor
  rw [settled.2.2, filter_append, map_append]
  congr 1
  split
  next same =>
    subst same
    unfold outcomeDebit
    dsimp only
    rw [if_neg nothing, filter_cons_of_pos (by simp [Ledger.nextEntry])]
    rfl
  next ne =>
  rw [filter_cons_of_neg (by simpa [Ledger.nextEntry] using Ne.symm ne)]
  rfl

theorem onPaymentResolved_none (absent : ledger.holds.get? (sendHoldId paymentHash) = none) :
    onPaymentResolved now paymentHash feeMsat ledger = .ok ⟨⟩ ledger := by
  have nothing : wp (onPaymentResolved now paymentHash feeMsat)
      (fun _ after => after = ledger) (fun _ _ => False) ledger := by
    unfold onPaymentResolved
    rw [wp_bind, wp_get, absent]
    rfl
  obtain ⟨_, _, ended, rfl⟩ := returns_of_wp nothing
  exact ended

end

/-! ## The books of the sends -/

def Attempt.row (attempt : Attempt) : HoldRow :=
  sendRow attempt.account attempt.hash attempt.amountMsat

/-- The one attempt that has the hold under a hash, if the hold is there. -/
def HeldBy (sends : Sends) (paymentHash : Fixed 32) (hold : Option HoldRow) : Prop :=
  (hold = none /\ ∀ (i : Nat) attempt, sends.attempts[i]? = some attempt ->
    attempt.hash = paymentHash -> attempt.isOpen = false) \/
  ∃ (i : Nat) (attempt : Attempt), sends.attempts[i]? = some attempt /\
    attempt.hash = paymentHash /\ attempt.isOpen = true /\ hold = some attempt.row /\
    ∀ (j : Nat) other, sends.attempts[j]? = some other -> other.hash = paymentHash ->
      other.isOpen = true -> j = i

/-- What every timely run keeps. -/
structure Booked (sends : Sends) : Prop where
  held : ∀ paymentHash, HeldBy sends paymentHash (sends.ledger.holds.get? (sendHoldId paymentHash))
  /-- The node pays a hash once. -/
  live : ∀ (i j : Nat) first second, sends.attempts[i]? = some first ->
    sends.attempts[j]? = some second -> first.hash = second.hash -> first.isLive = true ->
    second.isLive = true -> i = j
  fits : ∀ attempt ∈ sends.attempts, attempt.amountMsat + feeCapMsat attempt.amountMsat <= i64Max
  fees : ∀ attempt ∈ sends.attempts, ∀ fee, attempt.stage = .succeeded fee ->
    fee <= feeCapMsat attempt.amountMsat
  handled : ∀ attempt ∈ sends.attempts, attempt.handled = true -> Sends.outcome attempt ≠ none
  entries : ∀ paymentHash, sentFor sends.ledger paymentHash =
    sends.attempts.flatMap (Attempt.debits paymentHash)

section Lists

variable {α β : Type} {items : List α} {i : Nat} {item : α} {new : α}

theorem flatMap_set_same {body : α -> List β} (found : items[i]? = some item)
    (same : body new = body item) : (items.set i new).flatMap body = items.flatMap body := by
  rw [flatMap_def, flatMap_def, map_set, same]
  congr 1
  refine ext_getElem? fun j => ?_
  rw [getElem?_set]
  split
  next here =>
    subst here
    obtain ⟨short, isItem⟩ := List.getElem?_eq_some_iff.mp found
    rw [length_map, if_pos short, getElem?_map, found]
    rfl
  · rfl

theorem flatMap_of_single (body : α -> List β) (found : items[i]? = some item)
    (alone : ∀ (j : Nat) other, items[j]? = some other -> j ≠ i -> body other = []) :
    items.flatMap body = body item := by
  induction items generalizing i with
  | nil => cases found
  | cons first rest ih =>
    rw [flatMap_cons]
    rcases i with _ | i
    · cases found
      have none : rest.flatMap body = [] := by
        refine flatMap_eq_nil_iff.mpr fun other mem => ?_
        obtain ⟨j, isOther⟩ := mem_iff_getElem?.mp mem
        exact alone (j + 1) other isOther (succ_ne_zero j)
      rw [none, append_nil]
    rw [alone 0 first rfl (succ_ne_zero i).symm, nil_append]
    exact ih found fun j other isOther ne =>
      alone (j + 1) other isOther fun same => ne (succ_injective same)

theorem getElem?_set_cases {other : α} {j : Nat} (found : items[i]? = some item)
    (there : (items.set i new)[j]? = some other) :
    (j = i /\ other = new) \/ (j ≠ i /\ items[j]? = some other) := by
  rw [getElem?_set] at there
  split at there
  next here =>
    rw [if_pos (List.getElem?_eq_some_iff.mp found).1] at there
    cases there
    exact .inl ⟨here.symm, rfl⟩
  next elsewhere => exact .inr ⟨fun same => elsewhere same.symm, there⟩

theorem set_same (found : items[i]? = some item) : items.set i item = items := by
  obtain ⟨short, rfl⟩ := List.getElem?_eq_some_iff.mp found
  exact set_getElem_self short

theorem getElem?_set_here (new : α) (found : items[i]? = some item) :
    (items.set i new)[i]? = some new := by
  rw [getElem?_set, if_pos rfl, if_pos (List.getElem?_eq_some_iff.mp found).1]

theorem getElem?_set_there {j : Nat} (ne : j ≠ i) : (items.set i new)[j]? = items[j]? := by
  rw [getElem?_set, if_neg ne.symm]

end Lists

section Booked

variable {sends : Sends} {index : Nat} {attempt : Attempt} {paymentHash : Fixed 32}
variable {after : Ledger}

theorem debits_of_waiting (unhandled : attempt.handled = false) :
    attempt.debits paymentHash = [] := by
  unfold Attempt.debits
  rw [unhandled]
  exact if_neg fun both => Bool.false_ne_true both.2

theorem HeldBy.stage {hold : Option HoldRow} {stage : Stage}
    (held : HeldBy sends paymentHash hold) (found : sends.attempts[index]? = some attempt)
    (same : ({ attempt with stage := stage } : Attempt).isOpen = attempt.isOpen) :
    HeldBy (sends.stage index attempt stage) paymentHash hold := by
  have back : ∀ (j : Nat) other, (sends.stage index attempt stage).attempts[j]? = some other ->
      ∃ old, sends.attempts[j]? = some old /\ old.hash = other.hash /\
        old.isOpen = other.isOpen := by
    intro j other there
    rcases getElem?_set_cases found there with ⟨rfl, rfl⟩ | ⟨_, old⟩
    · exact ⟨attempt, found, rfl, same.symm⟩
    · exact ⟨other, old, rfl, rfl⟩
  rcases held with ⟨none, closed⟩ | ⟨i, holder, isHolder, hash, isOpen, isRow, only⟩
  · refine .inl ⟨none, fun j other there isHash => ?_⟩
    obtain ⟨old, isOld, sameHash, sameOpen⟩ := back j other there
    rw [<- sameOpen]
    exact closed j old isOld (sameHash.trans isHash)
  have onlyNew : ∀ (j : Nat) other, (sends.stage index attempt stage).attempts[j]? = some other ->
      other.hash = paymentHash -> other.isOpen = true -> j = i := by
    intro j other there isHash openOther
    obtain ⟨old, isOld, sameHash, sameOpen⟩ := back j other there
    exact only j old isOld (sameHash.trans isHash) (sameOpen.trans openOther)
  by_cases here : i = index
  · subst here
    cases isHolder.symm.trans found
    exact .inr ⟨i, _, getElem?_set_here _ found, hash, same.trans isOpen, isRow, onlyNew⟩
  exact .inr ⟨i, holder, (getElem?_set_there here).trans isHolder, hash, isOpen, isRow, onlyNew⟩

theorem HeldBy.close {hold : Option HoldRow} {closed : Attempt}
    {ledger : Ledger} (held : HeldBy sends attempt.hash hold)
    (found : sends.attempts[index]? = some attempt) (isOpen : attempt.isOpen = true)
    (isClosed : closed.isOpen = false) (sameHash : closed.hash = attempt.hash)
    (others : paymentHash ≠ attempt.hash ->
      HeldBy sends paymentHash (ledger.holds.get? (sendHoldId paymentHash))) :
    HeldBy ⟨ledger, sends.attempts.set index closed⟩ paymentHash
      ((ledger.holds.delete (sendHoldId attempt.hash)).get? (sendHoldId paymentHash)) := by
  rw [Table.get?_delete]
  by_cases here : paymentHash = attempt.hash
  · subst here
    rw [if_pos rfl]
    refine .inl ⟨rfl, fun j other there isHash => ?_⟩
    rcases getElem?_set_cases found there with ⟨_, rfl⟩ | ⟨elsewhere, old⟩
    · exact isClosed
    rcases held with ⟨_, none⟩ | ⟨i, holder, _, _, _, _, only⟩
    · exact none j other old isHash
    rcases openOther : other.isOpen with _ | _
    · rfl
    have first := only j other old isHash openOther
    have second := only index attempt found rfl isOpen
    exact absurd (first.trans second.symm) elsewhere
  rw [if_neg fun same => here (sendHoldId_injective same)]
  rcases others here with ⟨none, closedAll⟩ | ⟨i, holder, isHolder, hash, openHolder, isRow, only⟩
  · refine .inl ⟨none, fun j other there isHash => ?_⟩
    rcases getElem?_set_cases found there with ⟨_, rfl⟩ | ⟨_, old⟩
    · exact isClosed
    · exact closedAll j other old isHash
  · have elsewhere : i ≠ index := by
      rintro rfl
      cases isHolder.symm.trans found
      exact here hash.symm
    refine .inr ⟨i, holder, (getElem?_set_there elsewhere).trans isHolder, hash, openHolder,
      isRow, fun j other there isHash openOther => ?_⟩
    rcases getElem?_set_cases found there with ⟨_, rfl⟩ | ⟨_, old⟩
    · rw [isClosed] at openOther
      cases openOther
    · exact only j other old isHash openOther

theorem isOpen_of_unhandled {stage : Stage} (unhandled : attempt.handled = false)
    (isStage : attempt.stage = stage) (sent : stage ≠ .refused) : attempt.isOpen = true := by
  unfold Attempt.isOpen
  rw [isStage, unhandled]
  simpa using sent

theorem outcomeDebit_row {fee : Nat}
    (small : attempt.amountMsat + feeCapMsat attempt.amountMsat <= i64Max)
    (cheap : fee <= feeCapMsat attempt.amountMsat) :
    outcomeDebit attempt.row (some fee) = attempt.debit fee := by
  have reserve : attempt.row.amountMsat = attempt.amountMsat + feeCapMsat attempt.amountMsat := by
    change asI64 (max _ _) = _
    unfold asI64
    omega
  have base : attempt.row.baseMsat = attempt.amountMsat := by
    change asI64 _ = _
    unfold asI64
    omega
  have spent : min (min (attempt.row.baseMsat + fee) u64Max) attempt.row.amountMsat =
      attempt.amountMsat + fee := by
    rw [reserve, base]
    have wide : i64Max <= u64Max := by decide
    omega
  have whole : asI64 (attempt.amountMsat + fee) = attempt.amountMsat + fee := by
    unfold asI64
    omega
  have wholeFee : asI64 fee = fee := by
    unfold asI64
    omega
  unfold outcomeDebit Attempt.debit
  dsimp only
  rw [spent, whole, wholeFee]
  rfl

theorem booked_start {ledger : Ledger}
    (noSends : ∀ paymentHash, ledger.holds.get? (sendHoldId paymentHash) = none /\
      sentFor ledger paymentHash = []) : Booked ⟨ledger, []⟩ where
  held paymentHash := .inl ⟨(noSends paymentHash).1, nofun⟩
  live _ _ _ _ none := (nomatch none)
  fits _ none := (nomatch none)
  fees _ none := (nomatch none)
  handled _ none := (nomatch none)
  entries paymentHash := (noSends paymentHash).2

variable (booked : Booked sends)

include booked

theorem Booked.apart (apart : SendsApart sends.ledger after) :
    Booked { sends with ledger := after } :=
  { booked with
    held := fun paymentHash => by
      have same : after.holds.get? (sendHoldId paymentHash) = _ := (apart.holds _ ⟨paymentHash,
          rfl⟩)
      change HeldBy sends paymentHash (after.holds.get? (sendHoldId paymentHash))
      rw [same]
      exact booked.held paymentHash
    entries := fun paymentHash => (sentFor_of_apart apart).trans (booked.entries paymentHash) }

/-- A new attempt is backed by its own hold. -/
theorem Booked.hold {amount : Nat} (small : amount + feeCapMsat amount <= i64Max)
    (free : sends.ledger.holds.get? (sendHoldId paymentHash) = none) :
    Booked ⟨sends.ledger.reserved (sendRow node paymentHash amount),
      sends.attempts ++ [⟨node, paymentHash, amount, .waiting, false⟩]⟩ := by
  let new : Attempt := ⟨node, paymentHash, amount, .waiting, false⟩
  have cases_ : ∀ {j : Nat} {other : Attempt}, (sends.attempts ++ [new])[j]? = some other ->
      sends.attempts[j]? = some other \/ (j = sends.attempts.length /\ other = new) := by
    intro j other there
    rw [getElem?_append, getElem?_singleton] at there
    split at there
    · exact .inl there
    split at there
    next isEnd =>
      cases there
      exact .inr ⟨by omega, rfl⟩
    · cases there
  have none : ∀ (j : Nat) other, sends.attempts[j]? = some other -> other.hash = paymentHash ->
      other.isOpen = false := by
    rcases booked.held paymentHash with ⟨_, closed⟩ | ⟨_, _, _, _, _, isRow, _⟩
    · exact closed
    rw [free] at isRow
    cases isRow
  refine ⟨fun other => ?_, ?_, ?_, ?_, ?_, ?_⟩
  · change HeldBy _ other ((sends.ledger.holds.put (sendRow node paymentHash amount)).get?
      (sendHoldId other))
    rw [Table.get?_put]
    by_cases here : other = paymentHash
    · subst here
      have same : sendHoldId other = (sendRow node other amount).id := rfl
      rw [if_pos same]
      refine .inr ⟨sends.attempts.length, new, getElem?_concat_length, rfl, rfl, rfl,
        fun j own there hash isOpen => ?_⟩
      rcases cases_ there with old | ⟨isEnd, _⟩
      · rw [none j own old hash] at isOpen
        cases isOpen
      · exact isEnd
    have differs : sendHoldId other ≠ (sendRow node paymentHash amount).id := fun same =>
      here (sendHoldId_injective same)
    rw [if_neg differs]
    rcases booked.held other
      with ⟨absent, closed⟩ | ⟨i, holder, isHolder, hash, isOpen, isRow, only⟩
    · refine .inl ⟨absent, fun j own there isHash => ?_⟩
      rcases cases_ there with old | ⟨_, rfl⟩
      · exact closed j own old isHash
      · exact absurd isHash.symm here
    have short : i < sends.attempts.length := (List.getElem?_eq_some_iff.mp isHolder).1
    refine .inr ⟨i, holder, (getElem?_append_left short).trans isHolder, hash, isOpen,
      isRow, fun j own there isHash openOwn => ?_⟩
    rcases cases_ there with old | ⟨_, rfl⟩
    · exact only j own old isHash openOwn
    · exact absurd isHash.symm here
  · intro i j first second isFirst isSecond hash liveFirst liveSecond
    rcases cases_ isFirst with old | ⟨_, rfl⟩
    · rcases cases_ isSecond with oldSecond | ⟨_, rfl⟩
      · exact booked.live i j first second old oldSecond hash liveFirst liveSecond
      · cases liveSecond
    · cases liveFirst
  · intro other isOther
    rcases mem_concat.mp isOther with old | rfl
    · exact booked.fits other old
    · exact small
  · intro other isOther fee stage
    rcases mem_concat.mp isOther with old | rfl
    · exact booked.fees other old fee stage
    · cases stage
  · intro other isOther handled
    rcases mem_concat.mp isOther with old | rfl
    · exact booked.handled other old handled
    · cases handled
  intro other
  rw [flatMap_append, flatMap_singleton, debits_of_waiting rfl, append_nil]
  exact booked.entries other

theorem Booked.ask {owner : Option PublicKey} {invoice asked : Option Nat}
    (timely : (SendMove.ask now node paymentHash owner invoice asked).Timely sends) :
    Booked (sends.step (.ask now node paymentHash owner invoice asked)) := by
  have spec : wp (askPay now node paymentHash owner invoice asked) _ _ sends.ledger := wp_askPay
  unfold wp at spec
  rcases ended : askPay now node paymentHash owner invoice asked sends.ledger
    with ⟨result, after⟩ | ⟨raised, after⟩
  swap
  · rw [ended] at spec
    simp only [Sends.step, ended]
    exact booked.apart spec
  rw [ended] at spec
  simp only [Sends.step, ended]
  rcases spec with ⟨amount, rfl, isAmount, free, rfl⟩ | ⟨notHeld, apart⟩
  · exact booked.hold (timely amount isAmount) free
  cases result with
  | held amount => exact absurd rfl (notHeld amount)
  | refused status error => exact booked.apart apart
  | internal => exact booked.apart apart

theorem Booked.found (found : sends.attempts[index]? = some attempt)
    (isOpen : attempt.isOpen = true) :
    sends.ledger.holds.get? (sendHoldId attempt.hash) = some attempt.row := by
  rcases booked.held attempt.hash with ⟨_, closed⟩ | ⟨i, holder, isHolder, _, _, isRow, only⟩
  · rw [closed index attempt found rfl] at isOpen
    cases isOpen
  cases only index attempt found rfl isOpen
  cases isHolder.symm.trans found
  exact isRow

section

variable (found : sends.attempts[index]? = some attempt)

include found

theorem Booked.unhandled (pending : Sends.outcome attempt = none) : attempt.handled = false := by
  cases isHandled : attempt.handled with
  | false => rfl
  | true =>
    exact absurd pending (booked.handled attempt (mem_of_getElem? found) isHandled)

theorem Booked.set {new : Attempt} (hash : new.hash = attempt.hash)
    (amount : new.amountMsat = attempt.amountMsat)
    (alone : new.isLive = true -> ∀ (j : Nat) other, j ≠ index -> sends.attempts[j]? = some other ->
      other.hash = attempt.hash -> other.isLive = false)
    (fees : ∀ fee, new.stage = .succeeded fee -> fee <= feeCapMsat attempt.amountMsat)
    (outcome : new.handled = true -> Sends.outcome new ≠ none)
    (held : ∀ paymentHash, HeldBy ⟨after, sends.attempts.set index new⟩ paymentHash
      (after.holds.get? (sendHoldId paymentHash)))
    (entries : ∀ paymentHash, sentFor after paymentHash =
      (sends.attempts.set index new).flatMap (Attempt.debits paymentHash)) :
    Booked ⟨after, sends.attempts.set index new⟩ := by
  refine ⟨held, ?_, ?_, ?_, ?_, entries⟩
  · intro i j first second isFirst isSecond same liveFirst liveSecond
    rcases getElem?_set_cases found isFirst with ⟨rfl, rfl⟩ | ⟨apartFirst, oldFirst⟩ <;>
      rcases getElem?_set_cases found isSecond with ⟨rfl, rfl⟩ | ⟨apartSecond, oldSecond⟩
    · rfl
    · cases liveSecond.symm.trans
        (alone liveFirst j second apartSecond oldSecond (same.symm.trans hash))
    · cases liveFirst.symm.trans (alone liveSecond i first apartFirst oldFirst (same.trans hash))
    · exact booked.live i j first second oldFirst oldSecond same liveFirst liveSecond
  · intro other isOther
    rcases mem_or_eq_of_mem_set isOther with old | rfl
    · exact booked.fits other old
    rw [amount]
    exact booked.fits attempt (mem_of_getElem? found)
  · intro other isOther fee isStage
    rcases mem_or_eq_of_mem_set isOther with old | rfl
    · exact booked.fees other old fee isStage
    rw [amount]
    exact fees fee isStage
  intro other isOther handled
  rcases mem_or_eq_of_mem_set isOther with old | rfl
  · exact booked.handled other old handled
  · exact outcome handled

theorem Booked.alone
    (live : attempt.isLive = true) (j : Nat) (other : Attempt) (elsewhere : j ≠ index)
    (isOther : sends.attempts[j]? = some other) (hash : other.hash = attempt.hash) :
    other.isLive = false := by
  cases liveOther : other.isLive with
  | false => rfl
  | true =>
    exact absurd (booked.live j index other attempt isOther found hash liveOther live) elsewhere

/-- A change of stage that leaves the attempt unhandled and as open as it was. -/
theorem Booked.stage {stage : Stage} (pending : Sends.outcome attempt = none)
    (same : ({ attempt with stage := stage } : Attempt).isOpen = attempt.isOpen)
    (live : ({ attempt with stage := stage } : Attempt).isLive = true -> attempt.isLive = true \/
      sends.busy attempt.hash = false)
    (fees : ∀ fee, stage = .succeeded fee -> fee <= feeCapMsat attempt.amountMsat) :
    Booked (sends.stage index attempt stage) := by
  have unhandled := booked.unhandled found pending
  have idle : sends.busy attempt.hash = false -> ∀ (j : Nat) other,
      sends.attempts[j]? = some other -> other.hash = attempt.hash -> other.isLive = false := by
    intro idle j other isOther hash
    rcases liveOther : other.isLive with _ | _
    · rfl
    have busy : sends.busy attempt.hash = true :=
      any_eq_true.mpr ⟨other, mem_of_getElem? isOther, by simp [hash, liveOther]⟩
    rw [busy] at idle
    cases idle
  refine booked.set found rfl rfl (fun liveNew j other elsewhere isOther hash => ?_) fees
    (fun handled => ?_) (fun paymentHash => (booked.held paymentHash).stage found same)
    fun paymentHash => ?_
  · -- The changed attempt is the only live one of its hash.
    rcases live liveNew with before | free
    · exact booked.alone found before j other elsewhere isOther hash
    · exact idle free j other isOther hash
  · cases unhandled.symm.trans handled
  refine (booked.entries paymentHash).trans (flatMap_set_same found ?_).symm
  rw [debits_of_waiting unhandled]
  exact debits_of_waiting unhandled

theorem Booked.close {closed : Attempt} (isOpen : attempt.isOpen = true)
    (isClosed : closed.isOpen = false) (account : closed.hash = attempt.hash)
    (amount : closed.amountMsat = attempt.amountMsat)
    (live : closed.isLive = true -> attempt.isLive = true)
    (fees : ∀ fee, closed.stage = .succeeded fee -> fee <= feeCapMsat attempt.amountMsat)
    (outcome : closed.handled = true -> Sends.outcome closed ≠ none)
    (holds : after.holds = sends.ledger.holds.delete (sendHoldId attempt.hash))
    (entries : ∀ paymentHash, sentFor after paymentHash =
      (sends.attempts.set index closed).flatMap (Attempt.debits paymentHash)) :
    Booked ⟨after, sends.attempts.set index closed⟩ := by
  refine booked.set found account amount (fun isLive => booked.alone found (live isLive)) fees
    outcome (fun paymentHash => ?_) entries
  rw [holds]
  exact (booked.held attempt.hash).close found isOpen isClosed account
    fun _ => booked.held paymentHash

end

theorem Booked.send {accepts : Bool} : Booked (sends.step (.send index accepts now)) := by
  unfold Sends.step
  dsimp only
  split
  · exact booked
  next attempt found =>
  split
  next waiting =>
    have pending : Sends.outcome attempt = none := by simp [Sends.outcome, waiting]
    have unhandled := booked.unhandled found pending
    have isOpen := isOpen_of_unhandled unhandled waiting (by simp)
    split
    next accepted =>
      refine booked.stage found pending ?_ (fun _ => .inr accepted.2) (by simp)
      rw [isOpen]
      exact isOpen_of_unhandled unhandled rfl (by simp)
    · have row := booked.found found isOpen
      rw [finalState, settleHold_nothing row (zero_min _)]
      refine booked.close found isOpen rfl rfl rfl (absurd · Bool.false_ne_true)
        (by simp) (fun isHandled => ?_) rfl fun paymentHash => ?_
      · rw [show ({ attempt with stage := .refused } : Attempt).handled = attempt.handled from rfl,
          unhandled] at isHandled
        cases isHandled
      refine (booked.entries paymentHash).trans (flatMap_set_same found ?_).symm
      rw [debits_of_waiting unhandled]
      exact debits_of_waiting unhandled
  · exact booked

theorem Booked.resolve (timely : (SendMove.resolve index feeMsat).Timely sends) :
    Booked (sends.step (.resolve index feeMsat)) := by
  unfold Sends.step
  dsimp only
  split
  · exact booked
  next attempt found =>
  split
  next flying =>
    have pending : Sends.outcome attempt = none := by simp [Sends.outcome, flying]
    have unhandled := booked.unhandled found pending
    have isOpen := isOpen_of_unhandled unhandled flying nofun
    have live : attempt.isLive = true := by simp [Attempt.isLive, flying]
    refine booked.stage found pending ?_ (fun _ => .inl live) fun fee isStage => ?_
    · rw [isOpen]
      refine isOpen_of_unhandled unhandled rfl ?_
      cases feeMsat <;> exact nofun
    rcases feeMsat with _ | own
    · cases isStage
    cases isStage
    exact timely attempt fee found rfl
  · exact booked

/-- A delivered outcome settles the hold of its attempt. -/
theorem Booked.deliver (timely : (SendMove.deliver index now).Timely sends) :
      Booked (sends.step (.deliver index now)) := by
  unfold Sends.step
  dsimp only
  split
  · exact booked
  next attempt found =>
  split
  · exact booked
  next feeMsat resolved =>
  let done : Attempt := { attempt with handled := true }
  have settled : Sends.outcome done ≠ none := by
    change Sends.outcome attempt ≠ none
    rw [resolved]
    exact Option.some_ne_none _
  rcases hold : sends.ledger.holds.get? (sendHoldId attempt.hash) with _ | row
  · rw [onPaymentResolved_none hold]
    -- Without a hold the outcome was handled before.
    have isHandled : attempt.handled = true := by
      cases unhandled : attempt.handled with
      | true => rfl
      | false =>
        have isOpen : attempt.isOpen = true := by
          refine isOpen_of_unhandled unhandled rfl fun refused => ?_
          rw [Sends.outcome, refused] at resolved
          cases resolved
        rw [booked.found found isOpen] at hold
        cases hold
    have same : done = attempt := by
      cases attempt
      cases isHandled
      rfl
    rw [show ({ attempt with handled := true } : Attempt) = attempt from same]
    rw [set_same found]
    exact booked
  rcases booked.held attempt.hash with ⟨absent, _⟩ | ⟨i, holder, isHolder, hash, isOpen, isRow, _⟩
  · rw [absent] at hold
    cases hold
  -- No later request holds under the hash, so the hold is this attempt's.
  cases timely attempt found i holder isHolder hash isOpen
  cases isHolder.symm.trans found
  have unhandled : attempt.handled = false := by
    unfold Attempt.isOpen at isOpen
    simp only [Bool.and_eq_true, Bool.not_eq_true'] at isOpen
    exact isOpen.2
  cases isRow.symm.trans hold
  have spec : wp (onPaymentResolved now attempt.hash feeMsat) _ _ sends.ledger :=
    wp_onPaymentResolved hold
  unfold wp at spec
  rcases ended : onPaymentResolved now attempt.hash feeMsat sends.ledger
    with ⟨value, after⟩ | ⟨raised, after⟩
  swap
  · rw [ended] at spec
    rw [spec]
    exact booked
  rw [ended] at spec
  obtain ⟨holds, sent⟩ := spec
  have closedDone : done.isOpen = false := by simp [done, Attempt.isOpen]
  refine booked.close found isOpen closedDone rfl rfl (fun live => live)
    (fun fee isStage => booked.fees attempt (mem_of_getElem? found) fee isStage)
    (fun _ => settled) holds fun paymentHash => ?_
  rw [sent, booked.entries]
  by_cases here : paymentHash = attempt.hash
  · subst here
    rw [if_pos rfl]
    rcases feeMsat with _ | fee
    · rw [show outcomeDebit attempt.row none = [] from rfl, append_nil]
      refine (flatMap_set_same found ?_).symm
      rw [debits_of_waiting unhandled]
      unfold Attempt.debits
      cases isStage : attempt.stage <;> simp_all [Sends.outcome]
    have isStage : attempt.stage = .succeeded fee := by
      cases stage : attempt.stage <;> simp_all [Sends.outcome]
    have live : attempt.isLive = true := by simp [Attempt.isLive, isStage]
    -- Nothing else of this hash is debited.
    have alone : ∀ (j : Nat) other, sends.attempts[j]? = some other ->
        j ≠ index -> other.debits attempt.hash = [] := by
      intro j other isOther elsewhere
      unfold Attempt.debits
      split
      next both =>
        split
        next fee isFee =>
          have liveOther : other.isLive = true := by simp [Attempt.isLive, isFee]
          exact absurd (booked.live j index other attempt isOther found both.1
            liveOther live) elsewhere
        · rfl
      · rfl
    have before := flatMap_of_single (Attempt.debits attempt.hash) found alone
    have after := flatMap_of_single (Attempt.debits attempt.hash)
      (getElem?_set_here done found) fun j other there elsewhere =>
        alone j other ((getElem?_set_there elsewhere).symm.trans there) elsewhere
    rw [before, after, debits_of_waiting unhandled, nil_append,
      outcomeDebit_row (booked.fits attempt (mem_of_getElem? found))
        (booked.fees attempt (mem_of_getElem? found) fee isStage)]
    unfold Attempt.debits
    rw [if_pos ⟨rfl, rfl⟩]
    change _ = match attempt.stage with
      | .succeeded fee => _
      | _ => []
    rw [isStage]
    rfl
  rw [if_neg here, append_nil]
  refine (flatMap_set_same found ?_).symm
  unfold Attempt.debits
  rw [if_neg fun both => here both.1.symm, if_neg fun both => here both.1.symm]

theorem Booked.step {move : SendMove} (timely : move.Timely sends) : Booked (sends.step move) := by
  cases move with
  | ask now node paymentHash owner invoice asked => exact booked.ask timely
  | send index accepts now => exact booked.send
  | resolve index feeMsat => exact booked.resolve timely
  | deliver index now => exact booked.deliver timely
  | other op =>
    refine booked.apart (apart_exec op ?_ (fun row enters => ?_) sends.ledger)
    · rintro id mem ⟨paymentHash, same⟩
      exact timely.1 id mem paymentHash same
    rcases timely.2 row enters with kind | unnamed
    · simp [kind]
    · simp [unnamed]

theorem Booked.run {moves : List SendMove} (timely : Timely sends moves) :
    Booked (sends.run moves) := by
  induction moves generalizing sends with
  | nil => exact booked
  | cons move rest ih => exact ih (booked.step timely.1) timely.2

end Booked

/-- In every timely run the node pays a hash at most once; a payment whose outcome has been handled
is debited once, and nothing else is debited for a hash. -/
theorem sends_debited_once (moves : List SendMove) (timely : Timely ⟨.empty, []⟩ moves) :
    let sends := Sends.run ⟨.empty, []⟩ moves
    (∀ (i : Nat) attempt fee, sends.attempts[i]? = some attempt ->
      attempt.stage = .succeeded fee -> attempt.handled = true ->
      sentFor sends.ledger attempt.hash = attempt.debit fee) /\
    (∀ (i j : Nat) first second, sends.attempts[i]? = some first ->
      sends.attempts[j]? = some second -> first.hash = second.hash -> first.isLive = true ->
      second.isLive = true -> i = j) /\
    (∀ paymentHash, (∀ attempt ∈ sends.attempts, attempt.hash = paymentHash ->
      ∀ fee, attempt.stage = .succeeded fee -> attempt.handled = false) ->
      sentFor sends.ledger paymentHash = []) /\
    ∀ (i : Nat) attempt, sends.attempts[i]? = some attempt -> attempt.isOpen = true ->
      sends.ledger.holds.get? (sendHoldId attempt.hash) = some attempt.row := by
  have booked : Booked (Sends.run ⟨.empty, []⟩ moves) :=
    (booked_start fun _ => ⟨rfl, rfl⟩).run timely
  refine ⟨fun i attempt fee found isStage handled => ?_, booked.live, fun paymentHash pending => ?_,
    fun i attempt found isOpen => booked.found found isOpen⟩
  · have live : attempt.isLive = true := by simp [Attempt.isLive, isStage]
    rw [booked.entries, flatMap_of_single _ found fun j other isOther elsewhere => ?_]
    · unfold Attempt.debits
      rw [if_pos ⟨rfl, handled⟩, isStage]
    unfold Attempt.debits
    split
    next both =>
      split
      next fee isFee =>
        have liveOther : other.isLive = true := by simp [Attempt.isLive, isFee]
        exact absurd (booked.live j i other attempt isOther found both.1 liveOther live) elsewhere
      · rfl
    · rfl
  rw [booked.entries]
  refine flatMap_eq_nil_iff.mpr fun attempt mem => ?_
  unfold Attempt.debits
  split
  next both =>
    split
    next fee isFee =>
      have unhandled := pending attempt mem both.1 fee isFee
      rw [both.2] at unhandled
      cases unhandled
    · rfl
  · rfl

namespace SendsSample

open LedgerSample

def funded : List SendMove :=
  [.other (.credit 100 alice (hash 1) 10000000), .other (.credit 100 bob (hash 2) 10000000)]

/-- Alice pays an invoice and its outcome is handled. -/
def paid : List SendMove :=
  [.ask 110 alice (hash 3) none (some 1000000) none, .send 0 true 111, .resolve 0 (some 500),
    .deliver 0 112]

theorem timely_credit (sends : Sends) (now : Nat) (node : PublicKey) (hash : Fixed 32)
    (amount : Nat) : (SendMove.other (.credit now node hash amount)).Timely sends :=
  ⟨nofun, fun row enters => .inl (by rw [enters.1]; decide)⟩

end SendsSample

open LedgerSample SendsSample

/-- A replay of the outcome before anybody asks again changes nothing. -/
theorem sends_debited_once_replayed :
    sentFor (Sends.run ⟨.empty, []⟩ (funded ++ (paid ++ [.deliver 0 113]))).ledger (hash 3) =
      [(key alice, -1000500, 500)] := by
  have one : ∀ done ∈ (funded ++ (paid ++ [SendMove.deliver 0 113])).inits,
      (Sends.run ⟨.empty, []⟩ done).attempts.length <= 1 := by decide
  have index : ∀ (done : List SendMove) (other : Nat) later,
      (Sends.run ⟨.empty, []⟩ done).attempts.length <= 1 ->
      (Sends.run ⟨.empty, []⟩ done).attempts[other]? = some later -> other = 0 := by
    intro done other later short found
    have below := (List.getElem?_eq_some_iff.mp found).1
    omega
  have timely : Timely ⟨.empty, []⟩ (funded ++ (paid ++ [.deliver 0 113])) := by
    refine ⟨timely_credit .., timely_credit .., ?_, trivial, ?_, ?_, ?_, trivial⟩
    · intro amount isAmount
      cases isAmount
      decide
    · intro attempt fee found isFee
      cases isFee
      have amount : ∀ one ∈ (Sends.run ⟨.empty, []⟩ (funded ++ paid.take 2)).attempts,
          500 <= feeCapMsat one.amountMsat := by decide
      exact amount attempt (mem_of_getElem? found)
    · intro attempt _ other later there _ _
      exact index (funded ++ paid.take 3) other later (one _ (by simp [funded, paid])) there
    intro attempt _ other later there _ _
    exact index (funded ++ paid) other later (one _ (by simp [funded, paid])) there
  have settled : ∃ attempt, (Sends.run ⟨.empty, []⟩
      (funded ++ (paid ++ [.deliver 0 113]))).attempts[0]? = some attempt /\
      attempt = ⟨alice, hash 3, 1000000, .succeeded 500, true⟩ :=
    ⟨_, by decide, rfl⟩
  obtain ⟨attempt, found, rfl⟩ := settled
  rw [(sends_debited_once _ timely).1 0 _ 500 found rfl rfl]
  decide

/-- The outcome is delivered again while Bob's request for the same invoice holds:
Bob pays for Alice's payment. -/
theorem sends_debited_twice : sentFor (Sends.run ⟨.empty, []⟩ (funded ++ paid ++
        [.ask 120 bob (hash 3) none (some 1000000) none, .deliver 0 121, .send 1 true 122])).ledger
      (hash 3) = [(key alice, -1000500, 500), (key bob, -1000500, 500)] := by
  decide

end Fortis.Lsp
