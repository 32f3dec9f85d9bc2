import Fortis.Lsp.Sends
import Fortis.Lsp.Conversions

/-!
# Holds across crashes

Conversions, deliveries, payments and withdrawals each take a hold in one transaction, call the
node, and settle, release or rename the hold in another.  A crash forgets the procedures under way.
Nothing looks at the holds when the program starts again, so a hold is closed after a crash only if
the node reports an outcome under its name.
-/

namespace Fortis.Lsp

open Fortis.Core Lib List Option Table Ledger

/-- The hold is closed, or there is none and nothing changes. -/
abbrev Frees (ledger : Ledger) (id : String) (prog : LedgerM PUnit) : Prop :=
  wp prog (fun _ after => after.holds = ledger.holds.delete id)
    (fun _ after => ledger.holds.get? id = none ∧ after = ledger) ledger

section Closing

variable {ledger : Ledger} (sound : ledger.Sound) (bounded : ledger.Bounded) (now : Nat)
  (id : String)
include sound bounded

theorem settleHold_closes (spent fee : Nat) (hash : Option (Fixed 32)) :
    Frees ledger id (settleHold now id spent fee hash) := by
  unfold Frees
  rcases found : ledger.holds.get? id with _ | row
  · rw [settleHold, wp_transaction, wp_bind, takeHold, wp_bind, wp_get, found]
    exact ⟨rfl, rfl⟩
  by_cases spends : 0 < min spent row.amountMsat
  · have returns : wp (settleHold now id spent fee hash) (fun _ _ => True)
        (fun _ _ => False) ledger := by
      rw [settleHold, wp_transaction, wp_bind, wp_takeHold_found found]
      dsimp only
      rw [if_pos spends, ← bind_pure (insertEntry _ _ _ _ _ _)]
      exact wp_debit sound bounded found (min_le_right _ _) fun _ _ => trivial
    exact wp_mono (wp_and (wp_settleHold found spends) returns) (fun _ _ closed => closed.1.1)
      fun _ _ never => never.2.elim
  rw [wp, settleHold_nothing found (Nat.eq_zero_of_not_pos spends)]
  rfl

theorem closeWithShare_closes (kind : EntryKind) (fee : Nat)
    (hash : Option (Fixed 32)) (share : RevenueKind) (reference : String) :
    Frees ledger id (closeWithShare now id kind fee hash share reference) := by
  unfold Frees
  rcases found : ledger.holds.get? id with _ | row
  · rw [closeWithShare, wp_transaction, wp_bind, takeHold, wp_bind, wp_get, found]
    exact ⟨rfl, rfl⟩
  have returns : wp (closeWithShare now id kind fee hash share reference)
      (fun _ _ => True) (fun _ _ => False) ledger := by
    rw [closeWithShare, wp_transaction, wp_bind, wp_takeHold_found found]
    refine wp_debit sound bounded found (le_refl _) fun after _ => ?_
    split
    · trivial
    · trivial
  exact wp_mono (wp_and (wp_closeWithShare found) returns) (fun _ _ closed => closed.1.1)
    fun _ _ never => never.2.elim

omit sound bounded in
theorem abandonConversion_closes : Frees ledger id (abandonConversion id) := by
  unfold Frees
  rw [abandonConversion, wp_transaction, wp_bind, takeHold, wp_bind, wp_get]
  cases found : ledger.holds.get? id with
  | none => exact ⟨rfl, rfl⟩
  | some row => rfl

end Closing

/-- Whether a closing returns or there was nothing to close, nothing is held. -/
theorem get?_of_closes {ledger : Ledger} {id : String} {prog : LedgerM PUnit}
    (closes : Frees ledger id prog) :
    wp prog (fun _ after => after.holds.get? id = none)
      (fun _ after => ledger.holds.get? id = none ∧ after.holds.get? id = none) ledger := by
  refine wp_mono closes (fun _ after closed => ?_) fun _ after nothing => ?_
  · rw [closed, get?_delete, if_pos rfl]
  · exact ⟨nothing.1, nothing.2 ▸ nothing.1⟩

inductive Errand
  /-- A conversion or a delivery. -/
  | push (task : Task)
  | pay (node : PublicKey) (paymentHash : Fixed 32) (amountMsat : Nat)
  | withdraw (node : PublicKey) (nonce : String) (amountMsat feeMsat : Nat)
  deriving DecidableEq

namespace Errand

def holdId : Errand → String
  | push task => task.pendingId
  | pay _ paymentHash _ => sendHoldId paymentHash
  | withdraw node nonce _ _ => "wd:" ++ key node ++ ":" ++ nonce

def isPush : Errand → Bool
  | push _ => true
  | _ => false

def isPay : Errand → Bool
  | pay .. => true
  | _ => false

def take : Errand → LedgerM PUnit
  | push task => discard (startConversion task.node task.pendingId)
  | pay node paymentHash amountMsat =>
    holdSend node (sendHoldId paymentHash) amountMsat (amountMsat + feeCapMsat amountMsat)
  | withdraw node nonce amountMsat _ =>
    holdWithdrawal node ("wd:" ++ key node ++ ":" ++ nonce) amountMsat

/-- The name the node's report will carry, if the node took the call; an on-chain
payout is not reported. -/
def reported (errand : Errand) (answer : Fixed 32 × Nat) : Option String :=
  match errand with
  | push task => some (task.job.name answer).id
  | pay _ paymentHash _ => some (sendHoldId paymentHash)
  | withdraw .. => none

def conclude (now : Nat) (errand : Errand) (answer : Option (Fixed 32 × Nat)) : LedgerM PUnit :=
  match errand, answer with
  | push task, some answer => renameHold task.pendingId (task.job.name answer).id
  | push task, none => abandonConversion task.pendingId
  | pay .., some _ => pure ⟨⟩
  | pay _ paymentHash _, none => settleHold now (sendHoldId paymentHash) 0 0 none
  | withdraw node nonce _ feeMsat, some answer =>
    settleWithdrawal now ("wd:" ++ key node ++ ":" ++ nonce) feeMsat answer.1
  | withdraw node nonce _ _, none =>
    settleHold now ("wd:" ++ key node ++ ":" ++ nonce) 0 0 none

end Errand

/-- A report of the node, as its handler takes it. -/
inductive Report
  | pushed (name : HoldName) (arrived : Bool)
  | paid (paymentHash : Fixed 32) (feeMsat : Option Nat)

namespace Report

def id : Report → String
  | pushed name _ => name.id
  | paid paymentHash _ => sendHoldId paymentHash

def handle (now : Nat) : Report → LedgerM PUnit
  | pushed name arrived => do
    match (← get).holds.get? name.id with
    | none => pure ⟨⟩
    | some row => Converter.resolve name row.amountMsat arrived now
  | paid paymentHash feeMsat => onPaymentResolved now paymentHash feeMsat

end Report

structure Running where
  errand : Errand
  answer : Option (Option (Fixed 32 × Nat))
  deriving DecidableEq

structure Teller where
  ledger : Ledger
  /-- Forgotten in a crash. -/
  running : List Running
  /-- The names of what the node took and has not reported. -/
  live : List String
  /-- The holds of the procedures that crashes cut off. -/
  cut : List String

inductive TellerMove
  | begin (errand : Errand)
  | call (index : Nat) (answer : Option (Fixed 32 × Nat))
  | conclude (index : Nat) (now : Nat)
  | report (report : Report) (now : Nat)
  | crash
  /-- Credits, transfers and imports. -/
  | book (op : Op)

namespace Teller

def opened : Teller := ⟨.empty, [], [], []⟩

def step (teller : Teller) : TellerMove → Teller
  | .begin errand =>
    match errand.take teller.ledger with
    | .ok _ after => { teller with ledger := after, running := teller.running ++ [⟨errand, none⟩] }
    | .error _ after => { teller with ledger := after }
  | .call index answer =>
    match teller.running[index]? with
    | some ⟨errand, none⟩ =>
      let live := teller.live ++ (answer.bind errand.reported).toList
      if errand.isPay ∧ answer.isSome then
        -- Nothing is left to do: the payment's own name is the hold's.
        { teller with running := teller.running.eraseIdx index, live := live }
      else { teller with running := teller.running.set index ⟨errand, some answer⟩, live := live }
    | _ => teller
  | .conclude index now =>
    match teller.running[index]? with
    | some ⟨errand, some answer⟩ => { teller with
        ledger := finalState (errand.conclude now answer) teller.ledger
        running := teller.running.eraseIdx index }
    | _ => teller
  | .report report now =>
    -- Reports are handled by the thread that pushes, between two pushes.
    if teller.running.any (·.errand.isPush) then teller
    else
      match report.handle now teller.ledger with
      | .ok _ after => { teller with
          ledger := after, live := teller.live.filter (· ≠ report.id) }
      -- A report whose handler fails is given again.
      | .error _ after => { teller with ledger := after }
  | .crash => { teller with
      running := [], cut := teller.cut ++ teller.running.map (·.errand.holdId) }
  | .book op => { teller with ledger := finalState op.exec teller.ledger }

def run (teller : Teller) (moves : List TellerMove) : Teller := moves.foldl step teller

/-- The node gives names no hold has, and the rest of the program names no hold. -/
def Orderly (teller : Teller) : TellerMove → Prop
  | .conclude index _ => ∀ task answer,
      teller.running[index]? = some ⟨.push task, some (some answer)⟩ →
        teller.ledger.holds.get? (task.job.name answer).id = none
  | .book op => op.holdIds = []
  | _ => True

/-- A run of such moves within the file's integers. -/
def OrderlyRun : Teller → List TellerMove → Prop
  | teller, [] => teller.ledger.Bounded
  | teller, move :: rest =>
    teller.ledger.Bounded ∧ teller.Orderly move ∧ OrderlyRun (teller.step move) rest

end Teller

/-! ## What the transactions do to the holds -/

variable {errand : Errand} {op : Op} {answer : Option (Fixed 32 × Nat)}

section Transactions

variable {ledger : Ledger}

theorem wp_take (errand : Errand) :
    wp errand.take (fun _ after => ledger.holds.get? errand.holdId = none ∧
        ∃ row, row.id = errand.holdId ∧ after = ledger.reserved row)
      (Unchanged ledger) ledger := by
  have held {node : PublicKey} {id : String} {amount baseMsat : Nat} {kind : String} :
      wp (holdKind node id amount baseMsat kind) (fun _ after => ledger.holds.get? id = none ∧
          ∃ row, row.id = id ∧ after = ledger.reserved row)
        (Unchanged ledger) ledger :=
    wp_imp wp_holdKind fun _ _ taken => ⟨taken.1, _, rfl, taken.2⟩
  cases errand with
  | push task =>
    rw [Errand.take, wp_discard, startConversion]
    refine wp_seq (relates_iff_wp.mp (same_accountOf (key task.node)) ledger)
      (fun account read same => ?_) fun _ _ same => same
    subst same
    exact wp_seq held (fun _ _ taken => taken) fun _ _ same => same
  | pay node hash amount => exact held
  | withdraw node nonce amount feeMsat => exact held

variable {id : String} (report : Report) (now : Nat)

theorem exec_keeps (op : Op) (other : ∀ named ∈ op.holdIds, named ≠ id) :
    (finalState op.exec ledger).holds.get? id = ledger.holds.get? id := by
  have kept : Apart (· = id) (fun _ => false) ledger (finalState op.exec ledger) :=
    apart_exec op other (fun _ _ => rfl) ledger
  exact kept.holds id rfl

/-- The transaction after the call names no hold but that of the procedure and the one reported. -/
theorem conclude_eq_exec (errand : Errand) (now : Nat) (answer : Option (Fixed 32 × Nat)) :
    errand.conclude now answer = pure ⟨⟩ ∨ ∃ op : Op, errand.conclude now answer = op.exec ∧
      ∀ named ∈ op.holdIds, named = errand.holdId ∨ answer.bind errand.reported = some named := by
  have only {id : String} : ∀ named ∈ [id], named = id ∨ answer.bind errand.reported = some named :=
    fun named mem => .inl (mem_singleton.mp mem)
  cases errand with
  | push task =>
    rcases answer with _ | given
    · exact .inr ⟨.abandonConversion task.pendingId, rfl, only⟩
    refine .inr ⟨.renameHold task.pendingId (task.job.name given).id, rfl, fun named mem => ?_⟩
    rcases mem_cons.mp mem with own | mem
    · exact .inl own
    · exact .inr (congrArg some (mem_singleton.mp mem).symm)
  | pay node hash amountMsat =>
    cases answer with
    | none => exact .inr ⟨.settleHold now (sendHoldId hash) 0 0 none, rfl, only⟩
    | some given => exact .inl rfl
  | withdraw node nonce amountMsat feeMsat =>
    cases answer with
    | none => exact .inr ⟨.settleHold now _ 0 0 none, rfl, only⟩
    | some given => exact .inr ⟨.settleWithdrawal now _ feeMsat given.1, rfl, only⟩

theorem handle_eq_exec (ledger : Ledger) : report.handle now ledger = .ok ⟨⟩ ledger ∨
      ∃ op : Op, report.handle now ledger = op.exec ledger ∧ op.holdIds = [report.id] := by
  cases report with
  | pushed name arrived =>
    rw [Report.handle, read_bind]
    rcases ledger.holds.get? name.id with _ | row
    · exact .inl rfl
    rcases arrived with _ | _
    · exact .inr ⟨.abandonConversion name.id, rfl, rfl⟩
    cases name with
    | deliver paymentId => exact .inr ⟨.finishConversionBy now _ 0 (some paymentId), rfl, rfl⟩
    | pay paymentId => exact .inr ⟨.finishConversion now _ _, rfl, rfl⟩
    | chan userChannelId => exact .inr ⟨.finishConversion now _ _, rfl, rfl⟩
  | paid hash feeMsat =>
    rw [Report.handle]
    unfold onPaymentResolved
    rw [read_bind]
    rcases ledger.holds.get? (sendHoldId hash) with _ | row
    · exact .inl rfl
    cases feeMsat with
    | none => exact .inr ⟨.settleHold now (sendHoldId hash) 0 0 none, rfl, rfl⟩
    | some fee =>
      exact .inr ⟨.settleSend now (sendHoldId hash) fee (some hash), rfl, rfl⟩

theorem conclude_keeps (unreported : answer.bind errand.reported ≠ some id)
    (other : errand.holdId ≠ id) :
    (finalState (errand.conclude now answer) ledger).holds.get? id = ledger.holds.get? id := by
  rcases conclude_eq_exec errand now answer with nothing | ⟨op, same, names⟩
  · rw [nothing]
    rfl
  rw [same]
  refine exec_keeps op fun named mem own => ?_
  rcases names named mem with held | reported
  · exact other (held.symm.trans own)
  · exact unreported (own ▸ reported)

theorem handle_keeps (other : report.id ≠ id) :
    (finalState (report.handle now) ledger).holds.get? id = ledger.holds.get? id := by
  unfold finalState
  rcases handle_eq_exec report now ledger with nothing | ⟨op, same, names⟩
  · rw [nothing]
  rw [same]
  exact exec_keeps op (by simpa [names] using other)

/-- After the last transaction no hold is left under the name the procedure held,
unless the node gave that name. -/
theorem conclude_closes (sound : ledger.Sound) (bounded : ledger.Bounded) (now : Nat)
    (unpaid : errand.isPay = true → answer = none)
    (fresh : ∀ task given, errand = .push task → answer = some given →
      ledger.holds.get? (task.job.name given).id = none)
    (unreported : answer.bind errand.reported ≠ some errand.holdId) :
    (finalState (errand.conclude now answer) ledger).holds.get? errand.holdId = none := by
  have closed {prog : LedgerM PUnit} {id : String} (closes : Frees ledger id prog) :
      (finalState prog ledger).holds.get? id = none :=
    finalState_cases (get?_of_closes closes) (fun _ _ gone => gone) fun _ _ nothing => nothing.2
  have settled (id : String) := closed (settleHold_closes sound bounded now id 0 0 none)
  cases errand with
  | push task =>
    rcases answer with _ | given
    · exact closed (abandonConversion_closes task.pendingId)
    rw [Errand.conclude, Errand.holdId]
    refine finalState_both ?_
    rcases found : ledger.holds.get? task.pendingId with _ | held
    · unfold renameHold
      rw [wp_bind, wp_get, found]
      exact found
    refine wp_mono (wp_rename found (fresh task given rfl rfl)) (fun _ after same => ?_) nofun
    have other : task.pendingId ≠ ({ held with id := (task.job.name given).id } : HoldRow).id :=
      fun same => unreported (congrArg some same.symm)
    rw [same, renamed]
    rw [get?_put_of_ne _ other, get?_delete, if_pos rfl]
  | pay node hash amountMsat =>
    cases unpaid rfl
    exact settled (sendHoldId hash)
  | withdraw node nonce amountMsat feeMsat =>
    rcases answer with _ | given
    · exact settled ("wd:" ++ key node ++ ":" ++ nonce)
    exact closed (closeWithShare_closes sound bounded now ("wd:" ++ key node ++ ":" ++ nonce)
      _ _ _ _ _)

theorem handle_closes (sound : ledger.Sound) (bounded : ledger.Bounded) (report : Report)
    (now : Nat) : wp (report.handle now) (fun _ after => after.holds.get? report.id = none)
      (fun _ _ => False) ledger := by
  have closed {prog : LedgerM PUnit} {id : String} {row : HoldRow}
      (found : ledger.holds.get? id = some row)
      (closes : Frees ledger id prog) :
      wp prog (fun _ after => after.holds.get? id = none) (fun _ _ => False) ledger :=
    wp_mono (get?_of_closes closes) (fun _ _ gone => gone) fun _ _ nothing =>
      some_ne_none row (found.symm.trans nothing.1)
  cases report with
  | pushed name arrived =>
    rw [Report.handle, wp_bind, wp_get]
    rcases found : ledger.holds.get? name.id with _ | row
    · exact found
    rcases arrived with _ | _
    · exact closed found (abandonConversion_closes name.id)
    have closes := fun feeMsat hash reference =>
      closed found (closeWithShare_closes sound bounded now name.id .converted feeMsat
        hash .channelFee reference)
    cases name <;> exact closes _ _ _
  | paid hash feeMsat =>
    rw [Report.handle]
    unfold onPaymentResolved
    rw [wp_bind, wp_get]
    rcases found : ledger.holds.get? (sendHoldId hash) with _ | row
    · exact found
    rcases feeMsat with _ | fee
    · exact closed found (settleHold_closes sound bounded now _ 0 0 none)
    dsimp only
    rw [settleSend, wp_bind, wp_get, found]
    exact closed found (settleHold_closes sound bounded now _ _ fee _)

theorem book_holds (apart : op.holdIds = []) (id : String) :
    (finalState op.exec ledger).holds.get? id = ledger.holds.get? id :=
  exec_keeps op (by simp [apart])

end Transactions

section Books

variable {ledger : Ledger} (sound : ledger.Sound) (bounded : ledger.Bounded)
include sound bounded

theorem sound_take (errand : Errand) (fits : (finalState errand.take ledger).Bounded) :
    (finalState errand.take ledger).Sound := by
  cases errand with
  | push task => exact sound_exec sound bounded (.startConversion task.node task.pendingId) fits
  | pay node hash amountMsat =>
    exact sound_exec sound bounded (.holdSend node (sendHoldId hash) amountMsat
      (amountMsat + feeCapMsat amountMsat)) fits
  | withdraw node nonce amountMsat feeMsat =>
    exact sound_exec sound bounded
      (.holdWithdrawal node ("wd:" ++ key node ++ ":" ++ nonce) amountMsat) fits

theorem sound_conclude (errand : Errand) (answer : Option (Fixed 32 × Nat)) (now : Nat)
    (fits : (finalState (errand.conclude now answer) ledger).Bounded) :
    (finalState (errand.conclude now answer) ledger).Sound := by
  rcases conclude_eq_exec errand now answer with nothing | ⟨op, same, _⟩
  · rw [nothing]
    exact sound
  rw [same] at fits ⊢
  exact sound_exec sound bounded op fits

theorem sound_handle (report : Report) (now : Nat)
    (fits : (finalState (report.handle now) ledger).Bounded) :
    (finalState (report.handle now) ledger).Sound := by
  unfold finalState at fits ⊢
  rcases handle_eq_exec report now ledger with nothing | ⟨op, same, _⟩
  · rw [nothing]
    exact sound
  rw [same] at fits ⊢
  exact sound_exec sound bounded op fits

end Books

/-! ## Every open hold is accounted for -/

variable {moves : List TellerMove} {move : TellerMove}

namespace Teller

variable {teller : Teller}

/-- Every open hold is that of a procedure under way, has a name the node will
report, or was cut off. -/
structure Covered (teller : Teller) : Prop where
  sound : teller.ledger.Sound
  holds : ∀ {id row}, teller.ledger.holds.get? id = some row →
    (∃ one ∈ teller.running, one.errand.holdId = id) ∨ id ∈ teller.live ∨ id ∈ teller.cut
  answered : ∀ one ∈ teller.running, ∀ answer, one.answer = some answer →
    (one.errand.isPay = true → answer = none) ∧
      ∀ name, answer.bind one.errand.reported = some name → name ∈ teller.live

theorem covered_opened : opened.Covered where
  sound := sound_empty
  holds found := nomatch found
  answered _ member := nomatch member

theorem step_begin (teller : Teller) (errand : Errand) : teller.step (.begin errand) = teller ∨
    (teller.ledger.holds.get? errand.holdId = none ∧ ∃ row : HoldRow, row.id = errand.holdId ∧
      teller.step (.begin errand) = { teller with
        ledger := teller.ledger.reserved row, running := teller.running ++ [⟨errand, none⟩] }) := by
  have taken : wp errand.take _ _ teller.ledger := wp_take errand
  unfold wp at taken
  rw [step]
  rcases ran : errand.take teller.ledger with ⟨value, after⟩ | ⟨raised, after⟩
  swap
  · rw [ran] at taken
    exact .inl (by rw [taken])
  rw [ran] at taken
  obtain ⟨free, row, own, rfl⟩ := taken
  exact .inr ⟨free, row, own, rfl⟩

/-- The other procedures under way stay when one changes or ends. -/
theorem other_running {index : Nat} {one other : Running} (asks : teller.running[index]? = some one)
    (running : other ∈ teller.running) (differs : other ≠ one) (changed : Running) :
    other ∈ teller.running.eraseIdx index ∧ other ∈ teller.running.set index changed := by
  obtain ⟨place, at'⟩ := mem_iff_getElem?.mp running
  have elsewhere : place ≠ index := by
    rintro rfl
    rw [asks] at at'
    exact differs (some.inj at').symm
  refine ⟨mem_eraseIdx_iff_getElem?.mpr ⟨place, elsewhere, at'⟩, mem_iff_getElem?.mpr ⟨place, ?_⟩⟩
  rw [getElem?_set_ne elsewhere.symm]
  exact at'

theorem begin_ledger (teller : Teller) (errand : Errand) :
    (teller.step (.begin errand)).ledger = finalState errand.take teller.ledger := by
  simp only [step, finalState]
  cases errand.take teller.ledger <;> rfl

theorem report_ledger (teller : Teller) (report : Report) (now : Nat)
    (idle : teller.running.any (·.errand.isPush) = false) :
    (teller.step (.report report now)).ledger = finalState (report.handle now) teller.ledger := by
  simp only [step, idle, finalState, Bool.false_eq_true, if_false]
  cases report.handle now teller.ledger <;> rfl

section

variable (covered : teller.Covered) (bounded : teller.ledger.Bounded)
include covered

theorem Covered.call (index : Nat) (answer : Option (Fixed 32 × Nat)) :
    (teller.step (.call index answer)).Covered := by
  rw [step]
  split
  next errand asks =>
    have mem : (⟨errand, none⟩ : Running) ∈ teller.running := mem_of_getElem? asks
    have older : ∀ {name}, name ∈ teller.live →
        name ∈ teller.live ++ (answer.bind errand.reported).toList :=
      fun kept => mem_append_left _ kept
    split
    next paid =>
      -- The hold of an accepted payment is carried by its own name.
      refine ⟨covered.sound, fun {id row} found => ?_, fun one still given said => ?_⟩
      · rcases covered.holds found with ⟨one, running, own⟩ | live | cut
        · by_cases same : one = ⟨errand, none⟩
          · subst same
            refine .inr (.inl (mem_append_right _ ?_))
            cases errand with
            | pay node hash amountMsat =>
              obtain ⟨answered, rfl⟩ := isSome_iff_exists.mp paid.2
              exact mem_toList.mpr (congrArg some own)
            | push | withdraw => exact absurd paid.1 (by simp [Errand.isPay])
          exact .inl ⟨one, (other_running asks running same one).1, own⟩
        · exact .inr (.inl (older live))
        · exact .inr (.inr cut)
      obtain ⟨unpaid, names⟩ :=
        covered.answered one (mem_of_mem_eraseIdx still) given said
      exact ⟨unpaid, fun name reported => older (names name reported)⟩
    next unpaid =>
    refine ⟨covered.sound, fun {id row} found => ?_, fun one still given said => ?_⟩
    · rcases covered.holds found with ⟨one, running, own⟩ | live | cut
      · by_cases same : one = ⟨errand, none⟩
        · subst same
          refine .inl ⟨⟨errand, some answer⟩, ?_, own⟩
          exact mem_set (List.getElem?_eq_some_iff.mp asks).1 _
        exact .inl ⟨one, (other_running asks running same _).2, own⟩
      · exact .inr (.inl (older live))
      · exact .inr (.inr cut)
    rcases mem_or_eq_of_mem_set still with old | rfl
    · obtain ⟨notPaid, names⟩ := covered.answered one old given said
      exact ⟨notPaid, fun name reported => older (names name reported)⟩
    cases said
    refine ⟨fun pays => ?_, fun name reported => ?_⟩
    · by_contra some'
      exact unpaid ⟨pays, isSome_iff_ne_none.mpr some'⟩
    · exact mem_append_right _ (mem_toList.mpr reported)
  · exact covered

theorem Covered.crash : (teller.step .crash).Covered where
  sound := covered.sound
  holds {id _} found := by
    rcases covered.holds found with ⟨one, running, own⟩ | live | cut
    · exact .inr (.inr (mem_append_right _ (mem_map.mpr ⟨one, running, own⟩)))
    · exact .inr (.inl live)
    · exact .inr (.inr (mem_append_left _ cut))
  answered _ member := nomatch member

include bounded

theorem Covered.begin (errand : Errand) (fits : (teller.step (.begin errand)).ledger.Bounded) :
    (teller.step (.begin errand)).Covered := by
  have sound : (teller.step (.begin errand)).ledger.Sound := by
    rw [begin_ledger] at fits ⊢
    exact sound_take covered.sound bounded errand fits
  rcases step_begin teller errand with same | ⟨_, row, own, same⟩
  · rwa [same]
  rw [same] at sound ⊢
  refine ⟨sound, fun {id held} found => ?_, fun one mem answer given => ?_⟩
  · by_cases same : id = row.id
    · exact .inl ⟨⟨errand, none⟩, by simp, by rw [same, own]⟩
    · have before : teller.ledger.holds.get? id = some held := by
        rwa [reserved, get?_put_of_ne _ same] at found
      rcases covered.holds before with ⟨one, mem, name⟩ | rest
      · exact .inl ⟨one, mem_append_left _ mem, name⟩
      · exact .inr rest
  rcases mem_concat.mp mem with old | rfl
  · exact covered.answered one old answer given
  cases given

theorem Covered.conclude {index now : Nat} (orderly : teller.Orderly (.conclude index now))
    (fits : (teller.step (.conclude index now)).ledger.Bounded) :
    (teller.step (.conclude index now)).Covered := by
  rw [step] at fits ⊢
  split at fits
  next errand answer asks =>
    have mem : (⟨errand, some answer⟩ : Running) ∈ teller.running := mem_of_getElem? asks
    obtain ⟨unpaid, names⟩ := covered.answered _ mem answer rfl
    have fresh : ∀ task given, errand = .push task → answer = some given →
        teller.ledger.holds.get? (task.job.name given).id = none := by
      rintro task given rfl rfl
      exact orderly task given asks
    refine ⟨sound_conclude covered.sound bounded errand answer now fits,
      fun {id row} found => ?_, fun one still => ?_⟩
    · by_cases reported : answer.bind errand.reported = some id
      · exact .inr (.inl (names id reported))
      have other : errand.holdId ≠ id := by
        rintro rfl
        have gone := conclude_closes covered.sound bounded now unpaid fresh reported
        exact nomatch gone.symm.trans found
      have before := (conclude_keeps now reported other).symm.trans found
      rcases covered.holds before with ⟨one, running, own⟩ | rest
      · refine .inl ⟨one, (other_running asks running ?_ one).1, own⟩
        rintro rfl
        exact other own
      · exact .inr rest
    · exact covered.answered one (mem_of_mem_eraseIdx still)
  · exact covered

/-- In sound books a report is handled at once: nothing is held under its name any
more and nothing else was touched. -/
theorem Covered.handled
    (report : Report) (now : Nat) (idle : teller.running.any (·.errand.isPush) = false) :
    (∀ {id row}, (teller.step (.report report now)).ledger.holds.get? id = some row →
      id ≠ report.id ∧ teller.ledger.holds.get? id = some row) ∧
      (teller.step (.report report now)).live = teller.live.filter (· ≠ report.id) ∧
      (teller.step (.report report now)).running = teller.running ∧
      (teller.step (.report report now)).cut = teller.cut := by
  obtain ⟨_, after, ran, closed⟩ :=
    returns_of_wp (handle_closes covered.sound bounded report now)
  have keeps {id : String} (other : report.id ≠ id) :
      (finalState (report.handle now) teller.ledger).holds.get? id = teller.ledger.holds.get? id :=
    handle_keeps report now other
  simp only [finalState, ran] at keeps
  rw [step, if_neg (by simp [idle]), ran]
  refine ⟨fun {id row} found => ?_, rfl, rfl, rfl⟩
  have other : report.id ≠ id := by
    rintro rfl
    cases closed.symm.trans found
  exact ⟨other.symm, (keeps other).symm.trans found⟩

theorem Covered.report
    (report : Report) (now : Nat) (fits : (teller.step (.report report now)).ledger.Bounded) :
    (teller.step (.report report now)).Covered := by
  cases idle : teller.running.any (·.errand.isPush) with
  | true =>
    have waits : teller.step (.report report now) = teller := by
      rw [step, if_pos (by simpa using idle)]
    rwa [waits]
  | false =>
    have sound : (teller.step (.report report now)).ledger.Sound := by
      rw [report_ledger teller report now idle] at fits ⊢
      exact sound_handle covered.sound bounded report now fits
    obtain ⟨closed, live, running, cut⟩ := covered.handled bounded report now idle
    have keeps : ∀ {name}, name ≠ report.id → name ∈ teller.live →
        name ∈ (teller.step (.report report now)).live := by
      intro name other mem
      rw [live]
      exact mem_filter.mpr ⟨mem, by simpa using other⟩
    refine ⟨sound, fun {id row} found => ?_, fun one mem answer given => ?_⟩
    · obtain ⟨other, before⟩ := closed found
      rw [running, cut]
      rcases covered.holds before with under | mem | mem
      · exact .inl under
      · exact .inr (.inl (keeps other mem))
      · exact .inr (.inr mem)
    -- No push is under way, and nothing else has a name to be reported.
    rw [running] at mem
    obtain ⟨unpaid, _⟩ := covered.answered one mem answer given
    refine ⟨unpaid, fun name reported => ?_⟩
    have notPush : one.errand.isPush = false := by
      have all := any_eq_false.mp idle one mem
      simpa using all
    cases errand : one.errand with
    | push task => simp [errand, Errand.isPush] at notPush
    | pay node hash amountMsat =>
      have none' := unpaid (by rw [errand]; rfl)
      simp [none'] at reported
    | withdraw node nonce amountMsat feeMsat =>
      rw [errand] at reported
      cases answer <;> simp [Errand.reported] at reported

theorem Covered.book (apart : op.holdIds = []) (fits : (teller.step (.book op)).ledger.Bounded) :
    (teller.step (.book op)).Covered where
  sound := sound_exec covered.sound bounded op fits
  holds {id _} found := covered.holds ((book_holds apart id).symm.trans found)
  answered := covered.answered

theorem Covered.step (orderly : teller.Orderly move)
    (fits : (teller.step move).ledger.Bounded) : (teller.step move).Covered := by
  cases move with
  | begin errand => exact covered.begin bounded errand fits
  | call index answer => exact covered.call index answer
  | conclude index now => exact covered.conclude bounded orderly fits
  | report report now => exact covered.report bounded report now fits
  | crash => exact covered.crash
  | book op => exact covered.book bounded orderly fits

end

theorem OrderlyRun.bounded (orderly : OrderlyRun teller moves) : teller.ledger.Bounded := by
  cases moves with
  | nil => exact orderly
  | cons move rest => exact orderly.1

theorem Covered.run (covered : teller.Covered) (orderly : OrderlyRun teller moves) :
    (teller.run moves).Covered ∧ (teller.run moves).ledger.Bounded := by
  induction moves generalizing teller with
  | nil => exact ⟨covered, orderly⟩
  | cons move rest ih =>
    have fits := OrderlyRun.bounded orderly.2.2
    exact ih (covered.step orderly.1 orderly.2.1 fits) orderly.2.2

end Teller

def Ledger.accountNow (ledger : Ledger) (node : PublicKey) : Option Account :=
  match accountOf (key node) ledger with
  | .ok account _ => some account
  | .error _ _ => none

theorem accountNow_free {ledger : Ledger} (sound : ledger.Sound) {node : PublicKey}
    (none' : ∀ {id row}, ledger.holds.get? id = some row → row.node ≠ key node) :
    ∃ account, ledger.accountNow node = some account ∧ account.freeMsat = account.balanceMsat := by
  have held : ledger.held (key node) = 0 := by
    unfold held total
    refine sum_eq_zero fun _ mem => ?_
    obtain ⟨row, stored, rfl⟩ := mem_map.mp mem
    rw [if_neg (none' (get?_of_mem stored))]
  have read : wp (accountOf (key node)) (fun account _ => account.freeMsat = account.balanceMsat)
      (fun _ _ => False) ledger := by
    have within : ¬ (ledger.held (key node) > i64Max) := by
      rw [held]
      exact Nat.not_lt_zero _
    unfold accountOf
    rw [wp_bind, wp_get]
    rcases found : ledger.accounts.get? (key node) with _ | row
    · simp only [wp_bind, wp_pure, wp_abortIf, if_neg within]
      rw [held]
      rfl
    obtain ⟨name, balance⟩ := row
    have whole : balance = .int (ledger.balanceOf (key node)) :=
      sound.integral (key node) _ found
    subst whole
    simp only [wp_bind, wp_pure, wp_abortIf, if_neg within]
    rw [held]
    rfl
  obtain ⟨account, _, ran, same⟩ := returns_of_wp read
  unfold accountNow
  rw [ran]
  exact ⟨account, rfl, same⟩

/-- An open hold is that of a procedure under way, or has a name the node will report, or was cut
off by a crash; a report closes the hold of its name and nothing else. -/
theorem holds_released (moves : List TellerMove) (orderly : Teller.OrderlyRun .opened moves) :
    let teller := Teller.opened.run moves
    (∀ {id row}, teller.ledger.holds.get? id = some row →
      (∃ one ∈ teller.running, one.errand.holdId = id) ∨ id ∈ teller.live ∨ id ∈ teller.cut) ∧
    (∀ {id row}, (teller.step .crash).ledger.holds.get? id = some row → teller.cut = [] →
      teller.running = [] → id ∈ (teller.step .crash).live) ∧
    (∀ report now, teller.running.any (·.errand.isPush) = false →
      (teller.step (.report report now)).ledger.holds.get? report.id = none ∧
      report.id ∉ (teller.step (.report report now)).live ∧
      ∀ id ≠ report.id, id ∈ teller.live → id ∈ (teller.step (.report report now)).live) ∧
    ∀ node, (∀ {id row}, teller.ledger.holds.get? id = some row → row.node = key node →
        (∀ one ∈ teller.running, one.errand.holdId ≠ id) ∧ id ∉ teller.live ∧ id ∉ teller.cut) →
      ∃ account, teller.ledger.accountNow node = some account ∧
        account.freeMsat = account.balanceMsat := by
  intro teller
  obtain ⟨covered, bounded⟩ := Teller.covered_opened.run orderly
  refine ⟨covered.holds, fun {id row} found uncut idle => ?_, fun report now idle => ?_,
    fun node resolved => ?_⟩
  · rcases covered.holds found with ⟨one, mem, _⟩ | live | cut
    · rw [show (Teller.opened.run moves).running = [] from idle] at mem
      cases mem
    · exact live
    rw [show (Teller.opened.run moves).cut = [] from uncut] at cut
    cases cut
  · obtain ⟨closed, live, _, _⟩ := covered.handled bounded report now idle
    refine ⟨?_, ?_, fun id other mem => ?_⟩
    · cases found : (teller.step (.report report now)).ledger.holds.get? report.id with
      | none => rfl
      | some row => exact absurd rfl (closed found).1
    · rw [live]
      simp
    rw [live]
    exact mem_filter.mpr ⟨mem, by simpa using other⟩
  refine accountNow_free covered.sound fun {id row} found own => ?_
  obtain ⟨notRunning, notLive, notCut⟩ := resolved found own
  rcases covered.holds found with ⟨one, mem, name⟩ | live | cut
  · exact notRunning one mem name
  · exact notLive live
  · exact notCut cut

/-! ## Holds that stay -/

section

variable {id : String}

/-- The hold is open and no procedure under way is about it. -/
def Stuck (id : String) (teller : Teller) : Prop :=
  (teller.ledger.holds.get? id).isSome = true ∧ ∀ one ∈ teller.running, one.errand.holdId ≠ id

/-- The program's own transactions alone name holds. -/
def TellerMove.Apart : TellerMove → Prop
  | .book op => op.holdIds = []
  | _ => True

theorem exists_report (reported : answer.bind errand.reported = some id) :
    ∃ report : Report, report.id = id := by
  obtain ⟨given, rfl, name⟩ := bind_eq_some_iff.mp reported
  cases errand with
  | push task => exact ⟨.pushed (task.job.name given) true, some.inj name⟩
  | pay node hash amountMsat => exact ⟨.paid hash none, some.inj name⟩
  | withdraw node nonce amountMsat feeMsat => cases name

section

variable {teller : Teller} (stuck : Stuck id teller)
  (unreported : ∀ report : Report, report.id ≠ id)
include stuck unreported

/-- A hold that no report names stays, whatever moves. -/
theorem Stuck.step (apart : move.Apart) : Stuck id (teller.step move) := by
  obtain ⟨held, others⟩ := stuck
  cases move with
  | begin errand =>
    rcases Teller.step_begin teller errand with same | ⟨free, row, own, same⟩
    · rw [same]
      exact ⟨held, others⟩
    rw [same]
    have another : errand.holdId ≠ id := by
      rintro rfl
      rw [free] at held
      cases held
    refine ⟨?_, fun one mem => ?_⟩
    · dsimp only [reserved]
      rw [get?_put_of_ne _ (own ▸ another.symm)]
      exact held
    rcases mem_concat.mp mem with old | rfl
    · exact others one old
    exact another
  | call index answer =>
    rw [Teller.step]
    split
    next errand asks =>
      have another := others _ (mem_of_getElem? asks)
      split
      · exact ⟨held, fun one mem => others one (mem_of_mem_eraseIdx mem)⟩
      refine ⟨held, fun one mem => ?_⟩
      rcases mem_or_eq_of_mem_set mem with old | rfl
      · exact others one old
      · exact another
    · exact ⟨held, others⟩
  | conclude index now =>
    rw [Teller.step]
    split
    next errand answer asks =>
      refine ⟨?_, fun one mem => others one (mem_of_mem_eraseIdx mem)⟩
      rw [conclude_keeps now _ (others _ (mem_of_getElem? asks))]
      · exact held
      intro reported
      obtain ⟨report, own⟩ := exists_report reported
      exact unreported report own
    · exact ⟨held, others⟩
  | report report now =>
    cases idle : teller.running.any (·.errand.isPush) with
    | true =>
      rw [Teller.step, if_pos (by simpa using idle)]
      exact ⟨held, others⟩
    | false =>
      have ledger := Teller.report_ledger teller report now idle
      refine ⟨?_, fun one mem => others one ?_⟩
      · rw [ledger, handle_keeps report now (unreported report)]
        exact held
      rw [Teller.step, if_neg (by simp [idle])] at mem
      split at mem <;> exact mem
  | crash => exact ⟨held, nofun⟩
  | book op =>
    refine ⟨?_, others⟩
    rw [Teller.step, book_holds apart]
    exact held

/-- A hold no procedure is about and no report names is never closed. -/
theorem Stuck.run (apart : ∀ move ∈ moves, move.Apart) : Stuck id (teller.run moves) := by
  induction moves generalizing teller with
  | nil => exact stuck
  | cons move rest ih =>
    exact ih (stuck.step unreported (apart move mem_cons_self))
      fun other mem => apart other (mem_cons_of_mem move mem)

end

end

namespace CrashSample

open LedgerSample

def task : Task := ⟨alice, 60000000, .payOverChannel 59000000⟩

def funded : List TellerMove := [.book (.credit 100 alice (hash 1) 60000000)]

def cutOff : List TellerMove := funded ++ [.begin (.push task), .crash]

/-- The whole conversion and then a crash. -/
def pushed : List TellerMove :=
  funded ++ [.begin (.push task), .call 0 (some (hash 7, 0)), .conclude 0 110, .crash]

def name : HoldName := .pay (hash 7)

theorem orderly_pushed : Teller.OrderlyRun .opened pushed := by
  have bounded (done : List TellerMove)
      (small : ((Teller.opened.run done).ledger.entries.map fun row =>
        row.amountMsat.toNat).sum ≤ i64Max) : (Teller.opened.run done).ledger.Bounded :=
    bounded_of_sum small
  have called : (Teller.opened.run (pushed.take 3)).running[0]? =
      some ⟨.push task, some (some (hash 7, 0))⟩ := by decide
  refine ⟨bounded [] (by decide), rfl, bounded (pushed.take 1) (by decide), trivial,
    bounded (pushed.take 2) (by decide), trivial,
    bounded (pushed.take 3) (by decide), fun one given asks => ?_,
    bounded (pushed.take 4) (by decide), trivial, bounded pushed (by decide)⟩
  have same := called.symm.trans asks
  cases same
  decide

end CrashSample

theorem report_ne_pending (report : Report) (task : Task) : report.id ≠ task.pendingId := by
  cases report with
  | pushed name arrived => exact name_ne_pending name task
  | paid hash feeMsat =>
    intro same
    have letters := congrArg String.toList same
    unfold Task.pendingId at letters
    generalize task.job.isDelivery = delivers at letters
    cases delivers <;> simp [Report.id, sendHoldId, String.toList_append] at letters

open CrashSample LedgerSample

/-- A conversion whose program dies after the rename: the hold has the node's
name, and the report closes it. -/
theorem holds_released_pushed : Teller.OrderlyRun .opened pushed ∧
      ((Teller.opened.run pushed).ledger.holds.get? name.id).isSome = true ∧
      ((Teller.opened.run pushed).step (.report (.pushed name true) 200)).ledger.holds.get?
        (Report.pushed name true).id = none :=
  ⟨orderly_pushed, by decide,
    ((holds_released pushed orderly_pushed).2.2.1 (.pushed name true) 200 (by decide)).1⟩

/-- A conversion whose program dies before the rename: all of the balance is held for good. -/
theorem hold_frozen :
    (Teller.opened.run cutOff).running = [] ∧ (Teller.opened.run cutOff).live = [] ∧
      (Teller.opened.run cutOff).ledger.accountNow alice = some ⟨60000000, 60000000⟩ ∧
      ∀ later : List TellerMove, (∀ move ∈ later, move.Apart) →
        (((Teller.opened.run cutOff).run later).ledger.holds.get? task.pendingId).isSome =
          true := by
  have idle : (Teller.opened.run cutOff).running = [] := by decide
  have held : ((Teller.opened.run cutOff).ledger.holds.get? task.pendingId).isSome = true := by
    decide
  have stuck : Stuck task.pendingId (Teller.opened.run cutOff) :=
    ⟨held, fun one mem => by rw [idle] at mem; cases mem⟩
  exact ⟨idle, by decide, by decide, fun later apart =>
    (stuck.run (fun report => report_ne_pending report task) apart).1⟩

end Fortis.Lsp
