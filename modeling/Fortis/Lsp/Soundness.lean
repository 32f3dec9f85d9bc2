import Fortis.Lsp.Ledger

/-!
# Soundness of the account ledger

A balance is the signed sum of its entries and covers its holds, and all balances together change
only by what crosses the border of the ledger.  Each statement's effect on these readings is said
once; an operation is sound because the effects of its statements add up.

The balances have to stay within the file's integers.  A credit past them is carried on in floating
point, where the last digits are lost.
-/

namespace Fortis.Lsp

open Fortis.Core Lib List Option Table Ledger

variable {entry : EntryRow} {row : HoldRow} {debited : Ledger} {amount spent : Nat} {id : String}

namespace Ledger

variable (ledger : Ledger)

def balanceOf (node : String) : Int :=
  (ledger.accounts.get? node).elim 0 fun row => row.balance.value

def entriesOf (node : String) : Int :=
  (ledger.entries.map fun row => if row.node = node then row.amountMsat else 0).sum

def custody : Nat :=
  ledger.accounts.total fun row => row.balance.value.toNat

/-- No account's entries add up to more than the file's integers hold. -/
def Bounded : Prop := ∀ node, ledger.entriesOf node ≤ i64Max

def Integral : Prop :=
  ∀ node row, ledger.accounts.get? node = some row → row.balance = .int (ledger.balanceOf node)

/-- Balances are the sums of their entries and cover their holds. -/
structure Sound (ledger : Ledger) : Prop where
  integral : ledger.Integral
  explained : ∀ node, ledger.balanceOf node = ledger.entriesOf node
  covered : ∀ node, (ledger.held node : Int) ≤ ledger.balanceOf node

theorem sound_empty : Sound empty where
  integral node row found := by cases found
  explained node := rfl
  covered node := by simp [held, empty, balanceOf]

/-! ## Effects -/

variable (ledger : Ledger)

def posted (node : String) (value : Int) : Ledger :=
  { ledger with accounts := ledger.accounts.put ⟨node, .int value⟩ }

def entered (row : EntryRow) : Ledger :=
  { ledger with entries := ledger.entries ++ [row] }

def released (id : String) : Ledger :=
  { ledger with holds := ledger.holds.delete id }

def reserved (row : HoldRow) : Ledger :=
  { ledger with holds := ledger.holds.put row }

section Effects

variable (ledger : Ledger)

@[simp]
theorem balanceOf_posted (node other : String) (value : Int) :
    (ledger.posted node value).balanceOf other =
      if other = node then value else ledger.balanceOf other := by
  unfold balanceOf posted
  rw [get?_put]
  split <;> rfl

@[simp]
theorem entriesOf_posted (node other : String) (value : Int) :
    (ledger.posted node value).entriesOf other = ledger.entriesOf other := rfl

@[simp]
theorem held_posted (node other : String) (value : Int) :
    (ledger.posted node value).held other = ledger.held other := rfl

theorem custody_posted (node : String) (value : Int) :
    (ledger.posted node value).custody + (ledger.balanceOf node).toNat =
      ledger.custody + value.toNat := by
  have exchanged := total_put (fun row : AccountRow => row.balance.value.toNat)
    ledger.accounts ⟨node, .int value⟩
  unfold balanceOf
  cases found : ledger.accounts.get? node <;> simpa [custody, posted, found] using exchanged

@[simp]
theorem balanceOf_entered (row : EntryRow) (other : String) :
    (ledger.entered row).balanceOf other = ledger.balanceOf other := rfl

@[simp]
theorem entriesOf_entered (row : EntryRow) (other : String) : (ledger.entered row).entriesOf other =
      ledger.entriesOf other + if row.node = other then row.amountMsat else 0 := by
  simp [entriesOf, entered]

@[simp]
theorem held_entered (row : EntryRow) (other : String) :
    (ledger.entered row).held other = ledger.held other := rfl

@[simp]
theorem custody_entered (row : EntryRow) : (ledger.entered row).custody = ledger.custody := rfl

@[simp]
theorem balanceOf_released (id other : String) :
    (ledger.released id).balanceOf other = ledger.balanceOf other := rfl

@[simp]
theorem entriesOf_released (id other : String) :
    (ledger.released id).entriesOf other = ledger.entriesOf other := rfl

@[simp]
theorem custody_released (id : String) : (ledger.released id).custody = ledger.custody := rfl

variable {ledger}

theorem held_released (found : ledger.holds.get? id = some row) (other : String) :
    (ledger.released id).held other + (if row.node = other then row.amountMsat else 0) =
      ledger.held other := by
  have taken := total_delete
    (fun row : HoldRow => if row.node = other then row.amountMsat else 0) ledger.holds id
  rw [found] at taken
  exact taken

theorem held_reserved (row : HoldRow) (fresh : ledger.holds.get? row.id = none) (other : String) :
    (ledger.reserved row).held other =
      ledger.held other + if row.node = other then row.amountMsat else 0 :=
  total_put_new (fun row : HoldRow => if row.node = other then row.amountMsat else 0)
    ledger.holds fresh

end Effects

variable {ledger : Ledger}

theorem Sound.balance_nonneg (sound : ledger.Sound) (node : String) :
    0 ≤ ledger.balanceOf node := by
  have covered := sound.covered node
  omega

theorem Sound.hold_le (sound : ledger.Sound) (found : ledger.holds.get? id = some row) :
    (row.amountMsat : Int) ≤ ledger.balanceOf row.node := by
  have within := held_released found row.node
  have covered := sound.covered row.node
  rw [if_pos rfl] at within
  omega

theorem Integral.posted (integral : ledger.Integral) (node : String) (value : Int) :
    (ledger.posted node value).Integral := by
  intro other row found
  rw [balanceOf_posted]
  rw [Ledger.posted, get?_put] at found
  split at found
  next same =>
    cases found
    rw [if_pos same]
  next ne =>
  rw [if_neg ne]
  exact integral other row found

variable (sound : ledger.Sound)
include sound

/-- Taking a hold and posting what was spent of it keeps the books. -/
theorem Sound.settled (found : ledger.holds.get? id = some row) (within : spent ≤ row.amountMsat)
    (node : entry.node = row.node) (amount : entry.amountMsat = -(spent : Int)) :
    (((ledger.released id).posted row.node (ledger.balanceOf row.node - spent)).entered entry).Sound
      ∧ (((ledger.released id).posted row.node (ledger.balanceOf row.node - spent)).entered
        entry).custody + spent = ledger.custody := by
  have reserved := sound.hold_le found
  refine ⟨⟨?_, ?_, ?_⟩, ?_⟩
  · exact Integral.posted sound.integral row.node _
  · intro other
    have explained := sound.explained other
    simp only [balanceOf_entered, balanceOf_posted, balanceOf_released, entriesOf_entered,
      entriesOf_posted, entriesOf_released, node, amount]
    by_cases same : row.node = other
    · subst same
      rw [if_pos rfl, if_pos rfl]
      omega
    rw [if_neg same, if_neg (Ne.symm same)]
    omega
  · intro other
    have left := held_released found other
    have covered := sound.covered other
    simp only [held_entered, held_posted, balanceOf_entered, balanceOf_posted, balanceOf_released]
    by_cases same : row.node = other
    · subst same
      rw [if_pos rfl] at left ⊢
      omega
    rw [if_neg same] at left
    rw [if_neg (Ne.symm same)]
    omega
  have exchanged := custody_posted (ledger.released id) row.node (ledger.balanceOf row.node - spent)
  simp only [balanceOf_released, custody_released] at exchanged
  rw [custody_entered]
  omega

theorem Sound.released (found : ledger.holds.get? id = some row) : (ledger.released id).Sound := by
  refine ⟨sound.integral, sound.explained, fun other => ?_⟩
  have left := held_released found other
  have covered := sound.covered other
  rw [balanceOf_released]
  omega

theorem Sound.credited (into : entry.amountMsat = amount) :
    ((ledger.entered entry).posted entry.node (ledger.balanceOf entry.node + amount)).Sound ∧
      ((ledger.entered entry).posted entry.node
        (ledger.balanceOf entry.node + amount)).custody = ledger.custody + amount := by
  have nonneg := sound.balance_nonneg entry.node
  refine ⟨⟨?_, ?_, ?_⟩, ?_⟩
  · exact Integral.posted sound.integral entry.node _
  · intro other
    have explained := sound.explained other
    simp only [balanceOf_posted, balanceOf_entered, entriesOf_posted, entriesOf_entered, into]
    by_cases same : entry.node = other
    · subst same
      rw [if_pos rfl, if_pos rfl, explained]
    · rw [if_neg same, if_neg (Ne.symm same), explained, Int.add_zero]
  · intro other
    have covered := sound.covered other
    simp only [held_posted, held_entered, balanceOf_posted, balanceOf_entered]
    split
    next same =>
      rw [same] at covered ⊢
      omega
    · exact covered
  have exchanged := custody_posted (ledger.entered entry) entry.node
    (ledger.balanceOf entry.node + amount)
  simp only [balanceOf_entered, custody_entered] at exchanged
  omega

/-- What leaves one account for another, the same one included, stays in custody. -/
theorem Sound.transferred {into : EntryRow} (out : EntryRow)
    (intoAmount : into.amountMsat = amount) (outAmount : out.amountMsat = -(amount : Int))
    (enough : ledger.held out.node + amount ≤ ledger.balanceOf out.node)
    (debit : debited = (ledger.entered into).posted out.node (ledger.balanceOf out.node - amount)) :
    ((debited.posted into.node (debited.balanceOf into.node + amount)).entered out).Sound ∧
      ((debited.posted into.node (debited.balanceOf into.node + amount)).entered out).custody =
        ledger.custody := by
  subst debit
  refine ⟨⟨?_, ?_, ?_⟩, ?_⟩
  · exact Integral.posted (Integral.posted sound.integral out.node _) into.node _
  · intro other
    have explained := sound.explained other
    simp only [balanceOf_entered, balanceOf_posted, entriesOf_entered, entriesOf_posted,
      intoAmount, outAmount]
    by_cases receives : other = into.node
    · subst receives
      by_cases sends : into.node = out.node
      · simp only [sends, if_true]
        rw [sends] at explained
        omega
      simp only [sends, Ne.symm sends, if_true, if_false]
      omega
    by_cases sends : other = out.node
    · subst sends
      simp only [receives, Ne.symm receives, if_true, if_false]
      omega
    simp only [receives, Ne.symm receives, sends, Ne.symm sends, if_false]
    omega
  · intro other
    have covered := sound.covered other
    simp only [held_entered, held_posted, balanceOf_entered, balanceOf_posted]
    split
    next receives =>
      subst receives
      split
      next sends =>
        rw [sends] at covered ⊢
        omega
      · omega
    · split
      next sends =>
        subst sends
        exact Int.le_sub_right_of_add_le enough
      · exact covered
  have nonneg := sound.balance_nonneg into.node
  have first := custody_posted (ledger.entered into) out.node (ledger.balanceOf out.node - amount)
  have second := custody_posted ((ledger.entered into).posted out.node
    (ledger.balanceOf out.node - amount)) into.node
    (((ledger.entered into).posted out.node
      (ledger.balanceOf out.node - amount)).balanceOf into.node + amount)
  rw [custody_entered]
  simp only [balanceOf_entered, balanceOf_posted, custody_entered] at first second ⊢
  by_cases sends : into.node = out.node
  · rw [if_pos sends] at second ⊢
    omega
  rw [if_neg sends] at second ⊢
  omega

theorem Sound.withRevenue (revenue : List RevenueRow) : ({ ledger with revenue } : Ledger).Sound :=
  ⟨sound.integral, sound.explained, sound.covered⟩

end Ledger

variable {kind : EntryKind} {delta : Int} {feeMsat : Nat} {paymentHash : Option (Fixed 32)}
  {node : String}

section Statements

variable {ledger : Ledger} {post : PUnit → Ledger → Prop} {fail : LedgerError → Ledger → Prop}

theorem wp_addBalance (integral : ledger.Integral)
    (enough : 0 ≤ ledger.balanceOf node + delta) (fits : ledger.balanceOf node + delta ≤ i64Max)
    (posted : post ⟨⟩ (ledger.posted node (ledger.balanceOf node + delta))) :
    wp (addBalance node delta) post fail ledger := by
  unfold addBalance
  simp only [wp_bind, wp_get]
  rcases found : ledger.accounts.get? node with _ | row
  · have zero : ledger.balanceOf node = 0 := by simp [balanceOf, found]
    rw [zero, Int.zero_add] at enough posted
    simpa [Ledger.posted, max_eq_left enough] using posted
  have inside : fitsI64 (ledger.balanceOf node + delta) := by
    simp only [fitsI64, Bool.and_eq_true, decide_eq_true_eq]
    omega
  obtain ⟨name, balance⟩ := row
  have whole : balance = .int (ledger.balanceOf node) := integral node _ found
  subst whole
  simp only [Cell.add_int_of_fits inside, wp_bind, wp_abortIf, Cell.value_int,
    not_lt.mpr enough, if_false, wp_set]
  exact posted

/-- Whatever an update of a balance does, it touches nothing else. -/
theorem wp_addBalance_frame
    (written : ∀ accounts, post ⟨⟩ { ledger with accounts }) (refused : ∀ e, fail e ledger) :
    wp (addBalance node delta) post fail ledger := by
  unfold addBalance
  simp only [wp_bind, wp_get]
  rcases ledger.accounts.get? node with _ | row
  · exact written _
  simp only [wp_bind, wp_abortIf]
  split
  · exact refused _
  · exact written _

def Ledger.nextEntry (ledger : Ledger) (node : String) (atSecs : Nat) (kind : EntryKind)
    (amountMsat : Int) (feeMsat : Nat) (paymentHash : Option (Fixed 32)) : EntryRow :=
  ⟨ledger.entries.length + 1, node, atSecs, kind, amountMsat, feeMsat, paymentHash⟩

theorem wp_insertEntry {atSecs : Nat} {amount : Int} :
    wp (insertEntry node atSecs kind amount feeMsat paymentHash) post fail ledger =
      post ⟨⟩ (ledger.entered (ledger.nextEntry node atSecs kind amount feeMsat paymentHash)) := rfl

variable {postHold : String × Nat → Ledger → Prop}

theorem wp_takeHold (taken : ∀ row, ledger.holds.get? id = some row →
      postHold (row.node, row.amountMsat) (ledger.released id))
    (unknown : fail (.unknownHold id) ledger) : wp (takeHold id) postHold fail ledger := by
  unfold takeHold
  simp only [wp_bind, wp_get]
  cases found : ledger.holds.get? id with
  | none => exact unknown
  | some row => exact taken row found

theorem wp_takeHold_found {row : HoldRow}
    (found : ledger.holds.get? id = some row) : wp (takeHold id) postHold fail ledger =
      postHold (row.node, row.amountMsat) (ledger.released id) := by
  rw [takeHold, wp_bind, wp_get, found]
  rfl

theorem wp_accountOf {postAccount : Account → Ledger → Prop} (integral : ledger.Integral)
    (read : postAccount ⟨(ledger.balanceOf node).toNat, ledger.held node⟩ ledger)
    (refused : ∀ e, fail e ledger) : wp (accountOf node) postAccount fail ledger := by
  unfold accountOf
  simp only [wp_bind, wp_get]
  rcases found : ledger.accounts.get? node with _ | row
  · have zero : ledger.balanceOf node = 0 := by simp [balanceOf, found]
    rw [zero] at read
    simp only [wp_pure, wp_abortIf, wp_bind]
    split
    · exact refused _
    · exact read
  obtain ⟨name, balance⟩ := row
  have whole : balance = .int (ledger.balanceOf node) := integral node _ found
  subst whole
  simp only [wp_pure, wp_abortIf, wp_bind]
  split
  · exact refused _
  · exact read

end Statements

/-! ## Operations -/

def Op.inflow (ledger : Ledger) : Op → Nat
  | .credit _ node paymentHash amountMsat =>
    if credited ledger (key node) paymentHash then 0 else asI64 amountMsat
  | _ => 0

/-- What leaves the ledger when `op` succeeds: the spent part of the hold it closes. -/
def Op.outflow (ledger : Ledger) : Op → Nat
  | .settleHold _ id spentMsat _ _ =>
    (ledger.holds.get? id).elim 0 fun row => min spentMsat row.amountMsat
  | .settleSend _ id feeMsat _ =>
    (ledger.holds.get? id).elim 0 fun row =>
      min (min (row.baseMsat + feeMsat) u64Max) row.amountMsat
  | .settleWithdrawal _ id _ _ | .finishConversion _ id _ | .finishConversionBy _ id _ _ =>
    (ledger.holds.get? id).elim 0 HoldRow.amountMsat
  | _ => 0

/-- Sound books after, and custody moved by exactly what crossed the border. -/
def Moved (before : Ledger) (inflow outflow : Nat) (after : Ledger) : Prop :=
  after.Bounded → after.Sound ∧ after.custody + outflow = before.custody + inflow

section Operations

variable {ledger : Ledger} (sound : ledger.Sound) (bounded : ledger.Bounded)
include sound bounded

theorem asI64_of_hold (found : ledger.holds.get? id = some row)
    (within : spent ≤ row.amountMsat) : asI64 spent = spent := by
  have reserved := sound.hold_le found
  have explained := sound.explained row.node
  have fits := bounded row.node
  unfold asI64
  omega

/-- The statements shared by every operation that closes a hold with a debit. -/
theorem wp_debit {now : Nat} {rest : LedgerM PUnit} {post : PUnit → Ledger → Prop}
    {fail : LedgerError → Ledger → Prop} (found : ledger.holds.get? id = some row)
    (within : spent ≤ row.amountMsat)
    (next : ∀ after, Moved ledger 0 spent after → wp rest post fail after) :
    wp (do
        addBalance row.node (-(asI64 spent : Int))
        insertEntry row.node now kind (-(asI64 spent : Int)) feeMsat paymentHash
        rest) post fail (ledger.released id) := by
  have reserved := sound.hold_le found
  have explained := sound.explained row.node
  have fits := bounded row.node
  have integral : (ledger.released id).Integral := sound.integral
  rw [asI64_of_hold sound bounded found within]
  simp only [wp_bind]
  apply wp_addBalance integral
  · rw [balanceOf_released]
    omega
  · rw [balanceOf_released]
    omega
  rw [wp_insertEntry]
  refine next _ fun _ => ?_
  rw [balanceOf_released, ← sub_eq_add_neg]
  exact sound.settled found within rfl rfl

variable (now : Nat) (node : PublicKey) (id reference : String)

theorem settleHold_moved (spent fee : Nat)
    (hash : Option (Fixed 32)) : wp (settleHold now id spent fee hash) (fun _ => Moved ledger 0
        ((ledger.holds.get? id).elim 0 fun row => min spent row.amountMsat))
      (Unchanged ledger) ledger := by
  simp only [settleHold, wp_transaction, wp_bind]
  apply wp_takeHold
  · intro row found
    rw [found, elim_some]
    split
    · rw [← bind_pure (insertEntry _ _ _ _ _ _)]
      exact wp_debit sound bounded found (min_le_right _ _) fun after moved => moved
    next none =>
    have zero : min spent row.amountMsat = 0 := by omega
    rw [zero]
    exact fun _ => ⟨sound.released found, rfl⟩
  · trivial

theorem settleSend_moved (fee : Nat) (hash : Option (Fixed 32)) : wp (settleSend now id fee hash)
      (fun _ => Moved ledger 0 (Op.outflow ledger (.settleSend now id fee hash)))
      (Unchanged ledger) ledger := by
  simp only [settleSend, wp_bind, wp_get, Op.outflow]
  rcases found : ledger.holds.get? id with _ | row
  · rfl
  have settled := settleHold_moved sound bounded now id (min (row.baseMsat + fee) u64Max) fee hash
  rwa [found] at settled

theorem closeWithShare_moved (kind : EntryKind) (fee : Nat)
    (hash : Option (Fixed 32)) (share : RevenueKind) (reference : String) :
    wp (closeWithShare now id kind fee hash share reference)
      (fun _ => Moved ledger 0 ((ledger.holds.get? id).elim 0 HoldRow.amountMsat))
      (Unchanged ledger) ledger := by
  rw [closeWithShare, wp_transaction, wp_bind]
  apply wp_takeHold
  · intro row found
    rw [found, elim_some]
    apply wp_debit sound bounded found (le_refl _)
    intro after moved
    split
    · rw [insertRevenue, wp_modify]
      intro bounded
      obtain ⟨sound, balanced⟩ := moved bounded
      exact ⟨sound.withRevenue _, balanced⟩
    · exact moved
  · rfl

omit bounded in
theorem credit_moved (hash : Fixed 32) (amount : Nat) : wp (credit now node hash amount)
      (fun _ => Moved ledger (Op.inflow ledger (.credit now node hash amount)) 0)
      (Unchanged ledger) ledger := by
  simp only [credit, insertCredit, wp_transaction, wp_bind, wp_get, Op.inflow]
  split
  next seen => exact fun _ => ⟨sound, rfl⟩
  next new =>
  rw [wp_bind, wp_insertEntry, wp_pure, if_pos rfl, wp_bind]
  have nonneg := sound.balance_nonneg (key node)
  have explained := sound.explained (key node)
  have integral : (ledger.entered (ledger.nextEntry (key node) now .received
    (asI64 amount) 0 (some hash))).Integral := sound.integral
  by_cases fits : ledger.balanceOf (key node) + asI64 amount ≤ i64Max
  · apply wp_addBalance integral
    · exact Int.add_nonneg nonneg (Int.natCast_nonneg _)
    · exact fits
    · exact fun _ => sound.credited rfl
  -- Past the integers the entries say so themselves.
  apply wp_addBalance_frame
  · intro accounts bounded'
    have total := entriesOf_entered ledger (ledger.nextEntry (key node) now .received
      (asI64 amount) 0 (some hash)) (key node)
    have within : entriesOf _ (key node) ≤ i64Max := bounded' (key node)
    simp only [nextEntry, if_true] at total
    exact absurd (explained ▸ total ▸ within) fits
  · exact fun _ => trivial

omit bounded in
theorem holdKind_moved (amountMsat baseMsat : Nat)
    (kind : String) : wp (holdKind node id amountMsat baseMsat kind) (fun _ => Moved ledger 0 0)
      (Unchanged ledger) ledger := by
  rw [holdKind, wp_transaction, wp_bind]
  apply wp_accountOf sound.integral
  · simp only [wp_bind, wp_abortIf, wp_get, wp_set]
    split
    · trivial
    next enough =>
    split
    · trivial
    next fresh =>
    refine fun _ => ⟨⟨sound.integral, sound.explained, fun other => ?_⟩, rfl⟩
    have covered := sound.covered other
    have new := held_reserved
      ⟨id, key node, asI64 amountMsat, asI64 baseMsat, kind⟩ (not_not.mp fresh) other
    have within : asI64 amountMsat ≤ amountMsat := min_le_left _ _
    change ((ledger.reserved _).held other : Int) ≤ ledger.balanceOf other
    rw [new]
    dsimp only [Account.freeMsat] at enough ⊢
    split
    next same =>
      rw [same] at enough
      omega
    · simpa using covered
  · exact fun _ => rfl

omit bounded in
theorem startConversion_moved :
    wp (startConversion node id) (fun _ => Moved ledger 0 0) (Unchanged ledger) ledger := by
  rw [startConversion, wp_bind]
  apply wp_accountOf sound.integral
  · rw [wp_bind]
    exact holdKind_moved sound node id _ _ "conversion"
  · exact fun _ => rfl

omit bounded in
theorem abandonConversion_moved :
    wp (abandonConversion id) (fun _ => Moved ledger 0 0) (Unchanged ledger) ledger := by
  rw [abandonConversion, wp_transaction, wp_bind]
  apply wp_takeHold
  · exact fun row found _ => ⟨sound.released found, rfl⟩
  · rfl

omit bounded in
theorem renameHold_moved (old new : String) :
    wp (renameHold old new) (fun _ => Moved ledger 0 0) (Unchanged ledger) ledger := by
  simp only [renameHold, wp_bind, wp_get]
  rcases found : ledger.holds.get? old with _ | row
  · rfl
  simp only [wp_bind, wp_abortIf, wp_set]
  split
  · trivial
  next free =>
  refine fun _ => ⟨⟨sound.integral, sound.explained, fun other => ?_⟩, rfl⟩
  have covered := sound.covered other
  have left := held_released found other
  have absent : (ledger.released old).holds.get? new = none := by
    rw [released, get?_delete]
    split
    · rfl
    next ne =>
    by_contra present
    exact free ⟨Ne.symm ne, present⟩
  have moved := held_reserved { row with id := new } absent other
  change (((ledger.released old).reserved _).held other : Int) ≤ ledger.balanceOf other
  rw [moved, left]
  exact covered

omit bounded in
theorem importOnce_moved (rows : Ledger → List RevenueRow) :
    wp (importOnce now reference rows) (fun _ => Moved ledger 0 0) (fun _ after => after = ledger)
      ledger := by
  simp only [importOnce, wp_transaction, wp_bind, wp_get]
  split
  · exact fun _ => ⟨sound, rfl⟩
  · exact fun _ => ⟨sound.withRevenue _, rfl⟩

omit bounded in
theorem wp_receive (into : EntryRow) (sender : String) (now : Nat)
    (intoAmount : into.amountMsat = amount)
    (enough : ledger.held sender + amount ≤ ledger.balanceOf sender)
    (debit : debited = (ledger.entered into).posted sender (ledger.balanceOf sender - amount)) :
    wp (do
        addBalance into.node (amount : Int)
        insertEntry sender now .internal (-(amount : Int)) 0 none)
      (fun _ => Moved ledger 0 0) (fun _ _ => True) debited := by
  have explained := sound.explained into.node
  have nonneg := sound.balance_nonneg into.node
  have received : debited.balanceOf into.node =
      if into.node = sender then ledger.balanceOf sender - amount
      else ledger.balanceOf into.node := by
    rw [debit, balanceOf_posted, balanceOf_entered]
  rw [wp_bind]
  by_cases fits : debited.balanceOf into.node + amount ≤ i64Max
  · apply wp_addBalance
    · rw [debit]
      exact Ledger.Integral.posted sound.integral _ _
    · rw [received]
      split <;> omega
    · exact fits
    rw [wp_insertEntry]
    intro _
    exact sound.transferred (nextEntry _ sender now .internal (-(amount : Int)) 0 none)
      intoAmount rfl enough debit
  -- Past the integers the receiver's entries say so themselves.
  apply wp_addBalance_frame
  · intro accounts
    rw [wp_insertEntry]
    intro bounded'
    have entries : debited.entriesOf into.node = ledger.entriesOf into.node + amount := by
      rw [debit, entriesOf_posted, entriesOf_entered, if_pos rfl, intoAmount]
    have total := bounded' into.node
    rw [entriesOf_entered] at total
    change debited.entriesOf into.node + (if sender = into.node then -(amount : Int) else 0) ≤ _
      at total
    rw [entries] at total
    rw [received] at fits
    by_cases same : into.node = sender
    · rw [if_pos same] at fits
      rw [if_pos same.symm] at total
      rw [same] at explained total
      omega
    rw [if_neg same] at fits
    rw [if_neg (Ne.symm same)] at total
    omega
  · exact fun _ => trivial

theorem transfer_moved (sender receiver : PublicKey) (hash : Fixed 32) (amountMsat : Nat) :
    wp (transfer now sender receiver hash amountMsat) (fun _ => Moved ledger 0 0)
      (Unchanged ledger) ledger := by
  simp only [transfer, insertCredit, wp_transaction, wp_bind, wp_get]
  split
  next seen => exact fun _ => ⟨sound, rfl⟩
  next new =>
  rw [wp_bind, wp_insertEntry, wp_pure, if_pos rfl, wp_bind]
  apply wp_accountOf (show Ledger.Integral (ledger.entered _) from sound.integral)
  · simp only [wp_bind, wp_abortIf]
    split
    · trivial
    next enough =>
    dsimp only [Account.freeMsat] at enough
    have explained := sound.explained (key sender)
    have fits := bounded (key sender)
    have reserved := sound.covered (key sender)
    rw [balanceOf_entered, held_entered] at enough
    have whole : asI64 amountMsat = amountMsat := by
      unfold asI64
      omega
    rw [whole]
    apply wp_addBalance (show Ledger.Integral (ledger.entered _) from sound.integral)
    · rw [balanceOf_entered]
      omega
    · rw [balanceOf_entered]
      omega
    have received := wp_receive sound (ledger.nextEntry (key receiver) now .internal
      amountMsat 0 (some hash)) (key sender) now rfl (by omega) rfl
    rw [wp_bind] at received
    exact received
  · exact fun _ => trivial

/-- Every operation keeps the books and moves custody by what crossed the border. -/
theorem exec_moved (op : Op) :
    wp op.exec (fun _ => Moved ledger (op.inflow ledger) (op.outflow ledger))
      (Unchanged ledger) ledger := by
  cases op with
  | credit now node paymentHash amountMsat =>
    exact (wp_map _ _).symm ▸ credit_moved sound now node paymentHash amountMsat
  | holdSend node id amountMsat reserveMsat => exact holdKind_moved sound node id _ _ "send"
  | holdWithdrawal node id amountMsat => exact holdKind_moved sound node id _ _ "withdraw"
  | settleSend now id feeMsat paymentHash =>
    exact settleSend_moved sound bounded now id feeMsat paymentHash
  | settleHold now id spentMsat feeMsat paymentHash =>
    exact settleHold_moved sound bounded now id spentMsat feeMsat paymentHash
  | settleWithdrawal now id feeMsat txid => exact closeWithShare_moved sound bounded ..
  | transfer now sender receiver paymentHash amountMsat =>
    exact (wp_map _ _).symm ▸ transfer_moved sound bounded now sender receiver paymentHash
      amountMsat
  | startConversion node id => exact (wp_map _ _).symm ▸ startConversion_moved sound node id
  | finishConversion now id feeMsat => exact closeWithShare_moved sound bounded ..
  | finishConversionBy now id feeMsat paymentHash => exact closeWithShare_moved sound bounded ..
  | abandonConversion id => exact abandonConversion_moved sound id
  | renameHold old new => exact renameHold_moved sound old new
  | importEarlier now payments => exact (wp_map _ _).symm ▸ importOnce_moved sound now _ _
  | importEntryFees now => exact (wp_map _ _).symm ▸ importOnce_moved sound now _ _

end Operations

variable {ledger : Ledger}

theorem sound_exec (sound : ledger.Sound) (bounded : ledger.Bounded) (op : Op)
    (fits : (finalState op.exec ledger).Bounded) : (finalState op.exec ledger).Sound := by
  revert fits
  refine finalState_cases (exec_moved sound bounded op) ?_ ?_
  · exact fun _ final moved fits => (moved fits).1
  rintro _ _ rfl _
  exact sound

theorem sound_after (sound : ledger.Sound) (ops : List Op)
    (bounded : ∀ done, done <+: ops → (after ledger done).Bounded) : (after ledger ops).Sound := by
  induction ops generalizing ledger with
  | nil => exact sound
  | cons op rest ih =>
    have start : ledger.Bounded := bounded [] nil_prefix
    have first : (finalState op.exec ledger).Bounded :=
      bounded [op] (cons_prefix_cons.mpr ⟨rfl, nil_prefix⟩)
    apply ih (sound_exec sound start op first)
    intro done within
    exact bounded (op :: done) (cons_prefix_cons.mpr ⟨rfl, within⟩)

theorem transaction_failed {α : Type} {body : LedgerM α} :
    wp (transaction body) (fun _ _ => True) (fun _ final => final = ledger) ledger := by
  rw [wp_transaction]
  unfold wp
  split <;> trivial

theorem same_accountOf (node : String) :
    Relates (fun before after : Ledger => after = before) (accountOf node) := by
  refine relates_iff_wp.mpr fun ledger => ?_
  unfold accountOf
  simp only [wp_bind, wp_get]
  rcases ledger.accounts.get? node with _ | row
  · simp only [wp_pure, wp_abortIf, wp_bind]
    split <;> trivial
  obtain ⟨name, _ | _⟩ := row
  · simp only [wp_pure, wp_abortIf, wp_bind]
    split <;> trivial
  · rfl

/-- An operation that fails has written nothing, whatever it found. -/
theorem exec_failed (op : Op) (ledger : Ledger) :
    wp op.exec (fun _ _ => True) (fun _ final => final = ledger) ledger := by
  cases op with
  | credit | transfer | importEarlier | importEntryFees =>
    exact (wp_map _ _).symm ▸ transaction_failed
  | holdSend | holdWithdrawal | settleHold | settleWithdrawal | finishConversion
  | finishConversionBy | abandonConversion => exact transaction_failed
  | settleSend now id feeMsat paymentHash =>
    simp only [Op.exec, settleSend, wp_bind, wp_get]
    split
    · rfl
    · exact transaction_failed
  | startConversion node id =>
    refine (wp_map _ _).symm ▸ wp_seq (relates_iff_wp.mp (same_accountOf _) _)
      (fun account read same => ?_) fun _ _ same => same
    subst same
    rw [wp_bind]
    exact transaction_failed
  | renameHold old new =>
    simp only [Op.exec, renameHold, wp_bind, wp_get]
    split
    · rfl
    simp only [wp_bind, wp_abortIf, wp_set]
    split <;> trivial

/-- The ledger is sound after every run in which no account's entries ever add up to more than the
file's integers hold, and the next operation moves the sum of all balances by exactly what it
credits from outside and debits to outside.  An operation that fails changes nothing. -/
theorem ledger_sound (ops : List Op)
    (bounded : ∀ done, done <+: ops → (after .empty done).Bounded) :
    (∀ node, (after .empty ops).balanceOf node = (after .empty ops).entriesOf node ∧
      0 ≤ (after .empty ops).balanceOf node ∧
      ((after .empty ops).held node : Int) ≤ (after .empty ops).balanceOf node) ∧
    (∀ (op : Op) final, op.exec (after .empty ops) = .ok ⟨⟩ final → final.Bounded →
      final.custody + op.outflow (after .empty ops) =
        (after .empty ops).custody + op.inflow (after .empty ops)) ∧
    ∀ (op : Op) (ledger : Ledger) e final, op.exec ledger = .error e final → final = ledger := by
  have sound := sound_after sound_empty ops bounded
  refine ⟨fun node => ⟨sound.explained node, sound.balance_nonneg node, sound.covered node⟩, ?_, ?_⟩
  · intro op final ran fits
    have moved := exec_moved sound (bounded ops (prefix_refl ops)) op
    rw [wp, ran] at moved
    exact (moved fits).2
  intro op ledger e final ran
  have failed := exec_failed op ledger
  rwa [wp, ran] at failed

/-- The amounts of all entries bound what any account's add up to. -/
theorem Ledger.bounded_of_sum
    (small : (ledger.entries.map fun row => row.amountMsat.toNat).sum ≤ i64Max) :
      ledger.Bounded := by
  intro node
  have below : ∀ rows : List EntryRow,
      (rows.map fun row => if row.node = node then row.amountMsat else 0).sum ≤
        ((rows.map fun row => row.amountMsat.toNat).sum : Nat) := by
    intro rows
    induction rows with
    | nil => exact le_refl _
    | cons row rest ih =>
      simp only [map_cons, sum_cons]
      split <;> omega
  have within := below ledger.entries
  unfold entriesOf
  omega

namespace LedgerSample

def alice : PublicKey := ⟨2 :: List.replicate 32 1, rfl⟩

def bob : PublicKey := ⟨2 :: List.replicate 32 2, rfl⟩

def hash (tag : UInt8) : Fixed 32 := ⟨List.replicate 32 tag, rfl⟩

def month : List Op :=
  [.credit 100 alice (hash 1) 50000, .holdSend alice "s1" 20000 21000,
    .transfer 110 alice bob (hash 2) 9000, .holdWithdrawal alice "w1" 30000,
    .settleSend 120 "s1" 400 (some (hash 3)), .startConversion bob "c1"]

end LedgerSample

open LedgerSample

theorem ledger_sound_month :
    (after .empty month).custody = 29600 ∧ (after .empty month).held (key bob) = 9000 ∧
      ∀ node, (after .empty month).balanceOf node = (after .empty month).entriesOf node ∧
        0 ≤ (after .empty month).balanceOf node ∧
        ((after .empty month).held node : Int) ≤ (after .empty month).balanceOf node := by
  have small : ∀ done ∈ month.inits,
      ((after .empty done).entries.map fun row => row.amountMsat.toNat).sum ≤ i64Max := by
    decide
  have values : (after .empty month).custody = 29600 ∧
      (after .empty month).held (key bob) = 9000 := by
    decide
  exact ⟨values.1, values.2, (ledger_sound month fun done within =>
    bounded_of_sum (small done ((mem_inits done month).mpr within))).1⟩

/-- Two credits of the largest amount: the balance goes on in floating point and gains two. -/
theorem balance_past_integers :
    (after .empty [.credit 100 alice (hash 1) i64Max, .credit 110 alice (hash 2) i64Max]).balanceOf
        (key alice) = 18446744073709551616 ∧ (after .empty [.credit 100 alice (hash 1) i64Max,
        .credit 110 alice (hash 2) i64Max]).entriesOf (key alice) = 18446744073709551614 := by
  decide

end Fortis.Lsp
