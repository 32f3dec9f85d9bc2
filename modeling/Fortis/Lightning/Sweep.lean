import Fortis.Core.Tx
import Fortis.Lib.Prog

/-!
# The recovery sweep

The outputs a closed channel paid to the static keys are swept into one transaction.  Its fee is
the feerate times its own signed size, found by signing again with each new fee until the fee
covers what was signed.  Keys, signatures and the order of outpoints belong to the Bitcoin library.
-/

namespace Fortis.Lightning.Sweep

open Fortis.Core Lib List

def staticScriptCount : Nat := 2 * 1000
def dustLimitSat : Nat := 546
def maxFeerateSatPerVb : Nat := 1000
def maxFeeShareDivisor : Nat := 2
def maxMoneySat : Nat := 21000000 * 100000000
def maxStandardWeight : Nat := 400000

structure StaticUtxo where
  outpoint : OutPoint
  (valueSat scriptIndex confirmations : Nat)

inductive LnError
  | other (text : String)
  | wrongNetwork

def invalid (reason : String) : LnError := .other s!"sweep: {reason}"

/-- The destination and what the Bitcoin library and the broadcaster answer, round by round. -/
structure Outside where
  forNetwork : Bool
  destination : Bytes
  le : OutPoint → OutPoint → Bool
  script : Nat → Except LnError Bytes
  sign : Nat → Transaction → List TxOut → Except LnError (Nat → Witness)
  inputsVerify : Transaction → List TxOut → Bool
  txid : Transaction → Txid
  broadcast : Transaction → Except String Txid

def checkUtxos (seen : List OutPoint) : List StaticUtxo → Except LnError Unit
  | [] => .ok ()
  | utxo :: rest =>
    if staticScriptCount ≤ utxo.scriptIndex then .error (invalid "invalid script index")
    else if utxo.valueSat = 0 ∨ maxMoneySat < utxo.valueSat then .error (invalid "invalid value")
    else if utxo.outpoint ∈ seen then .error (invalid "duplicate outpoint")
    else checkUtxos (utxo.outpoint :: seen) rest

/-- The transaction with its one output set to `net` and each input's witness replaced. -/
def signedWith (outside : Outside) (tx : Transaction) (net : Nat) (witness : Nat → Witness) :
    Transaction :=
  { tx with
    input := tx.input.mapIdx fun i input => { input with witness := witness i }
    output := [⟨net, outside.destination⟩] }

/-- The rounds that look for the fee, or nothing when what is left would be dust. -/
def settleFee (outside : Outside) (prevouts : List TxOut) (total feerate : Nat) :
    Nat → Nat → Transaction → Except LnError (Option (Transaction × Nat))
  | 0, _, _ => .error (invalid "fee did not settle")
  | rounds + 1, fee, tx =>
    if total - fee < dustLimitSat then .ok none
    else
      let unsigned := { tx with output := [⟨total - fee, outside.destination⟩] }
      match outside.sign rounds unsigned prevouts with
      | .error e => .error e
      | .ok witness =>
        let signed := signedWith outside tx (total - fee) witness
        let required := signed.vsize * feerate
        if u64Max < required then .error (invalid "fee overflow")
        else if total / maxFeeShareDivisor < required ∧ 2 * dustLimitSat ≤ total then
          .error (invalid "fee_too_high")
        else if required = fee then .ok (some (signed, fee))
        else if required < fee ∧ fee - required ≤ 4 * feerate then .ok (some (signed, fee))
        else settleFee outside prevouts total feerate rounds required signed

def verifySpend (outside : Outside) (tx : Transaction) (prevouts : List TxOut) : Bool :=
  tx.input.length == prevouts.length && outside.inputsVerify tx prevouts &&
    decide ((tx.output.map TxOut.value).sum ≤ (prevouts.map TxOut.value).sum)

def spendable (outside : Outside) (utxos : List StaticUtxo) : List StaticUtxo :=
  (utxos.filter fun utxo => 1 ≤ utxo.confirmations).insertionSort
    fun first second => outside.le first.outpoint second.outpoint

def spendAll (outside : Outside) (spend : List StaticUtxo) (feerate : Nat) :
    Except LnError (Option Transaction) := do
  -- a sum that leaves 64 bits is beyond the supply as well
  let total := (spend.map StaticUtxo.valueSat).sum
  refuseIf (maxMoneySat < total) (invalid "invalid value")
  let prevouts ← spend.mapM fun utxo => do
    return TxOut.mk utxo.valueSat (← outside.script utxo.scriptIndex)
  let inputs := spend.map fun utxo => TxIn.mk utxo.outpoint [] 1 []
  match ← settleFee outside prevouts total feerate 8 0 ⟨2, 0, inputs, []⟩ with
  | none => return none
  | some (tx, fee) =>
    if total - fee < dustLimitSat then return none
    else
      refuseIf (total / maxFeeShareDivisor < fee) (invalid "fee_too_high")
      refuseIf (maxStandardWeight < tx.baseSize * 3 + tx.totalSize)
        (invalid "too many inputs for one transaction")
      refuseIf (verifySpend outside tx prevouts = false) (invalid "signing failed")
      return some tx

def sweepTx (outside : Outside) (utxos : List StaticUtxo) (feerate : Nat) :
    Except LnError (Option Transaction) := do
  refuseIf (feerate = 0 ∨ maxFeerateSatPerVb < feerate) (.other "invalid_feerate")
  refuseIf (outside.forNetwork = false) .wrongNetwork
  checkUtxos [] utxos
  let spend := spendable outside utxos
  if spend = [] then return none else spendAll outside spend feerate

def sweepStaticOutputs (outside : Outside) (utxos : List StaticUtxo) (feerate : Nat) :
    List Transaction × Except LnError (Option Txid) :=
  match sweepTx outside utxos feerate with
  | .error e => ([], .error e)
  | .ok none => ([], .ok none)
  | .ok (some tx) => ([tx],
    match outside.broadcast tx with
    | .error text => .error (.other
        (if text.startsWith "broadcast_failed:" then text else s!"broadcast_failed: {text}"))
    | .ok sent =>
      if sent = outside.txid tx then .ok (some sent)
      else .error (.other "broadcast_failed: txid mismatch"))

section Proofs

variable {outside : Outside} {utxos : List StaticUtxo} {feerate : Nat} {tx : Transaction}

theorem checkUtxos_distinct {seen : List OutPoint} (checked : checkUtxos seen utxos = .ok ()) :
    (utxos.map StaticUtxo.outpoint).Nodup ∧ ∀ utxo ∈ utxos, utxo.outpoint ∉ seen := by
  induction utxos generalizing seen with
  | nil => simp
  | cons utxo rest ih =>
    unfold checkUtxos at checked
    split_ifs at checked with index value known
    obtain ⟨distinct, fresh⟩ := ih checked
    refine ⟨nodup_cons.mpr ⟨fun mem => ?_, distinct⟩, ?_⟩
    · obtain ⟨other, among, same⟩ := mem_map.mp mem
      exact fresh other among (same ▸ mem_cons_self)
    · rintro other (_ | ⟨_, among⟩)
      · exact known
      · exact fun old => fresh other among (mem_cons_of_mem _ old)

/-- What the rounds settle on spends the same outpoints, leaves all but the fee, and was signed at
a size the fee covers. -/
theorem settleFee_covers {prevouts : List TxOut} {total rounds fee paid : Nat}
    {signed : Transaction}
    (settled : settleFee outside prevouts total feerate rounds fee tx = .ok (some (signed, paid))) :
    signed.input.map TxIn.previousOutput = tx.input.map TxIn.previousOutput ∧
      signed.output = [⟨total - paid, outside.destination⟩] ∧ feerate * signed.vsize ≤ paid := by
  induction rounds generalizing fee tx with
  | zero => cases settled
  | succ rounds ih =>
    unfold settleFee at settled
    split at settled
    · cases settled
    dsimp only at settled
    split at settled
    · cases settled
    next witness _ =>
    have inputs : (signedWith outside tx (total - fee) witness).input.map TxIn.previousOutput =
        tx.input.map TxIn.previousOutput := by
      simp [signedWith, ext_getElem_iff]
    split_ifs at settled with large high exact near
    · cases settled
      exact ⟨inputs, rfl, by rw [Nat.mul_comm]; exact exact.le⟩
    · cases settled
      exact ⟨inputs, rfl, by rw [Nat.mul_comm]; exact near.1.le⟩
    · obtain ⟨same, rest⟩ := ih settled
      exact ⟨same.trans inputs, rest⟩

theorem spendAll_covers {spend : List StaticUtxo}
    (swept : spendAll outside spend feerate = .ok (some tx)) :
    ∃ net fee, tx.input.map TxIn.previousOutput = spend.map StaticUtxo.outpoint ∧
      tx.output = [⟨net, outside.destination⟩] ∧
      net + fee = (spend.map StaticUtxo.valueSat).sum ∧ feerate * tx.vsize ≤ fee ∧
      2 * fee ≤ (spend.map StaticUtxo.valueSat).sum ∧ 546 ≤ net := by
  obtain ⟨_, _, swept⟩ := ok_of_bind swept
  obtain ⟨prevouts, _, swept⟩ := ok_of_bind swept
  obtain ⟨outcome, settled, swept⟩ := ok_of_bind swept
  rcases outcome with _ | outcome
  · cases swept
  obtain ⟨signed, fee⟩ := outcome
  dsimp only at swept
  split at swept
  · cases swept
  next left =>
  obtain ⟨_, share, swept⟩ := ok_of_bind swept
  obtain ⟨_, _, swept⟩ := ok_of_bind swept
  obtain ⟨_, _, swept⟩ := ok_of_bind swept
  cases swept
  obtain ⟨inputs, output, covers⟩ := settleFee_covers settled
  have half := not_of_refuseIf share
  unfold maxFeeShareDivisor at half
  unfold dustLimitSat at left
  exact ⟨_, fee, by simpa [Function.comp_def] using inputs, output, by omega, covers, by omega,
    by omega⟩

end Proofs

/-- At most one transaction is handed out: it spends each confirmed output once, and pays a fee of
at least the feerate for its own size and at most half. -/
theorem sweep_fee_covers_size (outside : Outside) (utxos : List StaticUtxo) (feerate : Nat) :
    (sweepStaticOutputs outside utxos feerate).1 = [] ∨
      ∃ tx net fee, (sweepStaticOutputs outside utxos feerate).1 = [tx] ∧
        let confirmed := utxos.filter fun utxo => 1 ≤ utxo.confirmations
        let sum := (confirmed.map StaticUtxo.valueSat).sum
        (tx.input.map TxIn.previousOutput).Perm (confirmed.map StaticUtxo.outpoint) ∧
        (tx.input.map TxIn.previousOutput).Nodup ∧ tx.output = [⟨net, outside.destination⟩] ∧
        net + fee = sum ∧ feerate * tx.vsize ≤ fee ∧ 2 * fee ≤ sum ∧ 546 ≤ net := by
  unfold sweepStaticOutputs
  split
  · exact .inl rfl
  · exact .inl rfl
  next tx swept =>
  obtain ⟨_, _, swept⟩ := ok_of_bind swept
  obtain ⟨_, _, swept⟩ := ok_of_bind swept
  obtain ⟨_, checked, swept⟩ := ok_of_bind swept
  dsimp only at swept
  split at swept
  · cases swept
  obtain ⟨net, fee, inputs, output, rest⟩ := spendAll_covers swept
  have sorted : (spendable outside utxos).Perm (utxos.filter fun utxo => 1 ≤ utxo.confirmations) :=
    perm_insertionSort _ _
  have same := sorted.map StaticUtxo.outpoint
  rw [(sorted.map StaticUtxo.valueSat).sum_nat] at rest
  rw [← inputs] at same
  have distinct : (tx.input.map TxIn.previousOutput).Nodup :=
    same.nodup_iff.mpr ((checkUtxos_distinct checked).1.sublist (filter_sublist.map _))
  exact .inr ⟨tx, net, fee, rfl, same, distinct, output, rest⟩

end Fortis.Lightning.Sweep
