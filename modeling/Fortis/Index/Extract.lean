import Fortis.Index.Store

/-!
# From transactions to rows

A transaction is turned into the outputs it funds and the programs it spends from.  A spend is told
from the input alone: an empty script signature and two witness items, the second of which hashes to
the program.  Nothing is looked up.
-/

namespace Fortis.Index

open Fortis.Core Lib List Nat

/-! ## Transactions -/

structure TxIn where
  previousOutput : OutPoint
  scriptSig : Bytes
  sequence : UInt32
  witness : List Bytes

structure TxOut where
  value : UInt64
  scriptPubkey : Bytes

structure Transaction where
  (version lockTime : UInt32)
  input : List TxIn
  output : List TxOut

structure Digests where
  hash160 : Bytes → Program
  computeTxid : Transaction → Txid

def OutPoint.isNull (outpoint : OutPoint) : Bool :=
  outpoint.txid.val = List.replicate 32 0 && outpoint.vout = 0xffffffff

def Transaction.isCoinbase (tx : Transaction) : Bool :=
  match tx.input with
  | [only] => only.previousOutput.isNull
  | _ => false

def isP2wpkh (script : Bytes) : Bool :=
  script.length = 22 && script[0]? = some 0x00 && script[1]? = some 0x14

def p2wpkhProgram (script : Bytes) : Option Program :=
  if isP2wpkh script then Fixed.ofBytes? 20 ((script.drop 2).take 20) else none

section Extract

variable (digests : Digests)

/-- The program an input would spend from if it spent a P2WPKH output. -/
def spendProgram (input : TxIn) : Option Program :=
  if input.scriptSig ≠ [] ∨ input.witness.length ≠ 2 then none
  else input.witness[1]?.map digests.hash160

def Transaction.funded (tx : Transaction) : List Funded :=
  tx.output.zipIdx.filterMap fun place =>
    (p2wpkhProgram place.1.scriptPubkey).map fun program =>
      ⟨program, UInt32.ofNat place.2, place.1.value⟩

def Transaction.spent (tx : Transaction) : List Spent :=
  if tx.isCoinbase then []
  else tx.input.filterMap fun input =>
    (spendProgram digests input).map fun program => ⟨program, input.previousOutput⟩

def txRows (tx : Transaction) : Option TxRows :=
  if tx.funded.isEmpty ∧ (tx.spent digests).isEmpty then none
  else some ⟨digests.computeTxid tx, tx.funded, tx.spent digests⟩

structure RawBlock where
  (hash prev : BlockHash)
  time : UInt32
  txs : List Transaction
  small : (txs.map fun tx => 1 + tx.output.length + tx.input.length).sum < 2 ^ 32

variable {digests} in
theorem txRows_eq {tx : Transaction} {rows : TxRows} (found : txRows digests tx = some rows) :
    rows = ⟨digests.computeTxid tx, tx.funded, tx.spent digests⟩ := by
  unfold txRows at found
  split at found
  · cases found
  · exact (Option.some.inj found).symm

theorem size_txRows {tx : Transaction} {rows : TxRows} (found : txRows digests tx = some rows) :
    rows.size ≤ 1 + tx.output.length + tx.input.length := by
  cases txRows_eq found
  have funded : tx.funded.length ≤ tx.output.length := by
    have short := length_filterMap_le (fun place : TxOut × Nat =>
      (p2wpkhProgram place.1.scriptPubkey).map fun program =>
        (⟨program, UInt32.ofNat place.2, place.1.value⟩ : Funded)) tx.output.zipIdx
    rw [length_zipIdx] at short
    exact short
  have spent : (tx.spent digests).length ≤ tx.input.length := by
    unfold Transaction.spent
    split
    · exact zero_le _
    · exact length_filterMap_le _ _
  change 1 + tx.funded.length + (tx.spent digests).length ≤ _
  omega

theorem size_extract (txs : List Transaction) :
    ((txs.filterMap (txRows digests)).map TxRows.size).sum ≤
      (txs.map fun tx => 1 + tx.output.length + tx.input.length).sum := by
  induction txs with
  | nil => exact le_rfl
  | cons tx rest ih =>
    rw [map_cons, sum_cons]
    rcases found : txRows digests tx with _ | rows
    · rw [filterMap_cons_none found]
      omega
    have one := size_txRows digests found
    rw [filterMap_cons_some found, map_cons, sum_cons]
    omega

def parseAndExtract (height : Nat) (raw : RawBlock) : ParsedBlock where
  hash := raw.hash
  prev := raw.prev
  time := raw.time
  txs := raw.txs.filterMap (txRows digests)
  small := (size_extract digests raw.txs).trans_lt raw.small
  height := height

end Extract

/-! ## Reads -/

/-- The numbers below a bound that touch a program, from the highest down. -/
def Rows.historyBelow (rows : Rows) (program : Program) : Nat → List Nat
  | 0 => []
  | n + 1 =>
    if rows.history ⟨program, n⟩ then n :: rows.historyBelow program n
    else rows.historyBelow program n

def Rows.historyOf (rows : Rows) (program : Program) (limit : Nat) : List Nat :=
  (rows.historyBelow program (maxTxnum + 1)).take limit

/-- What an iterator finds under a program: the rows whose key begins with it. -/
structure Iterated (rows : Rows) (program : Program) where
  items : List (OutPoint × UtxoVal)
  distinct : (items.map Prod.fst).Nodup
  exact : ∀ outpoint val, (outpoint, val) ∈ items ↔ rows.utxo ⟨program, outpoint⟩ = some val

inductive TooHeavy
  | tooHeavy

def takeRows (maxRows : Nat) : List (OutPoint × UtxoVal) → List (OutPoint × UtxoVal) →
      Except TooHeavy (List (OutPoint × UtxoVal))
  | out, [] => .ok out
  | out, item :: rest =>
    if out.length = maxRows then .error .tooHeavy else takeRows maxRows (out ++ [item]) rest

def Iterated.utxos {rows : Rows} {program : Program} (found : Iterated rows program)
    (maxRows : Nat) : Except TooHeavy (List (OutPoint × UtxoVal)) :=
  takeRows maxRows [] found.items

theorem takeRows_eq (maxRows : Nat) {out items : List (OutPoint × UtxoVal)}
    (short : out.length ≤ maxRows) : takeRows maxRows out items =
      if out.length + items.length ≤ maxRows then .ok (out ++ items) else .error .tooHeavy := by
  induction items generalizing out with
  | nil => rw [takeRows, append_nil, length_nil, add_zero, if_pos short]
  | cons item rest ih =>
    rw [takeRows, length_cons]
    split
    next full => rw [if_neg (by omega)]
    next space =>
    rw [ih (by rw [length_append, length_singleton]; omega), length_append,
      length_singleton, append_assoc, singleton_append, add_assoc,
      add_comm 1]

theorem Iterated.utxos_eq {rows : Rows} {program : Program} (found : Iterated rows program)
    (maxRows : Nat) : found.utxos maxRows =
      if found.items.length ≤ maxRows then .ok found.items else .error .tooHeavy := by
  unfold Iterated.utxos
  rw [takeRows_eq maxRows (zero_le _), length_nil, zero_add, nil_append]

variable {rows : Rows} {program : Program}

theorem mem_historyBelow {bound number : Nat} : number ∈ rows.historyBelow program bound ↔
      number < bound ∧ rows.history ⟨program, number⟩ = true := by
  induction bound with
  | zero => simp [Rows.historyBelow]
  | succ bound ih =>
    unfold Rows.historyBelow
    split
    next touched =>
      rw [mem_cons, ih]
      constructor
      · rintro (rfl | ⟨below, found⟩)
        · exact ⟨lt_succ_self _, touched⟩
        · exact ⟨by omega, found⟩
      rintro ⟨below, found⟩
      rcases Nat.lt_or_eq_of_le (Nat.lt_succ_iff.mp below) with less | same
      · exact .inr ⟨less, found⟩
      · exact .inl same
    next untouched =>
    rw [ih]
    constructor
    · rintro ⟨below, found⟩
      exact ⟨by omega, found⟩
    rintro ⟨below, found⟩
    rcases Nat.lt_or_eq_of_le (Nat.lt_succ_iff.mp below) with less | rfl
    · exact ⟨less, found⟩
    · exact absurd found untouched

theorem historyBelow_sorted (rows : Rows) (program : Program) (bound : Nat) :
    (rows.historyBelow program bound).Pairwise fun newer older => older < newer := by
  induction bound with
  | zero => exact .nil
  | succ bound ih =>
    unfold Rows.historyBelow
    split
    · exact pairwise_cons.mpr ⟨fun number mem => (mem_historyBelow.mp mem).1, ih⟩
    · exact ih

/-! ## The largest outputs -/

abbrev Coin := OutPoint × UtxoVal

structure Unlisted where
  count : Nat
  value : UInt64

abbrev Listing := List Coin × Unlisted

/-- The heap's order: by value, then by outpoint. -/
def rank (coin : Coin) : Nat ×ₗ List Nat ×ₗ Nat :=
  toLex (coin.2.value.toNat, toLex (coin.1.txid.val.map UInt8.toNat, coin.1.vout.toNat))

abbrev below : Coin → Coin → Prop := Order.Preimage rank (· ≤ ·)

/-- One row of the iteration; the heap is the list of its rows, the least first. -/
def keepLargest (maxRows : Nat) (keep : OutPoint → Bool) (state : Listing) (coin : Coin) :
    Listing :=
  if keep coin.1 then
    match state.1.orderedInsert below coin with
    | [] => state
    | least :: rest =>
      if maxRows < rest.length + 1 then
        (rest, ⟨state.2.count + 1, state.2.value + least.2.value⟩)
      else (least :: rest, state.2)
  else state

variable {rows : Rows} {program : Program}

/-- The heap holds the greatest of the rows seen, and the totals are those of the others. -/
def Largest (maxRows : Nat) (seen : List Coin) (state : Listing) : Prop :=
  ∃ left, state.1 ++ left ~ seen ∧ (∀ one ∈ left, ∀ two ∈ state.1, below one two) ∧
    state.1.Pairwise below ∧ state.1.length = min maxRows seen.length ∧
    state.2.count = left.length ∧ state.2.value = (left.map (·.2.value)).sum

variable {maxRows : Nat} {keep : OutPoint → Bool}

theorem Largest.step {seen : List Coin} {state : Listing}
    (largest : Largest maxRows seen state) {coin : Coin} (kept : keep coin.1) :
    Largest maxRows (seen ++ [coin]) (keepLargest maxRows keep state coin) := by
  obtain ⟨left, perm, lower, sorted, size, count, value⟩ := largest
  have pushed := perm_orderedInsert below coin state.1
  have ordered := Pairwise.orderedInsert coin _ sorted
  rw [keepLargest, if_pos kept]
  generalize state.1.orderedInsert below coin = heap at pushed ordered ⊢
  rcases heap with _ | ⟨least, rest⟩
  · cases pushed.nil_eq
  obtain ⟨isLeast, ordered'⟩ := pairwise_cons.mp ordered
  have all : least :: rest ++ left ~ seen ++ [coin] :=
    (pushed.append_right left).trans ((perm.cons coin).trans (perm_append_singleton coin seen).symm)
  have lengths := perm.length_eq
  have grown := pushed.length_eq
  simp only [length_append, length_cons] at lengths grown
  dsimp only
  split
  next full =>
    refine ⟨least :: left, perm_middle.trans all, ?_, ordered', ?_, ?_, ?_⟩
    · intro one mem two mem'
      rcases mem_cons.mp mem with rfl | old
      · exact isLeast two mem'
      rcases mem_cons.mp (pushed.subset mem_cons_self) with rfl | inside
      · exact lower one old two (pushed.cons_inv.subset mem')
      · exact le_trans (lower one old least inside) (isLeast two mem')
    · simp only [length_append, length_singleton]
      omega
    · simp [count]
    · simp [value, add_comm]
  next space =>
    have none : left = [] := length_eq_zero_iff.mp (by omega)
    subst none
    refine ⟨[], all, forall_mem_nil _, ordered, ?_, count, value⟩
    simp only [length_append, length_cons]
    omega

end Fortis.Index
