import Fortis.Index.Contents
import Fortis.Index.Extract
import Fortis.Index.PathIndependence

/-!
# The index says what the chain says

On a valid chain the unspent rows of a program are exactly the P2WPKH outputs to it that the indexed
blocks create and do not spend, and its history names every transaction that creates or spends one.
A row is deleted only by an input that names its outpoint, and consensus makes every spend of a
P2WPKH output carry the key its program is the hash of.
-/

namespace Fortis.Index

open Lib List Nat Rows

section Valid

variable (digests : Digests)

def Transaction.outputs (tx : Transaction) : List (OutPoint × TxOut) :=
  tx.output.zipIdx.map fun place =>
    (⟨digests.computeTxid tx, UInt32.ofNat place.2⟩, place.1)

def Transaction.inputs (tx : Transaction) : List TxIn :=
  if tx.isCoinbase then [] else tx.input

/-- The chain has an output at an outpoint: one from before the indexed blocks or
one that they create. -/
def Exists (earlier : OutPoint → Option TxOut) (txs : List Transaction) (outpoint : OutPoint)
    (out : TxOut) : Prop :=
  earlier outpoint = some out ∨ ∃ tx ∈ txs, (outpoint, out) ∈ tx.outputs digests

/-- The rules of consensus that matter here, for the transactions of the indexed
blocks in order and the outputs from before them. -/
structure ValidTxs (earlier : OutPoint → Option TxOut) (txs : List Transaction) : Prop where
  /-- No outpoint is created twice. -/
  once : (txs.flatMap fun tx => (tx.outputs digests).map Prod.fst).Nodup
  fresh : ∀ tx ∈ txs, ∀ out ∈ tx.outputs digests, earlier out.1 = none
  /-- An input spends an output that was there before its transaction. -/
  backed : ∀ (i : Nat) tx, txs[i]? = some tx → ∀ input ∈ tx.inputs, ∃ out,
    Exists digests earlier (txs.take i) input.previousOutput out
  /-- A spend of a P2WPKH output shows the key. -/
  shown : ∀ tx ∈ txs, ∀ input ∈ tx.inputs, ∀ out program,
    Exists digests earlier txs input.previousOutput out →
    p2wpkhProgram out.scriptPubkey = some program →
    input.scriptSig = [] ∧ ∃ signature key, input.witness = [signature, key] ∧
      digests.hash160 key = program

def rawPlaced (start : Nat) (raws : List RawBlock) : List (Nat × Transaction) :=
  raws.zipIdx.flatMap fun place => place.1.txs.map fun tx => (start + place.2, tx)

def allTxs (raws : List RawBlock) : List Transaction := raws.flatMap RawBlock.txs

def extracted (start : Nat) (raws : List RawBlock) : List ParsedBlock :=
  raws.zipIdx.map fun place => parseAndExtract digests (start + place.2) place.1

variable {digests} {start : Nat} {raws : List RawBlock}

theorem rawPlaced_map : (rawPlaced start raws).map Prod.snd = allTxs raws := by
  unfold rawPlaced allTxs
  rw [map_flatMap]
  simp only [map_map, Function.comp_def, map_id']
  rw [← flatMap_map (f := Prod.fst) (g := RawBlock.txs), zipIdx_map_fst]

theorem placed_extracted : placed (extracted digests start raws) =
      (rawPlaced start raws).filterMap fun place =>
        (txRows digests place.2).map fun rows => (place.1, rows) := by
  unfold placed extracted rawPlaced
  rw [flatMap_map, filterMap_flatMap]
  congr 1
  funext place
  change map _ (filterMap (txRows digests) place.1.txs) = _
  rw [filterMap_map, map_filterMap]
  rfl

end Valid

/-! ## The unspent rows as a fold -/

variable {family : UtxoKey → Option UtxoVal}

section Fold

def utxoAfter (height : Nat) (tx : TxRows) (family : UtxoKey → Option UtxoVal) :
    UtxoKey → Option UtxoVal :=
  tx.spent.foldl (fun family spent => setAt family spent.key none)
    (tx.funded.foldl (fun family funded =>
      setAt family (utxoKeyOf tx.txid funded) (some ⟨funded.value, height⟩)) family)

theorem utxo_write_map {α : Type} (write : α → Write)
    (step : (UtxoKey → Option UtxoVal) → α → UtxoKey → Option UtxoVal)
    (one : ∀ (rows : Rows) item, (rows.put (write item)).utxo = step rows.utxo item)
    (items : List α) (rows : Rows) :
    (rows.write (items.map write)).utxo = items.foldl step rows.utxo := by
  induction items generalizing rows with
  | nil => rfl
  | cons first rest ih => exact (ih (rows.put (write first))).trans (by rw [one]; rfl)

variable {key : UtxoKey} {val : UtxoVal} (rows : Rows) (height n : Nat)

theorem utxo_txWrites (tx : TxRows) :
    (rows.write (txWrites height n tx)).utxo = utxoAfter height tx rows.utxo := by
  rw [txWrites, ← singleton_append, write_append, write_append, write_append,
    utxo_write_map _ (fun family _ => family) (fun _ _ => rfl),
    utxo_write_map _ (fun family spent => setAt family spent.key none) (fun _ _ => rfl),
    utxo_write_map _ (fun family funded =>
      setAt family (utxoKeyOf tx.txid funded) (some ⟨funded.value, height⟩)) (fun _ _ => rfl)]
  exact foldl_fixed tx.touched

theorem utxo_txsWrites (txs : List TxRows) : (rows.write (txsWrites height n txs)).utxo =
      txs.foldl (fun family tx => utxoAfter height tx family) rows.utxo := by
  induction txs generalizing n rows with
  | nil => rfl
  | cons tx rest ih => rw [txsWrites, write_append, ih, utxo_txWrites, foldl_cons]

theorem utxo_blocksWrites (chain : List ParsedBlock) : (rows.write (blocksWrites n chain)).utxo =
      (placed chain).foldl (fun family place => utxoAfter place.1 place.2 family) rows.utxo := by
  induction chain generalizing n rows with
  | nil => rfl
  | cons block rest ih =>
    rw [blocksWrites, blockWrites, write_append, write_append, ih, placed_cons,
      foldl_append, foldl_map]
    congr 1
    exact utxo_txsWrites rows block.height n block.txs

theorem foldl_spent {spents : List Spent} :
    spents.foldl (fun family spent => setAt family spent.key none) family key = some val ↔
      (∀ spent ∈ spents, spent.key ≠ key) ∧ family key = some val := by
  induction spents generalizing family with
  | nil => simp
  | cons first rest ih =>
    rw [foldl_cons, ih, forall_mem_cons]
    unfold setAt
    split
    next same => simp [same]
    next other => simp [Ne.symm other]

theorem foldl_funded {fundeds : List Funded}
    {txid : Txid} {height : Nat} (nodup : (fundeds.map (utxoKeyOf txid)).Nodup) :
    fundeds.foldl (fun family funded =>
        setAt family (utxoKeyOf txid funded) (some ⟨funded.value, height⟩)) family key = some val ↔
      (∃ funded ∈ fundeds, utxoKeyOf txid funded = key ∧ val = ⟨funded.value, height⟩) ∨
        (∀ funded ∈ fundeds, utxoKeyOf txid funded ≠ key) ∧ family key = some val := by
  induction fundeds generalizing family with
  | nil => simp
  | cons first rest ih =>
    rw [map_cons, nodup_cons] at nodup
    rw [foldl_cons, ih nodup.2]
    simp only [mem_cons, exists_eq_or_imp, forall_eq_or_imp]
    unfold setAt
    split
    next same =>
      have notLater : ∀ funded ∈ rest, utxoKeyOf txid funded ≠ key := fun funded mem equal =>
        nodup.1 (same ▸ equal ▸ mem_map_of_mem mem)
      constructor
      · rintro (⟨funded, mem, equal, _⟩ | ⟨_, found⟩)
        · exact absurd equal (notLater funded mem)
        cases found
        exact .inl (.inl ⟨same.symm, rfl⟩)
      rintro ((⟨_, rfl⟩ | ⟨funded, mem, equal, _⟩) | ⟨⟨other, _⟩, _⟩)
      · exact .inr ⟨notLater, rfl⟩
      · exact absurd equal (notLater funded mem)
      · exact absurd same.symm other
    next other =>
    constructor
    · rintro (later | ⟨later, found⟩)
      · exact .inl (.inr later)
      · exact .inr ⟨⟨Ne.symm other, later⟩, found⟩
    rintro ((⟨same, _⟩ | later) | ⟨⟨_, later⟩, found⟩)
    · exact absurd same.symm other
    · exact .inl later
    · exact .inr ⟨later, found⟩

end Fold

variable {outpoint : OutPoint} {program : Program} {input : TxIn} {out : TxOut}

section Parts

variable {digests : Digests} {tx : Transaction} {key : UtxoKey} {val : UtxoVal} {height : Nat}

theorem mem_outputs : (outpoint, out) ∈ tx.outputs digests ↔
      ∃ i, tx.output[i]? = some out ∧ outpoint = ⟨digests.computeTxid tx, UInt32.ofNat i⟩ := by
  unfold Transaction.outputs
  rw [mem_map]
  constructor
  · rintro ⟨⟨own, i⟩, mem, same⟩
    cases same
    exact ⟨i, mem_zipIdx_iff_getElem?.mp mem, rfl⟩
  rintro ⟨i, found, rfl⟩
  exact ⟨(out, i), mem_zipIdx_iff_getElem?.mpr found, rfl⟩

theorem funded_iff : (∃ funded ∈ tx.funded, utxoKeyOf (digests.computeTxid tx) funded = key ∧
        val = ⟨funded.value, height⟩) ↔ ∃ out, (key.outpoint, out) ∈ tx.outputs digests ∧
        p2wpkhProgram out.scriptPubkey = some key.program ∧ val = ⟨out.value, height⟩ := by
  unfold Transaction.funded
  simp only [mem_filterMap, mem_outputs]
  constructor
  · rintro ⟨funded, ⟨⟨out, i⟩, mem, made⟩, rfl, rfl⟩
    obtain ⟨program, isProgram, rfl⟩ := Option.map_eq_some_iff.mp made
    exact ⟨out, ⟨i, mem_zipIdx_iff_getElem?.mp mem, rfl⟩, isProgram, rfl⟩
  rintro ⟨out, ⟨i, found, outpoint⟩, isProgram, rfl⟩
  refine ⟨⟨key.program, UInt32.ofNat i, out.value⟩,
    ⟨(out, i), mem_zipIdx_iff_getElem?.mpr found, by rw [isProgram]; rfl⟩, ?_, rfl⟩
  obtain ⟨program, own⟩ := key
  dsimp only at outpoint
  subst outpoint
  rfl

theorem funded_distinct (nodup : ((tx.outputs digests).map Prod.fst).Nodup) :
    (tx.funded.map (utxoKeyOf (digests.computeTxid tx))).Nodup := by
  have sublist : ∀ places : List (TxOut × Nat),
      ((places.filterMap fun place => (p2wpkhProgram place.1.scriptPubkey).map fun program =>
        (⟨program, UInt32.ofNat place.2, place.1.value⟩ : Funded)).map fun funded =>
          (⟨digests.computeTxid tx, funded.vout⟩ : OutPoint)).Sublist
      (places.map fun place => ⟨digests.computeTxid tx, UInt32.ofNat place.2⟩) := by
    intro places
    induction places with
    | nil => exact List.Sublist.slnil
    | cons place rest ih =>
      rcases isProgram : p2wpkhProgram place.1.scriptPubkey with _ | program
      · rw [filterMap_cons_none (by rw [isProgram]; rfl)]
        exact ih.cons _
      rw [filterMap_cons_some (by rw [isProgram]; rfl)]
      exact ih.cons_cons _
  have outpoints : (tx.funded.map fun funded =>
      (utxoKeyOf (digests.computeTxid tx) funded).outpoint).Nodup := by
    refine List.Nodup.sublist (sublist tx.output.zipIdx) ?_
    unfold Transaction.outputs at nodup
    rw [map_map] at nodup
    exact nodup
  have composed : tx.funded.map (fun funded =>
      (utxoKeyOf (digests.computeTxid tx) funded).outpoint) =
      (tx.funded.map (utxoKeyOf (digests.computeTxid tx))).map UtxoKey.outpoint := by
    rw [map_map]
    rfl
  rw [composed] at outpoints
  exact outpoints.of_map _

theorem mem_spent {spent : Spent} : spent ∈ tx.spent digests ↔ ∃ input ∈ tx.inputs,
      spendProgram digests input = some spent.program ∧ spent.prevout = input.previousOutput := by
  unfold Transaction.spent Transaction.inputs
  split
  · simp
  rw [mem_filterMap]
  constructor
  · rintro ⟨input, mem, made⟩
    obtain ⟨program, isProgram, rfl⟩ := Option.map_eq_some_iff.mp made
    exact ⟨input, mem, isProgram, rfl⟩
  rintro ⟨input, mem, isProgram, prevout⟩
  refine ⟨input, mem, ?_⟩
  rw [isProgram, ← prevout]
  rfl

/-- An input that shows the key of a program is attributed to it. -/
theorem spendProgram_of_shown (empty : input.scriptSig = [])
    (shows : ∃ signature key, input.witness = [signature, key] ∧ digests.hash160 key = program) :
    spendProgram digests input = some program := by
  obtain ⟨signature, key, witness, rfl⟩ := shows
  unfold spendProgram
  rw [empty, witness]
  rfl

end Parts

/-! ## The unspent rows -/

variable {txs : List Transaction} {tx : Transaction}

section Unspent

variable {digests : Digests} {earlier : OutPoint → Option TxOut}

/-- The output at a key is created by one of the transactions and spent by none. -/
def Unspent (digests : Digests) (places : List (Nat × Transaction)) (key : UtxoKey)
    (val : UtxoVal) : Prop :=
  (∃ place ∈ places, ∃ out, (key.outpoint, out) ∈ place.2.outputs digests ∧
    p2wpkhProgram out.scriptPubkey = some key.program ∧ val = ⟨out.value, place.1⟩) ∧
  ∀ place ∈ places, ∀ input ∈ place.2.inputs, input.previousOutput ≠ key.outpoint

def outcome (digests : Digests) (family : UtxoKey → Option UtxoVal) (place : Nat × Transaction) :
    UtxoKey → Option UtxoVal :=
  utxoAfter place.1 ⟨digests.computeTxid place.2, place.2.funded, place.2.spent digests⟩ family

theorem foldl_placed (places : List (Nat × Transaction)) (family : UtxoKey → Option UtxoVal) :
    (places.filterMap fun place => (txRows digests place.2).map fun rows => (place.1, rows)).foldl
        (fun family place => utxoAfter place.1 place.2 family) family =
      places.foldl (outcome digests) family := by
  induction places generalizing family with
  | nil => rfl
  | cons place rest ih =>
    unfold txRows at ih ⊢
    by_cases none : place.2.funded.isEmpty ∧ (place.2.spent digests).isEmpty
    · rw [filterMap_cons_none (by rw [if_pos none]; rfl), ih, foldl_cons]
      congr 1
      unfold outcome utxoAfter
      rw [isEmpty_iff.mp none.1, isEmpty_iff.mp none.2]
      rfl
    rw [filterMap_cons_some (by rw [if_neg none]; rfl), foldl_cons, ih, foldl_cons]
    rfl

theorem Exists.mono {more : List Transaction} (there : Exists digests earlier txs outpoint out)
    (among : txs ⊆ more) : Exists digests earlier more outpoint out :=
  there.imp_right fun ⟨other, isOther, creates⟩ => ⟨other, among isOther, creates⟩

theorem ValidTxs.init
    (valid : ValidTxs digests earlier (txs ++ [tx])) : ValidTxs digests earlier txs where
  once := by
    have once := valid.once
    rw [flatMap_append] at once
    exact once.of_append_left
  fresh one member := valid.fresh one (mem_append_left _ member)
  backed i one found input member := by
    have short : i < txs.length := (List.getElem?_eq_some_iff.mp found).1
    have backed := valid.backed i one (by rwa [getElem?_append_left short]) input member
    rwa [take_append_of_le_length (le_of_lt short)] at backed
  shown one member input isInput out program there := by
    exact valid.shown one (mem_append_left _ member) input isInput out program
      (there.mono fun _ => mem_append_left _)

theorem ValidTxs.apart {other : Transaction}
    {own : TxOut} (valid : ValidTxs digests earlier (txs ++ [tx])) (mem : other ∈ txs)
    (creates : (outpoint, out) ∈ tx.outputs digests) : (outpoint, own) ∉ other.outputs digests := by
  intro createsOther
  have once := valid.once
  rw [flatMap_append, flatMap_singleton] at once
  exact (nodup_append.mp once).2.2 outpoint
    (mem_flatMap.mpr ⟨other, mem, mem_map.mpr ⟨_, createsOther, rfl⟩⟩) outpoint
    (mem_map.mpr ⟨_, creates, rfl⟩) rfl

theorem ValidTxs.not_spent {spender : Transaction} (valid : ValidTxs digests earlier (txs ++ [tx]))
    (creates : (outpoint, out) ∈ tx.outputs digests) (mem : spender ∈ txs ++ [tx])
    (isInput : input ∈ spender.inputs) : input.previousOutput ≠ outpoint := by
  rintro rfl
  obtain ⟨i, short, found⟩ := mem_iff_getElem.mp mem
  obtain ⟨own, before | ⟨other, isOther, createsOther⟩⟩ :=
    valid.backed i spender (by rw [getElem?_eq_getElem short, found]) input isInput
  · have fresh := valid.fresh tx (mem_append_right _ mem_cons_self) _ creates
    rw [fresh] at before
    cases before
  rw [length_append, length_singleton] at short
  rw [take_append_of_le_length (by omega)] at isOther
  exact valid.apart (mem_of_mem_take isOther) creates createsOther

/-- The folded table holds the unspent outputs. -/
theorem utxo_outcome {places : List (Nat × Transaction)} {key : UtxoKey} {val : UtxoVal}
    (valid : ValidTxs digests earlier (places.map Prod.snd)) :
    places.foldl (outcome digests) (fun _ => none) key = some val ↔
      Unspent digests places key val := by
  induction places using reverseRecOn with
  | nil => exact ⟨nofun, fun ⟨⟨_, mem, _⟩, _⟩ => (nomatch mem)⟩
  | append_singleton places place ih =>
    rw [map_append, map_singleton] at valid
    have distinct : ((place.2.outputs digests).map Prod.fst).Nodup := by
      have once := valid.once
      rw [flatMap_append, flatMap_singleton] at once
      exact once.of_append_right
    rw [foldl_append, foldl_cons, foldl_nil]
    unfold outcome utxoAfter
    rw [foldl_spent, foldl_funded (funded_distinct distinct), funded_iff]
    change (∀ spent ∈ place.2.spent digests, spent.key ≠ key) ∧
      (_ ∨ _ ∧ places.foldl (outcome digests) (fun _ => none) key = some val) ↔ _
    rw [ih valid.init]
    constructor
    · rintro ⟨unspent, ⟨out, creates, isProgram, isVal⟩ | ⟨_, ⟨made, kept⟩⟩⟩
      · refine ⟨⟨place, mem_append_right _ mem_cons_self, out, creates, isProgram,
          isVal⟩, fun other mem input isInput => ?_⟩
        refine valid.not_spent creates ?_ isInput
        rw [← map_singleton (f := Prod.snd), ← map_append]
        exact mem_map_of_mem mem
      obtain ⟨source, isSource, out, creates, isProgram, isVal⟩ := made
      refine ⟨⟨source, mem_append_left _ isSource, out, creates, isProgram, isVal⟩,
        fun other mem input isInput => ?_⟩
      rcases mem_concat.mp mem with old | rfl
      · exact kept other old input isInput
      intro same
      -- The spend shows the key, so it is attributed to the program.
      obtain ⟨empty, shows⟩ := valid.shown other.2
        (mem_append_right _ mem_cons_self) input isInput out key.program
        (.inr ⟨source.2, mem_append_left _ (mem_map_of_mem isSource), same ▸ creates⟩) isProgram
      refine unspent ⟨key.program, key.outpoint⟩ (mem_spent.mpr ⟨input, isInput,
        spendProgram_of_shown empty shows, same.symm⟩) rfl
    rintro ⟨⟨source, isSource, out, creates, isProgram, isVal⟩, kept⟩
    refine ⟨fun spent isSpent same => ?_, ?_⟩
    · obtain ⟨input, isInput, _, prevout⟩ := mem_spent.mp isSpent
      refine kept place (mem_append_right _ mem_cons_self) input isInput ?_
      rw [← prevout, ← same]
      rfl
    rcases mem_concat.mp isSource with old | rfl
    · refine .inr ⟨fun funded isFunded same => ?_, ⟨source, old, out, creates, isProgram, isVal⟩,
        fun other mem => kept other (mem_append_left _ mem)⟩
      have made : ∃ other ∈ place.2.funded, utxoKeyOf (digests.computeTxid place.2) other = key ∧
            (⟨funded.value, 0⟩ : UtxoVal) = ⟨other.value, 0⟩ := ⟨funded, isFunded, same, rfl⟩
      obtain ⟨own, createsOwn, _, _⟩ := funded_iff.mp made
      exact valid.apart (mem_map_of_mem old) createsOwn creates
    exact .inl ⟨out, creates, isProgram, isVal⟩

end Unspent

/-! ## A fresh index of the chain -/

variable {chain : List ParsedBlock}

theorem rows_of_indexFrom {pieces : List (List ParsedBlock × Bool)}
    {db fresh : Db} (before : db.toRows = rowsOf chain) (fits : NumbersFit 0 chain)
    (nonempty : ∀ piece ∈ pieces, piece.1 ≠ [])
    (indexed : indexFrom db (numberAfter 0 chain) pieces = .ok fresh) :
    fresh.toRows = rowsOf (chain ++ (pieces.map Prod.fst).flatten) ∧
      NumbersFit 0 (chain ++ (pieces.map Prod.fst).flatten) := by
  induction pieces generalizing chain db with
  | nil =>
    cases indexed
    rw [map_nil, flatten_nil, append_nil]
    exact ⟨before, fits⟩
  | cons piece rest ih =>
    obtain ⟨⟨after, recs⟩, applied, later⟩ := ok_of_bind indexed
    obtain ⟨fitsHere, _, rows, _⟩ := apply_ok before applied (nonempty piece mem_cons_self)
    rw [← numberAfter_append] at later
    have longer := ih rows (numbersFit_append.mpr ⟨fits, fitsHere⟩)
      (fun other mem => nonempty other (mem_cons_of_mem piece mem)) later
    rwa [append_assoc] at longer

theorem number_le_of_fits {n number : Nat} (fits : NumbersFit n chain)
    (low : n ≤ number) (high : number < numberAfter n chain) : number ≤ maxTxnum := by
  induction chain generalizing n with
  | nil => exact absurd high (not_lt.mpr low)
  | cons block rest ih =>
    obtain ⟨_, small, later⟩ := fits
    rw [numberAfter_cons] at high
    rcases lt_or_ge number (n + block.txs.length) with here | above
    · rcases small with empty | small
      · rw [empty, length_nil] at here
        omega
      · omega
    · exact ih later above high

def indexedTxs (digests : Digests) (raws : List RawBlock) : List Transaction :=
  (allTxs raws).filter fun tx => (txRows digests tx).isSome

def Touches (digests : Digests) (earlier : OutPoint → Option TxOut) (txs : List Transaction)
    (tx : Transaction) (program : Program) : Prop :=
  (∃ out ∈ tx.output, p2wpkhProgram out.scriptPubkey = some program) ∨
    ∃ input ∈ tx.inputs, ∃ out, Exists digests earlier txs input.previousOutput out ∧
      p2wpkhProgram out.scriptPubkey = some program

structure Exact (digests : Digests) (earlier : OutPoint → Option TxOut) (start : Nat)
    (raws : List RawBlock) (rows : Rows) : Prop where
  utxo : ∀ key val, rows.utxo key = some val ↔ Unspent digests (rawPlaced start raws) key val
  utxos : ∀ program (found : Iterated rows program) maxRows,
    (∃ items, found.utxos maxRows = .ok items ∧ (items.map Prod.fst).Nodup ∧
      ∀ outpoint val, (outpoint, val) ∈ items ↔
        Unspent digests (rawPlaced start raws) ⟨program, outpoint⟩ val) ∨
    (found.utxos maxRows = .error .tooHeavy ∧ maxRows < found.items.length)
  /-- Numbers follow the order of the chain. -/
  numbers : ∀ number, rows.txids number = (indexedTxs digests raws)[number]?.map digests.computeTxid
  /-- Newest first and without repeats. -/
  sorted : ∀ program limit, (rows.historyOf program limit).Pairwise fun newer older => older < newer
  /-- No read with room for every indexed transaction misses one that touches the program. -/
  history : ∀ program limit, (indexedTxs digests raws).length ≤ limit →
    ∀ tx ∈ allTxs raws, Touches digests earlier (allTxs raws) tx program →
      ∃ number, (indexedTxs digests raws)[number]? = some tx ∧ number ∈ rows.historyOf program limit

section Exact

variable {digests : Digests} {earlier : OutPoint → Option TxOut} {start : Nat}
  {raws : List RawBlock}

theorem placed_getElem (digests : Digests) (start : Nat) (raws : List RawBlock) (number : Nat) :
    ((placed (extracted digests start raws))[number]?.map Prod.snd) =
      (indexedTxs digests raws)[number]?.bind (txRows digests) := by
  have general : ∀ (places : List (Nat × Transaction)) (number : Nat),
      ((places.filterMap fun place =>
        (txRows digests place.2).map fun rows => (place.1, rows))[number]?.map Prod.snd) =
        ((places.map Prod.snd).filter fun tx => (txRows digests tx).isSome)[number]?.bind
          (txRows digests) := by
    intro places
    induction places with
    | nil =>
      intro number
      rfl
    | cons place rest ih =>
      intro number
      rcases found : txRows digests place.2 with _ | rows
      · rw [filterMap_cons_none (by rw [found]; rfl), map_cons,
          filter_cons_of_neg (by rw [found]; exact Bool.false_ne_true)]
        exact ih number
      rw [filterMap_cons_some (by rw [found]; rfl), map_cons, filter_cons_of_pos
        (by rw [found]; rfl)]
      cases number with
      | zero => exact found.symm
      | succ number => exact ih number
  rw [placed_extracted, general, rawPlaced_map]
  rfl

/-- The transaction funds the program or an input of it is attributed to the program. -/
def Attributed (digests : Digests) (tx : Transaction) (program : Program) : Prop :=
  (∃ out ∈ tx.output, p2wpkhProgram out.scriptPubkey = some program) ∨
    ∃ input ∈ tx.inputs, spendProgram digests input = some program

theorem mem_touched :
    program ∈ (⟨digests.computeTxid tx, tx.funded, tx.spent digests⟩ : TxRows).touched ↔
      Attributed digests tx program := by
  have funded : tx.funded.map Funded.program =
      tx.output.filterMap fun out => p2wpkhProgram out.scriptPubkey := by
    conv_rhs => rw [← zipIdx_map_fst 0 tx.output, filterMap_map]
    simp [Transaction.funded, map_filterMap, Function.comp_def]
  have spent : (tx.spent digests).map Spent.program =
      tx.inputs.filterMap (spendProgram digests) := by
    unfold Transaction.spent Transaction.inputs
    split <;> simp [map_filterMap, Function.comp_def]
  unfold TxRows.touched Attributed
  rw [mem_dedup, mem_append, funded, spent, mem_filterMap, mem_filterMap]

theorem txRows_of_touches (valid : ValidTxs digests earlier txs) (mem : tx ∈ txs)
    (touches : Touches digests earlier txs tx program) :
    ∃ rows, txRows digests tx = some rows ∧ program ∈ rows.touched := by
  have touched := mem_touched.mpr (touches.imp_right fun ⟨input, isInput, out, there, isProgram⟩ =>
    have ⟨empty, shows⟩ := valid.shown tx mem input isInput out program there isProgram
    ⟨input, isInput, spendProgram_of_shown empty shows⟩)
  refine ⟨_, if_neg ?_, touched⟩
  rintro ⟨noFunded, noSpent⟩
  rw [isEmpty_iff.mp noFunded, isEmpty_iff.mp noSpent] at touched
  cases touched

/-- The rows of a numbered transaction are those of the transaction the chain has in its place. -/
theorem placed_iff {number : Nat} : (∃ height rows,
      (placed (extracted digests start raws))[number]? = some (height, rows) ∧
        program ∈ rows.touched) ↔
    ∃ tx, (indexedTxs digests raws)[number]? = some tx ∧ Attributed digests tx program := by
  have numbered := placed_getElem digests start raws number
  constructor
  · rintro ⟨height, rows, isPlaced, touched⟩
    rw [isPlaced] at numbered
    obtain ⟨tx, found, isRows⟩ := Option.bind_eq_some_iff.mp numbered.symm
    cases txRows_eq isRows
    exact ⟨tx, found, mem_touched.mp touched⟩
  · rintro ⟨tx, found, touches⟩
    obtain ⟨rows, isRows⟩ :=
      Option.isSome_iff_exists.mp (mem_filter.mp (mem_of_getElem? found)).2
    rw [found, Option.bind_some, isRows] at numbered
    obtain ⟨⟨height, own⟩, isPlaced, same⟩ := Option.map_eq_some_iff.mp numbered
    cases same
    cases txRows_eq isRows
    exact ⟨height, _, isPlaced, mem_touched.mpr touches⟩

/-- A read of a program's history with room for every indexed transaction lists exactly those that
fund the program or are attributed to it. -/
theorem mem_historyOf (fits : NumbersFit 0 (extracted digests start raws)) {limit number : Nat}
    (room : (indexedTxs digests raws).length ≤ limit) :
    number ∈ (rowsOf (extracted digests start raws)).historyOf program limit ↔
      ∃ tx, (indexedTxs digests raws)[number]? = some tx ∧ Attributed digests tx program := by
  have below : ∀ number, number ∈ (rowsOf (extracted digests start raws)).historyBelow program
      (maxTxnum + 1) ↔ ∃ tx, (indexedTxs digests raws)[number]? = some tx ∧
        Attributed digests tx program := by
    intro number
    have small : (rowsOf (extracted digests start raws)).history ⟨program, number⟩ = true →
        number < maxTxnum + 1 := fun there =>
      lt_succ_of_le (number_le_of_fits fits (zero_le _) (history_rowsOf there))
    rw [mem_historyBelow, and_iff_right_of_imp small]
    exact history_rowsOf_iff.trans placed_iff
  -- The list has no repeats and every number in it is that of an indexed transaction.
  have nodup : ((rowsOf (extracted digests start raws)).historyBelow program
      (maxTxnum + 1)).Nodup := (historyBelow_sorted _ _ _).imp fun less => less.ne'
  have numbers : (rowsOf (extracted digests start raws)).historyBelow program (maxTxnum + 1) ⊆
      range (indexedTxs digests raws).length := by
    intro number there
    obtain ⟨tx, found, _⟩ := (below number).mp there
    exact mem_range.mpr (List.getElem?_eq_some_iff.mp found).1
  have short := (nodup.subperm numbers).length_le
  rw [length_range] at short
  rw [Rows.historyOf, take_of_length_le (short.trans room), below]

theorem exact_rowsOf (valid : ValidTxs digests earlier (allTxs raws))
    (fits : NumbersFit 0 (extracted digests start raws)) :
    Exact digests earlier start raws (rowsOf (extracted digests start raws)) := by
  have unspent : ∀ key val, (rowsOf (extracted digests start raws)).utxo key = some val ↔
      Unspent digests (rawPlaced start raws) key val := by
    intro key val
    change (empty.write (blocksWrites 0 (extracted digests start raws))).utxo key = _ ↔ _
    rw [utxo_blocksWrites, placed_extracted, foldl_placed]
    exact utxo_outcome (by rwa [rawPlaced_map])
  refine ⟨unspent, fun program found maxRows => ?_, fun number => ?_, fun program limit => ?_,
    fun program limit room tx mem touches => ?_⟩
  · rw [found.utxos_eq]
    split
    · exact .inl ⟨found.items, rfl, found.distinct, fun outpoint val =>
        (found.exact outpoint val).trans (unspent ⟨program, outpoint⟩ val)⟩
    next long => exact .inr ⟨rfl, not_le.mp long⟩
  · have composed : ((placed (extracted digests start raws))[number]?.map
        fun place => place.2.txid) =
        ((placed (extracted digests start raws))[number]?.map Prod.snd).map TxRows.txid := by
      rw [Option.map_map]
      rfl
    rw [txids_rowsOf_eq, composed, placed_getElem]
    rcases found : (indexedTxs digests raws)[number]? with _ | tx
    · rfl
    have isIndexed := mem_filter.mp (mem_of_getElem? found)
    obtain ⟨rows, isRows⟩ := Option.isSome_iff_exists.mp isIndexed.2
    rw [Option.bind_some, isRows]
    cases txRows_eq isRows
    rfl
  · exact (historyBelow_sorted _ _ _).sublist (take_sublist _ _)
  · obtain ⟨rows, isRows, touched⟩ := txRows_of_touches valid mem touches
    have isIndexed : tx ∈ indexedTxs digests raws :=
      mem_filter.mpr ⟨mem, by rw [isRows]; rfl⟩
    obtain ⟨number, found⟩ := mem_iff_getElem?.mp isIndexed
    cases txRows_eq isRows
    exact ⟨number, found, (mem_historyOf fits room).mpr ⟨tx, found, mem_touched.mp touched⟩⟩

/-- Indexing a valid chain leaves exactly what its blocks say, however it is cut into batches. -/
theorem index_exact (digests : Digests) (earlier : OutPoint → Option TxOut) (start : Nat)
    (raws : List RawBlock) (valid : ValidTxs digests earlier (allTxs raws))
    (pieces : List (List ParsedBlock × Bool)) (cut : Pieces (extracted digests start raws) pieces) :
    (∀ db, freshIndex pieces = .ok db → Exact digests earlier start raws db.toRows) ∧
      (NumbersFit 0 (extracted digests start raws) → ∃ db, freshIndex pieces = .ok db) := by
  have nothing : Db.empty.toRows = rowsOf [] := rfl
  refine ⟨fun db indexed => ?_, fun fits => ?_⟩
  · obtain ⟨rows, fits⟩ := rows_of_indexFrom nothing trivial cut.nonempty indexed
    rw [nil_append, cut.whole] at rows fits
    rw [rows]
    exact exact_rowsOf valid fits
  rw [← cut.whole] at fits
  obtain ⟨fresh, isFresh, _⟩ := indexFrom_ok nothing cut.nonempty fits
  exact ⟨fresh, isFresh⟩

/-- An input attributed to a program spends a P2WPKH output to it, unless what it spends is no
P2WPKH output at all. -/
theorem attributed_spends (valid : ValidTxs digests earlier txs) (mem : tx ∈ txs)
    (isInput : input ∈ tx.inputs) (attributed : spendProgram digests input = some program)
    (there : Exists digests earlier txs input.previousOutput out) :
    p2wpkhProgram out.scriptPubkey = some program ∨ p2wpkhProgram out.scriptPubkey = none := by
  cases isProgram : p2wpkhProgram out.scriptPubkey with
  | none => exact .inr rfl
  | some own =>
    obtain ⟨empty, shows⟩ := valid.shown tx mem input isInput out own there isProgram
    -- The key that consensus asks for is the one the input is attributed by.
    cases (spendProgram_of_shown empty shows).symm.trans attributed
    exact .inl rfl

/-- A transaction has an input that looks like a spend by the program's key and spends something
that is no P2WPKH output. -/
def LooksOwn (digests : Digests) (earlier : OutPoint → Option TxOut) (txs : List Transaction)
    (tx : Transaction) (program : Program) : Prop :=
  ∃ input ∈ tx.inputs, spendProgram digests input = some program ∧
    ∃ out, Exists digests earlier txs input.previousOutput out ∧
      p2wpkhProgram out.scriptPubkey = none

/-- A program's history is its own transactions and those that only look as if its key spent. -/
theorem history_own (valid : ValidTxs digests earlier (allTxs raws))
    {pieces : List (List ParsedBlock × Bool)} (cut : Pieces (extracted digests start raws) pieces)
    {db : Db} (indexed : freshIndex pieces = .ok db) {limit : Nat}
    (room : (indexedTxs digests raws).length ≤ limit) (program : Program) (number : Nat) :
    number ∈ db.toRows.historyOf program limit ↔
      ∃ tx, (indexedTxs digests raws)[number]? = some tx ∧
        (Touches digests earlier (allTxs raws) tx program ∨
          LooksOwn digests earlier (allTxs raws) tx program) := by
  have nothing : Db.empty.toRows = rowsOf [] := rfl
  obtain ⟨rows, fits⟩ := rows_of_indexFrom nothing trivial cut.nonempty indexed
  rw [nil_append, cut.whole] at rows fits
  rw [rows, mem_historyOf fits room]
  refine exists_congr fun tx => and_congr_right fun found => ?_
  have mem := (mem_filter.mp (mem_of_getElem? found)).1
  constructor
  · rintro (funds | ⟨input, isInput, attributed⟩)
    · exact .inl (.inl funds)
    · obtain ⟨i, place⟩ := mem_iff_getElem?.mp mem
      obtain ⟨out, backed⟩ := valid.backed i tx place input isInput
      have there := backed.mono fun _ => mem_of_mem_take
      rcases attributed_spends valid mem isInput attributed there with own | foreign
      · exact .inl (.inr ⟨input, isInput, out, there, own⟩)
      · exact .inr ⟨input, isInput, attributed, out, there, foreign⟩
  · rintro ((funds | ⟨input, isInput, out, there, own⟩) | ⟨input, isInput, attributed, _⟩)
    · exact .inl funds
    · obtain ⟨empty, shows⟩ := valid.shown tx mem input isInput out program there own
      exact .inr ⟨input, isInput, spendProgram_of_shown empty shows⟩
    · exact .inr ⟨input, isInput, attributed⟩

end Exact

/-! A coinbase pays a program and the next block spends its output.  The P2WSH output of the empty
script is spent by any true argument, and the script is then taken for a key. -/

namespace Foreign

def digests : Digests where
  hash160 bytes := sampleBytes 20 (bytes.headD 0)
  computeTxid tx := sampleBytes 32 (UInt8.ofNat tx.version.toNat)

/-- An output to the hash of the key `[byte]`. -/
def pays (byte : UInt8) (value : UInt64) : TxOut := ⟨value, 0x00 :: 0x14 :: List.replicate 20 byte⟩

def mint : Transaction :=
  ⟨1, 0, [⟨⟨sampleBytes 32 0, 0xffffffff⟩, [1], 0, []⟩], [pays 5 50]⟩

def spend : Transaction :=
  ⟨2, 0, [⟨⟨sampleBytes 32 1, 0⟩, [], 0, [[9], [5]]⟩], [pays 6 40]⟩

def locked : TxOut := ⟨70, 0x00 :: 0x20 :: List.replicate 32 7⟩

def earlier (outpoint : OutPoint) : Option TxOut :=
  if outpoint = ⟨sampleBytes 32 9, 0⟩ then some locked else none

def unlock : Transaction := ⟨3, 0, [⟨⟨sampleBytes 32 9, 0⟩, [], 0, [[1], []]⟩], [pays 6 40]⟩

def raws : List RawBlock :=
  [⟨sampleBytes 32 21, sampleBytes 32 20, 0, [mint, unlock], by decide⟩,
    ⟨sampleBytes 32 22, sampleBytes 32 21, 1, [spend], by decide⟩]

theorem not_key (there : Exists digests earlier (allTxs raws) ⟨sampleBytes 32 9, 0⟩ out) :
    p2wpkhProgram out.scriptPubkey = none := by
  have other : ∀ source ∈ allTxs raws, ∀ place ∈ source.outputs digests,
      place.1 ≠ ⟨sampleBytes 32 9, 0⟩ := by decide
  rcases there with before | ⟨source, isSource, creates⟩
  · cases before
    decide
  · exact absurd rfl (other source isSource _ creates)

theorem spent_key (there : Exists digests earlier (allTxs raws) ⟨sampleBytes 32 1, 0⟩ out) :
    p2wpkhProgram out.scriptPubkey = some (sampleBytes 20 5) := by
  have paid : ∀ source ∈ allTxs raws, ∀ place ∈ source.outputs digests,
      place.1 = ⟨sampleBytes 32 1, 0⟩ →
        p2wpkhProgram place.2.scriptPubkey = some (sampleBytes 20 5) := by decide
  rcases there with before | ⟨source, isSource, creates⟩
  · have never : earlier ⟨sampleBytes 32 1, 0⟩ = none := by decide
    rw [never] at before
    cases before
  · exact paid source isSource _ creates rfl

theorem spends : ∀ tx ∈ allTxs raws, ∀ input ∈ tx.inputs,
    input.previousOutput = ⟨sampleBytes 32 9, 0⟩ ∨ input.previousOutput = ⟨sampleBytes 32 1, 0⟩ ∧
      input.scriptSig = [] ∧ input.witness = [[9], [5]] := by decide

theorem valid : ValidTxs digests earlier (allTxs raws) where
  once := by decide
  fresh := by decide
  backed i tx found input isInput := by
    have isBacked : ∀ place ∈ (allTxs raws).zipIdx, ∀ input ∈ place.1.inputs,
        (earlier input.previousOutput).isSome ∨ ∃ tx ∈ (allTxs raws).take place.2,
          ∃ created ∈ tx.outputs digests, created.1 = input.previousOutput := by
      decide
    rcases isBacked (tx, i) (mk_mem_zipIdx_iff_getElem?.mpr found) input isInput with
      before | ⟨source, isSource, ⟨place, out⟩, creates, rfl⟩
    · obtain ⟨out, isOut⟩ := Option.isSome_iff_exists.mp before
      exact ⟨out, .inl isOut⟩
    · exact ⟨out, .inr ⟨source, isSource, creates⟩⟩
  shown tx mem input isInput out program there isProgram := by
    rcases spends tx mem input isInput with foreign | ⟨prevout, empty, witness⟩
    · rw [not_key (foreign ▸ there)] at isProgram
      cases isProgram
    · rw [spent_key (prevout ▸ there)] at isProgram
      exact ⟨empty, [9], [5], witness, Option.some.inj isProgram⟩

def pieces : List (List ParsedBlock × Bool) :=
  (extracted digests 7 raws).map fun block => ([block], true)

theorem cut : Pieces (extracted digests 7 raws) pieces where
  whole := rfl
  nonempty piece member := by
    obtain ⟨block, _, rfl⟩ := mem_map.mp member
    exact cons_ne_nil _ _
  single piece member _ := by
    obtain ⟨block, _, rfl⟩ := mem_map.mp member
    exact ⟨block, rfl⟩

theorem not_touches : ¬ Touches digests earlier (allTxs raws) unlock (digests.hash160 []) := by
  rintro (⟨out, isOut, isProgram⟩ | ⟨input, isInput, out, there, isProgram⟩)
  · revert out
    decide
  · cases mem_singleton.mp isInput
    rw [not_key there] at isProgram
    cases isProgram

end Foreign

open Foreign

theorem index_exact_foreign : ∃ db, freshIndex pieces = .ok db ∧
      Exact digests earlier 7 raws db.toRows ∧
      db.utxo ⟨sampleBytes 20 6, ⟨sampleBytes 32 2, 0⟩⟩ = some ⟨40, 8⟩ := by
  obtain ⟨exact, indexed⟩ := index_exact digests earlier 7 raws valid pieces cut
  have fits : NumbersFit 0 (extracted digests 7 raws) := by
    refine ⟨by decide, .inr (by decide), by decide, .inr (by decide),
      trivial⟩
  obtain ⟨db, isDb⟩ := indexed fits
  refine ⟨db, isDb, exact db isDb, ((exact db isDb).utxo _ _).mpr ?_⟩
  refine ⟨⟨(8, Foreign.spend), by simp [rawPlaced, raws], pays 6 40, mem_singleton.mpr rfl,
    by decide, rfl⟩, ?_⟩
  decide

theorem history_own_foreign : ∃ db, freshIndex pieces = .ok db ∧
      0 ∈ db.toRows.historyOf (sampleBytes 20 5) 3 ∧
      1 ∉ db.toRows.historyOf (sampleBytes 20 5) 3 ∧
      2 ∈ db.toRows.historyOf (sampleBytes 20 5) 3 ∧
      1 ∈ db.toRows.historyOf (digests.hash160 []) 3 := by
  have exact := history_own valid cut rfl
    (show (indexedTxs digests raws).length ≤ 3 by decide)
  refine ⟨_, rfl, (exact _ 0).mpr ⟨mint, rfl, .inl (.inl ?_)⟩, ?_,
    (exact _ 2).mpr ⟨Foreign.spend, rfl, .inl (.inr ?_)⟩,
    (exact _ 1).mpr ⟨unlock, rfl, .inr ?_⟩⟩
  · exact ⟨pays 5 50, mem_singleton.mpr rfl, by decide⟩
  · rw [exact]
    rintro ⟨tx, found, touches⟩
    cases found
    have never : ∀ out ∈ unlock.output,
        p2wpkhProgram out.scriptPubkey ≠ some (sampleBytes 20 5) := by decide
    rcases touches with (⟨out, isOut, pays⟩ | ⟨input, isInput, out, there, pays⟩) |
      ⟨input, isInput, attributed, _⟩
    · exact never out isOut pays
    · cases mem_singleton.mp isInput
      rw [not_key there] at pays
      cases pays
    · cases mem_singleton.mp isInput
      revert attributed
      decide
  · exact ⟨_, mem_singleton.mpr rfl, pays 5 50, .inr ⟨mint,
      mem_cons_self, mem_singleton.mpr rfl⟩, by decide⟩
  · exact ⟨_, mem_singleton.mpr rfl, by decide, locked, .inl (if_pos rfl),
      by decide⟩

theorem history_holds_foreign : ValidTxs digests earlier (allTxs raws) ∧
      ∃ db, freshIndex pieces = .ok db ∧ db.history ⟨digests.hash160 [], 1⟩ = true ∧
        (indexedTxs digests raws)[1]? = some unlock ∧
        ¬ Touches digests earlier (allTxs raws) unlock (digests.hash160 []) :=
  ⟨valid, _, rfl, by decide, rfl, not_touches⟩

end Fortis.Index
