import Fortis.Index.Store

/-!
# Undo records read back

An undo record whose numbers fit their fields is decoded to itself.
-/

namespace Fortis.Index

open Fortis.Core Lib List

/-- The numbers of an undo record fit the fields they are written to. -/
structure Undo.Fits (undo : Undo) : Prop where
  firstTxnum : undo.firstTxnum < 256 ^ 5
  nTxs : undo.nTxs < 256 ^ 4
  historyCount : undo.addedHistory.length < 256 ^ 4
  addedCount : undo.addedUtxo.length < 256 ^ 4
  deletedCount : undo.deletedUtxo.length < 256 ^ 4
  txnums : ∀ key ∈ undo.addedHistory, key.txnum < 256 ^ 5
  heights : ∀ row ∈ undo.deletedUtxo, row.2.height < 256 ^ 4

theorem reads_take {bytes : Bytes} {size : Nat} (sized : bytes.length = size) :
    Reads (take size) bytes bytes :=
  reads_takeBytes _ sized

theorem reads_takeFixed {size : Nat} (array : Fixed size) :
    Reads (takeFixed size) array.val array := by
  intro rest
  have sized := array.property
  unfold takeFixed
  rw [dif_neg (by rw [length_append]; omega)]
  refine congrArg Except.ok (Prod.ext (Subtype.ext ?_) ?_)
  · exact take_left' sized
  · exact drop_left' sized

theorem reads_count {value : Nat} (fits : value < 256 ^ 4) :
    Reads count (beBytes 4 value) value := by
  have read := (reads_take (length_beBytes 4 value)).return readBe
  rw [readBe_beBytes fits] at read
  exact read

theorem reads_historyKey {key : HistoryKey} (fits : key.txnum < 256 ^ 5) :
    Reads takeHistoryKey key.encode key := by
  have number := (reads_take (length_beBytes 5 key.txnum)).return
    fun bytes => HistoryKey.mk key.program (readBe bytes)
  rw [readBe_beBytes fits] at number
  exact (reads_takeFixed key.program).bind number

theorem reads_utxoKey (key : UtxoKey) : Reads takeUtxoKey key.encode key := by
  have number := (reads_take (length_beBytes 4 key.outpoint.vout.toNat)).return
    fun bytes => UtxoKey.mk key.program ⟨key.outpoint.txid, UInt32.ofNat (readBe bytes)⟩
  rw [readBe_beBytes key.outpoint.vout.toNat_lt, UInt32.ofNat_toNat] at number
  exact (reads_takeFixed key.program).bind ((reads_takeFixed key.outpoint.txid).bind number)

theorem reads_utxoVal {val : UtxoVal} (fits : val.height < 256 ^ 4) :
    Reads takeUtxoVal val.encode val := by
  have read : Reads takeUtxoVal val.encode
      ⟨UInt64.ofNat (readBe (beBytes 8 val.value.toNat)), readBe (beBytes 4 val.height)⟩ :=
    (reads_take (length_beBytes 8 val.value.toNat)).bind
      ((reads_take (length_beBytes 4 val.height)).return _)
  rw [readBe_beBytes fits, readBe_beBytes val.value.toNat_lt, UInt64.ofNat_toNat] at read
  exact read

theorem reads_deleted {row : UtxoKey × UtxoVal} (fits : row.2.height < 256 ^ 4) :
    Reads takeDeleted (row.1.encode ++ row.2.encode) row :=
  (reads_utxoKey row.1).bind ((reads_utxoVal fits).return fun val => (row.1, val))

theorem reads_list {α : Type} {item : Reader String α} {encode : α → Bytes} {items : List α}
    (short : items.length < 256 ^ 4) (each : ∀ one ∈ items, Reads item (encode one) one) :
    Reads (takeList item) (encodeList encode items) items :=
  (reads_count short).bind (reads_readMany each)

theorem reads_undo {undo : Undo} (fits : undo.Fits) : Reads takeUndo undo.encode undo := by
  have history := reads_list fits.historyCount fun key mem =>
    reads_historyKey (fits.txnums key mem)
  have added := reads_list fits.addedCount fun key _ => reads_utxoKey key
  have deleted := reads_list fits.deletedCount fun row mem =>
    reads_deleted (fits.heights row mem)
  have read : Reads takeUndo undo.encode ⟨readBe (beBytes 5 undo.firstTxnum),
      readBe (beBytes 4 undo.nTxs), undo.addedHistory, undo.addedUtxo, undo.deletedUtxo⟩ :=
    (reads_take (length_beBytes 5 undo.firstTxnum)).bind
      ((reads_take (length_beBytes 4 undo.nTxs)).bind
        (history.bind (added.bind (deleted.return _))))
  rw [readBe_beBytes fits.firstTxnum, readBe_beBytes fits.nTxs] at read
  exact read

theorem decode_encode {undo : Undo} (fits : undo.Fits) : Undo.decode undo.encode = .ok undo := by
  have read := reads_undo fits []
  rw [append_nil] at read
  unfold Undo.decode
  rw [read]
  rfl

end Fortis.Index
