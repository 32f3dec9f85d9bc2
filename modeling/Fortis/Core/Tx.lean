import Fortis.Core.Terms

/-!
# Transactions

Transactions as the wallet library and the edge read them.  Their consensus
encoding belongs to the Bitcoin library and is a parameter: `Codec`.
-/

namespace Fortis.Core

abbrev Txid := Fixed 32

namespace Txid

def toStr (txid : Txid) : String := hexEncode txid.val

def fromStr (text : String) : Option Txid := do
  let bytes ← hexDecode text
  Fixed.ofBytes? 32 bytes

end Txid

structure OutPoint where
  txid : Txid
  vout : Nat
  deriving DecidableEq

abbrev Witness := List Bytes

structure TxIn where
  previousOutput : OutPoint
  scriptSig : Bytes
  sequence : Nat
  witness : Witness
  deriving DecidableEq

structure TxOut where
  value : Nat
  scriptPubkey : Bytes
  deriving DecidableEq

structure Transaction where
  (version lockTime : Nat)
  input : List TxIn
  output : List TxOut
  deriving DecidableEq

def compactSize (count : Nat) : Nat :=
  if count < 253 then 1 else if count ≤ 65535 then 3 else if count ≤ 4294967295 then 5 else 9

/-- A length-prefixed byte string. -/
def varBytesSize (bytes : Bytes) : Nat := compactSize bytes.length + bytes.length

namespace TxIn

def baseSize (input : TxIn) : Nat := 36 + varBytesSize input.scriptSig + 4

def witnessSize (input : TxIn) : Nat :=
  compactSize input.witness.length + (input.witness.map varBytesSize).sum

end TxIn

namespace Transaction

variable (tx : Transaction)

def usesSegwit : Bool :=
  tx.input.any (fun input => !input.witness.isEmpty) || tx.input.isEmpty

def baseSize : Nat :=
  4 + compactSize tx.input.length + (tx.input.map TxIn.baseSize).sum +
    compactSize tx.output.length +
      (tx.output.map fun out => 8 + varBytesSize out.scriptPubkey).sum + 4

def totalSize : Nat :=
  tx.baseSize + if tx.usesSegwit then 2 + (tx.input.map TxIn.witnessSize).sum else 0

/-- The virtual size: a quarter of the weight, rounded up. -/
def vsize : Nat := (tx.baseSize * 3 + tx.totalSize + 3) / 4

end Transaction

structure Codec where
  serialize : Transaction → Bytes
  deserialize : Bytes → Option Transaction

namespace Codec

def fromHex (codec : Codec) (text : String) : Option Transaction := do
  let bytes ← hexDecode text
  codec.deserialize bytes

def toHex (codec : Codec) (tx : Transaction) : String := hexEncode (codec.serialize tx)

/-- The encoding of `tx` decodes to `tx`, as the library documents for every
transaction with an input. -/
def RoundTrips (codec : Codec) (tx : Transaction) : Prop :=
  codec.deserialize (codec.serialize tx) = some tx

theorem fromHex_toHex {codec : Codec} {tx : Transaction} (trip : codec.RoundTrips tx) :
    codec.fromHex (codec.toHex tx) = some tx := by
  unfold RoundTrips at trip
  simp [fromHex, toHex, trip]

end Codec

end Fortis.Core
