import Mathlib

/-!
# Reading back what was written

Fixed-width big-endian numbers and readers of a byte string.  `Reads reader
bytes value` is the contract of a reader: given `bytes` and whatever follows, it
returns `value` and leaves what follows.  Contracts compose along a reader's
structure, so a decoder is proved against its encoder piece by piece.
-/

namespace Fortis.Lib

open List

/-- The lowest `width` bytes of a number, the highest first. -/
def beBytes : Nat → Nat → List UInt8
  | 0, _ => []
  | width + 1, value => UInt8.ofNat (value / 256 ^ width) :: beBytes width value

def readBe (bytes : List UInt8) : Nat :=
  bytes.foldl (fun sum byte => sum * 256 + byte.toNat) 0

@[simp]
theorem length_beBytes (width value : Nat) : (beBytes width value).length = width := by
  induction width with
  | zero => rfl
  | succ width ih => exact congrArg Nat.succ ih

theorem foldl_beBytes (width value sum : Nat) :
    (beBytes width value).foldl (fun sum byte => sum * 256 + byte.toNat) sum =
      sum * 256 ^ width + value % 256 ^ width := by
  induction width generalizing sum with
  | zero => simp [beBytes, Nat.mod_one]
  | succ width ih =>
    have byte : (UInt8.ofNat (value / 256 ^ width)).toNat = value / 256 ^ width % 256 :=
      UInt8.toNat_ofNat'
    rw [beBytes, foldl_cons, ih, byte, Nat.mod_pow_succ]
    ring

theorem readBe_beBytes {width value : Nat} (fits : value < 256 ^ width) :
    readBe (beBytes width value) = value := by
  rw [readBe, foldl_beBytes, Nat.zero_mul, Nat.zero_add, Nat.mod_eq_of_lt fits]

variable {ε α β : Type}

abbrev Reader (ε α : Type) := StateT (List UInt8) (Except ε) α

def Reads (reader : Reader ε α) (bytes : List UInt8) (value : α) : Prop :=
  ∀ rest, reader (bytes ++ rest) = .ok (value, rest)

theorem Reads.pure (value : α) : Reads (Pure.pure value : Reader ε α) [] value :=
  fun _ => rfl

variable {bytes : List UInt8} {reader : Reader ε α}

theorem Reads.bind {next : α → Reader ε β} {first second : List UInt8}
    {value : α} {result : β} (reads : Reads reader first value)
    (readsNext : Reads (next value) second result) :
    Reads (reader >>= next) (first ++ second) result := by
  intro rest
  change (reader (first ++ second ++ rest) >>= fun pair => next pair.1 pair.2) = _
  rw [append_assoc, reads]
  exact readsNext rest

theorem Reads.return {value : α} (work : α → β)
    (reads : Reads reader bytes value) : Reads (do return work (← reader)) bytes (work value) := by
  intro rest
  change (reader (bytes ++ rest) >>= fun pair => _) = _
  rw [reads]
  rfl

/-- The next `count` bytes. -/
def takeBytes (fault : ε) (count : Nat) : Reader ε (List UInt8) := fun bytes =>
  if bytes.length < count then .error fault
  else .ok (bytes.take count, bytes.drop count)

theorem reads_takeBytes (fault : ε) {count : Nat}
    (sized : bytes.length = count) : Reads (takeBytes fault count) bytes bytes := by
  intro rest
  unfold takeBytes
  rw [if_neg (by rw [length_append]; omega), take_left' sized, drop_left' sized]

def readMany (reader : Reader ε α) : Nat → Reader ε (List α)
  | 0 => Pure.pure []
  | count + 1 => do
    let first ← reader
    let rest ← readMany reader count
    return first :: rest

theorem reads_readMany {encode : α → List UInt8} {items : List α}
    (each : ∀ item ∈ items, Reads reader (encode item) item) :
    Reads (readMany reader items.length) (items.flatMap encode) items := by
  induction items with
  | nil => exact Reads.pure []
  | cons first rest ih =>
    have later := ih fun item mem => each item (mem_cons_of_mem first mem)
    have head := each first mem_cons_self
    exact head.bind (later.return (first :: ·))

end Fortis.Lib
