import Fortis.Core.Bytes
import Fortis.Lib.Prog

/-!
# Payment links

The parser of a pasted text, with the decoders of addresses, invoices, offers and LNURLs left open.

Rust's strings are cut at byte offsets: at an offset inside a character `get` gives nothing and an
index panics.  A run of the parser notes the texts it calls itself with, and ends with a value, an
error, a panic, or calls nested deeper than allowed.
-/

namespace Fortis.Lightning.Links

open Fortis.Core Lib List Option

abbrev Text := List Char

inductive LnUnifiedLightning
  | bolt11 (invoice : String) (amountMsat : Option Nat) (description : String) (expirySecs : Nat)
  | bolt12Offer (offer : String) (amountMsat : Option Nat) (description : String)
  deriving DecidableEq

inductive LnTarget
  | bolt11 (invoice : String) (amountMsat : Option Nat) (description : String) (expirySecs : Nat)
  | bolt12Offer (offer : String) (amountMsat : Option Nat) (description : String)
  | lnurlPay (url : String)
  | lightningAddress (user domain : String)
  | onChain (address : String) (amountSat : Option Nat)
  | unified (address : String) (amountSat : Option Nat) (lightning : LnUnifiedLightning)
  deriving DecidableEq

def LnUnifiedLightning.intoPaymentTarget : LnUnifiedLightning → LnTarget
  | bolt11 invoice amountMsat description expirySecs =>
    .bolt11 invoice amountMsat description expirySecs
  | bolt12Offer offer amountMsat description => .bolt12Offer offer amountMsat description

inductive ParseError
  | empty
  | unrecognised
  | wrongNetwork
  | expired
  | invalid (reason : String)
  deriving DecidableEq

inductive Fault
  | panics
  | tooDeep
  | fails (error : ParseError)
  deriving DecidableEq

abbrev Result := Except Fault

def invalid (reason : String) : Fault := .fails (.invalid reason)

/-! ## Byte offsets -/

def byteLen (text : Text) : Nat := (text.map Char.utf8Size).sum

def asBytes (text : Text) : Bytes := text.flatMap String.utf8EncodeChar

/-- A text cut at a byte offset, unless that is inside a character or beyond the end. -/
def splitBytes : Text → Nat → Option (Text × Text)
  | text, 0 => some ([], text)
  | [], _ + 1 => none
  | char :: rest, offset + 1 =>
    if char.utf8Size ≤ offset + 1 then
      (splitBytes rest (offset + 1 - char.utf8Size)).map fun (head, tail) => (char :: head, tail)
    else none

/-- The source's `s.get(start..stop)`. -/
def getRange (text : Text) (start stop : Nat) : Option Text := do
  let (_, rest) ← splitBytes text start
  let (range, _) ← splitBytes rest (stop - start)
  return range

/-- The source's `&s[start..]`. -/
def sliceFrom (text : Text) (start : Nat) : Result Text :=
  orFail ((splitBytes text start).map Prod.snd) .panics

/-- The source's `b[i]`. -/
def byteAt (bytes : Bytes) (i : Nat) : Result UInt8 := orFail bytes[i]? .panics

def toAsciiLowercase (text : Text) : Text := text.map Char.toLower

def stripPrefixCi (text start : Text) : Result (Option Text) :=
  match getRange text 0 (byteLen start) with
  | none => return none
  | some head =>
    if toAsciiLowercase head = toAsciiLowercase start then
      some <$> sliceFrom text (byteLen start)
    else return none

def trim (text : Text) : Text :=
  ((text.dropWhile Core.whiteSpace).reverse.dropWhile Core.whiteSpace).reverse

def splitOnce (mark : Char) (text : Text) : Text × Text :=
  (text.takeWhile (· ≠ mark), (text.dropWhile (· ≠ mark)).tail)

def trimSlashes : Text → Text
  | '/' :: '/' :: rest => trimSlashes rest
  | text => text

/-! ## The decoders of a link's parameters -/

def badPercent : Fault := invalid "bad percent-encoding"

/-- `u8::from_str_radix` in base 16, which takes a plus sign. -/
def fromStrRadix (text : Text) : Option UInt8 :=
  let digits := if text.head? = some '+' then text.tail else text
  if digits = [] then none
  else
    (digits.foldlM (fun (value : Nat) digit => do
      let value := 16 * value + (← hexValue digit)
      if value < 256 then some value else none) 0).map UInt8.ofNat

/-- The loop of `percent_decode` from byte `i` on, with what it decoded so far. -/
def percentLoop (text : Text) (i : Nat) (out : Bytes) : Result Bytes :=
  if i < (asBytes text).length then do
    let byte ← byteAt (asBytes text) i
    if byte = 37 then
      let hex ← orFail (getRange text (i + 1) (i + 3)) badPercent
      let byte ← orFail (fromStrRadix hex) badPercent
      percentLoop text (i + 3) (out ++ [byte])
    else percentLoop text (i + 1) (out ++ [byte])
  else return out
termination_by (asBytes text).length - i

def percentDecode (text : Text) : Result Text := do
  let out ← percentLoop text 0 []
  let decoded ← orFail (String.fromUTF8? ⟨out.toArray⟩) badPercent
  return decoded.toList

def digitsValue (digits : Text) : Nat :=
  digits.foldl (fun value digit => 10 * value + (digit.toNat - 48)) 0

/-- A number that a `u64` holds. -/
def u64 (value : Nat) : Option Nat := if value < 2 ^ 64 then some value else none

def maxSat : Nat := 2100000000000000

def badAmount : Fault := invalid "bad amount"

def btcToSat (text : Text) : Result Nat := do
  let (whole, frac) := splitOnce '.' text
  refuseIf ((whole = [] ∧ frac = []) ∨ ¬ whole.all Char.isDigit ∨ ¬ frac.all Char.isDigit ∨
    8 < byteLen frac) badAmount
  let whole ← orFail (u64 (digitsValue whole)) badAmount
  let frac ← orFail (u64 (digitsValue (frac ++ replicate (8 - frac.length) '0'))) badAmount
  let scaled ← orFail (u64 (whole * 100000000)) badAmount
  let sat ← orFail (u64 (scaled + frac)) badAmount
  refuseIf (maxSat < sat) badAmount
  return sat

/-! ## Runs of the parser -/

/-- The texts the parser called itself with, and how the run ended. -/
structure Run (α : Type) where
  calls : List Text
  ending : Result α

namespace Run

variable {α β : Type}

def ended (ending : Result α) : Run α := ⟨[], ending⟩

def bind (run : Run α) (next : α → Run β) : Run β :=
  match run.ending with
  | .ok value => ⟨run.calls ++ (next value).calls, (next value).ending⟩
  | .error fault => ⟨run.calls, .error fault⟩

instance : Monad Run where
  pure value := ended (.ok value)
  bind := bind

instance : MonadLift Result Run := ⟨ended⟩

def fail (error : ParseError) : Run α := ended (.error (.fails error))

/-- A call of the parser by itself. -/
def call (parse : Text → Run α) (text : Text) : Run α :=
  ⟨text :: (parse text).calls, (parse text).ending⟩

/-- The value a call returns: its result or its error, but no panic. -/
def returned (run : Run α) : Run (Except ParseError α) :=
  ⟨run.calls, match run.ending with
    | .ok value => .ok (.ok value)
    | .error (.fails error) => .ok (.error error)
    | .error fault => .error fault⟩

end Run

/-- The functions the parser takes from elsewhere: each returns. -/
structure Decoders where
  (lnurlpScheme lnurl offer bolt11 lightningAddress onChain : Text → Except ParseError LnTarget)
  address : Text → Except ParseError String

/-- An answer of a decoder, passed on. -/
def answered {α : Type} (answer : Except ParseError α) : Run α :=
  Run.ended (answer.mapError .fails)

/-- A text without its `lightning:` scheme. -/
def stripped (text : Text) : Result Text := do
  return trim ((← stripPrefixCi (trim text) "lightning:".toList).getD (trim text))

/-- The rest of a `bitcoin:` link, also behind a `lightning:` scheme. -/
def linkOf (text : Text) : Result (Option Text) := do
  stripPrefixCi (← stripped text) "bitcoin:".toList

def isBip21 (text : Text) : Result Bool := do
  return (← linkOf text).isSome

structure Query where
  amountSat : Option Nat
  lightning : Option Text

def Query.read (query : Query) (pair : Text) : Result Query := do
  let (key, value) := splitOnce '=' pair
  let key := toAsciiLowercase (← percentDecode key)
  if key = "amount".toList then
    return { query with amountSat := some (← btcToSat (← percentDecode value)) }
  else if key = "lightning".toList ∨ (key = "lno".toList ∧ query.lightning.isNone) then
    return { query with lightning := some (← percentDecode value) }
  else return query

def parameters (rest : Text) : List Text :=
  ((splitOnce '?' (trimSlashes rest)).2.splitOn '&').filter (· ≠ [])

/-- The part of a link before its parameters. -/
def addrPart (rest : Text) : Text := (splitOnce '?' (trimSlashes rest)).1

/-- What the parameters up to some point give. -/
def readAll (pairs : List Text) : Result Query := pairs.foldlM Query.read ⟨none, none⟩

def notLightning : ParseError :=
  .invalid "lightning parameter is not a bolt11 invoice or bolt12 offer"

/-- The Lightning part of a link that has an address or not: an expired invoice
beside an address is passed over. -/
def lightningPart (parse : Text → Run LnTarget) (withAddress : Bool) :
    Option Text → Run (Option LnUnifiedLightning)
  | none => return none
  | some value => do
    if ← isBip21 value then Run.fail notLightning
    else
      match ← (Run.call parse value).returned with
      | .ok (.bolt11 invoice amountMsat description expirySecs) =>
        return some (.bolt11 invoice amountMsat description expirySecs)
      | .ok (.bolt12Offer offer amountMsat description) =>
        return some (.bolt12Offer offer amountMsat description)
      | .ok _ => Run.fail notLightning
      | .error .expired => if withAddress then return none else Run.fail .expired
      | .error .empty | .error .unrecognised => Run.fail (.invalid "bad lightning parameter")
      | .error error => Run.fail error

def parseBip21 (decoders : Decoders) (parse : Text → Run LnTarget) (rest : Text) :
    Run LnTarget := do
  let query ← readAll (parameters rest)
  let lightning ← lightningPart parse (addrPart rest ≠ []) query.lightning
  if addrPart rest = [] then
    match lightning with
    | some lightning => return lightning.intoPaymentTarget
    | none => Run.fail .unrecognised
  else
    let address ← answered (decoders.address (addrPart rest))
    match lightning with
    | some lightning => return .unified address query.amountSat lightning
    | none => return .onChain address query.amountSat

/-- What a text that is no link is: the decoder its beginning chooses. -/
def parsePlain (decoders : Decoders) (text : Text) : Run LnTarget := do
  match ← stripPrefixCi text "lnurlp://".toList with
  | some rest => answered (decoders.lnurlpScheme rest)
  | none =>
    let lower := toAsciiLowercase text
    if "lnurl1".toList <+: lower then answered (decoders.lnurl lower)
    else if "lno1".toList <+: lower then answered (decoders.offer lower)
    else if "ln".toList <+: lower ∧ '1' ∈ lower ∧ '@' ∉ lower then answered (decoders.bolt11 lower)
    else if '@' ∈ text then answered (decoders.lightningAddress text)
    else answered (decoders.onChain text)

/-- Calls nest at most `depth` deep. -/
def parseAt (decoders : Decoders) : Nat → Text → Run LnTarget
  | 0, _ => Run.ended (.error .tooDeep)
  | depth + 1, text => do
    if 16384 < byteLen text then Run.fail (.invalid "input too long")
    else if trim text = [] then Run.fail .empty
    else
      let text ← stripped text
      if text = [] then Run.fail .empty
      else
        match ← stripPrefixCi text "bitcoin:".toList with
        | some rest => parseBip21 decoders (parseAt decoders depth) rest
        | none => parsePlain decoders text

variable {text rest before after head tail : Text} {decoders : Decoders} {target : LnTarget}
  {query : Query} {pair : Text} {earlier later : List Text} {depth : Nat}

/-! ## Cutting texts -/

theorem byteLen_append (first second : Text) :
    byteLen (first ++ second) = byteLen first + byteLen second := by
  simp [byteLen]

theorem byteLen_cons (char : Char) (rest : Text) :
    byteLen (char :: rest) = char.utf8Size + byteLen rest := rfl

theorem length_asBytes (text : Text) : (asBytes text).length = byteLen text := by
  induction text with
  | nil => rfl
  | cons char rest ih =>
    rw [asBytes, flatMap_cons, length_append, String.length_utf8EncodeChar, byteLen_cons, ← ih]
    rfl

theorem length_le_byteLen (text : Text) : text.length ≤ byteLen text := by
  induction text with
  | nil => exact le_rfl
  | cons char rest ih =>
    have pos := char.utf8Size_pos
    rw [byteLen_cons, length_cons]
    omega

theorem splitBytes_append (before after : Text) :
    splitBytes (before ++ after) (byteLen before) = some (before, after) := by
  induction before with
  | nil => rw [byteLen, map_nil, sum_nil, nil_append, splitBytes]
  | cons char rest ih =>
    obtain ⟨offset, isOffset⟩ := Nat.exists_eq_succ_of_ne_zero
      (Nat.ne_of_gt (Nat.add_pos_left char.utf8Size_pos (byteLen rest)))
    rw [byteLen_cons, isOffset, cons_append, splitBytes, ← Nat.succ_eq_add_one, ← isOffset,
      if_pos (Nat.le_add_right _ _), Nat.add_sub_cancel_left, ih]
    rfl

theorem splitBytes_zero (text : Text) : splitBytes text 0 = some ([], text) := by
  cases text <;> rfl

theorem getRange_eq {start : Nat} (cut : splitBytes text start = some (head, tail)) (stop : Nat) :
    getRange text start stop = (splitBytes tail (stop - start)).map Prod.fst := by
  unfold getRange
  simp only [cut, Option.bind_eq_bind, bind_some]
  cases splitBytes tail (stop - start) <;> rfl

/-- Whatever the text, taking off a scheme does not panic: the index is where `get` cut. -/
theorem stripPrefixCi_ok (text start : Text) : ∃ found, stripPrefixCi text start = .ok found := by
  unfold stripPrefixCi sliceFrom
  rw [getRange_eq (splitBytes_zero text), Nat.sub_zero]
  cases splitBytes text (byteLen start) with
  | none => exact ⟨none, rfl⟩
  | some parts =>
    simp only [Option.map_some]
    split
    · exact ⟨some parts.2, rfl⟩
    · exact ⟨none, rfl⟩

theorem linkOf_ok (text : Text) : ∃ found, linkOf text = .ok found := by
  obtain ⟨scheme, isScheme⟩ := stripPrefixCi_ok (trim text) "lightning:".toList
  unfold linkOf stripped
  rw [isScheme]
  exact stripPrefixCi_ok _ _

/-! ## Percent signs by characters -/

/-- What `percent_decode` does, character by character. -/
def percentBytes : Text → Option Bytes
  | [] => some []
  | '%' :: first :: second :: rest => do
    return (← fromStrRadix [first, second]) :: (← percentBytes rest)
  | '%' :: _ => none
  | char :: rest => return String.utf8EncodeChar char ++ (← percentBytes rest)

variable {char : Char}

theorem size_of_hexValue (hex : (hexValue char).isSome) : char.utf8Size = 1 := by
  rw [Char.utf8Size_eq_one_iff, UInt32.le_iff_toNat_le]
  change char.toNat ≤ 127
  unfold hexValue at hex
  split at hex
  · omega
  split at hex
  · omega
  split at hex
  · omega
  · cases hex

/-- Two characters that are read as a number are digits, but for a sign. -/
theorem hex_of_fromStrRadix {first second : Char} {byte : UInt8}
    (read : fromStrRadix [first, second] = some byte) :
    (first = '+' ∨ (hexValue first).isSome) ∧ (hexValue second).isSome := by
  unfold fromStrRadix at read
  by_cases sign : first = '+'
  · subst sign
    refine ⟨.inl rfl, ?_⟩
    by_contra absent
    simp [not_isSome_iff_eq_none.mp absent] at read
  · constructor
    · right
      by_contra absent
      simp [sign, not_isSome_iff_eq_none.mp absent] at read
    · by_contra absent
      cases isFirst : hexValue first <;>
        simp [sign, not_isSome_iff_eq_none.mp absent, isFirst] at read

theorem fromStrRadix_wide (wide : char.utf8Size ≠ 1) : fromStrRadix [char] = none := by
  have noHex : hexValue char = none := by
    by_contra hex
    exact wide (size_of_hexValue (isSome_iff_ne_none.mpr hex))
  have unsigned : char ≠ '+' := by
    rintro rfl
    exact wide rfl
  simp [fromStrRadix, unsigned, noHex]

theorem fromStrRadix_pair_wide {first second : Char}
    (wide : first.utf8Size ≠ 1 ∨ second.utf8Size ≠ 1) : fromStrRadix [first, second] = none := by
  cases read : fromStrRadix [first, second] with
  | none => rfl
  | some byte =>
    obtain ⟨isFirst, isSecond⟩ := hex_of_fromStrRadix read
    rcases wide with wide | wide
    · rcases isFirst with rfl | hex
      · exact absurd rfl wide
      · exact absurd (size_of_hexValue hex) wide
    · exact absurd (size_of_hexValue isSecond) wide

/-- The two bytes after a percent sign are two characters or no number. -/
theorem twoBytes (tail : Text) : (splitBytes tail 2).bind (fun parts => fromStrRadix parts.1) =
      match tail with
      | first :: second :: _ => fromStrRadix [first, second]
      | _ => none := by
  rcases tail with - | ⟨first, - | ⟨second, more⟩⟩
  · rfl
  · rcases first.utf8Size_eq with size | size | size | size
    · simp [splitBytes, size]
    · have wide : fromStrRadix [first] = none := fromStrRadix_wide (by omega)
      simp [splitBytes, size, wide]
    · simp [splitBytes, size]
    · simp [splitBytes, size]
  · rcases first.utf8Size_eq with size | size | size | size
    · rcases second.utf8Size_eq with last | last | last | last
      · simp [splitBytes, size, last]
      all_goals
        have wide : fromStrRadix [first, second] = none := fromStrRadix_pair_wide (.inr (by omega))
        simp [splitBytes, size, last, wide]
    all_goals
      have wide : fromStrRadix [first, second] = none := fromStrRadix_pair_wide (.inl (by omega))
      have alone : fromStrRadix [first] = none := fromStrRadix_wide (by omega)
      simp [splitBytes, size, alone, wide]

theorem or_ne_percent (byte mask : UInt8) (high : 128 ≤ mask.toNat) : byte ||| mask ≠ 37 := by
  intro same
  have bound : mask.toNat ≤ byte.toNat ||| mask.toNat := Nat.right_le_or
  rw [← UInt8.toNat_or, same] at bound
  exact absurd (high.trans bound) (by decide)

/-- The bytes of another character are no percent signs. -/
theorem not_percent_of_mem {byte : UInt8} (other : char ≠ '%')
    (mem : byte ∈ String.utf8EncodeChar char) : byte ≠ 37 := by
  rcases char.utf8Size_eq with size | size | size | size
  · rw [String.utf8EncodeChar_eq_singleton size, mem_singleton] at mem
    rintro rfl
    have small := UInt32.le_iff_toNat_le.mp (Char.utf8Size_eq_one_iff.mp size)
    have value := congrArg UInt8.toNat mem
    rw [UInt32.toNat_toUInt8] at value
    refine other (Char.ext (UInt32.toNat_inj.mp ?_))
    change (37 : Nat) = char.val.toNat % 256 at value
    change char.val.toNat ≤ 127 at small
    change char.val.toNat = 37
    omega
  · rw [String.utf8EncodeChar_eq_cons_cons size] at mem
    simp only [mem_cons, not_mem_nil, or_false] at mem
    rcases mem with rfl | rfl <;> exact or_ne_percent _ _ (by decide)
  · rw [String.utf8EncodeChar_eq_cons_cons_cons size] at mem
    simp only [mem_cons, not_mem_nil, or_false] at mem
    rcases mem with rfl | rfl | rfl <;> exact or_ne_percent _ _ (by decide)
  · rw [String.utf8EncodeChar_eq_cons_cons_cons_cons size] at mem
    simp only [mem_cons, not_mem_nil, or_false] at mem
    rcases mem with rfl | rfl | rfl | rfl <;> exact or_ne_percent _ _ (by decide)

theorem asBytes_append (first second : Text) :
    asBytes (first ++ second) = asBytes first ++ asBytes second := flatMap_append

theorem byteAt_length (first last : Bytes) (byte : UInt8) :
    byteAt (first ++ byte :: last) first.length = .ok byte := by
  simp [byteAt, orFail]
  rfl

/-- Bytes that are no percent signs are passed on. -/
theorem percentLoop_plain (first chunk last out : Bytes)
    (whole : asBytes text = first ++ (chunk ++ last)) (plain : ∀ byte ∈ chunk, byte ≠ 37) :
    percentLoop text first.length out =
      percentLoop text (first.length + chunk.length) (out ++ chunk) := by
  induction chunk generalizing first out with
  | nil => simp
  | cons byte chunk ih =>
    have inside : first.length < (asBytes text).length := by
      rw [whole]
      simp
    have step := ih (first ++ [byte]) (out ++ [byte]) (by simp [whole])
      fun other mem => plain other (mem_cons_of_mem _ mem)
    rw [length_append, length_singleton] at step
    rw [percentLoop, if_pos inside]
    have isByte : byteAt (asBytes text) first.length = .ok byte := by
      rw [whole]
      exact byteAt_length _ _ _
    rw [isByte, ok_bind, if_neg (plain byte mem_cons_self), step, length_cons, append_assoc,
      Nat.add_assoc, Nat.add_comm 1]
    rfl

theorem percentLoop_end (text : Text) (out : Bytes) :
    percentLoop text (byteLen text) out = .ok out := by
  rw [percentLoop, if_neg (by rw [length_asBytes]; exact lt_irrefl _)]
  rfl

/-- At a percent sign the loop reads the next two characters, or fails. -/
theorem percentLoop_percent (before tail : Text) (out : Bytes) :
    percentLoop (before ++ '%' :: tail) (byteLen before) out = (orFail (match tail with
        | first :: second :: _ => fromStrRadix [first, second]
        | _ => none) badPercent >>= fun byte =>
        percentLoop (before ++ '%' :: tail) (byteLen before + 3) (out ++ [byte])) := by
  have inside : byteLen before < (asBytes (before ++ '%' :: tail)).length := by
    rw [length_asBytes, byteLen_append, byteLen_cons]
    exact Nat.lt_add_of_pos_right (Nat.add_pos_left (Char.utf8Size_pos _) _)
  have isPercent : byteAt (asBytes (before ++ '%' :: tail)) (byteLen before) = .ok 37 := by
    rw [asBytes_append, ← length_asBytes]
    exact byteAt_length _ _ _
  have cut : splitBytes (before ++ '%' :: tail) (byteLen before + 1) =
      some (before ++ ['%'], tail) := by
    have parts := splitBytes_append (before ++ ['%']) tail
    rw [byteLen_append, append_assoc] at parts
    exact parts
  have range : getRange (before ++ '%' :: tail) (byteLen before + 1) (byteLen before + 3) =
      (splitBytes tail 2).map Prod.fst := by
    rw [getRange_eq cut, show byteLen before + 3 - (byteLen before + 1) = 2 by omega]
  rw [← twoBytes, percentLoop, if_pos inside, isPercent, ok_bind, if_pos rfl, range]
  cases splitBytes tail 2 with
  | none => rfl
  | some parts => rfl

theorem percentLoop_eq (before after : Text) (out : Bytes) :
    percentLoop (before ++ after) (byteLen before) out =
      orFail ((percentBytes after).map (out ++ ·)) badPercent := by
  induction after using percentBytes.induct generalizing before out with
  | case1 =>
    rw [append_nil, percentLoop_end]
    simp [percentBytes, orFail]
    rfl
  | case2 first second rest ih =>
    rw [percentLoop_percent]
    cases read : fromStrRadix [first, second] with
    | none => simp [percentBytes, read, orFail]; rfl
    | some byte =>
      obtain ⟨isFirst, isSecond⟩ := hex_of_fromStrRadix read
      have sizeFirst : first.utf8Size = 1 := by
        rcases isFirst with rfl | hex
        · rfl
        · exact size_of_hexValue hex
      have next := ih (before ++ ['%', first, second]) (out ++ [byte])
      rw [append_assoc, byteLen_append, byteLen_cons, byteLen_cons, byteLen_cons, sizeFirst,
        size_of_hexValue isSecond] at next
      simp only [cons_append, nil_append, append_assoc] at next
      change percentLoop _ (byteLen before + 3) _ = _ at next
      simp only [orFail, pure_bind, next, percentBytes, read]
      cases percentBytes rest <;> rfl
  | case3 rest short =>
    rw [percentLoop_percent, percentBytes]
    · rcases rest with - | ⟨first, - | ⟨second, more⟩⟩
      · rfl
      · rfl
      · exact (short first second more rfl).elim
    · exact short
  | case4 char rest short other ih =>
    have whole : asBytes (before ++ char :: rest) =
        asBytes before ++ (String.utf8EncodeChar char ++ asBytes rest) := asBytes_append _ _
    have passed := percentLoop_plain _ _ _ out whole fun byte => not_percent_of_mem other
    have next := ih (before ++ [char]) (out ++ String.utf8EncodeChar char)
    rw [append_assoc, byteLen_append] at next
    rw [length_asBytes, String.length_utf8EncodeChar] at passed
    rw [passed, percentBytes]
    · exact next.trans (by cases percentBytes rest <;> simp)
    · exact short
    · exact other

theorem percentDecode_eq (text : Text) :
    percentDecode text = orFail ((percentBytes text).bind fun bytes =>
      (String.fromUTF8? ⟨bytes.toArray⟩).map String.toList) badPercent := by
  have loop := percentLoop_eq [] text []
  change percentLoop text 0 [] = _ at loop
  unfold percentDecode
  rw [loop]
  cases percentBytes text with
  | none => rfl
  | some bytes =>
    simp only [Option.map_some, nil_append, bind_some]
    cases isText : String.fromUTF8? ⟨bytes.toArray⟩ with
    | none => simp [orFail, isText]; rfl
    | some decoded => simp [orFail, isText]

/-! ## Runs return -/

section Returns

variable {α β : Type}

/-- No panic, and no call too deep. -/
def Returns (ending : Result α) : Prop := ending ≠ .error .panics ∧ ending ≠ .error .tooDeep

theorem returns_ok (value : α) : Returns (.ok value) := by
  constructor <;> intro same <;> cases same

theorem returns_fails (error : ParseError) : Returns (.error (.fails error) : Result α) := by
  constructor <;> intro same <;> cases same

theorem Returns.error {fault : Fault} (returns : Returns (.error fault : Result α)) :
    Returns (.error fault : Result β) := by
  cases fault with
  | panics => exact absurd rfl returns.1
  | tooDeep => exact absurd rfl returns.2
  | fails error => exact returns_fails error

theorem Returns.bind {ending : Result α} {next : α → Result β} (returns : Returns ending)
    (then' : ∀ value, Returns (next value)) : Returns (ending >>= next) := by
  cases ending with
  | ok value => exact then' value
  | error fault => exact returns.error

theorem returns_orFail (value : Option α) (reason : String) :
    Returns (orFail value (invalid reason)) := by
  cases value with
  | none => exact returns_fails _
  | some given => exact returns_ok given

theorem returns_refuseIf (condition : Prop) [Decidable condition] (reason : String) :
    Returns (refuseIf condition (invalid reason)) := by
  unfold refuseIf
  split
  · exact returns_fails _
  · exact returns_ok ()

theorem returns_percentDecode (text : Text) : Returns (percentDecode text) := by
  rw [percentDecode_eq]
  exact returns_orFail _ _

theorem returns_btcToSat (text : Text) : Returns (btcToSat text) :=
  (returns_refuseIf _ _).bind fun _ => (returns_orFail _ _).bind fun _ =>
    (returns_orFail _ _).bind fun _ => (returns_orFail _ _).bind fun _ =>
      (returns_orFail _ _).bind fun sat => (returns_refuseIf _ _).bind fun _ => returns_ok sat

theorem returns_read (query : Query) (pair : Text) : Returns (query.read pair) := by
  refine (returns_percentDecode _).bind fun key => ?_
  dsimp only
  split
  · exact (returns_percentDecode _).bind fun value => (returns_btcToSat value).bind fun sat =>
      returns_ok _
  split
  · exact (returns_percentDecode _).bind fun value => returns_ok _
  · exact returns_ok query

theorem returns_readAll (pairs : List Text) : Returns (readAll pairs) := by
  unfold readAll
  generalize (⟨none, none⟩ : Query) = query
  induction pairs generalizing query with
  | nil => exact returns_ok query
  | cons pair rest ih =>
    rw [foldlM_cons]
    exact (returns_read query pair).bind ih

namespace Run

/-- A run that returns after at most so many calls. -/
structure Within (most : Nat) (run : Run α) : Prop where
  few : run.calls.length ≤ most
  returns : Returns run.ending

theorem within_ended {ending : Result α} (most : Nat) (returns : Returns ending) :
    Within most (ended ending) := ⟨Nat.zero_le _, returns⟩

theorem within_fail (most : Nat) (error : ParseError) : Within most (fail error : Run α) :=
  within_ended most (returns_fails error)

variable {next : α → Run β} {run : Run α}

theorem Within.bind (first second : Nat) (within : run.Within first)
    (then' : ∀ value, run.ending = .ok value → (next value).Within second) :
    Within (first + second) (run >>= next) := by
  obtain ⟨few, returns⟩ := within
  change Within _ (Run.bind run next)
  unfold Run.bind
  cases isEnding : run.ending with
  | ok value =>
    obtain ⟨fewMore, returnsMore⟩ := then' value isEnding
    refine ⟨?_, returnsMore⟩
    rw [length_append]
    exact Nat.add_le_add few fewMore
  | error fault =>
    refine ⟨few.trans (Nat.le_add_right _ _), ?_⟩
    rw [isEnding] at returns
    exact returns.error

theorem within_then {most : Nat} {ending : Result α} (returns : Returns ending)
    (then' : ∀ value, ending = .ok value → (next value).Within most) :
    Within most (ended ending >>= next) := by
  have both := Within.bind 0 most (within_ended 0 returns) then'
  rwa [Nat.zero_add] at both

theorem Within.returned {most : Nat} (within : run.Within most) : run.returned.Within most := by
  refine ⟨within.few, ?_⟩
  have returns := within.returns
  unfold Run.returned
  cases isEnding : run.ending with
  | ok value => exact returns_ok _
  | error fault =>
    rw [isEnding] at returns
    cases fault with
    | panics => exact absurd rfl returns.1
    | tooDeep => exact absurd rfl returns.2
    | fails error => exact returns_ok _

/-- What a bind that gives a value did. -/
theorem ok_of_bind_ending {result : β} (ran : (run >>= next).ending = .ok result) :
    ∃ value, run.ending = .ok value ∧ (next value).ending = .ok result := by
  change (Run.bind run next).ending = _ at ran
  unfold Run.bind at ran
  cases isEnding : run.ending with
  | ok value =>
    rw [isEnding] at ran
    exact ⟨value, rfl, ran⟩
  | error fault =>
    rw [isEnding] at ran
    cases ran

end Run

end Returns

open Run

theorem within_answered {α : Type} (most : Nat) (answer : Except ParseError α) :
    (answered answer).Within most := by
  refine within_ended most ?_
  cases answer with
  | ok value => exact returns_ok value
  | error error => exact returns_fails error

theorem within_parsePlain (decoders : Decoders) (text : Text) :
    (parsePlain decoders text).Within 0 := by
  obtain ⟨found, isFound⟩ := stripPrefixCi_ok text "lnurlp://".toList
  refine within_then (isFound ▸ returns_ok found) fun scheme _ => ?_
  cases scheme with
  | some rest => exact within_answered 0 _
  | none =>
    dsimp only
    split_ifs <;> exact within_answered 0 _

theorem returns_linkOf (text : Text) : Returns (linkOf text) := by
  obtain ⟨found, isFound⟩ := linkOf_ok text
  exact isFound ▸ returns_ok found

section

variable {parse : Text → Run LnTarget}
  (plain : ∀ text, linkOf text = .ok none → (parse text).Within 0)
include plain

/-- A link calls the parser for its Lightning value only, and only if that is no link. -/
theorem within_lightningPart (withAddress : Bool)
    (lightning : Option Text) : (lightningPart parse withAddress lightning).Within 1 := by
  cases lightning with
  | none => exact within_ended 1 (returns_ok _)
  | some value =>
    have returns : Returns (isBip21 value) := (returns_linkOf value).bind fun _ => returns_ok _
    refine within_then returns fun isLink known => ?_
    split
    · exact within_fail 1 _
    next noLink =>
      obtain ⟨found, isFound⟩ := linkOf_ok value
      have nothing : linkOf value = .ok none := by
        change isBip21 value = .ok isLink at known
        unfold isBip21 at known
        rw [isFound] at known ⊢
        cases known
        rw [Bool.not_eq_true, isSome_eq_false_iff, isNone_iff_eq_none] at noLink
        rw [noLink]
      have called : (call parse value).Within 1 :=
        ⟨Nat.succ_le_succ (plain value nothing).few, (plain value nothing).returns⟩
      refine Within.bind 1 0 called.returned fun answer _ => ?_
      split <;> try split
      all_goals first
        | exact within_fail 0 _
        | exact within_ended 0 (returns_ok _)

theorem within_parseBip21 (decoders : Decoders)
    (rest : Text) : (parseBip21 decoders parse rest).Within 1 := by
  refine within_then (returns_readAll _) fun query _ => ?_
  refine Within.bind 1 0 (within_lightningPart plain _ _) fun lightning _ => ?_
  split
  · cases lightning with
    | none => exact within_fail 0 _
    | some lightning => exact within_ended 0 (returns_ok _)
  · refine Within.bind 0 0 (within_answered 0 _) fun address _ => ?_
    cases lightning <;> exact within_ended 0 (returns_ok _)

end

/-- One call of the parser, by what its text is. -/
theorem within_parseAt {most : Nat} (decoders : Decoders) (depth : Nat)
    (link : ∀ rest, linkOf text = .ok (some rest) →
      (parseBip21 decoders (parseAt decoders depth) rest).Within most) :
    (parseAt decoders (depth + 1) text).Within most := by
  unfold parseAt
  split
  · exact within_fail most _
  split
  · exact within_fail most _
  obtain ⟨scheme, isScheme⟩ := stripPrefixCi_ok (trim text) "lightning:".toList
  have isStripped : stripped text = .ok (trim (scheme.getD (trim text))) := by
    unfold stripped
    rw [isScheme]
    rfl
  rw [isStripped]
  refine within_then (returns_ok _) fun inner isInner => ?_
  split
  · exact within_fail most _
  obtain ⟨found, isFound⟩ := stripPrefixCi_ok inner "bitcoin:".toList
  rw [isFound]
  refine within_then (returns_ok _) fun rest isRest => ?_
  have isLink : linkOf text = .ok rest := by
    unfold linkOf
    rw [isStripped]
    cases isInner
    cases isRest
    exact isFound
  cases rest with
  | some rest => exact link rest isLink
  | none =>
    have plain := within_parsePlain decoders inner
    exact ⟨plain.few.trans (Nat.zero_le _), plain.returns⟩

theorem within_one_call (decoders : Decoders) (depth : Nat) (text : Text) :
    (parseAt decoders (depth + 2) text).Within 1 := by
  refine within_parseAt decoders (depth + 1) fun rest _ => within_parseBip21 ?_ decoders rest
  intro inner isPlain
  refine within_parseAt decoders depth fun rest isLink => ?_
  cases isPlain.symm.trans isLink

/-! ## Accepted links -/

theorem stripPrefixCi_nil {start : Text} (some' : start ≠ []) :
    stripPrefixCi [] start = .ok none := by
  have nothing : splitBytes [] (byteLen start) = none := by
    cases start with
    | nil => exact absurd rfl some'
    | cons char rest =>
      obtain ⟨offset, isOffset⟩ := Nat.exists_eq_succ_of_ne_zero
        (Nat.ne_of_gt (Nat.add_pos_left char.utf8Size_pos (byteLen rest)))
      rw [byteLen_cons, isOffset, splitBytes]
  unfold stripPrefixCi
  rw [getRange_eq (splitBytes_zero []), Nat.sub_zero, nothing]
  rfl

section

variable (isLink : linkOf text = .ok (some rest))
include isLink

/-- A link that is not too long is read as one. -/
theorem parseAt_link (short : byteLen text ≤ 16384) (decoders : Decoders) (depth : Nat) :
    parseAt decoders (depth + 1) text = parseBip21 decoders (parseAt decoders depth) rest := by
  unfold linkOf at isLink
  obtain ⟨inner, isInner, isLink⟩ := ok_of_bind isLink
  have someInner : inner ≠ [] := by
    rintro rfl
    rw [stripPrefixCi_nil (by decide)] at isLink
    cases isLink
  have someText : trim text ≠ [] := by
    intro nothing
    unfold stripped at isInner
    rw [nothing, stripPrefixCi_nil (by decide)] at isInner
    cases isInner
    exact someInner rfl
  unfold parseAt
  rw [if_neg (Nat.not_lt.mpr short), if_neg someText, isInner]
  change Run.bind (ended (.ok inner)) _ = _
  simp only [Run.bind, ended, nil_append, if_neg someInner, isLink]
  rfl

theorem parseBip21_of_accepted
    (accepted : (parseAt decoders (depth + 1) text).ending = .ok target) :
    (parseBip21 decoders (parseAt decoders depth) rest).ending = .ok target := by
  have short : byteLen text ≤ 16384 := by
    by_contra long
    unfold parseAt at accepted
    rw [if_pos (Nat.not_le.mp long)] at accepted
    cases accepted
  rwa [parseAt_link isLink short] at accepted

theorem readAll_of_accepted (accepted : (parseAt decoders (depth + 1) text).ending = .ok target) :
    ∃ query, readAll (parameters rest) = .ok query := by
  obtain ⟨query, read, -⟩ := ok_of_bind_ending (parseBip21_of_accepted isLink accepted)
  exact ⟨query, read⟩

end

/-- A parameter was read after those before it. -/
theorem read_at (read : readAll (earlier ++ pair :: later) = .ok query) :
    ∃ first second, readAll earlier = .ok first ∧ first.read pair = .ok second ∧
      later.foldlM Query.read second = .ok query := by
  unfold readAll at read
  rw [foldlM_append] at read
  obtain ⟨first, isFirst, read⟩ := ok_of_bind read
  rw [foldlM_cons] at read
  obtain ⟨second, isSecond, read⟩ := ok_of_bind read
  exact ⟨first, second, isFirst, isSecond, read⟩

/-! ## Encoded and required parameters -/

def hexPair : Text → Bool
  | first :: second :: _ => (hexValue first).isSome && (hexValue second).isSome
  | _ => false

/-- Every percent sign is followed by two hexadecimal digits. -/
def encoded : Text → Bool
  | [] => true
  | char :: rest => (char ≠ '%' || hexPair rest) && encoded rest

theorem ne_percent_of_hex {char : Char} (hex : (hexValue char).isSome) : char ≠ '%' := by
  rintro rfl
  exact absurd hex (by decide)

theorem encoded_of_percentBytes {bytes : Bytes} (plain : ¬ ['%', '+'] <:+: text)
    (decoded : percentBytes text = some bytes) : encoded text = true := by
  induction text using percentBytes.induct generalizing bytes with
  | case1 => rfl
  | case2 first second rest ih =>
    have unsigned : first ≠ '+' := by
      rintro rfl
      exact plain ⟨[], second :: rest, rfl⟩
    obtain ⟨byte, isByte, decoded⟩ := bind_eq_some_iff.mp decoded
    obtain ⟨more, isMore, -⟩ := bind_eq_some_iff.mp decoded
    obtain ⟨isFirst, isSecond⟩ := hex_of_fromStrRadix isByte
    have hexFirst := isFirst.resolve_left unsigned
    have later : ¬ ['%', '+'] <:+: rest := fun inside =>
      plain (inside.trans (suffix_append ['%', first, second] rest).isInfix)
    simp [encoded, hexPair, hexFirst, isSecond, ne_percent_of_hex hexFirst,
      ne_percent_of_hex isSecond, ih later isMore]
  | case3 rest short =>
    rw [percentBytes] at decoded
    · cases decoded
    · exact short
  | case4 char rest short other ih =>
    rw [percentBytes] at decoded
    · obtain ⟨more, isMore, -⟩ := bind_eq_some_iff.mp decoded
      have later : ¬ ['%', '+'] <:+: rest := fun inside =>
        plain (inside.trans (suffix_cons char rest).isInfix)
      have noPercent : char ≠ '%' := other
      simp [encoded, noPercent, ih later isMore]
    · exact short
    · exact other

theorem not_signed_of_encoded (isEncoded : encoded text = true) : ¬ ['%', '+'] <:+: text := by
  rintro ⟨front, back, rfl⟩
  induction front with
  | nil =>
    change ((false || hexPair ('+' :: back)) && encoded ('+' :: back)) = true at isEncoded
    cases back <;> cases isEncoded
  | cons char front ih =>
    rw [cons_append, cons_append, encoded, Bool.and_eq_true] at isEncoded
    exact ih isEncoded.2

/-- Of the texts that decode, those with a sign after a percent sign are the ill-formed ones. -/
theorem encoded_iff {decoded : Text} (decodes : percentDecode text = .ok decoded) :
    encoded text = true ↔ ¬ ['%', '+'] <:+: text := by
  refine ⟨not_signed_of_encoded, fun plain => ?_⟩
  rw [percentDecode_eq] at decodes
  obtain ⟨bytes, isBytes, -⟩ := bind_eq_some_iff.mp (some_of_orFail decodes)
  exact encoded_of_percentBytes plain isBytes

/-- The keys whose value is decoded after the parameters read so far. -/
def Query.Decodes (query : Query) (key : Text) : Prop :=
  key = "amount".toList ∨ key = "lightning".toList ∨ (key = "lno".toList ∧ query.lightning.isNone)

instance (query : Query) (key : Text) : Decidable (query.Decodes key) :=
  inferInstanceAs (Decidable (_ ∨ _))

/-- The texts of one parameter that are decoded. -/
def Query.decoded (query : Query) (pair : Text) : List Text :=
  let (name, value) := splitOnce '=' pair
  match percentDecode name with
  | .ok key => if query.Decodes (toAsciiLowercase key) then [name, value] else [name]
  | .error _ => [name]

def decodedFrom (query : Query) : List Text → List Text
  | [] => []
  | pair :: later => query.decoded pair ++
    match query.read pair with
    | .ok next => decodedFrom next later
    | .error _ => []

/-- The names of a link, and the values it decodes. -/
def decodedTexts (rest : Text) : List Text := decodedFrom ⟨none, none⟩ (parameters rest)

def names (rest : Text) : List Text :=
  (parameters rest).filterMap fun pair =>
    (percentDecode (splitOnce '=' pair).1).toOption.map toAsciiLowercase

/-- A parameter that is not to be passed over. -/
def Required (name : Text) : Prop := "req-".toList <+: name

def Understood (name : Text) : Prop := name ∈ ["amount".toList, "lightning".toList, "lno".toList]

/-- What is asked of a link: no stray percent sign, and no unknown required parameter. -/
def Strict (rest : Text) : Prop :=
  (∀ text ∈ decodedTexts rest, encoded text = true) ∧
    ∀ name ∈ names rest, Required name → Understood name

theorem not_understood {name : Text} (required : Required name) : ¬ Understood name := by
  intro understood
  simp only [Understood, mem_cons, not_mem_nil, or_false] at understood
  unfold Required at required
  rcases understood with rfl | rfl | rfl <;> exact absurd required (by decide)

theorem decodes_of_read {next : Query} (read : query.read pair = .ok next)
    (mem : text ∈ query.decoded pair) : ∃ decoded, percentDecode text = .ok decoded := by
  obtain ⟨key, isKey, read⟩ := ok_of_bind read
  change percentDecode (splitOnce '=' pair).1 = .ok key at isKey
  unfold Query.decoded at mem
  dsimp only at mem read
  rw [isKey] at mem
  dsimp only at mem
  split at mem
  next decodes =>
    rcases mem_pair.mp mem with rfl | rfl
    · exact ⟨key, isKey⟩
    split at read
    · obtain ⟨value, isValue, -⟩ := ok_of_bind read
      exact ⟨value, isValue⟩
    next other =>
      rw [if_pos (decodes.resolve_left other)] at read
      obtain ⟨value, isValue, -⟩ := ok_of_bind read
      exact ⟨value, isValue⟩
  · rw [mem_singleton.mp mem]
    exact ⟨key, isKey⟩

theorem decodes_of_reads {pairs : List Text} {last : Query}
    (read : pairs.foldlM Query.read query = .ok last) (mem : text ∈ decodedFrom query pairs) :
    ∃ decoded, percentDecode text = .ok decoded := by
  induction pairs generalizing query with
  | nil => cases mem
  | cons pair later ih =>
    rw [foldlM_cons] at read
    obtain ⟨next, isNext, read⟩ := ok_of_bind read
    rw [decodedFrom, isNext] at mem
    rcases mem_append.mp mem with here | further
    · exact decodes_of_read isNext here
    · exact ih read further

section

variable {key : Text} (isKey : percentDecode (splitOnce '=' pair).1 = .ok key)
  (required : Required (toAsciiLowercase key))
include isKey required

/-- A required parameter is passed over like any other that is not known. -/
theorem read_required (query : Query) : query.read pair = .ok query := by
  have unknown := not_understood required
  simp only [Understood, mem_cons, not_mem_nil, or_false, not_or] at unknown
  unfold Query.read
  dsimp only
  rw [isKey, ok_bind, if_neg unknown.1, if_neg]
  · rfl
  · rintro (same | ⟨same, -⟩)
    · exact unknown.2.1 same
    · exact unknown.2.2 same

theorem readAll_required : readAll (earlier ++ pair :: later) = readAll (earlier ++ later) := by
  unfold readAll
  rw [foldlM_append, foldlM_append]
  congr 1
  funext query
  rw [foldlM_cons, read_required isKey required]
  rfl

end

/-- Decoders that know addresses only. -/
def addressOnly : Decoders :=
  let refuse : Text → Except ParseError LnTarget := fun _ => .error .unrecognised
  ⟨refuse, refuse, refuse, refuse, refuse, refuse, fun text => .ok (String.ofList text)⟩

/-- An accepted link is as it should be exactly if no text it decodes has a sign after a percent
sign and it has no required parameter.  Such a parameter can be added to any accepted link. -/
theorem accepted_link_strict_iff (decoders : Decoders) (depth : Nat) (text rest : Text)
    (target : LnTarget) (isLink : linkOf text = .ok (some rest))
    (accepted : (parseAt decoders (depth + 1) text).ending = .ok target) :
    (Strict rest ↔ (∀ text ∈ decodedTexts rest, ¬ ['%', '+'] <:+: text) ∧
      ∀ name ∈ names rest, ¬ Required name) ∧
    ∀ longer more earlier pair later key, linkOf longer = .ok (some more) →
      byteLen longer ≤ 16384 → addrPart more = addrPart rest →
      parameters rest = earlier ++ later → parameters more = earlier ++ pair :: later →
      percentDecode (splitOnce '=' pair).1 = .ok key → Required (toAsciiLowercase key) →
      (parseAt decoders (depth + 1) longer).ending = .ok target := by
  constructor
  · obtain ⟨query, read⟩ := readAll_of_accepted isLink accepted
    have exact' : ∀ text ∈ decodedTexts rest, (encoded text = true ↔ ¬ ['%', '+'] <:+: text) := by
      intro text mem
      obtain ⟨decoded, decodes⟩ := decodes_of_reads read mem
      exact encoded_iff decodes
    refine and_congr (forall₂_congr exact') (forall₂_congr fun name _ => ?_)
    exact ⟨fun known required => not_understood required (known required),
      fun absent required => absurd required absent⟩
  · intro longer more earlier pair later key isLonger short sameAddress fewer place isKey required
    have parsed := parseBip21_of_accepted isLink accepted
    rw [parseAt_link isLonger short]
    unfold parseBip21 at parsed ⊢
    rw [sameAddress, place, readAll_required isKey required, ← fewer]
    exact parsed

/-- A sign in a value that is not decoded does no harm. -/
theorem accepted_link_strict_iff_label :
    (parseAt addressOnly 2 "bitcoin:a?label=%+1&AMOUNT=%31".toList).ending =
        .ok (.onChain "a" (some 100000000)) ∧ Strict "a?label=%+1&AMOUNT=%31".toList := by
  have accepted : (parseAt addressOnly 2 "bitcoin:a?label=%+1&AMOUNT=%31".toList).ending =
      .ok (.onChain "a" (some 100000000)) := by decide +kernel
  have isLink : linkOf "bitcoin:a?label=%+1&AMOUNT=%31".toList =
      .ok (some "a?label=%+1&AMOUNT=%31".toList) := by decide +kernel
  have iff := (accepted_link_strict_iff addressOnly 1 _ _ _ isLink accepted).1
  refine ⟨accepted, iff.mpr ⟨?_, ?_⟩⟩
  · decide +kernel
  · unfold Required
    decide +kernel

/-- A sign counts as a hexadecimal digit, and a parameter that must be understood is
passed over like any other. -/
theorem accepted_link_malformed :
    (parseAt addressOnly 2 "bitcoin:a?%+1&req-x=1".toList).ending = .ok (.onChain "a" none) ∧
      linkOf "bitcoin:a?%+1&req-x=1".toList = .ok (some "a?%+1&req-x=1".toList) ∧
      decodedTexts "a?%+1&req-x=1".toList = ["%+1".toList, "req-x".toList] ∧
      encoded "%+1".toList = false ∧ "req-x".toList ∈ names "a?%+1&req-x=1".toList := by
  decide +kernel

/-! ## Amounts -/

theorem digitsValue_zeros (digits : Text) (zeros : Nat) :
    digitsValue (digits ++ replicate zeros '0') = digitsValue digits * 10 ^ zeros := by
  induction zeros with
  | zero => simp
  | succ zeros ih =>
    rw [replicate_succ', ← append_assoc, digitsValue, foldl_append]
    change 10 * digitsValue _ + 0 = _
    rw [ih]
    ring

/-- The number that digits write. -/
def number (digits : Text) : Nat :=
  Nat.ofDigits 10 (digits.reverse.map fun digit => digit.toNat - 48)

/-- A text that writes a number: digits, with a point among them or not. -/
def Writes (text : Text) (value : ℚ) : Prop :=
  ∃ whole frac, (text = whole ∧ frac = [] ∨ text = whole ++ '.' :: frac) ∧ whole ++ frac ≠ [] ∧
    (∀ digit ∈ whole ++ frac, digit.isDigit = true) ∧
    value = number whole + number frac / 10 ^ frac.length

theorem digitsValue_eq (digits : Text) : digitsValue digits = number digits := by
  induction digits using reverseRecOn with
  | nil => rfl
  | append_singleton digits digit ih =>
    rw [digitsValue, foldl_append]
    change 10 * digitsValue digits + _ = _
    rw [ih, number, number, reverse_append, reverse_singleton, singleton_append, map_cons,
      Nat.ofDigits_cons, Nat.add_comm]

theorem splitOnce_eq (mark : Char) (text : Text) :
    text = (splitOnce mark text).1 ∧ (splitOnce mark text).2 = [] ∨
      text = (splitOnce mark text).1 ++ mark :: (splitOnce mark text).2 := by
  unfold splitOnce
  have whole := takeWhile_append_dropWhile (p := (· ≠ mark)) (l := text)
  cases isRest : text.dropWhile (· ≠ mark) with
  | nil =>
    left
    rw [isRest, append_nil] at whole
    exact ⟨whole.symm, rfl⟩
  | cons first rest =>
    right
    have isMark : first = mark := by
      have stops := head?_dropWhile_not (· ≠ mark) text
      rw [isRest] at stops
      simpa using stops
    rw [isRest, isMark] at whole
    exact whole.symm

theorem eq_of_u64 {value sat : Nat} {fault : Fault} (read : orFail (u64 value) fault = .ok sat) :
    sat = value := by
  have held := some_of_orFail read
  unfold u64 at held
  split at held
  · exact (Option.some.inj held).symm
  · cases held

/-- What is accepted as an amount writes a number, and the satoshis are that number's. -/
theorem btcToSat_exact {sat : Nat} (read : btcToSat text = .ok sat) :
    Writes text (sat / 100000000) := by
  obtain ⟨wholeText, fracText, parts⟩ : ∃ whole frac, splitOnce '.' text = (whole, frac) :=
    ⟨_, _, rfl⟩
  have shape := splitOnce_eq '.' text
  unfold btcToSat at read
  rw [parts] at read shape
  obtain ⟨_, passed, read⟩ := ok_of_bind read
  obtain ⟨whole, isWhole, read⟩ := ok_of_bind read
  obtain ⟨frac, isFrac, read⟩ := ok_of_bind read
  obtain ⟨scaled, isScaled, read⟩ := ok_of_bind read
  obtain ⟨total, isTotal, read⟩ := ok_of_bind read
  obtain ⟨_, -, read⟩ := ok_of_bind read
  cases read
  have fine := not_of_refuseIf passed
  simp only [not_or, not_and, not_not, List.all_eq_true] at fine
  obtain ⟨some', digitsWhole, digitsFrac, shortFrac⟩ := fine
  refine ⟨wholeText, fracText, shape, ?_, ?_, ?_⟩
  · intro nothing
    obtain ⟨noWhole, noFrac⟩ := append_eq_nil_iff.mp nothing
    exact some' noWhole noFrac
  · intro digit mem
    rcases mem_append.mp mem with inWhole | inFrac
    · exact digitsWhole digit inWhole
    · exact digitsFrac digit inFrac
  · have short : fracText.length ≤ 8 := (length_le_byteLen _).trans (Nat.not_lt.mp shortFrac)
    have scale : (100000000 : ℚ) = 10 ^ fracText.length * 10 ^ (8 - fracText.length) := by
      rw [← pow_add, Nat.add_sub_cancel' short]
      norm_num
    rw [eq_of_u64 isTotal, eq_of_u64 isScaled, eq_of_u64 isWhole, eq_of_u64 isFrac,
      digitsValue_zeros, digitsValue_eq, digitsValue_eq]
    push_cast
    rw [scale]
    field_simp

def IsAmount (pair : Text) : Prop :=
  ∃ key, percentDecode (splitOnce '=' pair).1 = .ok key ∧ toAsciiLowercase key = "amount".toList

theorem read_amount {next : Query} (read : query.read pair = .ok next) (isAmount : IsAmount pair) :
    ∃ value sat, percentDecode (splitOnce '=' pair).2 = .ok value ∧ btcToSat value = .ok sat ∧
      next.amountSat = some sat := by
  obtain ⟨key, isKey, named⟩ := isAmount
  obtain ⟨key', isKey', read⟩ := ok_of_bind read
  cases isKey.symm.trans isKey'
  rw [if_pos named] at read
  obtain ⟨value, isValue, read⟩ := ok_of_bind read
  obtain ⟨sat, isSat, read⟩ := ok_of_bind read
  cases read
  exact ⟨value, sat, isValue, isSat, rfl⟩

theorem read_other {next : Query} (read : query.read pair = .ok next) (other : ¬ IsAmount pair) :
    next.amountSat = query.amountSat := by
  obtain ⟨key, isKey, read⟩ := ok_of_bind read
  rw [if_neg fun named => other ⟨key, isKey, named⟩] at read
  split at read
  · obtain ⟨value, -, read⟩ := ok_of_bind read
    cases read
    rfl
  · cases read
    rfl

theorem reads_other {last : Query} (others : ∀ pair ∈ later, ¬ IsAmount pair)
    (read : later.foldlM Query.read query = .ok last) : last.amountSat = query.amountSat := by
  induction later generalizing query with
  | nil =>
    cases read
    rfl
  | cons pair rest ih =>
    rw [foldlM_cons] at read
    obtain ⟨next, isNext, read⟩ := ok_of_bind read
    rw [ih (fun other mem => others other (mem_cons_of_mem _ mem)) read,
      read_other isNext (others pair mem_cons_self)]

/-- The amount beside an on-chain address. -/
def onChainAmount : LnTarget → Option Nat
  | .onChain _ amountSat | .unified _ amountSat _ => amountSat
  | _ => none

theorem onChainAmount_of_accepted {parse : Text → Run LnTarget}
    (parsed : (parseBip21 decoders parse rest).ending = .ok target)
    (withAddress : addrPart rest ≠ []) (read : readAll (parameters rest) = .ok query) :
    onChainAmount target = query.amountSat := by
  obtain ⟨query', read', parsed⟩ := ok_of_bind_ending parsed
  cases read.symm.trans read'
  obtain ⟨lightning, -, parsed⟩ := ok_of_bind_ending parsed
  rw [if_neg withAddress] at parsed
  obtain ⟨address, -, parsed⟩ := ok_of_bind_ending parsed
  cases lightning <;> cases parsed <;> rfl

/-- `parse_at` returns and calls itself at most once, and the amount of a link with an address is
the number its last amount parameter writes. -/
theorem links_read_exactly (decoders : Decoders) (depth : Nat) (text : Text) :
    let run := parseAt decoders (depth + 2) text
    Returns run.ending ∧ run.calls.length ≤ 1 ∧
    ∀ rest target earlier pair later, linkOf text = .ok (some rest) → run.ending = .ok target →
      addrPart rest ≠ [] → parameters rest = earlier ++ pair :: later → IsAmount pair →
      (∀ other ∈ later, ¬ IsAmount other) → ∃ value amount,
        percentDecode (splitOnce '=' pair).2 = .ok value ∧ onChainAmount target = some amount ∧
        Writes value (amount / 100000000) := by
  have within := within_one_call decoders depth text
  refine ⟨within.returns, within.few, ?_⟩
  intro rest target earlier pair later isLink accepted withAddress place isAmount others
  have parsed := parseBip21_of_accepted isLink accepted
  obtain ⟨query, read⟩ := readAll_of_accepted isLink accepted
  rw [onChainAmount_of_accepted parsed withAddress read]
  rw [place] at read
  obtain ⟨_, next, _, isNext, read⟩ := read_at read
  obtain ⟨value, sat, isValue, isSat, amount⟩ := read_amount isNext isAmount
  exact ⟨value, sat, isValue, (reads_other others read).trans amount, btcToSat_exact isSat⟩

example : (parseAt addressOnly 2 "bitcoin:a?amount=7&amount=%31.5".toList).ending =
    .ok (.onChain "a" (some 150000000)) := by
  decide +kernel

end Fortis.Lightning.Links
