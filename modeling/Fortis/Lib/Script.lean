import Mathlib

/-!
# Bitcoin script under the pay-to-witness-script-hash rules

Byte-level scripts, their parser, and the stack machine with its condition stack, as consensus runs
a version 0 witness script: any true value opens a branch, and a successful run leaves exactly one
true item.  Opcodes outside the ones listed make a script fail.

`Code` is the structured form of a script.  Running the flattened code on the machine is running
the code, so a script is analysed branch by branch and never through the condition stack.
-/

namespace Fortis.Lib.Script

open List

abbrev Item := List UInt8

/-! ## Numbers and truth -/

/-- Little-endian digits without leading zeros, at most `width` of them. -/
def leBytes : Nat -> Nat -> Item
  | 0, _ => []
  | width + 1, value =>
    if value = 0 then [] else UInt8.ofNat (value % 256) :: leBytes width (value / 256)

def leValue : Item -> Nat
  | [] => 0
  | byte :: rest => byte.toNat + 256 * leValue rest

/-- The top bit of the last byte is the sign. -/
def signed (digits : Item) : Bool := digits.getLast?.any (128 <= ·)

/-- The minimal encoding of a non-negative script number. -/
def encodeNum (value : Nat) : Item :=
  let digits := leBytes 8 value
  if signed digits then digits ++ [0] else digits

def decodeNum (limit : Nat) (operand : Item) : Option Int :=
  if limit < operand.length then none
  else if signed operand then
    some (128 * 256 ^ (operand.length - 1) - (leValue operand : Int))
  else some (leValue operand)

/-- Any non-zero item is true, but for negative zero. -/
def castToBool : Item -> Bool
  | [] => false
  | [last] => last ≠ 0 && last ≠ 128
  | byte :: rest => byte ≠ 0 || castToBool rest

def ofBool (value : Bool) : Item := if value then [1] else []

@[simp]
theorem castToBool_ofBool (value : Bool) : castToBool (ofBool value) = value := by
  cases value <;> rfl

variable {value width : Nat}

theorem leValue_leBytes (fits : value < 256 ^ width) : leValue (leBytes width value) = value := by
  induction width generalizing value with
  | zero =>
    rw [pow_zero] at fits
    simp [leBytes, leValue, Nat.lt_one_iff.mp fits]
  | succ width ih =>
    unfold leBytes
    split
    next zero => simp [leValue, zero]
    next =>
    have smaller : value / 256 < 256 ^ width := by
      rw [pow_succ] at fits
      exact Nat.div_lt_of_lt_mul (by rwa [Nat.mul_comm])
    have digit : (UInt8.ofNat (value % 256)).toNat = value % 256 := by
      simp
    simp only [leValue, digit, ih smaller]
    omega

variable {size : Nat}

theorem length_leBytes_le (fits : value < 256 ^ size) : (leBytes width value).length <= size := by
  induction width generalizing size value with
  | zero => exact Nat.zero_le _
  | succ width ih =>
    unfold leBytes
    split
    · exact Nat.zero_le _
    next positive =>
    rcases size with _ | size
    · rw [pow_zero] at fits
      exact absurd (Nat.lt_one_iff.mp fits) positive
    have smaller : value / 256 < 256 ^ size := by
      rw [pow_succ] at fits
      exact Nat.div_lt_of_lt_mul (by rwa [Nat.mul_comm])
    exact Nat.succ_le_succ (ih smaller)

theorem leValue_append_zero (digits : Item) : leValue (digits ++ [0]) = leValue digits := by
  induction digits with
  | nil => rfl
  | cons byte rest ih => simp [leValue, ih]

theorem signed_append_zero (digits : Item) : signed (digits ++ [0]) = false := by
  simp [signed]

/-- A number below `2 ^ 32` is read back from its encoding as a five-byte operand. -/
theorem decodeNum_encodeNum (small : value < 4294967296) :
    decodeNum 5 (encodeNum value) = some (value : Int) := by
  have exact' : leValue (leBytes 8 value) = value :=
    leValue_leBytes (Nat.lt_of_lt_of_le small (by decide))
  have short : (leBytes 8 value).length <= 4 := length_leBytes_le (by simpa using small)
  unfold decodeNum encodeNum
  by_cases sign : signed (leBytes 8 value) = true
  · have length : ¬ 5 < (leBytes 8 value ++ [0]).length := by
      rw [length_append, length_singleton]
      omega
    rw [if_pos sign, if_neg length, signed_append_zero, leValue_append_zero, exact']
    rfl
  have length : ¬ 5 < (leBytes 8 value).length := by omega
  rw [if_neg sign, if_neg length, if_neg sign, exact']

theorem encodeNum_injective {first second : Nat} (small : first < 4294967296)
    (small' : second < 4294967296) (same : encodeNum first = encodeNum second) :
      first = second := by
  have decoded := decodeNum_encodeNum small
  rw [same, decodeNum_encodeNum small'] at decoded
  exact (Int.ofNat_inj.mp (Option.some.inj decoded)).symm

theorem length_encodeNum_le (small : value < 4294967296) : (encodeNum value).length <= 5 := by
  have short : (leBytes 8 value).length <= 4 := length_leBytes_le (by simpa using small)
  unfold encodeNum
  dsimp only
  split
  · rw [length_append, length_singleton]
    omega
  · omega

inductive Op
  | push (data : Item)
  | verify
  | drop
  | dup
  | size
  | equal
  | equalVerify
  | sha256
  | hash160
  | checkSig
  | checkSigVerify
  | checkLockTimeVerify
  deriving DecidableEq

inductive Instr
  | op (head : Op)
  | branch
  | branchNot
  | otherwise
  | endBranch
  deriving DecidableEq

structure Spend where
  (sha256 hash160 : Item -> Item)
  checkSig : Item -> Item -> Bool
  (lockTime sequence : Nat)

def lockTimeThreshold : Nat := 500000000
def finalSequence : Nat := 4294967295
def maxItem : Nat := 520
def maxStack : Nat := 1000

def Spend.reached (spend : Spend) (wanted : Nat) : Bool :=
  (decide (wanted < lockTimeThreshold) == decide (spend.lockTime < lockTimeThreshold)) &&
    (wanted <= spend.lockTime) && (spend.sequence ≠ finalSequence)

variable {spend : Spend}

theorem Spend.reached_iff {wanted : Nat} : spend.reached wanted = true ↔
      wanted <= spend.lockTime /\ (wanted < lockTimeThreshold ↔
        spend.lockTime < lockTimeThreshold) /\ spend.sequence ≠ finalSequence := by
  simp [Spend.reached, and_assoc, and_left_comm]

/-- One executed operation; the stack's top is its head. -/
def step (spend : Spend) : Op -> List Item -> Option (List Item)
  | .push data, stack => if data.length <= maxItem then some (data :: stack) else none
  | .verify, top :: rest => if castToBool top then some rest else none
  | .drop, _ :: rest => some rest
  | .dup, top :: rest => some (top :: top :: rest)
  | .size, top :: rest => some (encodeNum top.length :: top :: rest)
  | .equal, first :: second :: rest => some (ofBool (first = second) :: rest)
  | .equalVerify, first :: second :: rest => if first = second then some rest else none
  | .sha256, top :: rest => some (spend.sha256 top :: rest)
  | .hash160, top :: rest => some (spend.hash160 top :: rest)
  | .checkSig, key :: sig :: rest => some (ofBool (spend.checkSig sig key) :: rest)
  | .checkSigVerify, key :: sig :: rest => if spend.checkSig sig key then some rest else none
  | .checkLockTimeVerify, top :: rest =>
    match decodeNum 5 top with
    | some (.ofNat wanted) => if spend.reached wanted then some (top :: rest) else none
    | _ => none
  | _, _ => none

def exec (spend : Spend) (op : Op) (stack : List Item) : Option (List Item) :=
  (step spend op stack).filter (·.length <= maxStack)

/-! ## The machine -/

/-- Run the instructions; operations in a branch not taken are skipped. -/
def eval (spend : Spend) : List Instr -> List Item -> List Bool -> Option (List Item)
  | [], stack, conditions => if conditions = [] then some stack else none
  | .op head :: rest, stack, conditions =>
    if conditions.all id then
      (exec spend head stack).bind fun after => eval spend rest after conditions
    else eval spend rest stack conditions
  | .branch :: rest, stack, conditions =>
    if conditions.all id then
      match stack with
      | top :: below => eval spend rest below (castToBool top :: conditions)
      | [] => none
    else eval spend rest stack (false :: conditions)
  | .branchNot :: rest, stack, conditions =>
    if conditions.all id then
      match stack with
      | top :: below => eval spend rest below ((!castToBool top) :: conditions)
      | [] => none
    else eval spend rest stack (false :: conditions)
  | .otherwise :: rest, stack, conditions =>
    match conditions with
    | inner :: outer => eval spend rest stack ((!inner) :: outer)
    | [] => none
  | .endBranch :: rest, stack, conditions =>
    match conditions with
    | _ :: outer => eval spend rest stack outer
    | [] => none

inductive Code
  | done
  | op (head : Op) (rest : Code)
  | branch (taken untaken rest : Code)

variable {rest : Code} {digest : Item} {conditions : List Bool} {stack : List Item}

namespace Code

def flatten : Code -> List Instr
  | done => []
  | op head rest => .op head :: rest.flatten
  | branch taken untaken rest =>
    .branch :: (taken.flatten ++ .otherwise :: (untaken.flatten ++ .endBranch :: rest.flatten))

def run (spend : Spend) : Code -> List Item -> Option (List Item)
  | done, stack => some stack
  | op head rest, stack => (exec spend head stack).bind (rest.run spend)
  | branch taken untaken rest, stack =>
    match stack with
    | [] => none
    | top :: below =>
      ((if castToBool top then taken.run spend below else untaken.run spend below)).bind
        (rest.run spend)

theorem eval_flatten_skipped (spend : Spend) (code : Code) (rest : List Instr)
    (stack : List Item) (dead : conditions.all id = false) :
    eval spend (code.flatten ++ rest) stack conditions = eval spend rest stack conditions := by
  induction code generalizing rest stack conditions with
  | done => rfl
  | op head next ih => simp [flatten, eval, dead, ih rest stack dead]
  | branch taken untaken next ihTaken ihUntaken ihNext =>
    have deadInner : (false :: conditions).all id = false := rfl
    have deadOuter : (true :: conditions).all id = false := by simpa using dead
    simp only [flatten, cons_append, append_assoc, eval, dead]
    rw [ihTaken _ _ deadInner]
    simp only [eval, Bool.not_false]
    rw [ihUntaken _ _ deadOuter]
    exact ihNext rest stack dead

theorem eval_flatten (spend : Spend) (code : Code) (rest : List Instr) (stack : List Item)
    (live : conditions.all id = true) : eval spend (code.flatten ++ rest) stack conditions =
      (code.run spend stack).bind fun after => eval spend rest after conditions := by
  induction code generalizing rest stack conditions with
  | done => rfl
  | op head next ih =>
    simp only [flatten, cons_append, eval, live, if_true, run, Option.bind_assoc]
    exact congrArg _ (funext fun after => ih rest after live)
  | branch taken untaken next ihTaken ihUntaken ihNext =>
    simp only [flatten, cons_append, append_assoc, eval, live, if_true, run]
    rcases stack with _ | ⟨top, below⟩
    · rfl
    cases truth : castToBool top with
    | true =>
      have liveInner : (true :: conditions).all id = true := by simpa using live
      have deadInner : (false :: conditions).all id = false := rfl
      simp only [truth, if_true, Option.bind_assoc]
      rw [ihTaken _ _ liveInner]
      refine congrArg _ (funext fun after => ?_)
      simp only [eval, Bool.not_true]
      rw [eval_flatten_skipped spend untaken _ _ deadInner]
      exact ihNext rest after live
    | false =>
      have liveInner : (true :: conditions).all id = true := by simpa using live
      have deadInner : (false :: conditions).all id = false := rfl
      simp only [truth, Bool.false_eq_true, if_false, Option.bind_assoc]
      rw [eval_flatten_skipped spend taken _ _ deadInner]
      simp only [eval, Bool.not_false]
      rw [ihUntaken _ _ liveInner]
      refine congrArg _ (funext fun after => ?_)
      simp only [eval]
      exact ihNext rest after live

theorem eval_flatten_nil (spend : Spend) (code : Code) (stack : List Item) :
    eval spend code.flatten stack [] = code.run spend stack := by
  have whole := eval_flatten spend code [] stack (show [].all id = true from rfl)
  rw [append_nil] at whole
  rw [whole]
  cases code.run spend stack <;> rfl

def append : Code -> Code -> Code
  | done, later => later
  | op head rest, later => op head (rest.append later)
  | branch taken untaken rest, later => branch taken untaken (rest.append later)

theorem run_append (spend : Spend) (code later : Code) (stack : List Item) :
    (code.append later).run spend stack = (code.run spend stack).bind (later.run spend) := by
  induction code generalizing stack with
  | done => rfl
  | op head rest ih => simp only [append, run, Option.bind_assoc, ih]
  | branch taken untaken rest _ _ ih =>
    cases stack with
    | nil => rfl
    | cons top below => simp only [append, run, Option.bind_assoc, ih]

def Succeeds (spend : Spend) (code : Code) (stack : List Item) : Prop :=
  ∃ top, code.run spend stack = some [top] /\ castToBool top = true

/-- A branch joined with what follows it decides a success. -/
theorem succeeds_branch {taken untaken : Code} :
      Succeeds spend (branch taken untaken rest) stack ↔ ∃ top below, stack = top :: below /\
        if castToBool top then Succeeds spend (taken.append rest) below
        else Succeeds spend (untaken.append rest) below := by
  cases stack with
  | nil => simp [Succeeds, run]
  | cons top below => cases truth : castToBool top <;> simp [Succeeds, run, run_append, truth]

def keyHash (digest : Item) : Code :=
  op .dup <| op .hash160 <| op (.push digest) <| op .equalVerify <| op .checkSig done

def preimage (size : Nat) (digest : Item) (rest : Code) : Code :=
  op .size <| op (.push (encodeNum size)) <| op .equalVerify <| op .sha256 <|
    op (.push digest) <| op .equalVerify rest

def after (time : Nat) (rest : Code) : Code :=
  op (.push (encodeNum time)) <| op .checkLockTimeVerify <| op .drop rest

def bothKeys (first second : Item) : Code :=
  op (.push first) <| op .checkSigVerify <| op (.push second) <| op .checkSig done

theorem exec_eq_some_iff {op : Op} {left : List Item} :
    exec spend op stack = some left ↔ step spend op stack = some left /\
      left.length <= maxStack := by
  simp [exec, Option.filter_eq_some_iff]

theorem succeeds_op {head : Op} : Succeeds spend (op head rest) stack ↔
      ∃ left, step spend head stack = some left /\ left.length <= maxStack /\
        Succeeds spend rest left := by
  simp only [Succeeds, run, Option.bind_eq_some_iff, exec_eq_some_iff]
  constructor
  · rintro ⟨top, ⟨left, ⟨stepped, fits⟩, ran⟩, truth⟩
    exact ⟨left, stepped, fits, top, ran, truth⟩
  rintro ⟨left, stepped, fits, top, ran, truth⟩
  exact ⟨top, ⟨left, ⟨stepped, fits⟩, ran⟩, truth⟩

theorem succeeds_done :
    Succeeds spend done stack ↔ ∃ top, stack = [top] /\ castToBool top = true := by
  simp [Succeeds, run]

theorem succeeds_keyHash (short : digest.length <= maxItem) (stack : List Item) :
    Succeeds spend (keyHash digest) stack ↔
      ∃ key sig, stack = [key, sig] /\ digest = spend.hash160 key /\
        spend.checkSig sig key = true := by
  match stack with
  | [] => simp [keyHash, succeeds_op, step]
  | [key] => simp [keyHash, succeeds_op, step]
  | [key, sig] => simp [keyHash, succeeds_op, succeeds_done, step, short, maxStack]
  | key :: sig :: third :: rest => simp [keyHash, succeeds_op, succeeds_done, step]

theorem succeeds_preimage (small : size < 4294967296) (short : digest.length <= maxItem) :
    Succeeds spend (preimage size digest rest) stack ↔
      ∃ secret below, stack = secret :: below /\ below.length + 3 <= maxStack /\
        encodeNum size = encodeNum secret.length /\ digest = spend.sha256 secret /\
          Succeeds spend rest below := by
  have width := length_encodeNum_le small
  have fits : (encodeNum size).length <= maxItem := Nat.le_trans width (by decide)
  rcases stack with _ | ⟨secret, below⟩
  · simp [preimage, succeeds_op, step]
  simp only [preimage, succeeds_op, step, Option.some.injEq, fits, if_true, short,
    exists_eq_left', length_cons, Option.ite_none_right_eq_some, ↓existsAndEq, and_true,
    and_self_left, List.cons.injEq]
  constructor
  · rintro ⟨_, room, sized, _, _, hashed, _, later⟩
    exact ⟨room, sized, hashed, later⟩
  rintro ⟨room, sized, hashed, later⟩
  exact ⟨by omega, room, sized, by omega, by omega, hashed, by omega, later⟩

theorem succeeds_after {time : Nat} (small : time < 4294967296) :
    Succeeds spend (after time rest) stack ↔
      stack.length + 1 <= maxStack /\ spend.reached time = true /\ Succeeds spend rest stack := by
  have width := length_encodeNum_le small
  have fits : (encodeNum time).length <= maxItem := Nat.le_trans width (by decide)
  simp only [after, succeeds_op, step, fits, if_true, Option.some.injEq, exists_eq_left',
    length_cons, decodeNum_encodeNum small, Option.ite_none_right_eq_some, ↓existsAndEq,
    and_true]
  constructor
  · rintro ⟨room, reached, _, _, later⟩
    exact ⟨room, reached, later⟩
  rintro ⟨room, reached, later⟩
  exact ⟨room, reached, room, Nat.le_of_succ_le room, later⟩

theorem succeeds_bothKeys {first second : Item}
    (short : first.length <= maxItem) (short' : second.length <= maxItem) (stack : List Item) :
    Succeeds spend (bothKeys first second) stack ↔
      ∃ sig sig', stack = [sig, sig'] /\ spend.checkSig sig first = true /\
        spend.checkSig sig' second = true := by
  match stack with
  | [] => simp [bothKeys, succeeds_op, step]
  | [sig] => simp [bothKeys, succeeds_op, step]
  | [sig, sig'] => simp [bothKeys, succeeds_op, succeeds_done, step, short, short', maxStack]
  | sig :: sig' :: third :: rest => simp [bothKeys, succeeds_op, succeeds_done, step]

end Code

def pushByte : UInt8 := 80

def plainByte : Instr -> UInt8
  | .branch => 99
  | .branchNot => 100
  | .otherwise => 103
  | .endBranch => 104
  | .op .verify => 105
  | .op .drop => 117
  | .op .dup => 118
  | .op .size => 130
  | .op .equal => 135
  | .op .equalVerify => 136
  | .op .sha256 => 168
  | .op .hash160 => 169
  | .op .checkSig => 172
  | .op .checkSigVerify => 173
  | .op .checkLockTimeVerify => 177
  | .op (.push _) => 0

def plainInstr (byte : UInt8) : Option Instr :=
  [Instr.branch, .branchNot, .otherwise, .endBranch, .op .verify, .op .drop, .op .dup, .op .size,
    .op .equal, .op .equalVerify, .op .sha256, .op .hash160, .op .checkSig, .op .checkSigVerify,
    .op .checkLockTimeVerify].find? (plainByte · == byte)

def takeData (count : Nat) (bytes : Item) : Option (Item × Item) :=
  if count <= bytes.length then some (bytes.take count, bytes.drop count) else none

def nextInstr : Item -> Option (Instr × Item)
  | [] => none
  | code :: rest =>
    if code <= 75 then
      (takeData code.toNat rest).map fun (data, after) => (.op (.push data), after)
    else if code = 76 then do
      let (size, after) <- takeData 1 rest
      (takeData (leValue size) after).map fun (data, left) => (.op (.push data), left)
    else if code = 77 then do
      let (size, after) <- takeData 2 rest
      (takeData (leValue size) after).map fun (data, left) => (.op (.push data), left)
    else if code = 78 then do
      let (size, after) <- takeData 4 rest
      (takeData (leValue size) after).map fun (data, left) => (.op (.push data), left)
    else if code = 79 then some (.op (.push [129]), rest)
    else if 81 <= code /\ code <= 96 then some (.op (.push [code - pushByte]), rest)
    else (plainInstr code).map fun instr => (instr, rest)

def parse : Nat -> Item -> Option (List Instr)
  | _, [] => some []
  | 0, _ :: _ => none
  | fuel + 1, bytes => do
    let (instr, rest) <- nextInstr bytes
    return instr :: (<- parse fuel rest)

/-- What an iterator over a script's bytes yields: pushed data, or the byte of any other
opcode, known or not. -/
inductive Scanned
  | data (bytes : Item)
  | code (byte : UInt8)
  deriving DecidableEq

/-- The instructions of a script up to its end or to a push that is cut short. -/
def scan : Nat -> Item -> List Scanned
  | 0, _ => []
  | _ + 1, [] => []
  | fuel + 1, byte :: rest =>
    let pushed (taken : Option (Item × Item)) : List Scanned :=
      match taken with
      | some (data, after) => .data data :: scan fuel after
      | none => []
    let sized (width : Nat) : List Scanned :=
      pushed ((takeData width rest).bind fun (size, after) => takeData (leValue size) after)
    if byte <= 75 then pushed (takeData byte.toNat rest)
    else if byte = 76 then sized 1
    else if byte = 77 then sized 2
    else if byte = 78 then sized 4
    else .code byte :: scan fuel rest

/-! ## Building -/

/-- One call of a script builder. -/
inductive Token
  | plain (instr : Instr)
  | slice (data : Item)
  | int (value : Nat)

/-- Data with the shortest length prefix. -/
def pushSlice (data : Item) : Item :=
  if data.length < 76 then UInt8.ofNat data.length :: data
  else if data.length < 256 then 76 :: UInt8.ofNat data.length :: data
  else 77 :: UInt8.ofNat (data.length % 256) :: UInt8.ofNat (data.length / 256) :: data

def Token.bytes : Token -> Item
  | plain instr => [plainByte instr]
  | slice data => pushSlice data
  | int value =>
    if 1 <= value /\ value <= 16 then [pushByte + UInt8.ofNat value]
    else pushSlice (encodeNum value)

def Token.instr : Token -> Instr
  | plain instr => instr
  | slice data => .op (.push data)
  | int value => .op (.push (encodeNum value))

def build (tokens : List Token) : Item := tokens.flatMap Token.bytes

theorem build_cons (token : Token) (rest : List Token) :
    build (token :: rest) = token.bytes ++ build rest := flatMap_cons

/-- A token whose bytes parse back to it: no bare push, no data over the direct
length prefix. -/
def Token.Direct : Token -> Prop
  | plain instr => ∀ data, instr ≠ .op (.push data)
  | slice data => data.length < 76
  | int value => value < 4294967296

theorem plainInstr_plainByte {instr : Instr} (bare : ∀ data, instr ≠ .op (.push data)) :
    plainInstr (plainByte instr) = some instr := by
  cases instr with
  | op head =>
    cases head with
    | push data => exact absurd rfl (bare data)
    | _ => decide
  | _ => decide

theorem nextInstr_pushSlice {data : Item} (short : data.length < 76) (rest : Item) :
    nextInstr (pushSlice data ++ rest) = some (.op (.push data), rest) := by
  have size : (UInt8.ofNat data.length).toNat = data.length :=
    UInt8.toNat_ofNat_of_lt (by change data.length < 256; omega)
  have direct : UInt8.ofNat data.length <= 75 := by
    rw [UInt8.le_iff_toNat_le, size]
    change data.length <= 75
    omega
  rw [pushSlice, if_pos short, cons_append, nextInstr, if_pos direct, size, takeData,
    if_pos (by simp)]
  simp

theorem encodeNum_small (low : 1 <= value) (high : value <= 16) :
    encodeNum value = [UInt8.ofNat value] := by
  have each : ∀ digit : Fin 17, 1 <= digit.val ->
    encodeNum digit.val = [UInt8.ofNat digit.val] := by
    decide
  exact each ⟨value, by omega⟩ low

theorem nextInstr_small (low : 1 <= value) (high : value <= 16) (rest : Item) :
    nextInstr ((pushByte + UInt8.ofNat value) :: rest) =
      some (.op (.push [UInt8.ofNat value]), rest) := by
  have each : ∀ digit : Fin 17, 1 <= digit.val -> ∀ tail : Item,
      nextInstr ((pushByte + UInt8.ofNat digit.val) :: tail) =
        some (.op (.push [UInt8.ofNat digit.val]), tail) := by
    intro digit positive tail
    have byte : ¬ (pushByte + UInt8.ofNat digit.val <= 75) /\
        pushByte + UInt8.ofNat digit.val ≠ 76 /\ pushByte + UInt8.ofNat digit.val ≠ 77 /\
        pushByte + UInt8.ofNat digit.val ≠ 78 /\ pushByte + UInt8.ofNat digit.val ≠ 79 /\
        (81 <= pushByte + UInt8.ofNat digit.val /\ pushByte + UInt8.ofNat digit.val <= 96) /\
        pushByte + UInt8.ofNat digit.val - pushByte = UInt8.ofNat digit.val := by
      revert digit
      decide
    obtain ⟨large, not76, not77, not78, not79, small, value⟩ := byte
    simp only [nextInstr, if_neg large, if_neg not76, if_neg not77, if_neg not78, if_neg not79,
      if_pos small, value]
  exact each ⟨value, by omega⟩ low rest

variable {token : Token}

theorem nextInstr_token (direct : token.Direct) (rest : Item) :
    nextInstr (token.bytes ++ rest) = some (token.instr, rest) := by
  cases token with
  | plain instr =>
    have back := plainInstr_plainByte direct
    have outside : ¬ (plainByte instr <= 75) /\ plainByte instr ≠ 76 /\ plainByte instr ≠ 77 /\
        plainByte instr ≠ 78 /\ plainByte instr ≠ 79 /\
        ¬ (81 <= plainByte instr /\ plainByte instr <= 96) := by
      cases instr with
      | op head =>
        cases head with
        | push data => exact absurd rfl (direct data)
        | _ => decide
      | _ => decide
    obtain ⟨large, not76, not77, not78, not79, notSmall⟩ := outside
    simp only [Token.bytes, Token.instr, cons_append, nil_append, nextInstr,
      if_neg large, if_neg not76, if_neg not77, if_neg not78, if_neg not79, if_neg notSmall,
      back, Option.map_some]
  | slice data => exact nextInstr_pushSlice direct rest
  | int value =>
    simp only [Token.bytes, Token.instr]
    split
    next small =>
      rw [encodeNum_small small.1 small.2]
      exact nextInstr_small small.1 small.2 rest
    · have short := length_encodeNum_le (show value < 4294967296 from direct)
      exact nextInstr_pushSlice (by omega) rest

theorem token_bytes_ne_nil (token : Token) : token.bytes ≠ [] := by
  cases token with
  | plain instr => simp [Token.bytes]
  | slice data =>
    simp only [Token.bytes, pushSlice]
    split
    · simp
    · split <;> simp
  | int value =>
    simp only [Token.bytes, pushSlice]
    split
    · simp
    split
    · simp
    · split <;> simp

variable {tokens : List Token}

/-- Parsing a built script gives the builder's instructions back. -/
theorem parse_build (direct : ∀ token ∈ tokens, token.Direct) {fuel : Nat}
    (enough : tokens.length <= fuel) :
      parse fuel (build tokens) = some (tokens.map Token.instr) := by
  induction tokens generalizing fuel with
  | nil => cases fuel <;> rfl
  | cons token rest ih =>
    obtain ⟨fuel, rfl⟩ : ∃ less, fuel = less + 1 := ⟨fuel - 1, by
      have positive : rest.length + 1 <= fuel := enough
      omega⟩
    have front := nextInstr_token (direct token mem_cons_self) (build rest)
    have later := ih (fun other mem => direct other (mem_cons_of_mem token mem))
      (Nat.le_of_succ_le_succ enough)
    rw [build_cons]
    rcases shape : token.bytes ++ build rest with _ | ⟨byte, tail⟩
    · exact absurd (append_eq_nil_iff.mp shape).1 (token_bytes_ne_nil token)
    rw [shape] at front
    simp [parse, front, later]

theorem length_le_length_build (tokens : List Token) : tokens.length <= (build tokens).length := by
  induction tokens with
  | nil => exact le_rfl
  | cons token rest ih =>
    have positive := length_pos_iff.mpr (token_bytes_ne_nil token)
    rw [build_cons, length_append, length_cons]
    omega

/-- Scripts of the same bytes were built by calls of the same meaning. -/
theorem build_injective {tokens' : List Token} (direct : ∀ token ∈ tokens, token.Direct)
    (direct' : ∀ token ∈ tokens', token.Direct) (same : build tokens = build tokens') :
    tokens.map Token.instr = tokens'.map Token.instr := by
  have parsed := parse_build direct (Nat.le_max_left tokens.length tokens'.length)
  have parsed' := parse_build direct' (Nat.le_max_right tokens.length tokens'.length)
  rw [same, parsed'] at parsed
  exact (Option.some.inj parsed).symm

theorem length_token_bytes_le (direct : token.Direct) : token.bytes.length <= 76 := by
  have slice {data : Item} (short : data.length < 76) : (pushSlice data).length <= 76 := by
    rw [pushSlice, if_pos short, length_cons]
    omega
  cases token with
  | plain instr => exact Nat.succ_le_of_lt (by decide : 0 < 76)
  | slice data => exact slice direct
  | int value =>
    have short := length_encodeNum_le (show value < 4294967296 from direct)
    simp only [Token.bytes]
    split
    · exact Nat.succ_le_of_lt (by decide : 0 < 76)
    · exact slice (by omega)

theorem length_build_le (direct : ∀ token ∈ tokens, token.Direct) :
    (build tokens).length <= 76 * tokens.length := by
  induction tokens with
  | nil => exact le_rfl
  | cons token rest ih =>
    have front := length_token_bytes_le (direct token mem_cons_self)
    have later := ih fun other mem => direct other (mem_cons_of_mem token mem)
    rw [build_cons, length_append, length_cons]
    omega

def maxScript : Nat := 10000
def maxOps : Nat := 201

def counted : Instr -> Bool
  | .op (.push _) => false
  | _ => true

def runScript (spend : Spend) (script : Item) (stack : List Item) : Bool :=
  script.length <= maxScript && stack.all (·.length <= maxItem) && stack.length <= maxStack &&
    match parse script.length script with
    | none => false
    | some instrs =>
      (instrs.filter counted).length <= maxOps &&
        match eval spend instrs stack [] with
        | some [top] => castToBool top
        | _ => false

/-- The witness's last item is the script; it must hash to the program, and the
items before it are its stack, the last on top. -/
def accepts (spend : Spend) (program : Item) (witness : List Item) : Bool :=
  match witness.reverse with
  | [] => false
  | script :: stack => spend.sha256 script == program && runScript spend script stack

theorem accepts_iff {program : Item} {witness : List Item} : accepts spend program witness = true ↔
      ∃ script stack, witness = stack.reverse ++ [script] /\ spend.sha256 script = program /\
        runScript spend script stack = true := by
  unfold accepts
  rcases shape : witness.reverse with _ | ⟨script, stack⟩
  · rw [reverse_eq_nil_iff] at shape
    simp [shape]
  have whole : witness = stack.reverse ++ [script] := by
    rw [<- reverse_reverse witness, shape, reverse_cons]
  simp only [Bool.and_eq_true, beq_iff_eq]
  constructor
  · rintro ⟨hashed, ran⟩
    exact ⟨script, stack, whole, hashed, ran⟩
  rintro ⟨script', stack', whole', hashed, ran⟩
  have same : script' :: stack' = script :: stack := by
    rw [<- shape, whole', reverse_append, reverse_reverse]
    rfl
  cases same
  exact ⟨hashed, ran⟩

/-- A script built from the tokens of a code runs as the code. -/
theorem runScript_build {code : Code}
    (direct : ∀ token ∈ tokens, token.Direct) (structured : tokens.map Token.instr = code.flatten)
    (short : tokens.length <= 100) (stack : List Item) :
    runScript spend (build tokens) stack = true ↔
      (∀ item ∈ stack, item.length <= maxItem) /\ stack.length <= maxStack /\
        code.Succeeds spend stack := by
  have small : (build tokens).length <= maxScript :=
    Nat.le_trans (length_build_le direct)
      (Nat.le_trans (Nat.mul_le_mul_left 76 short) (by decide : 76 * 100 <= 10000))
  have few : (code.flatten.filter counted).length <= maxOps := by
    rw [<- structured]
    refine Nat.le_trans (length_filter_le _ _) ?_
    rw [length_map]
    exact Nat.le_trans short (by decide : 100 <= 201)
  unfold runScript Code.Succeeds
  rw [parse_build direct (length_le_length_build tokens)]
  simp only [few, small, decide_true, Bool.true_and, Bool.and_eq_true, all_eq_true,
    decide_eq_true_eq, structured, Code.eval_flatten_nil, and_assoc]
  refine and_congr_right fun _ => and_congr_right fun _ => ?_
  rcases code.run spend stack with _ | final
  · simp
  match final with
  | [] => simp
  | [top] => simp
  | first :: second :: rest => simp

end Fortis.Lib.Script
