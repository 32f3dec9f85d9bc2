import Fortis.Lsp.Ledger

/-!
# Signed account requests

A phone signs the body of an account request with its node key.  The body names a single-use nonce
and an expiry; a request that passes leaves its nonce in the ledger's `nonces` table, and rows whose
request has expired are pruned there.  The clock is read twice, for the check and for pruning.
-/

namespace Fortis.Lsp

open Fortis.Core Lib List

def sigPrefix : Bytes := "fortis-account-v1:".toList.map fun char => UInt8.ofNat char.toNat

/-- Furthest a request's expiry may be ahead of now. -/
def maxAheadSecs : Nat := 300

structure AccountRequest (Value : Type) where
  nodeId : PublicKey
  op : String
  params : Value
  nonce : String
  expiresAt : UInt64

inductive AuthError
  | malformed
  | badSignature
  | expired
  | tooFarAhead
  | replayed

/-- The members of a JSON body that are read, as far as they have the right type. -/
structure Body (Value : Type) where
  (nodeId op nonce : Option String)
  expiresAt : Option UInt64
  params : Option Value

structure Codec (Value : Type) where
  fromSlice : Bytes → Option (Body Value)
  null : Value
  publicKey : String → Option PublicKey
  verify : Bytes → String → PublicKey → Bool

def nonceOk (nonce : String) : Bool :=
  16 ≤ nonce.utf8ByteSize && nonce.utf8ByteSize ≤ 64 &&
    nonce.toList.all fun char => char.isAlphanum || char = '-' || char = '_'

def opOk (op : String) : Bool := op ≠ "" && op.utf8ByteSize ≤ 32

def parse {Value : Type} (codec : Codec Value) (body : Bytes) :
    Except AuthError (AccountRequest Value) := do
  let members ← orFail (codec.fromSlice body) .malformed
  let nodeId ← orFail (members.nodeId.bind codec.publicKey) .malformed
  let op ← orFail (members.op.filter opOk) .malformed
  let nonce ← orFail (members.nonce.filter nonceOk) .malformed
  let expiresAt ← orFail members.expiresAt .malformed
  return ⟨nodeId, op, members.params.getD codec.null, nonce, expiresAt⟩

structure NonceRow where
  (node nonce : String)
  expiresAt : Int

/-- `secs as i64` -/
@[irreducible]
def asSigned (secs : Nat) : Int := (secs : Int).bmod (2 ^ 64)

theorem asSigned_of_lt {secs : Nat} (small : secs < 2 ^ 63) : asSigned secs = secs := by
  unfold asSigned
  rw [Int.bmod_def]
  omega

/-- One delivery of a signed body: the two clock readings, and the failures of
the two statements on the nonce table. -/
structure Delivery where
  body : Bytes
  sig : String
  (received used : Nat)
  (deleteFails insertFails : Option DbError)

abbrev NonceM := EStateM DbError (List NonceRow)

def statement : Option DbError → NonceM PUnit
  | some error => throw error
  | none => pure ⟨⟩

def pruned (now : Nat) (rows : List NonceRow) : List NonceRow :=
  rows.filter fun row => asSigned now ≤ row.expiresAt

/-- Whether `INSERT OR IGNORE` would clash with a row. -/
def nonceUsed (node nonce : String) (rows : List NonceRow) : Bool :=
  rows.any fun row => row.node = node ∧ row.nonce = nonce

def insertNonce (row : NonceRow) : NonceM Bool := do
  let rows ← get
  if nonceUsed row.node row.nonce rows then return false
  else
    set (rows ++ [row])
    return true

/-- Marks a nonce used; `false` when it was already. -/
def useNonce (delivery : Delivery) (row : NonceRow) : NonceM Bool := do
  statement delivery.deleteFails
  modify (pruned delivery.used)
  statement delivery.insertFails
  insertNonce row

section Verify

variable {Value : Type} (codec : Codec Value)

def nonceRow (request : AccountRequest Value) : NonceRow :=
  ⟨key request.nodeId, request.nonce, asSigned request.expiresAt.toNat⟩

theorem nonceRow_expiresAt (request : AccountRequest Value) :
    (nonceRow request).expiresAt = asSigned request.expiresAt.toNat := rfl

/-- The checks before the nonce is used. -/
def admissible (delivery : Delivery) : Except AuthError (AccountRequest Value) := do
  let request ← parse codec delivery.body
  refuseIf (codec.verify (sigPrefix ++ delivery.body) delivery.sig request.nodeId = false)
    .badSignature
  refuseIf (request.expiresAt.toNat < delivery.received) .expired
  refuseIf (request.expiresAt.toNat > delivery.received + maxAheadSecs) .tooFarAhead
  return request

def verify (delivery : Delivery) (rows : List NonceRow) :
    Except AuthError (AccountRequest Value) × List NonceRow :=
  match admissible codec delivery with
  | .error error => (.error error, rows)
  | .ok request =>
    match useNonce delivery (nonceRow request) rows with
    | .ok true later => (.ok request, later)
    | .ok false later => (.error .replayed, later)
    | .error _ later => (.error .malformed, later)

def passed : List NonceRow → List Delivery → List Delivery
  | _, [] => []
  | rows, delivery :: rest =>
    let later := passed (verify codec delivery rows).2 rest
    if (verify codec delivery rows).1.isOk then delivery :: later else later

structure Steady (deliveries : List Delivery) : Prop where
  within : ∀ delivery ∈ deliveries, delivery.received ≤ delivery.used
  between : deliveries.Pairwise fun earlier later => earlier.used ≤ later.received

/-- A request that is in time when received is in time when its nonce is used. -/
def Delivery.Prompt (delivery : Delivery) : Prop :=
  ∀ request, parse codec delivery.body = .ok request → delivery.received ≤ request.expiresAt.toNat →
      delivery.used ≤ request.expiresAt.toNat ∧ request.expiresAt.toNat < 2 ^ 63

variable {codec} {delivery : Delivery} {rows : List NonceRow} {request : AccountRequest Value}

theorem admissible_ok (admitted : admissible codec delivery = .ok request) :
    parse codec delivery.body = .ok request ∧ delivery.received ≤ request.expiresAt.toNat := by
  obtain ⟨parsed, parses, rest⟩ := ok_of_bind admitted
  obtain ⟨_, _, rest⟩ := ok_of_bind rest
  obtain ⟨_, inTime, rest⟩ := ok_of_bind rest
  obtain ⟨_, _, returned⟩ := ok_of_bind rest
  cases returned
  exact ⟨parses, not_lt.mp (not_of_refuseIf inTime)⟩

theorem wp_statement {fails : Option DbError} {post : PUnit → List NonceRow → Prop}
    {fail : DbError → List NonceRow → Prop} (done : post ⟨⟩ rows)
    (failed : ∀ error, fail error rows) : wp (statement fails) post fail rows := by
  cases fails with
  | none => exact done
  | some error => exact failed error

/-- What using a nonce does: rows that are in time stay, and the nonce is taken
only if no row that is left has it. -/
theorem wp_useNonce (delivery : Delivery) (rows : List NonceRow) (row : NonceRow) :
    wp (useNonce delivery row) (fun new later => pruned delivery.used rows ⊆ later ∧
        (new = true → nonceUsed row.node row.nonce (pruned delivery.used rows) = false ∧
          row ∈ later)) (fun _ later => pruned delivery.used rows ⊆ later) rows := by
  unfold useNonce
  rw [wp_bind]
  refine wp_statement ?_ fun _ => (filter_sublist).subset
  rw [wp_bind, wp_modify, wp_bind]
  refine wp_statement ?_ fun _ => List.Subset.refl _
  unfold insertNonce
  rw [wp_bind, wp_get]
  split
  · exact ⟨List.Subset.refl _, nofun⟩
  next unused =>
  rw [wp_bind, wp_set]
  refine ⟨subset_append_left _ _, fun _ => ⟨by simpa using unused, ?_⟩⟩
  exact mem_append_right _ (mem_singleton.mpr rfl)

theorem verify_keeps {row : NonceRow} (mem : row ∈ rows)
    (inTime : asSigned delivery.used ≤ row.expiresAt) : row ∈ (verify codec delivery rows).2 := by
  have left : row ∈ pruned delivery.used rows :=
    mem_filter.mpr ⟨mem, decide_eq_true inTime⟩
  unfold verify
  split
  · exact mem
  next request _ =>
  have kept := wp_useNonce delivery rows (nonceRow request)
  unfold wp at kept
  split <;> rename_i outcome <;> rw [outcome] at kept
  · exact kept.1 left
  · exact kept.1 left
  · exact kept left

theorem verify_passed (passes : (verify codec delivery rows).1.isOk = true) :
    ∃ request, parse codec delivery.body = .ok request ∧
      delivery.received ≤ request.expiresAt.toNat ∧
      nonceUsed (key request.nodeId) request.nonce (pruned delivery.used rows) = false ∧
      nonceRow request ∈ (verify codec delivery rows).2 := by
  unfold verify at passes ⊢
  split at passes
  · cases passes
  next request admitted =>
  obtain ⟨parses, inTime⟩ := admissible_ok admitted
  have taken := wp_useNonce delivery rows (nonceRow request)
  unfold wp at taken
  split at passes
  next later outcome =>
    rw [outcome] at taken
    exact ⟨request, parses, inTime, (taken.2 rfl).1, (taken.2 rfl).2⟩
  · cases passes
  · cases passes

variable {deliveries : List Delivery}

theorem passed_inTime (mem : delivery ∈ passed codec rows deliveries) :
    delivery ∈ deliveries ∧ ∃ request, parse codec delivery.body = .ok request ∧
      delivery.received ≤ request.expiresAt.toNat := by
  induction deliveries generalizing rows with
  | nil => cases mem
  | cons first rest ih =>
    unfold passed at mem
    split at mem
    next passes =>
      rcases mem_cons.mp mem with rfl | later
      · obtain ⟨request, parses, inTime, _, _⟩ := verify_passed passes
        exact ⟨mem_cons_self, request, parses, inTime⟩
      · exact ⟨mem_cons_of_mem _ (ih later).1, (ih later).2⟩
    · exact ⟨mem_cons_of_mem _ (ih mem).1, (ih mem).2⟩

theorem Steady.tail {first : Delivery} {rest : List Delivery} (steady : Steady (first :: rest)) :
    Steady rest :=
  ⟨fun delivery mem => steady.within delivery (mem_cons_of_mem _ mem),
    (pairwise_cons.mp steady.between).2⟩

/-- The nonce of a body stays used until no delivery of it can pass. -/
theorem passed_no_more {body : Bytes}
    (parses : parse codec body = .ok request) (steady : Steady deliveries)
    (prompt : ∀ delivery ∈ deliveries, delivery.Prompt codec) (spent : nonceRow request ∈ rows)
    (mem : delivery ∈ passed codec rows deliveries) : delivery.body ≠ body := by
  rintro rfl
  induction deliveries generalizing rows with
  | nil => cases mem
  | cons first rest ih =>
    obtain ⟨listed, other, parsesOther, received⟩ := passed_inTime mem
    cases parses.symm.trans parsesOther
    obtain ⟨inTime, small⟩ := prompt delivery listed request parses received
    -- Whatever is pruned up to this delivery is older than its expiry.
    have before : first.used ≤ delivery.used := by
      rcases mem_cons.mp listed with rfl | later
      · exact le_rfl
      exact ((pairwise_cons.mp steady.between).1 delivery later).trans
        (steady.within delivery listed)
    have left : asSigned first.used ≤ (nonceRow request).expiresAt := by
      rw [nonceRow_expiresAt, asSigned_of_lt small, asSigned_of_lt (by omega)]
      exact_mod_cast before.trans inTime
    unfold passed at mem
    split at mem
    next passes =>
      rcases mem_cons.mp mem with rfl | later
      · obtain ⟨other, parsesOther, _, unused, _⟩ := verify_passed passes
        cases parses.symm.trans parsesOther
        have used : nonceUsed (key request.nodeId) request.nonce (pruned delivery.used rows) =
          true :=
          any_eq_true.mpr ⟨nonceRow request,
            mem_filter.mpr ⟨spent, decide_eq_true left⟩, by simp [nonceRow]⟩
        rw [used] at unused
        cases unused
      exact ih steady.tail (fun one listed => prompt one (mem_cons_of_mem _ listed))
        (verify_keeps spent left) later
    · exact ih steady.tail (fun one listed => prompt one (mem_cons_of_mem _ listed))
        (verify_keeps spent left) mem

/-- If no request expires between its clock readings, at most one delivery of a signed body
passes. -/
theorem accepted_once (codec : Codec Value) (rows : List NonceRow) (deliveries : List Delivery)
    (steady : Steady deliveries) (prompt : ∀ delivery ∈ deliveries, delivery.Prompt codec)
    (body : Bytes) : (passed codec rows deliveries).countP (fun one => one.body = body) ≤ 1 := by
  induction deliveries generalizing rows with
  | nil => exact Nat.zero_le 1
  | cons first rest ih =>
    have promptRest := fun one listed => prompt one (mem_cons_of_mem first listed)
    unfold passed
    split
    next passes =>
      obtain ⟨request, parses, _, _, spent⟩ := verify_passed passes
      rw [countP_cons]
      split
      next same =>
        have sameBody : first.body = body := of_decide_eq_true same
        have none : (passed codec (verify codec first rows).2 rest).countP
            (fun one => one.body = body) = 0 := by
          refine countP_eq_zero.mpr fun one mem => ?_
          rw [decide_eq_true_eq, ← sameBody]
          exact passed_no_more parses steady.tail promptRest spent mem
        rw [none]
      · exact ih _ steady.tail promptRest
    · exact ih _ steady.tail promptRest

end Verify

namespace Replay

/-- Two bodies that are read, with nonces of their own, and one signature. -/
def codec : Codec Unit where
  fromSlice
    | [1] => some ⟨some "02", some "balance", some "0123456789abcdef", some 1000, none⟩
    | [2] => some ⟨some "02", some "balance", some "fedcba9876543210", some 1000, none⟩
    | _ => none
  null := ()
  publicKey text := if text = "02" then some ⟨[2] ++ List.replicate 32 1, rfl⟩ else none
  verify message sig _ := sigPrefix.isPrefixOf message && sig = "sig"

def delivered (received used : Nat) : Delivery := ⟨[1], "sig", received, used, none, none⟩

theorem expires {body : Bytes} {request : AccountRequest Unit}
    (parses : parse codec body = .ok request) : request.expiresAt = 1000 := by
  obtain ⟨members, isMembers, parses⟩ := ok_of_bind parses
  obtain ⟨_, _, parses⟩ := ok_of_bind parses
  obtain ⟨_, _, parses⟩ := ok_of_bind parses
  obtain ⟨_, _, parses⟩ := ok_of_bind parses
  obtain ⟨secs, isSecs, parses⟩ := ok_of_bind parses
  cases parses
  have known : members.expiresAt = some 1000 := by
    have read := some_of_orFail isMembers
    simp only [codec] at read
    split at read <;> cases read <;> rfl
  exact Option.some.inj ((some_of_orFail isSecs).symm.trans known)

/-- A body, another that prunes, a malformed one, a forged one, and the first twice more. -/
def deliveries : List Delivery :=
  [delivered 900 900, { delivered 950 950 with body := [2] }, { delivered 950 960 with body := [] },
    { delivered 960 960 with sig := "" }, delivered 970 1000, delivered 1000 1000]

end Replay

open Replay

theorem accepted_once_replayed : (passed codec [] deliveries).map Delivery.body = [[1], [2]] ∧
      (passed codec [] deliveries).countP (fun one => one.body = [1]) ≤ 1 := by
  refine ⟨by decide +kernel, accepted_once codec [] deliveries ⟨by decide, by decide⟩ ?_ [1]⟩
  intro delivery mem request parses _
  have early : ∀ one ∈ deliveries, one.used ≤ 1000 := by decide
  rw [expires parses]
  exact ⟨early delivery mem, by decide⟩

/-- A body delivered again in its last second passes again if the clock ticks before its nonce is
used. -/
theorem accepted_twice_at_expiry :
    let deliveries := [delivered 900 900, delivered 1000 1001]
    Steady deliveries ∧ (passed codec [] deliveries).countP (fun one => one.body = [1]) = 2 :=
  ⟨⟨by decide, by decide⟩, by decide +kernel⟩

end Fortis.Lsp
