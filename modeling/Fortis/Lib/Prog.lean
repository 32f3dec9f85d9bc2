import Mathlib

/-!
# Weakest preconditions of programs with state and exceptions

Programs are terms of the standard exception-and-state monad; an exception keeps the writes made
before it.  `wp` is what must hold before a program so that `post` holds of the value and state it
returns and `fail` of the exception and state it raises.
-/

namespace Fortis.Lib

open List

variable {ε σ α β : Type}

/-- What `prog` needs of its start state. -/
def wp (prog : EStateM ε σ α) (post : α → σ → Prop) (fail : ε → σ → Prop) (state : σ) : Prop :=
  match prog state with
  | .ok value final => post value final
  | .error raised final => fail raised final

abbrev Unchanged (state : σ) : ε → σ → Prop := fun _ after => after = state

/-- Two related steps are one. -/
abbrev Composes (rel : σ → σ → Prop) : Prop :=
  ∀ ⦃first second third⦄, rel first second → rel second third → rel first third

section Structure

variable {post : α → σ → Prop} {postNext : β → σ → Prop} {fail : ε → σ → Prop} {state : σ}

@[simp]
theorem wp_pure (value : α) : wp (pure value : EStateM ε σ α) post fail = post value := rfl

variable {post' : α → σ → Prop} {fail' : ε → σ → Prop} (prog : EStateM ε σ α)
  (postUnit : PUnit → σ → Prop)

@[simp]
theorem wp_bind (next : α → EStateM ε σ β) : wp (prog >>= next) postNext fail = wp prog
      (fun value => wp (next value) postNext fail) fail := by
  funext state
  change wp (EStateM.bind prog next) postNext fail state = _
  unfold wp EStateM.bind
  cases prog state <;> rfl

@[simp]
theorem wp_map (change : α → β) (prog : EStateM ε σ α) : wp (change <$> prog) postNext fail =
      wp prog (fun value => postNext (change value)) fail := by
  funext state
  change wp (EStateM.map change prog) postNext fail state = _
  unfold wp EStateM.map
  cases prog state <;> rfl

@[simp]
theorem wp_discard : wp (discard prog) postUnit fail = wp prog (fun _ => postUnit ⟨⟩) fail := by
  funext state
  change wp (EStateM.map (fun _ => PUnit.unit) prog) postUnit fail state = _
  unfold wp EStateM.map
  cases prog state <;> rfl

@[simp]
theorem wp_throw (raised : ε) : wp (throw raised : EStateM ε σ α) post fail = fail raised := rfl

@[simp]
theorem wp_tryCatch (handler : ε → EStateM ε σ α) : wp (tryCatch prog handler) post fail =
      wp prog post (fun raised => wp (handler raised) post fail) := by
  funext state
  change wp (EStateM.tryCatch prog handler) post fail state = _
  unfold wp EStateM.tryCatch
  cases prog state <;> rfl

@[simp]
theorem wp_get (postState : σ → σ → Prop) :
    wp (get : EStateM ε σ σ) postState fail state = postState state state := rfl

@[simp]
theorem wp_set (final : σ) :
    wp (set final : EStateM ε σ PUnit) postUnit fail state = postUnit ⟨⟩ final := rfl

@[simp]
theorem wp_modify (change : σ → σ) :
    wp (modify change : EStateM ε σ PUnit) postUnit fail state = postUnit ⟨⟩ (change state) := rfl

variable {prog}

theorem wp_mono (run : wp prog post fail state)
    (onReturn : ∀ value final, post value final → post' value final)
    (onRaise : ∀ raised final, fail raised final → fail' raised final) :
      wp prog post' fail' state := by
  unfold wp at run ⊢
  cases ended : prog state with
  | ok value final => rw [ended] at run; exact onReturn _ _ run
  | error raised final => rw [ended] at run; exact onRaise _ _ run

theorem wp_true : wp prog (fun _ _ => True) (fun _ _ => True) state := by
  unfold wp
  split <;> trivial

theorem wp_imp (run : wp prog post fail state)
    (onReturn : ∀ value final, post value final → post' value final) : wp prog post' fail state :=
  wp_mono run onReturn fun _ _ => id

variable {next : α → EStateM ε σ β}

/-- Two programs in turn: what the first ends in is what the second starts from. -/
theorem wp_seq (first : wp prog post fail state)
    (rest : ∀ value final, post value final → wp (next value) postNext fail' final)
    (onRaise : ∀ raised final, fail raised final → fail' raised final) :
    wp (prog >>= next) postNext fail' state := by
  rw [wp_bind]
  exact wp_mono first rest onRaise

theorem wp_next (first : wp prog post fail state)
    (rest : ∀ value final, post value final → wp (next value) postNext fail final) :
    wp (prog >>= next) postNext fail state :=
  wp_seq first rest fun _ _ => id

theorem wp_and (first : wp prog post fail state) (second : wp prog post' fail' state) :
    wp prog (fun value final => post value final ∧ post' value final)
      (fun raised final => fail raised final ∧ fail' raised final) state := by
  unfold wp at *
  cases ended : prog state <;> rw [ended] at first second <;> exact ⟨first, second⟩

end Structure

/-! ## The end of a run -/

def finalState (prog : EStateM ε σ α) (state : σ) : σ :=
  match prog state with
  | .ok _ final => final
  | .error _ final => final

def raised? (prog : EStateM ε σ α) (state : σ) : Option ε :=
  match prog state with
  | .ok _ _ => none
  | .error raised _ => some raised

variable {prog : EStateM ε σ α} {body : α → EStateM ε σ PUnit} {motive : σ → Prop}
  {state : σ} {inv : σ → Prop}

theorem finalState_of_wp (fail : ε → Prop)
    (run : wp prog (fun _ => inv) (fun raised final => fail raised ∨ inv final) state)
    (unfailed : ∀ raised, raised? prog state = some raised → ¬ fail raised) :
    inv (finalState prog state) := by
  unfold wp at run
  unfold finalState
  unfold raised? at unfailed
  cases ended : prog state with
  | ok value final => rw [ended] at run; exact run
  | error raised final =>
    rw [ended] at run unfailed
    exact run.resolve_left (unfailed raised rfl)

/-- A program that cannot fail returns, with what it promises. -/
theorem returns_of_wp (run : wp prog post (fun _ _ => False) state) :
    ∃ value final, prog state = .ok value final ∧ post value final := by
  unfold wp at run
  cases ended : prog state with
  | ok value final =>
    rw [ended] at run
    exact ⟨value, final, rfl, run⟩
  | error raised final =>
    rw [ended] at run
    exact run.elim

/-- What holds of the state however `prog` ends holds of the state it leaves. -/
theorem finalState_iff_wp :
    inv (finalState prog state) ↔ wp prog (fun _ => inv) (fun _ => inv) state := by
  unfold wp finalState
  cases prog state <;> rfl

@[elab_as_elim]
theorem finalState_both
    (run : wp prog (fun _ => motive) (fun _ => motive) state) : motive (finalState prog state) :=
  finalState_iff_wp.mpr run

/-- What a program leaves is what both of its ends imply. -/
@[elab_as_elim]
theorem finalState_cases
    (run : wp prog post fail state) (returned : ∀ value final, post value final → motive final)
    (raised : ∀ error final, fail error final → motive final) : motive (finalState prog state) :=
  finalState_both (wp_mono run returned raised)

theorem fail_of_raised {raised : ε}
    (run : wp prog post fail state) (ended : raised? prog state = some raised) :
    fail raised (finalState prog state) := by
  unfold wp at run
  unfold raised? at ended
  unfold finalState
  cases final : prog state with
  | ok value after => simp [final] at ended
  | error given after =>
    rw [final] at run
    simp only [final, Option.some.injEq] at ended
    exact ended ▸ run

theorem post_of_returned
    (run : wp prog (fun _ => inv) fail state) (ended : raised? prog state = none) :
    inv (finalState prog state) := by
  unfold wp at run
  unfold raised? at ended
  unfold finalState
  cases final : prog state with
  | ok value after =>
    rw [final] at run
    exact run
  | error given after => simp [final] at ended

theorem finalState_ignore :
    finalState (do let _ ← prog : EStateM ε σ PUnit) state = finalState prog state := by
  simp only [finalState, bind, EStateM.bind, pure, EStateM.pure]
  cases prog state <;> rfl

def Relates (rel : σ → σ → Prop) (prog : EStateM ε σ α) : Prop :=
  ∀ state, rel state (finalState prog state)

section Relates

variable {rel : σ → σ → Prop}

variable {prog : EStateM ε σ α}

theorem relates_iff_wp :
    Relates rel prog ↔ ∀ state, wp prog (fun _ => rel state) (fun _ => rel state) state :=
  forall_congr' fun _ => finalState_iff_wp

theorem Relates.pure (refl : ∀ state, rel state state) (value : α) :
    Relates rel (Pure.pure value : EStateM ε σ α) := refl

theorem Relates.throw (refl : ∀ state, rel state state) (raised : ε) :
    Relates rel (MonadExcept.throw raised : EStateM ε σ α) := refl

theorem Relates.modify {change : σ → σ} (related : ∀ state, rel state (change state)) :
    Relates rel (modify change : EStateM ε σ PUnit) := related

theorem Relates.bind (transitive : Composes rel) {next : α → EStateM ε σ β}
    (first : Relates rel prog) (rest : ∀ value, Relates rel (next value)) :
    Relates rel (prog >>= next) := by
  rw [relates_iff_wp] at first ⊢
  intro state
  refine wp_next (first state) fun value middle related => ?_
  exact wp_mono (relates_iff_wp.mp (rest value) middle)
    (fun _ _ later => transitive related later) (fun _ _ later => transitive related later)

/-- A read followed by a program that may use what was read of its own start. -/
theorem Relates.get_bind {next : σ → EStateM ε σ β}
    (rest : ∀ state, rel state (finalState (next state) state)) : Relates rel (get >>= next) := rest

theorem Relates.tryCatch (transitive : Composes rel) {handler : ε → EStateM ε σ α}
    (first : Relates rel prog) (rest : ∀ raised, Relates rel (handler raised)) :
    Relates rel (MonadExcept.tryCatch prog handler) := by
  rw [relates_iff_wp] at first ⊢
  intro state
  rw [wp_tryCatch]
  refine wp_mono (first state) (fun _ _ => id) (fun raised middle related => ?_)
  exact wp_mono (relates_iff_wp.mp (rest raised) middle)
    (fun _ _ later => transitive related later) (fun _ _ later => transitive related later)

theorem Relates.mono {other : σ → σ → Prop} (related : Relates rel prog)
    (weaker : ∀ ⦃first second⦄, rel first second → other first second) : Relates other prog :=
  fun state => weaker (related state)

theorem relates_ignore_iff :
    Relates rel (do let _ ← prog : EStateM ε σ PUnit) ↔ Relates rel prog := by
  simp only [relates_iff_wp, wp_bind, wp_pure]

end Relates

/-- `prog` always returns, and `rel` holds between its start and its end. -/
def Completes (rel : σ → σ → Prop) (prog : EStateM ε σ α) : Prop :=
  ∀ state, wp prog (fun _ => rel state) (fun _ _ => False) state

variable {prog : EStateM ε σ α}

section Completes

variable {rel : σ → σ → Prop}

theorem Completes.relates (completes : Completes rel prog) : Relates rel prog :=
  relates_iff_wp.mpr fun state =>
    wp_mono (completes state) (fun _ _ => id) nofun

theorem Completes.modify {change : σ → σ} (related : ∀ state, rel state (change state)) :
    Completes rel (modify change : EStateM ε σ PUnit) := related

end Completes

def forEach (body : α → EStateM ε σ PUnit) : List α → EStateM ε σ PUnit
  | [] => pure ⟨⟩
  | first :: rest => do
    body first
    forEach body rest

/-- A loop keeps what its body keeps; the body may use what is left of the list. -/
theorem wp_forEach (inv : List α → σ → Prop) {fail : ε → σ → Prop}
    {items : List α} {state : σ} (start : inv items state)
    (keeps : ∀ first rest now, inv (first :: rest) now →
      wp (body first) (fun _ => inv rest) fail now) :
    wp (forEach body items) (fun _ => inv []) fail state := by
  induction items generalizing state with
  | nil => exact start
  | cons first rest ih =>
    rw [forEach]
    exact wp_next (keeps first rest state start) fun _ final held => ih held

theorem Relates.forEach {rel : σ → σ → Prop} (refl : ∀ state, rel state state)
    (transitive : Composes rel)
    (each : ∀ item, Relates rel (body item)) (items : List α) :
      Relates rel (forEach body items) := by
  induction items with
  | nil => exact Relates.pure refl _
  | cons first rest ih =>
    exact Relates.bind transitive (each first) fun _ => ih

/-- However `prog` ends, it leaves `inv` where it held. -/
def Preserves (inv : σ → Prop) (prog : EStateM ε σ α) : Prop :=
  Relates (fun before after => inv before → inv after) prog

section Preserves

variable {inv : σ → Prop}

theorem Preserves.pure (value : α) : Preserves inv (Pure.pure value : EStateM ε σ α) := fun _ => id

theorem Preserves.throw (raised : ε) :
    Preserves inv (MonadExcept.throw raised : EStateM ε σ α) := fun _ => id

theorem Preserves.bind {next : α → EStateM ε σ β}
    (first : Preserves inv prog) (rest : ∀ value, Preserves inv (next value)) :
    Preserves inv (prog >>= next) :=
  Relates.bind (fun _ _ _ early late held => late (early held)) first rest

/-- A read of the state: what follows may use that `inv` holds of what was read. -/
theorem Preserves.read {next : σ → EStateM ε σ β}
    (rest : ∀ state, inv state → Preserves inv (next state)) : Preserves inv (get >>= next) :=
  Relates.get_bind fun state held => rest state held state held

theorem Preserves.forEach {body : α → EStateM ε σ PUnit} {items : List α}
    (each : ∀ item ∈ items, Preserves inv (body item)) : Preserves inv (forEach body items) := by
  induction items with
  | nil => exact Preserves.pure _
  | cons first rest ih =>
    refine Preserves.bind (each first mem_cons_self) fun _ => ?_
    exact ih fun item mem => each item (mem_cons_of_mem first mem)

theorem Preserves.ignore (kept : Preserves inv prog) :
    Preserves inv (do let _ ← prog : EStateM ε σ PUnit) :=
  relates_ignore_iff.mpr kept

end Preserves

section Transactions

variable {ε σ α : Type} {post : α → σ → Prop} {fail : ε → σ → Prop} {state : σ}

/-- Fail on a condition, between writes. -/
def abortIf (condition : Prop) [Decidable condition] (fault : ε) : EStateM ε σ PUnit :=
  if condition then throw fault else pure ⟨⟩

@[simp]
theorem wp_abortIf {condition : Prop} [Decidable condition] {fault : ε}
    {postUnit : PUnit → σ → Prop} : wp (abortIf condition fault) postUnit fail state =
      if condition then fail fault state else postUnit ⟨⟩ state := by
  unfold abortIf
  split <;> rfl

def transaction (body : EStateM ε σ α) : EStateM ε σ α := fun state =>
  match body state with
  | .ok value final => .ok value final
  | .error raised _ => .error raised state

@[simp]
theorem wp_transaction {body : EStateM ε σ α} : wp (transaction body) post fail state = wp body post
      (fun raised _ => fail raised state) state := by
  unfold wp transaction
  cases body state <;> rfl

end Transactions

section Fallible

variable {ε α β : Type}

theorem ok_of_bind {prog : Except ε α} {next : α → Except ε β} {result : β}
    (ran : prog >>= next = .ok result) : ∃ value, prog = .ok value ∧ next value = .ok result := by
  cases prog with
  | error fault => cases ran
  | ok value => exact ⟨value, rfl, ran⟩

def refuseIf (condition : Prop) [Decidable condition] (fault : ε) : Except ε Unit :=
  if condition then throw fault else pure ()

variable {fault : ε}

theorem not_of_refuseIf {condition : Prop} [Decidable condition] {result : Unit}
    (passed : refuseIf condition fault = .ok result) : ¬ condition := by
  intro holds
  rw [refuseIf, if_pos holds] at passed
  cases passed

theorem refuseIf_of_not {condition : Prop} [Decidable condition]
    (fails : ¬ condition) : refuseIf condition fault = .ok () :=
  if_neg fails

theorem ok_bind (value : α) (next : α → Except ε β) :
    ((Except.ok value : Except ε α) >>= next) = next value := rfl

def orFail (value : Option α) (fault : ε) : Except ε α :=
  match value with
  | some given => pure given
  | none => throw fault

theorem some_of_orFail {value : Option α} {result : α}
    (passed : orFail value fault = .ok result) : value = some result := by
  rcases value with _ | given
  · cases passed
  cases passed
  rfl

theorem mem_of_mapM {body : α → Except ε β} {items : List α} {results : List β} {result : β}
    (ran : items.mapM body = .ok results) (mem : result ∈ results) :
    ∃ item ∈ items, body item = .ok result := by
  induction items generalizing results with
  | nil =>
    cases ran
    cases mem
  | cons first rest ih =>
    rw [mapM_cons] at ran
    obtain ⟨head, ranHead, ran⟩ := ok_of_bind ran
    obtain ⟨tail, ranTail, ran⟩ := ok_of_bind ran
    cases ran
    rcases mem_cons.mp mem with rfl | later
    · exact ⟨first, mem_cons_self, ranHead⟩
    obtain ⟨item, mem, ranItem⟩ := ih ranTail later
    exact ⟨item, mem_cons_of_mem first mem, ranItem⟩

end Fallible

theorem mem_concat {α : Type*} {item last : α} {items : List α} :
    item ∈ items ++ [last] ↔ item ∈ items ∨ item = last := by
  rw [mem_append, mem_singleton]

/-- What holds after a fold held before it, or one of the items brings it in. -/
theorem foldl_source {σ α : Type*} {step : σ → α → σ} {items : List α} {state : σ}
    (holds : σ → Prop) {brings : α → Prop} (found : holds (items.foldl step state))
    (one : ∀ state item, holds (step state item) → holds state ∨ brings item) :
    holds state ∨ ∃ item ∈ items, brings item := by
  induction items generalizing state with
  | nil => exact .inl found
  | cons first rest ih =>
    rcases ih found with here | ⟨item, later, brought⟩
    · rcases one state first here with before | now
      · exact .inl before
      · exact .inr ⟨first, mem_cons_self, now⟩
    · exact .inr ⟨item, mem_cons_of_mem first later, brought⟩

end Fortis.Lib
