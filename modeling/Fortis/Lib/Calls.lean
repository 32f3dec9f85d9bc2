import Fortis.Lib.Interleave

/-!
# Programs by their calls

A program is the tree of the calls it makes: each call goes on with its answer,
whatever that is.  What a program may call is an interface.  `Calls.Guarded` is
the rule of pre- and postconditions: every call is allowed by the calls and
answers before it, newest first.  A handler turns a program into a process, one
action per call.
-/

namespace Fortis.Lib

structure Interface where
  Call : Type
  Answer : Call → Type

structure Event (face : Interface) where
  call : face.Call
  answer : face.Answer call

inductive Calls (face : Interface) (ε α : Type) : Type
  | done (value : Except ε α)
  | call (made : face.Call) (next : face.Answer made → Calls face ε α)

namespace Calls

variable {face : Interface} {ε α β σ ω : Type}

def bind : Calls face ε α → (α → Calls face ε β) → Calls face ε β
  | done (.ok value), rest => rest value
  | done (.error raised), _ => done (.error raised)
  | call made next, rest => call made fun answer => (next answer).bind rest

instance : Monad (Calls face ε) where
  pure value := done (.ok value)
  bind := bind

def given (value : Except ε α) : Calls face ε α := done value

/-- Every call is allowed by the past, and `post` holds at an end without failure. -/
def Guarded (allowed : List (Event face) → face.Call → Prop) :
    Calls face ε α → List (Event face) → (α → List (Event face) → Prop) → Prop
  | done (.ok value), past, post => post value past
  | done (.error _), _, _ => True
  | call made next, past, post => allowed past made ∧
      ∀ answer, (next answer).Guarded allowed (⟨made, answer⟩ :: past) post

section Guarded

variable {allowed : List (Event face) → face.Call → Prop} {past : List (Event face)}
  {post : β → List (Event face) → Prop}

variable {rest : α → Calls face ε β}

theorem Guarded.bind {program : Calls face ε α} (guarded : program.Guarded allowed past
      fun value after => (rest value).Guarded allowed after post) :
    (program >>= rest).Guarded allowed past post := by
  induction program generalizing past with
  | done value =>
    cases value with
    | ok value => exact guarded
    | error raised => trivial
  | call made next ih => exact ⟨guarded.1, fun answer => ih answer (guarded.2 answer)⟩

/-- The calls before the program are still there at its end. -/
theorem Guarded.imp {program : Calls face ε β} (guarded : program.Guarded allowed past post)
    {weaker : β → List (Event face) → Prop}
    (implies : ∀ value after, past ⊆ after → post value after → weaker value after) :
    program.Guarded allowed past weaker := by
  induction program generalizing past with
  | done value =>
    cases value with
    | ok value => exact implies value past (List.Subset.refl past) guarded
    | error raised => trivial
  | call made next ih =>
    refine ⟨guarded.1, fun answer => ih answer (guarded.2 answer) ?_⟩
    intro value after later
    exact implies value after (List.Subset.trans (List.subset_cons_self _ _) later)

/-- A call, a result made of its answer, and what goes on with that. -/
theorem guarded_call {made : face.Call} {result : face.Answer made → Except ε α}
    (may : allowed past made)
    (later : ∀ answer value, result answer = .ok value →
      (rest value).Guarded allowed (⟨made, answer⟩ :: past) post) :
    (call made (fun answer => done (result answer)) >>= rest).Guarded allowed past post := by
  refine ⟨may, fun answer => ?_⟩
  change ((done (result answer)).bind rest).Guarded allowed _ post
  cases known : result answer with
  | ok value => exact later answer value known
  | error raised => trivial

theorem guarded_given {value : Except ε α}
    (later : ∀ known, value = .ok known → (rest known).Guarded allowed past post) :
    (given value >>= rest).Guarded allowed past post := by
  cases value with
  | ok known => exact later known rfl
  | error raised => trivial

end Guarded

/-- What a call writes, and what it answers from the shared state and the outside. -/
structure Handler (face : Interface) (σ ω : Type) where
  write : face.Call → σ → ω → σ
  read : (made : face.Call) → σ → ω → face.Answer made

def toProc (handler : Handler face σ ω) : Calls face ε α → Proc σ ω (Except ε α)
  | done value => .done value
  | call made next => .act (handler.write made) fun state outside =>
    (next (handler.read made state outside)).toProc handler

/-- The process, as one that may end early. -/
def act (handler : Handler face σ ω) (program : Calls face ε α) : ExceptT ε (Proc σ ω) α :=
  ExceptT.mk (program.toProc handler)

theorem act_bind (handler : Handler face σ ω) (program : Calls face ε α)
    (rest : α → Calls face ε β) :
    (program >>= rest).act handler = program.act handler >>= fun value =>
      (rest value).act handler := by
  induction program with
  | done value =>
    cases value with
    | ok value => rfl
    | error raised => rfl
  | call made next ih =>
    refine congrArg (Proc.act (handler.write made)) (funext fun state => funext fun outside => ?_)
    exact ih (handler.read made state outside)

end Calls

end Fortis.Lib
