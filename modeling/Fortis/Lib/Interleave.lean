import Fortis.Lib.Prog

/-!
# Interleaved processes

A process is a program cut at its atomic actions.  Each action writes the shared state and goes on
with what it saw of that state and of the outside; between two actions anything may happen.  A run
of a pool is a list of moves: a request begins a process, or one process takes its next action.
-/

namespace Fortis.Lib

open List Relation

/-- A process over the shared state `σ` that sees the outside `ω`. -/
inductive Proc (σ ω α : Type) : Type
  | done (value : α)
  | act (write : σ → ω → σ) (next : σ → ω → Proc σ ω α)

namespace Proc

variable {σ ω α β ε : Type}

def bind : Proc σ ω α → (α → Proc σ ω β) → Proc σ ω β
  | done value, rest => rest value
  | act write next, rest => act write fun state outside => (next state outside).bind rest

instance : Monad (Proc σ ω) where
  pure := done
  bind := bind

def look (read : σ → ω → α) : Proc σ ω α :=
  act (fun state _ => state) fun state outside => done (read state outside)

def atomically (prog : ω → EStateM ε σ α) : Proc σ ω (Except ε α) :=
  act (fun state outside => finalState (prog outside) state) fun state outside =>
    match prog outside state with
    | .ok value _ => done (.ok value)
    | .error raised _ => done (.error raised)

def each (body : α → Proc σ ω Unit) : List α → Proc σ ω Unit
  | [] => done ()
  | first :: rest => (body first).bind fun _ => each body rest

/-- Every action relates the state it finds, whatever that is, to the one it leaves. -/
def Keeps (rel : σ → σ → Prop) : Proc σ ω α → Prop
  | done _ => True
  | act write next =>
    ∀ state outside, rel state (write state outside) ∧ (next state outside).Keeps rel

section Keeps

variable {rel : σ → σ → Prop} {proc : Proc σ ω α}

theorem keeps_bind {rest : α → Proc σ ω β} (first : proc.Keeps rel)
    (later : ∀ value, (rest value).Keeps rel) : (proc >>= rest).Keeps rel := by
  induction proc with
  | done value => exact later value
  | act write next ih =>
    intro state outside
    obtain ⟨related, kept⟩ := first state outside
    exact ⟨related, ih state outside kept⟩

theorem keeps_look (refl : ∀ state, rel state state) (read : σ → ω → α) : (look read).Keeps rel :=
  fun state _ => ⟨refl state, trivial⟩

theorem keeps_atomically {prog : ω → EStateM ε σ α}
    (relates : ∀ outside, Relates rel (prog outside)) : (atomically prog).Keeps rel := by
  intro state outside
  refine ⟨relates outside state, ?_⟩
  dsimp only
  split <;> trivial

theorem keeps_exceptBind {proc : ExceptT ε (Proc σ ω) α} {rest : α → ExceptT ε (Proc σ ω) β}
    (first : Keeps rel proc.run) (later : ∀ value, Keeps rel (rest value).run) :
    Keeps rel (proc >>= rest).run := by
  refine keeps_bind first fun ended => ?_
  cases ended with
  | error raised => trivial
  | ok value => exact later value

theorem keeps_exceptLift (kept : proc.Keeps rel) :
    Keeps rel (ExceptT.lift proc : ExceptT ε (Proc σ ω) α).run :=
  keeps_bind kept fun _ => trivial

theorem keeps_each {body : α → Proc σ ω Unit} (kept : ∀ item, (body item).Keeps rel)
    (items : List α) : (each body items).Keeps rel := by
  induction items with
  | nil => trivial
  | cons first rest ih => exact keeps_bind (kept first) fun _ => ih

end Keeps

/-- Every action is `idle`, but for at most one that is a `change`. -/
def ChangesOnce (idle change : σ → σ → Prop) : Proc σ ω α → Prop
  | done _ => True
  | act write next => ∀ state outside,
      (idle state (write state outside) ∧ (next state outside).ChangesOnce idle change) ∨
        (change state (write state outside) ∧ (next state outside).Keeps idle)

section ChangesOnce

variable {idle change : σ → σ → Prop} {proc : Proc σ ω α}

theorem changesOnce_of_keeps (kept : proc.Keeps idle) : proc.ChangesOnce idle change := by
  induction proc with
  | done value => trivial
  | act write next ih =>
    intro state outside
    obtain ⟨related, rest⟩ := kept state outside
    exact .inl ⟨related, ih state outside rest⟩

theorem changesOnce_bind {rest : α → Proc σ ω β} (first : proc.Keeps idle)
    (later : ∀ value, (rest value).ChangesOnce idle change) :
    (proc >>= rest).ChangesOnce idle change := by
  induction proc with
  | done value => exact later value
  | act write next ih =>
    intro state outside
    obtain ⟨related, kept⟩ := first state outside
    exact .inl ⟨related, ih state outside kept⟩

theorem changesOnce_exceptBind {proc : ExceptT ε (Proc σ ω) α} {rest : α → ExceptT ε (Proc σ ω) β}
    (first : Keeps idle proc.run) (later : ∀ value, ChangesOnce idle change (rest value).run) :
    ChangesOnce idle change (proc >>= rest).run := by
  refine changesOnce_bind first fun ended => ?_
  cases ended with
  | error raised => trivial
  | ok value => exact later value

end ChangesOnce

def alone (outside : ω) : Proc σ ω α → σ → α × σ
  | done value, state => (value, state)
  | act write next, state => (next state outside).alone outside (write state outside)

variable (outside : ω)

theorem alone_bind (proc : Proc σ ω α) (rest : α → Proc σ ω β) (state : σ) :
    (proc >>= rest).alone outside state =
      (rest (proc.alone outside state).1).alone outside (proc.alone outside state).2 := by
  induction proc generalizing state with
  | done value => rfl
  | act write next ih => exact ih state outside (write state outside)

@[simp]
theorem alone_look (read : σ → ω → α) (state : σ) :
    (look read).alone outside state = (read state outside, state) := rfl

theorem alone_atomically (prog : ω → EStateM ε σ α) (state : σ) :
    ((atomically prog).alone outside state).2 = finalState (prog outside) state := by
  simp only [atomically, alone]
  split <;> rfl

theorem alone_each_cons (body : α → Proc σ ω Unit) (first : α) (rest : List α)
    (state : σ) : (each body (first :: rest)).alone outside state =
      (each body rest).alone outside ((body first).alone outside state).2 :=
  alone_bind outside (body first) (fun _ => each body rest) state

theorem related_alone {rel : σ → σ → Prop} (refl : ∀ state, rel state state)
    (transitive : Composes rel)
    {proc : Proc σ ω α} (kept : proc.Keeps rel) (outside : ω) (state : σ) :
    rel state (proc.alone outside state).2 := by
  induction proc generalizing state with
  | done value => exact refl state
  | act write next ih =>
    obtain ⟨related, rest⟩ := kept state outside
    exact transitive related (ih state outside rest (write state outside))

end Proc

/-! ## Pools -/

structure Pool (σ ω α : Type) where
  shared : σ
  procs : List (Proc σ ω α)

inductive Move (ρ ω : Type)
  | begin (request : ρ)
  | act (index : Nat) (outside : ω)

namespace Pool

variable {σ ω α ρ : Type}

variable (serve : ρ → Proc σ ω α)

def move (pool : Pool σ ω α) : Move ρ ω → Pool σ ω α
  | .begin request => { pool with procs := pool.procs ++ [serve request] }
  | .act index outside =>
    match pool.procs[index]? with
    | some (.act write next) =>
      ⟨write pool.shared outside, pool.procs.set index (next pool.shared outside)⟩
    | _ => pool

def run (pool : Pool σ ω α) (moves : List (Move ρ ω)) : Pool σ ω α :=
  moves.foldl (move serve) pool

def sharedAfter (state : σ) (moves : List (Move ρ ω)) : σ :=
  (run serve ⟨state, []⟩ moves).shared

variable {rel : σ → σ → Prop} {serve : ρ → Proc σ ω α}

def Keeps (rel : σ → σ → Prop) (pool : Pool σ ω α) : Prop :=
  ∀ proc ∈ pool.procs, proc.Keeps rel

variable {pool : Pool σ ω α}
variable (reflexive : ∀ state, rel state state) (served : ∀ request, (serve request).Keeps rel)
  (kept : pool.Keeps rel)

include served kept in
theorem keeps_move (step : Move ρ ω) : (pool.move serve step).Keeps rel := by
  cases step with
  | begin request =>
    exact forall_mem_append.mpr ⟨kept, forall_mem_singleton.mpr (served request)⟩
  | act index outside =>
    rcases found : pool.procs[index]? with _ | proc
    · simpa only [move, found] using kept
    cases proc with
    | done value => simpa only [move, found] using kept
    | act write next =>
      intro other mem
      simp only [move, found] at mem
      rcases mem_or_eq_of_mem_set mem with old | rfl
      · exact kept other old
      · exact (kept _ (mem_of_getElem? found) pool.shared outside).2

include reflexive kept in
theorem related_move (step : Move ρ ω) : rel pool.shared (pool.move serve step).shared := by
  cases step with
  | begin request => exact reflexive _
  | act index outside =>
    rcases found : pool.procs[index]? with _ | proc
    · simpa only [move, found] using reflexive _
    cases proc with
    | done value => simpa only [move, found] using reflexive _
    | act write next =>
      simp only [move, found]
      exact (kept _ (mem_of_getElem? found) pool.shared outside).1

include served kept in
theorem keeps_run (moves : List (Move ρ ω)) : (pool.run serve moves).Keeps rel := by
  induction moves generalizing pool with
  | nil => exact kept
  | cons step rest ih => exact ih (keeps_move served kept step)

include reflexive served kept in
theorem related_run
    (moves : List (Move ρ ω)) : ReflTransGen rel pool.shared (pool.run serve moves).shared := by
  induction moves generalizing pool with
  | nil => exact .refl
  | cons step rest ih =>
    exact .head (related_move reflexive kept step) (ih (keeps_move served kept step))

theorem run_append (pool : Pool σ ω α) (moves later : List (Move ρ ω)) :
    pool.run serve (moves ++ later) = (pool.run serve moves).run serve later :=
  foldl_append

include reflexive served in
/-- The end of a run is reached from any of its earlier states by the actions in between. -/
theorem related_between (state : σ) (moves later : List (Move ρ ω)) :
    ReflTransGen rel (sharedAfter serve state moves)
      (sharedAfter serve state (moves ++ later)) := by
  have none : (⟨state, []⟩ : Pool σ ω α).Keeps rel := nofun
  unfold sharedAfter
  rw [run_append]
  exact related_run reflexive served (keeps_run served none moves) later

/-- What holds at first and is kept by every action holds after every run. -/
theorem invariant_run {inv : σ → Prop}
    (served : ∀ request, (serve request).Keeps fun before after => inv before → inv after)
    {state : σ} (start : inv state) (moves : List (Move ρ ω)) :
      inv (sharedAfter serve state moves) := by
  have none : (⟨state, []⟩ : Pool σ ω α).Keeps fun before after => inv before → inv after :=
    nofun
  have path := related_run (fun _ => id) served none moves
  unfold sharedAfter
  generalize (run serve ⟨state, []⟩ moves).shared = last at path
  induction path with
  | refl => exact start
  | tail _ step ih => exact step ih

include reflexive served in
theorem related_last (state : σ) (moves : List (Move ρ ω)) (step : Move ρ ω) :
    rel (sharedAfter serve state moves) (sharedAfter serve state (moves ++ [step])) := by
  have none : (⟨state, []⟩ : Pool σ ω α).Keeps rel := nofun
  unfold sharedAfter
  rw [run_append]
  exact related_move reflexive (keeps_run served none moves) step

end Pool

end Fortis.Lib
