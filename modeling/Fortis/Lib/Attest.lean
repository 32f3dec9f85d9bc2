import Fortis.Lib.Interleave

/-!
# Processes that answer for what they write

A process acts on a state that others change between its actions.  What it may do
at one action can depend on what it saw at its earlier ones.  `Attests` says of a
process that each of its actions is a permitted step given its own views so far,
whatever states it meets; in a run of a pool those views are moments of the run.
-/

namespace Fortis.Lib

open List

namespace Proc

variable {σ ω α β ε : Type}

/-- The states a process met and what it saw outside, the latest first. -/
abbrev Views (σ ω : Type) := List (σ × ω)

/-- Every action is a permitted step given the views up to it, and what is returned is
as `post` has it. -/
def Attests (permitted : Views σ ω → σ → σ → Prop) (post : α → Views σ ω → Prop) :
    Proc σ ω α → Views σ ω → Prop
  | done value, views => post value views
  | act write next, views => ∀ state outside,
      permitted ((state, outside) :: views) state (write state outside) ∧
        (next state outside).Attests permitted post ((state, outside) :: views)

variable {permitted : Views σ ω → σ → σ → Prop} {views : Views σ ω}

variable {proc : Proc σ ω α} {mid : α → Views σ ω → Prop}

theorem attests_bind {post : β → Views σ ω → Prop}
    {rest : α → Proc σ ω β} (first : proc.Attests permitted mid views)
    (later : ∀ value seen, views <:+ seen → mid value seen →
      (rest value).Attests permitted post seen) : (proc >>= rest).Attests permitted post views := by
  induction proc generalizing views with
  | done value => exact later value views suffix_rfl first
  | act write next ih =>
    intro state outside
    obtain ⟨may, kept⟩ := first state outside
    refine ⟨may, ih state outside kept fun value seen longer => ?_⟩
    exact later value seen ((suffix_cons _ views).trans longer)

theorem attests_mono {post : α → Views σ ω → Prop} (first : proc.Attests permitted mid views)
    (weaker : ∀ value seen, views <:+ seen → mid value seen → post value seen) :
    proc.Attests permitted post views := by
  induction proc generalizing views with
  | done value => exact weaker value views suffix_rfl first
  | act write next ih =>
    intro state outside
    obtain ⟨may, kept⟩ := first state outside
    refine ⟨may, ih state outside kept fun value seen longer => ?_⟩
    exact weaker value seen ((suffix_cons _ views).trans longer)

theorem attests_exceptBind {post : Except ε β → Views σ ω → Prop}
    {proc : ExceptT ε (Proc σ ω) α} {rest : α → ExceptT ε (Proc σ ω) β}
    (first : Attests permitted (fun ended seen => ∀ value, ended = .ok value → mid value seen)
      proc.run views) (later : ∀ value seen, views <:+ seen → mid value seen →
      Attests permitted post (rest value).run seen)
    (early : ∀ raised seen, post (.error raised) seen) :
    Attests permitted post (proc >>= rest).run views := by
  refine attests_bind first fun ended seen longer given => ?_
  cases ended with
  | error raised => exact early raised seen
  | ok value => exact later value seen longer (given value rfl)

/-- A process all of whose actions keep `rel` attests to them whatever it saw. -/
theorem attests_of_keeps {rel : σ → σ → Prop} (kept : proc.Keeps rel)
    (may : ∀ seen before after, rel before after → permitted seen before after) :
    proc.Attests permitted (fun _ _ => True) views := by
  induction proc generalizing views with
  | done value => trivial
  | act write next ih =>
    intro state outside
    obtain ⟨related, rest⟩ := kept state outside
    exact ⟨may _ _ _ related, ih state outside rest⟩

theorem attests_look (read : σ → ω → α) (idle : ∀ seen state, permitted seen state state) :
    (look read).Attests permitted
      (fun value seen => ∃ view ∈ seen, value = read view.1 view.2) views :=
  fun state outside => ⟨idle _ state, (state, outside), mem_cons_self, rfl⟩

theorem attests_atomically {prog : ω → EStateM ε σ α}
    (may : ∀ state outside, permitted ((state, outside) :: views) state
      (finalState (prog outside) state)) :
    (atomically prog).Attests permitted (fun _ _ => True) views := by
  intro state outside
  refine ⟨may state outside, ?_⟩
  dsimp only
  split <;> trivial

end Proc

namespace Pool

variable {σ ω α ρ : Type} {permitted : Proc.Views σ ω → σ → σ → Prop} {serve : ρ → Proc σ ω α}

/-- A view is a moment of the run. -/
def Happened (serve : ρ → Proc σ ω α) (state : σ) (moves : List (Move ρ ω)) (view : σ × ω) : Prop :=
  ∃ early index rest, moves = early ++ .act index view.2 :: rest ∧
    view.1 = sharedAfter serve state early

theorem Happened.later {state : σ} {moves : List (Move ρ ω)} {view : σ × ω}
    (happened : Happened serve state moves view) (more : List (Move ρ ω)) :
    Happened serve state (moves ++ more) view := by
  obtain ⟨early, index, rest, rfl, same⟩ := happened
  exact ⟨early, index, rest ++ more, by simp, same⟩

/-- Every process attests from views that are moments of the run. -/
def Attested (permitted : Proc.Views σ ω → σ → σ → Prop) (serve : ρ → Proc σ ω α) (state : σ)
    (moves : List (Move ρ ω)) : Prop :=
  ∀ proc ∈ (run serve ⟨state, []⟩ moves).procs, ∃ views : Proc.Views σ ω,
    (∀ view ∈ views, Happened serve state moves view) ∧
      proc.Attests permitted (fun _ _ => True) views

theorem run_snoc (state : σ) (moves : List (Move ρ ω)) (step : Move ρ ω) :
    run serve ⟨state, []⟩ (moves ++ [step]) = move serve (run serve ⟨state, []⟩ moves) step := by
  rw [run_append]
  rfl

section

variable (served : ∀ request, (serve request).Attests permitted (fun _ _ => True) [])
include served

theorem attested_step
    {state : σ} {moves : List (Move ρ ω)} (attested : Attested permitted serve state moves)
    (step : Move ρ ω) : Attested permitted serve state (moves ++ [step]) ∧
      (sharedAfter serve state (moves ++ [step]) = sharedAfter serve state moves ∨
        ∃ views : Proc.Views σ ω, (∀ view ∈ views, Happened serve state (moves ++ [step]) view) ∧
          permitted views (sharedAfter serve state moves)
            (sharedAfter serve state (moves ++ [step]))) := by
  have earlier : ∀ proc ∈ (run serve ⟨state, []⟩ moves).procs, ∃ views : Proc.Views σ ω,
      (∀ view ∈ views, Happened serve state (moves ++ [step]) view) ∧
        proc.Attests permitted (fun _ _ => True) views := by
    intro proc mem
    obtain ⟨views, happened, attests⟩ := attested proc mem
    exact ⟨views, fun view seen => (happened view seen).later [step], attests⟩
  unfold Attested sharedAfter
  rw [run_snoc]
  cases step with
  | begin request =>
    refine ⟨fun proc mem => ?_, .inl rfl⟩
    rcases mem_append.mp mem with old | new
    · exact earlier proc old
    cases mem_singleton.mp new
    exact ⟨[], nofun, served request⟩
  | act index outside =>
    rcases found : (run serve ⟨state, []⟩ moves).procs[index]? with _ | proc
    · simp only [move, found]
      exact ⟨earlier, .inl trivial⟩
    cases proc with
    | done value =>
      simp only [move, found]
      exact ⟨earlier, .inl trivial⟩
    | act write next =>
      simp only [move, found]
      obtain ⟨views, happened, attests⟩ := earlier _ (mem_of_getElem? found)
      obtain ⟨may, rest⟩ := attests (run serve ⟨state, []⟩ moves).shared outside
      have now : ∀ view ∈ ((run serve ⟨state, []⟩ moves).shared, outside) :: views,
          Happened serve state (moves ++ [.act index outside]) view := by
        intro view seen
        rcases mem_cons.mp seen with rfl | old
        · exact ⟨moves, index, [], rfl, rfl⟩
        · exact happened view old
      refine ⟨fun proc mem => ?_, .inr ⟨_, now, may⟩⟩
      rcases mem_or_eq_of_mem_set mem with old | rfl
      · exact earlier proc old
      · exact ⟨_, now, rest⟩

/-- Every step of a run is one some process attests to from moments of the run. -/
theorem attested_run
    (state : σ) (moves : List (Move ρ ω)) : Attested permitted serve state moves := by
  induction moves using reverseRecOn with
  | nil => exact nofun
  | append_singleton rest step ih => exact (attested_step served ih step).1

end

end Pool

end Fortis.Lib
