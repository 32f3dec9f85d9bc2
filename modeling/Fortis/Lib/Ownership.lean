import Fortis.Lib.Interleave

/-!
# Processes that own resources

Rely and guarantee for a pool of processes.  A process owns at most one resource at a time and
asserts something of the shared state that the others cannot undo while it owns it.  `Proc.Triple`
is the rule of pre- and postconditions for one process; a pool whose processes all have a triple
keeps the discipline, action by action.
-/

namespace Fortis.Lib

open List Function

structure Discipline (σ κ : Type) where
  /-- Kept by every action. -/
  inv : σ → Prop
  /-- Assumed of every state. -/
  good : σ → Prop
  owned : σ → κ → Prop
  /-- What the others may do to a process, by what it owns. -/
  rely : Option κ → σ → σ → Prop
  refl : ∀ own state, rely own state state
  stays : ∀ {resource before after}, rely (some resource) before after →
    owned before resource → owned after resource

variable {σ ω α β κ ρ : Type}

variable {state : σ}

namespace Discipline

/-- What the others do leaves the assertion of a process that owns `own`. -/
def Stable (disc : Discipline σ κ) (own : Option κ) (holds : σ → Prop) : Prop :=
  ∀ ⦃before after⦄, disc.rely own before after → holds before → holds after

/-- An action of a process that owns `own` before it and `next` after. -/
structure Step (disc : Discipline σ κ) (own next : Option κ) (before after : σ) : Prop where
  inv : disc.inv after
  others : ∀ other, other = none ∨ (other ≠ own ∧ other ≠ next) → disc.rely other before after
  taken : ∀ resource, next = some resource → own = some resource ∨ ¬ disc.owned before resource
  held : ∀ resource, next = some resource → disc.owned after resource

theorem stable_true (disc : Discipline σ κ) (own : Option κ) : disc.Stable own fun _ => True :=
  fun _ _ _ _ => trivial

theorem Step.idle {disc : Discipline σ κ} {own : Option κ} (inv : disc.inv state)
    (held : ∀ resource, own = some resource → disc.owned state resource) :
    disc.Step own own state state where
  inv := inv
  others other _ := disc.refl other state
  taken _ same := .inl same
  held := held

end Discipline

variable {proc : Proc σ ω α} {read : σ → ω → α} {write : σ → ω → σ}

namespace Proc

/-- Every action keeps the discipline; at the end the process owns `ownPost` and `post` holds. -/
def Triple (disc : Discipline σ κ) :
    Proc σ ω α → Option κ → (σ → Prop) → (α → Option κ) → (α → σ → Prop) → Prop
  | done value, own, holds, ownPost, post =>
    own = ownPost value ∧ ∀ state, holds state → post value state
  | act write next, own, holds, ownPost, post =>
    ∀ state outside, disc.inv state → disc.good state → disc.good (write state outside) →
      holds state → (∀ resource, own = some resource → disc.owned state resource) →
      ∃ own' holds', disc.Step own own' state (write state outside) ∧
        holds' (write state outside) ∧ disc.Stable own' holds' ∧
        Triple disc (next state outside) own' holds' ownPost post

variable {disc : Discipline σ κ} {own : Option κ} {holds : σ → Prop} {ownPost : α → Option κ}
  {post : α → σ → Prop}

theorem Triple.weaken (triple : proc.Triple disc own holds ownPost post)
    {stronger : σ → Prop} (implies : ∀ state, stronger state → holds state) :
    proc.Triple disc own stronger ownPost post := by
  cases proc with
  | done value => exact ⟨triple.1, fun state held => triple.2 state (implies state held)⟩
  | act write next =>
    intro state outside inv good good' held
    exact triple state outside inv good good' (implies state held)

theorem Triple.bind {rest : α → Proc σ ω β} {ownEnd : β → Option κ}
    {postEnd : β → σ → Prop} (first : proc.Triple disc own holds ownPost post)
    (later : ∀ value, (rest value).Triple disc (ownPost value) (post value) ownEnd postEnd) :
    (proc >>= rest).Triple disc own holds ownEnd postEnd := by
  induction proc generalizing own holds with
  | done value =>
    obtain ⟨rfl, implies⟩ := first
    exact (later value).weaken implies
  | act write next ih =>
    intro state outside inv good good' held owns
    obtain ⟨own', holds', step, here, stable, goesOn⟩ :=
      first state outside inv good good' held owns
    exact ⟨own', holds', step, here, stable, ih state outside goesOn⟩

theorem triple_action (stable : ∀ value, disc.Stable (ownPost value) (post value))
    (acts : ∀ state outside, disc.inv state → disc.good state → disc.good (write state outside) →
      holds state → (∀ resource, own = some resource → disc.owned state resource) →
      disc.Step own (ownPost (read state outside)) state (write state outside) ∧
        post (read state outside) (write state outside)) :
    (act write fun state outside => done (read state outside)).Triple disc own holds ownPost
      post := by
  intro state outside inv good good' held owns
  obtain ⟨step, here⟩ := acts state outside inv good good' held owns
  exact ⟨_, _, step, here, stable _, rfl, fun _ => id⟩

theorem triple_look (stable : ∀ value, disc.Stable own (post value))
    (sees : ∀ state outside, disc.inv state → disc.good state → holds state →
      post (read state outside) state) : (look read).Triple disc own holds (fun _ => own) post :=
  triple_action stable fun state outside inv good _ held owns =>
    ⟨.idle inv owns, sees state outside inv good held⟩

end Proc

/-! ## Pools -/

variable {index : Nat} {pool : Pool σ ω α}

namespace Pool

/-- Every process owns and asserts something, no resource is owned twice, and
the shared state is as the discipline keeps it. -/
structure Labelled (disc : Discipline σ κ) (pool : Pool σ ω α) (own : Nat → Option κ)
    (holds : Nat → σ → Prop) : Prop where
  inv : disc.inv pool.shared
  triple : ∀ {index : Nat} {proc : Proc σ ω α}, pool.procs[index]? = some proc →
    proc.Triple disc (own index) (holds index) (fun _ => none) fun _ _ => True
  here : ∀ index, index < pool.procs.length → holds index pool.shared
  stable : ∀ index, index < pool.procs.length → disc.Stable (own index) (holds index)
  owned : ∀ index resource, index < pool.procs.length → own index = some resource →
    disc.owned pool.shared resource
  once : ∀ first second resource, first < pool.procs.length → second < pool.procs.length →
    own first = some resource → own second = some resource → first = second

def Disciplined (disc : Discipline σ κ) (pool : Pool σ ω α) : Prop :=
  ∃ own holds, pool.Labelled disc own holds

theorem disciplined_empty {disc : Discipline σ κ} (inv : disc.inv state) :
    (⟨state, []⟩ : Pool σ ω α).Disciplined disc := by
  refine ⟨fun _ => none, fun _ _ => True, inv, ?_, ?_, ?_, ?_, ?_⟩
  · intro index proc found
    simp at found
  · exact fun _ _ => trivial
  · exact fun _ _ => disc.stable_true none
  · intro _ _ absent
    exact absurd absent (Nat.not_lt_zero _)
  intro _ _ _ absent
  exact absurd absent (Nat.not_lt_zero _)

variable {disc : Discipline σ κ} {own : Nat → Option κ} {holds : Nat → σ → Prop}

section

variable (labelled : pool.Labelled disc own holds)
include labelled

theorem Labelled.begin (served : proc.Triple disc none (fun _ => True) (fun _ => none)
      fun _ _ => True) : (⟨pool.shared, pool.procs ++ [proc]⟩ : Pool σ ω α).Disciplined disc := by
  have old : ∀ index, index < pool.procs.length → index ≠ pool.procs.length :=
    fun index inside => Nat.ne_of_lt inside
  have split : ∀ index, index < (pool.procs ++ [proc]).length →
      index < pool.procs.length ∨ index = pool.procs.length := by
    intro index inside
    rw [length_append, length_singleton] at inside
    omega
  refine ⟨update own pool.procs.length none,
    update holds pool.procs.length fun _ => True, labelled.inv, ?_, ?_, ?_, ?_, ?_⟩
  · intro index found' found
    have inside := (List.getElem?_eq_some_iff.mp found).1
    rcases split index inside with before | rfl
    · rw [getElem?_append_left before] at found
      rw [update_of_ne (old index before), update_of_ne (old index before)]
      exact labelled.triple found
    rw [getElem?_concat_length] at found
    cases found
    rw [update_self, update_self]
    exact served
  · intro index inside
    rcases split index inside with before | rfl
    · rw [update_of_ne (old index before)]
      exact labelled.here index before
    rw [update_self]
    trivial
  · intro index inside
    rcases split index inside with before | rfl
    · rw [update_of_ne (old index before), update_of_ne (old index before)]
      exact labelled.stable index before
    rw [update_self, update_self]
    exact disc.stable_true none
  · intro index resource inside owns
    rcases split index inside with before | rfl
    · rw [update_of_ne (old index before)] at owns
      exact labelled.owned index resource before owns
    rw [update_self] at owns
    cases owns
  intro first second resource insideFirst insideSecond ownsFirst ownsSecond
  rcases split first insideFirst with before | rfl
  · rcases split second insideSecond with before' | rfl
    · rw [update_of_ne (old _ before)] at ownsFirst
      rw [update_of_ne (old _ before')] at ownsSecond
      exact labelled.once first second resource before before' ownsFirst ownsSecond
    rw [update_self] at ownsSecond
    cases ownsSecond
  rw [update_self] at ownsFirst
  cases ownsFirst

/-- What a process that moves does to the others is what they rely on. -/
theorem Labelled.relied {other : Nat} (inside : index < pool.procs.length)
    (insideOther : other < pool.procs.length) (ne : other ≠ index) {next : Option κ}
    {after : σ} (step : disc.Step (own index) next pool.shared after) :
    disc.rely (own other) pool.shared after := by
  apply step.others
  rcases owns : own other with _ | resource
  · exact .inl rfl
  have notOwn : own index ≠ some resource := fun same =>
    ne (labelled.once other index resource insideOther inside owns same)
  refine .inr ⟨fun same => notOwn same.symm, fun same => ?_⟩
  rcases step.taken resource same.symm with already | free
  · exact notOwn already
  · exact free (labelled.owned other resource insideOther owns)

theorem Labelled.act {next : σ → ω → Proc σ ω α} {outside : ω}
    (found : pool.procs[index]? = some (.act write next)) (good : disc.good pool.shared)
    (good' : disc.good (write pool.shared outside)) : (⟨write pool.shared outside,
      pool.procs.set index (next pool.shared outside)⟩ : Pool σ ω α).Disciplined disc := by
  have inside : index < pool.procs.length := (List.getElem?_eq_some_iff.mp found).1
  obtain ⟨own', holds', step, here, stable, goesOn⟩ := labelled.triple found pool.shared outside
    labelled.inv good good' (labelled.here index inside)
    (fun resource owns => labelled.owned index resource inside owns)
  have relied := fun other (insideOther : other < pool.procs.length) (ne : other ≠ index) =>
    labelled.relied inside insideOther ne step
  refine ⟨update own index own', update holds index holds', step.inv, ?_, ?_, ?_, ?_, ?_⟩
  · intro other proc found'
    by_cases same : other = index
    · subst same
      rw [getElem?_set_self inside] at found'
      cases found'
      rw [update_self, update_self]
      exact goesOn
    rw [getElem?_set_ne (Ne.symm same)] at found'
    rw [update_of_ne same, update_of_ne same]
    exact labelled.triple found'
  · intro other insideOther
    rw [length_set] at insideOther
    by_cases same : other = index
    · rw [same, update_self]
      exact here
    rw [update_of_ne same]
    exact labelled.stable other insideOther (relied other insideOther same)
      (labelled.here other insideOther)
  · intro other insideOther
    rw [length_set] at insideOther
    by_cases same : other = index
    · rw [same, update_self, update_self]
      exact stable
    rw [update_of_ne same, update_of_ne same]
    exact labelled.stable other insideOther
  · intro other resource insideOther owns
    rw [length_set] at insideOther
    by_cases same : other = index
    · rw [same, update_self] at owns
      exact step.held resource owns
    rw [update_of_ne same] at owns
    have rely := relied other insideOther same
    rw [owns] at rely
    exact disc.stays rely (labelled.owned other resource insideOther owns)
  intro first second resource insideFirst insideSecond ownsFirst ownsSecond
  rw [length_set] at insideFirst insideSecond
  -- The resource the moving process now owns was its own or nobody's.
  have alone : ∀ other, other < pool.procs.length → other ≠ index →
      own other = some resource → own' ≠ some resource := by
    intro other insideOther ne owns took
    rcases step.taken resource took with already | free
    · exact ne (labelled.once other index resource insideOther inside owns already)
    · exact free (labelled.owned other resource insideOther owns)
  by_cases sameFirst : first = index
  · by_cases sameSecond : second = index
    · rw [sameFirst, sameSecond]
    rw [sameFirst, update_self] at ownsFirst
    rw [update_of_ne sameSecond] at ownsSecond
    exact absurd ownsFirst (alone second insideSecond sameSecond ownsSecond)
  rw [update_of_ne sameFirst] at ownsFirst
  by_cases sameSecond : second = index
  · rw [sameSecond, update_self] at ownsSecond
    exact absurd ownsSecond (alone first insideFirst sameFirst ownsFirst)
  rw [update_of_ne sameSecond] at ownsSecond
  exact labelled.once first second resource insideFirst insideSecond ownsFirst ownsSecond

end

theorem Disciplined.move {serve : ρ → Proc σ ω α} (disciplined : pool.Disciplined disc)
    (served : ∀ request, (serve request).Triple disc none (fun _ => True) (fun _ => none)
      fun _ _ => True) (step : Move ρ ω) (good : disc.good pool.shared)
    (good' : disc.good (pool.move serve step).shared) :
      (pool.move serve step).Disciplined disc := by
  obtain ⟨own, holds, labelled⟩ := disciplined
  cases step with
  | begin request => exact labelled.begin (served request)
  | act index outside =>
    rcases found : pool.procs[index]? with _ | proc
    · simp only [Pool.move, found]
      exact ⟨own, holds, labelled⟩
    cases proc with
    | done value =>
      simp only [Pool.move, found]
      exact ⟨own, holds, labelled⟩
    | act write next =>
      simp only [Pool.move, found] at good' ⊢
      exact labelled.act found good good'

theorem Disciplined.inv (disciplined : pool.Disciplined disc) : disc.inv pool.shared := by
  obtain ⟨own, holds, labelled⟩ := disciplined
  exact labelled.inv

end Pool

end Fortis.Lib
