import Fortis.Lib.Prog

/-!
# Programs that may be repeated

A program is run, and run again: the second run may see another clock or another answer from
outside, so it is another program.  `Once view first second done` says that after `first` has
returned, `done` holds, and wherever `done` holds `second` returns the same value and changes
nothing visible; and that after `first` has raised, `second` raises too.
-/

namespace Fortis.Lib

variable {ε σ ν α β ρ : Type}

variable (view : σ → ν)

/-- From every state that looks like `seen`, the program returns `value` and the
state looks the same. -/
def Quiet (prog : EStateM ε σ α) (value : α) (seen : ν) : Prop :=
  ∀ state, view state = seen →
    wp prog (fun got final => got = value ∧ view final = seen) (fun _ _ => False) state

/-- From every state that looks like `seen`, the program raises and the state looks
the same. -/
def Stuck (prog : EStateM ε σ α) (seen : ν) : Prop :=
  ∀ state, view state = seen → wp prog (fun _ _ => False) (fun _ final => view final = seen) state

structure Once (first second : EStateM ε σ α) (done : α → ν → Prop) : Prop where
  ends : ∀ state, wp first (fun value final => done value (view final))
    (fun _ final => Stuck view second (view final)) state
  quiet : ∀ value seen, done value seen → Quiet view second value seen

variable {view} {prog : EStateM ε σ α}

theorem Quiet.same {value : α} {state : σ}
    (quiet : Quiet view prog value (view state)) : view (finalState prog state) = view state :=
  finalState_cases (quiet state rfl) (fun _ _ both => both.2) nofun

theorem Stuck.same {state : σ} (stuck : Stuck view prog (view state)) :
    view (finalState prog state) = view state :=
  finalState_cases (stuck state rfl) nofun fun _ _ => id

variable {first second : EStateM ε σ α} {done : α → ν → Prop}

theorem Once.same (once : Once view first second done) (state : σ) :
    view (finalState second (finalState first state)) = view (finalState first state) :=
  finalState_iff_wp.mpr (wp_mono (once.ends state)
    (fun value _ isDone => (once.quiet value _ isDone).same)
    fun _ _ stuck => stuck.same)

theorem Once.congr {done' : α → ν → Prop} (once : Once view first second done)
    (same : ∀ value seen, done value seen ↔ done' value seen) : Once view first second done' where
  ends state := wp_imp (once.ends state) fun value _ isDone => (same value _).mp isDone
  quiet value seen isDone := once.quiet value seen ((same value seen).mpr isDone)

theorem Once.pure (value : α) :
    Once view (Pure.pure value : EStateM ε σ α) (Pure.pure value) fun got _ => got = value where
  ends _ := rfl
  quiet _ _ same _ looks := ⟨same.symm, looks⟩

theorem Once.unseen {first second : EStateM ε σ PUnit}
    (one : Completes (fun before after => view after = view before) first)
    (two : Completes (fun before after => view after = view before) second) :
    Once view first second fun _ _ => True where
  ends state := wp_mono (one state) (fun _ _ _ => trivial) nofun
  quiet _ _ _ state looks := wp_imp (two state) fun _ _ same => ⟨rfl, same.trans looks⟩

/-- One program after another, if the later one leaves done what the earlier did. -/
theorem Once.bind {next nextAgain : α → EStateM ε σ β} {doneNext : α → β → ν → Prop}
    (once : Once view first second done)
    (rest : ∀ value, Once view (next value) (nextAgain value) (doneNext value))
    (kept : ∀ value, Relates (fun before after =>
      done value (view before) → done value (view after)) (next value)) :
    Once view (first >>= next) (second >>= nextAgain)
      fun last seen => ∃ value, done value seen ∧ doneNext value last seen where
  ends state := by
    refine wp_seq (once.ends state) (fun value middle isDone => ?_) fun _ final stuck => ?_
    · have both := wp_and ((rest value).ends middle) (relates_iff_wp.mp (kept value) middle)
      refine wp_mono both (fun last final ended => ⟨value, ended.2 isDone, ended.1⟩)
        fun _ final ended again looks => ?_
      refine wp_seq (once.quiet value _ (ended.2 isDone) again looks)
        (fun got between same => ?_) nofun
      rw [same.1]
      exact ended.1 between same.2
    intro again looks
    exact wp_next (stuck again looks) nofun
  quiet last seen both state looks := by
    obtain ⟨value, isDone, isDoneNext⟩ := both
    refine wp_next (once.quiet value seen isDone state looks) fun got middle same => ?_
    rw [same.1]
    exact (rest value).quiet last seen isDoneNext middle same.2

theorem Once.returning {first second : EStateM ε σ PUnit} {done : PUnit → ν → Prop}
    (once : Once view first second done) (value : β) :
    Once view (first >>= fun _ => Pure.pure value) (second >>= fun _ => Pure.pure value)
      fun got seen => got = value ∧ done ⟨⟩ seen :=
  (once.bind (fun _ => Once.pure value) fun _ => Relates.pure (fun _ => id) value).congr
    fun _ _ => ⟨fun ⟨_, isDone, same⟩ => ⟨same, isDone⟩, fun ⟨same, isDone⟩ => ⟨⟨⟩, isDone, same⟩⟩

/-- A read of something visible that the program leaves as it is. -/
theorem Once.read (read : ν → ρ) {next nextAgain : ρ → EStateM ε σ β} {doneNext : ρ → β → ν → Prop}
    (rest : ∀ value, Once view (next value) (nextAgain value) (doneNext value))
    (kept : ∀ value, Relates (fun before after => read (view after) = read (view before))
      (next value)) :
    Once view (get >>= fun state => next (read (view state)))
      (get >>= fun state => nextAgain (read (view state)))
      fun last seen => doneNext (read seen) last seen where
  ends state := by
    rw [wp_bind, wp_get]
    have both := wp_and ((rest (read (view state))).ends state)
      (relates_iff_wp.mp (kept (read (view state))) state)
    refine wp_mono both (fun last final ended => ?_) fun _ final ended again looks => ?_
    · rw [ended.2]
      exact ended.1
    rw [wp_bind, wp_get, looks, ended.2]
    exact ended.1 again looks
  quiet last seen isDone state looks := by
    rw [wp_bind, wp_get, looks]
    exact (rest (read seen)).quiet last seen isDone state looks

end Fortis.Lib
