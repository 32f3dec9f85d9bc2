import Mathlib

/-!
# Marks in a window

A book keeps, for every key, a list of bare times: a mark adds the present time and trims the list
to a window, a lift takes one time away again, and a purge drops the lists with nothing left in the
window.  Beside the book stand the marks themselves; as long as the clock never steps back and only
standing marks are lifted, the book counts in every window what stands.
-/

namespace Fortis.Lib.Window

open List Function

variable {α κ : Type}

structure Standing (α κ : Type) where
  owner : α
  key : κ
  time : Nat
  deriving DecidableEq

inductive Mark (α κ : Type)
  | add (entry : Standing α κ)
  | lift (entry : Standing α κ)
  | purge (now : Nat)
  deriving DecidableEq

/-- The clock a mark was made at; a lift reads none. -/
def Mark.clock? : Mark α κ → Option Nat
  | .add entry => some entry.time
  | .lift _ => none
  | .purge now => some now

variable {early late marks middle : List (Mark α κ)} {first second : List (Standing α κ)}
  {times : List Nat} {mark : Mark α κ} {entry : Standing α κ}

variable [DecidableEq κ] (live : Nat → Nat → Bool)

def Mark.play (book : κ → List Nat) : Mark α κ → κ → List Nat
  | .add entry => update book entry.key
      ((book entry.key).filter (live · entry.time) ++ [entry.time])
  | .lift entry => update book entry.key ((book entry.key).erase entry.time)
  | .purge now => fun key => if (book key).any (live · now) then book key else []

variable [DecidableEq α]

def Mark.stand (standing : List (Standing α κ)) : Mark α κ → List (Standing α κ)
  | .add entry => entry :: standing
  | .lift entry => standing.erase entry
  | .purge _ => standing

def standingTimes (standing : List (Standing α κ)) (key : κ) : List Nat :=
  (standing.filter (·.key = key)).map Standing.time

def clockAfter (clock : Nat) (marks : List (Mark α κ)) : Nat :=
  marks.foldl (fun clock mark => mark.clock?.getD clock) clock

def Ordered (clock : Nat) : List (Mark α κ) → Prop
  | [] => True
  | mark :: rest => clock ≤ mark.clock?.getD clock ∧ Ordered (mark.clock?.getD clock) rest

/-- Only what stands is lifted. -/
def Fits (standing : List (Standing α κ)) : List (Mark α κ) → Prop
  | [] => True
  | mark :: rest => (∀ entry, mark = .lift entry → entry ∈ standing) ∧
    Fits (mark.stand standing) rest

/-- Nothing is later than the clock, and the book has in the window what stands there. -/
structure Tally (clock : Nat) (book : κ → List Nat) (standing : List (Standing α κ)) : Prop where
  past : ∀ key, ∀ time ∈ book key, time ≤ clock
  stood : ∀ entry ∈ standing, entry.time ≤ clock
  same : ∀ key, ((book key).filter (live · clock)).Perm
    ((standingTimes standing key).filter (live · clock))

/-- What is in the window later was in it before. -/
def Backwards : Prop :=
  ∀ {time early late : Nat}, time ≤ early → early ≤ late → live time late = true →
    live time early = true

variable {live} {clock next : Nat} {book : κ → List Nat} {standing : List (Standing α κ)}

theorem filter_live_later (backwards : Backwards live)
    (past : ∀ time ∈ times, time ≤ clock) (forward : clock ≤ next) :
    times.filter (live · next) = (times.filter (live · clock)).filter (live · next) := by
  rw [filter_filter]
  refine filter_congr fun time mem => ?_
  cases isLive : live time next with
  | false => rfl
  | true => simp [backwards (past time mem) forward isLive]

omit [DecidableEq α] in
theorem standingTimes_past (stood : ∀ entry ∈ standing, entry.time ≤ clock) (key : κ) :
    ∀ time ∈ standingTimes standing key, time ≤ clock := by
  intro time mem
  obtain ⟨entry, kept, rfl⟩ := mem_map.mp mem
  exact stood entry (mem_filter.mp kept).1

omit [DecidableEq α] in
theorem standingTimes_cons (entry : Standing α κ) (key : κ) :
    standingTimes (entry :: standing) key =
      if entry.key = key then entry.time :: standingTimes standing key
      else standingTimes standing key := by
  unfold standingTimes
  by_cases own : entry.key = key
  · simp [own]
  · simp [own]

theorem filter_erase_perm {window : Nat → Bool} {rest : List Nat} {time : Nat}
    (same : (times.filter window).Perm ((time :: rest).filter window)) :
    ((times.erase time).filter window).Perm (rest.filter window) := by
  rw [perm_iff_count] at same ⊢
  intro stamp
  have counted := same stamp
  rcases isLive : window stamp with _ | _
  · have gone (list : List Nat) : (list.filter window).count stamp = 0 :=
      count_eq_zero.mpr fun mem => by simp [isLive] at mem
    rw [gone, gone]
  rw [count_filter isLive, count_filter isLive, count_cons] at counted
  rw [count_filter isLive, count_filter isLive, count_erase]
  split at counted <;> simp_all

namespace Tally

section

variable (tally : Tally live clock book standing)
include tally

omit [DecidableEq α] in
theorem later (backwards : Backwards live)
    (forward : clock ≤ next) : Tally live next book standing where
  past key time member := Nat.le_trans (tally.past key time member) forward
  stood entry member := Nat.le_trans (tally.stood entry member) forward
  same key := by
    rw [filter_live_later backwards (tally.past key) forward,
      filter_live_later backwards (standingTimes_past tally.stood key) forward]
    exact (tally.same key).filter _

theorem add (present : entry.time = clock) :
    Tally live clock (Mark.play live book (.add entry)) (Mark.stand standing (.add entry)) where
  past key time member := by
    by_cases own : key = entry.key
    · subst own
      simp only [Mark.play, update_self, mem_append, mem_filter, mem_singleton] at member
      rcases member with ⟨member, _⟩ | rfl
      · exact tally.past _ time member
      · exact Nat.le_of_eq present
    rw [Mark.play, update_of_ne own] at member
    exact tally.past key time member
  stood other member := by
    rcases mem_cons.mp member with rfl | member
    · exact Nat.le_of_eq present
    · exact tally.stood other member
  same key := by
    rw [Mark.stand, standingTimes_cons]
    by_cases own : key = entry.key
    · subst own
      rw [if_pos rfl, Mark.play, update_self, present, filter_append, filter_filter]
      simp only [Bool.and_self]
      refine (perm_append_comm).trans ?_
      have split (rest : List Nat) : (clock :: rest).filter (live · clock) =
          [clock].filter (live · clock) ++ rest.filter (live · clock) :=
        filter_append [clock] rest
      rw [split (standingTimes standing entry.key)]
      exact (tally.same _).append_left _
    rw [if_neg (Ne.symm own), Mark.play, update_of_ne own]
    exact tally.same key

theorem lift (stands : entry ∈ standing) :
    Tally live clock (Mark.play live book (.lift entry)) (Mark.stand standing (.lift entry)) where
  past key time member := by
    by_cases own : key = entry.key
    · subst own
      rw [Mark.play, update_self] at member
      exact tally.past _ time (mem_of_mem_erase member)
    rw [Mark.play, update_of_ne own] at member
    exact tally.past key time member
  stood other member := tally.stood other (mem_of_mem_erase member)
  same key := by
    have split : (standingTimes standing key).Perm
        (standingTimes (entry :: standing.erase entry) key) :=
      (((perm_cons_erase stands).filter _).map _)
    have kept := (tally.same key).trans (split.filter _)
    rw [standingTimes_cons] at kept
    by_cases own : key = entry.key
    · subst own
      rw [if_pos rfl] at kept
      rw [Mark.play, update_self]
      exact filter_erase_perm kept
    rw [if_neg (Ne.symm own)] at kept
    rw [Mark.play, update_of_ne own]
    exact kept

omit [DecidableEq α] in
theorem purge : Tally live clock (Mark.play live book (.purge clock : Mark α κ)) standing where
  past key time member := by
    simp only [Mark.play] at member
    split at member
    · exact tally.past key time member
    · exact absurd member not_mem_nil
  stood := tally.stood
  same key := by
    have kept : (Mark.play live book (.purge clock : Mark α κ) key).filter (live · clock) =
        (book key).filter (live · clock) := by
      simp only [Mark.play]
      split
      · rfl
      next none =>
      simp only [Bool.not_eq_true, any_eq_false] at none
      exact (filter_eq_nil_iff.mpr fun time member => by simp [none time member]).symm
    rw [kept]
    exact tally.same key

theorem step (backwards : Backwards live) (forward : clock ≤ mark.clock?.getD clock)
    (fits : ∀ entry, mark = .lift entry → entry ∈ standing) :
    Tally live (mark.clock?.getD clock) (mark.play live book) (mark.stand standing) := by
  cases mark with
  | add entry => exact (tally.later backwards forward).add rfl
  | lift entry => exact tally.lift (fits entry rfl)
  | purge now => exact (tally.later backwards forward).purge

end

theorem run (backwards : Backwards live)
    (tally : Tally live clock book standing) (ordered : Ordered clock marks)
    (fits : Fits standing marks) :
    Tally live (clockAfter clock marks) (marks.foldl (Mark.play live) book)
      (marks.foldl Mark.stand standing) := by
  induction marks generalizing clock book standing with
  | nil => exact tally
  | cons mark rest ih =>
    exact ih (tally.step backwards ordered.1 fits.1) ordered.2 fits.2

end Tally

omit [DecidableEq α] in
theorem Tally.empty (clock : Nat) :
    Tally live clock (fun _ : κ => []) ([] : List (Standing α κ)) where
  past _ _ member := absurd member not_mem_nil
  stood _ member := absurd member not_mem_nil
  same _ := List.Perm.refl _

/-! ## Leaving a mark out -/

theorem Mark.stand_perm (perm : first.Perm second)
    (mark : Mark α κ) : (mark.stand first).Perm (mark.stand second) := by
  cases mark with
  | add entry => exact perm.cons entry
  | lift entry => exact perm.erase entry
  | purge now => exact perm

theorem Fits.perm (perm : first.Perm second) (fits : Fits first marks) : Fits second marks := by
  induction marks generalizing first second with
  | nil => trivial
  | cons mark rest ih =>
    exact ⟨fun entry lifts => perm.mem_iff.mp (fits.1 entry lifts),
      ih (mark.stand_perm perm) fits.2⟩

theorem stand_foldl_perm (perm : first.Perm second) :
    (marks.foldl Mark.stand first).Perm (marks.foldl Mark.stand second) := by
  induction marks generalizing first second with
  | nil => exact perm
  | cons mark rest ih => exact ih (mark.stand_perm perm)

variable {standing : List (Standing α κ)}

theorem fits_append : Fits standing (early ++ late) ↔
      Fits standing early ∧ Fits (early.foldl Mark.stand standing) late := by
  induction early generalizing standing with
  | nil => exact ⟨fun fits => ⟨trivial, fits⟩, fun fits => fits.2⟩
  | cons mark rest ih =>
    simp only [cons_append, Fits, ih, foldl_cons, and_assoc]

/-- Marks that never lift `entry` run the same with it standing or not. -/
theorem stand_beside (beside : first.Perm (entry :: second))
    (spared : .lift entry ∉ marks) (fits : Fits first marks) : Fits second marks ∧
      (marks.foldl Mark.stand first).Perm (entry :: marks.foldl Mark.stand second) := by
  induction marks generalizing first second with
  | nil => exact ⟨trivial, beside⟩
  | cons mark rest ih =>
    obtain ⟨notThis, notRest⟩ := not_or.mp (mt mem_cons.mpr spared)
    have others : ∀ other, mark = .lift other → other ∈ second ∧ other ≠ entry := by
      rintro other rfl
      have differs : other ≠ entry := fun same => notThis (same ▸ rfl)
      have member := beside.mem_iff.mp (fits.1 other rfl)
      exact ⟨(mem_cons.mp member).resolve_left differs, differs⟩
    have stepped : (mark.stand first).Perm (entry :: mark.stand second) := by
      cases mark with
      | add other => exact (beside.cons other).trans (List.Perm.swap entry other second)
      | lift other =>
        have differs := (others other rfl).2
        refine (beside.erase other).trans ?_
        rw [erase_cons_tail (by simpa using differs.symm)]
        exact List.Perm.refl _
      | purge now => exact beside
    obtain ⟨fitsRest, same⟩ := ih stepped notRest fits.2
    exact ⟨⟨fun other lifts => (others other lifts).1, fitsRest⟩, same⟩

/-- Leaving out a mark and its lift changes neither what fits nor what stands. -/
theorem stand_without (spared : .lift entry ∉ middle) (fits : Fits ([] : List (Standing α κ))
    (early ++ .add entry :: middle ++ .lift entry :: late)) :
    Fits ([] : List (Standing α κ)) (early ++ middle ++ late) ∧
      ((early ++ .add entry :: middle ++ .lift entry :: late).foldl Mark.stand []).Perm
        ((early ++ middle ++ late).foldl Mark.stand []) := by
  rw [append_assoc, fits_append] at fits
  obtain ⟨fitsEarly, fitsRest⟩ := fits
  rw [cons_append] at fitsRest
  obtain ⟨fitsMiddle, fitsLate⟩ := fits_append.mp fitsRest.2
  obtain ⟨fitsBare, same⟩ := stand_beside (List.Perm.refl (entry :: early.foldl Mark.stand []))
    spared fitsMiddle
  have lifted : (Mark.stand (middle.foldl Mark.stand (entry :: early.foldl Mark.stand []))
      (.lift entry)).Perm (middle.foldl Mark.stand (early.foldl Mark.stand [])) := by
    refine (Mark.stand_perm same _).trans ?_
    rw [Mark.stand, erase_cons_head]
  refine ⟨?_, ?_⟩
  · rw [append_assoc, fits_append, fits_append]
    exact ⟨fitsEarly, fitsBare, fitsLate.2.perm lifted⟩
  simp only [foldl_append, foldl_cons]
  exact stand_foldl_perm lifted

omit [DecidableEq κ] [DecidableEq α] in
theorem Ordered.earlier {early late : Nat} (le : early ≤ late) (ordered : Ordered late marks) :
    Ordered early marks ∧ clockAfter early marks ≤ clockAfter late marks := by
  induction marks generalizing early late with
  | nil => exact ⟨trivial, le⟩
  | cons mark rest ih =>
    simp only [Ordered, clockAfter, foldl_cons] at ordered ⊢
    rcases read : mark.clock? with _ | now
    · simp only [read, Option.getD_none] at ordered ⊢
      obtain ⟨orderedRest, ends⟩ := ih le ordered.2
      exact ⟨⟨Nat.le_refl early, orderedRest⟩, ends⟩
    simp only [read, Option.getD_some] at ordered ⊢
    exact ⟨⟨Nat.le_trans le ordered.1, ordered.2⟩, Nat.le_refl _⟩

omit [DecidableEq κ] [DecidableEq α] in
theorem Ordered.without {first last : List (Mark α κ)} {clock : Nat}
    (ordered : Ordered clock (first ++ mark :: last)) : Ordered clock (first ++ last) ∧
      clockAfter clock (first ++ last) ≤ clockAfter clock (first ++ mark :: last) := by
  induction first generalizing clock with
  | nil => exact Ordered.earlier ordered.1 ordered.2
  | cons other rest ih =>
    obtain ⟨orderedRest, ends⟩ := ih ordered.2
    exact ⟨⟨ordered.1, orderedRest⟩, ends⟩

/-- A mark that was lifted again leaves every window as if it had never been made. -/
theorem filter_without (backwards : Backwards live) {now : Nat} (spared : .lift entry ∉ middle)
    (ordered : Ordered clock (early ++ .add entry :: middle ++ .lift entry :: late))
    (fits : Fits ([] : List (Standing α κ)) (early ++ .add entry :: middle ++ .lift entry :: late))
    (reached : clockAfter clock (early ++ .add entry :: middle ++ .lift entry :: late) ≤ now)
    (key : κ) : (((early ++ .add entry :: middle ++ .lift entry :: late).foldl (Mark.play live)
      (fun _ => []) key).filter (live · now)).Perm
        (((early ++ middle ++ late).foldl (Mark.play live) (fun _ => []) key).filter
          (live · now)) := by
  obtain ⟨fitsBare, same⟩ := stand_without spared fits
  obtain ⟨orderedLifted, endsLifted⟩ := ordered.without
  rw [append_assoc, cons_append] at orderedLifted endsLifted
  obtain ⟨orderedBare, endsBare⟩ := orderedLifted.without
  rw [← append_assoc] at orderedBare endsBare
  have whole := ((Tally.empty clock).run backwards ordered fits).later backwards reached
  have bare := ((Tally.empty clock).run backwards orderedBare fitsBare).later backwards
    (Nat.le_trans endsBare (Nat.le_trans endsLifted reached))
  exact (whole.same key).trans (((((same.filter _).map _)).filter _).trans (bare.same key).symm)

theorem add_mem_of_stands (stands : entry ∈ marks.foldl Mark.stand standing) :
    entry ∈ standing ∨ .add entry ∈ marks := by
  induction marks generalizing standing with
  | nil => exact .inl stands
  | cons mark rest ih =>
    rcases ih stands with before | later
    · cases mark with
      | add other =>
        rcases mem_cons.mp before with rfl | before
        · exact .inr mem_cons_self
        · exact .inl before
      | lift other => exact .inl (mem_of_mem_erase before)
      | purge now => exact .inl before
    · exact .inr (mem_cons_of_mem mark later)

end Fortis.Lib.Window
