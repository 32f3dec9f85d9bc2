import Mathlib

/-!
# Batches with and without a log

A store takes batches of writes, each with a log record or without one, and is flushed now and then.
A crash keeps every batch up to some point at or after the last flush, and of the later ones those
with a log record.
-/

namespace Fortis.Lib.Journal

open List

variable {β σ : Type}

/-- What a store is handed. -/
inductive Entry (β : Type)
  | write (logged : Bool) (batch : β)
  | flush

def batches : List (Entry β) → List β
  | [] => []
  | .write _ batch :: rest => batch :: batches rest
  | .flush :: rest => batches rest

/-- Those with a log record. -/
def logged : List (Entry β) → List β
  | [] => []
  | .write true batch :: rest => batch :: logged rest
  | .write false _ :: rest | .flush :: rest => logged rest

variable (entries : List (Entry β))

def dirty : Bool :=
  entries.foldl (fun was entry => match entry with
    | .write logged _ => was || !logged
    | .flush => false) false

def Survives (left : List β) : Prop :=
  ∃ early late, entries = early ++ late ∧ .flush ∉ late ∧ left = batches early ++ logged late

def Ordered : Prop :=
  ∀ early batch late, entries = early ++ .write true batch :: late → dirty early = false

/-- The state after some batches. -/
def replay (apply : σ → β → σ) (base : σ) (batches : List β) : σ := batches.foldl apply base

section Readings

variable {entries more : List (Entry β)}

theorem batches_append : batches (entries ++ more) = batches entries ++ batches more := by
  induction entries with
  | nil => rfl
  | cons entry rest ih =>
    cases entry with
    | write logged batch => exact congrArg (batch :: ·) ih
    | flush => exact ih

@[simp]
theorem dirty_flush : dirty (entries ++ [.flush]) = false := by
  simp [dirty]

@[simp]
theorem dirty_write (logged : Bool) (batch : β) :
    dirty (entries ++ [.write logged batch]) = (dirty entries || !logged) := by
  simp [dirty]

theorem dirty_of_unflushed (was : dirty entries = true) (unflushed : .flush ∉ more) :
    dirty (entries ++ more) = true := by
  induction more generalizing entries with
  | nil =>
    rw [append_nil]
    exact was
  | cons entry rest ih =>
    rw [append_cons]
    cases entry with
    | write logged batch =>
      refine ih ?_ (fun flushed => unflushed (mem_cons_of_mem _ flushed))
      rw [dirty_write, was, Bool.true_or]
    | flush => exact absurd mem_cons_self unflushed

end Readings

section Order

variable {entries early late : List (Entry β)}

theorem ordered_nil : Ordered ([] : List (Entry β)) := by
  intro early batch late split
  simp at split

theorem Ordered.init (ordered : Ordered (early ++ late)) : Ordered early := by
  rintro first batch rest rfl
  exact ordered first batch (rest ++ late) (by simp)

theorem Ordered.snoc {entry : Entry β} (ordered : Ordered entries)
    (clean : ∀ batch, entry = .write true batch → dirty entries = false) :
    Ordered (entries ++ [entry]) := by
  intro early batch late split
  rcases eq_nil_or_concat' late with rfl | ⟨inner, last, rfl⟩
  · obtain ⟨rfl, same⟩ := append_inj' split rfl
    cases same
    exact clean batch rfl
  rw [← cons_append, ← append_assoc] at split
  exact ordered early batch inner (append_inj_left' split rfl)

section

variable (ordered : Ordered (early ++ late)) (unflushed : .flush ∉ late)
include ordered unflushed

/-- Once a batch is neither logged nor flushed, none is logged before the next flush. -/
theorem logged_eq_nil_of_dirty (was : dirty early = true) : logged late = [] := by
  induction late generalizing early with
  | nil => rfl
  | cons entry rest ih =>
    have later : .flush ∉ rest := fun flushed => unflushed (mem_cons_of_mem _ flushed)
    have still : dirty (early ++ [entry]) = true :=
      dirty_of_unflushed was fun flushed =>
        unflushed (mem_singleton.mp flushed ▸ mem_cons_self)
    rw [append_cons] at ordered
    cases entry with
    | write isLogged batch =>
      rcases isLogged with _ | _
      · exact ih ordered later still
      have clean := ordered early batch rest (append_cons ..).symm
      rw [was] at clean
      cases clean
    | flush => exact absurd mem_cons_self unflushed

theorem logged_isPrefix : logged late <+: batches late := by
  induction late generalizing early with
  | nil => exact prefix_rfl
  | cons entry rest ih =>
    have later : .flush ∉ rest := fun flushed => unflushed (mem_cons_of_mem _ flushed)
    rw [append_cons] at ordered
    cases entry with
    | write isLogged batch =>
      cases isLogged with
      | true => exact prefix_cons_inj batch |>.mpr (ih ordered later)
      | false =>
        have was : dirty (early ++ [.write false batch]) = true := by simp
        change logged rest <+: _
        rw [logged_eq_nil_of_dirty ordered later was]
        exact nil_prefix
    | flush => exact absurd mem_cons_self unflushed

end

theorem Survives.isPrefix {left : List β} (ordered : Ordered entries)
    (survives : Survives entries left) : left <+: batches entries := by
  obtain ⟨early, late, rfl, unflushed, rfl⟩ := survives
  rw [batches_append]
  exact (prefix_append_right_inj _).mpr (logged_isPrefix ordered unflushed)

end Order

variable {apply : σ → β → σ} {base : σ} {good : σ → Prop} {entries : List (Entry β)}

theorem replay_snoc (done : List β) (batch : β) :
    replay apply base (done ++ [batch]) = apply (replay apply base done) batch := by
  simp [replay]

def Throughout (apply : σ → β → σ) (base : σ) (good : σ → Prop) (entries : List (Entry β)) : Prop :=
  ∀ done, done <+: batches entries → good (replay apply base done)

theorem throughout_nil (begun : good base) : Throughout apply base good [] := by
  intro done isPrefix
  cases prefix_nil.mp isPrefix
  exact begun

theorem Throughout.flush (throughout : Throughout apply base good entries) :
    Throughout apply base good (entries ++ [.flush]) := by
  unfold Throughout
  rw [batches_append]
  change ∀ done, done <+: batches entries ++ [] → _
  rw [append_nil]
  exact throughout

theorem Throughout.write {logged : Bool} {batch : β}
    (throughout : Throughout apply base good entries)
    (next : good (apply (replay apply base (batches entries)) batch)) :
    Throughout apply base good (entries ++ [.write logged batch]) := by
  intro done isPrefix
  rw [batches_append] at isPrefix
  rcases prefix_concat_iff.mp isPrefix with rfl | earlier
  · rw [replay_snoc]
    exact next
  · exact throughout done earlier

end Fortis.Lib.Journal
