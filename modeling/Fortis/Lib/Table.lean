import Mathlib

/-!
# Keyed tables

A table holds records in strictly increasing order of a key read from each of them, as a key-value
store iterates over one column family.  The order is a field, so no table holds two records with one
key.  `total` sums a weight over the stored records.
-/

namespace Fortis.Lib

open List Option

structure Table (κ α : Type) [LinearOrder κ] (key : α → κ) where
  rows : List α
  sorted : rows.Pairwise (fun first second => key first < key second)

namespace Table

variable {κ α : Type} [LinearOrder κ] {key : α → κ}

def empty : Table κ α key := ⟨[], List.Pairwise.nil⟩

def get? (table : Table κ α key) (k : κ) : Option α :=
  table.rows.find? (fun row => key row == k)

def insertRow (key : α → κ) (row : α) : List α → List α
  | [] => [row]
  | first :: rest =>
    if key row < key first then row :: first :: rest
    else if key row = key first then row :: rest
    else first :: insertRow key row rest

variable {rows : List α} {row other : α} {k : κ} (weight : α → Nat) (table : Table κ α key)

section

variable (sorted : rows.Pairwise (fun first second => key first < key second))
include sorted

theorem insertRow_perm :
    (insertRow key row rows).Perm (row :: rows.filter (fun other => key other ≠ key row)) := by
  induction rows with
  | nil => exact .refl _
  | cons first rest ih =>
    obtain ⟨below, restSorted⟩ := pairwise_cons.mp sorted
    have later (bound : key row ≤ key first) : ∀ x ∈ rest, decide (key x ≠ key row) = true :=
      fun x mem => decide_eq_true (ne_of_gt (lt_of_le_of_lt bound (below x mem)))
    unfold insertRow
    split
    next less =>
      rw [filter_eq_self.mpr]
      exact forall_mem_cons.mpr ⟨decide_eq_true (ne_of_gt less), later less.le⟩
    next notLess =>
    split
    next same => rw [filter_cons_of_neg (by simp [same]), filter_eq_self.mpr (later same.le)]
    next ne =>
    rw [filter_cons_of_pos (by simpa using Ne.symm ne)]
    exact ((ih restSorted).cons first).trans (.swap row first _)

theorem mem_insertRow :
    other ∈ insertRow key row rows ↔ other = row ∨ (other ∈ rows ∧ key other ≠ key row) := by
  simp [(insertRow_perm sorted).mem_iff]

theorem insertRow_sorted :
    (insertRow key row rows).Pairwise (fun first second => key first < key second) := by
  induction rows with
  | nil => simp [insertRow]
  | cons first rest ih =>
    obtain ⟨below, restSorted⟩ := pairwise_cons.mp sorted
    unfold insertRow
    split
    next less =>
      refine pairwise_cons.mpr ⟨fun x mem => ?_, sorted⟩
      rcases mem_cons.mp mem with rfl | later
      · exact less
      · exact lt_trans less (below x later)
    next notLess =>
    split
    next same =>
      exact pairwise_cons.mpr ⟨fun x mem => same ▸ below x mem, restSorted⟩
    next ne =>
    refine pairwise_cons.mpr ⟨fun x mem => ?_, ih restSorted⟩
    rcases (mem_insertRow restSorted).mp mem with rfl | ⟨later, _⟩
    · exact lt_of_le_of_ne (not_lt.mp notLess) (Ne.symm ne)
    · exact below x later

end

variable (table : Table κ α key)

def put (row : α) : Table κ α key :=
  ⟨insertRow key row table.rows, insertRow_sorted table.sorted⟩

def delete (k : κ) : Table κ α key :=
  ⟨table.rows.filter (fun row => key row ≠ k), table.sorted.filter _⟩

def retain (keep : α → Bool) : Table κ α key :=
  ⟨table.rows.filter keep, table.sorted.filter keep⟩

theorem keys_nodup : (table.rows.map key).Nodup := by
  rw [List.Nodup, pairwise_map]
  exact table.sorted.imp (fun less => ne_of_lt less)

variable {table}

theorem get?_eq_some_iff : table.get? k = some row ↔ row ∈ table.rows ∧ key row = k := by
  constructor
  · intro found
    exact ⟨mem_of_find?_eq_some found, by simpa using find?_some found⟩
  rintro ⟨mem, rfl⟩
  unfold get?
  rcases found : table.rows.find? (fun other => key other == key row) with _ | other
  · have unseen := find?_eq_none.mp found row mem
    simp at unseen
  have otherMember := mem_of_find?_eq_some found
  have sameKey : key other = key row := by simpa using find?_some found
  rw [inj_on_of_nodup_map table.keys_nodup otherMember mem sameKey]

theorem get?_eq_none_iff : table.get? k = none ↔ ∀ row ∈ table.rows, key row ≠ k := by
  simp [get?]

theorem key_of_get? (found : table.get? k = some row) : key row = k := (get?_eq_some_iff.mp found).2

theorem mem_of_get? (found : table.get? k = some row) :
    row ∈ table.rows := (get?_eq_some_iff.mp found).1

theorem get?_of_mem (mem : row ∈ table.rows) :
    table.get? (key row) = some row := get?_eq_some_iff.mpr ⟨mem, rfl⟩

theorem mem_put :
    other ∈ (table.put row).rows ↔ other = row ∨ (other ∈ table.rows ∧ key other ≠ key row) :=
  mem_insertRow table.sorted

@[simp]
theorem get?_empty (k : κ) : (empty : Table κ α key).get? k = none := rfl

variable (table)

@[simp]
theorem get?_put_self (row : α) : (table.put row).get? (key row) = some row :=
  get?_eq_some_iff.mpr ⟨mem_put.mpr (.inl rfl), rfl⟩

theorem get?_put_of_ne (ne : k ≠ key row) : (table.put row).get? k = table.get? k := by
  refine ext fun other => ?_
  rw [get?_eq_some_iff, get?_eq_some_iff, mem_put]
  constructor
  · rintro ⟨rfl | ⟨mem, _⟩, keyEq⟩
    · exact absurd keyEq.symm ne
    · exact ⟨mem, keyEq⟩
  rintro ⟨mem, keyEq⟩
  exact ⟨.inr ⟨mem, keyEq ▸ ne⟩, keyEq⟩

theorem get?_put (row : α) (k : κ) :
    (table.put row).get? k = if k = key row then some row else table.get? k := by
  split
  next same => rw [same, get?_put_self]
  next ne => exact get?_put_of_ne table ne

theorem get?_put_cases {table : Table κ α key} (found : (table.put row).get? k = some other) :
    (k = key row ∧ other = row) ∨ (k ≠ key row ∧ table.get? k = some other) := by
  rw [get?_put] at found
  split at found
  next same => exact .inl ⟨same, (some.inj found).symm⟩
  next ne => exact .inr ⟨ne, found⟩

/-- What the new record has, and every old one, every record has. -/
theorem forall_put {table : Table κ α key} {holds : κ → α → Prop} (new : holds (key row) row)
    (old : ∀ {k other}, table.get? k = some other → holds k other)
    (found : (table.put row).get? k = some other) : holds k other := by
  rcases get?_put_cases found with ⟨rfl, rfl⟩ | ⟨_, stored⟩
  · exact new
  · exact old stored

theorem get?_delete (gone k : κ) :
    (table.delete gone).get? k = if k = gone then none else table.get? k := by
  refine ext fun other => ?_
  rw [get?_eq_some_iff]
  split
  next same => simp [delete, same]
  next ne =>
  rw [get?_eq_some_iff]
  simp only [delete, mem_filter, decide_eq_true_eq]
  constructor
  · rintro ⟨⟨mem, _⟩, keyEq⟩
    exact ⟨mem, keyEq⟩
  rintro ⟨mem, keyEq⟩
  exact ⟨⟨mem, keyEq ▸ ne⟩, keyEq⟩

/-! ## Sums over a table -/

def total (weight : α → Nat) (table : Table κ α key) : Nat := (table.rows.map weight).sum

@[simp]
theorem total_empty : total weight (empty : Table κ α key) = 0 := rfl

theorem sum_insertRow (row : α)
    (sorted : rows.Pairwise (fun first second => key first < key second)) :
    ((insertRow key row rows).map weight).sum +
        ((rows.find? (fun other => key other == key row)).elim 0 weight) =
      (rows.map weight).sum + weight row := by
  rw [((insertRow_perm sorted).map weight).sum_eq, map_cons, sum_cons]
  induction rows with
  | nil => simp
  | cons first rest ih =>
    obtain ⟨below, restSorted⟩ := pairwise_cons.mp sorted
    by_cases same : key first = key row
    · rw [find?_cons_of_pos (by simp [same]), filter_cons_of_neg (by simp [same]),
        filter_eq_self.mpr fun x mem => by simpa [same] using ne_of_gt (below x mem)]
      simp only [map_cons, sum_cons, elim_some]
      omega
    rw [find?_cons_of_neg (by simp [same]), filter_cons_of_pos (by simp [same])]
    have inner := ih restSorted
    simp only [map_cons, sum_cons]
    omega

/-- A write exchanges the weight of the record it replaces for the new one's. -/
theorem total_put (row : α) : total weight (table.put row) + (table.get? (key row)).elim 0 weight =
      total weight table + weight row :=
  sum_insertRow weight row table.sorted

theorem total_put_new (fresh : table.get? (key row) = none) :
    total weight (table.put row) = total weight table + weight row := by
  have exchanged := total_put weight table row
  rw [fresh] at exchanged
  simpa using exchanged

theorem total_put_replace {old : α} (found : table.get? (key row) = some old) :
    total weight (table.put row) + weight old = total weight table + weight row := by
  have exchanged := total_put weight table row
  rw [found] at exchanged
  simpa using exchanged

theorem total_delete (gone : κ) :
    total weight (table.delete gone) + (table.get? gone).elim 0 weight = total weight table := by
  have kept : ∀ rows : List α, rows.Pairwise (fun first second => key first < key second) →
      ((rows.filter fun row => key row ≠ gone).map weight).sum +
          (rows.find? fun row => key row == gone).elim 0 weight = (rows.map weight).sum := by
    intro rows sorted
    induction rows with
    | nil => rfl
    | cons first rest ih =>
      obtain ⟨below, restSorted⟩ := pairwise_cons.mp sorted
      have inner := ih restSorted
      by_cases here : key first = gone
      · -- The keys are distinct, so nothing else goes.
        have missing : rest.find? (fun row => key row == gone) = none := by
          refine find?_eq_none.mpr fun row mem => ?_
          simpa [← here] using ne_of_gt (below row mem)
        rw [missing] at inner
        simp only [filter_cons, here, ne_eq, not_true_eq_false, decide_false,
          Bool.false_eq_true, if_false, find?_cons, beq_self_eq_true, elim_some,
          map_cons, sum_cons, elim_none] at inner ⊢
        omega
      simp only [filter_cons, here, ne_eq, not_false_eq_true, decide_true, if_true,
        find?_cons, beq_eq_false_iff_ne.mpr here, map_cons, sum_cons]
      simp only [ne_eq] at inner
      omega
  exact kept table.rows table.sorted

theorem weight_le_total {table : Table κ α key}
    (mem : row ∈ table.rows) : weight row ≤ total weight table :=
  single_le_sum (fun _ _ => Nat.zero_le _) _ (mem_map_of_mem mem)

theorem total_le_total {first second : α → Nat}
    (below : ∀ row ∈ table.rows, first row ≤ second row) :
      total first table ≤ total second table := by
  unfold total
  exact sum_le_sum below

theorem total_eq_zero {weight : α → Nat} {table : Table κ α key}
    (weightless : ∀ row ∈ table.rows, weight row = 0) : total weight table = 0 := by
  unfold total
  refine sum_eq_zero fun value mem => ?_
  obtain ⟨row, stored, rfl⟩ := mem_map.mp mem
  exact weightless row stored

end Table

end Fortis.Lib
