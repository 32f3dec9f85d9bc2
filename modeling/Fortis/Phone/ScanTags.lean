import Mathlib

/-!
# The restore scan

A restored phone asks the edge for the recovery tags of the indexes 0, 1, 2, … in
batches, until a gap of unknown indexes or the limit.  The scan is complete below the
limit: the gap counter runs over batch boundaries, and the scan stops only where no
later index could be reached.
-/

namespace Fortis.Phone

open List Function

variable {τ ρ : Type}

/-- What a scan has found, the highest index found, and how often the edge was asked. -/
structure Scan (ρ : Type) where
  found : List (Nat × ρ)
  highest : Int
  asked : Nat

section Scan

variable [DecidableEq τ] (tagAt : Nat → τ) (tagOf : ρ → τ) (answer : Nat → List τ → List ρ)

/-- `byTag[tag]`: of indexes with one tag the last stays in the map. -/
def byTag (start stop : Nat) (tag : τ) : Option Nat :=
  ((List.range' start (stop - start)).filter fun i => tagAt i = tag).getLast?

def topIndex (before : Int) (found : List (Nat × ρ)) : Int :=
  found.foldl (fun top pair => max top pair.1) before

/-- One call: the tags of `start until stop`, and what the edge answers to this call. -/
def Scan.ask (scan : Scan ρ) (start stop : Nat) : Scan ρ :=
  let tags := ((List.range' start (stop - start)).map tagAt).eraseDups
  let entries := (answer scan.asked tags).filterMap fun entry =>
    (byTag tagAt start stop (tagOf entry)).map fun i => (i, entry)
  ⟨scan.found ++ entries, topIndex scan.highest entries, scan.asked + 1⟩

def scanLoop (gap batch limit : Nat) : Nat → Nat → Scan ρ → Option (Scan ρ)
  | 0, _, _ => none
  | fuel + 1, start, scan =>
    if start < limit then
      -- Past Kotlin's `Int` the source goes on with a negative sum, which is not modelled.
      if 2 ^ 31 ≤ start + batch then none else
      let stop := min (start + batch) limit
      let scan := scan.ask tagAt tagOf answer start stop
      if stop - 1 - scan.highest ≥ gap then some scan
      else scanLoop gap batch limit fuel stop scan
    else some scan

/-- The scan, `none` if it never ends or a sum leaves the range of `Int`. -/
def scanTags (gap batch limit : Nat) : Option (Scan ρ) :=
  (scanLoop tagAt tagOf answer gap batch limit (limit + 1) 0 ⟨[], -1, 0⟩).map fun scan =>
    { scan with found := scan.found.insertionSort fun one two => one.1 ≤ two.1 }

variable {tagAt tagOf answer} {start stop : Nat} {scan : Scan ρ} {i : Nat}

theorem byTag_eq_some {tag : τ} (found : byTag tagAt start stop tag = some i) :
    start ≤ i ∧ i < stop ∧ tagAt i = tag := by
  have member := mem_filter.mp (mem_of_getLast? found)
  simp only [mem_range'_1, decide_eq_true_eq] at member
  exact ⟨member.1.1, by omega, member.2⟩

theorem byTag_of_range (nodup : Injective tagAt) (from' : start ≤ i)
    (upTo : i < stop) : byTag tagAt start stop (tagAt i) = some i := by
  cases found : byTag tagAt start stop (tagAt i) with
  | none =>
    have mem : i ∈ (range' start (stop - start)).filter fun j => tagAt j = tagAt i := by
      simp only [mem_filter, mem_range'_1, decide_true, and_true]
      omega
    rw [getLast?_eq_none_iff.mp found] at mem
    cases mem
  | some j => rw [nodup (byTag_eq_some found).2.2]

omit [DecidableEq τ] in
theorem le_topIndex (before : Int) (found : List (Nat × ρ)) :
    before ≤ topIndex before found ∧ ∀ pair ∈ found, (pair.1 : Int) ≤ topIndex before found := by
  induction found generalizing before with
  | nil => exact ⟨le_rfl, nofun⟩
  | cons first rest ih =>
    obtain ⟨above, others⟩ := ih (max before first.1)
    refine ⟨(le_max_left _ _).trans above, fun pair mem => ?_⟩
    rcases mem_cons.mp mem with rfl | later
    · exact (le_max_right _ _).trans above
    · exact others pair later

/-! ## Honest edges -/

/-- The edge answers for a tag it is asked exactly if the index is known; whatever
else it answers is for tags it was not asked. -/
def Honest (tagAt : Nat → τ) (tagOf : ρ → τ) (answer : Nat → List τ → List ρ)
    (known : Nat → Prop) : Prop :=
  ∀ call tags i, tagAt i ∈ tags → ((∃ entry ∈ answer call tags, tagOf entry = tagAt i) ↔ known i)

/-- Reached from 0 without `gap` unknown indexes in a row. -/
def Reachable (known : Nat → Prop) (gap i : Nat) : Prop :=
  ∀ first, first + gap ≤ i → ∃ j, first ≤ j ∧ j < first + gap ∧ known j

structure Scan.Covers (tagAt : Nat → τ) (tagOf : ρ → τ) (answer : Nat → List τ → List ρ)
    (batch limit start : Nat) (scan : Scan ρ) : Prop where
  tops : scan.highest = topIndex (-1) scan.found
  place : start = min (scan.asked * batch) limit
  calls : scan.asked ≤ (limit + batch - 1) / batch
  sound : ∀ known, Honest tagAt tagOf answer known →
    ∀ pair ∈ scan.found, known pair.1 ∧ tagOf pair.2 = tagAt pair.1
  complete : ∀ known, Honest tagAt tagOf answer known →
    ∀ i < start, known i → ∃ entry, (i, entry) ∈ scan.found

variable {batch limit : Nat} (gap : Nat)

theorem Scan.Covers.ask (nodup : Injective tagAt)
    (covers : scan.Covers tagAt tagOf answer batch limit start) (more : start < limit)
    (isStop : stop = min (start + batch) limit) (moves : 1 ≤ batch) :
    (scan.ask tagAt tagOf answer start stop).Covers tagAt tagOf answer batch limit stop := by
  unfold Scan.ask
  generalize isTags : ((range' start (stop - start)).map tagAt).eraseDups = tags
  have asked : ∀ i, start ≤ i → i < stop → tagAt i ∈ tags := by
    intro i from' upTo
    rw [← isTags, mem_eraseDups]
    exact mem_map_of_mem (by rw [mem_range'_1]; omega)
  have spent : scan.asked * batch = start := by
    have place := covers.place
    omega
  have answered : ∀ pair, (pair ∈ (answer scan.asked tags).filterMap fun entry =>
      (byTag tagAt start stop (tagOf entry)).map fun i => (i, entry)) ↔
      pair.2 ∈ answer scan.asked tags ∧ byTag tagAt start stop (tagOf pair.2) = some pair.1 := by
    rintro ⟨i, entry⟩
    simp only [mem_filterMap, Option.map_eq_some_iff, Prod.mk.injEq]
    constructor
    · rintro ⟨_, mem, _, isIndex, rfl, rfl⟩
      exact ⟨mem, isIndex⟩
    · exact fun ⟨mem, isIndex⟩ => ⟨entry, mem, i, isIndex, rfl, rfl⟩
  refine ⟨?_, ?_, ?_, fun known honest pair mem => ?_, fun known honest i upTo isKnown => ?_⟩
  · dsimp only
    rw [covers.tops, topIndex, topIndex, topIndex, foldl_append]
  · rw [Nat.add_mul, Nat.one_mul, spent, isStop]
  · rw [Nat.le_div_iff_mul_le (by omega), Nat.add_mul, Nat.one_mul, spent]
    omega
  · rcases mem_append.mp mem with old | new
    · exact covers.sound known honest pair old
    obtain ⟨mem, isIndex⟩ := (answered pair).mp new
    obtain ⟨from', upTo, isTag⟩ := byTag_eq_some isIndex
    exact ⟨(honest scan.asked tags pair.1 (asked _ from' upTo)).mp
      ⟨pair.2, mem, isTag.symm⟩, isTag.symm⟩
  by_cases before : i < start
  · obtain ⟨entry, old⟩ := covers.complete known honest i before isKnown
    exact ⟨entry, mem_append_left _ old⟩
  have from' : start ≤ i := Nat.le_of_not_lt before
  obtain ⟨entry, mem, isTag⟩ := (honest scan.asked tags i (asked i from' upTo)).mpr isKnown
  refine ⟨entry, mem_append_right _ ((answered _).mpr ⟨mem, ?_⟩)⟩
  rw [isTag]
  exact byTag_of_range nodup from' upTo

omit [DecidableEq τ] in
theorem Scan.Covers.reachable {known : Nat → Prop} (honest : Honest tagAt tagOf answer known)
    (covers : scan.Covers tagAt tagOf answer batch limit stop)
    (far : (stop : Int) - 1 - scan.highest ≥ gap) (reach : Reachable known gap i) :
    i < stop := by
  by_contra past
  obtain ⟨bottom, above⟩ := le_topIndex (-1) scan.found
  rw [← covers.tops] at bottom above
  obtain ⟨j, from', upTo, isKnown⟩ := reach (scan.highest + 1).toNat (by omega)
  obtain ⟨entry, found⟩ := covers.complete known honest j (by omega) isKnown
  have under := above _ found
  dsimp only at under
  omega

theorem scanLoop_ends (nodup : Injective tagAt) (moves : 1 ≤ batch)
    (small : limit + batch < 2 ^ 31) (fuel : Nat) (enough : limit - start < fuel)
    (covers : scan.Covers tagAt tagOf answer batch limit start) :
    ∃ last stop, scanLoop tagAt tagOf answer gap batch limit fuel start scan = some last ∧
      last.Covers tagAt tagOf answer batch limit stop ∧
        (limit ≤ stop ∨ (stop : Int) - 1 - last.highest ≥ gap) := by
  induction fuel generalizing start scan with
  | zero => omega
  | succ fuel ih =>
    unfold scanLoop
    split
    next more =>
      have later := covers.ask nodup more rfl moves
      rw [if_neg (by omega)]
      dsimp only
      split
      next far => exact ⟨_, _, rfl, later, .inr far⟩
      · exact ih (by omega) later
    next over' => exact ⟨scan, start, rfl, covers, .inl (by omega)⟩

end Scan

/-- A scan ends after at most limit / batch calls, rounded up.  With an honest edge it finds every
known index below the limit that is reached without a gap. -/
theorem scanTags_complete [DecidableEq τ] (tagAt : Nat → τ) (tagOf : ρ → τ)
    (answer : Nat → List τ → List ρ) (gap batch limit : Nat) (distinct : Injective tagAt)
    (moves : 1 ≤ batch) (small : limit + batch < 2 ^ 31) :
    ∃ scan, scanTags tagAt tagOf answer gap batch limit = some scan ∧
      scan.asked ≤ (limit + batch - 1) / batch ∧ scan.highest = topIndex (-1) scan.found ∧
      ∀ known, Honest tagAt tagOf answer known →
        (∀ i < limit, known i → Reachable known gap i → ∃ entry, (i, entry) ∈ scan.found) ∧
        ∀ pair ∈ scan.found, known pair.1 ∧ tagOf pair.2 = tagAt pair.1 := by
  have opened : (⟨[], -1, 0⟩ : Scan ρ).Covers tagAt tagOf answer batch limit 0 :=
    ⟨rfl, by simp, Nat.zero_le _, fun _ _ => nofun, fun _ _ => nofun⟩
  obtain ⟨last, stop, ends, covers, done⟩ :=
    scanLoop_ends gap distinct moves small (limit + 1) (by omega) opened
  let order (one two : Nat × ρ) : Prop := one.1 ≤ two.1
  have sorted : ∀ pair, pair ∈ last.found.insertionSort order ↔ pair ∈ last.found :=
    fun pair => mem_insertionSort _
  refine ⟨_, congrArg (Option.map _) ends, covers.calls, ?_,
    fun known honest => ⟨fun i below isKnown reach => ?_, fun pair mem => ?_⟩⟩
  · refine covers.tops.trans ((perm_insertionSort order last.found).foldl_eq' ?_ _).symm
    intro one _ two _ top
    omega
  · have within : i < stop := by
      rcases done with past | far
      · omega
      · exact covers.reachable gap honest far reach
    obtain ⟨entry, found⟩ := covers.complete known honest i within isKnown
    exact ⟨entry, (sorted _).mpr found⟩
  · exact covers.sound known honest pair ((sorted _).mp mem)

def knowing (known : List Nat) (_ : Nat) (tags : List Nat) : List Nat := tags.filter (· ∈ known)

theorem honest_knowing (known : List Nat) : Honest id id (knowing known) (· ∈ known) := by
  intro call tags i asked
  simp only [knowing, mem_filter, decide_eq_true_eq, id, exists_eq_right]
  exact and_iff_right asked

/-- The gap from 0 to 15 runs over eight batches. -/
theorem scanTags_complete_gap :
    ∃ scan, scanTags id id (knowing [0, 15]) 20 2 100 = some scan ∧ scan.asked ≤ 50 ∧
      ∃ entry, (15, entry) ∈ scan.found := by
  obtain ⟨scan, ends, calls, _, finds⟩ :=
    scanTags_complete id id (knowing [0, 15]) 20 2 100 injective_id (by decide) (by decide)
  refine ⟨scan, ends, calls, ?_⟩
  exact (finds _ (honest_knowing _)).1 15 (by decide) (by decide) fun first past => by omega

theorem scanTags_limited : Honest id id (knowing [0, 1]) (· ∈ [0, 1]) ∧
    Reachable (· ∈ [0, 1]) 20 1 ∧
      (scanTags id id (knowing [0, 1]) 20 1 1).map Scan.found = some [(0, 0)] :=
  ⟨honest_knowing _, fun first past => by omega, by decide⟩

end Fortis.Phone
