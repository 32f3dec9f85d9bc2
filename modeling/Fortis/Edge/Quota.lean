import Fortis.Lib.Table

/-!
# The byte quota of the backup proxy

A write of the backup store is charged to its install's window before it is forwarded, and given
back when it did not reach the store.  A give-back names the key and the size only, so it reaches
the window that is current when it comes.  The quota of all installs is a second such map.
-/

namespace Fortis.Edge.Vss

structure QuotaEntry where
  key : String
  (start used : Nat)
deriving DecidableEq

structure QuotaMap where
  entries : Lib.Table String QuotaEntry QuotaEntry.key
  lastSweep : Option Nat

/-- The bounds of a quota; times are in nanoseconds. -/
structure ByteQuota where
  (limit window maxKeys : Nat)
  windowPos : 0 < window

namespace QuotaMap

def empty : QuotaMap := ⟨Lib.Table.empty, none⟩

def set (map : QuotaMap) (row : QuotaEntry) : QuotaMap :=
  { map with entries := map.entries.put row }

def refund (map : QuotaMap) (key : String) (bytes : Nat) : QuotaMap :=
  match map.entries.get? key with
  | some row => map.set { row with used := row.used - bytes }
  | none => map

end QuotaMap

namespace ByteQuota

/-- A full map drops its expired windows, and when none goes the tenth of its keys used least. -/
def makeRoom (quota : ByteQuota) (map : QuotaMap) (now : Nat) : QuotaMap :=
  let swept := if map.lastSweep.all fun last => 10000000000 ≤ now - last then
      ⟨map.entries.retain fun row => now - row.start < quota.window, some now⟩
    else map
  if quota.maxKeys ≤ swept.entries.rows.length then
    -- the rows stand in the order of their keys, so a stable sort orders ties by key
    let byUsed := swept.entries.rows.insertionSort fun first second => first.used ≤ second.used
    let gone := byUsed.take (max (quota.maxKeys / 10) 1)
    { swept with entries := gone.foldl (fun entries row => entries.delete row.key) swept.entries }
  else swept

def rolled (quota : ByteQuota) (row : QuotaEntry) (now : Nat) : QuotaEntry :=
  if quota.window ≤ now - row.start then { row with start := now, used := 0 } else row

def chargeAt (quota : ByteQuota) (map : QuotaMap) (key : String) (bytes now : Nat) :
    Bool × QuotaMap :=
  if quota.limit < bytes then (false, map)
  else match map.entries.get? key with
    | some row =>
      let row := quota.rolled row now
      if row.used + bytes ≤ quota.limit then (true, map.set { row with used := row.used + bytes })
      else (false, map.set row)
    | none =>
      let map := if quota.maxKeys ≤ map.entries.rows.length then quota.makeRoom map now else map
      (true, map.set ⟨key, now, bytes⟩)

end ByteQuota

/-- A charge that was taken, the window it went to, and whether it was given back. -/
structure Charge where
  key : String
  (bytes start : Nat)
  back : Bool

structure QuotaRun where
  map : QuotaMap
  charges : List Charge

/-- One section under the map's lock: a charge at a clock reading, or the give-back of an earlier
charge by its number. -/
inductive QuotaMove where
  | charge (key : String) (bytes now : Nat)
  | giveBack (number : Nat)

def QuotaRun.start : QuotaRun := ⟨QuotaMap.empty, []⟩

def ByteQuota.step (quota : ByteQuota) (run : QuotaRun) : QuotaMove → QuotaRun
  | .charge key bytes now =>
    match quota.chargeAt run.map key bytes now with
    | (true, map) =>
      let start := (map.entries.get? key).elim 0 QuotaEntry.start
      ⟨map, run.charges ++ [⟨key, bytes, start, false⟩]⟩
    | (false, map) => { run with map := map }
  | .giveBack number =>
    match run.charges[number]? with
    | some charge =>
      if charge.back then run
      else ⟨run.map.refund charge.key charge.bytes,
        run.charges.set number { charge with back := true }⟩
    | none => run

def standing (charges : List Charge) (key : String) (start : Nat) : Nat :=
  (charges.map fun charge =>
    if charge.key = key ∧ charge.start = start ∧ charge.back = false then charge.bytes else 0).sum

/-- A charge of a new key finds room, and a give-back comes while the window of its charge is the
current one. -/
def ByteQuota.OnTime (quota : ByteQuota) (run : QuotaRun) : QuotaMove → Prop
  | .charge key _ _ =>
    run.map.entries.get? key = none → run.map.entries.rows.length < quota.maxKeys
  | .giveBack number => ∀ charge, run.charges[number]? = some charge → charge.back = false →
      ∃ row, run.map.entries.get? charge.key = some row ∧ row.start = charge.start

/-- Every move of a run comes on time. -/
def ByteQuota.Timely (quota : ByteQuota) : QuotaRun → List QuotaMove → Prop
  | _, [] => True
  | run, move :: rest => quota.OnTime run move ∧ quota.Timely (quota.step run move) rest

theorem standing_append (charges : List Charge) (key other : String) (bytes start at_ : Nat) :
    standing (charges ++ [⟨key, bytes, start, false⟩]) other at_ =
      standing charges other at_ + if key = other ∧ start = at_ then bytes else 0 := by
  simp [standing]

theorem standing_set {charges : List Charge} {number : Nat} {charge : Charge}
    (found : charges[number]? = some charge) (kept : charge.back = false) (key : String)
    (start : Nat) :
    standing (charges.set number { charge with back := true }) key start +
      (if charge.key = key ∧ charge.start = start then charge.bytes else 0) =
      standing charges key start := by
  induction charges generalizing number with
  | nil => simp at found
  | cons head rest ih =>
    rcases number with _ | number
    · obtain rfl : head = charge := by simpa using found
      simp [standing, kept, Nat.add_comm]
    have inner := ih (by simpa using found)
    simp only [standing, List.set_cons_succ, List.map_cons, List.sum_cons] at inner ⊢
    omega

section Runs

variable {quota : ByteQuota} {map : QuotaMap} {taken : String → Nat → Nat}

/-- Each entry holds what its window took, no window later than the entry's took anything, and no
window passed the limit. -/
structure Kept (quota : ByteQuota) (map : QuotaMap) (taken : String → Nat → Nat) : Prop where
  exact : ∀ {key row}, map.entries.get? key = some row → row.used = taken key row.start
  latest : ∀ {key start}, (∀ row, map.entries.get? key = some row → row.start < start) →
    taken key start = 0
  within : ∀ key start, taken key start ≤ quota.limit

/-- An entry set to the last window of its key keeps the books. -/
theorem Kept.set (kept : Kept quota map taken) {row : QuotaEntry} {after : String → Nat → Nat}
    (within : row.used ≤ quota.limit)
    (latest : ∀ start, row.start < start → taken row.key start = 0)
    (exact : after row.key row.start = row.used)
    (others : ∀ key start, ¬(key = row.key ∧ start = row.start) →
      after key start = taken key start) : Kept quota (map.set row) after where
  exact {key other} found := by
    rcases Lib.Table.get?_put_cases found with ⟨same, rfl⟩ | ⟨ne, old⟩
    · rw [same, exact]
    · rw [others key other.start fun both => ne both.1]
      exact kept.exact old
  latest {key start} later := by
    simp only [QuotaMap.set, Lib.Table.get?_put] at later
    by_cases same : key = row.key
    · have past : row.start < start := later row (by simp [same])
      rw [others key start fun both => past.ne' both.2, same]
      exact latest start past
    · rw [others key start fun both => same both.1]
      exact kept.latest fun other found => later other (by simpa [same])
  within key start := by
    by_cases same : key = row.key ∧ start = row.start
    · rw [same.1, same.2, exact]
      exact within
    · rw [others key start same]
      exact kept.within key start

/-- The entry a charge finds, or would open. -/
def ByteQuota.current (quota : ByteQuota) (map : QuotaMap) (key : String) (now : Nat) :
    QuotaEntry :=
  match map.entries.get? key with
  | some row => quota.rolled row now
  | none => ⟨key, now, 0⟩

/-- While there is room a charge only touches the entry of its key. -/
theorem ByteQuota.chargeAt_eq {key : String} {bytes now : Nat}
    (room : map.entries.get? key = none → map.entries.rows.length < quota.maxKeys) :
    quota.chargeAt map key bytes now =
      if quota.limit < bytes then (false, map)
      else
        let row := quota.current map key now
        if row.used + bytes ≤ quota.limit then
          (true, map.set { row with used := row.used + bytes })
        else (false, map.set row) := by
  unfold chargeAt current
  split
  · rfl
  next small =>
  cases found : map.entries.get? key with
  | some row => rfl
  | none =>
    have fits : ¬ quota.maxKeys ≤ map.entries.rows.length := Nat.not_le.mpr (room found)
    simp [fits, Nat.not_lt.mp small]

theorem Kept.current (kept : Kept quota map taken) (key : String) (now : Nat) :
    let row := quota.current map key now
    row.key = key ∧ row.used = taken key row.start ∧
      ∀ start, row.start < start → taken key start = 0 := by
  unfold ByteQuota.current
  rcases found : map.entries.get? key with _ | row
  · have nothing : ∀ start, taken key start = 0 := fun start =>
      kept.latest fun row other => nomatch found.symm.trans other
    exact ⟨rfl, (nothing now).symm, fun start _ => nothing start⟩
  have named : row.key = key := Lib.Table.key_of_get? found
  have past : ∀ start, row.start < start → taken key start = 0 := fun start later =>
    kept.latest fun other same => by
      obtain rfl := Option.some.inj (found.symm.trans same)
      exact later
  dsimp only [ByteQuota.rolled]
  split
  next expired =>
    -- a window has a length, so the new one starts after the old
    have positive := quota.windowPos
    exact ⟨named, (past now (by omega)).symm,
      fun start (later : now < start) => past start (by omega)⟩
  · exact ⟨named, kept.exact found, past⟩

/-- A charge or refund keeps the entry equal to the charges that stand. -/
theorem Kept.step {run : QuotaRun} (kept : Kept quota run.map (standing run.charges))
    {move : QuotaMove} (timely : quota.OnTime run move) :
    Kept quota (quota.step run move).map (standing (quota.step run move).charges) := by
  cases move with
  | charge key bytes now =>
    obtain ⟨named, exact, latest⟩ := kept.current key now
    rw [ByteQuota.step, ByteQuota.chargeAt_eq timely]
    generalize quota.current run.map key now = row at *
    subst named
    dsimp only
    split_ifs with large fits
    · exact kept
    · refine kept.set (by exact fits) (by exact latest) ?_ fun key start other => ?_
      · simp [standing_append, QuotaMap.set, exact]
      · have ne : ¬(row.key = key ∧ row.start = start) := fun both =>
          other ⟨both.1.symm, both.2.symm⟩
        simp [standing_append, QuotaMap.set, ne]
    · exact kept.set (exact ▸ kept.within row.key row.start) latest exact.symm fun _ _ _ => rfl
  | giveBack number =>
    rw [ByteQuota.step]
    split
    next charge found =>
      split_ifs with back
      · exact kept
      have unspent : charge.back = false := by simpa using back
      obtain ⟨row, current, same⟩ := timely charge found unspent
      have sum := standing_set found unspent
      obtain ⟨key, bytes, start, _⟩ := charge
      obtain rfl : row.key = key := Lib.Table.key_of_get? current
      obtain rfl : row.start = start := same
      have exact := kept.exact current
      dsimp only [QuotaMap.refund]
      rw [current]
      have within : row.used - bytes ≤ quota.limit :=
        Nat.le_trans (Nat.sub_le _ _) (exact ▸ kept.within _ _)
      refine kept.set (by exact within) (fun after later => ?_) ?_ fun key start other => ?_
      · refine kept.latest fun latest found => ?_
        cases current.symm.trans found
        exact later
      · have own := sum row.key row.start
        rw [if_pos ⟨rfl, rfl⟩, ← exact] at own
        dsimp only at own ⊢
        omega
      · have rest := sum key start
        rwa [if_neg fun both => other ⟨both.1.symm, both.2.symm⟩] at rest
    · exact kept

end Runs

/-- Where keys find room and give-backs come within their window, no window holds more standing
bytes than the limit, and the current one has used exactly what stands. -/
theorem quota_window_within_limit (quota : ByteQuota) (moves : List QuotaMove)
    (timely : quota.Timely QuotaRun.start moves) :
    let run := moves.foldl quota.step QuotaRun.start
    (∀ key start, standing run.charges key start ≤ quota.limit) ∧
      ∀ key row, run.map.entries.get? key = some row →
        row.used = standing run.charges key row.start := by
  have first : Kept quota QuotaRun.start.map (standing QuotaRun.start.charges) :=
    ⟨nofun, fun _ => rfl, fun _ _ => Nat.zero_le _⟩
  generalize QuotaRun.start = run at first timely ⊢
  induction moves generalizing run with
  | nil => exact ⟨first.within, fun _ _ => first.exact⟩
  | cons move rest ih => exact ih (quota.step run move) (first.step timely.1) timely.2

def sampleQuota : ByteQuota := ⟨100, 3600, 10, by decide⟩

theorem quota_window_within_limit_given_back :
    let run := [.charge "a" 60 0, .giveBack 0, .charge "a" 60 9].foldl sampleQuota.step
      QuotaRun.start
    (∀ key start, standing run.charges key start ≤ 100) ∧
      ∀ key row, run.map.entries.get? key = some row →
        row.used = standing run.charges key row.start :=
  quota_window_within_limit sampleQuota _ (by
    refine ⟨fun _ => by decide, fun charge found _ => ?_, nofun, trivial⟩
    obtain rfl := Option.some.inj found
    exact ⟨⟨"a", 0, 60⟩, by decide⟩)

/-- A write given back in the next window frees room there: it takes 160 bytes, of 100. -/
theorem late_give_back_passes_limit :
    standing ([.charge "a" 60 0, .charge "a" 100 3600, .giveBack 0, .charge "a" 60 3600].foldl
      sampleQuota.step QuotaRun.start).charges "a" 3600 = 160 := by
  decide

end Fortis.Edge.Vss
