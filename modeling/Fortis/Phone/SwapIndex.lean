import Mathlib

/-!
# Swap indexes

A swap's keys follow from the seed and its index, so an index must not serve two
swaps.  The store counts up for each seed, skips what a record holds, takes the latest
draw back when the edge refused it, and counts on past what a restore scan found.  Each
is one atomic edit; the callers' edits come in any order.  A caller keeps the index it
drew over its tries, and gives it back when the edge refuses one of them.
-/

namespace Fortis.Phone

open List Function Nat

/-- What the counter reads of a swap's record; a record without a seed may be any's. -/
structure IndexRecord where
  id : String
  seed : Option String
  swapIndex : Nat
  deriving DecidableEq

structure IndexDoc where
  swapNext : String → Nat
  records : List IndexRecord

inductive IndexMove
  | draw (seed : String)
  | release (seed : String) (index : Nat)
  | bump (seed : String) (pastIndex : Nat)
  | put (record : IndexRecord)
  | remove (id : String)

/-- `while (out in taken) out++`, which passes each index of `taken` at most once. -/
def skipTaken (taken : List Nat) : Nat → Nat → Nat
  | 0, out => out
  | fuel + 1, out => if out ∈ taken then skipTaken taken fuel (out + 1) else out

namespace IndexDoc

variable (doc : IndexDoc) (seed : String)

def taken : List Nat :=
  (doc.records.filter fun record => record.seed = none ∨ record.seed = some seed).map
    IndexRecord.swapIndex

def nextSwapIndex : Nat :=
  skipTaken (doc.taken seed) (doc.taken seed).length (doc.swapNext seed)

def setNext (index : Nat) : IndexDoc :=
  { doc with swapNext := update doc.swapNext seed index }

def step (doc : IndexDoc) : IndexMove → IndexDoc
  | .draw seed => doc.setNext seed (doc.nextSwapIndex seed + 1)
  | .release seed index =>
    if doc.swapNext seed = index + 1 then doc.setNext seed index else doc
  | .bump seed pastIndex => doc.setNext seed (max (doc.swapNext seed) (pastIndex + 1))
  | .put record => { doc with
      records := doc.records.filter (fun other => other.id ≠ record.id) ++ [record] }
  | .remove id => { doc with records := doc.records.filter fun record => record.id ≠ id }

end IndexDoc

theorem le_skipTaken (taken : List Nat) (fuel out : Nat) : out ≤ skipTaken taken fuel out := by
  induction fuel generalizing out with
  | zero => exact le_refl out
  | succ fuel ih =>
    unfold skipTaken
    split
    · exact le_trans (le_succ out) (ih (out + 1))
    · exact le_refl out

theorem skipTaken_free (taken : List Nat) (fuel out : Nat)
    (enough : (taken.filter (out ≤ ·)).length ≤ fuel) : skipTaken taken fuel out ∉ taken := by
  induction fuel generalizing out with
  | zero =>
    intro mem
    have left : out ∈ taken.filter (out ≤ ·) := mem_filter.mpr ⟨mem, by simp⟩
    rw [length_eq_zero_iff.mp (le_zero.mp enough)] at left
    cases left
  | succ fuel ih =>
    unfold skipTaken
    split
    next mem =>
      refine ih (out + 1) (le_of_lt_succ (lt_of_lt_of_le ?_ enough))
      have fewer : taken.filter (out + 1 ≤ ·) = (taken.filter (out ≤ ·)).filter (out + 1 ≤ ·) := by
        rw [filter_filter]
        refine filter_congr fun index _ => ?_
        rw [← Bool.decide_and, decide_eq_decide]
        omega
      rw [fewer, length_filter_lt_length_iff_exists]
      exact ⟨out, mem_filter.mpr ⟨mem, by simp⟩, by simp⟩
    next free => exact free

namespace IndexDoc

variable {doc : IndexDoc} {seed : String} {past : Nat}

/-- The index drawn next is none of those in use. -/
theorem nextSwapIndex_free (doc : IndexDoc) (seed : String) :
    doc.nextSwapIndex seed ∉ doc.taken seed :=
  skipTaken_free _ _ _ (length_filter_le _ _)

theorem past_setNext {other : String} {index : Nat} (counted : past < doc.swapNext seed)
    (counts : seed = other → past < index) : past < (doc.setNext other index).swapNext seed := by
  change past < update doc.swapNext other index seed
  by_cases own : seed = other
  · subst own
    rw [update_self]
    exact counts rfl
  · rwa [update_of_ne own]

theorem le_nextSwapIndex (doc : IndexDoc) (seed : String) :
    doc.swapNext seed ≤ doc.nextSwapIndex seed :=
  le_skipTaken _ _ _

/-- Only giving back `past` itself brings the counter back to it. -/
theorem past_step (counted : past < doc.swapNext seed) (move : IndexMove)
    (kept : move ≠ .release seed past) :
    past < (doc.step move).swapNext seed := by
  cases move with
  | draw other =>
    refine past_setNext counted fun own => ?_
    have drawn := doc.le_nextSwapIndex other
    subst own
    omega
  | release other index =>
    simp only [step]
    split
    next latest =>
      refine past_setNext counted fun own => ?_
      subst own
      have apart : index ≠ past := fun same => kept (same ▸ rfl)
      omega
    · exact counted
  | bump other pastIndex =>
    refine past_setNext counted fun own => ?_
    subst own
    exact lt_of_lt_of_le counted (le_max_left _ _)
  | put record => exact counted
  | remove id => exact counted

end IndexDoc

/-! ## The callers -/

/-- A seed and an index of it: what a swap's keys follow from. -/
abbrev IndexKey := String × Nat

/-- How a try ends: the edge takes it and says so, takes it and the reply is lost, refuses it (a 4xx
other than the next), refuses its tag as used before, or nothing arrives. -/
inductive TryEnd
  | taken
  | lost
  | refused
  | indexUsed
  | failed
  deriving DecidableEq

inductive PhoneMove
  | draw (caller : Nat) (seed : String)
  | attempt (caller : Nat) (ended : TryEnd)
  | bump (seed : String) (pastIndex : Nat)
  | put (record : IndexRecord)
  | remove (id : String)

/-- The store, what each caller drew for its tries, the keys the edge has stored a swap under, and
those handed out and not given back unused since. -/
structure IndexPhone where
  doc : IndexDoc
  held : Nat → Option IndexKey
  stored : List IndexKey
  out : List IndexKey

namespace IndexPhone

def start (doc : IndexDoc) : IndexPhone := ⟨doc, fun _ => none, [], []⟩

variable (phone : IndexPhone)

/-- One try of a caller with the keys it holds. -/
def attempt (caller : Nat) (key : IndexKey) : TryEnd → IndexPhone
  | .taken => { phone with held := update phone.held caller none, stored := key :: phone.stored }
  | .lost => { phone with stored := key :: phone.stored }
  | .refused => { phone with
      doc := phone.doc.step (.release key.1 key.2)
      held := update phone.held caller none
      out := if key ∈ phone.stored then phone.out else phone.out.filter (· ≠ key) }
  | .indexUsed => { phone with held := update phone.held caller none }
  | .failed => phone

def step : PhoneMove → IndexPhone
  | .draw caller seed =>
    -- A retry keeps the keys of the try before.
    if phone.held caller = none then
      let key := (seed, phone.doc.nextSwapIndex seed)
      { phone with
        doc := phone.doc.step (.draw seed)
        held := update phone.held caller (some key)
        out := key :: phone.out }
    else phone
  | .attempt caller ended =>
    match phone.held caller with
    | none => phone
    | some key => phone.attempt caller key ended
  | .bump seed pastIndex => { phone with doc := phone.doc.step (.bump seed pastIndex) }
  | .put record => { phone with doc := phone.doc.step (.put record) }
  | .remove id => { phone with doc := phone.doc.step (.remove id) }

def run (moves : List PhoneMove) : IndexPhone := moves.foldl step phone

/-- No try is refused after the edge has taken another with the same keys. -/
def fair : PhoneMove → Bool
  | .attempt caller .refused => (phone.held caller).all (· ∉ phone.stored)
  | _ => true

def Fair : IndexPhone → List PhoneMove → Prop
  | _, [] => True
  | phone, move :: rest => phone.fair move = true ∧ (phone.step move).Fair rest

/-! ## What is handed out -/

/-- The keys handed out and not given back are counted past, and each caller's are its own. -/
structure Counted (phone : IndexPhone) : Prop where
  past : ∀ key ∈ phone.out, key.2 < phone.doc.swapNext key.1
  out : ∀ caller key, phone.held caller = some key → key ∈ phone.out
  own : ∀ caller other key, phone.held caller = some key → phone.held other = some key →
    caller = other

variable {phone : IndexPhone} {key : IndexKey} {caller : Nat} {move : PhoneMove}
  {moves : List PhoneMove}

/-- What a caller holds once one of them holds something else. -/
theorem held_of_update {other : Nat} {new : Option IndexKey}
    (held : update phone.held caller new other = some key) :
    other = caller ∧ new = some key ∨ other ≠ caller ∧ phone.held other = some key := by
  by_cases same : other = caller
  · rw [same, update_self] at held
    exact .inl ⟨same, held⟩
  · rw [update_of_ne same] at held
    exact .inr ⟨same, held⟩

theorem held_of_dropped {other : Nat} (held : update phone.held caller none other = some key) :
    other ≠ caller ∧ phone.held other = some key :=
  (held_of_update held).resolve_left (by simp)

theorem counted_attempt (counted : phone.Counted) (holds : phone.held caller = some key)
    {ended : TryEnd} (fair : phone.fair (.attempt caller ended) = true) :
    (phone.attempt caller key ended).Counted := by
  have dropped : ∀ one other shared, update phone.held caller none one = some shared →
      update phone.held caller none other = some shared → one = other :=
    fun one other shared first second =>
      counted.own one other shared (held_of_dropped first).2 (held_of_dropped second).2
  have kept : ∀ one shared, update phone.held caller none one = some shared →
      shared ∈ phone.out := fun one shared held => counted.out one shared (held_of_dropped held).2
  cases ended with
  | taken => exact ⟨counted.past, kept, dropped⟩
  | lost => exact ⟨counted.past, counted.out, counted.own⟩
  | refused =>
    have unused : key ∉ phone.stored := by simpa [IndexPhone.fair, holds] using fair
    unfold IndexPhone.attempt
    rw [if_neg unused]
    refine ⟨fun other mem => ?_, fun one shared held => ?_, dropped⟩
    · obtain ⟨isOut, apart⟩ := mem_filter.mp mem
      refine IndexDoc.past_step (counted.past other isOut) _ fun same => ?_
      obtain ⟨seed, index⟩ := IndexMove.release.inj same
      exact (of_decide_eq_true apart) (Prod.ext seed.symm index.symm)
    · -- Another caller's keys are not the ones given back.
      obtain ⟨other, before⟩ := held_of_dropped held
      refine mem_filter.mpr ⟨counted.out one shared before, decide_eq_true fun same => other ?_⟩
      exact counted.own one caller shared before (same ▸ holds)
  | indexUsed => exact ⟨counted.past, kept, dropped⟩
  | failed => exact counted

/-- Each move keeps every index handed out behind its counter. -/
theorem counted_step (counted : phone.Counted) (fair : phone.fair move = true) :
    (phone.step move).Counted := by
  cases move with
  | draw caller seed =>
    simp only [step]
    split
    next free =>
      have next := phone.doc.le_nextSwapIndex seed
      -- The index drawn is above all that are held.
      have above : ∀ holder, phone.held holder ≠ some (seed, phone.doc.nextSwapIndex seed) := by
        intro holder held
        have low := counted.past _ (counted.out holder _ held)
        dsimp only at low
        omega
      refine ⟨fun key mem => ?_, fun one key held => ?_, fun one other key first second => ?_⟩
      · rcases mem_cons.mp mem with rfl | before
        · simp [IndexDoc.step, IndexDoc.setNext]
        · exact IndexDoc.past_step (counted.past key before) (.draw seed) (by simp)
      · rcases held_of_update held with ⟨_, drawn⟩ | ⟨_, before⟩
        · cases drawn
          exact mem_cons_self
        · exact mem_cons_of_mem _ (counted.out one key before)
      · rcases held_of_update first with ⟨sameOne, drawn⟩ | ⟨_, before⟩ <;>
          rcases held_of_update second with ⟨sameOther, drawn'⟩ | ⟨_, before'⟩
        · exact sameOne.trans sameOther.symm
        · exact absurd (before'.trans drawn.symm) (above other)
        · exact absurd (before.trans drawn'.symm) (above one)
        · exact counted.own one other key before before'
    next => exact counted
  | attempt caller ended =>
    simp only [step]
    split
    next => exact counted
    next key holds => exact counted_attempt counted holds fair
  | bump seed pastIndex =>
    refine ⟨fun key mem => ?_, counted.out, counted.own⟩
    exact IndexDoc.past_step (counted.past key mem) (.bump seed pastIndex) (by simp)
  | put record => exact ⟨counted.past, counted.out, counted.own⟩
  | remove id => exact ⟨counted.past, counted.out, counted.own⟩

theorem counted_run (counted : phone.Counted) (fair : phone.Fair moves) :
    (phone.run moves).Counted := by
  induction moves generalizing phone with
  | nil => exact counted
  | cons move rest ih => exact ih (counted_step counted fair.1) fair.2

/-! ## Past a bump -/

/-- The counter is past an index that nobody holds. -/
def Past (seed : String) (past : Nat) (phone : IndexPhone) : Prop :=
  past < phone.doc.swapNext seed ∧ ∀ caller, phone.held caller ≠ some (seed, past)

variable {seed : String}

theorem past_step {past : Nat} (isPast : phone.Past seed past) :
    (phone.step move).Past seed past := by
  obtain ⟨above, free⟩ := isPast
  cases move with
  | draw caller other =>
    simp only [step]
    split
    next =>
      refine ⟨IndexDoc.past_step above (.draw other) (by simp), fun one held => ?_⟩
      rcases held_of_update held with ⟨_, drawn⟩ | ⟨_, before⟩
      · have next := phone.doc.le_nextSwapIndex other
        cases drawn
        omega
      · exact free one before
    next => exact ⟨above, free⟩
  | attempt caller ended =>
    simp only [step]
    split
    next => exact ⟨above, free⟩
    next key holds =>
      have others : ∀ one, update phone.held caller none one ≠ some (seed, past) :=
        fun one held => free one (held_of_dropped held).2
      cases ended with
      | taken => exact ⟨above, others⟩
      | lost => exact ⟨above, free⟩
      | refused =>
        refine ⟨IndexDoc.past_step above _ fun same => ?_, others⟩
        obtain ⟨isSeed, isIndex⟩ := IndexMove.release.inj same
        exact free caller (holds.trans (congrArg some (Prod.ext isSeed isIndex)))
      | indexUsed => exact ⟨above, others⟩
      | failed => exact ⟨above, free⟩
  | bump other pastIndex => exact ⟨IndexDoc.past_step above (.bump other pastIndex) (by simp), free⟩
  | put record => exact ⟨above, free⟩
  | remove id => exact ⟨above, free⟩

theorem past_run {past : Nat} (isPast : phone.Past seed past) :
    (phone.run moves).Past seed past := by
  induction moves generalizing phone with
  | nil => exact isPast
  | cons move rest ih => exact ih (past_step isPast)

/-- The latest draw, refused, is the next one. -/
theorem next_of_refused {index : Nat} (holds : phone.held caller = some (seed, index))
    (latest : phone.doc.swapNext seed = index + 1) (free : index ∉ phone.doc.taken seed) :
    (phone.step (.attempt caller .refused)).doc.nextSwapIndex seed = index := by
  have given : (phone.step (.attempt caller .refused)).doc = phone.doc.setNext seed index := by
    simp [step, attempt, holds, IndexDoc.step, latest]
  rw [given]
  change skipTaken (phone.doc.taken seed) (phone.doc.taken seed).length
    (update phone.doc.swapNext seed index seed) = index
  rw [update_self]
  cases (phone.doc.taken seed).length with
  | zero => rfl
  | succ fuel => rw [skipTaken, if_neg free]

end IndexPhone

open IndexPhone

/-- No index that a record holds is handed out.  While no try is refused after the edge has taken
one with the same keys, an index is handed out again only if it was given back unused since.  After
a bump past an index that no caller holds, none at or below it is handed out.  A refused try of the
latest draw is the next draw, whatever the edge stored under it and whatever was bumped past. -/
theorem swap_index_fresh (doc : IndexDoc) (moves : List PhoneMove) :
    let phone := (start doc).run moves
    (∀ seed, phone.doc.nextSwapIndex seed ∉ phone.doc.taken seed) ∧
      ((start doc).Fair moves → ∀ seed, (seed, phone.doc.nextSwapIndex seed) ∉ phone.out) ∧
      (∀ seed past, (∀ caller, phone.held caller ≠ some (seed, past)) → ∀ later,
        past < ((phone.step (.bump seed past)).run later).doc.nextSwapIndex seed) ∧
      ∀ caller seed index, phone.held caller = some (seed, index) →
        phone.doc.swapNext seed = index + 1 → index ∉ phone.doc.taken seed →
          (phone.step (.attempt caller .refused)).doc.nextSwapIndex seed = index ∧
            ((phone.step (.bump seed index)).step
              (.attempt caller .refused)).doc.nextSwapIndex seed = index := by
  refine ⟨fun seed => ?_, fun fair seed isOut => ?_, fun seed past free later => ?_, ?_⟩
  · exact IndexDoc.nextSwapIndex_free _ seed
  · have counted : (start doc).Counted := ⟨by simp [start], by simp [start], by simp [start]⟩
    have low := (counted_run counted fair).past _ isOut
    have next := ((start doc).run moves).doc.le_nextSwapIndex seed
    dsimp only at low
    omega
  · have bumped : (((start doc).run moves).step (.bump seed past)).Past seed past := by
      refine ⟨?_, free⟩
      simp [step, IndexDoc.step, IndexDoc.setNext]
    exact (past_run bumped).1.trans_le (IndexDoc.le_nextSwapIndex _ _)
  · intro caller seed index holds latest free
    refine ⟨next_of_refused holds latest free, next_of_refused holds ?_ free⟩
    simp [step, IndexDoc.step, IndexDoc.setNext, latest]

/-- Index 0 is drawn, a restore scan bumps past it, and the refused draw is given back; or its first
try is taken, the reply is lost, and the second is refused. -/
theorem bumped_index_reused :
    let empty := start ⟨fun _ => 0, []⟩
    (empty.run [.draw 1 "seed", .bump "seed" 0, .attempt 1 .refused]).doc.nextSwapIndex "seed" = 0 ∧
      let retried := empty.run [.draw 1 "seed", .attempt 1 .lost, .attempt 1 .refused]
      retried.doc.nextSwapIndex "seed" = 0 ∧ ("seed", 0) ∈ retried.stored := by
  decide

end Fortis.Phone
