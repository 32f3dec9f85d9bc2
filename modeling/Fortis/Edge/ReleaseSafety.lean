import Fortis.Edge.Lifecycle

/-!
# Release and funding

A participant who signs a release gives up the initiator's coins.  The signatures are recorded only
for a cancelled match with nothing of the participant's locked, and a match that holds them stays
cancelled for good.  Its BTC funding can still be recorded afterwards: a funding read as payable
before the release is written after it.
-/

namespace Fortis.Edge

open Fortis.Core Lib Option

def ReleasedIsOver (m : Match) : Prop := m.releaseSigs ≠ none → m.status = .cancelled

theorem releasedIsOver_of_made {m : Match} (made : Made m) : ReleasedIsOver m := by
  obtain ⟨_, _, _, _, rfl⟩ := made
  exact fun released => absurd rfl released

variable {m now : Match}

theorem MatchStep.releasedIsOver (step : MatchStep m now)
    (ended : ReleasedIsOver m) : ReleasedIsOver now := by
  -- A step that needs another status finds no signatures.
  have unreleased : m.status ≠ .cancelled → m.releaseSigs = none := fun live =>
    not_not.mp fun released => live (ended released)
  cases step with
  | accepts accepted proposed =>
    intro released
    exact absurd (unreleased (by simp [proposed])) released
  | releases sigs finished unset =>
    intro _
    simp only [releasable, decide_eq_true_eq] at finished
    exact finished.2.1
  | funds role outpoint turn slot =>
    intro released
    have live : m.status ≠ .cancelled := by
      rw [turn]
      cases role <;> decide
    cases role <;> exact absurd (unreleased live) released
  | reinstates missed funded =>
    intro released
    simp only [eligible, decide_eq_true_eq] at missed
    exact absurd missed.2.2 released
  | closes time funded =>
    intro released
    have live : m.status ≠ .cancelled := by
      rcases funded with turn | turn <;> simp [turn]
    exact absurd (unreleased live) released
  | cancels | misses => exact fun _ => rfl
  | records chain => cases chain <;> exact ended
  | rekeys role => cases role <;> exact ended
  | keys | hashlock | requests | clock => exact ended

theorem Moved.releasedIsOver (moved : Moved m now) (ended : ReleasedIsOver m) :
    ReleasedIsOver now := by
  rcases moved with ⟨_, _, rfl⟩ | step
  · exact ended
  · exact step.releasedIsOver ended

theorem releasedIsOver_of_moves (moves : Relation.ReflTransGen Moved m now)
    (ended : ReleasedIsOver m) : ReleasedIsOver now := by
  induction moves with
  | refl => exact ended
  | tail _ moved ih => exact moved.releasedIsOver ih

theorem Moved.releasable (moved : Moved m now) (unreleased : m.releaseSigs = none)
    (released : now.releaseSigs ≠ none) : releasable m = true := by
  rcases moved with ⟨_, _, rfl⟩ | step
  · exact absurd unreleased released
  cases step with
  | releases sigs finished unset => exact finished
  | funds role => cases role <;> exact absurd unreleased released
  | records chain => cases chain <;> exact absurd unreleased released
  | rekeys role => cases role <;> exact absurd unreleased released
  | _ => exact absurd unreleased released

/-- Release signatures are recorded only for a cancelled match with the XBT locked and no BTC
funding, and a match that holds them stays cancelled. -/
theorem release_ends_match (sw : Swap) {ids : List String} (distinct : ids.Nodup)
    (moves later : EdgeRun) {id : String} {m now : Match}
    (stored : (storeAfter sw ids moves).getMatch id = some m)
    (held : (storeAfter sw ids (moves ++ later)).getMatch id = some now) :
    (∀ sigs, m.releaseSigs = some sigs →
      m.status = .cancelled ∧ now.status = .cancelled ∧ now.releaseSigs = some sigs) ∧
      ∀ step, later = [step] → m.releaseSigs = none → now.releaseSigs ≠ none →
        m.status = .cancelled ∧ m.xbtFunding ≠ none ∧ m.btcFunding = none := by
  have fresh := fresh_storeAfter sw distinct moves
  obtain ⟨made, isMade, path⟩ := made_storeAfter sw distinct moves stored
  have ended := releasedIsOver_of_moves path (releasedIsOver_of_made isMade)
  have moved := (follows_between sw ids moves later).moved fresh stored held
  constructor
  · intro sigs signed
    have kept : now.releaseSigs = some sigs := (setOnce_of_moves moved).releaseSigs signed
    refine ⟨ended (by simp [signed]), releasedIsOver_of_moves moved ended (by simp [kept]), kept⟩
  rintro step rfl unreleased released
  have finished := ((follows_step sw ids moves step).moved fresh stored held).releasable
    unreleased released
  simp only [releasable, decide_eq_true_eq] at finished
  refine ⟨finished.2.1, ?_, finished.2.2.2⟩
  exact isSome_iff_ne_none.mp finished.2.2.1

namespace LifecycleSample

open HtlcSample AgreementSample

def afterDeadline : Outside := ⟨1699999999, some view, false⟩

/-- The participant misses its deadline; its late `funded` reads the match and pauses before the
lock. -/
def lateFunded : EdgeRun :=
  inTurn ⟨1699913610, some view, false⟩ 0 (opening ++ [(.pass, 14)]) ++ inTurn afterDeadline 10
      [(.pass, 10), (sends .participant (.funded "btc" prevout.txid.toStr prevout.vout), 5)]

/-- Meanwhile the release is asked for and signed. -/
def released : EdgeRun :=
  lateFunded ++ inTurn afterDeadline 12
    [(sends .initiator (.releaseRequest [hexEncode releaseRaw]), 3),
      (sends .participant (.release [hexEncode sig]), 3)]

/-- The paused `funded` takes the lock. -/
def recording : Move Request Outside := .act 11 afterDeadline

theorem released_recording : ((storeAfter sw supply released).getMatch "m").map
        (fun m => (m.status, m.releaseSigs.isSome, m.btcFunding)) = some (.cancelled, true, none) ∧
    ((storeAfter sw supply (released ++ [recording])).getMatch "m").map
        (fun m => (m.status, m.releaseSigs.isSome, m.btcFunding)) =
      some (.cancelled, true, some (prevout.txid.toStr, prevout.vout)) := by
  decide +kernel

end LifecycleSample

open LifecycleSample

theorem release_ends_match_late : ∃ m now, (storeAfter sw supply released).getMatch "m" = some m ∧
      (storeAfter sw supply (released ++ [recording])).getMatch "m" = some now ∧
      (∀ sigs, m.releaseSigs = some sigs →
        m.status = .cancelled ∧ now.status = .cancelled ∧ now.releaseSigs = some sigs) ∧
      ∀ step, [recording] = [step] → m.releaseSigs = none → now.releaseSigs ≠ none →
        m.status = .cancelled ∧ m.xbtFunding ≠ none ∧ m.btcFunding = none := by
  obtain ⟨m, stored, _⟩ := map_eq_some_iff.mp released_recording.1
  obtain ⟨now, held, _⟩ := map_eq_some_iff.mp released_recording.2
  exact ⟨m, now, stored, held, release_ends_match sw (by decide) released [recording] stored held⟩

/-- A released match with no BTC funding has one recorded by the next action. -/
theorem funding_recorded_after_release :
    ∃ (moves : EdgeRun) (step : Move Request Outside) (m now : Match),
      (storeAfter sw supply moves).getMatch "m" = some m ∧
      (storeAfter sw supply (moves ++ [step])).getMatch "m" = some now ∧
      m.releaseSigs.isSome = true ∧ m.btcFunding = none ∧ now.btcFunding ≠ none := by
  obtain ⟨m, stored, before⟩ := map_eq_some_iff.mp released_recording.1
  obtain ⟨now, held, after⟩ := map_eq_some_iff.mp released_recording.2
  simp only [Prod.mk.injEq] at before after
  refine ⟨released, recording, m, now, stored, held, before.2.1, before.2.2, ?_⟩
  rw [after.2.2]
  exact some_ne_none _

end Fortis.Edge
