/-
# Voxhold.Keylock.Keylock — the set of locks by key

`Set.Lock` finds or makes the entry of its key and counts itself in under the set's mutex, waits for
the entry's own mutex outside it, and counts itself out when it has been unlocked: three separate
sections.
-/

import Voxhold.Lib.Goroutine
import Voxhold.Lib.KeyedMutex

namespace Voxhold.Keylock

open Voxhold.Lib KeyedMutex

/-- Where a caller is that has been counted in: it wants the mutex of the entry, it has it until its
unlock function is called, or it has let go of it and is about to be counted out. -/
inductive Stage where
  | waiting | holding | leaving
deriving DecidableEq

abbrev Cmd := Call Int Stage

/-- One section; the mutex of an entry lets one caller in. -/
def exec (s : KeyedMutex Int) : Cmd → Option (KeyedMutex Int × List (Instr Empty Cmd))
  | .enter key => some (s.enter key, [.run (.inside .waiting key (s.object key))])
  | .inside .waiting key n =>
    if s.locked n then none else some (s.setLocked n true, [.run (.inside .holding key n)])
  | .inside .holding key n => some (s.setLocked n false, [.run (.inside .leaving key n)])
  | .inside .leaving key n => some (s.leave key n, [])

def machine : Machine (KeyedMutex Int) Empty Cmd Unit Int where
  exec := fun c _ s => exec s c
  body := fun key => [.run (.enter key)]

def Stage.holds (stage : Stage) : Bool := stage = .holding

variable {s s' : KeyedMutex Int} {c : Cmd} {new : List (Instr Empty Cmd)} {R : Multiset Cmd}
  {cfg : Config (KeyedMutex Int) Empty Cmd}

theorem agrees_fire (h : Agrees Stage.holds s (c ::ₘ R)) (he : exec s c = some (s', new)) :
    Agrees Stage.holds s' (cmds new + R) := by
  unfold exec at he
  split at he
  · cases he
    rw [pushed_run]
    exact (Agrees.enter_iff.mp h).enter _ rfl
  · split at he
    · cases he
    · next hfree =>
      cases he
      rw [pushed_run]
      exact h.pass .holding fun _ => by simpa using hfree
  · cases he
    rw [pushed_run]
    exact h.pass .leaving fun hst => by cases hst
  · cases he
    rw [pushed_nil]
    exact h.leave rfl

/-- **A mutex for each key.** However the calls interleave, one caller at most has a key, the
callers of a key share its entry, `refs` counts them, and an entry is listed exactly while it is
counted. A caller waits only for one that has the same key. -/
theorem keyed_mutex {allowed : Int → Prop}
    (hrun : machine.Reachable allowed (fun _ _ _ => True) .empty cfg) :
    (∀ key, count (fun stage key' _ => stage.holds && decide (key = key')) cfg.pending ≤ 1) ∧
    (∀ key n n', Inside cfg.pending key n → Inside cfg.pending key n' → n = n') ∧
    (∀ n, cfg.state.refs n = count (fun _ _ n' => n = n') cfg.pending) ∧
    (∀ n, (∃ key, cfg.state.entries key = some n) ↔ 0 < cfg.state.refs n) ∧
    ∀ c ∈ cfg.pending, exec cfg.state c = none →
      ∃ key n, c = .inside .waiting key n ∧ .inside .holding key n ∈ cfg.pending := by
  have h : Agrees Stage.holds cfg.state cfg.pending :=
    hrun.induction (P := Agrees Stage.holds) .zero
      (fun _ S _ _ h => (Multiset.singleton_add _ S).symm ▸ Agrees.enter_iff.mpr h)
      fun _ _ _ _ _ _ _ _ _ hf _ h => agrees_fire h hf.exec
  refine ⟨h.count_le_one, fun _ _ _ => h.object_eq, h.refs, h.listed_iff, fun c hc hblocked => ?_⟩
  unfold exec at hblocked
  split at hblocked <;> try cases hblocked
  next key n =>
  obtain ⟨stage, hstage, hheld⟩ := h.holder_of_locked ⟨_, hc⟩ (by simpa using hblocked)
  obtain rfl : stage = .holding := of_decide_eq_true hstage
  exact ⟨key, n, rfl, hheld⟩

/-- Two callers of one key, one of them waiting for the other. -/
theorem keyed_mutex_contended : ∃ cfg : Config (KeyedMutex Int) Empty Cmd,
    cfg.pending = {.inside .holding 1 0, .inside .waiting 1 0} ∧
      ∀ n, (∃ key, cfg.state.entries key = some n) ↔ 0 < cfg.state.refs n := by
  obtain ⟨cfg, hrun, hpending⟩ :
    ∃ cfg, machine.Reachable (fun _ => True) (fun _ _ _ => True) .empty cfg ∧
      cfg.pending = {.inside .holding 1 0, .inside .waiting 1 0} :=
    Machine.exists_reachable_of_play [.start 1, .step 0 (), .step 0 (), .start 1, .step 1 ()]
      (by decide +kernel)
  exact ⟨cfg, hpending, (keyed_mutex hrun).2.2.2.1⟩

/-- A caller that has let go of the mutex is counted until it has come to the set's mutex once more.
-/
theorem counted_after_unlock :
    ∃ cfg, machine.Reachable (fun _ => True) (fun _ _ _ => True) .empty cfg ∧
    cfg.state.refs 0 = 1 ∧ cfg.pending = {.inside .leaving 1 0} :=
  Machine.exists_reachable_of_play [.start 1, .step 0 (), .step 0 (), .step 0 ()]
    (by decide +kernel)

end Voxhold.Keylock
