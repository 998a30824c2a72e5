/-
# Voxhold.Linkpreview.Slots — the slots of a link preview fetch

`Service.acquire` takes the slot of its user, waiting for it a while, and then one of the global
slots, at once or not at all; the release function gives both back. `users` is a keyed mutex
(`Lib.KeyedMutex`).
-/

import Voxhold.Lib.Goroutine
import Voxhold.Lib.KeyedMutex

namespace Voxhold.Linkpreview

open Voxhold.Lib KeyedMutex

structure Service where
  users : KeyedMutex Int
  slots : ℕ

/-- Where a call is that has been counted in: at the first select, at the second with the slot of
its user, in the fetch with both, about to give back the slot of its user, or about to `leave`. -/
inductive Stage where
  | waiting | having | fetching | freeing | leaving
deriving DecidableEq

abbrev Cmd := Call Int Stage

/-- What comes of the wait for the slot of the user. -/
inductive Wait where
  | sent | gaveUp
deriving DecidableEq

/-- `slots` is a channel of the given capacity, `ch` of a slot one of capacity `maxSlotsPerUser =
1`. -/
def exec (capacity : ℕ) (s : Service) : Cmd → Wait → Option (Service × List (Instr Empty Cmd))
  | .enter user, _ =>
    some ({ s with users := s.users.enter user },
      [.run (.inside .waiting user (s.users.object user))])
  | .inside .waiting user n, .sent =>
    if s.users.locked n then none
    else some ({ s with users := s.users.setLocked n true }, [.run (.inside .having user n)])
  | .inside .waiting user n, .gaveUp => some (s, [.run (.inside .leaving user n)])
  | .inside .having user n, _ =>
    if s.slots < capacity then some ({ s with slots := s.slots + 1 },
      [.run (.inside .fetching user n)])
    else some (s, [.run (.inside .freeing user n)])
  | .inside .fetching user n, _ =>
    if s.slots = 0 then none else some ({ s with slots := s.slots - 1 },
      [.run (.inside .freeing user n)])
  | .inside .freeing user n, _ =>
    if s.users.locked n then
      some ({ s with users := s.users.setLocked n false }, [.run (.inside .leaving user n)])
    else none
  | .inside .leaving user n, _ => some ({ s with users := s.users.leave user n }, [])

def machine (capacity : ℕ) : Machine Service Empty Cmd Wait Int where
  exec := fun c choice s => exec capacity s c choice
  body := fun user => [.run (.enter user)]

/-- The stages with the slot of the user. -/
def Stage.holds : Stage → Bool
  | .having | .fetching | .freeing => true
  | .waiting | .leaving => false

def fetches (S : Multiset Cmd) : ℕ := count (fun stage _ _ => decide (stage = .fetching)) S

structure Kept (capacity : ℕ) (s : Service) (S : Multiset Cmd) : Prop where
  users : Agrees Stage.holds s.users S
  slots : s.slots = fetches S
  bounded : s.slots ≤ capacity

variable {capacity : ℕ} {s s' : Service} {c : Cmd} {choice : Wait} {new : List (Instr Empty Cmd)}
  {R : Multiset Cmd} {cfg : Config Service Empty Cmd}

theorem Kept.fire (h : Kept capacity s (c ::ₘ R)) (he : exec capacity s c choice = some (s', new)) :
    Kept capacity s' (cmds new + R) := by
  obtain ⟨husers, hslots, hbounded⟩ := h
  unfold exec at he
  split at he
  · cases he
    rw [pushed_run]
    exact ⟨(Agrees.enter_iff.mp husers).enter _ rfl, by simpa [fetches] using hslots, hbounded⟩
  · split at he
    · cases he
    · next hfree =>
      cases he
      rw [pushed_run]
      exact ⟨husers.pass .having fun _ => by simpa using hfree, by simpa [fetches] using hslots,
        hbounded⟩
  · cases he
    rw [pushed_run]
    exact ⟨husers.go rfl, by simpa [fetches] using hslots, hbounded⟩
  · split at he
    · next hroom =>
      cases he
      rw [pushed_run]
      exact ⟨husers.go rfl, by simpa [fetches] using hslots, hroom⟩
    · cases he
      rw [pushed_run]
      exact ⟨husers.go rfl, by simpa [fetches] using hslots, hbounded⟩
  · split at he
    · cases he
    · cases he
      rw [pushed_run]
      exact ⟨husers.go rfl, by simp [hslots, fetches], (Nat.sub_le ..).trans hbounded⟩
  · split at he
    · cases he
      rw [pushed_run]
      exact ⟨husers.pass .leaving (fun hst => by cases hst), by simpa [fetches] using hslots,
        hbounded⟩
    · cases he
  · cases he
    rw [pushed_nil]
    exact ⟨husers.leave rfl, by simpa [fetches] using hslots, hbounded⟩

theorem kept_of_reachable {allowed : Int → Prop}
    (hrun : (machine capacity).Reachable allowed (fun _ _ _ => True) ⟨.empty, 0⟩ cfg) :
    Kept capacity cfg.state cfg.pending :=
  hrun.induction (P := Kept capacity) ⟨.zero, rfl, Nat.zero_le _⟩
    (fun _ S _ _ h => (Multiset.singleton_add _ S).symm ▸
      ⟨Agrees.enter_iff.mpr h.users, h.slots.trans count_enter.symm, h.bounded⟩)
    fun _ _ _ _ _ _ _ _ _ hf _ h => h.fire hf.exec

end Voxhold.Linkpreview
