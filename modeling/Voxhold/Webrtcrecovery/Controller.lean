/-
# Voxhold.Webrtcrecovery.Controller — at most one recovery at a time

`Start` registers a run by its cancel channel, and whoever replaces or stops it closes the channel.
A run looks at the channel before every attempt and before it gives up, and takes itself off only if
it is still the one registered.
-/

import Mathlib.Data.List.Basic
import Voxhold.Lib.Trace

namespace Voxhold.Webrtcrecovery

open Voxhold.Lib Option

structure Policy where
  initialDelay : Int
  retryDelay : Int
  maxAttempts : Int

/-- Where a run is: in its first `wait`, before the attempt of an index, in the `wait` after it,
behind the loop, about to take itself off, or returned. `cancelled`: it has seen its channel closed.
-/
inductive Stage where
  | delay | check (index : ℕ) | retry (index : ℕ) | last | reset | ended | cancelled
deriving DecidableEq

/-- A run with its cancel channel, and how often it called `attempt` and `exhausted`. -/
structure Run where
  delay : Int
  closed : Bool
  stage : Stage
  attempts : ℕ
  exhausted : ℕ

/-- `cancel` is the number of the run whose channel is registered. -/
structure Controller where
  policy : Policy
  cancel : Option ℕ
  runs : List Run

inductive Op where
  | start (immediate callable : Bool)
  | stop
  | advance (run : ℕ) (timer : Bool)

def Controller.new (policy : Policy) : Controller where
  policy :=
    { initialDelay := if policy.initialDelay < 0 then 0 else policy.initialDelay
      retryDelay := if policy.retryDelay ≤ 0 then 1000000000 else policy.retryDelay
      maxAttempts := if policy.maxAttempts ≤ 0 then 1 else policy.maxAttempts }
  cancel := none
  runs := []

/-- `wait`, if it returns: `timer` says that the timer has expired and the `select` takes it. -/
def wait (closed : Bool) (delay : Int) (timer : Bool) : Option Bool :=
  if delay ≤ 0 then some !closed
  else if timer then some true
  else if closed then some false
  else none

namespace Run

variable (p : Policy) (r : Run)

def goto (stage : Stage) : Run := { r with stage := stage }

def loop (index : ℕ) : Run := r.goto (if index < p.maxAttempts then .check index else .last)

/-- The next step of a run, up to its last critical section. -/
def advance (timer : Bool) : Run :=
  match r.stage with
  | .delay =>
    match wait r.closed r.delay timer with
    | none => r
    | some true => r.loop p 0
    | some false => r.goto .cancelled
  | .check index =>
    if r.closed then r.goto .cancelled
    else { r with stage := .retry index, attempts := r.attempts + 1 }
  | .retry index =>
    match wait r.closed p.retryDelay timer with
    | none => r
    | some true => r.loop p (index + 1)
    | some false => r.goto .cancelled
  | .last =>
    if r.closed then r.goto .cancelled
    else { r with stage := .reset, exhausted := r.exhausted + 1 }
  | .reset => r.goto .ended
  | .ended | .cancelled => r

end Run

namespace Controller

variable (c : Controller)

def close : List Run :=
  match c.cancel with
  | none => c.runs
  | some i => c.runs.modify i fun r => { r with closed := true }

def start (immediate callable : Bool) : Controller :=
  if !callable ∨ (c.cancel.isSome ∧ !immediate) then c
  else
    { c with
      cancel := some c.runs.length
      runs := c.close ++ [⟨if immediate then 0 else c.policy.initialDelay, false, .delay, 0, 0⟩] }

def stop : Controller := { c with cancel := none, runs := c.close }

/-- A step of a run. The last one compares the registered channel with its own. -/
def advance (i : ℕ) (timer : Bool) : Controller :=
  { c with
    cancel := if (c.runs[i]?).any (·.stage = .reset) ∧ c.cancel = some i then none else c.cancel
    runs := c.runs.modify i fun r => r.advance c.policy timer }

def step : Op → Controller
  | .start immediate callable => c.start immediate callable
  | .stop => c.stop
  | .advance i timer => c.advance i timer

end Controller

/-! ## One run -/

namespace Run

variable {p : Policy} {r : Run}

/-- The run goes on and has not been cancelled. -/
def Active (r : Run) : Prop := r.closed = false ∧ r.stage ≠ .ended

/-- What the place of a run says about its calls. -/
def Ok (p : Policy) (r : Run) : Prop :=
  match r.stage with
  | .delay => r.attempts = 0 ∧ r.exhausted = 0
  | .check index => r.attempts = index ∧ index < p.maxAttempts ∧ r.exhausted = 0
  | .retry index => r.attempts = index + 1 ∧ index < p.maxAttempts ∧ r.exhausted = 0
  | .last => r.attempts = p.maxAttempts ∧ r.exhausted = 0
  | .reset | .ended => r.attempts = p.maxAttempts ∧ r.exhausted = 1
  | .cancelled => r.attempts ≤ p.maxAttempts ∧ r.exhausted = 0 ∧ r.closed = true

theorem Ok.bounds (h : r.Ok p) (hp : 0 ≤ p.maxAttempts) :
    r.attempts ≤ p.maxAttempts ∧ r.exhausted ≤ 1 ∧
    (r.exhausted = 1 → r.attempts = p.maxAttempts ∧ r.stage ≠ .cancelled) := by
  unfold Ok at h
  cases hstage : r.stage <;> simp only [hstage] at h <;> refine ⟨by omega, by omega, fun _ => ?_⟩
  all_goals first | omega | exact ⟨by omega, nofun⟩

theorem ok_loop {index : ℕ} (hattempts : r.attempts = index) (hle : index ≤ p.maxAttempts)
    (hexhausted : r.exhausted = 0) : (r.loop p index).Ok p := by
  unfold loop
  split
  · next hlt => exact ⟨hattempts, hlt, hexhausted⟩
  · exact ⟨by simp only [goto]; omega, hexhausted⟩

theorem ok_cancelled (h : r.Ok p) (hp : 0 ≤ p.maxAttempts) (hexhausted : r.exhausted = 0)
    (hclosed : r.closed = true) : (r.goto .cancelled).Ok p :=
  ⟨(h.bounds hp).1, hexhausted, hclosed⟩

theorem wait_eq_false {closed timer : Bool} {delay : Int}
    (h : wait closed delay timer = some false) : closed = true := by
  cases closed with
  | true => rfl
  | false => grind [wait]

theorem Ok.advance (h : r.Ok p) (hp : 0 ≤ p.maxAttempts) (timer : Bool) :
    (r.advance p timer).Ok p := by
  have hok := h
  unfold Ok at h
  unfold Run.advance
  cases hstage : r.stage with
  | delay =>
    simp only [hstage] at h ⊢
    split
    · exact hok
    · exact ok_loop h.1 (by omega) h.2
    · next hwait => exact ok_cancelled hok hp h.2 (wait_eq_false hwait)
  | check index =>
    simp only [hstage] at h ⊢
    split
    · next hclosed => exact ok_cancelled hok hp h.2.2 hclosed
    · exact ⟨by simp [h.1], h.2⟩
  | retry index =>
    simp only [hstage] at h ⊢
    split
    · exact hok
    · exact ok_loop h.1 (by omega) h.2.2
    · next hwait => exact ok_cancelled hok hp h.2.2 (wait_eq_false hwait)
  | last =>
    simp only [hstage] at h ⊢
    split
    · next hclosed => exact ok_cancelled hok hp h.2 hclosed
    · exact ⟨h.1, by simp [h.2]⟩
  | reset =>
    simp only [hstage] at h
    exact h
  | ended | cancelled => exact hok

theorem active_advance (timer : Bool) : (r.advance p timer).Active ↔ r.Active ∧
    r.stage ≠ .reset := by
  unfold Run.advance Active
  cases hstage : r.stage <;> simp only <;> repeat' split
  all_goals simp_all [goto, loop]
  all_goals split <;> simp

end Run

/-! ## The controller -/

namespace Controller

variable {c : Controller} {i : ℕ} {r : Run}

/-- The registered run is the one that is active. -/
structure Sound (c : Controller) : Prop where
  policy : 0 ≤ c.policy.maxAttempts
  ok : ∀ {i : ℕ} {r : Run}, c.runs[i]? = some r → r.Ok c.policy
  registered : ∀ i, c.cancel = some i ↔ ∃ r, c.runs[i]? = some r ∧ r.Active

theorem sound_new (policy : Policy) : Sound (new policy) where
  policy := by
    simp only [new]
    split <;> omega
  ok := nofun
  registered i := by simp [new]

theorem Sound.close (h : Sound c) (hr : c.close[i]? = some r) : r.Ok c.policy ∧ ¬r.Active := by
  unfold Controller.close at hr
  cases hcancel : c.cancel with
  | none =>
    rw [hcancel] at hr
    refine ⟨h.ok hr, fun hactive => ?_⟩
    exact nomatch hcancel.symm.trans ((h.registered i).mpr ⟨r, hr, hactive⟩)
  | some j =>
    simp only [hcancel, List.getElem?_modify] at hr
    obtain ⟨old, hold, rfl⟩ := map_eq_some_iff.mp hr
    have hok := h.ok hold
    split
    · refine ⟨?_, fun hactive => nomatch hactive.1⟩
      unfold Run.Ok at hok ⊢
      cases hstage : old.stage <;> simp_all
    · next hne =>
      refine ⟨hok, fun hactive => hne ?_⟩
      exact Option.some.inj (hcancel.symm.trans ((h.registered i).mpr ⟨old, hold, hactive⟩))

theorem length_close (c : Controller) : c.close.length = c.runs.length := by
  unfold Controller.close
  split
  · rfl
  · exact List.length_modify ..

theorem getElem?_push {new : Run} :
    (c.close ++ [new])[i]? = some r ↔ c.close[i]? = some r ∨ i = c.runs.length ∧ new = r := by
  have hlen := c.length_close
  grind

theorem Sound.start (h : Sound c) (immediate callable : Bool) :
    Sound (c.start immediate callable) := by
  unfold Controller.start
  split
  · exact h
  · refine ⟨h.policy, fun hr => ?_, fun i => ?_⟩
    · rcases getElem?_push.mp hr with hold | ⟨-, rfl⟩
      · exact (h.close hold).1
      · exact ⟨rfl, rfl⟩
    · simp only [getElem?_push, Option.some.injEq]
      constructor
      · rintro rfl
        exact ⟨_, .inr ⟨rfl, rfl⟩, rfl, nofun⟩
      · rintro ⟨r, hold | ⟨rfl, -⟩, hactive⟩
        · exact absurd hactive (h.close hold).2
        · rfl

theorem Sound.stop (h : Sound c) : Sound c.stop where
  policy := h.policy
  ok hr := (h.close hr).1
  registered _ := ⟨nofun, fun ⟨_, hr, hactive⟩ => absurd hactive (h.close hr).2⟩

theorem Sound.advance (h : Sound c) (i : ℕ) (timer : Bool) : Sound (c.advance i timer) where
  policy := h.policy
  ok hr := by
    simp only [Controller.advance, List.getElem?_modify] at hr
    obtain ⟨old, hold, rfl⟩ := map_eq_some_iff.mp hr
    split
    · exact (h.ok hold).advance h.policy timer
    · exact h.ok hold
  registered j := by
    have hreg := h.registered j
    simp only [Controller.advance, List.getElem?_modify]
    by_cases hi : i = j
    · subst hi
      cases hrun : c.runs[i]? with
      | none => simpa [hrun] using hreg
      | some r =>
        replace hreg : c.cancel = some i ↔ r.Active := by simpa [hrun] using hreg
        simp only [any_some, decide_eq_true_eq, if_true, map_eq_map, map_some,
          Option.some.injEq, exists_eq_left', Run.active_advance, ← hreg]
        split
        · next hreset => simp [hreset.1]
        · next hkept => exact ⟨fun hi => ⟨hi, fun hreset => hkept ⟨hreset, hi⟩⟩, And.left⟩
    · simp only [if_neg hi, map_eq_map, map_id', ← hreg]
      split
      · next hreset => simp [hreset.2, hi]
      · rfl

theorem Sound.step (h : Sound c) (op : Op) : Sound (c.step op) := by
  cases op with
  | start immediate callable => exact h.start immediate callable
  | stop => exact h.stop
  | advance i timer => exact h.advance i timer

theorem policy_step (c : Controller) (op : Op) : (c.step op).policy = c.policy := by
  cases op with
  | start =>
    simp only [step, start]
    split <;> rfl
  | stop | advance => rfl

theorem cancelled_step (op : Op) (hr : c.runs[i]? = some r) (hstage : r.stage = .cancelled) :
    ∃ r', (c.step op).runs[i]? = some r' ∧ r'.stage = .cancelled ∧ r'.attempts = r.attempts := by
  have hclose : ∃ r', c.close[i]? = some r' ∧ r'.stage = .cancelled ∧ r'.attempts = r.attempts := by
    unfold close
    split
    · exact ⟨r, hr, hstage, rfl⟩
    · rw [List.getElem?_modify, hr]
      refine ⟨_, rfl, ?_⟩
      split <;> exact ⟨hstage, rfl⟩
  cases op with
  | start immediate callable =>
    simp only [step, start]
    split
    · exact ⟨r, hr, hstage, rfl⟩
    · obtain ⟨r', hr', h⟩ := hclose
      exact ⟨r', getElem?_push.mpr (.inl hr'), h⟩
  | stop => exact hclose
  | advance j timer =>
    simp only [step, advance, List.getElem?_modify, hr]
    refine ⟨_, rfl, ?_⟩
    split
    · simp [Run.advance, hstage]
    · exact ⟨hstage, rfl⟩

end Controller

end Voxhold.Webrtcrecovery
