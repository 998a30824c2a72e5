/-
# Voxhold.Mediahandshake.Deadline — the time limits of a first negotiation

Every call of `Deadline` and every callback of one of its timers is a section under its mutex. A
timer that has fired may run its callback at any later moment, whatever `Stop` said; the stage it
was armed for tells it whether it still counts. The stage only goes up, so none counts twice.
-/

import Mathlib.Algebra.Order.Ring.Int
import Voxhold.Lib.Trace

namespace Voxhold.Mediahandshake

open Voxhold.Lib List

def answerTimeout : Int := 20 * 1000000000
def connectTimeout : Int := 30 * 1000000000

def answerReason : String := "initial WebRTC answer timed out"
def connectReason : String := "initial WebRTC connection timed out"

/-- A timer: the stage it was armed for, when it fires, and what it passes to `expire`. -/
structure Timer where
  stage : ℕ
  due : Int
  reason : String

/-- The stages: 0 waiting for an offer, 1 for an answer, 2 for the connection, 3 finished. `timer`
is the number of the timer last armed, `ran` has those whose callback has run, `began` is when the
stage in force began, and `crashed` says that a nil timer was dereferenced. -/
structure Deadline where
  stage : ℕ
  timer : Option ℕ
  timers : List Timer
  ran : List ℕ
  began : Int
  crashed : Bool

/-- A section under the mutex, with the clock as it begins and as it arms a timer. -/
inductive Op where
  | offer (now armed : Int)
  | answer (now armed : Int)
  | stop
  | callback (timer : ℕ) (now : Int)
deriving DecidableEq

namespace Deadline

def new : Deadline := ⟨0, none, [], [], 0, false⟩

variable (d : Deadline)

def arm (stage : ℕ) (due : Int) (reason : String) : Deadline :=
  { d with timer := some d.timers.length, timers := d.timers ++ [⟨stage, due, reason⟩] }

/-- What the callback of a timer passes to `expire`, if it calls it. -/
def expires : Op → Option String
  | .callback i _ =>
    match d.timers[i]? with
    | some t => if d.stage = t.stage then some t.reason else none
    | none => none
  | _ => none

def step : Op → Deadline
  | .offer now armed =>
    if d.stage ≠ 0 then d
    else { d with stage := 1, began := now }.arm 1 (armed + answerTimeout) answerReason
  | .answer now armed =>
    if d.stage ≠ 1 then d
    else
      match d.timer with
      | none => { d with crashed := true }
      | some _ => { d with stage := 2, began := now }.arm 2 (armed + connectTimeout) connectReason
  | .stop => { d with stage := 3 }
  | .callback i now =>
    { d with
      stage := if (d.expires (.callback i now)).isSome then 3 else d.stage
      ran := i :: d.ran }

/-- A callback runs once, and not before its timer fires. Whether `Timer.Stop` came in time is left
open. -/
def Timed : Op → Prop
  | .offer now armed | .answer now armed => now ≤ armed
  | .stop => True
  | .callback i now => i ∉ d.ran ∧ ∃ t ∈ d.timers[i]?, t.due ≤ now

instance : DecidablePred d.Timed
  | .offer _ _ | .answer _ _ => inferInstanceAs (Decidable (_ ≤ _))
  | .stop => .isTrue trivial
  | .callback _ _ => inferInstanceAs (Decidable (_ ∧ ∃ t ∈ _, _))

/-- The reason is that of the stage in force, and the stage has lasted its full time. -/
def Elapsed (reason : String) (now : Int) : Prop :=
  (d.stage = 1 ∧ reason = answerReason ∧ d.began + answerTimeout ≤ now) ∨
    (d.stage = 2 ∧ reason = connectReason ∧ d.began + connectTimeout ≤ now)

/-! ## The invariant -/

/-- **Every timer knows its stage.** A timer armed for the stage in force carries its reason and
fires when its time is over. -/
structure Sound (d : Deadline) : Prop where
  stage : d.stage ≤ 3
  armed : ∀ t ∈ d.timers, 1 ≤ t.stage ∧ t.stage ≤ 2 ∧ t.stage ≤ d.stage
  elapsed : ∀ t ∈ d.timers, t.stage = d.stage → d.Elapsed t.reason t.due
  timer : d.stage = 1 → d.timer.isSome
  crashed : d.crashed = false

variable {d} {op : Op} {ops : List Op} {reason : String} {now : Int} {i : ℕ}

theorem Elapsed.mono {later : Int} (h : d.Elapsed reason now) (hle : now ≤ later) :
    d.Elapsed reason later := by
  rcases h with ⟨hstage, hreason, hover⟩ | ⟨hstage, hreason, hover⟩
  · exact .inl ⟨hstage, hreason, hover.trans hle⟩
  · exact .inr ⟨hstage, hreason, hover.trans hle⟩

theorem expires_eq_some (h : d.expires op = some reason) :
    ∃ i now t, op = .callback i now ∧ d.timers[i]? = some t ∧ d.stage = t.stage ∧
    t.reason = reason := by
  cases op with
  | callback i now =>
    simp only [expires] at h
    split at h
    · next t ht =>
      obtain ⟨hstage, heq⟩ := Option.ite_none_right_eq_some.mp h
      exact ⟨i, now, t, rfl, ht, hstage, Option.some.inj heq⟩
    · cases h
  | _ => cases h

theorem elapsed_of_expires (hd : d.Sound) (ht : d.Timed (.callback i now))
    (h : d.expires (.callback i now) = some reason) : d.Elapsed reason now := by
  obtain ⟨_, _, t, ⟨⟩, hi, hstage, rfl⟩ := expires_eq_some h
  obtain ⟨-, t', ht', hdue⟩ := ht
  obtain rfl := Option.mem_unique hi ht'
  exact (hd.elapsed t (mem_of_getElem? hi) hstage.symm).mono hdue

/-! ## One section -/

theorem stage_of_expires (h : d.expires op = some reason) : (d.step op).stage = 3 := by
  obtain ⟨i, now, t, rfl, -⟩ := expires_eq_some h
  simp only [step, h, Option.isSome_some, if_true]

theorem sound_arm {k : ℕ} {timeout : Int} {armed : Int} (hd : d.Sound) (hk : d.stage < k)
    (hle : k ≤ 2) (hreason : { d with stage := k, began := now }.Elapsed reason (now + timeout))
    (harmed : now ≤ armed) :
    ({ d with stage := k, began := now }.arm k (armed + timeout) reason).Sound where
  stage := by
    show k ≤ 3
    omega
  armed t ht := by
    rcases mem_append.mp ht with ht | ht
    · obtain ⟨hone, htwo, hstage⟩ := hd.armed t ht
      exact ⟨hone, htwo, hstage.trans hk.le⟩
    · obtain rfl := mem_singleton.mp ht
      exact ⟨by show 1 ≤ k; omega, hle, le_rfl⟩
  elapsed t ht hstage := by
    rcases mem_append.mp ht with ht | ht
    · -- the earlier timers are for earlier stages
      have hbefore := (hd.armed t ht).2.2
      exact absurd hstage (hbefore.trans_lt hk).ne
    · obtain rfl := mem_singleton.mp ht
      exact hreason.mono (show now + timeout ≤ armed + timeout by omega)
  timer _ := rfl
  crashed := hd.crashed

theorem sound_finish {ran : List ℕ} (hd : d.Sound) : { d with stage := 3, ran := ran }.Sound := by
  refine ⟨le_rfl, fun t ht => ?_, fun t ht hstage => ?_, nofun, hd.crashed⟩
  · obtain ⟨hone, htwo, -⟩ := hd.armed t ht
    exact ⟨hone, htwo, htwo.trans (Nat.le_succ 2)⟩
  · obtain ⟨-, htwo, -⟩ := hd.armed t ht
    exact absurd hstage (show t.stage ≠ 3 by omega)

theorem sound_step (hd : d.Sound) (ht : d.Timed op) :
    (d.step op).Sound ∧ d.stage ≤ (d.step op).stage := by
  cases op with
  | offer now armed =>
    simp only [step]
    split
    · exact ⟨hd, le_rfl⟩
    · have hlt : d.stage < 1 := by omega
      exact ⟨sound_arm hd hlt (by omega) (.inl ⟨rfl, rfl, le_rfl⟩) ht, hlt.le⟩
  | answer now armed =>
    simp only [step]
    split
    · exact ⟨hd, le_rfl⟩
    · have hlt : d.stage < 2 := by omega
      obtain ⟨n, hn⟩ := Option.isSome_iff_exists.mp (hd.timer (by omega))
      rw [hn]
      exact ⟨sound_arm hd hlt le_rfl (.inr ⟨rfl, rfl, le_rfl⟩) ht, hlt.le⟩
  | stop => exact ⟨sound_finish hd, hd.stage⟩
  | callback i now =>
    simp only [step]
    split
    · exact ⟨sound_finish hd, hd.stage⟩
    · exact ⟨⟨hd.stage, hd.armed, hd.elapsed, hd.timer, hd.crashed⟩, le_rfl⟩

/-! ## Runs -/

theorem sound_run (hd : d.Sound) (ht : Throughout step Timed d ops) :
    (ops.foldl step d).Sound ∧ d.stage ≤ (ops.foldl step d).stage :=
  foldl_throughout (P := fun e => e.Sound ∧ d.stage ≤ e.stage)
    (fun _ _ h ht => (sound_step h.1 ht).imp_right h.2.trans) ⟨hd, le_rfl⟩ ht

theorem sound_new : new.Sound := ⟨Nat.zero_le 3, nofun, nofun, nofun, rfl⟩

/-- A callback that comes after a section expires no stage before the one the section leads to. -/
theorem stage_le_of_expires {pre mid post : List Op} (ht : Throughout step Timed new ops)
    (hops : ops = pre ++ op :: (mid ++ .callback i now :: post))
    (h : (mid.foldl step ((pre.foldl step new).step op)).expires (.callback i now) = some reason) :
    ((pre.foldl step new).step op).stage ≤ 2 ∧
      (reason = answerReason → ((pre.foldl step new).step op).stage ≤ 1) := by
  obtain ⟨hpre, hop, hmid⟩ := throughout_append.mp (hops ▸ ht)
  obtain ⟨hmid, hcall, -⟩ := throughout_append.mp hmid
  obtain ⟨hsound, hle⟩ := sound_run (sound_step (sound_run sound_new hpre).1 hop).1 hmid
  rcases elapsed_of_expires hsound hcall h with ⟨hstage, -⟩ | ⟨hstage, rfl, -⟩
  · omega
  · exact ⟨by omega, fun hreason => absurd hreason (by decide)⟩

/-- `expire` is called at most once, with the reason of the stage in force and after its full time;
not after a `Stop`, and not for a missing answer after an `Answer` in the answer stage. No nil timer
is stopped. -/
theorem deadline_safe (ops : List Op) (ht : Throughout step Timed new ops) :
    (ops.foldl step new).crashed = false ∧ (logged step expires new ops).length ≤ 1 ∧
      ∀ pre i now post reason, ops = pre ++ .callback i now :: post →
        (pre.foldl step new).expires (.callback i now) = some reason →
        (pre.foldl step new).Elapsed reason now ∧ .stop ∉ pre ∧
          ∀ before a b after, pre = before ++ .answer a b :: after →
          (before.foldl step new).stage = 1 →
            reason ≠ answerReason := by
  refine ⟨(sound_run sound_new ht).1.crashed, ?_, ?_⟩
  · have hnone : (logged step expires new ops).Pairwise fun _ _ => False := by
      refine pairwise_logged fun pre op mid op' post reason reason' hops h h' => ?_
      obtain ⟨i, now, -, rfl, -⟩ := expires_eq_some h'
      have hle := (stage_le_of_expires ht hops h').1
      rw [stage_of_expires h] at hle
      omega
    generalize logged step expires new ops = log at hnone
    cases hnone with
    | nil => exact Nat.zero_le 1
    | cons hhead _ => rw [eq_nil_iff_forall_not_mem.mpr hhead, length_singleton]
  · rintro pre i now post reason rfl h
    obtain ⟨hpre, hcall, -⟩ := throughout_append.mp ht
    refine ⟨elapsed_of_expires (sound_run sound_new hpre).1 hcall h, fun hstop => ?_, ?_⟩
    · obtain ⟨before, after, rfl⟩ := append_of_mem hstop
      rw [foldl_append] at h
      have hle := (stage_le_of_expires ht (append_assoc ..) h).1
      exact absurd hle (show ¬3 ≤ 2 by decide)
    · rintro before a b after rfl hstage hreason
      rw [foldl_append] at h
      have hle := (stage_le_of_expires ht (append_assoc ..) h).2 hreason
      obtain ⟨n, hn⟩ := Option.isSome_iff_exists.mp
        ((sound_run sound_new (throughout_append.mp hpre).1).1.timer hstage)
      simp [step, hstage, hn, arm] at hle

def expiring : List Op := [.offer 0 1, .callback 0 20000000001]

theorem deadline_safe_expired : logged step expires new expiring = [answerReason] ∧
    (logged step expires new expiring).length ≤ 1 :=
  ⟨by decide, (deadline_safe expiring (by decide)).2.1⟩

/-- An `Answer` before the `Offer` has no effect: the answer is still waited for. -/
theorem expired_after_answer : Throughout step Timed new (.answer 0 0 :: expiring) ∧
    logged step expires new (.answer 0 0 :: expiring) = [answerReason] := by
  decide

end Deadline

end Voxhold.Mediahandshake
