/-
# Voxhold.Stream.KeyFrames — how often a publisher is asked for a key frame

A request inside the interval after the last one starts a timer and marks the gate as pending; a
request after it is sent at once and leaves the mark. So a timer that fires late, after such a
request, sends a second one right behind it (`key_frames_close`).
-/

import Voxhold.Lib.Trace

namespace Voxhold.Stream.KeyFrames

open Voxhold.Lib

/-- In nanoseconds. -/
def publisherKeyFrameInterval : Int := 500000000

/-- A publisher's session with the `keyframeGate` of one rendition; those of other renditions have
nothing in common with it. The zero time is `none`, `timers` are the deadlines of the timers that
have not fired, and `clock` is the time that was read last under `keyframeMu`. -/
structure Publisher where
  closed : Bool
  videoSSRC : ℕ
  last : Option Int
  pending : Bool
  timers : List Int
  clock : Int

/-- The clock as a call reads it: for the time since `last`, for the new `last` or the timer, and
when the packet is written, after the lock is released. -/
structure Instants where
  since : Int
  now : Int
  written : Int

inductive Op where
  | request (x : Instants)
  | fire (timer : ℕ) (x : Instants)

namespace Publisher

variable (s : Publisher)

/-- How long the gate is still closed. -/
def wait (since : Int) : Option Int :=
  (s.last.map fun last => publisherKeyFrameInterval - (since - last)).filter (0 < ·)

/-- A picture loss indication, by the time it is written. -/
def writeKeyFrameRequest (written : Int) : Option Int :=
  if s.closed ∨ s.videoSSRC = 0 then none else some written

def requestKeyFrame (x : Instants) : Publisher × Option Int :=
  if s.closed ∨ s.videoSSRC = 0 then (s, none)
  else
    match s.wait x.since with
    | some wait =>
      if s.pending then ({ s with clock := x.now }, none)
      else ({ s with pending := true, timers := s.timers ++ [x.now + wait], clock := x.now }, none)
    | none => ({ s with last := some x.now, clock := x.now }, s.writeKeyFrameRequest x.written)

def flushKeyFrame (timer : ℕ) (x : Instants) : Publisher × Option Int :=
  let s := { s with timers := s.timers.eraseIdx timer, clock := x.now }
  if s.pending then ({ s with pending := false, last := some x.now },
    s.writeKeyFrameRequest x.written)
  else (s, none)

def perform : Op → Publisher × Option Int
  | .request x => s.requestKeyFrame x
  | .fire timer x => s.flushKeyFrame timer x

def step (op : Op) : Publisher := (s.perform op).1

def writes (op : Op) : Option Int := (s.perform op).2

/-- The clock does not go back, and a timer fires at or after its deadline. -/
def Timed : Op → Prop
  | .request x => s.clock ≤ x.since ∧ x.since ≤ x.now ∧ x.now ≤ x.written
  | .fire timer x => s.clock ≤ x.now ∧ x.now ≤ x.written ∧ ∃ deadline ∈ s.timers[timer]?,
    deadline ≤ x.now

instance (x : Instants) : Decidable (s.Timed (.request x)) :=
  inferInstanceAs (Decidable (_ ∧ _ ∧ _))

/-- No request passes the gate while a timer is late, and packets are written at once. -/
def Punctual : Op → Prop
  | .request x => x.written = x.now ∧ (s.wait x.since = none → s.pending = false)
  | .fire _ x => x.written = x.now

instance (x : Instants) : Decidable (s.Punctual (.request x)) :=
  inferInstanceAs (Decidable (_ ∧ (_ → _)))

/-- An open session with a known SSRC, of which no key frame was requested yet. -/
def Fresh : Prop :=
  s.closed = false ∧ s.videoSSRC ≠ 0 ∧ s.last = none ∧ s.pending = false ∧ s.timers = []
deriving Decidable

variable {s} {op : Op} {ops : List Op} {log : List Int} {x : Instants}

theorem wait_eq_some {wait : Int} (h : s.wait x.since = some wait) :
    ∀ last ∈ s.last, wait = publisherKeyFrameInterval - (x.since - last) := by
  intro last hlast
  unfold Publisher.wait at h
  rw [hlast] at h
  exact (Option.some.inj (Option.filter_eq_some_iff.mp h).1).symm

theorem wait_eq_none (h : s.wait x.since = none) :
    ∀ last ∈ s.last, last + publisherKeyFrameInterval ≤ x.since := by
  intro last hlast
  unfold Publisher.wait at h
  rw [hlast, Option.map_some, Option.filter_some] at h
  split at h
  · cases h
  · next hexpired =>
    have := of_decide_eq_false (Bool.eq_false_iff.mpr hexpired)
    omega

/-- The session can write, and the gate is pending as long as its one timer runs. -/
structure Armed (s : Publisher) : Prop where
  live : ¬(s.closed = true ∨ s.videoSSRC = 0)
  timers : if s.pending then ∃ d, s.timers = [d] else s.timers = []

/-- What an operation on such a session does. -/
inductive Effect (s : Publisher) : Op → Publisher × Option Int → Prop where
  | waits {x : Instants} :
      s.pending = true → Effect s (.request x) ({ s with clock := x.now }, none)
  | starts {x : Instants} {wait : Int} : s.timers = [] → s.wait x.since = some wait →
      Effect s (.request x) ({ s with pending := true, timers := [x.now + wait], clock := x.now },
        none)
  | passes {x : Instants} : s.wait x.since = none →
      Effect s (.request x) ({ s with last := some x.now, clock := x.now }, some x.written)
  | fires {x : Instants} {d : Int} : s.pending = true → s.timers = [d] → d ≤ x.now →
      Effect s (.fire 0 x)
        ({ s with pending := false, last := some x.now, timers := [], clock := x.now },
          some x.written)

theorem Armed.effect (h : Armed s) (ht : s.Timed op) : Effect s op (s.perform op) := by
  have hwrite written : s.writeKeyFrameRequest written = some written := if_neg h.live
  have harmed := h.timers
  cases op with
  | request x =>
    simp only [perform, requestKeyFrame, if_neg h.live, hwrite]
    cases hwait : s.wait x.since with
    | some wait =>
      split at harmed
      · next hpending =>
        simp only [if_pos hpending]
        exact .waits hpending
      · next hidle =>
        simp only [if_neg hidle, harmed]
        exact .starts harmed hwait
    | none => exact .passes hwait
  | fire timer x =>
    obtain ⟨-, -, d, hd, hle⟩ := ht
    split at harmed
    · next hpending =>
      obtain ⟨d', hd'⟩ := harmed
      cases timer with
      | zero =>
        obtain rfl : d' = d := by simpa [hd'] using hd
        simpa [perform, flushKeyFrame, hpending, hd', writeKeyFrameRequest, h.live] using
          .fires hpending hd' hle
      | succ timer => simp [hd'] at hd
    · simp [harmed] at hd

theorem armed_step (h : Armed s) (ht : s.Timed op) : Armed (s.step op) := by
  have heffect := h.effect ht
  unfold step
  generalize s.perform op = result at heffect ⊢
  cases heffect with
  | waits | passes => exact ⟨h.live, h.timers⟩
  | starts => exact ⟨h.live, _, rfl⟩
  | fires => exact ⟨h.live, rfl⟩

/-! ## The interval -/

/-- A timer ends an interval after `last`, which no packet is later than. -/
structure Spaced (s : Publisher) (log : List Int) : Prop where
  armed : Armed s
  timer : ∀ d ∈ s.timers, ∀ last ∈ s.last, last + publisherKeyFrameInterval ≤ d
  bounded : ∀ p ∈ log, ∃ last ∈ s.last, p ≤ last
  apart : log.Pairwise fun p q : Int => p + publisherKeyFrameInterval ≤ q

theorem Spaced.send {now : Int} (h : Spaced s log)
    (hlast : ∀ last ∈ s.last, last + publisherKeyFrameInterval ≤ now) :
    (∀ p ∈ log ++ [now], p ≤ now) ∧ (log ++ [now]).Pairwise fun p q :
    Int => p + publisherKeyFrameInterval ≤ q := by
  have hearlier p (hp : p ∈ log) : p + publisherKeyFrameInterval ≤ now := by
    obtain ⟨last, hmem, hle⟩ := h.bounded p hp
    have := hlast last hmem
    omega
  refine ⟨fun p hp => ?_, List.pairwise_append.mpr ⟨h.apart, List.pairwise_singleton .., ?_⟩⟩
  · rcases List.mem_append.mp hp with hp | hp
    · have := hearlier p hp
      have : 0 ≤ publisherKeyFrameInterval := by decide
      omega
    · exact Int.le_of_eq (List.mem_singleton.mp hp)
  · intro p hp q hq
    exact List.mem_singleton.mp hq ▸ hearlier p hp

theorem spaced_step (h : Spaced s log) (ht : s.Timed op) (hp : s.Punctual op) :
    Spaced (s.step op) (log ++ (s.writes op).toList) := by
  have harmed := armed_step h.armed ht
  have heffect := h.armed.effect ht
  unfold step writes at *
  generalize s.perform op = result at heffect harmed ⊢
  cases heffect with
  | waits => exact ⟨harmed, h.timer, by simpa using h.bounded, by simpa using h.apart⟩
  | @starts x wait hnil hwait =>
    refine ⟨harmed, fun d hd last hlast => ?_, by simpa using h.bounded, by simpa using h.apart⟩
    show last + publisherKeyFrameInterval ≤ d
    have := wait_eq_some hwait last hlast
    have := ht.2.1
    have := List.mem_singleton.mp hd
    omega
  | @passes x hwait =>
    have hnil : s.timers = [] := by simpa [hp.2 hwait] using h.armed.timers
    obtain ⟨hbounded, hapart⟩ := h.send fun last hlast =>
      Int.le_trans (wait_eq_none hwait last hlast) ht.2.1
    simp only [hp.1]
    exact ⟨harmed, by simp [hnil], fun p hp => ⟨_, rfl, hbounded p hp⟩, hapart⟩
  | @fires x d _ hd hle =>
    obtain ⟨hbounded, hapart⟩ := h.send fun last hlast =>
      Int.le_trans (h.timer d (by simp [hd]) last hlast) hle
    simp only [show x.written = x.now from hp]
    exact ⟨harmed, nofun, fun p hp => ⟨_, rfl, hbounded p hp⟩, hapart⟩

theorem spaced_run (h : Spaced s log) (ht : Throughout step Timed s ops)
    (hp : Throughout step Punctual s ops) :
    Spaced (ops.foldl step s) (log ++ logged step writes s ops) := by
  induction ops generalizing s log with
  | nil => simpa [logged] using h
  | cons op ops ih =>
    rw [logged, ← List.append_assoc]
    exact ih (spaced_step h ht.1 hp.1) ht.2 hp.2

/-! ## Every request is answered -/

theorem answered_step {t : Int} (h : Armed s) (ht : s.Timed op)
    (hwaiting : s.pending = true ∧ t ≤ s.clock ∨ ∃ x, op = .request x ∧ t ≤ x.since) :
    (∃ p ∈ s.writes op, t ≤ p) ∨ (s.step op).pending = true ∧ t ≤ (s.step op).clock := by
  have heffect := h.effect ht
  have hrequest {x} (heq : op = .request x) : t ≤ x.now ∧ t ≤ x.written := by
    subst heq
    obtain ⟨hclock, hnow, hwritten⟩ := ht
    rcases hwaiting with ⟨-, hle⟩ | ⟨y, heq, hle⟩
    · exact ⟨by omega, by omega⟩
    · cases heq
      exact ⟨by omega, by omega⟩
  unfold step writes
  generalize s.perform op = result at heffect ⊢
  cases heffect with
  | waits hpending => exact .inr ⟨hpending, (hrequest rfl).1⟩
  | starts => exact .inr ⟨rfl, (hrequest rfl).1⟩
  | passes => exact .inl ⟨_, rfl, (hrequest rfl).2⟩
  | fires =>
    obtain ⟨-, hle⟩ := hwaiting.resolve_right nofun
    exact .inl ⟨_, rfl, Int.le_trans hle (Int.le_trans ht.1 ht.2.1)⟩

theorem answered_run {t : Int} (h : Armed s) (hpending : s.pending = true) (hclock : t ≤ s.clock)
    (ht : Throughout step Timed s ops) :
    (∃ p ∈ logged step writes s ops, t ≤ p) ∨ (ops.foldl step s).pending = true := by
  induction ops generalizing s with
  | nil => exact .inr hpending
  | cons op ops ih =>
    simp only [logged, List.mem_append, Option.mem_toList]
    rcases answered_step h ht.1 (.inl ⟨hpending, hclock⟩) with ⟨p, hp, hle⟩ | ⟨hpending, hclock⟩
    · exact .inl ⟨p, .inl hp, hle⟩
    · refine (ih (armed_step h ht.1) hpending hclock ht.2).imp_left ?_
      rintro ⟨p, hp, hle⟩
      exact ⟨p, .inr hp, hle⟩

/-- Every request is followed by a packet, written at or after the call, or by a running timer, and
a timer always writes one. Where no request passes the gate while a timer is late and packets are
written at once, any two packets are an interval apart. -/
theorem key_frames_spaced (s : Publisher) (ops : List Op) (hs : s.Fresh)
    (ht : Throughout step Timed s ops) : (Throughout step Punctual s ops →
      (logged step writes s ops).Pairwise fun p q => p + publisherKeyFrameInterval ≤ q) ∧
    (∀ pre x post, ops = pre ++ .request x :: post →
      (∃ p ∈ logged step writes (pre.foldl step s) (.request x :: post), x.since ≤ p) ∨
        (ops.foldl step s).timers ≠ []) ∧
    ∀ timer x, (ops.foldl step s).Timed (.fire timer x) →
      (ops.foldl step s).writes (.fire timer x) = some x.written := by
  obtain ⟨hopen, hssrc, hlast, hidle, hnil⟩ := hs
  have hstart : Armed s := ⟨by simp [hopen, hssrc], by simp [hidle, hnil]⟩
  have harmed : Armed (ops.foldl step s) := foldl_throughout (fun _ _ h => armed_step h) hstart ht
  refine ⟨fun hp => ?_, ?_, fun timer x hx => ?_⟩
  · have hspaced : Spaced s [] := ⟨hstart, by simp [hnil], by simp, .nil⟩
    simpa using (spaced_run hspaced ht hp).apart
  · rintro pre x post rfl
    obtain ⟨hpre, hrequest, hpost⟩ := throughout_append.mp ht
    have hbefore := foldl_throughout (fun _ _ h => armed_step h) hstart hpre
    have hanswer : (∃ p ∈ logged step writes (pre.foldl step s) (.request x :: post), x.since ≤ p) ∨
        ((pre ++ .request x :: post).foldl step s).pending = true := by
      simp only [logged, List.mem_append, Option.mem_toList, List.foldl_append]
      rcases answered_step hbefore hrequest (.inr ⟨x, rfl, Int.le_refl _⟩) with ⟨p, hp,
        hle⟩ | ⟨hpending, hclock⟩
      · exact .inl ⟨p, .inl hp, hle⟩
      · refine (answered_run (armed_step hbefore hrequest) hpending hclock hpost).imp_left ?_
        rintro ⟨p, hp, hle⟩
        exact ⟨p, .inr hp, hle⟩
    refine hanswer.imp_right fun hpending hnone => ?_
    have htimer := harmed.timers
    rw [if_pos hpending, hnone] at htimer
    simp at htimer
  · have heffect := harmed.effect hx
    unfold writes
    generalize (ops.foldl step s).perform (.fire timer x) = result at heffect ⊢
    cases heffect
    rfl

namespace Sample

def publisher : Publisher := ⟨false, 1, none, false, [], 0⟩

/-- Everything at once, so many milliseconds after the start. -/
def ms (t : Int) : Instants := ⟨t * 1000000, t * 1000000, t * 1000000⟩

def burst : List Op := [.request (ms 0), .request (ms 100), .fire 0 (ms 500)]

/-- The timer is late, and a third request comes before it. -/
def late : List Op := [.request (ms 0), .request (ms 100), .request (ms 600), .fire 0 (ms 700)]

end Sample

theorem key_frames_spaced_burst :
    logged step writes Sample.publisher Sample.burst = [0, 500000000] ∧
      (logged step writes Sample.publisher Sample.burst).Pairwise fun p q =>
      p + publisherKeyFrameInterval ≤ q :=
  ⟨by decide, (key_frames_spaced Sample.publisher Sample.burst (by decide)
    ⟨by decide, by decide, ⟨by decide, by decide, 500000000, rfl, by decide⟩, trivial⟩).1
    ⟨by decide, by decide, rfl, trivial⟩⟩

/-- Two packets 100 ms apart. -/
theorem key_frames_close :
    Sample.publisher.Fresh ∧ Throughout step Timed Sample.publisher Sample.late ∧
    logged step writes Sample.publisher Sample.late = [0, 600000000, 700000000] :=
  ⟨by decide, ⟨by decide, by decide, by decide, ⟨by decide, by decide, 500000000, rfl, by decide⟩,
    trivial⟩, by decide⟩

end Publisher

end Voxhold.Stream.KeyFrames
