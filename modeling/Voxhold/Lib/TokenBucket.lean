/-
# Voxhold.Lib.TokenBucket — ideal token buckets over an ordered field

A bucket holds at most `burst` tokens and gains `rate` per unit of time. What it will decide depends
on its **level** alone: `Spent` bounds what a window can have admitted, `Owed` says which window a
low level is due to, and both survive a bucket being made anew.
-/

import Mathlib.Algebra.Order.Field.Basic
import Mathlib.Data.List.Count
import Mathlib.Tactic.Linarith
import Mathlib.Tactic.Ring

namespace Voxhold.Lib

variable {𝕜 : Type} [Field 𝕜] [LinearOrder 𝕜]

/-- What a bucket is made with: tokens for each unit of time, and how many it can hold. -/
structure Limit (𝕜 : Type) [Field 𝕜] [LinearOrder 𝕜] where
  rate : 𝕜
  burst : ℕ
  rate_nonneg : 0 ≤ rate
deriving DecidableEq

/-- A bucket, with its tokens as they stood when one was last taken. -/
structure TokenBucket (𝕜 : Type) [Field 𝕜] [LinearOrder 𝕜] where
  limit : Limit 𝕜
  tokens : 𝕜
  last : 𝕜
  tokens_nonneg : 0 ≤ tokens
  tokens_le : tokens ≤ limit.burst

namespace TokenBucket

/-! ## Buckets -/

/-- The tokens at a time; a clock that went back adds none. -/
def level (b : TokenBucket 𝕜) (now : 𝕜) : 𝕜 :=
  min (b.limit.burst : 𝕜) (b.tokens + b.limit.rate * max 0 (now - b.last))

theorem level_le_burst (b : TokenBucket 𝕜) (now : 𝕜) : b.level now ≤ b.limit.burst :=
  min_le_left _ _

variable [IsStrictOrderedRing 𝕜]

def fresh (limit : Limit 𝕜) (now : 𝕜) : TokenBucket 𝕜 where
  limit := limit
  tokens := limit.burst
  last := now
  tokens_nonneg := Nat.cast_nonneg _
  tokens_le := le_rfl

/-- Takes one token if a whole one is there; a refused request changes nothing. -/
def take (b : TokenBucket 𝕜) (now : 𝕜) : Bool × TokenBucket 𝕜 :=
  if h : 1 ≤ b.level now then
    (true,
      { b with
        tokens := b.level now - 1
        last := now
        tokens_nonneg := sub_nonneg.mpr h
        tokens_le := (sub_le_self _ zero_le_one).trans (b.level_le_burst now) })
  else (false, b)

@[simp] theorem level_fresh (l : Limit 𝕜) (made now : 𝕜) : (fresh l made).level now = l.burst := by
  have hgain : 0 ≤ l.rate * max 0 (now - made) := mul_nonneg l.rate_nonneg (le_max_left _ _)
  exact min_eq_left (le_add_of_nonneg_right hgain)

section

variable (b : TokenBucket 𝕜)
include b

theorem level_later {now later : 𝕜} (hlast : b.last ≤ now) (hle : now ≤ later) :
    b.level later = min (b.limit.burst : 𝕜) (b.level now + b.limit.rate * (later - now)) := by
  have hgain : 0 ≤ b.limit.rate * (later - now) :=
    mul_nonneg b.limit.rate_nonneg (sub_nonneg.mpr hle)
  have hsplit : b.limit.rate * (later - b.last) =
      b.limit.rate * (now - b.last) + b.limit.rate * (later - now) := by ring
  rw [level, level, max_eq_right (sub_nonneg.mpr hlast),
    max_eq_right (sub_nonneg.mpr (hlast.trans hle)), hsplit, ← add_assoc, min_add, ← min_assoc,
    min_eq_left (le_add_of_nonneg_right hgain)]

@[simp] theorem take_fst (now : 𝕜) : (b.take now).1 = decide (1 ≤ b.level now) := by
  unfold take
  split
  · next h => exact (decide_eq_true h).symm
  · next h => exact (decide_eq_false h).symm

@[simp] theorem limit_take (now : 𝕜) : (b.take now).2.limit = b.limit := by
  unfold take
  split <;> rfl

theorem last_take_le {now : 𝕜} (hlast : b.last ≤ now) : (b.take now).2.last ≤ now := by
  unfold take
  split
  · exact le_rfl
  · exact hlast

theorem level_take (now : 𝕜) :
    (b.take now).2.level now = if 1 ≤ b.level now then b.level now - 1 else b.level now := by
  unfold take
  split
  · have hle : b.level now - 1 ≤ b.limit.burst :=
      (sub_le_self _ zero_le_one).trans (b.level_le_burst now)
    simp only [level, sub_self, max_self, mul_zero, add_zero] at hle ⊢
    exact min_eq_right hle
  · rfl

theorem level_of_idle {now idle : 𝕜} (hidle : idle ≤ now - b.last)
    (hburst : (b.limit.burst : 𝕜) ≤ b.limit.rate * idle) : b.level now = b.limit.burst := by
  have hgain : b.limit.rate * idle ≤ b.limit.rate * max 0 (now - b.last) :=
    mul_le_mul_of_nonneg_left (hidle.trans (le_max_right _ _)) b.limit.rate_nonneg
  have htokens := b.tokens_nonneg
  exact min_eq_left (by linarith)

end

end TokenBucket

/-! ## Admissions in a window -/

section Admitted

variable {𝕜 : Type} [LinearOrder 𝕜]

/-- How many of the admissions fall in the closed window from `a` to `b`. -/
def admitted (log : List 𝕜) (a b : 𝕜) : ℕ :=
  log.countP fun t => decide (a ≤ t ∧ t ≤ b)

@[simp] theorem admitted_nil (a b : 𝕜) : admitted [] a b = 0 := rfl

theorem admitted_cons (t : 𝕜) (log : List 𝕜) (a b : 𝕜) :
    admitted (t :: log) a b = admitted log a b + if a ≤ t ∧ t ≤ b then 1 else 0 := by
  simp [admitted, List.countP_cons]

theorem admitted_of_past {log : List 𝕜} {now : 𝕜} (hpast : ∀ t ∈ log, t ≤ now) {a b : 𝕜}
    (ha : now < a) : admitted log a b = 0 := by
  rw [admitted, List.countP_eq_zero]
  intro t ht
  simpa using fun hat => absurd (hat.trans (hpast t ht)) (not_le.mpr ha)

theorem admitted_clip {log : List 𝕜} {now : 𝕜} (hpast : ∀ t ∈ log, t ≤ now) {a b : 𝕜}
    (hb : now ≤ b) : admitted log a b = admitted log a now := by
  refine List.countP_congr fun t ht => ?_
  have hnow := hpast t ht
  simp [hnow, hnow.trans hb]

end Admitted

/-! ## Accounting for a level -/

variable [IsStrictOrderedRing 𝕜]

/-- **Nothing overspent.** The admissions so far, of which none is later than `now`, fit a bucket of
this limit that holds `held` tokens now: with what it holds still to come, no window that ends now
exceeds its budget, and no window at all has exceeded it. -/
structure Spent (l : Limit 𝕜) (log : List 𝕜) (now held : 𝕜) : Prop where
  past : ∀ t ∈ log, t ≤ now
  held_le : held ≤ l.burst
  budget : ∀ a ≤ now, admitted log a now + held ≤ l.burst + l.rate * (now - a)
  windows : ∀ a b, a ≤ b → (admitted log a b : 𝕜) ≤ l.burst + l.rate * (b - a)

namespace Spent

variable {l : Limit 𝕜} {log : List 𝕜} {now later held : 𝕜}

theorem nil (hheld : held ≤ l.burst) : Spent l [] now held where
  past := by simp
  held_le := hheld
  budget a ha := by
    have hgain := mul_nonneg l.rate_nonneg (sub_nonneg.mpr ha)
    simpa using hheld.trans (le_add_of_nonneg_right hgain)
  windows a b hab := by
    have hgain := mul_nonneg l.rate_nonneg (sub_nonneg.mpr hab)
    simpa using add_nonneg (Nat.cast_nonneg l.burst) hgain

theorem wait (h : Spent l log now held) (hle : now ≤ later) :
    Spent l log later (min (l.burst : 𝕜) (held + l.rate * (later - now))) where
  past := fun t ht => (h.past t ht).trans hle
  held_le := min_le_left _ _
  budget a ha := by
    rcases le_or_gt a now with hnow | hnow
    · have hbudget := h.budget a hnow
      have hmin := min_le_right (l.burst : 𝕜) (held + l.rate * (later - now))
      rw [admitted_clip h.past hle]
      linarith
    · have hgain := mul_nonneg l.rate_nonneg (sub_nonneg.mpr ha)
      have hmin := min_le_left (l.burst : 𝕜) (held + l.rate * (later - now))
      rw [admitted_of_past h.past hnow, Nat.cast_zero]
      linarith
  windows := h.windows

theorem take (h : Spent l log now held) (hone : 1 ≤ held) :
    Spent l (now :: log) now (held - 1) where
  past := List.forall_mem_cons.mpr ⟨le_rfl, h.past⟩
  held_le := (sub_le_self _ zero_le_one).trans h.held_le
  budget a ha := by
    have hbudget := h.budget a ha
    rw [admitted_cons, if_pos ⟨ha, le_rfl⟩]
    push_cast
    linarith
  windows a b hab := by
    rw [admitted_cons]
    split
    · next hin =>
      -- the admission is in the window: the part of it up to now pays for it
      have hbudget := h.budget a hin.1
      have hgain := mul_le_mul_of_nonneg_left (sub_le_sub_right hin.2 a) l.rate_nonneg
      rw [admitted_clip h.past hin.2]
      push_cast
      linarith
    · have hwindow := h.windows a b hab
      simpa using hwindow

end Spent

/-- **A low level is owed to a window.** Some window that ends now admitted so much that a bucket of
this limit which was full at its start holds no more than `held` now. -/
def Owed (l : Limit 𝕜) (log : List 𝕜) (now held : 𝕜) : Prop :=
  ∃ T, 0 ≤ T ∧ l.burst + l.rate * T - admitted log (now - T) now ≤ held

namespace Owed

variable {l : Limit 𝕜} {log : List 𝕜} {now later held : 𝕜}

theorem full : Owed l log now l.burst :=
  ⟨0, le_rfl, by simp⟩

theorem wait (h : Owed l log now held) (hpast : ∀ t ∈ log, t ≤ now) (hle : now ≤ later) :
    Owed l log later (min (l.burst : 𝕜) (held + l.rate * (later - now))) := by
  obtain ⟨T, hT, hheld⟩ := h
  rcases min_choice (l.burst : 𝕜) (held + l.rate * (later - now)) with hmin | hmin
  · rw [hmin]
    exact full
  · rw [hmin]
    refine ⟨T + (later - now), add_nonneg hT (sub_nonneg.mpr hle), ?_⟩
    have hstart : later - (T + (later - now)) = now - T := by ring
    rw [hstart, admitted_clip hpast hle, mul_add]
    linarith

theorem take (h : Owed l log now held) : Owed l (now :: log) now (held - 1) := by
  obtain ⟨T, hT, hheld⟩ := h
  refine ⟨T, hT, ?_⟩
  rw [admitted_cons, if_pos ⟨sub_le_self _ hT, le_rfl⟩]
  push_cast
  linarith

theorem exhausted (h : Owed l log now held) (hlow : held < 1) :
    ∃ T, 0 ≤ T ∧ l.burst + l.rate * T - 1 < admitted log (now - T) now := by
  obtain ⟨T, hT, hheld⟩ := h
  exact ⟨T, hT, by linarith⟩

end Owed

end Voxhold.Lib
