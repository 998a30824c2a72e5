/-
# Voxhold.Lib.KeyedMutex — one mutex for each key, kept as long as it is used

A map from keys to objects with a mutex each. Whoever wants the mutex of a key ENTERS, which finds
the object of the key or makes one and counts a reference, and LEAVES when done; the last to leave
takes the object out of the map. `Agrees` relates the map to the calls in progress, whatever stages
they go through.
-/

import Mathlib.Algebra.Order.Group.Multiset

namespace Voxhold.Lib

open Multiset Function

/-- The objects are numbered as they are `made`. -/
structure KeyedMutex (K : Type) where
  entries : K → Option ℕ
  refs : ℕ → ℕ
  locked : ℕ → Bool
  made : ℕ

namespace KeyedMutex

section Operations

variable {K : Type} (m : KeyedMutex K)

def empty : KeyedMutex K := ⟨fun _ => none, fun _ => 0, fun _ => false, 0⟩

def setLocked (n : ℕ) (locked : Bool) : KeyedMutex K :=
  { m with locked := update m.locked n locked }

/-- The object of a key; one that is not there is made. -/
def object (k : K) : ℕ := (m.entries k).getD m.made

variable [DecidableEq K]

def enter (k : K) : KeyedMutex K :=
  { m with
    entries := update m.entries k (some (m.object k))
    refs := update m.refs (m.object k) (m.refs (m.object k) + 1)
    made := if (m.entries k).isNone then m.made + 1 else m.made }

def leave (k : K) (n : ℕ) : KeyedMutex K :=
  { m with
    entries := if m.refs n - 1 = 0 then update m.entries k none else m.entries
    refs := update m.refs n (m.refs n - 1) }

end Operations

/-! ## Calls in progress -/

/-- A call that is about to enter, or inside with its object, at a stage of its own. -/
inductive Call (K Stage : Type) where
  | enter (key : K)
  | inside (stage : Stage) (key : K) (object : ℕ)
deriving DecidableEq

variable {K Stage : Type} {holds : Stage → Bool} {m : KeyedMutex K} {k k' : K} {n n' : ℕ}
  {st st' : Stage} {R S : Multiset (Call K Stage)} {p q : Stage → K → ℕ → Bool}

def Call.sat (p : Stage → K → ℕ → Bool) : Call K Stage → Bool
  | .enter _ => false
  | .inside st k n => p st k n

/-- The calls inside of which `p` holds. -/
def count (p : Stage → K → ℕ → Bool) (S : Multiset (Call K Stage)) : ℕ :=
  S.countP fun c => c.sat p

/-- A call of the key is inside with the object. -/
def Inside (S : Multiset (Call K Stage)) (k : K) (n : ℕ) : Prop :=
  ∃ st, .inside st k n ∈ S

@[simp] theorem count_enter : count p (.enter k ::ₘ S) = count p S :=
  countP_cons_of_neg _ Bool.false_ne_true

@[simp] theorem count_inside :
    count p (.inside st k n ::ₘ S) = count p S + if p st k n then 1 else 0 :=
  countP_cons ..

theorem count_pos : 0 < count p S ↔ ∃ st k n, p st k n = true ∧ .inside st k n ∈ S := by
  rw [count, countP_pos]
  constructor
  · rintro ⟨c, hc, hp⟩
    cases c with
    | enter => cases hp
    | inside st k n => exact ⟨st, k, n, hp, hc⟩
  · rintro ⟨st, k, n, hp, hc⟩
    exact ⟨_, hc, hp⟩

theorem count_congr (h : ∀ st k n, .inside st k n ∈ S → p st k n = q st k n) :
    count p S = count q S := by
  refine countP_congr rfl fun c hc => ?_
  cases c with
  | enter => rfl
  | inside st k n => exact congrArg (· = true) (h st k n hc)

theorem count_le_count (h : ∀ st k n, p st k n = true → q st k n = true) :
    count p S ≤ count q S := by
  rw [count, count, countP_eq_card_filter, countP_eq_card_filter]
  refine card_le_card (monotone_filter_right S fun c hc => ?_)
  cases c with
  | enter => cases hc
  | inside st k n => exact h st k n hc

@[simp] theorem inside_enter : Inside (.enter k ::ₘ S) k' n ↔ Inside S k' n := by
  simp [Inside]

@[simp] theorem inside_inside :
    Inside (.inside st k n ::ₘ S) k' n' ↔ (k' = k ∧ n' = n) ∨ Inside S k' n' := by
  simp only [Inside, mem_cons, Call.inside.injEq, exists_or]
  simp

/-- The map agrees with the calls in progress; at the stages `holds` they have the mutex. -/
@[mk_iff] structure Agrees (holds : Stage → Bool) (m : KeyedMutex K) (S : Multiset (Call K Stage)) :
    Prop where
  refs : ∀ n, m.refs n = count (fun _ _ n' => n = n') S
  listed : ∀ k n, m.entries k = some n ↔ Inside S k n
  own : ∀ k k' n, Inside S k n → Inside S k' n → k = k'
  made : ∀ k n, Inside S k n → n < m.made
  locked : ∀ n, count (fun st _ n' => holds st && decide (n = n')) S = if m.locked n then 1 else 0

namespace Agrees

theorem zero : Agrees holds (empty : KeyedMutex K) 0 := by
  constructor <;> simp [Inside, empty, count]

theorem enter_iff : Agrees holds m (.enter k ::ₘ S) ↔ Agrees holds m S := by
  simp [agrees_iff]

section

variable (h : Agrees holds m (.inside st k n ::ₘ R))
include h

/-- A call goes to another stage. -/
theorem move {locked : ℕ → Bool}
    (hlocked : ∀ n', count (fun st _ i => holds st && decide (n' = i)) (.inside st' k n ::ₘ R) =
      if locked n' then 1 else 0) :
      Agrees holds { m with locked := locked } (.inside st' k n ::ₘ R) := by
  constructor
  · simpa using h.refs
  · simpa using h.listed
  · simpa only [inside_inside] using h.own
  · simpa only [inside_inside] using h.made
  · exact hlocked

theorem go (hst : holds st' = holds st) : Agrees holds m (.inside st' k n ::ₘ R) :=
  h.move (by simpa [hst] using h.locked)

/-- The mutex is taken or given back. -/
theorem pass (st' : Stage) (hfree : holds st = false → m.locked n = false) :
    Agrees holds (m.setLocked n (holds st')) (.inside st' k n ::ₘ R) := by
  refine h.move fun n' => ?_
  have hlocked := h.locked n'
  simp only [update_apply, count_inside] at hlocked ⊢
  by_cases hn : n' = n
  · subst hn
    -- nobody else has it
    have hnone : count (fun st _ i => holds st && decide (n' = i)) R = 0 := by
      cases hst : holds st with
      | false => simpa [hst, hfree hst] using hlocked
      | true =>
        simp only [hst, decide_true, Bool.and_true, if_true] at hlocked
        split at hlocked <;> omega
    simp [hnone]
  · simpa [hn] using hlocked

end

section

variable (h : Agrees holds m S)
include h

theorem eq_of_object (hin : Inside S k' (m.object k)) : k' = k := by
  cases hk : m.entries k with
  | none =>
    have hlt := h.made _ _ hin
    simp [object, hk] at hlt
  | some n =>
    rw [object, hk] at hin
    exact h.own k' k n hin ((h.listed k n).mp hk)

theorem holder_of_locked (hin : Inside S k n) (hlocked : m.locked n = true) :
    ∃ st, holds st = true ∧ .inside st k n ∈ S := by
  have hone := h.locked n
  rw [if_pos hlocked] at hone
  obtain ⟨st, k', n', hp, hc⟩ := count_pos.mp (hone ▸ Nat.one_pos)
  obtain ⟨hst, rfl⟩ : holds st = true ∧ n = n' := by simpa using hp
  obtain rfl := h.own k' k n ⟨st, hc⟩ hin
  exact ⟨st, hst, hc⟩

theorem locked_of_holds (hc : .inside st k n ∈ S) (hst : holds st = true) : m.locked n = true := by
  have hpos : 0 < count (fun st _ n' => holds st && decide (n = n')) S :=
    count_pos.mpr ⟨st, k, n, by simp [hst], hc⟩
  rw [h.locked] at hpos
  split at hpos
  · assumption
  · omega

theorem object_eq (hin : Inside S k n) (hin' : Inside S k n') : n = n' :=
  Option.mem_unique ((h.listed k n).mpr hin) ((h.listed k n').mpr hin')

theorem listed_iff (n : ℕ) : (∃ k, m.entries k = some n) ↔ 0 < m.refs n := by
  rw [h.refs, count_pos]
  constructor
  · rintro ⟨k, hk⟩
    obtain ⟨st, hc⟩ := (h.listed k n).mp hk
    exact ⟨st, k, n, by simp, hc⟩
  · rintro ⟨st, k, n', hn, hc⟩
    obtain rfl := of_decide_eq_true hn
    exact ⟨k, (h.listed k n).mpr ⟨st, hc⟩⟩

end

variable [DecidableEq K]

theorem enter (h : Agrees holds m R) (k : K) (hst : holds st = false) :
    Agrees holds (m.enter k) (.inside st k (m.object k) ::ₘ R) := by
  refine ⟨fun n => ?_, fun k' n => ?_, fun k₁ k₂ n h₁ h₂ => ?_, fun k' n hin => ?_, fun n => ?_⟩
  · rw [count_inside, ← h.refs]
    by_cases hn : n = m.object k
    · simp [KeyedMutex.enter, hn]
    · simp [KeyedMutex.enter, hn]
  · rw [inside_inside, ← h.listed]
    simp only [KeyedMutex.enter, update_apply]
    split
    · next hk =>
      subst hk
      refine ⟨fun heq => .inl ⟨rfl, (Option.some.inj heq).symm⟩, ?_⟩
      rintro (⟨-, rfl⟩ | heq)
      · rfl
      · rw [object, heq, Option.getD_some]
    · next hk => simp [hk]
  · rw [inside_inside] at h₁ h₂
    rcases h₁ with ⟨rfl, rfl⟩ | h₁
    · exact h₂.elim (fun heq => heq.1.symm) fun h₂ => (h.eq_of_object h₂).symm
    · rcases h₂ with ⟨rfl, rfl⟩ | h₂
      · exact h.eq_of_object h₁
      · exact h.own k₁ k₂ n h₁ h₂
  · show n < if (m.entries k).isNone then m.made + 1 else m.made
    rcases inside_inside.mp hin with ⟨-, rfl⟩ | hin
    · cases hk : m.entries k with
      | none => simp [object, hk]
      | some n => simpa [object, hk] using h.made k n ((h.listed k n).mp hk)
    · have hlt := h.made k' n hin
      split <;> omega
  · simpa [KeyedMutex.enter, hst] using h.locked n

theorem leave (h : Agrees holds m (.inside st k n ::ₘ R)) (hst : holds st = false) :
    Agrees holds (m.leave k n) R := by
  have hcount : m.refs n - 1 = count (fun _ _ n' => n = n') R := by simp [h.refs]
  have hself : Inside (.inside st k n ::ₘ R) k n := inside_inside.mpr (.inl ⟨rfl, rfl⟩)
  refine ⟨fun n' => ?_, fun k' n' => ?_, fun k₁ k₂ n' h₁ h₂ => ?_, fun k' n' hin => ?_,
    fun n' => ?_⟩
  · simp only [KeyedMutex.leave, update_apply, hcount]
    split
    · next hn => rw [hn]
    · next hn => simp [h.refs, hn]
  · simp only [KeyedMutex.leave]
    split
    · next hlast =>
      -- no call is left with the object, and the key has no other
      have hnone : ¬Inside R k' n := by
        rintro ⟨st', hc⟩
        have hpos : 0 < count (fun _ _ n' => n = n') R :=
          count_pos.mpr ⟨st', k', n, decide_eq_true rfl, hc⟩
        omega
      rw [update_apply]
      split
      · next hk =>
        subst hk
        refine iff_of_false (by simp) fun hin => hnone ?_
        exact h.object_eq (inside_inside.mpr (.inr hin)) hself ▸ hin
      · next hk => rw [h.listed, inside_inside, or_iff_right fun heq => hk heq.1]
    · next hkept =>
      obtain ⟨st', k'', n'', hn, hc⟩ := count_pos.mp (Nat.pos_of_ne_zero (hcount ▸ hkept))
      obtain rfl := of_decide_eq_true hn
      obtain rfl := h.own k'' k n (inside_inside.mpr (.inr ⟨st', hc⟩)) hself
      rw [h.listed, inside_inside]
      refine or_iff_right_of_imp ?_
      rintro ⟨rfl, rfl⟩
      exact ⟨st', hc⟩
  · exact h.own k₁ k₂ n' (inside_inside.mpr (.inr h₁)) (inside_inside.mpr (.inr h₂))
  · exact h.made k' n' (inside_inside.mpr (.inr hin))
  · show _ = if m.locked n' then 1 else 0
    simpa [hst] using h.locked n'

/-- At most one call has the mutex of a key. -/
theorem count_le_one (h : Agrees holds m S) (k : K) :
    count (fun st k' _ => holds st && decide (k = k')) S ≤ 1 := by
  rcases Nat.eq_zero_or_pos
    (count (fun st k' _ => holds st && decide (k = k')) S) with hnone | hsome
  · omega
  · obtain ⟨st, k', n, hp, hc⟩ := count_pos.mp hsome
    obtain ⟨-, rfl⟩ : holds st = true ∧ k = k' := by simpa using hp
    -- the callers of the key are those of its object
    have hobject : count (fun st k' _ => holds st && decide (k = k')) S =
        count (fun st _ n' => holds st && decide (n = n')) S := by
      refine count_congr fun st' k' n' hc' => congrArg _ (decide_eq_decide.mpr ⟨?_, ?_⟩)
      · rintro rfl
        exact h.object_eq ⟨st, hc⟩ ⟨st', hc'⟩
      · rintro rfl
        exact h.own k k' n ⟨st, hc⟩ ⟨st', hc'⟩
    rw [hobject, h.locked]
    split <;> omega

end Agrees

end KeyedMutex

end Voxhold.Lib
