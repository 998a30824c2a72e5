/-
# Voxhold.Lib.InFlight — one request of each caller at a time

Requests of one caller that are served one after the other. `key` says whose request a pending
command belongs to, `Serial` that nobody has two in flight; a request begins only when its caller
has none.
-/

import Mathlib.Algebra.Order.Group.Multiset

namespace Voxhold.Lib

variable {Cmd K : Type} [DecidableEq K] {key : Cmd → Option K} {b b' : Cmd}
  {R S : Multiset Cmd} {k : K}

/-- The number of pending commands that belong to requests of the caller. -/
def inFlight (key : Cmd → Option K) (S : Multiset Cmd) (k : K) : Nat :=
  S.countP fun b => key b = some k

/-- Nobody has two requests in flight. -/
def Serial (key : Cmd → Option K) (S : Multiset Cmd) : Prop :=
  ∀ k, inFlight key S k ≤ 1

theorem inFlight_cons (key : Cmd → Option K) (b : Cmd) (R : Multiset Cmd) (k : K) :
    inFlight key (b ::ₘ R) k = inFlight key R k + if key b = some k then 1 else 0 :=
  Multiset.countP_cons ..

namespace Serial

theorem zero (key : Cmd → Option K) : Serial key 0 :=
  fun k => by simp [inFlight]

theorem ne_of_mem (h : Serial key (b ::ₘ R)) (hb : key b = some k) (hb' : b' ∈ R) :
    key b' ≠ some k := by
  intro hkey
  have hpos : 0 < inFlight key R k := Multiset.countP_pos.mpr ⟨b', hb', hkey⟩
  have hone := h k
  rw [inFlight_cons, if_pos hb] at hone
  omega

theorem drop (h : Serial key (b ::ₘ R)) : Serial key R := by
  intro k
  have hone := h k
  rw [inFlight_cons] at hone
  omega

theorem add (h : Serial key R) (hS : ∀ b ∈ S, key b = none) : Serial key (S + R) := by
  intro k
  have hnone : inFlight key S k = 0 :=
    Multiset.countP_eq_zero.mpr fun b hb => by simp [hS b hb]
  have hone := h k
  unfold inFlight at *
  rw [Multiset.countP_add, hnone]
  omega

theorem replace (h : Serial key (b ::ₘ R)) (hb : key b' = key b) : Serial key (b' ::ₘ R) := by
  intro k
  have hone := h k
  rw [inFlight_cons] at hone ⊢
  rwa [hb]

theorem begin (h : Serial key R) (hfree : ∀ b' ∈ R, ∀ k, key b = some k → key b' ≠ some k) :
    Serial key (b ::ₘ R) := by
  intro k
  rw [inFlight_cons]
  split
  · next hb =>
    have hnone : inFlight key R k = 0 :=
      Multiset.countP_eq_zero.mpr fun b' hb' => hfree b' hb' k hb
    omega
  · exact h k

end Serial

end Voxhold.Lib
