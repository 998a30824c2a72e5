/-
# Voxhold.Lib.Trace — transactions, runs and what they log

A transaction is a computation that may fail, taken apart with `bind_eq_ok`. A run applies
operations one after another; `logged` collects what they report, and an entry is traced back to its
operation (`mem_logged`), two to the part of the run between them (`pairwise_logged`).
-/

import Mathlib.Data.List.Induction

namespace Voxhold.Lib

open List

/-! ## Transactions -/

section Transactions

variable {ε α β : Type} {x : Except ε α} {g : α → Except ε β} {h : α → β} {b : β}

theorem bind_eq_ok : (x >>= g) = .ok b ↔ ∃ a, x = .ok a ∧ g a = .ok b := by
  cases x <;> simp [bind, Except.bind]

theorem map_eq_ok : x.map h = .ok b ↔ ∃ a, x = .ok a ∧ h a = b := by
  cases x <;> simp [Except.map]

/-- Goes on only if a condition holds. -/
def require (p : Prop) [Decidable p] (err : ε) : Except ε Unit :=
  if p then .ok () else .error err

/-- The row a query found. -/
def found (o : Option α) (err : ε) : Except ε α :=
  match o with
  | some a => .ok a
  | none => .error err

@[simp] theorem require_eq_ok {p : Prop} [Decidable p] {err : ε} {u : Unit} :
    require p err = .ok u ↔ p := by
  unfold require
  split <;> simp [*]

@[simp] theorem found_eq_ok {o : Option α} {err : ε} {a : α} :
    found o err = .ok a ↔ o = some a := by
  cases o <;> simp [found]

end Transactions

/-! ## Runs -/

variable {S O E : Type} (step : S → O → S) (report : S → O → Option E)

/-- What the operations of a run report. -/
def logged : S → List O → List E
  | _, [] => []
  | s, o :: os => (report s o).toList ++ logged (step s o) os

variable {step report} {s : S} {os : List O} {e : E}

theorem logged_append (os os' : List O) : logged step report s (os ++ os') =
      logged step report s os ++ logged step report (os.foldl step s) os' := by
  induction os generalizing s with
  | nil => rfl
  | cons o os ih => simp only [cons_append, logged, ih, append_assoc, foldl_cons]

theorem mem_logged (h : e ∈ logged step report s os) :
    ∃ pre o post, os = pre ++ o :: post ∧ report (pre.foldl step s) o = some e := by
  induction os generalizing s with
  | nil => cases h
  | cons o os ih =>
    rcases mem_append.mp h with hhead | htail
    · exact ⟨[], o, os, rfl, Option.mem_toList.mp hhead⟩
    · obtain ⟨pre, o', post, rfl, hreport⟩ := ih htail
      exact ⟨o :: pre, o', post, rfl, hreport⟩

theorem pairwise_logged {R : E → E → Prop}
    (hR : ∀ pre o mid o' post e e', os = pre ++ o :: (mid ++ o' :: post) →
      report (pre.foldl step s) o = some e →
      report (mid.foldl step (step (pre.foldl step s) o)) o' = some e' → R e e') :
    (logged step report s os).Pairwise R := by
  induction os generalizing s with
  | nil => exact .nil
  | cons o os ih =>
    refine pairwise_append.mpr ⟨?_, ih ?_, ?_⟩
    · cases report s o with
      | none => exact .nil
      | some e => exact pairwise_singleton R e
    · intro pre o₁ mid o₂ post e e' hos hfirst hsecond
      exact hR (o :: pre) o₁ mid o₂ post e e' (congrArg (o :: ·) hos) hfirst hsecond
    · intro e he e' he'
      obtain ⟨mid, o', post, rfl, hreport⟩ := mem_logged he'
      exact hR [] o mid o' post e e' rfl (Option.mem_toList.mp he) hreport

theorem logged_induction {P : S → List E → Prop} {allowed : S → List E → O → Prop} (hinit : P s [])
    (hstep : ∀ s log o, P s log → allowed s log o → P (step s o) (log ++ (report s o).toList))
    (hallowed : ∀ pre o post, os = pre ++ o :: post →
      allowed (pre.foldl step s) (logged step report s pre) o) :
    P (os.foldl step s) (logged step report s os) := by
  induction os using List.reverseRecOn with
  | nil => exact hinit
  | append_singleton os o ih =>
    rw [foldl_append, logged_append]
    simp only [foldl_cons, foldl_nil, logged, append_nil]
    refine hstep _ _ o (ih ?_) (hallowed os o [] rfl)
    intro pre o' post hos
    exact hallowed pre o' (post ++ [o]) (by rw [hos, append_assoc, cons_append])

theorem foldl_preserves {P : S → Prop} (hstep : ∀ s o, P s → P (step s o)) (h : P s) :
    P (os.foldl step s) := by
  induction os generalizing s with
  | nil => exact h
  | cons o os ih => exact ih (hstep s o h)

/-- Every operation of a run is allowed where it is applied. -/
def Throughout (step : S → O → S) (allowed : S → O → Prop) : S → List O → Prop
  | _, [] => True
  | s, o :: os => allowed s o ∧ Throughout step allowed (step s o) os

instance Throughout.decidable {allowed : S → O → Prop} [h : ∀ s o, Decidable (allowed s o)] :
    (s : S) → (os : List O) → Decidable (Throughout step allowed s os)
  | _, [] => .isTrue trivial
  | s, o :: os => @instDecidableAnd _ _ (h s o) (Throughout.decidable (step s o) os)

theorem throughout_append {allowed : S → O → Prop} {os' : List O} :
    Throughout step allowed s (os ++ os') ↔
    Throughout step allowed s os ∧ Throughout step allowed (os.foldl step s) os' := by
  induction os generalizing s with
  | nil => simp [Throughout]
  | cons o os ih => simp [Throughout, ih, and_assoc]

theorem foldl_throughout {P : S → Prop} {allowed : S → O → Prop}
    (hstep : ∀ s o, P s → allowed s o → P (step s o)) (h : P s)
    (hallowed : Throughout step allowed s os) : P (os.foldl step s) := by
  induction os generalizing s with
  | nil => exact h
  | cons o os ih => exact ih (hstep s o h hallowed.1) hallowed.2

end Voxhold.Lib
