/-
# Voxhold.Lib.ChangeFeed — following a store through its journal

A store with a journal of the keys of changed rows, under increasing numbers; entries up to a floor
may be gone. A follower has a copy of the rows and the number up to which it has read.
-/

import Mathlib.Order.Nat

namespace Voxhold.Lib

structure Feed (K V : Type) where
  /-- The rows that are shown. -/
  rows : K → Option V
  /-- There is a row, and it is not shown. -/
  hidden : K → Prop
  /-- The key was used. -/
  born : K → Prop
  /-- The keys of the entries that are still there. -/
  log : ℕ → Option K
  /-- The number of the newest entry. -/
  cursor : ℕ
  floor : ℕ

namespace Feed

variable {K V : Type} {F F' F'' : Feed K V}

structure Sound (F : Feed K V) : Prop where
  log_le : ∀ {n : ℕ} {k : K}, F.log n = some k → n ≤ F.cursor
  born_of_rows : ∀ {k : K} {v : V}, F.rows k = some v → F.born k
  shown_of_rows : ∀ {k : K} {v : V}, F.rows k = some v → ¬ F.hidden k

theorem Sound.rows_of_hidden {k : K} (h : F.Sound) (hk : F.hidden k) : F.rows k = none := by
  cases hrow : F.rows k with
  | none => rfl
  | some v => exact absurd hk (h.shown_of_rows hrow)

/-- What happens to a store between two readings. -/
structure Evolves (F F' : Feed K V) : Prop where
  cursor_le : F.cursor ≤ F'.cursor
  floor_le : F.floor ≤ F'.floor
  changed : ∀ k, F'.rows k ≠ F.rows k → ∃ n, F.cursor < n ∧ (F'.log n = some k ∨ n ≤ F'.floor)
  kept : ∀ n k, F.log n = some k → F'.floor < n → F'.log n = some k
  born : ∀ k, F.born k → F'.born k
  hidden : ∀ k, F'.hidden k → F.hidden k ∨ ¬ F.born k

namespace Evolves

theorem refl (F : Feed K V) : F.Evolves F where
  cursor_le := le_rfl
  floor_le := le_rfl
  changed := fun _ h => absurd rfl h
  kept := fun _ _ h _ => h
  born := fun _ h => h
  hidden := fun _ h => .inl h

theorem trans (h : F.Evolves F') (h' : F'.Evolves F'') : F.Evolves F'' where
  cursor_le := h.cursor_le.trans h'.cursor_le
  floor_le := h.floor_le.trans h'.floor_le
  changed k hk := by
    -- the last of the two that changed the row wrote the entry; the later one may have pruned it
    by_cases hsecond : F''.rows k = F'.rows k
    · obtain ⟨n, hn, hlog⟩ := h.changed k (hsecond ▸ hk)
      refine ⟨n, hn, ?_⟩
      rcases hlog with hlog | hfloor
      · by_cases hn' : F''.floor < n
        · exact .inl (h'.kept n k hlog hn')
        · exact .inr (not_lt.mp hn')
      · exact .inr (hfloor.trans h'.floor_le)
    · obtain ⟨n, hn, hlog⟩ := h'.changed k hsecond
      exact ⟨n, h.cursor_le.trans_lt hn, hlog⟩
  kept := fun n k hlog hn => h'.kept n k (h.kept n k hlog (h'.floor_le.trans_lt hn)) hn
  born := fun k hk => h'.born k (h.born k hk)
  hidden k hk := by
    rcases h'.hidden k hk with hk' | hk'
    · exact h.hidden k hk'
    · exact .inr fun hborn => hk' (h.born k hborn)

end Evolves

end Feed

/-- What a follower knows that has read the journal up to a number and looks at some of the keys. -/
structure Follows {K V : Type} (F : Feed K V) (scope : K → Prop) (pos : ℕ) (view : K → Option V) :
    Prop where
  pos_le : pos ≤ F.cursor
  agree : F.floor ≤ pos → ∀ k, scope k → (∀ n, pos < n → F.log n ≠ some k) → view k = F.rows k
  clean : ∀ k, view k ≠ none → F.born k ∧ ¬ F.hidden k

namespace Follows

variable {K V : Type} {F F' : Feed K V} {scope : K → Prop} {pos pos' : ℕ}
  {view view' : K → Option V}

theorem evolve (h : Follows F scope pos view) (hF : F.Evolves F') : Follows F' scope pos view where
  pos_le := h.pos_le.trans hF.cursor_le
  agree hfloor k hscope hlog' := by
    have hlog : ∀ n, pos < n → F.log n ≠ some k := fun n hn hentry =>
      hlog' n hn (hF.kept n k hentry (hfloor.trans_lt hn))
    rw [h.agree (hF.floor_le.trans hfloor) k hscope hlog]
    by_contra hne
    obtain ⟨n, hn, hentry⟩ := hF.changed k (Ne.symm hne)
    have hpos : pos < n := h.pos_le.trans_lt hn
    -- a pruned entry lies under the floor, and the follower has read past that
    rcases hentry with hentry | hgone
    · exact hlog' n hpos hentry
    · exact absurd (hgone.trans hfloor) (not_le.mpr hpos)
  clean k hk := by
    obtain ⟨hborn, hshown⟩ := h.clean k hk
    refine ⟨hF.born k hborn, fun hhidden => ?_⟩
    rcases hF.hidden k hhidden with hk' | hk'
    · exact hshown hk'
    · exact hk' hborn

theorem read (hF : F.Sound) (h : Follows F scope pos view) (hfloor : F.floor ≤ pos)
    (hpos' : pos' ≤ F.cursor) (hview : ∀ k, view' k = F.rows k ∨ (view' k = view k ∧
      (F.hidden k ∨ ∀ n, pos < n → n ≤ pos' → F.log n ≠ some k))) : Follows F scope pos' view' where
  pos_le := hpos'
  agree _ k hscope hlog := by
    rcases hview k with htaken | ⟨hsame, hhidden | hunread⟩
    · exact htaken
    · rw [hsame, hF.rows_of_hidden hhidden]
      by_contra hne
      exact (h.clean k hne).2 hhidden
    · rw [hsame]
      refine h.agree hfloor k hscope fun n hn => ?_
      by_cases hn' : n ≤ pos'
      · exact hunread n hn hn'
      · exact hlog n (not_le.mp hn')
  clean k hk := by
    rcases hview k with htaken | ⟨hsame, -⟩
    · cases hrow : F.rows k with
      | none => exact absurd (htaken.trans hrow) hk
      | some v => exact ⟨hF.born_of_rows hrow, hF.shown_of_rows hrow⟩
    · exact h.clean k (hsame ▸ hk)

theorem start (hF : F.Sound) (hscope : ∀ k, scope k → view k = F.rows k)
    (hview : ∀ k, view k = F.rows k ∨ view k = none) : Follows F scope F.cursor view where
  pos_le := le_rfl
  agree := fun _ k hk _ => hscope k hk
  clean k hk := by
    rcases hview k with htaken | hnone
    · cases hrow : F.rows k with
      | none => exact absurd (htaken.trans hrow) hk
      | some v => exact ⟨hF.born_of_rows hrow, hF.shown_of_rows hrow⟩
    · exact absurd hnone hk

theorem upToDate (hF : F.Sound) (h : Follows F scope F.cursor view) (hfloor : F.floor ≤ F.cursor)
    {k : K} (hk : scope k) : view k = F.rows k :=
  h.agree hfloor k hk fun _ hn hentry => absurd (hF.log_le hentry) (not_le.mpr hn)

end Follows

end Voxhold.Lib
