/-
# Voxhold.Lib.LockDiscipline — what the locks of a goroutine machine guarantee

A list of instructions is DISCIPLINED when every command is reached with the locks it `needs` held.
Two goroutines never hold one lock in conflicting modes (`Reachable.compatible`). An ENTRY lock is
taken first and never again, so it is held from any point of its operation on (`Reachable.mode_eq`);
a SOLO command is only ever the next one of its goroutine (`Reachable.solo_excludes`).
-/

import Voxhold.Lib.Goroutine

namespace Voxhold.Lib

open List

variable {σ Lock Cmd Choice Op : Type} [DecidableEq Lock]

/-! ## Disciplined instruction lists -/

/-- Every command of the list is reached while the locks it needs are held. -/
def Disciplined (needs : Cmd → List (Lock × Mode)) (ends : Cmd → Prop) :
    List (Lock × Mode) → List (Instr Lock Cmd) → Prop
  | _, [] => True
  | held, .acquire l m :: rest => Disciplined needs ends ((l, m) :: held) rest
  | held, .release l :: rest => Disciplined needs ends (held.eraseP fun r => r.1 = l) rest
  | held, .run c :: rest =>
    (∀ r ∈ needs c, r ∈ held) ∧ (ends c → cmds rest = []) ∧ Disciplined needs ends held rest

namespace Disciplined

variable {needs : Cmd → List (Lock × Mode)} {ends : Cmd → Prop} {held : List (Lock × Mode)}
  {l : Lock} {m : Mode} {c : Cmd} {rest : List (Instr Lock Cmd)}
  {is : List (Instr Lock Cmd)}

@[simp] theorem nil : Disciplined needs ends held ([] : List (Instr Lock Cmd)) := trivial

@[simp] theorem acquire_iff : Disciplined needs ends held (.acquire l m :: rest) ↔
      Disciplined needs ends ((l, m) :: held) rest :=
  Iff.rfl

@[simp] theorem release_iff : Disciplined needs ends held (.release l :: rest) ↔
      Disciplined needs ends (held.eraseP fun r => r.1 = l) rest :=
  Iff.rfl

@[simp] theorem run_iff : Disciplined needs ends held (.run c :: rest) ↔
      (∀ r ∈ needs c, r ∈ held) ∧ (ends c → cmds rest = []) ∧ Disciplined needs ends held rest :=
  Iff.rfl

theorem append_of_cmds_eq_nil (h : Disciplined needs ends held is)
    (hrest : cmds rest = []) : Disciplined needs ends held (is ++ rest) := by
  induction is generalizing held with
  | nil =>
    rw [nil_append]
    clear h
    induction rest generalizing held with
    | nil => trivial
    | cons i rest ih =>
      cases i with
      | acquire l m | release l => exact ih hrest
      | run c => simp at hrest
  | cons i is ih =>
    cases i with
    | acquire l m | release l => exact ih h
    | run c =>
      refine ⟨h.1, fun hends => ?_, ih h.2.2⟩
      show cmds (is ++ rest) = []
      rw [cmds_append, h.2.1 hends, hrest, append_nil]

theorem flatMap {ι : Type} {f : ι → List (Instr Lock Cmd)}
    (hf : ∀ x rest, Disciplined needs ends held rest → Disciplined needs ends held (f x ++ rest))
    (xs : List ι) (hrest : Disciplined needs ends held rest) :
    Disciplined needs ends held (xs.flatMap f ++ rest) := by
  induction xs with
  | nil => exact hrest
  | cons x xs ih =>
    rw [flatMap_cons, append_assoc]
    exact hf x _ ih

theorem map {ι : Type} {f : ι → Cmd} (hneeds : ∀ x, ∀ r ∈ needs (f x), r ∈ held)
    (hends : ∀ x, ¬ends (f x)) (xs : List ι) (hrest : Disciplined needs ends held rest) :
    Disciplined needs ends held ((xs.map fun x => .run (f x)) ++ rest) := by
  induction xs with
  | nil => exact hrest
  | cons x xs ih => exact ⟨hneeds x, fun h => absurd h (hends x), ih⟩

theorem runs (his : ∀ i ∈ is, ∃ c, i = .run c)
    (hneeds : ∀ c, .run c ∈ is → ∀ r ∈ needs c, r ∈ held) (hends : ∀ c, .run c ∈ is → ¬ends c)
    (hrest : Disciplined needs ends held rest) : Disciplined needs ends held (is ++ rest) := by
  induction is with
  | nil => exact hrest
  | cons i is ih =>
    obtain ⟨c, rfl⟩ := his i mem_cons_self
    refine ⟨hneeds c mem_cons_self, fun h => absurd h (hends c mem_cons_self), ?_⟩
    exact ih (fun j hj => his j (mem_cons_of_mem _ hj))
      (fun d hd => hneeds d (mem_cons_of_mem _ hd))
      (fun d hd => hends d (mem_cons_of_mem _ hd))

theorem map_cmd {Cmd' : Type} {f : Cmd' → Cmd} {is : List (Instr Lock Cmd')} :
    Disciplined needs ends held (is.map (Instr.map f)) ↔
      Disciplined (needs ∘ f) (ends ∘ f) held is := by
  induction is generalizing held with
  | nil => exact Iff.rfl
  | cons i is ih =>
    cases i with
    | acquire l m | release l => exact ih
    | run c =>
      show (_ ∧ (ends (f c) → _) ∧ Disciplined needs ends held (is.map (Instr.map f))) ↔ _
      rw [ih, cmds_map, map_eq_nil_iff]
      exact Iff.rfl

theorem held_of_mem (h : Disciplined needs ends held is)
    (hc : .run c ∈ is) (hneed : (l, m) ∈ needs c) (hfree : ∀ m', .acquire l m' ∉ is) :
    (l, m) ∈ held := by
  induction is generalizing held with
  | nil => cases hc
  | cons i is ih =>
    have hfree' : ∀ m', .acquire l m' ∉ is := fun m' hm => hfree m' (mem_cons_of_mem _ hm)
    cases i with
    | acquire l' m' =>
      have hmem := ih (acquire_iff.mp h) (by simpa using hc) hfree'
      rcases mem_cons.mp hmem with heq | hmem
      · -- the lock would be taken here
        cases heq
        exact absurd mem_cons_self (hfree m)
      · exact hmem
    | release l' =>
      exact mem_of_mem_eraseP (ih (release_iff.mp h) (by simpa using hc) hfree')
    | run c' =>
      obtain ⟨hhere, -, hrest⟩ := run_iff.mp h
      rcases mem_cons.mp hc with heq | hc
      · cases heq
        exact hhere _ hneed
      · exact ih hrest hc hfree'

end Disciplined

/-! ## Disciplined machines -/

namespace Machine

variable (M : Machine σ Lock Cmd Choice Op)
  {rest : List (Instr Lock Cmd)}

/-- The machine keeps to the discipline, and takes the locks in `entry` only as the very first
instruction of an operation. -/
structure Keeps (needs : Cmd → List (Lock × Mode)) (ends : Cmd → Prop) (entry : Lock → Prop) :
    Prop where
  body : ∀ op, Disciplined needs ends [] (M.body op)
  exec : ∀ {c x s s' new held rest}, M.exec c x s = some (s', new) →
    Disciplined needs ends held (.run c :: rest) → Disciplined needs ends held (new ++ rest)
  bodyEntry : ∀ op l m, entry l → .acquire l m ∉ (M.body op).tail
  execEntry : ∀ {c x s s' new l m}, M.exec c x s = some (s', new) → entry l → .acquire l m ∉ new

/-- The commands in `P` are never queued behind another instruction. -/
structure Solo (P : Cmd → Prop) : Prop where
  body : ∀ op b, P b → .run b ∉ (M.body op).tail
  exec : ∀ {c x s s' new b}, M.exec c x s = some (s', new) → P b → .run b ∉ new.tail

variable {M} {allowed : Op → Prop} {guard : σ → Multiset Cmd → Cmd → Prop} {init : σ}
  {needs : Cmd → List (Lock × Mode)} {ends : Cmd → Prop} {entry : Lock → Prop}
  {cfg : Config σ Lock Cmd} {i j : Nat} {l : Lock} {m m' : Mode} {b c : Cmd} {P : Cmd → Prop}

theorem Keeps.mono {entry' : Lock → Prop} (h : M.Keeps needs ends entry)
    (hle : ∀ l, entry' l → entry l) : M.Keeps needs ends entry' where
  __ := h
  bodyEntry := fun op l m hl => h.bodyEntry op l m (hle l hl)
  execEntry := fun he hl => h.execEntry he (hle _ hl)

theorem Reachable.thread_invariant {Q : σ → Thread Lock Cmd → Prop} (hidle : ∀ s, Q s ⟨[], []⟩)
    (hbody : ∀ s op, allowed op → Q s ⟨[], M.body op⟩)
    (hacquire : ∀ s held l m rest, Q s ⟨held, .acquire l m :: rest⟩ → Q s ⟨(l, m) :: held, rest⟩)
    (hrelease : ∀ s held l rest, Q s ⟨held, .release l :: rest⟩ →
      Q s ⟨held.eraseP fun r => r.1 = l, rest⟩)
    (hrun : ∀ cfg i c x s new rest R, M.Reachable allowed guard init cfg →
      M.Fires cfg i c x s new rest R → Q cfg.state ⟨(cfg.thread i).held, .run c :: rest⟩ →
      Q s ⟨(cfg.thread i).held, new ++ rest⟩)
    (hother : ∀ cfg i j c x s new rest R, M.Reachable allowed guard init cfg →
      M.Fires cfg i c x s new rest R → j ≠ i → Q cfg.state (cfg.thread j) → Q s (cfg.thread j))
    (h : M.Reachable allowed guard init cfg) (i : Nat) : Q cfg.state (cfg.thread i) := by
  induction h generalizing i with
  | init => simpa [Config.thread] using hidle init
  | @start cfg op _ hop ih =>
    rw [M.thread_start]
    split
    · exact hbody _ op hop
    · exact ih i
  | @step cfg cfg' k x hcfg _ hstep ih =>
    have hk := ih k
    rcases M.step_cases hstep with ⟨l, m, rest, htodo, -, rfl⟩ | ⟨l, rest, htodo, rfl⟩ |
      ⟨c, rest, s, new, htodo, hexec, rfl⟩
    all_goals
      have hlt : k < cfg.pool.length := cfg.lt_length_of_todo_ne (by simp [htodo])
      have hthread : cfg.thread k = ⟨(cfg.thread k).held, (cfg.thread k).todo⟩ := rfl
      rw [hthread, htodo] at hk
    · rw [cfg.thread_setThread hlt]
      split
      · exact hacquire _ _ _ _ _ hk
      · exact ih i
    · rw [cfg.thread_setThread hlt]
      split
      · exact hrelease _ _ _ _ hk
      · exact ih i
    · obtain ⟨R, hfires, -⟩ := M.fires_of_exec htodo hexec
      show Q s ((cfg.setThread k _).thread i)
      rw [cfg.thread_setThread hlt]
      split
      · exact hrun cfg k c x s new rest R hcfg hfires hk
      · next hik => exact hother cfg k i c x s new rest R hcfg hfires hik (ih i)

theorem Reachable.thread_induction {Q : Thread Lock Cmd → Prop} (hidle : Q ⟨[], []⟩)
    (hbody : ∀ op, allowed op → Q ⟨[], M.body op⟩)
    (hacquire : ∀ held l m rest, Q ⟨held, .acquire l m :: rest⟩ → Q ⟨(l, m) :: held, rest⟩)
    (hrelease : ∀ held l rest, Q ⟨held, .release l :: rest⟩ →
      Q ⟨held.eraseP fun r => r.1 = l, rest⟩)
    (hrun : ∀ held c rest x s s' new, M.exec c x s = some (s', new) → Q ⟨held, .run c :: rest⟩ →
      Q ⟨held, new ++ rest⟩)
    (h : M.Reachable allowed guard init cfg) (i : Nat) : Q (cfg.thread i) :=
  h.thread_invariant (Q := fun _ t => Q t) (fun _ => hidle) (fun _ => hbody) (fun _ => hacquire)
    (fun _ => hrelease) (fun _ _ _ _ _ _ _ _ _ hf hQ => hrun _ _ _ _ _ _ _ hf.exec hQ)
    (fun _ _ _ _ _ _ _ _ _ _ _ _ hQ => hQ) i

variable (h : M.Reachable allowed guard init cfg) (hM : M.Keeps needs ends entry)
include h hM

theorem Reachable.disciplined (i : Nat) :
    Disciplined needs ends (cfg.thread i).held (cfg.thread i).todo :=
  h.thread_induction (Q := fun t => Disciplined needs ends t.held t.todo) Disciplined.nil
    (fun op _ => hM.body op) (fun _ _ _ _ hQ => hQ) (fun _ _ _ hQ => hQ)
    (fun _ _ _ _ _ _ _ hexec hQ => hM.exec hexec hQ) i

/-- What an entry lock means for one goroutine: while it still has to take the lock it has not
started, and it holds the lock at most once. -/
structure EntryOnce (M : Machine σ Lock Cmd Choice Op) (l : Lock) (t : Thread Lock Cmd) : Prop where
  fresh : ∀ m, .acquire l m ∈ t.todo → t.held = [] ∧ ∃ op, t.todo = M.body op
  once : ∀ m m', (l, m) ∈ t.held → (l, m') ∈ t.held → m = m'

theorem Reachable.entryOnce (hl : entry l) (i : Nat) : M.EntryOnce l (cfg.thread i) := by
  -- one instruction of the goroutine later, the lock can only stand in the tail of its list
  have hgone : ∀ {held : List (Lock × Mode)} {first rest} m, M.EntryOnce l ⟨held, first :: rest⟩ →
      .acquire l m ∉ rest := by
    intro held first rest m hQ hrest
    obtain ⟨-, op, hop⟩ := hQ.fresh m (mem_cons_of_mem _ hrest)
    have htail := hM.bodyEntry op l m hl
    rw [← hop] at htail
    exact htail hrest
  refine h.thread_induction (Q := M.EntryOnce l) ⟨by simp, by simp⟩
    (fun op _ => ⟨fun _ _ => ⟨rfl, op, rfl⟩, by simp⟩) ?_ ?_ ?_ i
  · intro held l' n rest hQ
    refine ⟨fun m hm => absurd hm (hgone m hQ), fun m m' hm hm' => ?_⟩
    by_cases hll : l' = l
    · -- the lock is taken by a goroutine that holds nothing
      subst hll
      have hnone := (hQ.fresh n mem_cons_self).1
      simp only at hnone
      simp only [hnone, mem_singleton, Prod.mk.injEq, true_and] at hm hm'
      rw [hm, hm']
    · refine hQ.once m m' ?_ ?_
      · simpa [Ne.symm hll] using hm
      · simpa [Ne.symm hll] using hm'
  · intro held l' rest hQ
    exact ⟨fun m hm => absurd hm (hgone m hQ), fun m m' hm hm' =>
      hQ.once m m' (mem_of_mem_eraseP hm) (mem_of_mem_eraseP hm')⟩
  · intro held c rest x s s' new hexec hQ
    refine ⟨fun m hm => ?_, hQ.once⟩
    rcases mem_append.mp hm with hnew | hrest
    · exact absurd hnew (hM.execEntry hexec hl)
    · exact absurd hrest (hgone m hQ)

theorem Reachable.holds (hl : entry l) (hb : .run b ∈ (cfg.thread i).todo)
    (hneed : (l, m) ∈ needs b) (hpushed : ∀ op, .run b ∉ M.body op) :
    (l, m) ∈ (cfg.thread i).held := by
  refine (h.disciplined hM i).held_of_mem hb hneed fun m' hacq => ?_
  obtain ⟨-, op, hop⟩ := (h.entryOnce hM hl i).fresh m' hacq
  exact hpushed op (hop ▸ hb)

theorem Reachable.holds_head (hhead : (cfg.thread i).todo = .run c :: rest) :
    ∀ r ∈ needs c, r ∈ (cfg.thread i).held := by
  have hd := h.disciplined hM i
  rw [hhead] at hd
  exact hd.1

/-! ## Mutual exclusion -/

omit hM in
theorem Reachable.compatible (hij : i ≠ j)
    (hi : (l, m) ∈ (cfg.thread i).held) (hj : (l, m') ∈ (cfg.thread j).held) :
    m = .shared ∧ m' = .shared := by
  induction h generalizing i j m m' with
  | init => simp [Config.thread] at hi
  | @start cfg op _ _ ih =>
    rw [M.thread_start] at hi hj
    split at hi
    · simp at hi
    · split at hj
      · simp at hj
      · exact ih hij hi hj
  | @step cfg cfg' k x _ _ hstep ih =>
    rcases M.step_cases hstep with ⟨l', n, rest, htodo, hfree, rfl⟩ | ⟨l', rest, htodo, rfl⟩ |
      ⟨c, rest, s, new, htodo, hexec, rfl⟩
    all_goals have hk : k < cfg.pool.length := cfg.lt_length_of_todo_ne (by simp [htodo])
    · -- the lock just taken was free with respect to every other goroutine
      have hother : ∀ p, p ≠ k → ∀ {q}, (l', q) ∈ (cfg.thread p).held → q = .shared ∧
        n = .shared := by
        intro p hp q hq
        have hlt : p < cfg.pool.length := by
          by_contra hle
          rw [cfg.thread_of_length_le (Nat.le_of_not_lt hle)] at hq
          cases hq
        exact hfree p hlt hp _ hq rfl
      rw [cfg.thread_setThread hk] at hi hj
      split at hi <;> split at hj
      · next hik hjk => exact absurd (hik.trans hjk.symm) hij
      · next hik hjk =>
        rcases mem_cons.mp hi with heq | hi
        · cases heq
          exact (hother j hjk hj).symm
        · exact ih (Ne.symm hjk) hi hj
      · next hik hjk =>
        rcases mem_cons.mp hj with heq | hj
        · cases heq
          exact hother i hik hi
        · exact ih hik hi hj
      · exact ih hij hi hj
    · have hsub : ∀ p, ∀ {q}, (l, q) ∈ ((cfg.setThread k
          ⟨(cfg.thread k).held.eraseP (fun r => r.1 = l'), rest⟩).thread p).held →
          (l, q) ∈ (cfg.thread p).held := by
        intro p q hq
        rw [cfg.thread_setThread hk] at hq
        split at hq
        · next hpk => exact hpk ▸ mem_of_mem_eraseP hq
        · exact hq
      exact ih hij (hsub i hi) (hsub j hj)
    · have hsame : ∀ p, ((fire cfg k s new rest).thread p).held = (cfg.thread p).held := by
        intro p
        show ((cfg.setThread k _).thread p).held = _
        rw [cfg.thread_setThread hk]
        split
        · next hpk => rw [hpk]
        · rfl
      exact ih hij (hsame i ▸ hi) (hsame j ▸ hj)

theorem Reachable.mode_eq (hl : entry l) (hhead : (cfg.thread i).todo = .run c :: rest)
    (hc : (l, m) ∈ needs c) (hb : b ∈ cfg.pending) (hneed : (l, m') ∈ needs b)
    (hpushed : ∀ op, .run b ∉ M.body op) : m = m' := by
  obtain ⟨j, hj⟩ := (Config.mem_pending _).mp hb
  have hhi := h.holds_head hM hhead _ hc
  have hhj := h.holds hM hl hj hneed hpushed
  by_cases hij : i = j
  · subst hij
    exact (h.entryOnce hM hl i).once m m' hhi hhj
  · obtain ⟨rfl, rfl⟩ := h.compatible hij hhi hhj
    rfl

omit hM in
theorem Reachable.not_mem_tail_of_solo (hS : M.Solo P) (hb : P b) (i : Nat) :
    .run b ∉ (cfg.thread i).todo.tail := by
  refine h.thread_induction (Q := fun t => .run b ∉ t.todo.tail) not_mem_nil
    (fun op _ => hS.body op b hb) ?_ ?_ ?_ i
  · exact fun _ _ _ _ hQ htail => hQ (mem_of_mem_tail htail)
  · exact fun _ _ _ hQ htail => hQ (mem_of_mem_tail htail)
  · intro held c rest x s s' new hexec hQ htail
    cases new with
    | nil => exact hQ (mem_of_mem_tail htail)
    | cons n new =>
      rcases mem_append.mp htail with hnew | hrest
      · exact hS.exec hexec hb hnew
      · exact hQ hrest

theorem Reachable.solo_excludes_held (hS : M.Solo P) {x : Choice} {s : σ}
    {new : List (Instr Lock Cmd)} {R : Multiset Cmd} (hf : M.Fires cfg i c x s new rest R)
    (hheld : (l, .exclusive) ∈ (cfg.thread i).held) (hb : P b) (hneed : (l, m) ∈ needs b) :
    b ∉ R := by
  intro hbR
  rcases hf.origin b hbR with hrest | ⟨j, hji, hj⟩
  · have htail := h.not_mem_tail_of_solo hS hb i
    rw [hf.head] at htail
    exact htail hrest
  · obtain ⟨tail, htodo⟩ : ∃ tail, (cfg.thread j).todo = .run b :: tail := by
      have htail := h.not_mem_tail_of_solo hS hb j
      cases htodo : (cfg.thread j).todo with
      | nil => simp [htodo] at hj
      | cons first tail =>
        rw [htodo] at hj htail
        rcases mem_cons.mp hj with heq | hmem
        · exact ⟨tail, by rw [← heq]⟩
        · exact absurd hmem htail
    have hboth := h.compatible hji.symm hheld (h.holds_head hM htodo _ hneed)
    exact absurd hboth.1 (by simp)

theorem Reachable.solo_excludes (hS : M.Solo P) {x : Choice} {s : σ}
    {new : List (Instr Lock Cmd)} {R : Multiset Cmd} (hf : M.Fires cfg i c x s new rest R)
    (hc : (l, .exclusive) ∈ needs c) (hb : P b) (hneed : (l, m) ∈ needs b) : b ∉ R :=
  h.solo_excludes_held hM hS hf (h.holds_head hM hf.head _ hc) hb hneed

end Machine

/-! ## Order inside one goroutine -/

/-- Up to the first `d`, the list has an instruction satisfying `P`. -/
def Before {α : Type} (P : α → Prop) (d : α) : List α → Prop
  | [] => True
  | i :: rest => P i ∨ (i ≠ d ∧ Before P d rest)

namespace Before

variable {α : Type} {P : α → Prop} {d : α} {is js : List α}

theorem of_not_mem (h : d ∉ is) : Before P d is := by
  induction is with
  | nil => trivial
  | cons i is ih =>
    simp only [mem_cons, not_or] at h
    exact .inr ⟨Ne.symm h.1, ih h.2⟩

theorem append_left (his : d ∉ is) (hjs : Before P d js) : Before P d (is ++ js) := by
  induction is with
  | nil => exact hjs
  | cons i is ih =>
    simp only [mem_cons, not_or] at his
    exact .inr ⟨Ne.symm his.1, ih his.2⟩

theorem append_right (h : ∃ i ∈ is, P i) (his : d ∉ is) (js : List α) : Before P d (is ++ js) := by
  induction is with
  | nil => simp at h
  | cons i is ih =>
    simp only [mem_cons, not_or] at his
    obtain ⟨k, hk, hP⟩ := h
    rcases mem_cons.mp hk with rfl | hk
    · exact .inl hP
    · exact .inr ⟨Ne.symm his.1, ih ⟨k, hk, hP⟩ his.2⟩

end Before

/-- Every command that `owes` others is followed by them. -/
def Followed (owes : Cmd → Cmd → Prop) : List (Instr Lock Cmd) → Prop
  | [] => True
  | .run a :: rest => (∀ b, owes a b → .run b ∈ rest) ∧ Followed owes rest
  | .acquire _ _ :: rest | .release _ :: rest => Followed owes rest

namespace Followed

variable {owes : Cmd → Cmd → Prop} {is rest : List (Instr Lock Cmd)}

omit [DecidableEq Lock] in
theorem append (his : ∀ a, .run a ∈ is → ∀ b, owes a b → .run b ∈ rest)
    (hrest : Followed owes rest) : Followed owes (is ++ rest) := by
  induction is with
  | nil => exact hrest
  | cons i is ih =>
    have htail := ih fun a ha => his a (mem_cons_of_mem _ ha)
    cases i with
    | acquire l m | release l => exact htail
    | run a => exact ⟨fun b hb => mem_append_right _ (his a mem_cons_self b hb), htail⟩

end Followed

namespace Machine

variable {M : Machine σ Lock Cmd Choice Op} {cfg : Config σ Lock Cmd} {i j : Nat} {c b : Cmd}
  {x : Choice} {s : σ} {new rest : List (Instr Lock Cmd)} {R : Multiset Cmd}

omit [DecidableEq Lock] in
theorem Fires.mem_of_rest (hf : M.Fires cfg i c x s new rest R) (hb : .run b ∈ rest) : b ∈ R := by
  have hi : i < cfg.pool.length := cfg.lt_length_of_todo_ne (by simp [hf.head])
  obtain ⟨others, hbefore, -⟩ := cfg.pending_split hi
  rw [hf.pending, hf.head, cmds_run, ← Multiset.cons_coe, Multiset.cons_add] at hbefore
  rw [(Multiset.cons_inj_right c).mp hbefore]
  exact mem_pushed.mpr (.inl hb)

variable {owes : Cmd → Cmd → Prop} {allowed : Op → Prop}
  {guard : σ → Multiset Cmd → Cmd → Prop} {init : σ}

theorem Reachable.followed (hbody : ∀ op, allowed op → Followed owes (M.body op))
    (hexec : ∀ a x s s' new rest, M.exec a x s = some (s', new) → (∀ b, owes a b → .run b ∈ rest) →
      Followed owes rest → Followed owes (new ++ rest))
    (h : M.Reachable allowed guard init cfg) (i : Nat) : Followed owes (cfg.thread i).todo :=
  h.thread_induction (Q := fun t => Followed owes t.todo) trivial hbody (fun _ _ _ _ hQ => hQ)
    (fun _ _ _ hQ => hQ) (fun _ a rest x s s' new he hQ => hexec a x s s' new rest he hQ.1 hQ.2) i

end Machine

/-! ## Locks taken for one command -/

/-- Every command of the list that needs a lock stands right behind the instruction that takes it;
`last` is what the instruction before the list took. -/
def TakesEach (needs : Cmd → List (Lock × Mode)) :
    Option (Lock × Mode) → List (Instr Lock Cmd) → Prop
  | _, [] => True
  | _, .acquire l m :: rest => TakesEach needs (some (l, m)) rest
  | _, .release _ :: rest => TakesEach needs none rest
  | last, .run c :: rest => (∀ r ∈ needs c, last = some r) ∧ TakesEach needs none rest

namespace TakesEach

variable {needs : Cmd → List (Lock × Mode)} {last : Option (Lock × Mode)}
  {is rest : List (Instr Lock Cmd)}

omit [DecidableEq Lock] in
theorem of_none (h : TakesEach needs none is) : TakesEach needs last is := by
  cases is with
  | nil => trivial
  | cons i is =>
    cases i with
    | acquire l m | release l => exact h
    | run c => exact ⟨fun r hr => absurd (h.1 r hr) (by simp), h.2⟩

omit [DecidableEq Lock] in
theorem of_needless (h : ∀ c, .run c ∈ is → needs c = []) : TakesEach needs last is := by
  induction is generalizing last with
  | nil => trivial
  | cons i is ih =>
    have htail : ∀ last, TakesEach needs last is :=
      fun _ => ih fun c hc => h c (mem_cons_of_mem _ hc)
    cases i with
    | acquire l m | release l => exact htail _
    | run c => exact ⟨by simp [h c mem_cons_self], htail _⟩

omit [DecidableEq Lock] in
theorem append (his : TakesEach needs last is) (hrest : TakesEach needs none rest) :
    TakesEach needs last (is ++ rest) := by
  induction is generalizing last with
  | nil => exact hrest.of_none
  | cons i is ih =>
    cases i with
    | acquire l m | release l => exact ih his
    | run c => exact ⟨his.1, ih his.2⟩

end TakesEach

namespace Machine

variable {M : Machine σ Lock Cmd Choice Op} {needs : Cmd → List (Lock × Mode)} {allowed : Op → Prop}
  {guard : σ → Multiset Cmd → Cmd → Prop} {init : σ} {cfg : Config σ Lock Cmd} {i j : Nat} {c : Cmd}
  {rest : List (Instr Lock Cmd)}

theorem Reachable.holds_taken (hbody : ∀ op, allowed op → TakesEach needs none (M.body op))
    (hexec : ∀ a x s s' new, M.exec a x s = some (s', new) → TakesEach needs none new)
    (h : M.Reachable allowed guard init cfg) (hhead : (cfg.thread i).todo = .run c :: rest) :
    ∀ r ∈ needs c, r ∈ (cfg.thread i).held := by
  obtain ⟨last, hlast, htakes⟩ := h.thread_induction
    (Q := fun t => ∃ last, (∀ r ∈ last, r ∈ t.held) ∧ TakesEach needs last t.todo)
    ⟨none, by simp, trivial⟩ (fun op hop => ⟨none, by simp, hbody op hop⟩)
    (fun held l m rest ⟨_, _, hQ⟩ => ⟨some (l, m), by simp, hQ⟩)
    (fun held l rest ⟨_, _, hQ⟩ => ⟨none, by simp, hQ⟩)
    (fun held a rest x s s' new he ⟨_, _, hQ⟩ =>
    ⟨none, by simp, (hexec a x s s' new he).append hQ.2⟩) i
  rw [hhead] at htakes
  intro r hr
  exact hlast r (htakes.1 r hr)

end Machine

/-! ## Commands that come first -/

/-- A command in `P` stands first in the list, up to locks that are taken before it. -/
def Foremost (P : Cmd → Prop) : List (Instr Lock Cmd) → Prop
  | [] => True
  | .acquire _ _ :: rest => Foremost P rest
  | .release _ :: rest | .run _ :: rest => ∀ b, P b → .run b ∉ rest

namespace Foremost

variable {P : Cmd → Prop} {is rest : List (Instr Lock Cmd)}

omit [DecidableEq Lock] in
theorem of_not_mem (h : ∀ b, P b → .run b ∉ is) : Foremost P is := by
  induction is with
  | nil => trivial
  | cons i is ih =>
    have htail : ∀ b, P b → .run b ∉ is := fun b hb hmem => h b hb (mem_cons_of_mem _ hmem)
    cases i with
    | acquire l m => exact ih htail
    | release l | run c => exact htail

omit [DecidableEq Lock] in
theorem of_tail (h : ∀ b, P b → .run b ∉ is.tail) : Foremost P is := by
  cases is with
  | nil => trivial
  | cons i is =>
    cases i with
    | acquire l m => exact (of_not_mem h : Foremost P is)
    | release l | run c => exact h

omit [DecidableEq Lock] in
theorem append (his : Foremost P is) (hrest : ∀ b, P b → .run b ∉ rest) :
    Foremost P (is ++ rest) := by
  induction is with
  | nil => exact of_not_mem hrest
  | cons i is ih =>
    cases i with
    | acquire l m => exact ih his
    | release l | run c =>
      intro b hb hmem
      rcases mem_append.mp hmem with hin | hin
      · exact his b hb hin
      · exact hrest b hb hin

omit [DecidableEq Lock] in
theorem map_cmd {Cmd' : Type} {f : Cmd' → Cmd} {is : List (Instr Lock Cmd')}
    (h : Foremost (P ∘ f) is) : Foremost P (is.map (Instr.map f)) := by
  have hmap : ∀ {js : List (Instr Lock Cmd')}, (∀ b, P (f b) → .run b ∉ js) →
      ∀ b, P b → .run b ∉ js.map (Instr.map f) := by
    intro js hjs b hb hmem
    obtain ⟨c, hc, rfl⟩ := run_mem_map.mp hmem
    exact hjs c hb hc
  induction is with
  | nil => trivial
  | cons i is ih =>
    cases i with
    | acquire l m => exact ih h
    | release l | run c => exact hmap h

end Foremost

namespace Machine

variable {M : Machine σ Lock Cmd Choice Op} {P : Cmd → Prop} {l : Lock} {m : Mode}
  {allowed : Op → Prop}
  {guard : σ → Multiset Cmd → Cmd → Prop} {init : σ} {cfg : Config σ Lock Cmd} {i j : Nat}
  {b c : Cmd}

theorem Reachable.foremost (hbody : ∀ op, allowed op → ∀ b, P b → .run b ∉ M.body op)
    (hexec : ∀ c x s s' new, M.exec c x s = some (s', new) → Foremost P new)
    (hsource : ∀ cfg i c x s new rest R b, M.Reachable allowed guard init cfg →
      M.Fires cfg i c x s new rest R → P b → .run b ∈ new → P c ∨ (l, m) ∈ (cfg.thread i).held)
    (h : M.Reachable allowed guard init cfg) (i : Nat) :
    Foremost P (cfg.thread i).todo ∧ ∀ b, P b → .run b ∈ (cfg.thread i).todo →
    (l, m) ∈ (cfg.thread i).held := by
  refine h.thread_invariant (Q := fun _ t => Foremost P t.todo ∧
    ∀ b, P b → .run b ∈ t.todo → (l, m) ∈ t.held) ?_ ?_ ?_ ?_ ?_ ?_ i
  · exact fun _ => ⟨trivial, by simp⟩
  · exact fun _ op hop => ⟨.of_not_mem (hbody op hop), fun b hb hmem =>
      absurd hmem (hbody op hop b hb)⟩
  · intro _ held l' m' rest hQ
    exact ⟨hQ.1, fun b hb hmem => mem_cons_of_mem _ (hQ.2 b hb (mem_cons_of_mem _ hmem))⟩
  · intro _ held l' rest hQ
    exact ⟨.of_not_mem hQ.1, fun b hb hmem => absurd hmem (hQ.1 b hb)⟩
  · intro cfg i c x s new rest R hcfg hf hQ
    refine ⟨(hexec c x _ _ new hf.exec).append hQ.1, fun b hb hmem => ?_⟩
    rcases mem_append.mp hmem with hnew | hrest
    · rcases hsource cfg i c x s new rest R b hcfg hf hb hnew with hc | hheld
      · exact hQ.2 c hc mem_cons_self
      · exact hheld
    · exact absurd hrest (hQ.1 b hb)
  · exact fun _ _ _ _ _ _ _ _ _ _ _ _ hQ => hQ

theorem Reachable.foremost_excludes (h : M.Reachable allowed guard init cfg)
    (hP : ∀ i, Foremost P (cfg.thread i).todo ∧
      ∀ b, P b → .run b ∈ (cfg.thread i).todo → (l, m) ∈ (cfg.thread i).held)
    {x : Choice} {s : σ} {new rest : List (Instr Lock Cmd)} {R : Multiset Cmd}
    (hf : M.Fires cfg i c x s new rest R) (hheld : (l, .exclusive) ∈ (cfg.thread i).held)
    (hb : P b) : b ∉ R := by
  intro hbR
  rcases hf.origin b hbR with hrest | ⟨j, hji, hj⟩
  · have hfirst := (hP i).1
    rw [hf.head] at hfirst
    exact hfirst b hb hrest
  · have hboth := h.compatible hji.symm hheld ((hP j).2 b hb hj)
    exact absurd hboth.1 (by simp)

end Machine

end Voxhold.Lib
