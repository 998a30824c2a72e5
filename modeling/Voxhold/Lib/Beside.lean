/-
# Voxhold.Lib.Beside — a machine beside a store

Operations with a STORE of their own that call the operations of a machine of goroutines. A command
of the inner machine runs as it did; what it asks the outside world must AGREE with the store, and
the store may NOTE what it did.
-/

import Voxhold.Lib.LockDiscipline

namespace Voxhold.Lib

/-- The state of a machine, and a store. -/
structure Beside (σ τ : Type) where
  inner : σ
  store : τ

variable {σ τ Lock Cmd D Choice X Op Op' : Type}

/-- What stands beside a machine: what its own commands and operations do, and the links between the
machine's commands and the store. `choice` is the part of the input that the machine's commands
read. -/
structure Extension (M : Machine σ Lock Cmd Choice Op) (τ D X Op' : Type) where
  choice : X → Choice
  agrees : σ → τ → Cmd → X → Bool
  note : Cmd → X → σ → τ → τ
  exec : D → X → Beside σ τ → Option (Beside σ τ × List (Instr Lock (Cmd ⊕ D)))
  body : Op' → List (Instr Lock (Cmd ⊕ D))

def called (is : List (Instr Lock Cmd)) : List (Instr Lock (Cmd ⊕ D)) :=
  is.map (Instr.map .inl)

@[simp] theorem run_inl_mem_called {c : Cmd} {is : List (Instr Lock Cmd)} :
    (.run (.inl c) : Instr Lock (Cmd ⊕ D)) ∈ called is ↔ .run c ∈ is := by
  rw [called, run_mem_map]
  simp

@[simp] theorem run_inr_mem_called {d : D} {is : List (Instr Lock Cmd)} :
    (.run (.inr d) : Instr Lock (Cmd ⊕ D)) ∉ called is := by
  rw [called, run_mem_map]
  simp

namespace Extension

variable {M : Machine σ Lock Cmd Choice Op} (E : Extension M τ D X Op')

/-- A command of the machine, with its links to the store. -/
def execInner (c : Cmd) (x : X) (s : Beside σ τ) :
    Option (Beside σ τ × List (Instr Lock (Cmd ⊕ D))) :=
  if E.agrees s.inner s.store c x then
    (M.exec c (E.choice x) s.inner).map fun out =>
      (⟨out.1, E.note c x s.inner s.store⟩, called out.2)
  else none

def machine : Machine (Beside σ τ) Lock (Cmd ⊕ D) X (Op ⊕ Op') where
  exec := fun c x s =>
    match c with
    | .inl c => E.execInner c x s
    | .inr d => E.exec d x s
  body := fun
    | .inl op => called (M.body op)
    | .inr op => E.body op

variable {E} {c : Cmd} {d : D} {x : X} {s s' : Beside σ τ} {new : List (Instr Lock (Cmd ⊕ D))}

theorem exec_inl (h : E.machine.exec (.inl c) x s = some (s', new)) :
    ∃ is, E.agrees s.inner s.store c x ∧ M.exec c (E.choice x) s.inner = some (s'.inner, is) ∧
      s'.store = E.note c x s.inner s.store ∧ new = called is := by
  have h : E.execInner c x s = some (s', new) := h
  unfold execInner at h
  split at h
  · next hagrees =>
    obtain ⟨⟨inner, is⟩, hexec, heq⟩ := Option.map_eq_some_iff.mp h
    cases heq
    exact ⟨is, hagrees, hexec, rfl, rfl⟩
  · cases h

/-! ## The lock discipline -/

section Discipline

variable {Lock : Type} [DecidableEq Lock] {M : Machine σ Lock Cmd Choice Op}
  {E : Extension M τ D X Op'}
  {needs : Cmd → List (Lock × Mode)} {ends : Cmd → Prop} {entry : Lock → Prop} {f : Cmd ⊕ D → Cmd}

omit [DecidableEq Lock] in
theorem map_called (hf : ∀ c, f (.inl c) = c) (is : List (Instr Lock Cmd)) :
    (called is).map (Instr.map f) = is := by
  rw [called, List.map_map]
  refine (List.map_congr_left fun i _ => ?_).trans (List.map_id is)
  cases i with
  | acquire l m | release l => rfl
  | run c => exact congrArg Instr.run (hf c)

theorem keeps (hM : M.Keeps needs ends entry) (hf : ∀ c, f (.inl c) = c)
    (hbody : ∀ op, Disciplined (needs ∘ f) (ends ∘ f) [] (E.body op))
    (hexec : ∀ {d x s s' new held rest}, E.exec d x s = some (s', new) →
      Disciplined (needs ∘ f) (ends ∘ f) held (.run (.inr d) :: rest) →
      Disciplined (needs ∘ f) (ends ∘ f) held (new ++ rest))
    (hbodyEntry : ∀ op l m, entry l → .acquire l m ∉ (E.body op).tail)
    (hexecEntry : ∀ {d x s s' new l m}, E.exec d x s = some (s', new) → entry l →
    .acquire l m ∉ new) : E.machine.Keeps (needs ∘ f) (ends ∘ f) entry where
  body := by
    rintro (op | op)
    · show Disciplined (needs ∘ f) (ends ∘ f) [] (called (M.body op))
      rw [← Disciplined.map_cmd, map_called hf]
      exact hM.body op
    · exact hbody op
  exec := by
    rintro (c | d) x s s' new held rest he hd
    · obtain ⟨is, -, hexec, -, rfl⟩ := exec_inl he
      rw [← Disciplined.map_cmd, List.map_append, map_called hf]
      rw [← Disciplined.map_cmd, List.map_cons, Instr.map, hf] at hd
      exact hM.exec hexec hd
    · exact hexec he hd
  bodyEntry := by
    rintro (op | op) l m hl
    · show .acquire l m ∉ (called (M.body op)).tail
      rw [called, ← List.map_tail, acquire_mem_map]
      exact hM.bodyEntry op l m hl
    · exact hbodyEntry op l m hl
  execEntry := by
    rintro (c | d) x s s' new l m he hl
    · obtain ⟨is, -, hexec, -, rfl⟩ := exec_inl he
      rw [called, acquire_mem_map]
      exact hM.execEntry hexec hl
    · exact hexecEntry he hl

omit [DecidableEq Lock] in
theorem solo {P : Cmd → Prop} (hM : M.Solo P)
    (hbody : ∀ op b, P b → .run (.inl b) ∉ (E.body op).tail)
    (hexec : ∀ {d x s s' new b}, E.exec d x s = some (s', new) → P b → .run (.inl b) ∉ new.tail) :
    E.machine.Solo (Sum.elim P fun _ => False) where
  body := by
    rintro (op | op) (b | b) hb
    · show .run (.inl b) ∉ (called (M.body op)).tail
      rw [called, ← List.map_tail]
      exact fun h => hM.body op b hb (run_inl_mem_called.mp h)
    · exact hb.elim
    · exact hbody op b hb
    · exact hb.elim
  exec := by
    rintro (c | d) x s s' new (b | b) he hb
    · obtain ⟨is, -, hexec, -, rfl⟩ := exec_inl he
      rw [called, ← List.map_tail]
      exact fun h => hM.exec hexec hb (run_inl_mem_called.mp h)
    · exact hb.elim
    · exact hexec he hb
    · exact hb.elim

end Discipline

end Extension

/-! ## The pending commands of the inner machine -/

def innerCmds (S : Multiset (Cmd ⊕ D)) : Multiset Cmd :=
  S.filterMap Sum.getLeft?

@[simp] theorem mem_innerCmds {S : Multiset (Cmd ⊕ D)} {c : Cmd} :
    c ∈ innerCmds S ↔ .inl c ∈ S := by
  rw [innerCmds, Multiset.mem_filterMap]
  constructor
  · rintro ⟨a, ha, hc⟩
    rwa [← Sum.getLeft?_eq_some_iff.mp hc]
  · exact fun h => ⟨.inl c, h, rfl⟩

@[simp] theorem innerCmds_zero : innerCmds (0 : Multiset (Cmd ⊕ D)) = 0 := rfl

@[simp] theorem innerCmds_cons_inl (c : Cmd) (S : Multiset (Cmd ⊕ D)) :
    innerCmds (.inl c ::ₘ S) = c ::ₘ innerCmds S :=
  Multiset.filterMap_cons_some _ _ _ rfl

@[simp] theorem innerCmds_cons_inr (d : D) (S : Multiset (Cmd ⊕ D)) :
    innerCmds (.inr d ::ₘ S) = innerCmds S :=
  Multiset.filterMap_cons_none _ _ rfl

@[simp] theorem innerCmds_add (S T : Multiset (Cmd ⊕ D)) :
    innerCmds (S + T) = innerCmds S + innerCmds T := by
  induction S using Multiset.induction with
  | empty => simp
  | cons a S ih => cases a <;> simp [ih]

@[simp] theorem innerCmds_called (is : List (Instr Lock Cmd)) :
    innerCmds (cmds (called is : List (Instr Lock (Cmd ⊕ D))) : Multiset (Cmd ⊕ D)) =
      (cmds is : Multiset Cmd) := by
  rw [called, cmds_map]
  induction cmds is with
  | nil => rfl
  | cons c cs ih =>
    rw [List.map_cons, ← Multiset.cons_coe, innerCmds_cons_inl, ih, Multiset.cons_coe]

theorem mem_innerCmds_cmds {c : Cmd} {is : List (Instr Lock (Cmd ⊕ D))} :
    c ∈ innerCmds (cmds is : Multiset (Cmd ⊕ D)) ↔ .run (.inl c) ∈ is := by
  rw [mem_innerCmds, Multiset.mem_coe, mem_cmds]

section Lift

variable [DecidableEq Lock] {M : Machine σ Lock Cmd Choice Op} {E : Extension M τ D X Op'}
  {allowed : Op ⊕ Op' → Prop} {guard : Beside σ τ → Multiset (Cmd ⊕ D) → Cmd ⊕ D → Prop}
  {init : Beside σ τ} {cfg : Config (Beside σ τ) Lock (Cmd ⊕ D)}

theorem Extension.lift {P : σ → Multiset Cmd → Prop} (hinit : P init.inner 0)
    (hstart : ∀ s S op, allowed op → P s S →
    P s (innerCmds (cmds (E.machine.body op) : Multiset (Cmd ⊕ D)) + S))
    (hinner : ∀ cfg i c x s' is rest R, E.machine.Reachable allowed guard init cfg →
      E.machine.Fires cfg i (.inl c) x s' (called is) rest R →
      M.exec c (E.choice x) cfg.state.inner = some (s'.inner, is) → guard cfg.state (.inl c ::ₘ R)
      (.inl c) → P cfg.state.inner (c ::ₘ innerCmds R) → P s'.inner (cmds is + innerCmds R))
    (hstore : ∀ d x s s' new S, E.exec d x s = some (s', new) → P s.inner S →
      P s'.inner (innerCmds (cmds new : Multiset (Cmd ⊕ D)) + S))
    (h : E.machine.Reachable allowed guard init cfg) :
    P cfg.state.inner (innerCmds cfg.pending) := by
  refine h.induction (P := fun s S => P s.inner (innerCmds S)) ?_ ?_ ?_
  · exact hinit
  · intro s S op hop hP
    rw [innerCmds_add]
    exact hstart s.inner _ op hop hP
  · rintro cfg i (c | d) x s' new rest R hcfg hf hguard hP
    · obtain ⟨is, -, hexec, -, rfl⟩ := exec_inl hf.exec
      rw [innerCmds_cons_inl] at hP
      rw [innerCmds_add, innerCmds_called]
      exact hinner cfg i c x s' is rest R hcfg hf hexec hguard hP
    · rw [innerCmds_cons_inr] at hP
      rw [innerCmds_add]
      exact hstore d x cfg.state s' new _ hf.exec hP

end Lift

end Voxhold.Lib
