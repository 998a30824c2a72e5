/-
# Voxhold.Lib.Goroutine — interleaved goroutines over one shared state

Operations run by concurrent goroutines over shared state and LOCKS. A goroutine has a list of
instructions: take a lock, release one, or run an atomic command, which transforms the state and
PUSHES the instructions that follow. What the program does not determine is a `Choice`.
-/

import Mathlib.Algebra.Order.Group.Multiset

namespace Voxhold.Lib

open List

open Multiset

/-! ## Instructions, goroutines, configurations -/

/-- The two ways of holding a reader-writer lock; a plain mutex is always held exclusively. -/
inductive Mode where
  | shared
  | exclusive
deriving DecidableEq, Repr

inductive Instr (Lock Cmd : Type) where
  | acquire (lock : Lock) (mode : Mode)
  | release (lock : Lock)
  | run (cmd : Cmd)
deriving DecidableEq

/-- A goroutine: the locks it holds and the instructions it still has to execute. -/
structure Thread (Lock Cmd : Type) where
  held : List (Lock × Mode)
  todo : List (Instr Lock Cmd)

/-- The shared state and all goroutines ever started. -/
structure Config (σ Lock Cmd : Type) where
  state : σ
  pool : List (Thread Lock Cmd)

/-- A program: what each command does and pushes, and the instructions each operation starts with.
-/
structure Machine (σ Lock Cmd Choice Op : Type) where
  exec : Cmd → Choice → σ → Option (σ × List (Instr Lock Cmd))
  body : Op → List (Instr Lock Cmd)

variable {σ Lock Cmd Choice Op : Type}

def cmds : List (Instr Lock Cmd) → List Cmd
  | [] => []
  | .run c :: rest => c :: cmds rest
  | .acquire _ _ :: rest | .release _ :: rest => cmds rest

@[simp] theorem cmds_nil : cmds ([] : List (Instr Lock Cmd)) = [] := rfl

@[simp] theorem cmds_run (c : Cmd) (rest : List (Instr Lock Cmd)) :
    cmds (.run c :: rest) = c :: cmds rest := rfl

@[simp] theorem cmds_acquire (l : Lock) (m : Mode) (rest : List (Instr Lock Cmd)) :
    cmds (.acquire l m :: rest) = cmds rest := rfl

@[simp] theorem cmds_release (l : Lock) (rest : List (Instr Lock Cmd)) :
    cmds (.release l :: rest) = cmds rest := rfl

@[simp] theorem mem_cmds {c : Cmd} {is : List (Instr Lock Cmd)} : c ∈ cmds is ↔ .run c ∈ is := by
  induction is with
  | nil => simp
  | cons i is ih => cases i <;> simp [ih]

@[simp] theorem cmds_append (is js : List (Instr Lock Cmd)) :
    cmds (is ++ js) = cmds is ++ cmds js := by
  induction is with
  | nil => rfl
  | cons i is ih => cases i <;> simp [ih]

/-- The instruction with its command renamed. -/
def Instr.map {Cmd' : Type} (f : Cmd → Cmd') : Instr Lock Cmd → Instr Lock Cmd'
  | .acquire l m => .acquire l m
  | .release l => .release l
  | .run c => .run (f c)

section Map

variable {Cmd' : Type} {f : Cmd → Cmd'} {is : List (Instr Lock Cmd)}

@[simp] theorem cmds_map (f : Cmd → Cmd') (is : List (Instr Lock Cmd)) :
    cmds (is.map (Instr.map f)) = (cmds is).map f := by
  induction is with
  | nil => rfl
  | cons i is ih => cases i <;> simp [Instr.map, ih]

theorem acquire_mem_map {l : Lock} {m : Mode} :
    .acquire l m ∈ is.map (Instr.map f) ↔ .acquire l m ∈ is := by
  induction is with
  | nil => simp
  | cons i is ih => cases i <;> simp [Instr.map, ih]

theorem run_mem_map {d : Cmd'} : .run d ∈ is.map (Instr.map f) ↔ ∃ c, .run c ∈ is ∧ f c = d := by
  rw [← mem_cmds, cmds_map, List.mem_map]
  simp

end Map

theorem mem_pushed {c : Cmd} {is : List (Instr Lock Cmd)} {R : Multiset Cmd} :
    c ∈ (cmds is : Multiset Cmd) + R ↔ .run c ∈ is ∨ c ∈ R := by
  rw [mem_add, mem_coe, mem_cmds]

theorem run_inj {b c : Cmd} (h : (.run b : Instr Lock Cmd) ∈ [.run c]) : b = c :=
  Instr.run.inj (List.mem_singleton.mp h)

theorem exists_mem_rest {P : Cmd → Prop} {c : Cmd} {R : Multiset Cmd} (h : ∃ b ∈ c ::ₘ R, P b)
    (hc : ¬P c) : ∃ b ∈ R, P b := by
  obtain ⟨b, hb, hP⟩ := h
  rcases mem_cons.mp hb with rfl | hb
  · exact absurd hP hc
  · exact ⟨b, hb, hP⟩

theorem pushed_nil (R : Multiset Cmd) :
    (cmds ([] : List (Instr Lock Cmd)) : Multiset Cmd) + R = R :=
  zero_add R

theorem pushed_run (c : Cmd) (R : Multiset Cmd) :
    (cmds ([.run c] : List (Instr Lock Cmd)) : Multiset Cmd) + R = c ::ₘ R :=
  singleton_add c R

namespace Config

variable (cfg : Config σ Lock Cmd) {i j : Nat} {t : Thread Lock Cmd} {c : Cmd}

/-- The goroutine with number `i`; a number that was never started has nothing to do. -/
def thread (i : Nat) : Thread Lock Cmd :=
  cfg.pool.getD i ⟨[], []⟩

def setThread (i : Nat) (t : Thread Lock Cmd) : Config σ Lock Cmd :=
  { cfg with pool := cfg.pool.set i t }

/-- The command goroutine `i` executes next, if its next instruction is one. -/
def next (i : Nat) : Option Cmd :=
  match (cfg.thread i).todo with
  | .run c :: _ => some c
  | _ => none

/-- All commands that some goroutine still has to execute. -/
def pending : Multiset Cmd :=
  (cfg.pool.flatMap fun t => cmds t.todo : List Cmd)

/-- No operation is in progress. -/
def Quiescent : Prop :=
  ∀ t ∈ cfg.pool, t.todo = []
deriving Decidable

/-- Goroutine `i` may take the lock: every other holder shares it, and so does `i`. -/
def Free (i : Nat) (l : Lock) (m : Mode) : Prop :=
  ∀ j < cfg.pool.length, j ≠ i → ∀ r ∈ (cfg.thread j).held, r.1 = l → r.2 = .shared ∧ m = .shared

instance [DecidableEq Lock] (l : Lock) (m : Mode) : Decidable (cfg.Free i l m) :=
  inferInstanceAs (Decidable (∀ j < _, _))

theorem thread_of_length_le (h : cfg.pool.length ≤ i) : cfg.thread i = ⟨[], []⟩ := by
  simp [thread, h]

theorem lt_length_of_todo_ne (h : (cfg.thread i).todo ≠ []) : i < cfg.pool.length := by
  by_contra hlt
  rw [cfg.thread_of_length_le (Nat.le_of_not_lt hlt)] at h
  exact h rfl

theorem thread_setThread (hi : i < cfg.pool.length) :
    (cfg.setThread i t).thread j = if j = i then t else cfg.thread j := by
  by_cases hji : j = i
  · subst hji
    simp [thread, setThread, getD_eq_getElem?_getD, hi]
  · simp [thread, setThread, getD_eq_getElem?_getD, hji, Ne.symm hji]

theorem mem_pending : c ∈ cfg.pending ↔ ∃ i, .run c ∈ (cfg.thread i).todo := by
  simp only [pending, mem_coe, mem_flatMap, mem_cmds]
  constructor
  · rintro ⟨t, ht, hc⟩
    obtain ⟨i, hi, rfl⟩ := getElem_of_mem ht
    exact ⟨i, by simpa [thread, getD_eq_getElem?_getD, hi] using hc⟩
  · rintro ⟨i, hc⟩
    have hi : i < cfg.pool.length := cfg.lt_length_of_todo_ne (ne_nil_of_mem hc)
    refine ⟨cfg.pool[i], getElem_mem hi, ?_⟩
    simpa [thread, getD_eq_getElem?_getD, hi] using hc

theorem mem_todo_of_next {cfg : Config σ Lock Cmd} (h : cfg.next i = some c) :
    .run c ∈ (cfg.thread i).todo := by
  unfold next at h
  split at h
  · next d rest htodo =>
    cases h
    rw [htodo]
    exact mem_cons_self
  · cases h

theorem pending_split (hi : i < cfg.pool.length) :
    ∃ others : Multiset Cmd, cfg.pending = (cmds (cfg.thread i).todo : Multiset Cmd) + others ∧
      ∀ t, (cfg.setThread i t).pending = (cmds t.todo : Multiset Cmd) + others := by
  have hpool : cfg.pool = cfg.pool.take i ++ cfg.thread i :: cfg.pool.drop (i + 1) := by
    simp [thread, getD_eq_getElem?_getD, hi]
  refine ⟨((cfg.pool.take i ++ cfg.pool.drop (i + 1)).flatMap fun t => cmds t.todo : List Cmd),
    ?_, fun t => ?_⟩
  · rw [pending, hpool]
    simp only [flatMap_append, flatMap_cons, ← coe_add]
    rw [← hpool]
    exact add_left_comm _ _ _
  · rw [pending, setThread, set_eq_take_append_cons_drop, if_pos hi]
    simp only [flatMap_append, flatMap_cons, ← coe_add]
    exact add_left_comm _ _ _

theorem pending_setThread (hi : (cfg.thread i).todo ≠ [])
    (ht : cmds t.todo = cmds (cfg.thread i).todo) : (cfg.setThread i t).pending = cfg.pending := by
  obtain ⟨others, hbefore, hafter⟩ := cfg.pending_split (cfg.lt_length_of_todo_ne hi)
  rw [hafter, ht, hbefore]

theorem Quiescent.pending_eq_zero {cfg : Config σ Lock Cmd} (h : cfg.Quiescent) :
    cfg.pending = 0 := by
  refine eq_zero_of_forall_notMem fun c hc => ?_
  simp only [pending, mem_coe, mem_flatMap, mem_cmds] at hc
  obtain ⟨t, ht, hc⟩ := hc
  rw [h t ht] at hc
  cases hc

end Config

/-! ## Steps and reachable configurations -/

namespace Machine

variable (M : Machine σ Lock Cmd Choice Op) {cfg cfg' : Config σ Lock Cmd} {i : Nat} {x : Choice}

/-- Starting an operation adds a goroutine that holds no lock. -/
def start (cfg : Config σ Lock Cmd) (op : Op) : Config σ Lock Cmd :=
  { cfg with pool := cfg.pool ++ [⟨[], M.body op⟩] }

theorem start_pending (cfg : Config σ Lock Cmd) (op : Op) :
    (M.start cfg op).pending = (cmds (M.body op) : Multiset Cmd) + cfg.pending := by
  simp only [Config.pending, start, flatMap_append, flatMap_cons, flatMap_nil,
    append_nil, ← coe_add]
  exact add_comm _ _

theorem thread_start (cfg : Config σ Lock Cmd) (op : Op) (j : Nat) : (M.start cfg op).thread j =
      if j = cfg.pool.length then ⟨[], M.body op⟩ else cfg.thread j := by
  rcases Nat.lt_trichotomy j cfg.pool.length with h | h | h
  · simp [Config.thread, start, getD_eq_getElem?_getD, List.getElem?_append_left h, h.ne]
  · simp [Config.thread, start, getD_eq_getElem?_getD, h]
  · have hle : (M.start cfg op).pool.length ≤ j := by simp [start]; omega
    rw [Config.thread_of_length_le _ hle, Config.thread_of_length_le _ h.le, if_neg h.ne']

/-- A command fires: goroutine `i` executes `c`, which leads to the state `s` and pushes `new` onto
`rest`; `R` are the other pending commands, of this goroutine or of another. -/
structure Fires (cfg : Config σ Lock Cmd) (i : Nat) (c : Cmd) (x : Choice) (s : σ)
    (new rest : List (Instr Lock Cmd)) (R : Multiset Cmd) : Prop where
  head : (cfg.thread i).todo = .run c :: rest
  exec : M.exec c x cfg.state = some (s, new)
  pending : cfg.pending = c ::ₘ R
  origin : ∀ b ∈ R, .run b ∈ rest ∨ ∃ j, j ≠ i ∧ .run b ∈ (cfg.thread j).todo

def fire (cfg : Config σ Lock Cmd) (i : Nat) (s : σ) (new rest : List (Instr Lock Cmd)) :
    Config σ Lock Cmd :=
  { cfg.setThread i ⟨(cfg.thread i).held, new ++ rest⟩ with state := s }

theorem fires_of_exec {c : Cmd} {rest new : List (Instr Lock Cmd)} {s : σ}
    (htodo : (cfg.thread i).todo = .run c :: rest) (hexec : M.exec c x cfg.state = some (s, new)) :
    ∃ R, M.Fires cfg i c x s new rest R ∧
      (fire cfg i s new rest).pending = (cmds new : Multiset Cmd) + R := by
  have hi : i < cfg.pool.length := cfg.lt_length_of_todo_ne (by simp [htodo])
  obtain ⟨others, hbefore, hafter⟩ := cfg.pending_split hi
  -- with goroutine `i` emptied, the pending commands are exactly those of the other goroutines
  have hothers : ∀ b ∈ others, ∃ j, j ≠ i ∧ .run b ∈ (cfg.thread j).todo := by
    intro b hb
    have hempty : b ∈ (cfg.setThread i ⟨[], []⟩).pending := by
      rw [hafter]
      simpa using hb
    obtain ⟨j, hj⟩ := (Config.mem_pending _).mp hempty
    rw [cfg.thread_setThread hi] at hj
    by_cases hji : j = i
    · simp [hji] at hj
    · exact ⟨j, hji, by simpa [hji] using hj⟩
  refine ⟨(cmds rest : Multiset Cmd) + others, ⟨htodo, hexec, ?_, ?_⟩, ?_⟩
  · rw [hbefore, htodo, cmds_run, ← cons_coe, cons_add]
  · intro b hb
    rcases mem_add.mp hb with hb | hb
    · exact .inl (mem_cmds.mp (mem_coe.mp hb))
    · exact .inr (hothers b hb)
  · show (cfg.setThread i ⟨(cfg.thread i).held, new ++ rest⟩).pending = _
    rw [hafter, cmds_append, ← coe_add, add_assoc]

variable [DecidableEq Lock]

/-- The next instruction of goroutine `i`; `none` where it has to wait or has nothing to do. -/
def step (cfg : Config σ Lock Cmd) (i : Nat) (x : Choice) : Option (Config σ Lock Cmd) :=
  match (cfg.thread i).todo with
  | [] => none
  | .acquire l m :: rest =>
    if cfg.Free i l m then some (cfg.setThread i ⟨(l, m) :: (cfg.thread i).held, rest⟩) else none
  | .release l :: rest =>
    some (cfg.setThread i ⟨(cfg.thread i).held.eraseP (fun r => r.1 = l), rest⟩)
  | .run c :: rest =>
    (M.exec c x cfg.state).map fun out => fire cfg i out.1 out.2 rest

theorem step_cases (h : M.step cfg i x = some cfg') :
    (∃ l m rest, (cfg.thread i).todo = .acquire l m :: rest ∧ cfg.Free i l m ∧
      cfg' = cfg.setThread i ⟨(l, m) :: (cfg.thread i).held, rest⟩) ∨
    (∃ l rest, (cfg.thread i).todo = .release l :: rest ∧
      cfg' = cfg.setThread i ⟨(cfg.thread i).held.eraseP (fun r => r.1 = l), rest⟩) ∨
    (∃ c rest s new, (cfg.thread i).todo = .run c :: rest ∧ M.exec c x cfg.state = some (s, new) ∧
      cfg' = fire cfg i s new rest) := by
  unfold step at h
  split at h
  · cases h
  · next l m rest htodo =>
    split at h
    · next hfree => exact .inl ⟨l, m, rest, htodo, hfree, (Option.some.inj h).symm⟩
    · cases h
  · next l rest htodo => exact .inr (.inl ⟨l, rest, htodo, (Option.some.inj h).symm⟩)
  · next c rest htodo =>
    obtain ⟨⟨s, new⟩, hexec, rfl⟩ := Option.map_eq_some_iff.mp h
    exact .inr (.inr ⟨c, rest, s, new, htodo, hexec, rfl⟩)

/-- The configurations that a run reaches from the state `init` when only operations in `allowed`
are started and every command meets `guard` in the state, and among the pending commands, it runs
in. -/
inductive Reachable (allowed : Op → Prop) (guard : σ → Multiset Cmd → Cmd → Prop) (init : σ) :
    Config σ Lock Cmd → Prop where
  | init : Reachable allowed guard init ⟨init, []⟩
  | start {cfg : Config σ Lock Cmd} {op : Op} : Reachable allowed guard init cfg → allowed op →
      Reachable allowed guard init (M.start cfg op)
  | step {cfg cfg' : Config σ Lock Cmd} {i : Nat} {x : Choice} :
      Reachable allowed guard init cfg →
      (∀ c ∈ cfg.next i, guard cfg.state cfg.pending c) →
      M.step cfg i x = some cfg' → Reachable allowed guard init cfg'

/-- The configurations to which a run goes on from `cfg`, under the same conditions. -/
inductive Leads (allowed : Op → Prop) (guard : σ → Multiset Cmd → Cmd → Prop)
    (cfg : Config σ Lock Cmd) : Config σ Lock Cmd → Prop where
  | refl : Leads allowed guard cfg cfg
  | start {cfg' : Config σ Lock Cmd} {op : Op} : Leads allowed guard cfg cfg' → allowed op →
      Leads allowed guard cfg (M.start cfg' op)
  | step {cfg₁ cfg₂ : Config σ Lock Cmd} {i : Nat} {x : Choice} :
      Leads allowed guard cfg cfg₁ →
      (∀ c ∈ cfg₁.next i, guard cfg₁.state cfg₁.pending c) →
      M.step cfg₁ i x = some cfg₂ → Leads allowed guard cfg cfg₂

/-! ## Invariants over the pending commands -/

variable {M} {allowed : Op → Prop} {guard : σ → Multiset Cmd → Cmd → Prop} {init : σ}

theorem Reachable.induction {P : σ → Multiset Cmd → Prop} (hinit : P init 0)
    (hstart : ∀ s S op, allowed op → P s S → P s ((cmds (M.body op) : Multiset Cmd) + S))
    (hfire : ∀ cfg i c x s new rest R, M.Reachable allowed guard init cfg →
      M.Fires cfg i c x s new rest R → guard cfg.state (c ::ₘ R) c →
      P cfg.state (c ::ₘ R) → P s ((cmds new : Multiset Cmd) + R))
    (h : M.Reachable allowed guard init cfg) : P cfg.state cfg.pending := by
  induction h with
  | init => simpa [Config.pending] using hinit
  | @start cfg op _ hop ih =>
    rw [start_pending]
    exact hstart _ _ op hop ih
  | @step cfg cfg' i x hcfg hguard hstep ih =>
    rcases M.step_cases hstep with ⟨l, m, rest, htodo, -, rfl⟩ | ⟨l, rest, htodo, rfl⟩ |
      ⟨c, rest, s, new, htodo, hexec, rfl⟩
    · rw [cfg.pending_setThread (by simp [htodo]) (by simp [htodo])]
      exact ih
    · rw [cfg.pending_setThread (by simp [htodo]) (by simp [htodo])]
      exact ih
    · obtain ⟨R, hfires, hafter⟩ := M.fires_of_exec htodo hexec
      rw [hafter]
      have hnext : c ∈ cfg.next i := by simp [Config.next, htodo]
      exact hfire cfg i c x s new rest R hcfg hfires (hfires.pending ▸ hguard c hnext)
        (hfires.pending ▸ ih)

theorem Reachable.leads (h : M.Reachable allowed guard init cfg)
    (hleads : M.Leads allowed guard cfg cfg') : M.Reachable allowed guard init cfg' := by
  induction hleads with
  | refl => exact h
  | start _ hop ih => exact ih.start hop
  | step _ hguard hstep ih => exact ih.step hguard hstep

theorem exec_of_next {c : Cmd} (hnext : cfg.next i = some c) (hstep : M.step cfg i x = some cfg') :
    ∃ new, M.exec c x cfg.state = some (cfg'.state, new) := by
  rcases M.step_cases hstep with ⟨l, m, rest, htodo, -, rfl⟩ | ⟨l, rest, htodo, rfl⟩ |
    ⟨d, rest, s, new, htodo, hexec, rfl⟩
  · simp [Config.next, htodo] at hnext
  · simp [Config.next, htodo] at hnext
  · obtain rfl : d = c := by simpa [Config.next, htodo] using hnext
    exact ⟨new, hexec⟩

theorem Leads.stable {P : σ → Prop}
    (hexec : ∀ c x s s' new, M.exec c x s = some (s', new) → P s → P s')
    (h : M.Leads allowed guard cfg cfg') (hcfg : P cfg.state) : P cfg'.state := by
  induction h with
  | refl => exact hcfg
  | start _ _ ih => exact ih
  | step _ _ hstep ih =>
    rcases M.step_cases hstep with ⟨l, m, rest, -, -, rfl⟩ | ⟨l, rest, -, rfl⟩ |
      ⟨c, rest, s, new, -, hc, rfl⟩
    · exact ih
    · exact ih
    · exact hexec c _ _ s new hc ih

/-! ## Executable schedules -/

/-- One move of a scheduler: start an operation, or let a goroutine take its next step. -/
inductive Move (Choice Op : Type) where
  | start (op : Op)
  | step (i : Nat) (x : Choice)

/-- Plays a schedule; `none` where a move is not possible, not allowed or not guarded. -/
def play (M : Machine σ Lock Cmd Choice Op) (allowed : Op → Prop)
    (guard : σ → Multiset Cmd → Cmd → Prop) [DecidablePred allowed]
    [∀ s S c, Decidable (guard s S c)] :
    Config σ Lock Cmd → List (Move Choice Op) → Option (Config σ Lock Cmd)
  | cfg, [] => some cfg
  | cfg, .start op :: moves =>
    if allowed op then play M allowed guard (M.start cfg op) moves else none
  | cfg, .step i x :: moves =>
    if ∀ c ∈ cfg.next i, guard cfg.state cfg.pending c then
      match M.step cfg i x with
      | some cfg' => play M allowed guard cfg' moves
      | none => none
    else none

theorem Leads.play [DecidablePred allowed] [∀ s S c, Decidable (guard s S c)]
    {cfg₀ : Config σ Lock Cmd} (h : M.Leads allowed guard cfg₀ cfg) {moves : List (Move Choice Op)}
    (hplay : M.play allowed guard cfg moves = some cfg') : M.Leads allowed guard cfg₀ cfg' := by
  induction moves generalizing cfg with
  | nil =>
    obtain rfl : cfg = cfg' := Option.some.inj hplay
    exact h
  | cons move moves ih =>
    cases move with
    | start op =>
      simp only [Machine.play] at hplay
      split at hplay
      · next hop => exact ih (h.start hop) hplay
      · cases hplay
    | step i x =>
      simp only [Machine.play] at hplay
      split at hplay
      · next hguard =>
        split at hplay
        · next cfg₁ hstep => exact ih (h.step hguard hstep) hplay
        · cases hplay
      · cases hplay

theorem exists_reachable_of_play [DecidablePred allowed] [∀ s S c, Decidable (guard s S c)]
    {Q : Config σ Lock Cmd → Prop} [DecidablePred Q] (moves : List (Move Choice Op))
    (h : ((M.play allowed guard ⟨init, []⟩ moves).any fun cfg => decide (Q cfg)) = true) :
    ∃ cfg, M.Reachable allowed guard init cfg ∧ Q cfg := by
  obtain ⟨cfg, hplay, hQ⟩ := (Option.any_eq_true _ _).mp h
  exact ⟨cfg, Reachable.init.leads (Leads.refl.play hplay), of_decide_eq_true hQ⟩

/-- A schedule that goes on after a state of interest. -/
theorem exists_leads_of_play [DecidablePred allowed] [∀ s S c, Decidable (guard s S c)]
    {Q : Config σ Lock Cmd → Config σ Lock Cmd → Prop} [∀ cfg cfg', Decidable (Q cfg cfg')]
    (moves later : List (Move Choice Op))
    (h : ((M.play allowed guard ⟨init, []⟩ moves).any fun cfg =>
      (M.play allowed guard cfg later).any fun cfg' => decide (Q cfg cfg')) = true) :
    ∃ cfg cfg', M.Reachable allowed guard init cfg ∧ M.Leads allowed guard cfg cfg' ∧
    Q cfg cfg' := by
  obtain ⟨cfg, hplay, h⟩ := (Option.any_eq_true _ _).mp h
  obtain ⟨cfg', hlater, hQ⟩ := (Option.any_eq_true _ _).mp h
  exact ⟨cfg, cfg', Reachable.init.leads (Leads.refl.play hplay), Leads.refl.play hlater,
    of_decide_eq_true hQ⟩

end Machine

end Voxhold.Lib
