/-
# Voxhold.Hub.Membership — the life of a connection in the registry

A connection that is being unregistered is closed for good and has at most one `registerPresence`
pending (`Lifecycle`); when `RevokeServer` deletes the counters of a server, no registered client
has it any more (`server_emptied`).
-/

import Voxhold.Hub.Discipline

namespace Voxhold.Hub

open Voxhold.Lib Multiset

variable {x : Choice} {d : Cmd} {h h' : HubState} {r r' : Registry} {new : List HubInstr}
  {R S : Multiset Cmd} {c : Client} {s : Int}

/-! ## Connections come and go once -/

def Gone (h : HubState) (c : Client) : Prop :=
  c ∉ h.registry.clients ∧ c ∈ h.registry.done

theorem Gone.of_exec (he : h.exec x d = some (h', new)) (hgone : Gone h c) : Gone h' c := by
  refine ⟨fun hc => ?_, done_of_exec he hgone.2⟩
  rcases clients_from_exec he hc with hc | ⟨-, hreg, -⟩
  · exact hgone.1 hc
  · exact hreg.2.2.1 hgone.2

structure Lifecycle (h : HubState) (S : Multiset Cmd) : Prop where
  detaching : ∀ c, .registry (.detach c) ∈ S → c ∈ h.registry.done
  unregistering : ∀ c, .registry (.unregisterPresence c) ∈ S → Gone h c
  announcing : ∀ c s, .registry (.removeClientServer c s true) ∈ S → Gone h c
  enrolled : ∀ c, .registry (.registerPresence c) ∈ S → c ∈ h.registry.clients ∨ c ∈ h.registry.done
  once : ∀ c, S.count (.registry (.registerPresence c)) ≤ 1

section

variable (he : h.exec x d = some (h', new))
include he

theorem Lifecycle.enrolled_fire (hinv : Lifecycle h (d ::ₘ R))
    (hmem : .registry (.registerPresence c) ∈ cmds new + R) :
    c ∈ h'.registry.clients ∨ c ∈ h'.registry.done := by
  rcases mem_pushed.mp hmem with hnew | hR
  · cases follows_of_exec he hnew with
    | registerPresence _ hreg => exact .inl (index_of_exec he hreg).1
  · rcases hinv.enrolled c (mem_cons_of_mem hR) with hc | hc
    · rcases clients_of_exec he hc with hc | ⟨rfl, -⟩
      · exact .inl hc
      · exact .inr (done_of_exec he (hinv.detaching c (by simp)))
    · exact .inr (done_of_exec he hc)

theorem Lifecycle.once_fire (hinv : Lifecycle h (d ::ₘ R))
    (c : Client) : (cmds new + R).count (.registry (.registerPresence c)) ≤ 1 := by
  have hR : R.count (.registry (.registerPresence c)) ≤ 1 :=
    (count_le_count_cons _ _ _).trans (hinv.once c)
  by_cases hnew : .run (.registry (.registerPresence c)) ∈ new
  · cases follows_of_exec he hnew with
    | registerPresence _ hreg =>
      -- the client is neither registered nor closed, so none was pending
      have hnone : R.count (.registry (.registerPresence c)) = 0 := by
        refine count_eq_zero_of_notMem fun hmem => ?_
        rcases hinv.enrolled c (mem_cons_of_mem hmem) with hc | hc
        · exact hreg.2.2.2 hc
        · exact hreg.2.2.1 hc
      rw [(index_of_exec he hreg).2, count_add, hnone]
      simp
  · rw [count_add, count_eq_zero_of_notMem (by simpa using hnew), Nat.zero_add]
    exact hR

theorem Lifecycle.fire (hinv : Lifecycle h (d ::ₘ R)) : Lifecycle h' (cmds new + R) where
  detaching c hmem := by
    rcases mem_pushed.mp hmem with hnew | hR
    · cases follows_of_exec he hnew with
      | detach =>
        obtain ⟨r', hr, rfl⟩ := exec_registry he
        cases hr
        exact Finset.mem_insert_self _ _
    · exact done_of_exec he (hinv.detaching c (mem_cons_of_mem hR))
  unregistering c hmem := by
    rcases mem_pushed.mp hmem with hnew | hR
    · cases follows_of_exec he hnew with
      | unregisterPresence =>
        have hdone := hinv.detaching c (by simp)
        exact ⟨not_mem_clients_of_detach he, done_of_exec he hdone⟩
    · exact (hinv.unregistering c (mem_cons_of_mem hR)).of_exec he
  announcing c s hmem := by
    rcases mem_pushed.mp hmem with hnew | hR
    · cases follows_of_exec he hnew with
      | unregisterServer => exact (hinv.unregistering c (by simp)).of_exec he
    · exact (hinv.announcing c s (mem_cons_of_mem hR)).of_exec he
  enrolled := fun _ hmem => hinv.enrolled_fire he hmem
  once := hinv.once_fire he

end

section Runs

variable {allowed : Op → Prop} {guard : HubState → Multiset Cmd → Cmd → Prop}
  {servers : Client → Finset Int} {e2eeRequired : Int → Bool} {limits : ViewerLimits}
  {cfg : HubConfig}
  {i : Nat} {rest : List HubInstr}

theorem Lifecycle.push {T : Multiset Cmd} (hT : ∀ b ∈ T, b.Callable) (hinv : Lifecycle h S) :
    Lifecycle h (T + S) where
  detaching c hmem := hinv.detaching c (mem_of_called hT hmem (by simp [Cmd.Callable, Cmd.Starts]))
  unregistering c hmem :=
    hinv.unregistering c (mem_of_called hT hmem (by simp [Cmd.Callable, Cmd.Starts]))
  announcing c s hmem :=
    hinv.announcing c s (mem_of_called hT hmem (by simp [Cmd.Callable, Cmd.Starts]))
  enrolled c hmem := hinv.enrolled c (mem_of_called hT hmem (by simp [Cmd.Callable, Cmd.Starts]))
  once c := by
    have hnone : .registry (.registerPresence c) ∉ T := by
      intro hnew
      have hcallable := hT _ hnew
      simp [Cmd.Callable, Cmd.Starts] at hcallable
    rw [count_add, count_eq_zero_of_notMem hnone, Nat.zero_add]
    exact hinv.once c

theorem lifecycle_of_reachable
    (hrun : hubMachine.Reachable allowed guard (HubState.new servers e2eeRequired limits) cfg) :
    Lifecycle cfg.state cfg.pending :=
  hrun.induction (P := Lifecycle) ⟨by simp, by simp, by simp, by simp, by simp⟩
    (fun _ _ _ _ hinv => hinv.push fun _ hb => Op.callable hb)
    (fun _ _ _ _ _ _ _ _ _ hf _ hinv => hinv.fire hf.exec)

/-! ## `RevokeServer` empties its server -/

/-- The instructions after which the client is not a registered client of the server. -/
def Empties (c : Client) (s : Int) (i : HubInstr) : Prop :=
  i = .run (.registry (.removeClientServer c s false)) ∨ i = .run (.registry (.closeClient c)) ∨
    i = .run (.registry (.detach c))

/-- A goroutine that is going to delete a server's counters deals with all its clients before. -/
def EmptiesFirst (h : HubState) (t : Thread Lock Cmd) : Prop :=
  ∀ c s, c ∈ h.registry.clients → s ∈ h.registry.servers c →
    Before (Empties c s) (.run (.registry (.deletePresence s))) t.todo

theorem mode_eq_of_channelAccess {init : HubState} {b : Cmd}
    {mode mode' : Mode} (hrun : hubMachine.Reachable allowed guard init cfg)
    (hf : hubMachine.Fires cfg i d x h' new rest R) (hd : (.channelAccess, mode) ∈ d.needs)
    (hb : b ∈ cfg.pending) (hneed : (.channelAccess, mode') ∈ b.needs)
    (hpushed : ∀ op : Op, .run b ∉ op.body) : mode = mode' :=
  hrun.mode_eq hubMachine_keeps rfl hf.head hd hb hneed hpushed

theorem members_shrink
    (hrun : hubMachine.Reachable allowed guard (HubState.new servers e2eeRequired limits) cfg)
    (hf : hubMachine.Fires cfg i d x h' new rest R)
    (hdel : .registry (.deletePresence s) ∈ cfg.pending) (hc : c ∈ h'.registry.clients)
    (hs : s ∈ h'.registry.servers c) :
    c ∈ cfg.state.registry.clients ∧ s ∈ cfg.state.registry.servers c := by
  have hshared : (.channelAccess, .shared) ∉ d.needs := by
    intro hneed
    have hexclusive : (.channelAccess, .exclusive) ∈ (Cmd.registry (.deletePresence s)).needs := by
      simp
    have hmode := mode_eq_of_channelAccess hrun hf hneed hdel hexclusive fun op hnew =>
      Op.starts hnew
    simp at hmode
  constructor
  · rcases clients_from_exec hf.exec hc with hc | ⟨rfl, -⟩
    · exact hc
    · exact absurd (by simp) hshared
  · rcases servers_from_exec hf.exec hs with hs | rfl
    · exact hs
    · exact absurd (by simp) hshared

theorem before_of_snapshot (he : h.exec x (.registry (.revokeServerSnapshot s)) = some (h', new))
    (hdel : .run (.registry (.deletePresence s)) ∈ new) (hc : c ∈ h'.registry.clients)
    (hs : s ∈ h'.registry.servers c) :
    Before (Empties c s) (.run (.registry (.deletePresence s))) (new ++ rest) := by
  obtain ⟨r', hr, rfl⟩ := exec_registry he
  cases Registry.exec_step hr with
  | nothing => cases hdel
  | revokeServer _ hperm =>
    have hmem : c ∈ x.clients := hperm.mem_iff.mpr ((Registry.mem_clientsForServer _).mpr ⟨hc, hs⟩)
    rw [List.append_assoc]
    refine Before.append_right ?_ (fun hin => ?_) _
    · by_cases hfail : x.failed c = true
      · refine ⟨.run (.registry (.closeClient c)), ?_, .inr (.inl rfl)⟩
        exact List.mem_append_right _ (List.mem_flatMap.mpr ⟨c, hmem, by simp [hfail]⟩)
      · refine ⟨.run (.registry (.removeClientServer c s false)), ?_, .inl rfl⟩
        exact List.mem_append_right _
          (List.mem_flatMap.mpr ⟨c, hmem, by simp [hfail, revokeServerRound]⟩)
    · rcases List.mem_append.mp hin with hin | hin
      · obtain ⟨c', ids, heq⟩ := mem_reloadChannelAccess hin
        simp at heq
      · obtain ⟨c', -, heq | hin⟩ := mem_eachClient hin
        · simp at heq
        · simp [revokeServerRound] at hin

section

variable (hrun : hubMachine.Reachable allowed guard (HubState.new servers e2eeRequired limits) cfg)
include hrun

theorem emptiesFirst_run {held : List (Lock × Mode)} (hf : hubMachine.Fires cfg i d x h' new rest R)
    (hQ : EmptiesFirst cfg.state ⟨held, .run d :: rest⟩) : EmptiesFirst h' ⟨held, new ++ rest⟩ := by
  intro c s hc hs
  show Before _ _ (new ++ rest)
  have he : cfg.state.exec x d = some (h', new) := hf.exec
  by_cases hnew : .run (.registry (.deletePresence s)) ∈ new
  · cases follows_of_exec he hnew with
    | deletePresence => exact before_of_snapshot he hnew hc hs
  · by_cases hrest : .run (.registry (.deletePresence s)) ∈ rest
    · have hdel : .registry (.deletePresence s) ∈ cfg.pending :=
        (Config.mem_pending _).mpr ⟨i, by rw [hf.head]; exact List.mem_cons_of_mem _ hrest⟩
      obtain ⟨hc₀, hs₀⟩ := members_shrink hrun hf hdel hc hs
      rcases hQ c s hc₀ hs₀ with hempties | ⟨-, hbefore⟩
      · -- the present command is the one that deals with the client
        rcases hempties with heq | heq | heq
        · cases heq
          exact absurd hs (not_mem_servers_of_remove he)
        · cases heq
          obtain ⟨r', hr, -⟩ := exec_registry he
          cases hr
          exact .inl (.inr (.inr rfl))
        · cases heq
          exact absurd hc (not_mem_clients_of_detach he)
      · exact Before.append_left hnew hbefore
    · exact Before.of_not_mem (by simp [hnew, hrest])

theorem emptiesFirst_of_reachable (i : Nat) : EmptiesFirst cfg.state (cfg.thread i) := by
  refine hrun.thread_invariant (Q := EmptiesFirst) ?_ ?_ ?_ ?_ ?_ ?_ i
  · exact fun h c s _ _ => trivial
  · intro h op _ c s _ _
    exact Before.of_not_mem fun hnew => Op.starts hnew
  · intro h held l m rest hQ c s hc hs
    exact ((hQ c s hc hs).resolve_left (by simp [Empties])).2
  · intro h held l rest hQ c s hc hs
    exact ((hQ c s hc hs).resolve_left (by simp [Empties])).2
  · exact fun cfg i d x h' new rest R hcfg hf hQ => emptiesFirst_run hcfg hf hQ
  · intro cfg i j d x h' new rest R hcfg hf _ hQ c s hc hs
    by_cases hmem : .run (.registry (.deletePresence s)) ∈ (cfg.thread j).todo
    · obtain ⟨hc₀, hs₀⟩ :=
        members_shrink hcfg hf ((Config.mem_pending _).mpr ⟨j, hmem⟩) hc hs
      exact hQ c s hc₀ hs₀
    · exact Before.of_not_mem hmem

theorem server_emptied (hf : hubMachine.Fires cfg i (.registry (.deletePresence s)) x h' new rest R)
    (hc : c ∈ cfg.state.registry.clients) : s ∉ cfg.state.registry.servers c := by
  intro hs
  have hbefore := emptiesFirst_of_reachable hrun i c s hc hs
  rw [hf.head] at hbefore
  rcases hbefore with hempties | ⟨hne, -⟩
  · simp [Empties] at hempties
  · exact hne rfl

end

end Runs

end Voxhold.Hub
