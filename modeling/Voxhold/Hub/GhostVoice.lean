/-
# Voxhold.Hub.GhostVoice — who is in voice is registered

`JoinVoiceWithDevice` looks at `Done` BEFORE it enters the client and never again. A whole
`Unregister` fits between the two, and the participant entered then belongs to no connection and
stays (`ghost_voice_participant`).
-/

import Voxhold.Hub.Effects

namespace Voxhold.Hub

open Voxhold.Lib

/-- The join that enters its client into the voice state with this command. -/
def Cmd.entering : Cmd → Option JoinRequest
  | .media (.join .insert _ req) => some req
  | _ => none

/-- A join enters its client into the voice state while the client is registered, or while an
`Unregister` or a leave of the client has still to remove it again. -/
def JoinTimely (h : HubState) (S : Multiset Cmd) (d : Cmd) : Prop :=
  ∀ req ∈ d.entering, req.client ∈ h.registry.clients ∨ Ejecting S req.client
deriving Decidable

/-- Every participant is registered or about to be taken out of voice. -/
def VoiceRegistered (h : HubState) (S : Multiset Cmd) : Prop :=
  ∀ c p, h.media.voice.current c = some p → c ∈ h.registry.clients ∨ Ejecting S c

theorem voiceRegistered_fire {x : Choice} {d : Cmd} {h h' : HubState} {new : List HubInstr}
    {R : Multiset Cmd} (he : h.exec x d = some (h', new)) (hguard : JoinTimely h (d ::ₘ R) d)
    (hinv : VoiceRegistered h (d ::ₘ R)) : VoiceRegistered h' (cmds new + R) := by
  intro c p hp
  -- before the command, the participant of afterwards was covered already
  have hbefore : (c ∈ h.registry.clients ∨ Ejecting (d ::ₘ R) c) ∧ d ≠ .media (.voiceLeave c) := by
    rcases current_of_exec he hp with ⟨hold, hd⟩ | ⟨caller, req, rfl, rfl, -⟩
    · exact ⟨hinv c p hold, hd⟩
    · exact ⟨hguard req rfl, by simp⟩
  obtain ⟨hreg | hej, hd⟩ := hbefore
  · rcases clients_of_exec he hreg with hreg' | ⟨-, hleave⟩
    · exact .inl hreg'
    · -- the client unregisters right now, and its `leaveVoice` comes next
      exact .inr (Ejecting.of_leaveVoice hleave)
  · exact .inr (hej.fire he hd)

variable {servers : Client → Finset Int} {e2eeRequired : Int → Bool} {limits : ViewerLimits}
  {cfg : HubConfig}

theorem voiceRegistered_of_reachable {allowed : Op → Prop}
    (hrun : hubMachine.Reachable allowed JoinTimely (HubState.new servers e2eeRequired limits)
    cfg) : VoiceRegistered cfg.state cfg.pending := by
  refine hrun.induction (P := VoiceRegistered) ?_ ?_ ?_
  · intro c p hp
    exact absurd hp (by simp [HubState.new])
  · intro h S op _ hinv c p hp
    exact (hinv c p hp).imp_right fun hej => hej.start
  · intro cfg i d x h' new rest R _ hf hguard hinv
    exact voiceRegistered_fire hf.exec hguard hinv

/-- **No ghost participant.** In every run of the hub's operations whose joins all enter their
client in time, when no operation is in progress every client in voice is registered. -/
theorem voice_participant_registered (hrun : hubMachine.Reachable (fun _ => True) JoinTimely
      (HubState.new servers e2eeRequired limits) cfg) (hquiet : cfg.Quiescent) (c : Client)
    (hc : (cfg.state.media.voice.current c).isSome) : c ∈ cfg.state.registry.clients := by
  obtain ⟨p, hp⟩ := Option.isSome_iff_exists.mp hc
  rcases voiceRegistered_of_reachable hrun c p hp with hreg | hej
  · exact hreg
  · rw [hquiet.pending_eq_zero] at hej
    exact absurd hej not_ejecting_zero

/-! ## Two runs of one connection -/

namespace Sample

def unregister : Schedule :=
  .start (.unregister client) :: goroutine 2 6 here

end Sample

open Sample in
/-- A connection that is registered and in voice. -/
theorem voice_participant_registered_client :
    ∃ cfg, hubMachine.Reachable (fun _ => True) JoinTimely hub cfg ∧ cfg.Quiescent ∧
      (cfg.state.media.voice.current client).isSome ∧ client ∈ cfg.state.registry.clients := by
  obtain ⟨cfg, hrun, hquiet, hc⟩ : ∃ cfg, hubMachine.Reachable (fun _ => True) JoinTimely hub cfg ∧
      cfg.Quiescent ∧ (cfg.state.media.voice.current client).isSome :=
    Machine.exists_reachable_of_play (joining ++ entering) (by decide +kernel)
  exact ⟨cfg, hrun, hquiet, hc, voice_participant_registered hrun hquiet client hc⟩

open Sample in
/-- **The ghost.** The join passes its check, all of `Unregister` runs, the join enters the client:
at the end nothing is in progress, the client is in voice and not registered. -/
theorem ghost_voice_participant :
    ∃ cfg, hubMachine.Reachable (fun _ => True) (fun _ _ _ => True) hub cfg ∧ cfg.Quiescent ∧
      (cfg.state.media.voice.current client).isSome ∧ client ∉ cfg.state.registry.clients :=
  Machine.exists_reachable_of_play (joining ++ unregister ++ entering) (by decide +kernel)

end Voxhold.Hub
