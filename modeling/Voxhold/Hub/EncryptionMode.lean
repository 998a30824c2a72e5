/-
# Voxhold.Hub.EncryptionMode — one encryption mode per voice channel

`joinVoice` compares the request with the channel's policy and enters the client much later. A
policy change is followed by ONE `ResetVoiceChannel`: a join admitted under the old policy and
entered after the reset is never ejected (`stale_join_after_reset`).
-/

import Voxhold.Hub.Effects

namespace Voxhold.Hub

open Voxhold.Lib

/-- The channel's stored policy asks for exactly this: a device where encryption is required, none
where it is not. -/
def Media.ModeOf (m : Media) (channelID : Int) (e2eeDeviceID : String) : Prop :=
  m.e2eeRequired channelID = decide (e2eeDeviceID ≠ "")
deriving Decidable

/-- The join a command belongs to, once `checkVoiceEncryption` has admitted it. -/
def Cmd.admitted : Cmd → Option JoinRequest
  | .media (.request .channelAccessAgain req) | .media (.join _ _ req) => some req
  | _ => none

def Cmd.resets : Cmd → Option Int
  | .media (.resetVoiceChannel ch) => some ch
  | _ => none

/-- A channel is reset when the joins already admitted to it have the mode of its present policy. -/
def ResetSettled (h : HubState) (S : Multiset Cmd) (d : Cmd) : Prop :=
  ∀ ch ∈ d.resets, ∀ b ∈ S, ∀ req ∈ b.admitted, req.channelID = ch →
    h.media.ModeOf ch req.e2eeDeviceID
deriving Decidable

/-- The mode is the channel's, or the channel is going to be reset. -/
def Covered (h : HubState) (S : Multiset Cmd) (channelID : Int) (e2eeDeviceID : String) : Prop :=
  h.media.ModeOf channelID e2eeDeviceID ∨ .media (.resetVoiceChannel channelID) ∈ S

section Steps

variable {x : Choice} {d : Cmd} {h h' : HubState} {new : List HubInstr} {R : Multiset Cmd}
  {ch : Int} {device : String}

section

variable (he : h.exec x d = some (h', new))
include he

theorem Covered.of_modeOf (hmode : h.media.ModeOf ch device) :
    Covered h' (cmds new + R) ch device := by
  cases d with
  | registry cmd =>
    obtain ⟨r', -, rfl⟩ := exec_registry he
    exact .inl hmode
  | media cmd =>
    obtain ⟨m', hm, rfl⟩ := exec_media he
    cases Media.exec_change hm with
    | none | voice | streams | sessions => exact .inl hmode
    | policy ch' required =>
      by_cases hch : ch' = ch
      · exact .inr (by simp [hch])
      · exact .inl (by simpa [Media.ModeOf, Function.update_of_ne (Ne.symm hch)] using hmode)

theorem Covered.fire (hd : d ≠ .media (.resetVoiceChannel ch))
    (hcov : Covered h (d ::ₘ R) ch device) : Covered h' (cmds new + R) ch device := by
  rcases hcov with hmode | hreset
  · exact .of_modeOf he hmode
  · rcases Multiset.mem_cons.mp hreset with heq | hR
    · exact absurd heq.symm hd
    · exact .inr (by simp [hR])

theorem admitted_of_exec {b : Cmd} {req : JoinRequest}
    (hb : .run b ∈ new) (hreq : b.admitted = some req) :
    d.admitted = some req ∨ h.media.ModeOf req.channelID req.e2eeDeviceID := by
  unfold Cmd.admitted at hreq
  split at hreq
  · next req' =>
    obtain rfl : req' = req := Option.some.inj hreq
    cases follows_of_exec he hb with
    | channelAccessAgain _ hmode =>
      -- the policy was read here
      exact .inr hmode
  · next stage caller req' =>
    obtain rfl : req' = req := Option.some.inj hreq
    cases follows_of_exec he hb <;> exact .inl rfl
  · simp at hreq

end

theorem Ejecting.of_reset (he : h.exec x (.media (.resetVoiceChannel ch)) = some (h', new))
    {c : Client} {p : VoiceParticipant} (hp : h.media.voice.current c = some p)
    (hch : p.channelID = ch) : Ejecting (cmds new + R) c := by
  obtain ⟨m', hm, -⟩ := exec_media he
  simp only [Media.exec] at hm
  split at hm
  · next hperm =>
    cases hm
    have hc : c ∈ x.clients := hperm.mem_iff.mpr (VoiceState.mem_channelClients.mpr ⟨p, hp, hch⟩)
    exact Ejecting.of_leaveVoice (List.mem_map.mpr ⟨c, hc, rfl⟩)
  · cases hm

/-- Participants and admitted joins have the mode of their channel, up to what is still going to be
repaired: a participant may be ejected, and a reset may lie ahead. -/
structure ModesSettled (h : HubState) (S : Multiset Cmd) : Prop where
  participants : ∀ c p, h.media.voice.current c = some p →
    Covered h S p.channelID p.e2eeDeviceID ∨ Ejecting S c
  joins : ∀ b ∈ S, ∀ req ∈ b.admitted, Covered h S req.channelID req.e2eeDeviceID

theorem ModesSettled.participants_fire (he : h.exec x d = some (h', new))
    (hinv : ModesSettled h (d ::ₘ R)) {c : Client} {p : VoiceParticipant}
    (hp : h'.media.voice.current c = some p) :
    Covered h' (cmds new + R) p.channelID p.e2eeDeviceID ∨
      Ejecting (cmds new + R) c := by
  rcases current_of_exec he hp with ⟨hold, hd⟩ | ⟨caller, req, rfl, rfl, -, hchannel, hdevice⟩
  · rcases hinv.participants c p hold with hcov | hej
    · by_cases hreset : d = .media (.resetVoiceChannel p.channelID)
      · subst hreset
        exact .inr (.of_reset he hold rfl)
      · exact .inl (hcov.fire he hreset)
    · exact .inr (hej.fire he hd)
  · -- the join that enters was admitted
    rw [hchannel, hdevice]
    exact .inl ((hinv.joins _ (Multiset.mem_cons_self _ _) req rfl).fire he (by simp))

theorem ModesSettled.joins_fire (he : h.exec x d = some (h', new))
    (hguard : ResetSettled h (d ::ₘ R) d) (hinv : ModesSettled h (d ::ₘ R)) {b : Cmd}
    (hb : b ∈ cmds new + R) {req : JoinRequest} (hreq : b.admitted = some req) :
    Covered h' (cmds new + R) req.channelID req.e2eeDeviceID := by
  rcases mem_pushed.mp hb with hb | hb
  · rcases admitted_of_exec he hb hreq with hd | hmode
    · refine (hinv.joins d (by simp) req hd).fire he ?_
      rintro rfl
      simp [Cmd.admitted] at hd
    · exact .of_modeOf he hmode
  · have hmem : b ∈ d ::ₘ R := Multiset.mem_cons_of_mem hb
    by_cases hreset : d = .media (.resetVoiceChannel req.channelID)
    · -- the reset that was to come comes now: the condition speaks about this join
      subst hreset
      exact .of_modeOf he (hguard _ rfl b hmem req hreq rfl)
    · exact (hinv.joins b hmem req hreq).fire he hreset

end Steps

variable {servers : Client → Finset Int} {e2eeRequired : Int → Bool} {limits : ViewerLimits}
  {cfg : HubConfig}

theorem ModesSettled.start {h : HubState} {S : Multiset Cmd} {op : Op} (hop : op.Handled)
    (hinv : ModesSettled h S) : ModesSettled h (cmds op.body + S) where
  participants c p hp := by
    rcases hinv.participants c p hp with (hmode | hreset) | hej
    · exact .inl (.inl hmode)
    · exact .inl (.inr (by simp [hreset]))
    · exact .inr (hej.start)
  joins b hb req hreq := by
    rcases mem_pushed.mp hb with hb | hb
    · -- no operation starts with an admitted join
      cases op <;> simp [Op.body, Op.Handled] at hb hop <;> subst hb <;> simp [Cmd.admitted] at hreq
    · exact (hinv.joins b hb req hreq).imp_right fun hreset => by simp [hreset]

theorem modesSettled_of_reachable (hrun : hubMachine.Reachable Op.Handled ResetSettled
      (HubState.new servers e2eeRequired limits) cfg) : ModesSettled cfg.state cfg.pending := by
  refine hrun.induction (P := ModesSettled) ⟨by simp [HubState.new], by simp⟩ ?_ ?_
  · exact fun h S op hop hinv => hinv.start hop
  · intro cfg i d x h' new rest R _ hf hguard hinv
    exact ⟨fun c p hp => hinv.participants_fire hf.exec hp,
      fun b hb req hreq => hinv.joins_fire hf.exec hguard hb hreq⟩

/-- **One mode per channel.** In every run in which resets find no admitted join of the other mode
under way to their channel, when no operation is in progress all participants of a channel have a
device if its stored policy requires encryption, and none has one if it does not. -/
theorem participants_share_mode (hrun : hubMachine.Reachable Op.Handled ResetSettled
      (HubState.new servers e2eeRequired limits) cfg) (hquiet : cfg.Quiescent) (ch : Int) :
    (cfg.state.media.e2eeRequired ch = true →
      ∀ c p, cfg.state.media.voice.current c = some p → p.channelID = ch → p.e2eeDeviceID ≠ "") ∧
    (cfg.state.media.e2eeRequired ch = false →
      ∀ c p, cfg.state.media.voice.current c = some p → p.channelID = ch →
      p.e2eeDeviceID = "") := by
  have hmode : ∀ c p, cfg.state.media.voice.current c = some p →
      cfg.state.media.ModeOf p.channelID p.e2eeDeviceID := by
    intro c p hp
    have hinv := modesSettled_of_reachable hrun
    rw [hquiet.pending_eq_zero] at hinv
    rcases hinv.participants c p hp with (hmode | hreset) | hej
    · exact hmode
    · exact absurd hreset (Multiset.notMem_zero _)
    · exact absurd hej not_ejecting_zero
  constructor
  · rintro hreq c p hp rfl
    simpa [Media.ModeOf, hreq] using hmode c p hp
  · rintro hreq c p hp rfl
    simpa [Media.ModeOf, hreq] using hmode c p hp

/-! ## Two runs with a policy change -/

namespace Sample

/-- The channel starts to require encryption: the policy is stored, then the channel is reset. -/
def requireEncryption (participants : List Client) : Schedule :=
  .start (.setChannelPolicy 5 true) :: goroutine 2 2 { here with clients := participants }

def ejected : Schedule :=
  goroutine 2 3 here

end Sample

open Sample in
/-- The policy changes after the join has ended: the unencrypted participant is ejected. -/
theorem participants_share_mode_after_reset :
    ∃ cfg, hubMachine.Reachable Op.Handled ResetSettled hub cfg ∧ cfg.Quiescent ∧
      cfg.state.media.e2eeRequired 5 = true ∧
      ∀ c p, cfg.state.media.voice.current c = some p → p.channelID = 5 → p.e2eeDeviceID ≠ "" := by
  obtain ⟨cfg, hrun, hquiet, hpolicy⟩ :
    ∃ cfg, hubMachine.Reachable Op.Handled ResetSettled hub cfg ∧
      cfg.Quiescent ∧ cfg.state.media.e2eeRequired 5 = true :=
    Machine.exists_reachable_of_play
      (joining ++ entering ++ requireEncryption [client] ++ ejected) (by decide +kernel)
  exact ⟨cfg, hrun, hquiet, hpolicy, (participants_share_mode hrun hquiet 5).1 hpolicy⟩

open Sample in
/-- **The stale join.** The unencrypted join is admitted, the policy changes and the channel, still
empty, is reset; then the join enters its client. -/
theorem stale_join_after_reset :
    ∃ cfg, hubMachine.Reachable Op.Handled (fun _ _ _ => True) hub cfg ∧ cfg.Quiescent ∧
      cfg.state.media.e2eeRequired 5 = true ∧
      (cfg.state.media.voice.current client).any
        (fun p => p.channelID = 5 ∧ p.e2eeDeviceID = "") = true :=
  Machine.exists_reachable_of_play (joining ++ requireEncryption [] ++ entering) (by decide +kernel)

end Voxhold.Hub
