/-
# Voxhold.Hub.StreamVoice — whoever is in a stream is in its voice channel

A start or watch checks that the client is in voice, enters it, and checks AGAIN. `leaveVoice`
removes the stream first and the voice entry second. If entering and rechecking both fall between
the two removals, nobody removes the stream any more (`stream_without_voice`).
-/

import Voxhold.Hub.Discipline

namespace Voxhold.Hub

open Voxhold.Lib Multiset

/-- The request whose second look at the voice state this command is. -/
def Cmd.rechecking : Cmd → Option StreamRequest
  | .media (.stream .recheck _ req) => some req
  | _ => none

/-- A recheck that finds its client in voice, and in a stream, does so while no `leaveVoice` of the
client stands between its two removals. -/
def RecheckTimely (h : HubState) (S : Multiset Cmd) (d : Cmd) : Prop :=
  ∀ req ∈ d.rechecking,
    inChannel (h.media.voice.current req.client) req.serverID req.channelID = true →
    (h.media.streams.current req.client).isSome → .media (.voiceLeave req.client) ∉ S
deriving Decidable

/-- The operations that take voice and streams down client by client; `RevokeServer` is the one that
does not. -/
def Op.ClientWise : Op → Prop
  | .revokeServer _ => False
  | _ => True

instance : DecidablePred Op.ClientWise := by
  intro op
  unfold Op.ClientWise
  split <;> infer_instance

def Rechecking (S : Multiset Cmd) (c : Client) : Prop :=
  ∃ b ∈ S, ∃ req, b.rechecking = some req ∧ req.client = c

/-- Stream members are in voice, up to what is still going to be repaired. -/
structure StreamsInVoice (h : HubState) (S : Multiset Cmd) : Prop where
  clientWise : ∀ s, .registry (.revokeServerSnapshot s) ∉ S ∧ .media (.removeServer s) ∉ S
  rechecks : ∀ action req, .media (.stream .recheck action req) ∈ S →
    ∀ ref, h.media.streams.current req.client = some ref →
      ref.serverID = req.serverID ∧ ref.channelID = req.channelID
  joins : ∀ caller req, .media (.join .insert caller req) ∈ S →
    h.media.voice.current req.client = none ∨
    inChannel (h.media.voice.current req.client) req.serverID req.channelID = true ∨
    h.media.streams.current req.client = none
  revokes : ∀ c s, .media (.voiceLeaveServer c s) ∈ S →
    inServer (h.media.voice.current c) s = false ∨ h.media.streams.current c = none
  members : ∀ c ref, h.media.streams.current c = some ref →
    Rechecking S c ∨ .media (.leaveStream c) ∈ S ∨
    inChannel (h.media.voice.current c) ref.serverID ref.channelID = true ∧
      .media (.voiceLeave c) ∉ S

/-! ## One step -/

section Steps

variable {x : Choice} {c : Client} {d : Cmd} {h h' : HubState} {new : List HubInstr}
  {R : Multiset Cmd}
  {ref : StreamRef}
  {req : StreamRequest}

theorem inChannel_iff {v : Option VoiceParticipant} {s ch : Int} :
    inChannel v s ch = true ↔ ∃ p, v = some p ∧ p.serverID = s ∧ p.channelID = ch := by
  cases v <;> simp [inChannel]

/-- No other command that runs alone under a media lock is pending while one that needs the lock
fires. -/
def Excludes (d : Cmd) (R : Multiset Cmd) : Prop :=
  ∀ b ∈ R, b.Alone → ∀ l mode, (l, mode) ∈ b.needs → (l, .exclusive) ∉ d.needs

theorem excludes_of_fires {allowed : Op → Prop} {guard : HubState → Multiset Cmd → Cmd → Prop}
    {init : HubState} {cfg : HubConfig} {i : Nat} {rest : List HubInstr}
    (hrun : hubMachine.Reachable allowed guard init cfg)
    (hf : hubMachine.Fires cfg i d x h' new rest R) : Excludes d R := by
  intro b hb halone l mode hneed hexcl
  exact hrun.solo_excludes hubMachine_keeps hubMachine_solo hf hexcl halone hneed hb

theorem voice_without_lock (he : h.exec x d = some (h', new))
    (hd : (.mediaTransition c.userID, .exclusive) ∉ d.needs) :
    h'.media.voice.current c = h.media.voice.current c ∨ h'.media.voice.current c = none := by
  rcases voice_of_exec he c with ⟨hsame, -⟩ | ⟨hnone, -⟩ | ⟨caller, req, p, rfl, rfl, -⟩
  · exact .inl hsame
  · exact .inr hnone
  · exact absurd (by simp) hd

theorem stream_without_lock (he : h.exec x d = some (h', new))
    (hd : (.mediaTransition c.userID, .exclusive) ∉ d.needs)
    (href : h'.media.streams.current c = some ref) : h.media.streams.current c = some ref := by
  rcases stream_of_exec he href with ⟨hold, -⟩ | ⟨action, req, rfl, rfl, -⟩
  · exact hold
  · exact absurd (by simp) hd

theorem rechecking_iff :
    d.rechecking = some req ↔ ∃ action, d = .media (.stream .recheck action req) := by
  constructor
  · intro hd
    unfold Cmd.rechecking at hd
    split at hd
    · next action req' =>
      cases hd
      exact ⟨action, rfl⟩
    · simp at hd
  · rintro ⟨action, rfl⟩
    rfl

theorem recheck_kept (he : h.exec x d = some (h', new))
    (hd : d.rechecking = some req) (href : h'.media.streams.current req.client = some ref) :
    inChannel (h.media.voice.current req.client) req.serverID req.channelID = true := by
  obtain ⟨action, rfl⟩ := rechecking_iff.mp hd
  obtain ⟨m', hm, rfl⟩ := exec_media he
  simp only [Media.exec, Media.execStream] at hm
  cases hm
  split at href
  · next hin => exact hin
  · simp [StreamState.current_leave_self] at href

theorem entered_of_exec {action : StreamAction}
    (he : h.exec x (.media (.stream .insert action req)) = some (h', new))
    (hrun : .run (.media (.stream .recheck action req)) ∈ new) :
    h.media.streams.Entered h'.media.streams req := by
  obtain ⟨m', hm, rfl⟩ := exec_media he
  simp only [Media.exec, Media.execStream] at hm
  split at hm
  · cases hm
    simp at hrun
  · next streams hok =>
    cases hm
    exact Media.enterStream_entered hok

theorem stream_none_without_lock (he : h.exec x d = some (h', new))
    (hd : (.mediaTransition c.userID, .exclusive) ∉ d.needs)
    (hnone : h.media.streams.current c = none) : h'.media.streams.current c = none := by
  cases href : h'.media.streams.current c with
  | none => rfl
  | some ref => simp [stream_without_lock he hd href] at hnone

section

variable (he : h.exec x d = some (h', new)) (hinv : StreamsInVoice h (d ::ₘ R))
include he hinv

theorem StreamsInVoice.clientWise_fire (s : Int) :
    .registry (.revokeServerSnapshot s) ∉ cmds new + R ∧
      .media (.removeServer s) ∉ cmds new + R := by
  constructor
  · intro hmem
    rcases mem_pushed.mp hmem with hnew | hR
    · -- only an operation starts with this snapshot
      cases follows_of_exec he hnew
    · exact (hinv.clientWise s).1 (mem_cons_of_mem hR)
  · intro hmem
    rcases mem_pushed.mp hmem with hnew | hR
    · cases follows_of_exec he hnew with
      | removeServer => exact (hinv.clientWise s).1 (by simp)
    · exact (hinv.clientWise s).2 (mem_cons_of_mem hR)

theorem StreamsInVoice.member_fire (hold : h.media.streams.current c = some ref)
    (hd : d ≠ .media (.leaveVoice c))
    (hin : inChannel (h.media.voice.current c) ref.serverID ref.channelID = true)
    (hleave : .media (.voiceLeave c) ∉ d ::ₘ R) : .media (.leaveStream c) ∈ cmds new + R ∨
    inChannel (h'.media.voice.current c) ref.serverID ref.channelID = true ∧
      .media (.voiceLeave c) ∉ cmds new + R := by
  have hnot : .media (.voiceLeave c) ∉ cmds new + R := by
    intro hmem
    rcases mem_pushed.mp hmem with hnew | hR
    · cases follows_of_exec he hnew with
      | voiceLeave => exact hd rfl
    · exact hleave (mem_cons_of_mem hR)
  obtain ⟨p, hp, hserver, hchannel⟩ := inChannel_iff.mp hin
  rcases voice_of_exec he c with ⟨hsame, -⟩ | ⟨-, -, hgone⟩ | ⟨caller, req, q, rfl, rfl, hq,
    hjoined⟩
  · exact .inr ⟨hsame ▸ hin, hnot⟩
  · rcases hgone with rfl | ⟨s, rfl, hs⟩ | ⟨s, rfl⟩ | hreplaced
    · exact absurd (by simp) hleave
    · -- leaving the server: the stream would be gone already
      rcases hinv.revokes c s (by simp) with hnone | hnone
      · simp [hs] at hnone
      · simp [hold] at hnone
    · exact absurd (by simp) (hinv.clientWise s).2
    · exact .inl (by simp [hreplaced])
  · -- a join of the client with a stream is one of the channel it is in
    rcases hinv.joins caller req (by simp) with hnone | hsame | hnone
    · simp [hp] at hnone
    · obtain ⟨p', hp', hserver', hchannel'⟩ := inChannel_iff.mp hsame
      obtain rfl := Option.mem_unique hp hp'
      refine .inr ⟨inChannel_iff.mpr ⟨q, hq, ?_, ?_⟩, hnot⟩
      · rw [hjoined.1, ← hserver', hserver]
      · rw [hjoined.2.1, ← hchannel', hchannel]
    · simp [hold] at hnone

theorem StreamsInVoice.members_fire (hguard : RecheckTimely h (d ::ₘ R) d)
    (href : h'.media.streams.current c = some ref) : Rechecking (cmds new + R) c ∨
    .media (.leaveStream c) ∈ cmds new + R ∨
    inChannel (h'.media.voice.current c) ref.serverID ref.channelID = true ∧
      .media (.voiceLeave c) ∉ cmds new + R := by
  rcases stream_of_exec he href with ⟨hold, hstream, hvoice⟩ | ⟨action, req, rfl, rfl, rfl, -⟩
  · rcases hinv.members c ref hold with ⟨b, hb, req, hreq, rfl⟩ | hleave | ⟨hin, hleave⟩
    · rcases mem_cons.mp hb with rfl | hR
      · -- the second look: it keeps the stream only if it finds the client in its channel
        have hin := recheck_kept he hreq href
        obtain ⟨action, rfl⟩ := rechecking_iff.mp hreq
        obtain ⟨hserver, hchannel⟩ := hinv.rechecks action req (by simp) ref hold
        rw [← hserver, ← hchannel] at hin
        refine .inr (hinv.member_fire he hold hvoice hin ?_)
        refine hguard req hreq ?_ (by simp [hold])
        rw [← hserver, ← hchannel]
        exact hin
      · exact .inl ⟨b, by simp [hR], req, hreq, rfl⟩
    · rcases mem_cons.mp hleave with heq | hR
      · exact absurd heq.symm hstream
      · exact .inr (.inl (by simp [hR]))
    · exact .inr (hinv.member_fire he hold hvoice hin hleave)
  · exact .inl ⟨.media (.stream .recheck action req), by simp, req, rfl, rfl⟩

variable (hexcl : Excludes d R)
include hexcl

theorem StreamsInVoice.rechecks_fire {action : StreamAction} {req : StreamRequest}
    (hmem : .media (.stream .recheck action req) ∈ cmds new + R)
    (href : h'.media.streams.current req.client = some ref) :
    ref.serverID = req.serverID ∧ ref.channelID = req.channelID := by
  rcases mem_pushed.mp hmem with hnew | hR
  · cases follows_of_exec he hnew with
    | recheck =>
      -- the request has entered its stream just now
      obtain ⟨ref', href', hserver, hchannel⟩ := (entered_of_exec he hnew).entered
      obtain rfl := Option.mem_unique href href'
      exact ⟨hserver, hchannel⟩
  · have hlock := hexcl _ hR trivial (.mediaTransition req.client.userID) .exclusive
      (by simp)
    exact hinv.rechecks action req (mem_cons_of_mem hR) ref
      (stream_without_lock he hlock href)

theorem StreamsInVoice.joins_fire {caller : Caller} {req : JoinRequest}
    (hmem : .media (.join .insert caller req) ∈ cmds new + R) :
    h'.media.voice.current req.client = none ∨
    inChannel (h'.media.voice.current req.client) req.serverID req.channelID = true ∨
    h'.media.streams.current req.client = none := by
  rcases mem_pushed.mp hmem with hnew | hR
  · cases follows_of_exec he hnew with
    | insertSame _ _ hcur =>
      obtain ⟨m', hm, rfl⟩ := exec_media he
      cases hm
      rcases hcur with hnone | hin
      · exact .inl hnone
      · exact .inr (.inl hin)
    | insertAfter =>
      obtain ⟨m', hm, rfl⟩ := exec_media he
      cases hm
      exact .inr (.inr (StreamState.current_leave_self _ _))
  · have hlock := hexcl _ hR trivial (.mediaTransition req.client.userID) .exclusive
      (by simp)
    rcases voice_without_lock he hlock with hsame | hnone
    · rw [hsame]
      rcases hinv.joins caller req (mem_cons_of_mem hR) with hnone | hin | hstream
      · exact .inl hnone
      · exact .inr (.inl hin)
      · exact .inr (.inr (stream_none_without_lock he hlock hstream))
    · exact .inl hnone

theorem StreamsInVoice.revokes_fire {s : Int}
    (hmem : .media (.voiceLeaveServer c s) ∈ cmds new + R) :
    inServer (h'.media.voice.current c) s = false ∨ h'.media.streams.current c = none := by
  rcases mem_pushed.mp hmem with hnew | hR
  · cases follows_of_exec he hnew with
    | notInServer _ _ hs =>
      obtain ⟨m', hm, rfl⟩ := exec_media he
      cases hm
      exact .inl hs
    | voiceLeaveServer =>
      obtain ⟨m', hm, rfl⟩ := exec_media he
      cases hm
      exact .inr (StreamState.current_leave_self _ _)
  · have hlock := hexcl _ hR trivial (.mediaTransition c.userID) .exclusive
      (by simp)
    rcases voice_without_lock he hlock with hsame | hnone
    · rw [hsame]
      exact (hinv.revokes c s (mem_cons_of_mem hR)).imp_right
        (stream_none_without_lock he hlock)
    · exact .inl (by simp [hnone, inServer])

theorem StreamsInVoice.fire (hguard : RecheckTimely h (d ::ₘ R) d) :
    StreamsInVoice h' (cmds new + R) where
  clientWise := hinv.clientWise_fire he
  rechecks _ _ hmem _ href := hinv.rechecks_fire he hexcl hmem href
  joins _ _ hmem := hinv.joins_fire he hexcl hmem
  revokes _ _ hmem := hinv.revokes_fire he hexcl hmem
  members _ _ href := hinv.members_fire he hguard href

end

end Steps

/-! ## Whole runs -/

theorem StreamsInVoice.push {h : HubState} {S T : Multiset Cmd} (hT : ∀ b ∈ T, b.Callable)
    (hclientWise : ∀ s, .registry (.revokeServerSnapshot s) ∉ T) (hinv : StreamsInVoice h S) :
    StreamsInVoice h (T + S) where
  clientWise s := by
    refine ⟨fun hmem => ?_, fun hmem => ?_⟩
    · rcases mem_add.mp hmem with hnew | hS
      · exact hclientWise s hnew
      · exact (hinv.clientWise s).1 hS
    · exact (hinv.clientWise s).2 (mem_of_called hT hmem (by simp [Cmd.Callable, Cmd.Starts]))
  rechecks action req hmem :=
    hinv.rechecks action req (mem_of_called hT hmem (by simp [Cmd.Callable, Cmd.Starts]))
  joins caller req hmem :=
    hinv.joins caller req (mem_of_called hT hmem (by simp [Cmd.Callable, Cmd.Starts]))
  revokes c s hmem := hinv.revokes c s (mem_of_called hT hmem (by simp [Cmd.Callable, Cmd.Starts]))
  members c ref href := by
    rcases hinv.members c ref href with ⟨b, hb, hreq⟩ | hleave | ⟨hin, hleave⟩
    · exact .inl ⟨b, mem_add.mpr (.inr hb), hreq⟩
    · exact .inr (.inl (mem_add.mpr (.inr hleave)))
    · refine .inr (.inr ⟨hin, fun hmem => hleave ?_⟩)
      exact mem_of_called hT hmem (by simp [Cmd.Callable, Cmd.Starts])

theorem Op.ClientWise.snapshot_not_mem {op : Op} (hop : op.ClientWise) (s : Int) :
    .registry (.revokeServerSnapshot s) ∉ (cmds op.body : Multiset Cmd) := by
  rw [mem_coe, mem_cmds]
  intro hnew
  cases op <;> simp [Op.body, Op.ClientWise] at hnew hop

variable {servers : Client → Finset Int} {e2eeRequired : Int → Bool} {limits : ViewerLimits}
  {cfg : HubConfig}

theorem streamsInVoice_of_reachable (hrun : hubMachine.Reachable Op.ClientWise RecheckTimely
      (HubState.new servers e2eeRequired limits) cfg) : StreamsInVoice cfg.state cfg.pending := by
  refine hrun.induction (P := StreamsInVoice) ?_
    (fun h S op hop hinv => hinv.push (fun _ hb => Op.callable hb) hop.snapshot_not_mem) ?_
  · refine ⟨by simp, by simp, by simp, by simp, fun c ref href => ?_⟩
    exact absurd href (by simp [HubState.new, StreamState.current_new])
  · intro cfg i d x h' new rest R hcfg hf hguard hinv
    exact hinv.fire hf.exec (excludes_of_fires hcfg hf) hguard

/-- **Stream members are in voice.** In every run without `RevokeServer` in which no recheck falls
between the two removals of a `leaveVoice` of its client, when no operation is in progress every
publisher and viewer is in voice, in the server and the channel of its stream. -/
theorem stream_member_in_voice (hrun : hubMachine.Reachable Op.ClientWise RecheckTimely
      (HubState.new servers e2eeRequired limits) cfg) (hquiet : cfg.Quiescent) (c : Client)
    (ref : StreamRef) (href : cfg.state.media.streams.current c = some ref) :
    ∃ p, cfg.state.media.voice.current c = some p ∧ p.serverID = ref.serverID ∧
      p.channelID = ref.channelID := by
  have hinv := streamsInVoice_of_reachable hrun
  rw [hquiet.pending_eq_zero] at hinv
  rcases hinv.members c ref href with ⟨b, hb, -⟩ | hleave | ⟨hin, -⟩
  · exact absurd hb (notMem_zero b)
  · exact absurd hleave (notMem_zero _)
  · exact inChannel_iff.mp hin

/-! ## Two runs of one publisher -/

namespace Sample

def streamRequest : StreamRequest := ⟨client, 1, 5⟩

/-- The client, in voice, starts a stream and has passed the first look at the voice state. -/
def starting : Schedule :=
  joining ++ entering ++
    .start (.stream (.start ⟨.p2p, .vp8, false, []⟩) streamRequest) :: goroutine 2 3 here

def rechecked : Schedule :=
  goroutine 2 3 here

def leaving : Schedule :=
  .start (.leaveVoice client) :: goroutine 3 1 here

def left : Schedule :=
  goroutine 3 2 here

end Sample

open Sample in
/-- A publisher that is in the channel of its stream. -/
theorem stream_member_in_voice_publisher :
    ∃ cfg, hubMachine.Reachable Op.ClientWise RecheckTimely hub cfg ∧ cfg.Quiescent ∧
      cfg.state.media.streams.current client = some ⟨1, 5, client⟩ ∧
      ∃ p, cfg.state.media.voice.current client = some p ∧ p.serverID = 1 ∧ p.channelID = 5 := by
  obtain ⟨cfg, hrun, hquiet, href⟩ : ∃ cfg,
      hubMachine.Reachable Op.ClientWise RecheckTimely hub cfg ∧ cfg.Quiescent ∧
        cfg.state.media.streams.current client = some ⟨1, 5, client⟩ :=
    Machine.exists_reachable_of_play (starting ++ rechecked) (by decide +kernel)
  exact ⟨cfg, hrun, hquiet, href, stream_member_in_voice hrun hquiet client _ href⟩

open Sample in
/-- **The orphaned stream.** Between the two removals of `leaveVoice` the stream is entered and
rechecked; the client then leaves voice and stays in the stream. -/
theorem stream_without_voice :
    ∃ cfg, hubMachine.Reachable Op.ClientWise (fun _ _ _ => True) hub cfg ∧ cfg.Quiescent ∧
      cfg.state.media.streams.current client = some ⟨1, 5, client⟩ ∧
      cfg.state.media.voice.current client = none :=
  Machine.exists_reachable_of_play (starting ++ leaving ++ rechecked ++ left) (by decide +kernel)

end Voxhold.Hub
