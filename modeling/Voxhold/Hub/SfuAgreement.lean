/-
# Voxhold.Hub.SfuAgreement — the hub's voice state and the media sessions

`joinVoice` enters a client into the voice state and LATER lets `voice.Manager.Join` create its
session; a removal takes it out and LATER calls `Manager.Leave`. A removal that fits between the
halves of a join finds no session to close (`session_without_participant`).
-/

import Voxhold.Hub.Effects

namespace Voxhold.Hub

open Voxhold.Lib Multiset

/-! ## Joins on their way to a session -/

/-- The client for which a command is going to create a session, unless its join fails. -/
def Cmd.connecting : Cmd → Option Client
  | .media (.sfu stage req) => if stage = .synchronize then none else some req.client
  | _ => none

/-- The stages in which the session of the client's previous channel is not yet closed. -/
def SfuStage.Early : SfuStage → Bool
  | .reply | .unanswered | .leave => true
  | .reserve | .insert | .synchronize => false

def Cmd.reconnecting : Cmd → Option Client
  | .media (.sfu stage req) => if stage.Early then some req.client else none
  | _ => none

def Connecting (S : Multiset Cmd) (c : Client) : Prop :=
  ∃ b ∈ S, b.connecting = some c

instance (S : Multiset Cmd) (c : Client) : Decidable (Connecting S c) :=
  Multiset.decidableExistsMultiset

def Reconnecting (S : Multiset Cmd) (c : Client) : Prop :=
  ∃ b ∈ S, b.reconnecting = some c

/-! ## The condition -/

/-- The join whose session this command creates. -/
def Cmd.creating : Cmd → Option JoinRequest
  | .media (.sfu .insert req) => some req
  | _ => none

/-- The join that this command ends without a session and without a word to the hub. -/
def Cmd.abandoning : Cmd → Option JoinRequest
  | .media (.sfu .unanswered req) => some req
  | _ => none

/-- The client whose session this command closes on behalf of the hub. -/
def Cmd.closing : Cmd → Option Client
  | .media (.closeVoiceSession c) => some c
  | _ => none

/-- Sessions are created and closed in step with the voice state:

* a session is created for a client that is in its channel, or whose session or whose stay in voice
  is going to be ended by a removal under way;
* a session is closed when its client has left, or has joined again and waits for a new session, or
  is being ejected;
* a join whose reply could not be queued is dropped when the client already has the right session or
  is being ejected. -/
def SessionTimely (h : HubState) (S : Multiset Cmd) (d : Cmd) : Prop :=
  (∀ req ∈ d.creating,
    (∃ p ∈ h.media.voice.current req.client, p.channelID = req.channelID) ∨
    h.media.voice.current req.client = none ∧ .media (.closeVoiceSession req.client) ∈ S ∨
    (h.media.voice.current req.client).isSome ∧ Ejecting S req.client) ∧
  (∀ c ∈ d.closing,
    h.media.voice.current c = none ∨ Connecting S c ∨ Ejecting S c) ∧
  (∀ req ∈ d.abandoning, ∀ p ∈ h.media.voice.current req.client,
    h.media.sessions.lookup req.client = some p.channelID ∨ Ejecting S req.client)
deriving Decidable

/-! ## One step -/

section Steps

variable {x : Choice} {c : Client} {d : Cmd} {h h' : HubState} {new : List HubInstr}
  {R : Multiset Cmd}
  {req : JoinRequest}

theorem exec_sfu {stage : SfuStage} (he : h.exec x (.media (.sfu stage req)) = some (h', new)) :
    h.media.execSfu x req stage = (h'.media, new) := by
  obtain ⟨m', hm, rfl⟩ := exec_media he
  exact Option.some.inj hm

theorem Connecting.of_run (stage : SfuStage)
    (hb : .run (.media (.sfu stage req)) ∈ new) (hstage : stage ≠ .synchronize) :
    Connecting (cmds new + R) req.client :=
  ⟨.media (.sfu stage req), by simp [hb], by simp [Cmd.connecting, hstage]⟩

theorem Reconnecting.of_run (stage : SfuStage)
    (hb : .run (.media (.sfu stage req)) ∈ new) (hstage : stage.Early = true) :
    Reconnecting (cmds new + R) req.client :=
  ⟨.media (.sfu stage req), by simp [hb], by simp [Cmd.reconnecting, hstage]⟩

section

variable (he : h.exec x d = some (h', new))
include he

theorem Connecting.fire (hS : Connecting (d ::ₘ R) c) :
    Connecting (cmds new + R) c ∨ Ejecting (cmds new + R) c ∨
    ∃ req, req.client = c ∧ (d.abandoning = some req ∨
      d.creating = some req ∧ h'.media.sessions.lookup c = some req.channelID) := by
  obtain ⟨b, hmem, hb⟩ := hS
  rcases mem_cons.mp hmem with rfl | hR
  · unfold Cmd.connecting at hb
    split at hb
    · next stage req =>
      have hsfu := exec_sfu he
      cases stage with
      | synchronize => simp at hb
      | unanswered =>
        -- the reply could not be queued: the handler returns, and the client keeps what it has
        exact .inr (.inr ⟨req, by simpa using hb, .inl rfl⟩)
      | insert =>
        obtain rfl : req.client = c := by simpa using hb
        simp only [Media.execSfu] at hsfu
        split at hsfu
        · obtain ⟨hm, -⟩ := Prod.mk.inj hsfu
          exact .inr (.inr ⟨req, rfl, .inr ⟨rfl, by simp [← hm]⟩⟩)
        · obtain ⟨-, rfl⟩ := Prod.mk.inj hsfu
          exact .inr (.inl (.of_leaveVoice (by simp)))
      | reply =>
        obtain rfl : req.client = c := by simpa using hb
        obtain ⟨-, rfl⟩ := Prod.mk.inj hsfu
        left
        split
        · exact .of_run .leave (by simp) (by simp)
        · exact .of_run .unanswered (by simp) (by simp)
      | leave =>
        obtain rfl : req.client = c := by simpa using hb
        obtain ⟨-, rfl⟩ := Prod.mk.inj hsfu
        exact .inl (.of_run .reserve (by simp) (by simp))
      | reserve =>
        obtain rfl : req.client = c := by simpa using hb
        obtain ⟨-, rfl⟩ := Prod.mk.inj hsfu
        split
        · exact .inl (.of_run .insert (by simp) (by simp))
        · exact .inr (.inl (.of_leaveVoice (by simp)))
    · simp at hb
  · exact .inl ⟨b, by simp [hR], hb⟩

theorem Reconnecting.fire (hS : Reconnecting (d ::ₘ R) c) :
    Reconnecting (cmds new + R) c ∨ h'.media.sessions.lookup c = none ∨
    ∃ req, req.client = c ∧ d.abandoning = some req := by
  obtain ⟨b, hmem, hb⟩ := hS
  rcases mem_cons.mp hmem with rfl | hR
  · unfold Cmd.reconnecting at hb
    split at hb
    · next stage req =>
      have hsfu := exec_sfu he
      cases stage with
      | reserve | insert | synchronize => simp [SfuStage.Early] at hb
      | unanswered => exact .inr (.inr ⟨req, by simpa [SfuStage.Early] using hb, rfl⟩)
      | reply =>
        obtain rfl : req.client = c := by simpa [SfuStage.Early] using hb
        obtain ⟨-, rfl⟩ := Prod.mk.inj hsfu
        left
        split
        · exact .of_run .leave (by simp) rfl
        · exact .of_run .unanswered (by simp) rfl
      | leave =>
        obtain rfl : req.client = c := by simpa [SfuStage.Early] using hb
        obtain ⟨hm, -⟩ := Prod.mk.inj hsfu
        exact .inr (.inl (by simp [← hm]))
    · simp at hb
  · exact .inl ⟨b, by simp [hR], hb⟩

theorem session_of_exec (c : Client) : h'.media.sessions.lookup c = h.media.sessions.lookup c ∨
    (h'.media.sessions.lookup c = none ∧ (d.closing = some c ∨
      Connecting (cmds new + R) c ∨ Ejecting (cmds new + R) c)) ∨
    (∃ req, d.creating = some req ∧ req.client = c ∧
      h'.media.sessions.lookup c = some req.channelID) := by
  cases d with
  | registry cmd =>
    obtain ⟨r', -, rfl⟩ := exec_registry he
    exact .inl rfl
  | media cmd =>
    obtain ⟨m', hm, rfl⟩ := exec_media he
    cases Media.exec_change hm with
    | none | voice | streams | policy => exact .inl rfl
    | sessions hv =>
      cases hv with
      | close c' =>
        by_cases hc : c = c'
        · subst hc
          exact .inr (.inl ⟨by simp, .inl rfl⟩)
        · exact .inl (by simp [hc])
      | leave req =>
        by_cases hc : c = req.client
        · subst hc
          exact .inr (.inl ⟨by simp, .inr (.inl (.of_run .reserve (by simp) (by simp)))⟩)
        · exact .inl (by simp [hc])
      | insert req =>
        by_cases hc : c = req.client
        · subst hc
          exact .inr (.inr ⟨req, rfl, rfl, by simp⟩)
        · exact .inl (by simp [hc])
      | fail req =>
        by_cases hc : c = req.client
        · subst hc
          exact .inr (.inl ⟨by simp, .inr (.inr (.of_leaveVoice (by simp)))⟩)
        · exact .inl (by simp [hc])

end

theorem closing_iff : d.closing = some c ↔ d = .media (.closeVoiceSession c) := by
  constructor
  · intro hd
    unfold Cmd.closing at hd
    split at hd
    · cases hd
      rfl
    · simp at hd
  · rintro rfl
    rfl

theorem voice_of_creating (he : h.exec x d = some (h', new))
    (hd : d.creating = some req) : h'.media.voice = h.media.voice := by
  unfold Cmd.creating at hd
  split at hd
  · have hsfu := exec_sfu he
    simp only [Media.execSfu] at hsfu
    split at hsfu
    all_goals
      obtain ⟨hm, -⟩ := Prod.mk.inj hsfu
      rw [← hm]
  · simp at hd

/-- The two halves agree, up to what is still going to be done: a participant may wait for its
session or be about to leave, and a session may be about to be closed. -/
structure Agree (h : HubState) (S : Multiset Cmd) : Prop where
  handled : ∀ stage req, .media (.join stage .hub req) ∉ S
  participants : ∀ c p, h.media.voice.current c = some p →
    h.media.sessions.lookup c = some p.channelID ∨ Connecting S c ∨ Ejecting S c
  sessions : ∀ c ch, h.media.sessions.lookup c = some ch →
    (∃ p, h.media.voice.current c = some p ∧ p.channelID = ch) ∨
    .media (.closeVoiceSession c) ∈ S ∨
    (h.media.voice.current c).isSome ∧ (Ejecting S c ∨ Reconnecting S c)

section

variable (he : h.exec x d = some (h', new))
include he

theorem Agree.handled_fire (hinv : Agree h (d ::ₘ R))
    (stage : JoinStage) (req : JoinRequest) : .media (.join stage .hub req) ∉ cmds new + R := by
  intro hmem
  rcases mem_pushed.mp hmem with hnew | hR
  · -- the step before it was one of the same call
    cases follows_of_exec he hnew <;>
      exact hinv.handled _ req (mem_cons_self _ _)
  · exact hinv.handled stage req (mem_cons_of_mem hR)

theorem Agree.reply_mem (hinv : Agree h (d ::ₘ R))
    {caller : Caller} (hd : d = .media (.join .insert caller req)) :
    .run (.media (.sfu .reply req)) ∈ new := by
  subst hd
  cases caller with
  | hub => exact absurd (by simp) (hinv.handled .insert req)
  | handler =>
    obtain ⟨m', hm, -⟩ := exec_media he
    cases hm
    simp [joinAdmitted]

theorem Agree.participants_fire
    (hguard : SessionTimely h (d ::ₘ R) d) (hinv : Agree h (d ::ₘ R)) {p : VoiceParticipant}
    (hp : h'.media.voice.current c = some p) :
    h'.media.sessions.lookup c = some p.channelID ∨ Connecting (cmds new + R) c ∨
      Ejecting (cmds new + R) c := by
  obtain ⟨hcreating, hclosing, habandoning⟩ := hguard
  rcases current_of_exec he hp with ⟨hold, hd⟩ | ⟨caller, req, hd, rfl, -⟩
  · have hcreated : ∀ req, d.creating = some req → req.client = c →
        h'.media.sessions.lookup c = some req.channelID →
        h'.media.sessions.lookup c = some p.channelID ∨
          Ejecting (cmds new + R) c := by
      rintro req hreq rfl hlook
      rcases hcreating req hreq with ⟨q, hq, hch⟩ | ⟨hnone, -⟩ | ⟨-, hej⟩
      · obtain rfl := Option.mem_unique hold hq
        exact .inl (hch ▸ hlook)
      · simp [hold] at hnone
      · exact .inr (hej.fire he hd)
    -- a join under way covers its client until it has made the session or is given up
    have hgoing : Connecting (d ::ₘ R) c → h'.media.sessions.lookup c = h.media.sessions.lookup c ∨
        d.abandoning = none → h'.media.sessions.lookup c = some p.channelID ∨
          Connecting (cmds new + R) c ∨
          Ejecting (cmds new + R) c := by
      intro hcon hsame
      rcases hcon.fire he with hcon | hej | ⟨req, rfl, hab | ⟨hcr, hlook⟩⟩
      · exact .inr (.inl hcon)
      · exact .inr (.inr hej)
      · rcases habandoning req hab p hold with hses | hej
        · rcases hsame with hsame | hnone
          · exact .inl (hsame.trans hses)
          · simp [hab] at hnone
        · exact .inr (.inr (hej.fire he hd))
      · exact (hcreated req hcr rfl hlook).imp_right .inr
    rcases session_of_exec he c with hsame | ⟨-, hclose | hcon | hej⟩ | ⟨req, hcr, hc, hlook⟩
    · rcases hinv.participants c p hold with hses | hcon | hej
      · exact .inl (hsame.trans hses)
      · exact hgoing hcon (.inl hsame)
      · exact .inr (.inr (hej.fire he hd))
    · -- the hub closes the session: the client is still in voice, so a new one is under way
      rcases hclosing c hclose with hnone | hcon | hej
      · simp [hold] at hnone
      · exact hgoing hcon (.inr (by rw [closing_iff.mp hclose]; rfl))
      · exact .inr (.inr (hej.fire he hd))
    · exact .inr (.inl hcon)
    · exact .inr (.inr hej)
    · exact (hcreated req hcr hc hlook).imp_right .inr
  · exact .inr (.inl (.of_run .reply (hinv.reply_mem he hd) (by simp)))

theorem Agree.sessions_fire
    (hguard : SessionTimely h (d ::ₘ R) d) (hinv : Agree h (d ::ₘ R)) {ch : Int}
    (hch : h'.media.sessions.lookup c = some ch) :
    (∃ p, h'.media.voice.current c = some p ∧ p.channelID = ch) ∨
    .media (.closeVoiceSession c) ∈ cmds new + R ∨
    (h'.media.voice.current c).isSome ∧ (Ejecting (cmds new + R) c ∨
      Reconnecting (cmds new + R) c) := by
  obtain ⟨hcreating, -, habandoning⟩ := hguard
  rcases session_of_exec (R := R) he c with hsame | ⟨hnone, -⟩ | ⟨req, hcr, rfl, hlook⟩
  · -- an old session: what covered it covers it still, or its client moves right now
    have hmoved : ∀ p, h.media.voice.current c = some p →
        h'.media.voice.current c = some p ∨
        .media (.closeVoiceSession c) ∈ cmds new + R ∨
        (h'.media.voice.current c).isSome ∧ Reconnecting (cmds new + R) c := by
      intro p hp
      rcases current_kept he hp with hp' | hnew | ⟨caller, req, hd, rfl⟩
      · exact .inl hp'
      · exact .inr (.inl (by simp [hnew]))
      · exact .inr (.inr ⟨isSome_current_of_join (hd ▸ he),
          .of_run .reply (hinv.reply_mem he hd) rfl⟩)
    rcases hinv.sessions c ch (hsame ▸ hch) with ⟨p, hp, hpc⟩ | hclose | ⟨hsome, hcover⟩
    · rcases hmoved p hp with hp' | hclose | ⟨hsome, hrec⟩
      · exact .inl ⟨p, hp', hpc⟩
      · exact .inr (.inl hclose)
      · exact .inr (.inr ⟨hsome, .inr hrec⟩)
    · rcases mem_cons.mp hclose with rfl | hR
      · -- the close itself: the session is gone
        obtain ⟨m', hm, rfl⟩ := exec_media he
        cases hm
        simp at hch
      · exact .inr (.inl (by simp [hR]))
    · obtain ⟨p, hp⟩ := Option.isSome_iff_exists.mp hsome
      rcases hmoved p hp with hp' | hclose | ⟨hsome', hrec⟩
      · have hsome' : (h'.media.voice.current c).isSome := by simp [hp']
        rcases hcover with hej | hrec
        · exact .inr (.inr ⟨hsome', .inl (hej.fire he (ne_voiceLeave_of_current he hp'))⟩)
        · rcases hrec.fire he with hrec | hnone | ⟨req, rfl, hab⟩
          · exact .inr (.inr ⟨hsome', .inr hrec⟩)
          · simp [hnone] at hch
          · rcases habandoning req hab p hp with hses | hej
            · rw [hsame, hses] at hch
              exact .inl ⟨p, hp', Option.some.inj hch⟩
            · exact .inr (.inr ⟨hsome', .inl (hej.fire he (ne_voiceLeave_of_current he hp'))⟩)
      · exact .inr (.inl hclose)
      · exact .inr (.inr ⟨hsome', .inr hrec⟩)
  · simp [hnone] at hch
  · -- a new session
    obtain rfl := Option.mem_unique hlook hch
    have hvoice := voice_of_creating he hcr
    rcases hcreating req hcr with ⟨p, hp, hpc⟩ | ⟨-, hclose⟩ | ⟨hsome, hej⟩
    · exact .inl ⟨p, hvoice ▸ hp, hpc⟩
    · rcases mem_cons.mp hclose with rfl | hR
      · simp [Cmd.creating] at hcr
      · exact .inr (.inl (by simp [hR]))
    · refine .inr (.inr ⟨hvoice ▸ hsome, .inl (hej.fire he ?_)⟩)
      rintro rfl
      simp [Cmd.creating] at hcr

end

end Steps

/-! ## Whole runs -/

theorem Agree.start {h : HubState} {S : Multiset Cmd} {op : Op} (hop : op.Handled)
    (hinv : Agree h S) : Agree h (cmds op.body + S) where
  handled stage req hmem := by
    rcases mem_pushed.mp hmem with hnew | hS
    · -- the hub's own `JoinVoiceWithDevice` is not among the operations
      cases op <;> simp [Op.body, Op.Handled] at hnew hop
    · exact hinv.handled stage req hS
  participants c p hp := by
    rcases hinv.participants c p hp with hses | ⟨b, hb, hcon⟩ | hej
    · exact .inl hses
    · exact .inr (.inl ⟨b, by simp [hb], hcon⟩)
    · exact .inr (.inr (hej.start))
  sessions c ch hch := by
    rcases hinv.sessions c ch hch with hin | hclose | ⟨hsome, hej | ⟨b, hb, hrec⟩⟩
    · exact .inl hin
    · exact .inr (.inl (by simp [hclose]))
    · exact .inr (.inr ⟨hsome, .inl (hej.start)⟩)
    · exact .inr (.inr ⟨hsome, .inr ⟨b, by simp [hb], hrec⟩⟩)

variable {servers : Client → Finset Int} {e2eeRequired : Int → Bool} {limits : ViewerLimits}
  {cfg : HubConfig}

theorem agree_of_reachable (hrun : hubMachine.Reachable Op.Handled SessionTimely
      (HubState.new servers e2eeRequired limits) cfg) : Agree cfg.state cfg.pending := by
  refine hrun.induction (P := Agree) ⟨by simp, by simp [HubState.new], by simp [HubState.new]⟩ ?_ ?_
  · exact fun h S op hop hinv => hinv.start hop
  · intro cfg i d x h' new rest R _ hf hguard hinv
    exact ⟨hinv.handled_fire hf.exec, fun c p hp => hinv.participants_fire hf.exec hguard hp,
      fun c ch hch => hinv.sessions_fire hf.exec hguard hch⟩

/-- **Signalling and media agree.** In every run whose sessions are created and closed in step with
the voice state, when no operation is in progress the connections with a media session, and their
channels, are those of the voice state. -/
theorem sessions_agree (hrun : hubMachine.Reachable Op.Handled SessionTimely
      (HubState.new servers e2eeRequired limits) cfg) (hquiet : cfg.Quiescent) (c : Client)
    (ch : Int) : cfg.state.media.sessions.lookup c = some ch ↔
      ∃ p, cfg.state.media.voice.current c = some p ∧ p.channelID = ch := by
  have hinv := agree_of_reachable hrun
  rw [hquiet.pending_eq_zero] at hinv
  constructor
  · intro hch
    rcases hinv.sessions c ch hch with hin | hclose | ⟨-, hej | ⟨b, hb, -⟩⟩
    · exact hin
    · exact absurd hclose (notMem_zero _)
    · exact absurd hej not_ejecting_zero
    · exact absurd hb (notMem_zero _)
  · rintro ⟨p, hp, rfl⟩
    rcases hinv.participants c p hp with hses | ⟨b, hb, -⟩ | hej
    · exact hses
    · exact absurd hb (notMem_zero _)
    · exact absurd hej not_ejecting_zero

/-! ## Two runs of one connection -/

namespace Sample

/-- The join enters the client and comes as far as the creation of the session. -/
def connecting : Schedule :=
  goroutine 1 5 here

/-- All of `ResetVoiceChannel`: the only participant is removed, and its session closed. -/
def resetChannel : Schedule :=
  .start (.resetVoiceChannel 5) :: goroutine 2 4 { here with clients := [client] }

def connected : Schedule :=
  goroutine 1 4 here

end Sample

open Sample in
/-- A connection that is in voice and has its session. -/
theorem sessions_agree_client :
    ∃ cfg, hubMachine.Reachable Op.Handled SessionTimely hub cfg ∧ cfg.Quiescent ∧
      cfg.state.media.sessions.lookup client = some 5 ∧
      ∃ p, cfg.state.media.voice.current client = some p ∧ p.channelID = 5 := by
  obtain ⟨cfg, hrun, hquiet, hses⟩ : ∃ cfg, hubMachine.Reachable Op.Handled SessionTimely hub cfg ∧
      cfg.Quiescent ∧ cfg.state.media.sessions.lookup client = some 5 :=
    Machine.exists_reachable_of_play (joining ++ connecting ++ connected) (by decide +kernel)
  exact ⟨cfg, hrun, hquiet, hses, (sessions_agree hrun hquiet client 5).mp hses⟩

open Sample in
/-- **The orphaned session.** The channel is reset while a join that is already in the voice state
waits for its peer connection; the session that it gets then stays, with nobody in voice. -/
theorem session_without_participant :
    ∃ cfg, hubMachine.Reachable Op.Handled (fun _ _ _ => True) hub cfg ∧ cfg.Quiescent ∧
      cfg.state.media.sessions.lookup client = some 5 ∧
      cfg.state.media.voice.current client = none :=
  Machine.exists_reachable_of_play (joining ++ connecting ++ resetChannel ++ connected)
    (by decide +kernel)

end Voxhold.Hub
