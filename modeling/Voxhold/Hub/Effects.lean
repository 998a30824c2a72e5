/-
# Voxhold.Hub.Effects — what one command can do

The inversions of `HubState.exec`: which commands change the clients, the voice state, the stream
state and the media sessions, how, and what they push then. Every invariant of the hub is a case
analysis over these and over `Follows`.
-/

import Voxhold.Hub.ControlFlow

namespace Voxhold.Hub

open Voxhold.Lib Finset Media VoiceState

variable {x : Choice} {c : Client} {d : Cmd} {h h' : HubState} {r r' : Registry} {m m' : Media}
  {new : List HubInstr}
  {s : Int} {p : VoiceParticipant} {S : Multiset Cmd}

/-! ## What a command does to the registry -/

/-- The registry fields that membership and presence are about. -/
structure SameMembers (r r' : Registry) : Prop where
  clients : r'.clients = r.clients
  done : r'.done = r.done
  servers : r'.servers = r.servers
  presence : r'.presence = r.presence

inductive RegistryChange (x : Choice) (r : Registry) :
    RegistryCmd → Registry → List HubInstr → Prop where
  | reads (cmd : RegistryCmd) (r' : Registry) (new : List HubInstr) (hcmd : cmd.Reads)
      (hsame : SameMembers r r') : RegistryChange x r cmd r' new
  | close (cmd : RegistryCmd) (c : Client) (new : List HubInstr) (hcmd : cmd.Reads) :
      RegistryChange x r cmd (r.closeClient c) new
  | index (c : Client) (ids : List Int) (hids : Lists ids (r.servers c)) (hreg : r.Registrable c) :
      RegistryChange x r (.index c) (r.indexClient c ids hids)
        [.run (.registry (.registerPresence c))]
  | count (c : Client) (ids : List Int) (hids : Lists ids (r.servers c)) (hc : c ∈ r.clients) :
      RegistryChange x r (.registerPresence c) (r.registerPresence c ids) []
  | countGone (c : Client) (hc : c ∉ r.clients) : RegistryChange x r (.registerPresence c) r []
  | detach (c : Client) (ids : List Int) (hids : Lists ids (r.servers c)) :
      RegistryChange x r (.detach c) (r.detach c ids hids)
        [.run (.media (.leaveVoice c)), .run (.registry (.unregisterPresence c))]
  | unregister (c : Client) (ids : List Int) (hids : Lists ids (r.servers c)) :
      RegistryChange x r (.unregisterPresence c) r
        (ids.map fun s => .run (.registry (.removeClientServer c s true)))
  | remove (c : Client) (s : Int) (announce : Bool) (hs : s ∈ r.servers c) :
      RegistryChange x r (.removeClientServer c s announce) (r.removeServer c s) []
  | removeAbsent (c : Client) (s : Int) (announce : Bool) (hs : s ∉ r.servers c) :
      RegistryChange x r (.removeClientServer c s announce) r []
  | addServer (c : Client) (s : Int) (hc : c ∈ r.clients) (hs : s ∉ r.servers c) :
      RegistryChange x r (.addServer c s) (r.addServer c s hc) [.run (.registry (.addUserLoad c))]
  | deletePresence (s : Int) :
      RegistryChange x r (.deletePresence s) (r.deletePresence s) []

theorem SameMembers.refl (r : Registry) : SameMembers r r := ⟨rfl, rfl, rfl, rfl⟩

theorem Registry.exec_change {cmd : RegistryCmd} (he : r.exec x cmd = some (r', new)) :
    RegistryChange x r cmd r' new := by
  cases Registry.exec_step he with
  | loadFailed c | close c => exact .close _ c _ trivial
  | index c hreg hids => exact .index c _ hids hreg
  | count c hc hids => exact .count c _ hids hc
  | countGone c hc => exact .countGone c hc
  | detach c hids => exact .detach c _ hids
  | unregister c hids => exact .unregister c _ hids
  | remove c s announce hs => exact .remove c s announce hs
  | removeAbsent c s announce hs => exact .removeAbsent c s announce hs
  | addServer c s hadd => exact .addServer c s hadd.1 hadd.2
  | deletePresence s => exact .deletePresence s
  | nothing _ hcmd => exact .reads _ _ _ hcmd (.refl r)
  -- the snapshots and the access policies: they look at membership and leave it
  | _ => exact .reads _ _ _ trivial ⟨rfl, rfl, rfl, rfl⟩

/-! ## The registered clients -/

theorem index_of_exec (he : h.exec x (.registry (.index c)) = some (h', new))
    (hreg : h.registry.Registrable c) :
    c ∈ h'.registry.clients ∧ new = [.run (.registry (.registerPresence c))] := by
  obtain ⟨r', hr, rfl⟩ := exec_registry he
  simp only [Registry.exec, if_pos hreg] at hr
  split at hr
  · cases hr
    exact ⟨mem_insert_self _ _, rfl⟩
  · cases hr

theorem not_mem_clients_of_detach (he : h.exec x (.registry (.detach c)) = some (h', new)) :
    c ∉ h'.registry.clients := by
  obtain ⟨r', hr, rfl⟩ := exec_registry he
  cases Registry.exec_change hr with
  | reads _ _ _ hcmd | close _ _ _ hcmd => exact absurd hcmd (by simp [RegistryCmd.Reads])
  | detach => exact notMem_erase c _

theorem not_mem_servers_of_remove {announce : Bool}
    (he : h.exec x (.registry (.removeClientServer c s announce)) = some (h', new)) :
    s ∉ h'.registry.servers c := by
  obtain ⟨r', hr, rfl⟩ := exec_registry he
  cases Registry.exec_change hr with
  | reads _ _ _ hcmd | close _ _ _ hcmd => exact absurd hcmd (by simp [RegistryCmd.Reads])
  | remove => simp [Registry.removeServer]
  | removeAbsent _ _ _ hs => exact hs

section

variable (he : h.exec x d = some (h', new))
include he

theorem clients_of_exec (hc : c ∈ h.registry.clients) : c ∈ h'.registry.clients ∨
      d = .registry (.detach c) ∧ .run (.media (.leaveVoice c)) ∈ new := by
  cases d with
  | media cmd =>
    obtain ⟨m', -, rfl⟩ := exec_media he
    exact .inl hc
  | registry cmd =>
    obtain ⟨r', hr, rfl⟩ := exec_registry he
    cases Registry.exec_change hr with
    | reads _ _ _ _ hsame => exact .inl (hsame.clients ▸ hc)
    | index => exact .inl (mem_insert_of_mem hc)
    | detach c' =>
      by_cases hcc : c = c'
      · subst hcc
        exact .inr ⟨rfl, by simp⟩
      · exact .inl (mem_erase.mpr ⟨hcc, hc⟩)
    | _ => exact .inl hc

theorem clients_from_exec (hc : c ∈ h'.registry.clients) :
    c ∈ h.registry.clients ∨ d = .registry (.index c) ∧ h.registry.Registrable c ∧
      new = [.run (.registry (.registerPresence c))] := by
  cases d with
  | media cmd =>
    obtain ⟨m', -, rfl⟩ := exec_media he
    exact .inl hc
  | registry cmd =>
    obtain ⟨r', hr, rfl⟩ := exec_registry he
    cases Registry.exec_change hr with
    | reads _ _ _ _ hsame => exact .inl (hsame.clients ▸ hc)
    | index c' _ _ hreg =>
      rcases mem_insert.mp hc with rfl | hc
      · exact .inr ⟨rfl, hreg, rfl⟩
      · exact .inl hc
    | detach => exact .inl (mem_of_mem_erase hc)
    | _ => exact .inl hc

theorem done_of_exec (hc : c ∈ h.registry.done) : c ∈ h'.registry.done := by
  cases d with
  | media cmd =>
    obtain ⟨m', -, rfl⟩ := exec_media he
    exact hc
  | registry cmd =>
    obtain ⟨r', hr, rfl⟩ := exec_registry he
    cases Registry.exec_change hr with
    | reads _ _ _ _ hsame => exact hsame.done ▸ hc
    | close => exact mem_insert_of_mem hc
    | _ => exact hc

theorem servers_from_exec (hs : s ∈ h'.registry.servers c) :
    s ∈ h.registry.servers c ∨ d = .registry (.addServer c s) := by
  cases d with
  | media cmd =>
    obtain ⟨m', -, rfl⟩ := exec_media he
    exact .inl hs
  | registry cmd =>
    obtain ⟨r', hr, rfl⟩ := exec_registry he
    cases Registry.exec_change hr with
    | reads _ _ _ _ hsame => exact .inl (hsame.servers ▸ hs)
    | addServer _ _ hc =>
      rcases (Registry.mem_servers_addServer _ hc).mp hs with ⟨rfl, rfl⟩ | hs
      · exact .inr rfl
      · exact .inl hs
    | remove => exact .inl ((Registry.mem_servers_removeServer _).mp hs).2
    | _ => exact .inl hs

theorem servers_of_exec (hs : s ∈ h.registry.servers c) :
    s ∈ h'.registry.servers c ∨ ∃ announce, d = .registry (.removeClientServer c s announce) := by
  cases d with
  | media cmd =>
    obtain ⟨m', -, rfl⟩ := exec_media he
    exact .inl hs
  | registry cmd =>
    obtain ⟨r', hr, rfl⟩ := exec_registry he
    cases Registry.exec_change hr with
    | reads _ _ _ _ hsame => exact .inl (hsame.servers ▸ hs)
    | addServer _ _ hc => exact .inl ((Registry.mem_servers_addServer _ hc).mpr (.inr hs))
    | remove c' s' announce =>
      by_cases hsame : c = c' ∧ s = s'
      · obtain ⟨rfl, rfl⟩ := hsame
        exact .inr ⟨announce, rfl⟩
      · exact .inl ((Registry.mem_servers_removeServer _).mpr ⟨hsame, hs⟩)
    | _ => exact .inl hs

end

theorem Registry.done_from_exec {cmd : RegistryCmd} (he : r.exec x cmd = some (r', new))
    (hc : c ∈ r'.done) : c ∈ r.done ∨ cmd = .load c ∨ cmd = .closeClient c := by
  cases Registry.exec_step he with
  | loadFailed =>
    rcases mem_insert.mp hc with rfl | hc
    · exact .inr (.inl rfl)
    · exact .inl hc
  | close =>
    rcases mem_insert.mp hc with rfl | hc
    · exact .inr (.inr rfl)
    · exact .inl hc
  | _ => exact .inl hc

/-! ## The parts of the media state -/

/-- The commands that change the voice state. Whoever leaves voice by them gets its media session
closed next. -/
inductive VoiceChange (x : Choice) (m : Media) : MediaCmd → VoiceState → List HubInstr → Prop where
  | leave (c : Client) : VoiceChange x m (.voiceLeave c) (m.voice.leave c)
      (if (m.voice.current c).isSome then [.run (.media (.closeVoiceSession c))] else [])
  | leaveServer (c : Client) (s : Int) :
      VoiceChange x m (.voiceLeaveServer c s) (m.voice.leaveServer c s)
        (if inServer (m.voice.current c) s then [.run (.media (.closeVoiceSession c))] else [])
  | removeServer (s : Int) (new : List HubInstr)
      (hnew : ∀ c ∈ x.clients, .run (.media (.closeVoiceSession c)) ∈ new) :
      VoiceChange x m (.removeServer s) (m.voice.removeServer x.clients) new
  | join (caller : Caller) (req : JoinRequest) :
      VoiceChange x m (.join .insert caller req) (m.voice.join req)
        (dismissReplaced (m.voice.replaced req) ++ joinAdmitted caller req)

inductive StreamChange (m : Media) : MediaCmd → StreamState → List HubInstr → Prop where
  | leaveStream (c : Client) : StreamChange m (.leaveStream c) (m.streams.leave c) []
  | leaveVoice (c : Client) : StreamChange m (.leaveVoice c) (m.streams.leave c)
      [.run (.media (.voiceLeave c))]
  | revoke (c : Client) (s : Int) : StreamChange m (.revokeStream c s) (m.streams.leave c)
      [.run (.media (.voiceLeaveServer c s))]
  | changeChannel (caller : Caller) (req : JoinRequest) :
      StreamChange m (.join .leaveStream caller req) (m.streams.leave req.client)
        [.run (.media (.join .insert caller req))]
  | enter (action : StreamAction) (req : StreamRequest) (streams : StreamState)
      (hentered : m.streams.Entered streams req) :
      StreamChange m (.stream .insert action req) streams
        [.run (.media (.stream .recheck action req))]
  | recheck (action : StreamAction) (req : StreamRequest)
      (hgone : inChannel (m.voice.current req.client) req.serverID req.channelID = false) :
      StreamChange m (.stream .recheck action req) (m.streams.leave req.client)
        [.release (.mediaTransition req.client.userID)]

inductive SessionChange (m : Media) :
    MediaCmd → (AList fun _ : Client => Int) → List HubInstr → Prop where
  | close (c : Client) : SessionChange m (.closeVoiceSession c) (m.sessions.erase c) []
  | leave (req : JoinRequest) : SessionChange m (.sfu .leave req) (m.sessions.erase req.client)
      [.run (.media (.sfu .reserve req))]
  | insert (req : JoinRequest) :
      SessionChange m (.sfu .insert req) (m.sessions.insert req.client req.channelID)
        [.run (.media (.sfu .synchronize req))]
  | fail (req : JoinRequest) : SessionChange m (.sfu .synchronize req) (m.sessions.erase req.client)
      (.run (.media (.leaveVoice req.client)) :: handlerReturns req.client)

/-- Everything a media command can do: it changes one part of the media state or none. -/
inductive MediaChange (x : Choice) (m : Media) : MediaCmd → Media → List HubInstr → Prop where
  | none (cmd : MediaCmd) (new : List HubInstr) : MediaChange x m cmd m new
  | voice {cmd : MediaCmd} {v : VoiceState} {new : List HubInstr} (hv : VoiceChange x m cmd v new) :
      MediaChange x m cmd { m with voice := v } new
  | streams {cmd : MediaCmd} {v : StreamState} {new : List HubInstr}
      (hv : StreamChange m cmd v new) : MediaChange x m cmd { m with streams := v } new
  | sessions {cmd : MediaCmd} {v : AList fun _ : Client => Int} {new : List HubInstr}
      (hv : SessionChange m cmd v new) : MediaChange x m cmd { m with sessions := v } new
  | policy (ch : Int) (required : Bool) : MediaChange x m (.setChannelPolicy ch required)
      { m with e2eeRequired := Function.update m.e2eeRequired ch required }
      [.run (.media (.resetVoiceChannel ch))]

theorem MediaChange.of_execSfu {stage : SfuStage} {req : JoinRequest}
    (he : m.execSfu x req stage = (m', new)) : MediaChange x m (.sfu stage req) m' new := by
  cases stage with
  | leave =>
    cases he
    exact .sessions (.leave req)
  | insert =>
    simp only [execSfu] at he
    split at he
    · cases he
      exact .sessions (.insert req)
    · cases he
      exact .none _ _
  | synchronize =>
    simp only [execSfu] at he
    split at he
    · cases he
      exact .none _ _
    · cases he
      exact .sessions (.fail req)
  | _ =>
    cases he
    exact .none _ _

theorem Media.enterStream_entered {action : StreamAction} {req : StreamRequest}
    {streams : StreamState} (hok : m.enterStream x req action = .ok streams) :
    m.streams.Entered streams req := by
  cases action with
  | start opts => exact StreamState.start_entered hok
  | watch opts => exact StreamState.watch_entered hok

theorem MediaChange.of_execStream {stage : StreamStage} {action : StreamAction}
    {req : StreamRequest} (he : m.execStream x r action req stage = (m', new)) :
    MediaChange x m (.stream stage action req) m' new := by
  cases stage with
  | insert =>
    simp only [execStream] at he
    split at he
    · cases he
      exact .none _ _
    · next streams hok =>
      cases he
      exact .streams (.enter action req streams (enterStream_entered hok))
  | recheck =>
    simp only [execStream] at he
    split at he
    · cases he
      exact .none _ _
    · next hgone =>
      cases he
      exact .streams (.recheck action req (by simpa using hgone))
  | _ =>
    cases he
    exact .none _ _

theorem Media.exec_change {cmd : MediaCmd} (he : m.exec x r cmd = some (m', new)) :
    MediaChange x m cmd m' new := by
  cases cmd with
  | leaveStream c =>
    cases he
    exact .streams (.leaveStream c)
  | leaveVoice c =>
    cases he
    exact .streams (.leaveVoice c)
  | revokeStream c s =>
    cases he
    exact .streams (.revoke c s)
  | voiceLeave c =>
    cases he
    exact .voice (.leave c)
  | voiceLeaveServer c s =>
    cases he
    exact .voice (.leaveServer c s)
  | removeServer s =>
    simp only [exec] at he
    split at he
    · cases he
      exact .voice (.removeServer s _ fun c hc => List.mem_flatMap.mpr ⟨c, hc, by simp⟩)
    · cases he
  | closeVoiceSession c =>
    cases he
    exact .sessions (.close c)
  | setChannelPolicy ch required =>
    simp only [exec] at he
    split at he
    · cases he
      exact .policy ch required
    · cases he
      exact .none _ _
  | join stage caller req =>
    cases stage with
    | leaveStream =>
      cases he
      exact .streams (.changeChannel caller req)
    | insert =>
      cases he
      exact .voice (.join caller req)
    | _ =>
      cases he
      exact .none _ _
  | sfu stage req => exact .of_execSfu (Option.some.inj he)
  | stream stage action req => exact .of_execStream (Option.some.inj he)
  | _ =>
    -- the remaining commands only read the media state
    simp only [exec] at he
    repeat' split at he
    all_goals first
      | (obtain ⟨rfl, -⟩ := Prod.mk.inj (Option.some.inj he); exact .none _ _)
      | simp at he

/-! ## Voice participants -/

section

variable (he : h.exec x d = some (h', new))
include he

theorem voice_of_exec (c : Client) :
    (h'.media.voice.current c = h.media.voice.current c ∧ d ≠ .media (.voiceLeave c)) ∨
    (h'.media.voice.current c = none ∧
      ((h.media.voice.current c).isSome → .run (.media (.closeVoiceSession c)) ∈ new) ∧
      (d = .media (.voiceLeave c) ∨
        (∃ s, d = .media (.voiceLeaveServer c s) ∧ inServer (h.media.voice.current c) s = true) ∨
        (∃ s, d = .media (.removeServer s)) ∨
        .run (.media (.leaveStream c)) ∈ new)) ∨
    (∃ caller req p, d = .media (.join .insert caller req) ∧ req.client = c ∧
      h'.media.voice.current c = some p ∧ p.serverID = req.serverID ∧ p.channelID = req.channelID ∧
      p.e2eeDeviceID = req.e2eeDeviceID) := by
  cases d with
  | registry cmd =>
    obtain ⟨r', -, rfl⟩ := exec_registry he
    exact .inl ⟨rfl, by simp⟩
  | media cmd =>
    by_cases hleave : cmd = .voiceLeave c
    · subst hleave
      obtain ⟨m', hm, rfl⟩ := exec_media he
      cases hm
      refine .inr (.inl ⟨by simp [current_leave], fun hin => ?_, .inl rfl⟩)
      simp [hin]
    · have hd : Cmd.media cmd ≠ .media (.voiceLeave c) := fun heq => hleave (Cmd.media.inj heq)
      obtain ⟨m', hm, rfl⟩ := exec_media he
      cases exec_change hm with
      | none | streams | sessions | policy => exact .inl ⟨rfl, hd⟩
      | voice hv =>
        cases hv with
        | leave c' =>
          have hc : c ≠ c' := fun heq => hleave (heq ▸ rfl)
          exact .inl ⟨by simp [current_leave, hc], hd⟩
        | leaveServer c' s =>
          by_cases hgone : c = c' ∧ inServer (h.media.voice.current c') s = true
          · obtain ⟨rfl, hin⟩ := hgone
            exact .inr (.inl ⟨current_leaveServer.trans (if_pos ⟨rfl, hin⟩),
              fun _ => by simp [hin], .inr (.inl ⟨s, rfl, hin⟩)⟩)
          · exact .inl ⟨current_leaveServer.trans (if_neg hgone), hd⟩
        | removeServer s _ hnew =>
          by_cases hc : c ∈ x.clients
          · exact .inr (.inl ⟨by simp [current_removeServer, hc], fun _ => hnew c hc,
              .inr (.inr (.inl ⟨s, rfl⟩))⟩)
          · exact .inl ⟨by simp [current_removeServer, hc], hd⟩
        | join caller req =>
          obtain ⟨p, hserver, hchannel, hdevice, hcur⟩ :=
            current_join h.media.voice req
          by_cases hc : c = req.client
          · exact .inr (.inr ⟨caller, req, p, rfl, hc.symm, by simp [hcur, hc], hserver, hchannel,
              hdevice⟩)
          · by_cases hrep : h.media.voice.replaced req = some c
            · exact .inr (.inl ⟨by simp [hcur, hc, hrep], fun _ => by simp [hrep, dismissReplaced],
                .inr (.inr (.inr (by simp [hrep, dismissReplaced])))⟩)
            · exact .inl ⟨by simp [hcur, hc, hrep], hd⟩

theorem current_of_exec (hp : h'.media.voice.current c = some p) :
    (h.media.voice.current c = some p ∧ d ≠ .media (.voiceLeave c)) ∨
    (∃ caller req, d = .media (.join .insert caller req) ∧ req.client = c ∧
      p.serverID = req.serverID ∧ p.channelID = req.channelID ∧
      p.e2eeDeviceID = req.e2eeDeviceID) := by
  rcases voice_of_exec he c with ⟨hsame, hd⟩ | ⟨hnone, -⟩ | ⟨caller, req, q, hd, hc, hq, hjoined⟩
  · exact .inl ⟨hsame ▸ hp, hd⟩
  · simp [hnone] at hp
  · obtain rfl := Option.mem_unique hp hq
    exact .inr ⟨caller, req, hd, hc, hjoined⟩

theorem current_kept (hp : h.media.voice.current c = some p) :
    h'.media.voice.current c = some p ∨ .run (.media (.closeVoiceSession c)) ∈ new ∨
      ∃ caller req, d = .media (.join .insert caller req) ∧ req.client = c := by
  rcases voice_of_exec he c with ⟨hsame, -⟩ | ⟨-, hclose, -⟩ | ⟨caller, req, -, hd, hc, -⟩
  · exact .inl (hsame.trans hp)
  · exact .inr (.inl (hclose (by simp [hp])))
  · exact .inr (.inr ⟨caller, req, hd, hc⟩)

theorem ne_voiceLeave_of_current
    (hp : h'.media.voice.current c = some p) : d ≠ .media (.voiceLeave c) := by
  rcases current_of_exec he hp with ⟨-, hd⟩ | ⟨caller, req, rfl, -⟩
  · exact hd
  · simp

end

theorem isSome_current_of_join {caller : Caller} {req : JoinRequest}
    (he : h.exec x (.media (.join .insert caller req)) = some (h', new)) :
    (h'.media.voice.current req.client).isSome := by
  obtain ⟨m', hm, rfl⟩ := exec_media he
  cases hm
  obtain ⟨p, -, -, -, hcur⟩ := current_join h.media.voice req
  simp [hcur]

/-! ## Streams -/

theorem stream_of_exec (he : h.exec x d = some (h', new)) {ref : StreamRef}
    (href : h'.media.streams.current c = some ref) :
    (h.media.streams.current c = some ref ∧ d ≠ .media (.leaveStream c) ∧
      d ≠ .media (.leaveVoice c)) ∨
    (∃ action req, d = .media (.stream .insert action req) ∧ req.client = c ∧
      new = [.run (.media (.stream .recheck action req))] ∧ ref.serverID = req.serverID ∧
      ref.channelID = req.channelID) := by
  have hleave : ∀ c', h'.media.streams = h.media.streams.leave c' →
      c ≠ c' ∧ h.media.streams.current c = some ref := by
    intro c' hst
    rw [hst] at href
    rcases StreamState.current_leave (v := h.media.streams) c' c with hnone | ⟨hne, hsame⟩
    · simp [hnone] at href
    · exact ⟨hne, hsame ▸ href⟩
  have hkept : h'.media.streams = h.media.streams → d ≠ .media (.leaveStream c) ∧
      d ≠ .media (.leaveVoice c) := by
    intro hst
    constructor
    all_goals
      rintro rfl
      obtain ⟨m', hm, rfl⟩ := exec_media he
      cases hm
      exact (hleave c rfl).1 rfl
  cases d with
  | registry cmd =>
    obtain ⟨r', -, rfl⟩ := exec_registry he
    exact .inl ⟨href, by simp, by simp⟩
  | media cmd =>
    obtain ⟨m', hm, rfl⟩ := exec_media he
    cases exec_change hm with
    | none | voice | sessions | policy => exact .inl ⟨href, hkept rfl⟩
    | streams hv =>
      cases hv with
      | leaveStream c' | leaveVoice c' =>
        obtain ⟨hne, hold⟩ := hleave c' rfl
        exact .inl ⟨hold, by simp [Ne.symm hne], by simp [Ne.symm hne]⟩
      | revoke c' s => exact .inl ⟨(hleave c' rfl).2, by simp, by simp⟩
      | changeChannel caller req
      | recheck action req => exact .inl ⟨(hleave req.client rfl).2, by simp, by simp⟩
      | enter action req _ hentered =>
        by_cases hc : c = req.client
        · subst hc
          obtain ⟨ref', href', hserver, hchannel⟩ := hentered.entered
          obtain rfl := Option.mem_unique href href'
          exact .inr ⟨action, req, rfl, rfl, rfl, hserver, hchannel⟩
        · exact .inl ⟨hentered.others c hc ▸ href, by simp, by simp⟩

theorem publisher_of_exec (he : h.exec x d = some (h', new))
    (hpub : h'.media.streams.isPublisher c) :
    (h.media.streams.isPublisher c ∧ h'.media.streams.current c = h.media.streams.current c) ∨
    (∃ opts req, d = .media (.stream .insert (.start opts) req) ∧ req.client = c ∧
      ∀ ref, h'.media.streams.current c = some ref → ref.serverID = req.serverID) := by
  cases d with
  | registry cmd =>
    obtain ⟨r', -, rfl⟩ := exec_registry he
    exact .inl ⟨hpub, rfl⟩
  | media cmd =>
    obtain ⟨m', hm, rfl⟩ := exec_media he
    cases exec_change hm with
    | none | voice | sessions | policy => exact .inl ⟨hpub, rfl⟩
    | streams hv =>
      cases hv with
      | leaveStream | leaveVoice | revoke | changeChannel | recheck =>
        exact .inl (StreamState.isPublisher_of_leave hpub)
      | enter action req streams hentered =>
        simp only [exec, execStream] at hm
        split at hm
        · obtain ⟨-, hnew⟩ := Prod.mk.inj (Option.some.inj hm)
          simp at hnew
        · next streams' hok =>
          obtain ⟨-, rfl, -⟩ := mk.inj (Prod.mk.inj (Option.some.inj hm)).1
          cases action with
          | start opts =>
            by_cases hc : c = req.client
            · refine .inr ⟨opts, req, rfl, hc.symm, fun ref href => ?_⟩
              obtain ⟨ref', href', hserver, -⟩ := hentered.entered
              rw [← hc] at href'
              obtain rfl := Option.mem_unique href href'
              exact hserver
            · exact .inl ⟨StreamState.isPublisher_of_start hok hpub hc, hentered.others c hc⟩
          | watch opts =>
            obtain ⟨hc, hold⟩ := StreamState.isPublisher_of_watch hok hpub
            exact .inl ⟨hold, hentered.others c hc⟩

/-! ## Ejections -/

/-- The commands after which a client leaves voice, from `Unregister` down to `voiceState.leave`. -/
def ejection (c : Client) : List Cmd :=
  [.registry (.closeClient c), .registry (.detach c), .media (.leaveVoice c),
    .media (.voiceLeave c)]

/-- Some goroutine is about to take the client out of voice. -/
def Ejecting (S : Multiset Cmd) (c : Client) : Prop :=
  ∃ b ∈ ejection c, b ∈ S
deriving Decidable

theorem Ejecting.mono {T : Multiset Cmd} (h : Ejecting S c) (hST : S ⊆ T) : Ejecting T c := by
  obtain ⟨b, hb, hS⟩ := h
  exact ⟨b, hb, hST hS⟩

theorem Ejecting.start {op : Op} (h : Ejecting S c) : Ejecting (cmds op.body + S) c :=
  h.mono (Multiset.subset_of_le (Multiset.le_add_left _ _))

theorem not_ejecting_zero : ¬Ejecting 0 c := by
  rintro ⟨b, -, hb⟩
  exact absurd hb (Multiset.notMem_zero b)

theorem Ejecting.of_leaveVoice (h : .run (.media (.leaveVoice c)) ∈ new) :
    Ejecting (cmds new + S) c :=
  ⟨.media (.leaveVoice c), by simp [ejection], by simp [h]⟩

theorem Ejecting.fire {R : Multiset Cmd} (he : h.exec x d = some (h', new))
    (hd : d ≠ .media (.voiceLeave c)) (hS : Ejecting (d ::ₘ R) c) : Ejecting (cmds new + R) c := by
  obtain ⟨b, hb, hmem⟩ := hS
  rcases Multiset.mem_cons.mp hmem with rfl | hR
  · simp only [ejection, List.mem_cons, List.not_mem_nil, or_false] at hb
    rcases hb with rfl | rfl | rfl | rfl
    · obtain ⟨r', hr, -⟩ := exec_registry he
      cases hr
      exact ⟨.registry (.detach c), by simp [ejection], by simp⟩
    · obtain ⟨r', hr, -⟩ := exec_registry he
      simp only [Registry.exec] at hr
      split at hr
      · cases hr
        exact Ejecting.of_leaveVoice (by simp)
      · cases hr
    · obtain ⟨m', hm, -⟩ := exec_media he
      cases hm
      exact ⟨.media (.voiceLeave c), by simp [ejection], by simp⟩
    · exact absurd rfl hd
  · exact ⟨b, hb, by simp [hR]⟩

end Voxhold.Hub
