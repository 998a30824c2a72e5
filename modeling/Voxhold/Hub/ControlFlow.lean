/-
# Voxhold.Hub.ControlFlow — which command follows which

`Follows h d b`: in the state `h`, the command `d` may have its goroutine run `b` afterwards. An
edge carries what the state has to satisfy for it. `follows_of_exec` says that the list is complete.
-/

import Voxhold.Hub.Operations

namespace Voxhold.Hub

variable {clients : List Client}

open Voxhold.Lib List Media

/-- The snapshots after which the policies of the clients found are reloaded. -/
def RegistryCmd.Reloads : RegistryCmd → Prop
  | .revokeUserSnapshot _ _ | .revokeServerSnapshot _ | .refreshSnapshot _ => True
  | _ => False

inductive Follows (h : HubState) : Cmd → Cmd → Prop where
  -- registering, unregistering, membership
  | index (c : Client) : Follows h (.registry (.load c)) (.registry (.index c))
  | registerPresence (c : Client) (hreg : h.registry.Registrable c) :
      Follows h (.registry (.index c)) (.registry (.registerPresence c))
  | detach (c : Client) : Follows h (.registry (.closeClient c)) (.registry (.detach c))
  | leaveVoice (c : Client) : Follows h (.registry (.detach c)) (.media (.leaveVoice c))
  | unregisterPresence (c : Client) :
      Follows h (.registry (.detach c)) (.registry (.unregisterPresence c))
  | unregisterServer (c : Client) (s : Int) (hs : s ∈ h.registry.servers c) :
      Follows h (.registry (.unregisterPresence c)) (.registry (.removeClientServer c s true))
  | addServer (u s : Int) (c : Client) :
      Follows h (.registry (.addUserSnapshot u s)) (.registry (.addServer c s))
  | addUserLoad (c : Client) (s : Int) :
      Follows h (.registry (.addServer c s)) (.registry (.addUserLoad c))
  | addUserFailed (c : Client) : Follows h (.registry (.addUserLoad c)) (.registry (.closeClient c))
  | reload (cmd : RegistryCmd) (c : Client) (ids : Option (Finset Int)) (hcmd : cmd.Reloads) :
      Follows h (.registry cmd) (.registry (.replaceChannelAccess c ids))
  | reloadFailed (cmd : RegistryCmd) (c : Client) (hcmd : cmd.Reloads) :
      Follows h (.registry cmd) (.registry (.closeClient c))
  | revokeVoice (u s : Int) (c : Client) :
      Follows h (.registry (.revokeUserSnapshot u s)) (.media (.revokeVoice c s))
  | revokeUser (u s : Int) (c : Client) (hc : c ∈ h.registry.clients) :
      Follows h (.registry (.revokeUserSnapshot u s)) (.registry (.removeClientServer c s false))
  | revokeServer (s : Int) (c : Client) (hc : c ∈ h.registry.clients) :
      Follows h (.registry (.revokeServerSnapshot s)) (.registry (.removeClientServer c s false))
  | deletePresence (s : Int) :
      Follows h (.registry (.revokeServerSnapshot s)) (.registry (.deletePresence s))
  | removeServer (s : Int) :
      Follows h (.registry (.revokeServerSnapshot s)) (.media (.removeServer s))
  | refreshVoice (s : Int) (c : Client) :
      Follows h (.registry (.refreshSnapshot s)) (.media (.refreshVoice c))
  | closeHub (c : Client) : Follows h (.registry .closeHub) (.registry (.closeClient c))
  -- leaving voice
  | voiceLeave (c : Client) : Follows h (.media (.leaveVoice c)) (.media (.voiceLeave c))
  | closeLeft (c : Client) : Follows h (.media (.voiceLeave c)) (.media (.closeVoiceSession c))
  | refreshed (c : Client) : Follows h (.media (.refreshVoice c)) (.media (.leaveVoice c))
  | revokeStream (c : Client) (s : Int) :
      Follows h (.media (.revokeVoice c s)) (.media (.revokeStream c s))
  | notInServer (c : Client) (s : Int) (hs : inServer (h.media.voice.current c) s = false) :
      Follows h (.media (.revokeVoice c s)) (.media (.voiceLeaveServer c s))
  | voiceLeaveServer (c : Client) (s : Int) :
      Follows h (.media (.revokeStream c s)) (.media (.voiceLeaveServer c s))
  | closeRevoked (c : Client) (s : Int) :
      Follows h (.media (.voiceLeaveServer c s)) (.media (.closeVoiceSession c))
  | stopStream (s ch : Int) :
      Follows h (.media (.removeServer s)) (.media (.stopStreamForChannel ch))
  | closeRemoved (s : Int) (c : Client) :
      Follows h (.media (.removeServer s)) (.media (.closeVoiceSession c))
  | stopPublisher (ch : Int) (c : Client) :
      Follows h (.media (.stopStreamForChannel ch)) (.media (.leaveStream c))
  | reset (ch : Int) (c : Client) :
      Follows h (.media (.resetVoiceChannel ch)) (.media (.leaveVoice c))
  | revalidateDevice (u : Int) (c : Client) :
      Follows h (.media (.revalidate u)) (.media (.revalidateDevice c))
  | revalidated (c : Client) : Follows h (.media (.revalidateDevice c)) (.media (.leaveVoice c))
  | policy (ch : Int) (required : Bool) :
      Follows h (.media (.setChannelPolicy ch required)) (.media (.resetVoiceChannel ch))
  -- joining
  | encryption (req : JoinRequest) :
      Follows h (.media (.request .channelAccess req)) (.media (.request .encryption req))
  | channelAccessAgain (req : JoinRequest)
      (hmode : h.media.e2eeRequired req.channelID = decide (req.e2eeDeviceID ≠ "")) :
      Follows h (.media (.request .encryption req)) (.media (.request .channelAccessAgain req))
  | device (req : JoinRequest) : Follows h (.media (.request .channelAccessAgain req))
      (.media (.join .device .handler req))
  | access (caller : Caller) (req : JoinRequest) :
      Follows h (.media (.join .device caller req)) (.media (.join .access caller req))
  | server (caller : Caller) (req : JoinRequest) :
      Follows h (.media (.join .access caller req)) (.media (.join .server caller req))
  | done (caller : Caller) (req : JoinRequest) :
      Follows h (.media (.join .server caller req)) (.media (.join .done caller req))
  | current (caller : Caller) (req : JoinRequest) :
      Follows h (.media (.join .done caller req)) (.media (.join .current caller req))
  | leaveStream (caller : Caller) (req : JoinRequest) :
      Follows h (.media (.join .current caller req)) (.media (.join .leaveStream caller req))
  | insertSame (caller : Caller) (req : JoinRequest)
      (hcur : h.media.voice.current req.client = none ∨
        inChannel (h.media.voice.current req.client) req.serverID req.channelID = true) :
      Follows h (.media (.join .current caller req)) (.media (.join .insert caller req))
  | insertAfter (caller : Caller) (req : JoinRequest) :
      Follows h (.media (.join .leaveStream caller req)) (.media (.join .insert caller req))
  | replacedStream (caller : Caller) (req : JoinRequest) (c : Client) :
      Follows h (.media (.join .insert caller req)) (.media (.leaveStream c))
  | replacedSession (caller : Caller) (req : JoinRequest) (c : Client) :
      Follows h (.media (.join .insert caller req)) (.media (.closeVoiceSession c))
  | reply (req : JoinRequest) :
      Follows h (.media (.join .insert .handler req)) (.media (.sfu .reply req))
  | sfu (stage next : SfuStage) (req : JoinRequest) :
      Follows h (.media (.sfu stage req)) (.media (.sfu next req))
  | sfuFailed (stage : SfuStage) (req : JoinRequest) :
      Follows h (.media (.sfu stage req)) (.media (.leaveVoice req.client))
  -- streams
  | voice (action : StreamAction) (req : StreamRequest) :
      Follows h (.media (.stream .access action req)) (.media (.stream .voice action req))
  | insert (action : StreamAction) (req : StreamRequest) :
      Follows h (.media (.stream .voice action req)) (.media (.stream .insert action req))
  | recheck (action : StreamAction) (req : StreamRequest) :
      Follows h (.media (.stream .insert action req)) (.media (.stream .recheck action req))

variable {x : Choice} {c : Client} {d b : Cmd} {h h' : HubState} {r : Registry} {m : Media}
  {new : List HubInstr}

theorem exec_registry {cmd : RegistryCmd} (he : h.exec x (.registry cmd) = some (h', new)) :
    ∃ r', h.registry.exec x cmd = some (r', new) ∧ h' = { h with registry := r' } := by
  obtain ⟨⟨r', new'⟩, hr, heq⟩ := Option.map_eq_some_iff.mp he
  cases heq
  exact ⟨r', hr, rfl⟩

theorem exec_media {cmd : MediaCmd} (he : h.exec x (.media cmd) = some (h', new)) :
    ∃ m', h.media.exec x h.registry cmd = some (m', new) ∧ h' = { h with media := m' } := by
  obtain ⟨⟨m', new'⟩, hm, heq⟩ := Option.map_eq_some_iff.mp he
  cases heq
  exact ⟨m', hm, rfl⟩

/-! ## Registry commands -/

/-- The commands that only read membership and presence. -/
def RegistryCmd.Reads : RegistryCmd → Prop
  | .registerPresence _ | .detach _ | .unregisterPresence _ | .removeClientServer _ _ _
  | .deletePresence _ => False
  | _ => True

/-- Everything a registry command can do: the branches of `Registry.exec`. -/
inductive Registry.Step (x : Choice) (r : Registry) : RegistryCmd → Registry → List HubInstr →
    Prop where
  | nothing (cmd : RegistryCmd) (hcmd : cmd.Reads) : Step x r cmd r []
  | loadFailed (c : Client) : Step x r (.load c) (r.closeClient c) []
  | load (c : Client) (ids : Option (Finset Int)) :
      Step x r (.load c) (r.replaceChannelAccess c ids) [.run (.registry (.index c))]
  | index (c : Client) (hreg : r.Registrable c) (hids : Lists x.serverIDs (r.servers c)) :
      Step x r (.index c) (r.indexClient c x.serverIDs hids)
        [.run (.registry (.registerPresence c))]
  | count (c : Client) (hc : c ∈ r.clients) (hids : Lists x.serverIDs (r.servers c)) :
      Step x r (.registerPresence c) (r.registerPresence c x.serverIDs) []
  | countGone (c : Client) (hc : c ∉ r.clients) : Step x r (.registerPresence c) r []
  | close (c : Client) : Step x r (.closeClient c) (r.closeClient c) [.run (.registry (.detach c))]
  | detach (c : Client) (hids : Lists x.serverIDs (r.servers c)) :
      Step x r (.detach c) (r.detach c x.serverIDs hids)
        [.run (.media (.leaveVoice c)), .run (.registry (.unregisterPresence c))]
  | unregister (c : Client) (hids : Lists x.serverIDs (r.servers c)) :
      Step x r (.unregisterPresence c) r
        (x.serverIDs.map fun s => .run (.registry (.removeClientServer c s true)))
  | remove (c : Client) (s : Int) (announce : Bool) (hs : s ∈ r.servers c) :
      Step x r (.removeClientServer c s announce) (r.removeServer c s) []
  | removeAbsent (c : Client) (s : Int) (announce : Bool) (hs : s ∉ r.servers c) :
      Step x r (.removeClientServer c s announce) r []
  | addUser (u s : Int) (hperm : x.clients.Perm (r.clientsByUser.keysAt u)) :
      Step x r (.addUserSnapshot u s) r (x.clients.map fun c => .run (.registry (.addServer c s)))
  | addServer (c : Client) (s : Int) (hadd : c ∈ r.clients ∧ s ∉ r.servers c) :
      Step x r (.addServer c s) (r.addServer c s hadd.1) [.run (.registry (.addUserLoad c))]
  | addUserFailed (c : Client) : Step x r (.addUserLoad c) r [.run (.registry (.closeClient c))]
  | addUserLoad (c : Client) (ids : Option (Finset Int)) :
      Step x r (.addUserLoad c) (r.replaceChannelAccess c ids) []
  | replace (c : Client) (ids : Option (Finset Int)) :
      Step x r (.replaceChannelAccess c ids) (r.replaceChannelAccess c ids) []
  | revokeUser (u s : Int) (hperm : x.clients.Perm (r.clientsByUser.keysAt u)) :
      Step x r (.revokeUserSnapshot u s) r
        (reloadChannelAccess x x.clients ++ eachClient x x.clients (revokeUserRound s))
  | revokeServer (s : Int) (hperm : x.clients.Perm (r.clientsByServer.keysAt s)) :
      Step x r (.revokeServerSnapshot s) r
        (reloadChannelAccess x x.clients ++ eachClient x x.clients (revokeServerRound s) ++
          [.run (.registry (.deletePresence s)), .run (.media (.removeServer s))])
  | deletePresence (s : Int) : Step x r (.deletePresence s) (r.deletePresence s) []
  | refresh (s : Int) (hperm : x.clients.Perm (r.clientsByServer.keysAt s)) :
      Step x r (.refreshSnapshot s) r
        (reloadChannelAccess x x.clients ++ eachClient x x.clients refreshRound)
  | closeHub (hclients : Lists x.clients r.clients) :
      Step x r .closeHub r.close (x.clients.map fun c => .run (.registry (.closeClient c)))

theorem Registry.exec_step {cmd : RegistryCmd} {r' : Registry}
    (he : r.exec x cmd = some (r', new)) : r.Step x cmd r' new := by
  cases cmd with
  | removeClientServer c s announce =>
    cases he
    split
    · next hs => exact .remove c s announce hs
    · next hs => exact .removeAbsent c s announce hs
  | _ =>
    simp only [Registry.exec] at he
    repeat' split at he
    all_goals cases he
    all_goals first
      | exact .nothing _ trivial
      | exact .countGone _ ‹_›
      | constructor <;> assumption

theorem mem_reloadChannelAccess {i : HubInstr} (hi : i ∈ reloadChannelAccess x clients) :
    ∃ c ids, i = .run (.registry (.replaceChannelAccess c ids)) := by
  obtain ⟨c, -, rfl⟩ := mem_map.mp hi
  exact ⟨c, _, rfl⟩

theorem mem_eachClient {i : HubInstr} {round : Client → List HubInstr}
    (hi : i ∈ eachClient x clients round) :
    ∃ c ∈ clients, i = .run (.registry (.closeClient c)) ∨ i ∈ round c := by
  obtain ⟨c, hc, hi⟩ := mem_flatMap.mp hi
  refine ⟨c, hc, ?_⟩
  split at hi
  · exact .inl (mem_singleton.mp hi)
  · exact .inr hi

theorem follows_of_snapshot {cmd : RegistryCmd} (hcmd : cmd.Reloads)
    {round : Client → List HubInstr}
    (hround : ∀ c ∈ clients, .run b ∈ round c → Follows h (.registry cmd) b)
    (hb : .run b ∈ reloadChannelAccess x clients ++ eachClient x clients round) :
    Follows h (.registry cmd) b := by
  rcases mem_append.mp hb with hb | hb
  · obtain ⟨c, ids, heq⟩ := mem_reloadChannelAccess hb
    cases heq
    exact .reload cmd c ids hcmd
  · obtain ⟨c, hc, heq | hi⟩ := mem_eachClient hb
    · cases heq
      exact .reloadFailed cmd c hcmd
    · exact hround c hc hi

theorem follows_of_registry {cmd : RegistryCmd} {r' : Registry}
    (he : h.registry.exec x cmd = some (r', new)) (hb : .run b ∈ new) :
    Follows h (.registry cmd) b := by
  cases Registry.exec_step he with
  | load c =>
    obtain rfl := run_inj hb
    exact .index c
  | index c hreg =>
    obtain rfl := run_inj hb
    exact .registerPresence c hreg
  | close c =>
    obtain rfl := run_inj hb
    exact .detach c
  | detach c =>
    rcases (by simpa using hb : b = .media (.leaveVoice c) ∨
      b = .registry (.unregisterPresence c)) with rfl | rfl
    · exact .leaveVoice c
    · exact .unregisterPresence c
  | unregister c hids =>
    obtain ⟨s, hs, heq⟩ := mem_map.mp hb
    cases heq
    exact .unregisterServer c s (hids.mem_iff.mp hs)
  | addUser u s =>
    obtain ⟨c, -, heq⟩ := mem_map.mp hb
    cases heq
    exact .addServer u s c
  | addServer c s =>
    obtain rfl := run_inj hb
    exact .addUserLoad c s
  | addUserFailed c =>
    obtain rfl := run_inj hb
    exact .addUserFailed c
  | revokeUser u s hperm =>
    refine follows_of_snapshot trivial (fun c hc hi => ?_) hb
    rcases (by simpa [revokeUserRound] using hi : b = .media (.revokeVoice c s) ∨
      b = .registry (.removeClientServer c s false)) with rfl | rfl
    · exact .revokeVoice u s c
    · exact .revokeUser u s c ((Registry.mem_clientsForUser _).mp (hperm.mem_iff.mp hc)).1
  | revokeServer s hperm =>
    rcases mem_append.mp hb with hb | hb
    · refine follows_of_snapshot trivial (fun c hc hi => ?_) hb
      obtain rfl : b = .registry (.removeClientServer c s false) := by
        simpa [revokeServerRound] using hi
      exact .revokeServer s c ((Registry.mem_clientsForServer _).mp (hperm.mem_iff.mp hc)).1
    · rcases (by simpa using hb : b = .registry (.deletePresence s) ∨
        b = .media (.removeServer s)) with rfl | rfl
      · exact .deletePresence s
      · exact .removeServer s
  | refresh s =>
    refine follows_of_snapshot trivial (fun c _ hi => ?_) hb
    obtain rfl : b = .media (.refreshVoice c) := by simpa [refreshRound] using hi
    exact .refreshVoice s c
  | closeHub =>
    obtain ⟨c, -, heq⟩ := mem_map.mp hb
    cases heq
    exact .closeHub c
  | _ => cases hb

/-! ## Media commands -/

theorem follows_of_request {stage : RequestStage} {req : JoinRequest}
    (hb : .run b ∈ h.media.execRequest x req stage) :
    Follows h (.media (.request stage req)) b := by
  cases stage with
  | channelAccess =>
    simp only [execRequest] at hb
    split at hb
    · obtain rfl : b = .media (.request .encryption req) := by simpa using hb
      exact .encryption req
    · simp at hb
  | encryption =>
    simp only [execRequest] at hb
    split at hb
    · next hok =>
      obtain rfl : b = .media (.request .channelAccessAgain req) := by simpa using hb
      exact .channelAccessAgain req hok.1
    · simp at hb
  | channelAccessAgain =>
    simp only [execRequest] at hb
    split at hb
    · obtain rfl : b = .media (.join .device .handler req) := by simpa using hb
      exact .device req
    · simp [handlerReturns] at hb

theorem run_not_mem_joinRefused {caller : Caller} : (.run b : HubInstr) ∉ joinRefused caller c := by
  cases caller <;> simp [joinRefused, handlerReturns]

theorem follows_of_join {stage : JoinStage} {caller : Caller} {req : JoinRequest}
    (hb : .run b ∈ (h.media.execJoin x h.registry caller req stage).2) :
    Follows h (.media (.join stage caller req)) b := by
  cases stage with
  | insert =>
    rcases mem_append.mp hb with hb | hb
    · cases hrep : h.media.voice.replaced req with
      | none => simp [hrep, dismissReplaced] at hb
      | some c =>
        rcases (by simpa [hrep, dismissReplaced] using hb : b = .media (.leaveStream c) ∨
          b = .media (.closeVoiceSession c)) with rfl | rfl
        · exact .replacedStream caller req c
        · exact .replacedSession caller req c
    · cases caller with
      | hub => simp [joinAdmitted] at hb
      | handler =>
        obtain rfl : b = .media (.sfu .reply req) := by simpa [joinAdmitted] using hb
        exact .reply req
  | leaveStream =>
    obtain rfl := run_inj hb
    exact .insertAfter caller req
  | current =>
    simp only [execJoin] at hb
    split at hb
    · obtain rfl := run_inj hb
      exact .leaveStream caller req
    · next hcur =>
      obtain rfl := run_inj hb
      refine .insertSame caller req ?_
      cases hc : h.media.voice.current req.client with
      | none => exact .inl rfl
      | some p => exact .inr (by simpa [hc] using hcur)
  | device =>
    simp only [execJoin] at hb
    split at hb
    · obtain rfl := run_inj hb
      exact .access caller req
    · exact absurd hb run_not_mem_joinRefused
  | access =>
    simp only [execJoin] at hb
    split at hb
    · obtain rfl := run_inj hb
      exact .server caller req
    · exact absurd hb run_not_mem_joinRefused
  | server =>
    simp only [execJoin] at hb
    split at hb
    · obtain rfl := run_inj hb
      exact .done caller req
    · exact absurd hb run_not_mem_joinRefused
  | done =>
    simp only [execJoin] at hb
    split at hb
    · exact absurd hb run_not_mem_joinRefused
    · obtain rfl := run_inj hb
      exact .current caller req

theorem follows_of_sfu {stage : SfuStage} {req : JoinRequest}
    (hb : .run b ∈ (h.media.execSfu x req stage).2) : Follows h (.media (.sfu stage req)) b := by
  cases stage with
  | unanswered => simp [execSfu, handlerReturns] at hb
  | leave =>
    obtain rfl := run_inj hb
    exact .sfu .leave .reserve req
  | synchronize =>
    simp only [execSfu] at hb
    split at hb
    · simp [handlerReturns] at hb
    · obtain rfl : b = .media (.leaveVoice req.client) := by simpa [handlerReturns] using hb
      exact .sfuFailed .synchronize req
  | reply =>
    simp only [execSfu] at hb
    split at hb
    all_goals
      obtain rfl := run_inj hb
      exact .sfu .reply _ req
  | reserve | insert =>
    simp only [execSfu] at hb
    split at hb
    · obtain rfl := run_inj hb
      exact .sfu _ _ req
    · obtain rfl : b = .media (.leaveVoice req.client) := by simpa [handlerReturns] using hb
      exact .sfuFailed _ req

theorem follows_of_stream {stage : StreamStage} {action : StreamAction} {req : StreamRequest}
    (hb : .run b ∈ (h.media.execStream x h.registry action req stage).2) :
    Follows h (.media (.stream stage action req)) b := by
  cases stage with
  | access =>
    simp only [execStream] at hb
    split at hb
    · obtain rfl := run_inj hb
      exact .voice action req
    · simp at hb
  | voice =>
    simp only [execStream] at hb
    split at hb
    · obtain rfl := run_inj hb
      exact .insert action req
    · simp at hb
  | insert =>
    simp only [execStream] at hb
    split at hb
    · simp at hb
    · obtain rfl := run_inj hb
      exact .recheck action req
  | recheck => simp [execStream] at hb

theorem follows_of_media {cmd : MediaCmd} {m' : Media}
    (he : h.media.exec x h.registry cmd = some (m', new)) (hb : .run b ∈ new) :
    Follows h (.media cmd) b := by
  cases cmd with
  | request stage req =>
    cases he
    exact follows_of_request hb
  | join stage caller req =>
    obtain rfl : (h.media.execJoin x h.registry caller req stage).2 = new := by
      rw [Option.some.inj he]
    exact follows_of_join hb
  | sfu stage req =>
    obtain rfl : (h.media.execSfu x req stage).2 = new := by rw [Option.some.inj he]
    exact follows_of_sfu hb
  | stream stage action req =>
    obtain rfl : (h.media.execStream x h.registry action req stage).2 = new := by
      rw [Option.some.inj he]
    exact follows_of_stream hb
  | leaveVoice c =>
    cases he
    obtain rfl := run_inj hb
    exact .voiceLeave c
  | voiceLeave c =>
    cases he
    obtain ⟨-, rfl⟩ : _ ∧ b = .media (.closeVoiceSession c) := by simpa using hb
    exact .closeLeft c
  | refreshVoice c =>
    cases he
    obtain ⟨-, rfl⟩ : _ ∧ b = .media (.leaveVoice c) := by simpa using hb
    exact .refreshed c
  | revokeVoice c s =>
    cases he
    split at hb
    · obtain rfl := run_inj hb
      exact .revokeStream c s
    · next hs =>
      obtain rfl := run_inj hb
      exact .notInServer c s (by simpa using hs)
  | revokeStream c s =>
    cases he
    obtain rfl := run_inj hb
    exact .voiceLeaveServer c s
  | voiceLeaveServer c s =>
    cases he
    obtain ⟨-, rfl⟩ : _ ∧ b = .media (.closeVoiceSession c) := by simpa using hb
    exact .closeRevoked c s
  | removeServer s =>
    simp only [exec] at he
    split at he
    · cases he
      obtain ⟨c, -, hi⟩ := mem_flatMap.mp hb
      simp only [mem_cons, Instr.run.injEq, not_mem_nil, or_false] at hi
      rcases hi with rfl | rfl
      · exact .stopStream s _
      · exact .closeRemoved s c
    · cases he
  | stopStreamForChannel ch =>
    simp only [exec] at he
    split at he
    · cases he
      obtain ⟨c, -, heq⟩ := mem_map.mp hb
      cases heq
      exact .stopPublisher ch c
    · cases he
  | resetVoiceChannel ch =>
    simp only [exec] at he
    split at he
    · cases he
      obtain ⟨c, -, heq⟩ := mem_map.mp hb
      cases heq
      exact .reset ch c
    · cases he
  | revalidate u =>
    cases he
    split at hb
    · simp at hb
    · obtain rfl := run_inj hb
      exact .revalidateDevice u _
  | revalidateDevice c =>
    cases he
    split at hb
    · obtain rfl := run_inj hb
      exact .revalidated c
    · simp at hb
  | setChannelPolicy ch required =>
    simp only [exec] at he
    split at he
    all_goals cases he
    · obtain rfl := run_inj hb
      exact .policy ch required
    · simp at hb
  | leaveStream | closeVoiceSession =>
    cases he
    simp at hb

theorem follows_of_exec (he : h.exec x d = some (h', new)) (hb : .run b ∈ new) : Follows h d b := by
  cases d with
  | registry cmd =>
    obtain ⟨r', hr, -⟩ := exec_registry he
    exact follows_of_registry hr hb
  | media cmd =>
    obtain ⟨m', hm, -⟩ := exec_media he
    exact follows_of_media hm hb

/-! ## Where operations start -/

def Cmd.Starts : Cmd → Prop
  | .registry (.load _) | .registry (.closeClient _) | .registry (.addUserSnapshot _ _)
  | .registry (.revokeUserSnapshot _ _) | .registry (.revokeServerSnapshot _)
  | .registry (.refreshSnapshot _) | .registry .closeHub => True
  | .media (.join .device .hub _) | .media (.request .channelAccess _) | .media (.leaveVoice _)
  | .media (.leaveStream _) | .media (.resetVoiceChannel _) | .media (.revalidate _)
  | .media (.setChannelPolicy _ _) | .media (.stream .access _ _) => True
  | _ => False

theorem Op.starts {op : Op} (hb : .run b ∈ op.body) : b.Starts := by
  cases op <;> simp [Op.body] at hb <;> subst hb <;> trivial

/-- The commands with which the hub is called: the first one of an operation, or of
`leaveVoiceForServer`. -/
def Cmd.Callable (b : Cmd) : Prop :=
  b.Starts ∨ ∃ c s, b = .media (.revokeVoice c s)

theorem Op.callable {op : Op} (hb : b ∈ (cmds op.body : Multiset Cmd)) : b.Callable :=
  .inl (Op.starts (mem_cmds.mp (Multiset.mem_coe.mp hb)))

theorem mem_of_called {S T : Multiset Cmd} (hT : ∀ b ∈ T, b.Callable) (hmem : b ∈ T + S)
    (hb : ¬b.Callable) : b ∈ S :=
  (Multiset.mem_add.mp hmem).resolve_left fun hnew => hb (hT b hnew)

end Voxhold.Hub
