/-
# Voxhold.Hub.Operations — the hub's operations as goroutines over one shared state

The operations of `realtime.Hub`, the handler's `joinVoice` and `voice.Manager.Join`, cut into
ATOMIC commands: a critical section of a small mutex, a statement, or a read of one field. The locks
held across them are machine locks: `channelAccessMu`, `mediaTransitions` and `voiceJoins`.
-/

import Voxhold.Hub.StreamState
import Voxhold.Hub.VoiceState
import Voxhold.Lib.LockDiscipline

namespace Voxhold.Hub

open Voxhold.Lib

/-! ## Locks, commands, operations -/

/-- The locks held across commands; the last two are one per account. -/
inductive Lock where
  | channelAccess
  | mediaTransition (userID : Int)
  | voiceJoin (userID : Int)
deriving DecidableEq, Repr

/-- Who called `JoinVoiceWithDevice`: another part of the hub's API, or the handler's `joinVoice`.
-/
inductive Caller where
  | hub
  | handler
deriving DecidableEq, Repr

/-- The checks of the handler's `joinVoice` before it calls the hub. -/
inductive RequestStage where
  | channelAccess
  | encryption
  | channelAccessAgain
deriving DecidableEq, Repr

/-- The steps of `JoinVoiceWithDevice`, under the lock of the account. -/
inductive JoinStage where
  | device
  | access
  | server
  | done
  | current
  | leaveStream
  | insert
deriving DecidableEq, Repr

/-- The steps of the handler's `joinVoice` after the hub has admitted the client: the reply, then
`voice.Manager.Join`. -/
inductive SfuStage where
  | reply
  | unanswered
  | leave
  | reserve
  | insert
  | synchronize
deriving DecidableEq, Repr

/-- The steps of starting or watching a stream. -/
inductive StreamStage where
  | access
  | voice
  | insert
  | recheck
deriving DecidableEq, Repr

inductive StreamAction where
  | start (opts : StartOptions)
  | watch (opts : WatchOptions)
deriving DecidableEq, Repr

/-- Commands on the registered clients, their servers and policies. -/
inductive RegistryCmd where
  | load (c : Client)
  | index (c : Client)
  | registerPresence (c : Client)
  | closeClient (c : Client)
  | detach (c : Client)
  | unregisterPresence (c : Client)
  | removeClientServer (c : Client) (serverID : Int) (announce : Bool)
  | addUserSnapshot (userID serverID : Int)
  | addServer (c : Client) (serverID : Int)
  | addUserLoad (c : Client)
  | replaceChannelAccess (c : Client) (ids : Option (Finset Int))
  | revokeUserSnapshot (userID serverID : Int)
  | revokeServerSnapshot (serverID : Int)
  | deletePresence (serverID : Int)
  | refreshSnapshot (serverID : Int)
  | closeHub
deriving DecidableEq

/-- Commands on voice, streams and the sessions of the SFU. -/
inductive MediaCmd where
  | leaveStream (c : Client)
  | leaveVoice (c : Client)
  | voiceLeave (c : Client)
  | refreshVoice (c : Client)
  | revokeVoice (c : Client) (serverID : Int)
  | revokeStream (c : Client) (serverID : Int)
  | voiceLeaveServer (c : Client) (serverID : Int)
  | removeServer (serverID : Int)
  | stopStreamForChannel (channelID : Int)
  | closeVoiceSession (c : Client)
  | resetVoiceChannel (channelID : Int)
  | revalidate (userID : Int)
  | revalidateDevice (c : Client)
  | setChannelPolicy (channelID : Int) (required : Bool)
  | request (stage : RequestStage) (req : JoinRequest)
  | join (stage : JoinStage) (caller : Caller) (req : JoinRequest)
  | sfu (stage : SfuStage) (req : JoinRequest)
  | stream (stage : StreamStage) (action : StreamAction) (req : StreamRequest)
deriving DecidableEq

inductive Cmd where
  | registry (cmd : RegistryCmd)
  | media (cmd : MediaCmd)
deriving DecidableEq

/-- What a goroutine is started for. -/
inductive Op where
  | register (c : Client)
  | unregister (c : Client)
  | addUserToServer (userID serverID : Int)
  | revokeUserFromServer (userID serverID : Int)
  | revokeServer (serverID : Int)
  | refreshChannelAccess (serverID : Int)
  | close
  | joinVoiceWithDevice (req : JoinRequest)
  | joinVoice (req : JoinRequest)
  | leaveVoice (c : Client)
  | leaveStream (c : Client)
  | resetVoiceChannel (channelID : Int)
  | revalidateVoiceE2EE (userID : Int)
  | setChannelPolicy (channelID : Int) (required : Bool)
  | stream (action : StreamAction) (req : StreamRequest)

abbrev HubInstr := Instr Lock Cmd

/-- What a loader of channel permissions answers; without a loader the policy is nil. -/
inductive AccessLoad where
  | failed
  | loaded (ids : Option (Finset Int))

/-- Everything the code does not determine: whether a fallible step (a query, an enqueue, a WebRTC
call, a validation of the request) succeeds, what the loader answers for each account, the order in
which a map iteration meets the keys, a client's stream capability, the clock. -/
structure Choice where
  ok : Bool := true
  load : Int → AccessLoad := fun _ => .loaded none
  serverIDs : List Int := []
  clients : List Client := []
  supportsMultipleStreams : Bool := true
  nowMS : Int := 0

/-- Voice and stream state, the sessions of `voice.Manager` (the channel of each connection that has
one), the stored encryption policies and the viewer limits. -/
structure Media where
  voice : VoiceState
  streams : StreamState
  sessions : AList fun _ : Client => Int
  e2eeRequired : Int → Bool
  limits : ViewerLimits

structure HubState where
  registry : Registry
  media : Media

/-! ## Registry commands -/

/-- `reloadChannelAccess`: every client gets its account's policy, an empty one if loading failed.
-/
def reloadChannelAccess (x : Choice) (clients : List Client) : List HubInstr :=
  clients.map fun c => .run (.registry (.replaceChannelAccess c
    (match x.load c.userID with
    | .failed => some ∅
    | .loaded ids => ids)))

def Choice.failed (x : Choice) (c : Client) : Bool :=
  match x.load c.userID with
  | .failed => true
  | .loaded _ => false

/-- A loop over clients that unregisters those whose policy could not be loaded. -/
def eachClient (x : Choice) (clients : List Client) (round : Client → List HubInstr) :
    List HubInstr :=
  clients.flatMap fun c => if x.failed c then [.run (.registry (.closeClient c))] else round c

/-- What the revoke loops do for one client. -/
def revokeUserRound (serverID : Int) (c : Client) : List HubInstr :=
  [.acquire (.mediaTransition c.userID) .exclusive, .run (.media (.revokeVoice c serverID)),
    .release (.mediaTransition c.userID), .run (.registry (.removeClientServer c serverID false))]

def revokeServerRound (serverID : Int) (c : Client) : List HubInstr :=
  [.run (.registry (.removeClientServer c serverID false))]

def refreshRound (c : Client) : List HubInstr :=
  [.acquire (.mediaTransition c.userID) .exclusive, .run (.media (.refreshVoice c)),
    .release (.mediaTransition c.userID)]

/-- A command may push the instructions that come next; `none` is a choice that does not fit. -/
def Registry.exec (x : Choice) (r : Registry) : RegistryCmd → Option (Registry × List HubInstr)
  | .load c =>
    match x.load c.userID with
    | .failed => some (r.closeClient c, [])
    | .loaded ids => some (r.replaceChannelAccess c ids, [.run (.registry (.index c))])
  | .index c =>
    if r.Registrable c then
      if h : Lists x.serverIDs (r.servers c) then
        some (r.indexClient c x.serverIDs h, [.run (.registry (.registerPresence c))])
      else none
    else some (r, [])
  | .registerPresence c =>
    if c ∈ r.clients then
      if Lists x.serverIDs (r.servers c) then some (r.registerPresence c x.serverIDs, []) else none
    else some (r, [])
  | .closeClient c => some (r.closeClient c, [.run (.registry (.detach c))])
  | .detach c =>
    if h : Lists x.serverIDs (r.servers c) then
      some (r.detach c x.serverIDs h,
        [.run (.media (.leaveVoice c)), .run (.registry (.unregisterPresence c))])
    else none
  | .unregisterPresence c =>
    if Lists x.serverIDs (r.servers c) then
      some (r, x.serverIDs.map fun s => .run (.registry (.removeClientServer c s true)))
    else none
  | .removeClientServer c s _ => some (if s ∈ r.servers c then r.removeServer c s else r, [])
  | .addUserSnapshot u s =>
    if u ≤ 0 ∨ s ≤ 0 then some (r, [])
    else if x.clients.Perm (r.clientsByUser.keysAt u) then
      some (r, x.clients.map fun c => .run (.registry (.addServer c s)))
    else none
  | .addServer c s =>
    if h : c ∈ r.clients ∧ s ∉ r.servers c then
      some (r.addServer c s h.1, [.run (.registry (.addUserLoad c))])
    else some (r, [])
  | .addUserLoad c =>
    match x.load c.userID with
    | .failed => some (r, [.run (.registry (.closeClient c))])
    | .loaded ids => some (r.replaceChannelAccess c ids, [])
  | .replaceChannelAccess c ids => some (r.replaceChannelAccess c ids, [])
  | .revokeUserSnapshot u s =>
    if u ≤ 0 ∨ s ≤ 0 then some (r, [])
    else if x.clients.Perm (r.clientsByUser.keysAt u) then
      some (r, reloadChannelAccess x x.clients ++ eachClient x x.clients (revokeUserRound s))
    else none
  | .revokeServerSnapshot s =>
    if s ≤ 0 then some (r, [])
    else if x.clients.Perm (r.clientsByServer.keysAt s) then
      some (r, reloadChannelAccess x x.clients ++ eachClient x x.clients (revokeServerRound s) ++
        [.run (.registry (.deletePresence s)), .run (.media (.removeServer s))])
    else none
  | .deletePresence s => some (r.deletePresence s, [])
  | .refreshSnapshot s =>
    if x.clients.Perm (r.clientsByServer.keysAt s) then
      some (r, reloadChannelAccess x x.clients ++ eachClient x x.clients refreshRound)
    else none
  | .closeHub =>
    if Lists x.clients r.clients then
      some (r.close, x.clients.map fun c => .run (.registry (.closeClient c)))
    else none

/-! ## Media commands -/

/-- Returning from the handler's `joinVoice`: its two locks are released. -/
def handlerReturns (c : Client) : List HubInstr :=
  [.release (.voiceJoin c.userID), .release .channelAccess]

/-- A join that fails returns to its caller, which releases its own locks. -/
def joinRefused (caller : Caller) (c : Client) : List HubInstr :=
  .release (.mediaTransition c.userID) ::
    match caller with
    | .hub => []
    | .handler => handlerReturns c

/-- A join that succeeds: the handler goes on to the SFU. -/
def joinAdmitted (caller : Caller) (req : JoinRequest) : List HubInstr :=
  .release (.mediaTransition req.client.userID) ::
    match caller with
    | .hub => []
    | .handler => [.run (.media (.sfu .reply req))]

/-- What is left to do for the connection a join has replaced. -/
def dismissReplaced : Option Client → List HubInstr
  | none => []
  | some d => [.run (.media (.leaveStream d)), .run (.media (.closeVoiceSession d))]

def inChannel (current : Option VoiceParticipant) (serverID channelID : Int) : Bool :=
  current.any fun p => p.serverID = serverID ∧ p.channelID = channelID

def inServer (current : Option VoiceParticipant) (serverID : Int) : Bool :=
  current.any fun p => p.serverID = serverID

/-- The handler's checks. `checkVoiceEncryption` admits exactly the joins of the channel's mode,
those with a device only if the device is active. -/
def Media.execRequest (x : Choice) (m : Media) (req : JoinRequest) : RequestStage → List HubInstr
  | .channelAccess =>
    if x.ok ∧ 0 < req.serverID ∧ 0 < req.channelID then [.run (.media (.request .encryption req))]
    else [.release .channelAccess]
  | .encryption =>
    if m.e2eeRequired req.channelID = decide (req.e2eeDeviceID ≠ "") ∧ x.ok then
      [.acquire (.voiceJoin req.client.userID) .exclusive,
        .run (.media (.request .channelAccessAgain req))]
    else [.release .channelAccess]
  | .channelAccessAgain =>
    if x.ok then
      [.acquire (.mediaTransition req.client.userID) .exclusive,
        .run (.media (.join .device .handler req))]
    else handlerReturns req.client

/-- `JoinVoiceWithDevice`, under the account's media transition lock. -/
def Media.execJoin (x : Choice) (r : Registry) (m : Media) (caller : Caller) (req : JoinRequest) :
    JoinStage → Media × List HubInstr
  | .device =>
    (m, if req.e2eeDeviceID = "" ∨ x.ok then [.run (.media (.join .access caller req))]
      else joinRefused caller req.client)
  | .access =>
    (m, if r.canAccessChannel req.client req.channelID then
        [.run (.media (.join .server caller req))]
      else joinRefused caller req.client)
  | .server =>
    (m, if 0 < req.serverID ∧ 0 < req.channelID ∧ req.serverID ∈ r.servers req.client then
        [.run (.media (.join .done caller req))]
      else joinRefused caller req.client)
  | .done =>
    (m, if req.client ∈ r.done then joinRefused caller req.client
      else [.run (.media (.join .current caller req))])
  | .current =>
    (m, if (m.voice.current req.client).isSome ∧
          ¬inChannel (m.voice.current req.client) req.serverID req.channelID then
        [.run (.media (.join .leaveStream caller req))]
      else [.run (.media (.join .insert caller req))])
  | .leaveStream =>
    ({ m with streams := m.streams.leave req.client }, [.run (.media (.join .insert caller req))])
  | .insert =>
    ({ m with voice := m.voice.join req },
      dismissReplaced (m.voice.replaced req) ++ joinAdmitted caller req)

/-- The reply of the handler's `joinVoice` and `voice.Manager.Join`. A reply that cannot be queued
ends the request at once; a failing `Join` leaves no session and takes the client out of voice
again. -/
def Media.execSfu (x : Choice) (m : Media) (req : JoinRequest) : SfuStage → Media × List HubInstr
  | .reply => (m, if x.ok then [.run (.media (.sfu .leave req))]
      else [.run (.media (.sfu .unanswered req))])
  | .unanswered => (m, handlerReturns req.client)
  | .leave =>
    ({ m with sessions := m.sessions.erase req.client }, [.run (.media (.sfu .reserve req))])
  | .reserve => (m, if x.ok then [.run (.media (.sfu .insert req))]
      else .run (.media (.leaveVoice req.client)) :: handlerReturns req.client)
  | .insert =>
    if x.ok then
      ({ m with sessions := m.sessions.insert req.client req.channelID },
        [.run (.media (.sfu .synchronize req))])
    else (m, .run (.media (.leaveVoice req.client)) :: handlerReturns req.client)
  | .synchronize =>
    if x.ok then (m, handlerReturns req.client)
    else ({ m with sessions := m.sessions.erase req.client },
      .run (.media (.leaveVoice req.client)) :: handlerReturns req.client)

/-- `streamState.start` or `streamState.watch`. -/
def Media.enterStream (x : Choice) (m : Media) (req : StreamRequest) :
    StreamAction → Except StreamError StreamState
  | .start opts => m.streams.start req opts x.supportsMultipleStreams x.nowMS
  | .watch opts => m.streams.watch req opts m.limits

/-- Starting and watching a stream, under the account's media transition lock: check voice, enter,
check voice again. -/
def Media.execStream (x : Choice) (r : Registry) (m : Media) (action : StreamAction)
    (req : StreamRequest) : StreamStage → Media × List HubInstr
  | .access =>
    (m, if r.canAccessChannel req.client req.channelID ∧ x.ok then
        [.run (.media (.stream .voice action req))]
      else [.release (.mediaTransition req.client.userID)])
  | .voice =>
    (m, if inChannel (m.voice.current req.client) req.serverID req.channelID ∧ x.ok then
        [.run (.media (.stream .insert action req))]
      else [.release (.mediaTransition req.client.userID)])
  | .insert =>
    match m.enterStream x req action with
    | .error _ => (m, [.release (.mediaTransition req.client.userID)])
    | .ok streams => ({ m with streams := streams }, [.run (.media (.stream .recheck action req))])
  | .recheck =>
    (if inChannel (m.voice.current req.client) req.serverID req.channelID then m
      else { m with streams := m.streams.leave req.client },
      [.release (.mediaTransition req.client.userID)])

def Media.exec (x : Choice) (r : Registry) (m : Media) : MediaCmd → Option (Media × List HubInstr)
  | .leaveStream c => some ({ m with streams := m.streams.leave c }, [])
  | .leaveVoice c =>
    some ({ m with streams := m.streams.leave c }, [.run (.media (.voiceLeave c))])
  | .voiceLeave c =>
    some ({ m with voice := m.voice.leave c },
      if (m.voice.current c).isSome then [.run (.media (.closeVoiceSession c))] else [])
  | .refreshVoice c =>
    some (m, if (m.voice.current c).any fun p => !r.canAccessChannel c p.channelID then
      [.run (.media (.leaveVoice c))] else [])
  | .revokeVoice c s =>
    some (m, if inServer (m.voice.current c) s then [.run (.media (.revokeStream c s))]
      else [.run (.media (.voiceLeaveServer c s))])
  | .revokeStream c s =>
    some ({ m with streams := m.streams.leave c }, [.run (.media (.voiceLeaveServer c s))])
  | .voiceLeaveServer c s =>
    some ({ m with voice := m.voice.leaveServer c s },
      if inServer (m.voice.current c) s then [.run (.media (.closeVoiceSession c))] else [])
  | .removeServer s =>
    if x.clients.Perm (m.voice.serverClients s) then
      some ({ m with voice := m.voice.removeServer x.clients },
        x.clients.flatMap fun c =>
          [.run (.media (.stopStreamForChannel
              (((m.voice.current c).map VoiceParticipant.channelID).getD 0))),
            .run (.media (.closeVoiceSession c))])
    else none
  | .stopStreamForChannel ch =>
    if x.clients.Perm (m.streams.publishersForChannel ch) then
      some (m, x.clients.map fun c => .run (.media (.leaveStream c)))
    else none
  | .closeVoiceSession c => some ({ m with sessions := m.sessions.erase c }, [])
  | .resetVoiceChannel ch =>
    if x.clients.Perm (m.voice.channelClients ch) then
      some (m, x.clients.map fun c => .run (.media (.leaveVoice c)))
    else none
  | .revalidate u =>
    some (m, match m.voice.userClient u with
      | none => []
      | some c => [.run (.media (.revalidateDevice c))])
  | .revalidateDevice c =>
    some (m, if (m.voice.current c).any (fun p => p.e2eeDeviceID ≠ "") ∧ ¬x.ok then
      [.run (.media (.leaveVoice c))] else [])
  | .setChannelPolicy ch required =>
    if x.ok ∧ m.e2eeRequired ch ≠ required then
      some ({ m with e2eeRequired := Function.update m.e2eeRequired ch required },
        [.run (.media (.resetVoiceChannel ch))])
    else some (m, [])
  | .request stage req => some (m, m.execRequest x req stage)
  | .join stage caller req => some (m.execJoin x r caller req stage)
  | .sfu stage req => some (m.execSfu x req stage)
  | .stream stage action req => some (m.execStream x r action req stage)

/-! ## The machine -/

def HubState.exec (x : Choice) (h : HubState) : Cmd → Option (HubState × List HubInstr)
  | .registry cmd =>
    (h.registry.exec x cmd).map fun out => ({ h with registry := out.1 }, out.2)
  | .media cmd =>
    (h.media.exec x h.registry cmd).map fun out => ({ h with media := out.1 }, out.2)

/-- The locks an operation takes first, and its first command. -/
def Op.body : Op → List HubInstr
  | .register c =>
    [.acquire .channelAccess .shared, .run (.registry (.load c)), .release .channelAccess]
  | .unregister c => [.run (.registry (.closeClient c))]
  | .addUserToServer u s =>
    [.acquire .channelAccess .shared, .run (.registry (.addUserSnapshot u s)),
      .release .channelAccess]
  | .revokeUserFromServer u s =>
    [.acquire .channelAccess .exclusive, .run (.registry (.revokeUserSnapshot u s)),
      .release .channelAccess]
  | .revokeServer s =>
    [.acquire .channelAccess .exclusive, .run (.registry (.revokeServerSnapshot s)),
      .release .channelAccess]
  | .refreshChannelAccess s =>
    [.acquire .channelAccess .exclusive, .run (.registry (.refreshSnapshot s)),
      .release .channelAccess]
  | .close => [.run (.registry .closeHub)]
  | .joinVoiceWithDevice req =>
    [.acquire (.mediaTransition req.client.userID) .exclusive,
      .run (.media (.join .device .hub req))]
  | .joinVoice req =>
    [.acquire .channelAccess .shared, .run (.media (.request .channelAccess req))]
  | .leaveVoice c => [.run (.media (.leaveVoice c))]
  | .leaveStream c => [.run (.media (.leaveStream c))]
  | .resetVoiceChannel ch => [.run (.media (.resetVoiceChannel ch))]
  | .revalidateVoiceE2EE u =>
    [.acquire (.mediaTransition u) .exclusive, .run (.media (.revalidate u)),
      .release (.mediaTransition u)]
  | .setChannelPolicy ch required => [.run (.media (.setChannelPolicy ch required))]
  | .stream action req =>
    [.acquire (.mediaTransition req.client.userID) .exclusive,
      .run (.media (.stream .access action req))]

/-- The hub under every interleaving of its goroutines. -/
def hubMachine : Machine HubState Lock Cmd Choice Op where
  exec := fun cmd x h => h.exec x cmd
  body := Op.body

/-- A new hub: nobody is connected. The server sets with which clients are going to be created, the
stored encryption policies and the viewer limits are arbitrary. -/
def HubState.new (servers : Client → Finset Int) (e2eeRequired : Int → Bool)
    (limits : ViewerLimits) : HubState where
  registry := Registry.new servers
  media := ⟨VoiceState.new, StreamState.new, ∅, e2eeRequired, limits⟩

abbrev HubConfig := Config HubState Lock Cmd

/-- The operations by which a client gets into voice are the handler's: no other part of the backend
calls `JoinVoiceWithDevice`. -/
def Op.Handled : Op → Prop
  | .joinVoiceWithDevice _ => False
  | _ => True

instance : DecidablePred Op.Handled := by
  intro op
  unfold Op.Handled
  split <;> infer_instance

/-! ## Schedules of one connection -/

abbrev Schedule := List (Machine.Move Choice Op)

def goroutine (i n : Nat) (x : Choice) : Schedule :=
  List.replicate n (.step i x)

namespace Sample

def client : Client := ⟨1, 7, 1⟩

/-- A hub in which every client is created for the server 1 and no channel requires encryption. -/
def hub : HubState :=
  HubState.new (fun _ => {1}) (fun _ => false) ⟨10, 10⟩

def request : JoinRequest := ⟨client, 1, 5, false, false, ""⟩

/-- All queries succeed, and the client has the one server. -/
def here : Choice where
  serverIDs := [1]

/-- As goroutine 0 the connection registers; as goroutine 1 it asks to join and comes as far as the
insertion into the voice state. -/
def joining : Schedule :=
  .start (.register client) :: goroutine 0 5 here ++
    .start (.joinVoice request) :: goroutine 1 11 here

/-- The join enters the client, goes on to the media session and ends. -/
def entering : Schedule :=
  goroutine 1 9 here

end Sample

end Voxhold.Hub
