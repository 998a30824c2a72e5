/-
# Voxhold.Hub.SessionFailure — the late failure of an old media session

The callback of `SessionFailureHandler` remembers the client and the GENERATION of its join, start
or watch. Whenever it runs, it compares the generation under the media lock and only then leaves.
-/

import Voxhold.Hub.ClientIndexes

namespace Voxhold.Hub

open Voxhold.Lib Multiset Option List

/-! ## The signal sinks -/

inductive SessionKind where
  | voice
  | stream
deriving DecidableEq, Repr

/-- The generation of the client's entry in the voice or stream state. -/
def SessionKind.generation (kind : SessionKind) (m : Media) (c : Client) : Option Nat :=
  match kind with
  | .voice => (m.voice.current c).map VoiceParticipant.generation
  | .stream => (m.streams.1.byClient.lookup c).map StreamClientState.generation

/-- The callback that `SessionFailureHandler` returns, as what it has captured. -/
structure FailureHandler where
  kind : SessionKind
  client : Client
  connectionID : Nat
  generation : Option Nat
deriving DecidableEq, Repr

inductive SignalCmd where
  | hub (cmd : Cmd)
  -- `SessionFailureHandler`: `clientByConnectionID`, then the look at the state
  | find (kind : SessionKind) (connectionID : Nat)
  | capture (kind : SessionKind) (connectionID : Nat) (c : Client)
  -- the callback: the comparison, `clientByConnectionID` in `CloseVoice` or `CloseStream`, the
  -- removals
  | check (f : FailureHandler)
  | close (f : FailureHandler)
  | leaveStream (f : FailureHandler) (c : Client)
  | voiceLeave (f : FailureHandler) (c : Client)
deriving DecidableEq

inductive SignalOp where
  | hub (op : Op)
  | sessionFailureHandler (kind : SessionKind) (connectionID : Nat)
  | sessionFailed (f : FailureHandler)

structure SignalState where
  hub : HubState
  handlers : List FailureHandler

abbrev SignalInstr := Instr Lock SignalCmd

/-- The callback goes on: the session it was made for is still the present one. -/
def FailureHandler.Current (f : FailureHandler) (m : Media) : Prop :=
  f.generation.isSome ∧ f.kind.generation m f.client = f.generation
deriving Decidable

def SignalState.exec (x : Choice) (s : SignalState) :
    SignalCmd → Option (SignalState × List SignalInstr)
  | .hub cmd =>
    (s.hub.exec x cmd).map fun out => ({ s with hub := out.1 }, out.2.map (Instr.map .hub))
  | .find kind id =>
    some (s, match s.hub.registry.clientsByConnection.lookup id with
      | none => []
      | some c => [.run (.capture kind id c)])
  | .capture kind id c =>
    some ({ s with handlers := ⟨kind, c, id, kind.generation s.hub.media c⟩ :: s.handlers }, [])
  | .check f =>
    if f ∈ s.handlers then
      some (s, if f.Current s.hub.media then [.run (.close f)] else [])
    else none
  | .close f =>
    some (s, match s.hub.registry.clientsByConnection.lookup f.connectionID with
      | none => []
      | some c => [.run (.leaveStream f c)])
  | .leaveStream f c =>
    -- all of `LeaveStream`, or the first half of `LeaveVoice`
    some ({ s with hub.media.streams := s.hub.media.streams.leave c }, match f.kind with
      | .voice => [.run (.voiceLeave f c)]
      | .stream => [])
  | .voiceLeave _ c =>
    some ({ s with hub.media.voice := s.hub.media.voice.leave c },
      if (s.hub.media.voice.current c).isSome then [.run (.hub (.media (.closeVoiceSession c)))]
      else [])

def SignalOp.body : SignalOp → List SignalInstr
  | .hub op => op.body.map (Instr.map .hub)
  | .sessionFailureHandler kind id => [.run (.find kind id)]
  | .sessionFailed f =>
    [.acquire (.mediaTransition f.client.userID) .exclusive, .run (.check f),
      .release (.mediaTransition f.client.userID)]

def signalMachine : Machine SignalState Lock SignalCmd Choice SignalOp where
  exec := fun cmd x s => s.exec x cmd
  body := SignalOp.body

abbrev SignalConfig := Config SignalState Lock SignalCmd

def SignalState.new (servers : Client → Finset Int) (e2eeRequired : Int → Bool)
    (limits : ViewerLimits) : SignalState where
  hub := HubState.new servers e2eeRequired limits
  handlers := []

/-- The handler whose callback the command is a step of. -/
def SignalCmd.callback : SignalCmd → Option FailureHandler
  | .check f | .close f | .leaveStream f _ | .voiceLeave f _ => some f
  | _ => none

variable {x : Choice} {s s' : SignalState} {h h' : HubState} {m m' : Media} {r : Registry}
  {new : List HubInstr} {c : Client} {f : FailureHandler} {connections : Nat → Client}

/-! ## The locks -/

/-- A hub command under the same locks: a callback works under its account's media lock, as the
voice part of a revocation does. -/
def SignalCmd.like : SignalCmd → Cmd
  | .hub cmd => cmd
  | .find _ _ | .capture _ _ _ => .registry .closeHub
  | .check f | .close f | .leaveStream f _ | .voiceLeave f _ => .media (.revokeVoice f.client 0)

theorem map_like_map_hub (is : List HubInstr) :
    (is.map (Instr.map SignalCmd.hub)).map (Instr.map SignalCmd.like) = is := by
  rw [List.map_map]
  refine List.map_id'' (fun i => ?_) is
  cases i <;> rfl

theorem signalMachine_keeps :
    signalMachine.Keeps (Cmd.needs ∘ SignalCmd.like) (Cmd.Ends ∘ SignalCmd.like) entryLock where
  body op := by
    show Disciplined _ _ [] op.body
    cases op with
    | hub op =>
      rw [← Disciplined.map_cmd, SignalOp.body, map_like_map_hub]
      exact hubMachine_keeps.body op
    | sessionFailureHandler kind id | sessionFailed f => simp [SignalOp.body, SignalCmd.like]
  exec := by
    intro c x s s' new held rest he hd
    cases c with
    | hub cmd =>
      obtain ⟨⟨h', new'⟩, hexec, heq⟩ := map_eq_some_iff.mp he
      cases heq
      rw [← Disciplined.map_cmd] at hd ⊢
      rw [map_append, map_like_map_hub]
      exact hubMachine_keeps.exec hexec hd
    | find kind id =>
      cases he
      obtain ⟨-, -, hrest⟩ := hd
      split <;> simp [hrest, SignalCmd.like]
    | capture kind id c =>
      cases he
      exact hd.2.2
    | check f =>
      have hlock := hd.1 _ mem_cons_self
      obtain ⟨-, -, hrest⟩ := hd
      simp only [signalMachine, SignalState.exec] at he
      split at he
      · cases he
        split
        · simpa [hrest, SignalCmd.like] using hlock
        · exact hrest
      · cases he
    | close f =>
      have hlock := hd.1 _ mem_cons_self
      obtain ⟨-, -, hrest⟩ := hd
      cases he
      split
      · exact hrest
      · simpa [hrest, SignalCmd.like] using hlock
    | leaveStream f c =>
      have hlock := hd.1 _ mem_cons_self
      obtain ⟨-, -, hrest⟩ := hd
      cases he
      split
      · simpa [hrest, SignalCmd.like] using hlock
      · exact hrest
    | voiceLeave f c =>
      obtain ⟨-, -, hrest⟩ := hd
      cases he
      split <;> simp [hrest, SignalCmd.like]
  bodyEntry op l mode hl := by
    show .acquire l mode ∉ op.body.tail
    cases op with
    | hub op =>
      rw [SignalOp.body, ← map_tail, acquire_mem_map]
      exact hubMachine_keeps.bodyEntry op l mode hl
    | sessionFailureHandler kind id | sessionFailed f => simp [SignalOp.body]
  execEntry := by
    intro c x s s' new l mode he hl
    cases c with
    | hub cmd =>
      obtain ⟨⟨h', new'⟩, hexec, heq⟩ := map_eq_some_iff.mp he
      cases heq
      rw [acquire_mem_map]
      exact hubMachine_keeps.execEntry hexec hl
    | check f =>
      simp only [signalMachine, SignalState.exec] at he
      split at he
      · cases he
        split <;> simp
      · cases he
    | capture kind id c =>
      cases he
      simp
    | _ =>
      cases he
      split <;> simp

/-- The steps of a callback that has passed its comparison. -/
def SignalCmd.Removing : SignalCmd → Prop
  | .close _ | .leaveStream _ _ | .voiceLeave _ _ => True
  | _ => False

theorem not_removing_of_mem_map {is : List HubInstr}
    (hb : .run b ∈ is.map (Instr.map SignalCmd.hub)) : ¬b.Removing := by
  obtain ⟨cmd, -, rfl⟩ := run_mem_map.mp hb
  exact id

theorem signalMachine_solo : signalMachine.Solo SignalCmd.Removing where
  body op b hb hmem := by
    cases op with
    | hub op =>
      have hmem : .run b ∈ op.body.map (Instr.map SignalCmd.hub) := mem_of_mem_tail hmem
      exact not_removing_of_mem_map hmem hb
    | sessionFailureHandler kind id => simp [signalMachine, SignalOp.body] at hmem
    | sessionFailed f =>
      obtain rfl : b = .check f := by simpa [signalMachine, SignalOp.body] using hmem
      exact hb
  exec := by
    intro c x s s' new b he hb hmem
    cases c with
    | hub cmd =>
      obtain ⟨⟨h', new'⟩, -, heq⟩ := map_eq_some_iff.mp he
      cases heq
      exact not_removing_of_mem_map (mem_of_mem_tail hmem) hb
    | check f =>
      simp only [signalMachine, SignalState.exec] at he
      split at he
      · cases he
        split at hmem <;> simp at hmem
      · cases he
    | capture kind id c =>
      cases he
      simp at hmem
    | _ =>
      cases he
      split at hmem <;> simp at hmem

/-! ## Who gives out generations -/

theorem lookup_enterStream {action : StreamAction} {req : StreamRequest} {streams : StreamState}
    (hok : m.enterStream x req action = .ok streams) (hc : c ≠ req.client) :
    streams.1.byClient.lookup c = m.streams.1.byClient.lookup c := by
  cases action with
  | start opts =>
    simp only [Media.enterStream, StreamState.start] at hok
    split at hok
    · simp at hok
    · next hstart =>
      cases hok
      obtain ⟨-, -, value, -, -, -, -, -, hbyClient⟩ := StreamMaps.start_ok hstart
      rw [hbyClient, AList.lookup_insert_ne hc]
  | watch opts =>
    simp only [Media.enterStream, StreamState.watch] at hok
    split at hok
    · simp at hok
    · next hwatch =>
      cases hok
      obtain ⟨-, value, id, -, -, -, -, -, -, -, hbyClient⟩ :=
        StreamMaps.watch_ok m.streams.2.keyed hwatch
      rw [hbyClient, AList.lookup_insert_ne hc]

theorem streamEntry_of_exec {cmd : MediaCmd} {st : StreamClientState}
    (he : m.exec x r cmd = some (m', new)) (hst : m'.streams.1.byClient.lookup c = some st) :
    m.streams.1.byClient.lookup c = some st ∨
      (.mediaTransition c.userID, .exclusive) ∈ cmd.needs := by
  -- leaving only takes entries out
  have hleave : ∀ d, (m.streams.leave d).1.byClient.lookup c = some st →
      m.streams.1.byClient.lookup c = some st := by
    intro d hd
    rcases StreamMaps.lookup_leave m.streams.2 d c with hnone | ⟨-, hsame⟩
    · rw [show (m.streams.leave d).1.byClient.lookup c = none from hnone] at hd
      cases hd
    · exact hsame.symm.trans hd
  cases Media.exec_change he with
  | streams hv =>
    cases hv with
    | leaveStream d | leaveVoice d | revoke d | changeChannel | recheck =>
      exact .inl (hleave _ hst)
    | enter action req =>
      by_cases hc : c = req.client
      · exact .inr (by simp [hc])
      · simp only [Media.exec, Media.execStream] at he
        split at he
        · obtain ⟨hsame, -⟩ := Prod.mk.inj (some.inj he)
          exact .inl (congrArg Media.streams hsame ▸ hst)
        · next streams hok =>
          obtain ⟨hsame, -⟩ := Prod.mk.inj (some.inj he)
          have hstreams : streams = _ := congrArg Media.streams hsame
          rw [← lookup_enterStream hok hc, hstreams]
          exact .inl hst
  | _ => exact .inl hst

theorem SessionKind.generation_of_exec {kind : SessionKind} {cmd : Cmd} {g : Nat}
    (he : h.exec x cmd = some (h', new)) (hg : kind.generation h'.media c = some g) :
    kind.generation h.media c = some g ∨ (.mediaTransition c.userID, .exclusive) ∈ cmd.needs := by
  cases kind with
  | voice =>
    obtain ⟨p, hp, rfl⟩ := map_eq_some_iff.mp hg
    rcases voice_of_exec he c with ⟨hsame, -⟩ | ⟨hnone, -⟩ | ⟨caller, req, q, rfl, rfl, -⟩
    · exact .inl (map_eq_some_iff.mpr ⟨p, hsame ▸ hp, rfl⟩)
    · exact absurd (hnone.symm.trans hp) (by simp)
    · exact .inr (by simp)
  | stream =>
    obtain ⟨st, hst, rfl⟩ := map_eq_some_iff.mp hg
    cases cmd with
    | registry cmd =>
      obtain ⟨r', -, rfl⟩ := exec_registry he
      exact .inl hg
    | media cmd =>
      obtain ⟨m', hm, rfl⟩ := exec_media he
      exact (streamEntry_of_exec hm hst).imp_left fun hst =>
        map_eq_some_iff.mpr ⟨st, hst, rfl⟩

/-! ## Between the comparison and the removal -/

namespace FailureHandler

/-- The client's entry, if it is still there, is the one the handler was made for. -/
def Holds (f : FailureHandler) (m : Media) : Prop :=
  ∀ g, f.kind.generation m f.client = some g → f.generation = some g

/-- The handler's client is the issued connection with the handler's connection id. -/
def Bound (connections : Nat → Client) (f : FailureHandler) : Prop :=
  Issued connections f.client ∧ f.client.connectionID = f.connectionID

theorem Current.holds (hf : f.Current m) : f.Holds m := by
  intro g hg
  rw [← hf.2, hg]

theorem Holds.of_exec {cmd : Cmd} (hf : f.Holds h.media) (he : h.exec x cmd = some (h', new))
    (hfree : (.mediaTransition f.client.userID, .exclusive) ∉ cmd.needs) : f.Holds h'.media := by
  intro g hg
  rcases SessionKind.generation_of_exec he hg with hold | hlock
  · exact hf g hold
  · exact absurd hlock hfree

theorem Holds.leaveStream (c : Client) (hf : f.Holds h.media) :
    f.Holds { h.media with streams := h.media.streams.leave c } := by
  have he : h.exec {} (.media (.leaveStream c)) =
      some ({ h with media.streams := h.media.streams.leave c }, []) := rfl
  exact hf.of_exec he (by simp)

theorem Holds.voiceLeave (c : Client) (hf : f.Holds h.media) :
    f.Holds { h.media with voice := h.media.voice.leave c } := by
  have he : h.exec {} (.media (.voiceLeave c)) =
      some ({ h with media.voice := h.media.voice.leave c }, _) := rfl
  exact hf.of_exec he (by simp)

end FailureHandler

/-- What a pending step of a sink relies on. -/
def SignalCmd.Meets (connections : Nat → Client) (m : Media) : SignalCmd → Prop
  | .capture _ id c => Issued connections c ∧ c.connectionID = id
  | .close f => f.Bound connections ∧ f.Holds m
  | .leaveStream f c => f.Bound connections ∧ f.Holds m ∧ c = f.client
  | .voiceLeave f c => f.Bound connections ∧ f.Holds m ∧ c = f.client ∧ f.kind = .voice
  | _ => True

theorem SignalCmd.Meets.frame {b : SignalCmd} (hb : b.Meets connections m)
    (hholds : ∀ f, b.Removing → b.callback = some f → f.Holds m → f.Holds m') :
    b.Meets connections m' := by
  cases b with
  | hub | find | check => trivial
  | capture kind id c => exact hb
  | close f => exact ⟨hb.1, hholds f trivial rfl hb.2⟩
  | leaveStream f c | voiceLeave f c => exact ⟨hb.1, hholds f trivial rfl hb.2.1, hb.2.2⟩

/-- The hub's own command, where the command is one. -/
def SignalCmd.hub? : SignalCmd → Option Cmd
  | .hub cmd => some cmd
  | _ => none

/-- The hub's own commands among the pending ones. -/
def hubPending (S : Multiset SignalCmd) : Multiset Cmd :=
  S.filterMap SignalCmd.hub?

theorem hubPending_pushed (is : List HubInstr) (R : Multiset SignalCmd) :
    hubPending ((cmds (is.map (Instr.map SignalCmd.hub)) : Multiset SignalCmd) + R) =
      cmds is + hubPending R := by
  rw [hubPending, filterMap_add, cmds_map, filterMap_coe, List.filterMap_map]
  congr 2
  exact List.filterMap_some

/-- The invariant of the hub with its sinks: the hub's indexes are as without the sinks, the
handlers name issued connections, and every callback past its comparison still finds the generation
it was made for, or nothing. -/
structure SignalSound (connections : Nat → Client) (s : SignalState) (S : Multiset SignalCmd) :
    Prop where
  tracked : Tracked connections s.hub (hubPending S)
  handlers : ∀ f ∈ s.handlers, f.Bound connections
  meets : ∀ b ∈ S, b.Meets connections s.hub.media

section Steps

variable {R S : Multiset SignalCmd}

theorem SignalSound.issued_of_lookup (hinv : SignalSound connections s S) {id : Nat}
    (hlookup : s.hub.registry.clientsByConnection.lookup id = some c) :
    Issued connections c ∧ c.connectionID = id := by
  obtain ⟨hmem, hid⟩ := (hinv.tracked.exact id c).mp hlookup
  exact ⟨hinv.tracked.clients c hmem, hid⟩

theorem SignalSound.drop {d : SignalCmd} (hinv : SignalSound connections s (d ::ₘ R))
    (hd : d.hub? = none) : SignalSound connections s R where
  tracked := by
    have htracked := hinv.tracked
    simpa only [hubPending, filterMap_cons_none _ _ hd] using htracked
  handlers := hinv.handlers
  meets b hb := hinv.meets b (mem_cons_of_mem hb)

theorem SignalSound.add {b : SignalCmd} (hinv : SignalSound connections s S)
    (hb : ∀ cmd, b.hub? = some cmd → cmd.subject = none)
    (hmeets : b.Meets connections s.hub.media) : SignalSound connections s (b ::ₘ S) where
  tracked := by
    refine ⟨hinv.tracked.clients, fun cmd hcmd c hc => ?_, hinv.tracked.exact⟩
    obtain ⟨b', hb', hhub⟩ := (mem_filterMap _ _).mp hcmd
    rcases mem_cons.mp hb' with rfl | hS
    · simp [hb cmd hhub] at hc
    · exact hinv.tracked.pending cmd ((mem_filterMap _ _).mpr ⟨b', hS, hhub⟩) c hc
  handlers := hinv.handlers
  meets b' hb' := by
    rcases mem_cons.mp hb' with rfl | hS
    · exact hmeets
    · exact hinv.meets b' hS

theorem SignalSound.media (hinv : SignalSound connections s S)
    (hholds : ∀ f : FailureHandler, f.Holds s.hub.media → f.Holds m') :
    SignalSound connections { s with hub.media := m' } S where
  tracked := ⟨hinv.tracked.clients, hinv.tracked.pending, hinv.tracked.exact⟩
  handlers := hinv.handlers
  meets b hb := (hinv.meets b hb).frame fun f _ _ hf => hholds f hf

theorem SignalCmd.needs_of_callback {b : SignalCmd} (hb : b.callback = some f) :
    (.mediaTransition f.client.userID, .exclusive) ∈ b.like.needs := by
  cases b with
  | hub | find | capture => simp [SignalCmd.callback] at hb
  | check | close | leaveStream | voiceLeave =>
    cases hb
    simp [SignalCmd.like]

variable {allowed : SignalOp → Prop} {guard : SignalState → Multiset SignalCmd → SignalCmd → Prop}
  {init : SignalState} {cfg : SignalConfig} {i : Nat} {rest : List SignalInstr}

theorem SignalSound.fire_hub {cmd : Cmd} {new : List SignalInstr}
    (hrun : signalMachine.Reachable allowed guard init cfg)
    (hf : signalMachine.Fires cfg i (.hub cmd) x s' new rest R)
    (hinv : SignalSound connections cfg.state (.hub cmd ::ₘ R)) :
    SignalSound connections s' (cmds new + R) := by
  obtain ⟨⟨h', new'⟩, he, heq⟩ := map_eq_some_iff.mp hf.exec
  cases heq
  refine ⟨?tracked, hinv.handlers, ?meets⟩
  case tracked =>
    rw [hubPending_pushed]
    have htracked := hinv.tracked
    simp only [hubPending, filterMap_cons_some _ _ _ (rfl : (SignalCmd.hub cmd).hub? = _)]
      at htracked
    exact htracked.fire he
  case meets =>
    intro b hb
    rcases mem_pushed.mp hb with hnew | hR
    · obtain ⟨cmd', -, rfl⟩ := run_mem_map.mp hnew
      trivial
    · refine (hinv.meets b (mem_cons_of_mem hR)).frame fun f hremoving hcall hholds => ?_
      refine hholds.of_exec he fun hlock => ?_
      exact hrun.solo_excludes signalMachine_keeps signalMachine_solo hf hlock hremoving
        (SignalCmd.needs_of_callback hcall) hR

theorem SignalSound.fire {d : SignalCmd} {new : List SignalInstr}
    (hrun : signalMachine.Reachable allowed guard init cfg)
    (hf : signalMachine.Fires cfg i d x s' new rest R)
    (hinv : SignalSound connections cfg.state (d ::ₘ R)) :
    SignalSound connections s' (cmds new + R) := by
  have hd := hinv.meets d (mem_cons_self d R)
  have he := hf.exec
  cases d with
  | hub cmd => exact hinv.fire_hub hrun hf
  | find kind id =>
    cases he
    split
    · rw [pushed_nil]
      exact hinv.drop rfl
    · next c hlookup =>
      rw [pushed_run]
      exact (hinv.drop rfl).add (by simp [SignalCmd.hub?]) (hinv.issued_of_lookup hlookup)
  | capture kind id c =>
    cases he
    rw [pushed_nil]
    obtain ⟨htracked, hhandlers, hmeets⟩ := hinv.drop rfl
    refine ⟨htracked, fun f hmem => ?_, hmeets⟩
    rcases mem_cons.mp hmem with rfl | hmem
    · exact hd
    · exact hhandlers f hmem
  | check f =>
    simp only [signalMachine, SignalState.exec] at he
    split at he
    · next hmem =>
      cases he
      split
      · next hcurrent =>
        rw [pushed_run]
        exact (hinv.drop rfl).add (by simp [SignalCmd.hub?]) ⟨hinv.handlers f hmem, hcurrent.holds⟩
      · rw [pushed_nil]
        exact hinv.drop rfl
    · cases he
  | close f =>
    cases he
    split
    · rw [pushed_nil]
      exact hinv.drop rfl
    · next c hlookup =>
      rw [pushed_run]
      -- the connection found under the handler's id is the handler's client
      obtain ⟨hissued, hid⟩ := hinv.issued_of_lookup hlookup
      have hclient : c = f.client := hd.1.1.eq_of_connectionID hissued (hid.trans hd.1.2.symm)
      exact (hinv.drop rfl).add (by simp [SignalCmd.hub?]) ⟨hd.1, hd.2, hclient⟩
  | leaveStream f c =>
    cases he
    have hleave := fun f' : FailureHandler => FailureHandler.Holds.leaveStream (f := f')
      (h := cfg.state.hub) c
    split
    · next hkind =>
      rw [pushed_run]
      refine ((hinv.drop rfl).add (by simp [SignalCmd.hub?]) ?_).media hleave
      exact ⟨hd.1, hd.2.1, hd.2.2, hkind⟩
    · rw [pushed_nil]
      exact (hinv.drop rfl).media hleave
  | voiceLeave f c =>
    cases he
    have hleave := fun f' : FailureHandler => FailureHandler.Holds.voiceLeave (f := f')
      (h := cfg.state.hub) c
    split
    · rw [pushed_run]
      have hpush : SignalSound connections cfg.state
          (.hub (.media (.closeVoiceSession c)) ::ₘ R) :=
        (hinv.drop rfl).add (by rintro cmd ⟨⟩; rfl) trivial
      exact hpush.media hleave
    · rw [pushed_nil]
      exact (hinv.drop rfl).media hleave

def SignalOp.Issues (connections : Nat → Client) : SignalOp → Prop
  | .hub op => op.Issues connections
  | _ => True

theorem SignalSound.start {op : SignalOp} (hop : op.Issues connections)
    (hinv : SignalSound connections s S) : SignalSound connections s (cmds op.body + S) := by
  cases op with
  | hub op =>
    refine ⟨?tracked, hinv.handlers, fun b hb => ?meets⟩
    case tracked =>
      rw [SignalOp.body, hubPending_pushed]
      exact hinv.tracked.start hop
    case meets =>
      rcases mem_pushed.mp hb with hnew | hS
      · obtain ⟨cmd, -, rfl⟩ := run_mem_map.mp hnew
        trivial
      · exact hinv.meets b hS
  | sessionFailureHandler kind id =>
    rw [SignalOp.body, pushed_run]
    exact hinv.add (by simp [SignalCmd.hub?]) trivial
  | sessionFailed f =>
    rw [SignalOp.body, cmds_acquire, cmds_run, cmds_release, cmds_nil, coe_singleton,
      singleton_add]
    exact hinv.add (by simp [SignalCmd.hub?]) trivial

end Steps

section Runs

variable {guard : SignalState → Multiset SignalCmd → SignalCmd → Prop}
  {servers : Client → Finset Int} {e2eeRequired : Int → Bool} {limits : ViewerLimits}
  {cfg cfg' : SignalConfig} {i : Nat} {b : SignalCmd}

theorem signalSound_of_reachable (hrun : signalMachine.Reachable (SignalOp.Issues connections) guard
      (SignalState.new servers e2eeRequired limits) cfg) :
    SignalSound connections cfg.state cfg.pending :=
  hrun.induction (P := SignalSound connections)
    ⟨⟨by simp [SignalState.new, HubState.new, Registry.new], by simp [hubPending],
        by simp [Registry.ConnectionsExact, SignalState.new, HubState.new, Registry.new]⟩,
      by simp [SignalState.new], by simp⟩
    (fun _ _ _ hop hinv => hinv.start hop)
    (fun _ _ _ _ _ _ _ _ hcfg hf _ hinv => hinv.fire hcfg hf)

end Runs

/-! ## What a callback removes -/

/-- A step from `m` to `m'` takes out only what the callback of `f` is for: from the voice state the
entry of its client with the captured generation, and only a voice callback; from the stream state
the entry of its client, by a stream callback only with the captured generation, and the viewers of
the stream its client publishes. -/
structure FailureHandler.TakesOnly (f : FailureHandler) (m m' : Media) : Prop where
  voice : ∀ d p, m.voice.current d = some p → m'.voice.current d ≠ some p →
    f.kind = .voice ∧ d = f.client ∧ f.generation = some p.generation
  stream : ∀ d st, m.streams.1.byClient.lookup d = some st →
    m'.streams.1.byClient.lookup d ≠ some st →
    f.Holds m ∧ (d = f.client ∨ ∃ own, m.streams.1.byClient.lookup f.client = some own ∧
      own.publisher = true ∧ d ∈ m.streams.1.viewersOf own.stream)
  own : f.kind = .stream → ∀ st, m.streams.1.byClient.lookup f.client = some st →
    m'.streams.1.byClient.lookup f.client ≠ some st → f.generation = some st.generation

namespace FailureHandler

theorem TakesOnly.refl (f : FailureHandler) (m : Media) : f.TakesOnly m m where
  voice _ _ hp hne := absurd hp hne
  stream _ _ hst hne := absurd hst hne
  own _ _ hst hne := absurd hst hne

theorem Holds.takesOnly_leaveStream (hf : f.Holds m) :
    f.TakesOnly m { m with streams := m.streams.leave f.client } where
  voice _ _ hp hne := absurd hp hne
  stream d st hst hne := by
    refine ⟨hf, StreamMaps.eq_or_mem_viewersOf_of_leave m.streams.2 fun hsame => hne ?_⟩
    exact hsame.trans hst
  own hkind st hst _ := by
    refine hf st.generation ?_
    rw [hkind, SessionKind.generation, hst]
    rfl

theorem Holds.takesOnly_voiceLeave (hf : f.Holds m) (hkind : f.kind = .voice) :
    f.TakesOnly m { m with voice := m.voice.leave f.client } where
  voice d p hp hne := by
    have hleft : (m.voice.leave f.client).current d ≠ some p := hne
    rw [VoiceState.current_leave] at hleft
    split at hleft
    · next hd =>
      refine ⟨hkind, hd, hf p.generation ?_⟩
      rw [hkind, SessionKind.generation, ← hd, hp]
      rfl
    · exact absurd hp hleft
  stream _ _ hst hne := absurd hst hne
  own _ _ hst hne := absurd hst hne

end FailureHandler

/-- **A stale failure kills no newer session.** In every run of the hub and its signal sinks, every
step of a callback takes out only what it was made for. -/
theorem stale_failure_keeps_newer {connections : Nat → Client} {servers : Client → Finset Int}
    {e2eeRequired : Int → Bool} {limits : ViewerLimits} {cfg cfg' : SignalConfig} {i : Nat}
    {x : Choice} {b : SignalCmd} {f : FailureHandler}
    (hrun : signalMachine.Reachable (SignalOp.Issues connections) (fun _ _ _ => True)
      (SignalState.new servers e2eeRequired limits) cfg)
    (hnext : cfg.next i = some b) (hcall : b.callback = some f)
    (hstep : signalMachine.step cfg i x = some cfg') :
    f.TakesOnly cfg.state.hub.media cfg'.state.hub.media := by
  obtain ⟨new, he⟩ : ∃ new, cfg.state.exec x b = some (cfg'.state, new) :=
    Machine.exec_of_next hnext hstep
  have hpending : b ∈ cfg.pending := (Config.mem_pending _).mpr ⟨i, Config.mem_todo_of_next hnext⟩
  have hmeets := (signalSound_of_reachable hrun).meets b hpending
  cases b with
  | hub | find | capture => simp [SignalCmd.callback] at hcall
  | check f' =>
    simp only [SignalState.exec] at he
    split at he
    · obtain ⟨hsame, -⟩ := Prod.mk.inj (some.inj he)
      exact hsame ▸ .refl f _
    · cases he
  | close f' =>
    obtain ⟨hsame, -⟩ := Prod.mk.inj (some.inj he)
    exact hsame ▸ .refl f _
  | leaveStream f' c =>
    cases hcall
    obtain ⟨-, hholds, rfl⟩ := hmeets
    obtain ⟨hleft, -⟩ := Prod.mk.inj (some.inj he)
    exact hleft ▸ hholds.takesOnly_leaveStream
  | voiceLeave f' c =>
    cases hcall
    obtain ⟨-, hholds, rfl, hkind⟩ := hmeets
    obtain ⟨hleft, -⟩ := Prod.mk.inj (some.inj he)
    exact hleft ▸ hholds.takesOnly_voiceLeave hkind

/-! ## A publisher that fails -/

instance (connections : Nat → Client) : DecidablePred (SignalOp.Issues connections)
  | .hub op => inferInstanceAs (Decidable (op.Issues connections))
  | .sessionFailureHandler _ _ | .sessionFailed _ => inferInstanceAs (Decidable True)

namespace Sample

def viewer : Client := ⟨2, 8, 2⟩

/-- A new hub with its sinks, in which every client is created for the server 1. -/
def sinks : SignalState :=
  SignalState.new (fun _ => {1}) (fun _ => false) ⟨10, 10⟩

abbrev SignalSchedule := List (Machine.Move Choice SignalOp)

def started (i n : Nat) (op : SignalOp) : SignalSchedule :=
  .start op :: replicate n (.step i here)

/-- The handler that the publisher's start, with generation 1, hands out. -/
def publisherHandler : FailureHandler := ⟨.stream, client, 1, some 1⟩

/-- Publisher and viewer register and join channel 5; the stream starts and its handler is made; the
viewer watches. -/
def watched : SignalSchedule :=
  started 0 5 (.hub (.register client)) ++ started 1 5 (.hub (.register viewer)) ++
    started 2 20 (.hub (.joinVoice request)) ++
    started 3 20 (.hub (.joinVoice { request with client := viewer })) ++
    started 4 6 (.hub (.stream (.start ⟨.server, .vp8, false, [⟨"sdr", .vp8, "0", .sdr⟩]⟩)
      ⟨client, 1, 5⟩)) ++
    started 5 2 (.sessionFailureHandler .stream 1) ++
    started 6 6 (.hub (.stream (.watch ⟨[], [], none⟩) ⟨viewer, 1, 5⟩))

/-- The callback is invoked and comes to its removal. -/
def failing : SignalSchedule :=
  started 7 3 (.sessionFailed publisherHandler)

end Sample

/-- The callback of a start with generation 1 takes out the publisher's entry of this generation. -/
theorem stale_failure_keeps_newer_publisher : ∃ cfg cfg' : SignalConfig,
      signalMachine.Reachable (SignalOp.Issues Sample.numbered)
      (fun _ _ _ => True) Sample.sinks cfg ∧ signalMachine.step cfg 7 Sample.here = some cfg' ∧
      Sample.publisherHandler.TakesOnly cfg.state.hub.media cfg'.state.hub.media := by
  obtain ⟨cfg, hrun, hnext, hstep⟩ : ∃ cfg,
      signalMachine.Reachable (SignalOp.Issues Sample.numbered)
      (fun _ _ _ => True) Sample.sinks cfg ∧
        cfg.next 7 = some (.leaveStream Sample.publisherHandler Sample.client) ∧
        (signalMachine.step cfg 7 Sample.here).isSome :=
    Machine.exists_reachable_of_play (Sample.watched ++ Sample.failing) (by decide +kernel)
  obtain ⟨cfg', hstep⟩ := isSome_iff_exists.mp hstep
  exact ⟨cfg, cfg', hrun, hstep, stale_failure_keeps_newer hrun hnext rfl hstep⟩

/-- **The viewer goes with its publisher.** The callback captured generation 1; with the publisher's
entry it also takes out the viewer's, whose generation is 2. -/
theorem viewer_removed_with_publisher :
    ∃ cfg, signalMachine.Reachable (SignalOp.Issues Sample.numbered) (fun _ _ _ => True)
        Sample.sinks cfg ∧
      cfg.next 7 = some (.leaveStream Sample.publisherHandler Sample.client) ∧
      SessionKind.stream.generation cfg.state.hub.media Sample.viewer = some 2 ∧
      (signalMachine.step cfg 7 Sample.here).any fun cfg' =>
        SessionKind.stream.generation cfg'.state.hub.media Sample.viewer = none :=
  Machine.exists_reachable_of_play (Sample.watched ++ Sample.failing) (by decide +kernel)

end Voxhold.Hub
