/-
# Voxhold.Hub.RoomsAgree — rooms and subscriptions agree

`Subscribe` shares `channelAccessMu` and reads under `clientsMu`, so no revocation, refresh, channel
removal or `Unregister` comes between its checks and its two entries; a subscription that does not
fit any more has someone on the way to remove it (`Owes`). Nothing orders a `Subscribe` and an
`Unsubscribe` of one client (`subscription_without_room`); `InTurn` asks for that.
-/

import Voxhold.Hub.Membership
import Voxhold.Hub.Rooms

namespace Voxhold.Hub.Rooms

open Voxhold.Lib Multiset Option State

variable {x : RoomChoice} {s s' : State} {r r' : Registry} {c : Client} {ch srv : Int} {n : Nat}
  {cmd : RegistryCmd} {d b : Cmd} {new : List RoomInstr} {R S : Multiset Cmd} {sub : Subscription}
  {out : List HubInstr}

/-! ## What follows what -/

/-- The registry as a hub, for what is known of the hub's commands. The media state plays no part.
-/
def State.hub (s : State) : HubState where
  registry := s.registry
  media := ⟨VoiceState.new, StreamState.new, ∅, fun _ => false, ⟨0, 0⟩⟩

theorem exec_hub (he : s.registry.exec x.toChoice cmd = some (r', out)) :
    s.hub.exec x.toChoice (.registry cmd) = some ({ s.hub with registry := r' }, out) := by
  simp [HubState.exec, hub, he]

theorem exec_registry (he : s.exec x (.registry cmd) = some (s', new)) :
    ∃ r' out, s.registry.exec x.toChoice cmd = some (r', out) ∧ s' = s.setRegistry r' ∧
      new = pushes cmd out ∧ (writesClients cmd = true → s.readers = 0) := by
  simp only [exec] at he
  split at he
  · cases he
  · next hfree =>
    obtain ⟨⟨r', out⟩, hr, heq⟩ := map_eq_some_iff.mp he
    cases heq
    refine ⟨r', out, hr, rfl, rfl, fun hwrites => ?_⟩
    exact Nat.eq_zero_of_not_pos fun hpos => hfree ⟨hwrites, hpos⟩

/-- The commands that a registry command pushes. -/
inductive Pushed (h : HubState) (cmd : RegistryCmd) : Cmd → Prop where
  | registry (next : RegistryCmd) (hf : Follows h (.registry cmd) (.registry next)) :
      Pushed h cmd (.registry next)
  | unsubscribeAll (c : Client) (hcmd : cmd = .detach c) : Pushed h cmd (.unsubscribeAll c)
  | refreshSubscriptions (c : Client) (srv : Int) (hcmd : cmd = .refreshSnapshot srv) :
      Pushed h cmd (.refreshSubscriptions c srv)
  | unsubscribeFromServer (c : Client) (srv : Int) (hcmd : cmd = .removeClientServer c srv false) :
      Pushed h cmd (.unsubscribeFromServer c srv)

theorem pushed_of_follow {i : HubInstr}
    (hf : ∀ next, i = .run next → Follows s.hub (.registry cmd) next)
    (hb : .run b ∈ follow cmd i) : Pushed s.hub cmd b := by
  unfold follow at hb
  split at hb
  · next next =>
    obtain rfl := run_inj hb
    exact .registry next (hf _ rfl)
  · next c =>
    obtain rfl := run_inj hb
    cases hf _ rfl with
    | leaveVoice => exact .unsubscribeAll c rfl
  · next c =>
    split at hb
    · next srv =>
      obtain rfl := run_inj hb
      exact .refreshSubscriptions c srv rfl
    · cases hb
  · cases hb

theorem pushed_of_afterwards (hb : .run b ∈ afterwards cmd) : Pushed s.hub cmd b := by
  unfold afterwards at hb
  split at hb
  · next c srv =>
    obtain rfl := run_inj hb
    exact .unsubscribeFromServer c srv rfl
  · cases hb

theorem pushed_of_pushes
    (he : s.registry.exec x.toChoice cmd = some (r', out)) (hb : .run b ∈ pushes cmd out) :
    Pushed s.hub cmd b := by
  rcases List.mem_append.mp hb with hb | hb
  · obtain ⟨i, hi, hb⟩ := List.mem_flatMap.mp hb
    refine pushed_of_follow (fun next hnext => ?_) hb
    exact follows_of_exec (exec_hub he) (hnext ▸ hi)
  · exact pushed_of_afterwards hb

/-! ## The locks -/

def Cmd.needs : Cmd → List (Lock × Mode)
  | .registry (.refreshSnapshot _) => [(.channelAccess, .exclusive)]
  | .registry cmd => cmd.needs
  | .subscribe _ _ => [(.channelAccess, .shared)]
  | .unsubscribe _ .revocation _ _ | .unsubscribeFromServer _ _ | .refreshSubscriptions _ _
  | .recheck _ _ | .removeRoom _ | .closeRoom _ _ => [(.channelAccess, .exclusive)]
  | _ => []

theorem Pushed.needs {h : HubState} (hb : Pushed h cmd b) :
    ∀ lock ∈ b.needs, lock ∈ (Cmd.registry cmd).needs := by
  cases hb with
  | registry next hf => cases hf <;> simp [Cmd.needs]
  | unsubscribeAll c hcmd => simp [Cmd.needs]
  | refreshSubscriptions c srv hcmd | unsubscribeFromServer c srv hcmd => simp [Cmd.needs, hcmd]

/-- Only commands are pushed, and they need no more than the command that pushes them. -/
def Cmd.Passes (d : Cmd) (new : List RoomInstr) : Prop :=
  (∀ i ∈ new, ∃ b, i = .run b) ∧ ∀ b, .run b ∈ new → ∀ lock ∈ b.needs, lock ∈ d.needs

namespace Cmd.Passes

theorem map {α : Type} (f : α → Cmd) (l : List α) (hf : ∀ a, (f a).needs = d.needs) :
    d.Passes (l.map fun a => .run (f a)) := by
  refine ⟨fun i hi => ?_, fun b hb lock hlock => ?_⟩
  · obtain ⟨a, -, rfl⟩ := List.mem_map.mp hi
    exact ⟨f a, rfl⟩
  · obtain ⟨a, -, heq⟩ := List.mem_map.mp hb
    rw [← Instr.run.inj heq, hf] at hlock
    exact hlock

theorem nil : d.Passes [] :=
  map (fun _ : Unit => d) [] fun _ => rfl

theorem run (hb : b.needs = d.needs) : d.Passes [.run b] :=
  map (fun _ => b) [()] fun _ => hb

theorem pushes {out : List HubInstr} (he : s.registry.exec x.toChoice cmd = some (r', out)) :
    (Cmd.registry cmd).Passes (pushes cmd out) := by
  refine ⟨fun i hi => ?_, fun b hb => (pushed_of_pushes he hb).needs⟩
  rcases List.mem_append.mp hi with hi | hi
  · obtain ⟨j, -, hi⟩ := List.mem_flatMap.mp hi
    unfold follow at hi
    repeat' split at hi
    all_goals simp_all
  · unfold afterwards at hi
    split at hi
    all_goals simp_all

theorem subscribe (s : State) (stage : SubscribeStage) (sub : Subscription) :
    (Cmd.subscribe stage sub).Passes (s.execSubscribe sub stage).2 := by
  cases stage with
  | record => exact nil
  | _ =>
    simp only [execSubscribe]
    split
    all_goals first | exact nil | exact run rfl

theorem unsubscribe (s : State) (stage : UnsubscribeStage) (origin : Origin) (c : Client)
    (ch : Int) :
    (Cmd.unsubscribe stage origin c ch).Passes (s.execUnsubscribe origin c ch stage).2 := by
  have hneeds : ∀ stage', (Cmd.unsubscribe stage' origin c ch).needs =
      (Cmd.unsubscribe stage origin c ch).needs := by
    cases origin <;> exact fun _ => rfl
  cases stage with
  | getRoom =>
    simp only [execUnsubscribe]
    repeat' split
    all_goals first | exact nil | exact run (hneeds _)
  | remove n => exact run (hneeds _)
  | forget => exact nil

end Cmd.Passes

theorem passes_of_exec (he : s.exec x d = some (s', new)) : d.Passes new := by
  cases d with
  | registry cmd =>
    obtain ⟨r', out, hr, -, rfl, -⟩ := exec_registry he
    exact .pushes hr
  | subscribe stage sub =>
    obtain rfl := congrArg Prod.snd (Option.some.inj he)
    exact .subscribe s stage sub
  | unsubscribe stage origin c ch =>
    obtain rfl := congrArg Prod.snd (Option.some.inj he)
    exact .unsubscribe s stage origin c ch
  | unsubscribeAll | unsubscribeFromServer | refreshSubscriptions | closeRoom =>
    obtain ⟨-, heq⟩ := ite_none_right_eq_some.mp he
    cases heq
    exact .map _ _ fun _ => rfl
  | recheck c ch =>
    cases he
    split
    · exact .nil
    · exact .run rfl
  | removeRoom ch =>
    simp only [exec] at he
    repeat' split at he
    all_goals cases he
    · exact .nil
    · exact .nil
    · exact .run rfl

theorem machine_keeps : machine.Keeps Cmd.needs (fun _ => False) entryLock where
  body op := by
    show Disciplined Cmd.needs (fun _ => False) [] op.body
    cases op <;> simp [Op.body, Cmd.needs]
  exec := by
    intro d x s s' new held rest he hd
    obtain ⟨hheld, -, hrest⟩ := hd
    obtain ⟨hruns, hneeds⟩ := passes_of_exec he
    exact Disciplined.runs hruns (fun b hb lock hlock => hheld lock (hneeds b hb lock hlock))
      (fun _ _ => id) hrest
  bodyEntry := by
    rintro op l mode rfl
    show .acquire .channelAccess mode ∉ op.body.tail
    cases op <;> simp [Op.body]
  execEntry := by
    intro d x s s' new l mode he _ hmem
    obtain ⟨b, hb⟩ := (passes_of_exec he).1 _ hmem
    cases hb

def Cmd.Starts : Cmd → Prop
  | .registry _ | .subscribe .access _ | .unsubscribe .getRoom .request _ _ | .removeRoom _ => True
  | _ => False

theorem starts_of_body {op : Op} (hb : .run b ∈ op.body) : b.Starts := by
  cases op <;> simp [Op.body] at hb <;> subst hb <;> exact trivial

section Exclusion

variable {allowed : Op → Prop} {guard : State → Multiset Cmd → Cmd → Prop} {init : State}
  {cfg : RoomConfig} {i : Nat} {rest : List RoomInstr}

theorem not_mem_of_modes {m m' : Mode} (hrun : machine.Reachable allowed guard init cfg)
    (hf : machine.Fires cfg i d x s' new rest R) (hd : (.channelAccess, m) ∈ d.needs)
    (hb : (.channelAccess, m') ∈ b.needs) (hm : m ≠ m') (hstarts : ¬b.Starts) : b ∉ R := by
  intro hmem
  have hpending : b ∈ cfg.pending := hf.pending ▸ mem_cons_of_mem hmem
  exact hm (hrun.mode_eq machine_keeps rfl hf.head hd hpending hb
    fun op hop => hstarts (starts_of_body hop))

end Exclusion

/-! ## The requests in flight -/

/-- The subscription of a `Subscribe` that reads under `clientsMu`. -/
def Cmd.reading : Cmd → Option Subscription
  | .subscribe .access _ | .subscribe .registered _ => none
  | .subscribe _ sub => some sub
  | _ => none

/-- The client whose request is in flight with this command next. -/
def Cmd.request : Cmd → Option Client
  | .subscribe .access _ => none
  | .subscribe _ sub => some sub.client
  | .unsubscribe .getRoom _ _ _ => none
  | .unsubscribe _ .request c _ => some c
  | _ => none

def Cmd.begins : Cmd → Option Client
  | .subscribe .access sub => some sub.client
  | .unsubscribe .getRoom .request c _ => some c
  | _ => none

def Cmd.registers : Cmd → Option Client
  | .registry (.load c) => some c
  | _ => none

/-- The requests of a connection are served one after the other, and a registered connection does
not register again. -/
def InTurn (s : State) (S : Multiset Cmd) (d : Cmd) : Prop :=
  (∀ c ∈ d.begins, ∀ b ∈ S, b.request ≠ some c) ∧ ∀ c ∈ d.registers, c ∉ s.registry.clients
deriving Decidable

def sections (S : Multiset Cmd) : Nat :=
  S.countP fun b => b.reading.isSome

theorem sections_cons (b : Cmd) (R : Multiset Cmd) :
    sections (b ::ₘ R) = sections R + if b.reading.isSome then 1 else 0 :=
  countP_cons ..

/-! ## The invariant -/

namespace State

variable (s)

def Has (sub : Subscription) : Prop :=
  (s.subscriptions sub.client).lookup sub.channelID = some sub.serverID

/-- The client is registered and a member of the server. -/
def Member (sub : Subscription) : Prop :=
  sub.client ∈ s.registry.clients ∧ sub.serverID ∈ s.registry.servers sub.client

/-- Where the server has been refreshed, the client's policy lets it have the channel. -/
def Allowed (sub : Subscription) : Prop :=
  sub.serverID ∈ s.refreshed sub.client →
    s.registry.canAccessChannel sub.client sub.channelID = true

end State

namespace Cmd

/-- The command, or one after it, takes the subscription out. -/
def Owes (s : State) (sub : Subscription) : Cmd → Prop
  | .unsubscribe _ _ c ch => c = sub.client ∧ ch = sub.channelID
  | .unsubscribeAll c => c = sub.client
  | .unsubscribeFromServer c srv => c = sub.client ∧ srv = sub.serverID
  | .closeRoom ch n => ch = sub.channelID ∧ sub.client ∈ (s.heap ch n).clients
  | _ => False

/-- The command, or one after it, compares the subscription with the policy. -/
def Rechecks (sub : Subscription) : Cmd → Prop
  | .recheck c ch => c = sub.client ∧ ch = sub.channelID
  | .refreshSubscriptions c srv => c = sub.client ∧ srv = sub.serverID
  | _ => False

/-- What a pending command knows of the registry. -/
def Entitled (s : State) : Cmd → Prop
  | .registry (.detach c) => c ∈ s.registry.done
  | .registry (.unregisterPresence c) | .registry (.removeClientServer c _ true)
  | .unsubscribeAll c | .unsubscribe _ .unregister c _ => Gone s.hub c
  | .subscribe .access _ => True
  | .subscribe .registered sub => 0 < sub.channelID ∧ s.Allowed sub
  | .subscribe _ sub => 0 < sub.channelID ∧ s.Allowed sub ∧ s.Member sub
  | _ => True

/-- What a pending command knows of the rooms. -/
def Placed (s : State) : Cmd → Prop
  | .subscribe (.add n) sub => s.rooms.lookup sub.channelID = some n
  | .subscribe .record sub => s.InRoom sub.client sub.channelID
  | .unsubscribe (.remove n) _ c ch => s.rooms.lookup ch = some n ∨ ¬s.InRoom c ch
  | .unsubscribe .forget _ c ch => ¬s.InRoom c ch
  | .closeRoom ch _ => s.rooms.lookup ch = none
  | _ => True

end Cmd

/-- A subscription as it should be: in the room, of a member, and allowed or about to be compared.
-/
structure State.Fine (s : State) (S : Multiset Cmd) (sub : Subscription) : Prop where
  inRoom : s.InRoom sub.client sub.channelID
  member : s.Member sub
  allowed : s.Allowed sub ∨ ∃ b ∈ S, b.Rechecks sub

/-- The invariant: the pending commands know what they rely on, whoever is in a room has the channel
or is about to, a subscription is fine or on its way out, and a closed client that is registered is
about to be unregistered. -/
structure Sound (s : State) (S : Multiset Cmd) : Prop where
  readers : s.readers = sections S
  serial : Serial Cmd.request S
  entitled : ∀ b ∈ S, b.Entitled s
  placed : ∀ b ∈ S, b.Placed s
  positive : ∀ sub, s.Has sub → 0 < sub.channelID
  heard : ∀ c ch, s.InRoom c ch →
    (∃ srv, s.Has ⟨c, srv, ch⟩) ∨ ∃ srv, .subscribe .record ⟨c, srv, ch⟩ ∈ S
  kept : ∀ sub, s.Has sub → s.Fine S sub ∨ ∃ b ∈ S, b.Owes s sub
  closing : ∀ c ∈ s.registry.clients, c ∈ s.registry.done → .registry (.detach c) ∈ S

/-! ## Steps that only pass on -/

theorem sections_eq_zero (h : ∀ b, .run b ∈ new → b.reading = none) :
    sections (cmds new : Multiset Cmd) = 0 :=
  countP_eq_zero.mpr fun b hb => by simp [h b (mem_cmds.mp (mem_coe.mp hb))]

theorem serial_pushed (h : Serial Cmd.request (d ::ₘ R))
    (hnew : ∀ b, .run b ∈ new → b.request = none) : Serial Cmd.request (cmds new + R) :=
  h.drop.add fun b hb => hnew b (mem_cmds.mp (mem_coe.mp hb))

namespace Sound

theorem push {k : Nat} (h : Sound s (d ::ₘ R))
    (hk : k + (if d.reading.isSome then 1 else 0) = s.readers + sections (cmds new))
    (hserial : Serial Cmd.request (cmds new + R))
    (hnew : ∀ b, .run b ∈ new → b.Entitled s ∧ b.Placed s)
    (hclosing : ∀ c, d ≠ .registry (.detach c))
    (hheard : ∀ sub, d = .subscribe .record sub → s.Has sub)
    (howes : ∀ sub, s.Has sub → d.Owes s sub → ∃ b, .run b ∈ new ∧ b.Owes s sub)
    (hrechecks : ∀ sub, s.Has sub → d.Rechecks sub → s.Allowed sub ∨
      ∃ b, .run b ∈ new ∧ (b.Rechecks sub ∨ b.Owes s sub)) :
    Sound { s with readers := k } (cmds new + R) where
  readers := by
    have hreaders := h.readers
    rw [sections_cons] at hreaders
    show k = sections (cmds new + R)
    have hsplit : sections (cmds new + R) = sections (cmds new) + sections R :=
      countP_add ..
    omega
  serial := hserial
  entitled b hb := by
    rcases mem_pushed.mp hb with hb | hb
    · exact (hnew b hb).1
    · exact h.entitled b (mem_cons_of_mem hb)
  placed b hb := by
    rcases mem_pushed.mp hb with hb | hb
    · exact (hnew b hb).2
    · exact h.placed b (mem_cons_of_mem hb)
  positive := h.positive
  heard c ch hroom := by
    rcases h.heard c ch hroom with hhas | ⟨srv, hmem⟩
    · exact .inl hhas
    · rcases mem_cons.mp hmem with rfl | hmem
      · exact .inl ⟨srv, hheard _ rfl⟩
      · exact .inr ⟨srv, mem_pushed.mpr (.inr hmem)⟩
  kept sub hhas := by
    have hpass : (∃ b, .run b ∈ new ∧ b.Owes s sub) →
        ∃ b ∈ cmds new + R, b.Owes s sub :=
      fun ⟨b, hb, how⟩ => ⟨b, mem_pushed.mpr (.inl hb), how⟩
    rcases h.kept sub hhas with hfine | ⟨b, hb, how⟩
    · rcases hfine.allowed with hallowed | ⟨b, hb, hre⟩
      · exact .inl ⟨hfine.inRoom, hfine.member, .inl hallowed⟩
      · rcases mem_cons.mp hb with rfl | hb
        · rcases hrechecks sub hhas hre with hallowed | ⟨b', hb', hre | how⟩
          · exact .inl ⟨hfine.inRoom, hfine.member, .inl hallowed⟩
          · exact .inl ⟨hfine.inRoom, hfine.member, .inr ⟨b', mem_pushed.mpr (.inl hb'), hre⟩⟩
          · exact .inr (hpass ⟨b', hb', how⟩)
        · exact .inl ⟨hfine.inRoom, hfine.member, .inr ⟨b, mem_pushed.mpr (.inr hb), hre⟩⟩
    · rcases mem_cons.mp hb with rfl | hb
      · exact .inr (hpass (howes sub hhas how))
      · exact .inr ⟨b, mem_pushed.mpr (.inr hb), how⟩
  closing c hc hdone := by
    rcases mem_cons.mp (h.closing c hc hdone) with heq | hmem
    · exact absurd heq.symm (hclosing c)
    · exact mem_pushed.mpr (.inr hmem)

theorem spread (h : Sound s (d ::ₘ R)) (hd : d.reading = none)
    (hidle : ∀ b, .run b ∈ new → b.reading = none ∧ b.request = none)
    (hnew : ∀ b, .run b ∈ new → b.Entitled s ∧ b.Placed s)
    (hclosing : ∀ c, d ≠ .registry (.detach c))
    (howes : ∀ sub, s.Has sub → d.Owes s sub → ∃ b, .run b ∈ new ∧ b.Owes s sub)
    (hrechecks : ∀ sub, s.Has sub → d.Rechecks sub → s.Allowed sub ∨
      ∃ b, .run b ∈ new ∧ (b.Rechecks sub ∨ b.Owes s sub)) : Sound s (cmds new + R) := by
  refine h.push ?_ (serial_pushed h.serial fun b hb => (hidle b hb).2) hnew hclosing ?_ howes
    hrechecks
  · rw [hd, sections_eq_zero fun b hb => (hidle b hb).1]
    rfl
  · rintro sub rfl
    cases hd

theorem finish (h : Sound s (d ::ₘ R)) (hd : d.reading = none)
    (hclosing : ∀ c, d ≠ .registry (.detach c)) (howes : ∀ sub, s.Has sub → ¬d.Owes s sub)
    (hrechecks : ∀ sub, s.Has sub → d.Rechecks sub → s.Allowed sub) :
    Sound s ((cmds ([] : List RoomInstr) : Multiset Cmd) + R) :=
  h.spread hd (fun _ hb => absurd hb List.not_mem_nil)
    (fun _ hb => absurd hb List.not_mem_nil) hclosing
    (fun sub hhas how => absurd how (howes sub hhas)) fun sub hhas hre => .inl
    (hrechecks sub hhas hre)

end Sound

/-! ## Rooms come and go -/

theorem inRoom_store (s : State) (ch : Int) (n : Nat) (room : Room) (c : Client) (ch' : Int) :
    (s.store ch n room).InRoom c ch' ↔
      if ch' = ch ∧ s.rooms.lookup ch = some n then c ∈ room.clients else s.InRoom c ch' := by
  unfold State.InRoom
  by_cases hch : ch' = ch
  · subst hch
    cases hlookup : s.rooms.lookup ch' with
    | none => simp [State.store, hlookup]
    | some k =>
      by_cases hk : k = n
      · simp [State.store, hlookup, hk]
      · simp [State.store, hlookup, hk]
  · simp [State.store, hch]

theorem inRoom_addRoom (hnone : s.rooms.lookup ch = none) (c : Client) (ch' : Int) :
    (s.addRoom ch).InRoom c ch' ↔ s.InRoom c ch' := by
  unfold State.InRoom
  by_cases hch : ch' = ch
  · subst hch
    simp [State.addRoom, State.store, hnone, Room.newRoom]
  · simp [State.addRoom, State.store, hch]

theorem inRoom_deleteRoom (s : State) (ch : Int) (c : Client) (ch' : Int) :
    (s.deleteRoom ch).InRoom c ch' ↔ ch' ≠ ch ∧ s.InRoom c ch' := by
  unfold State.InRoom
  by_cases hch : ch' = ch
  · subst hch
    simp [deleteRoom]
  · simp [deleteRoom, hch]

theorem inRoom_remove (hplaced : s.rooms.lookup ch = some n ∨ ¬s.InRoom c ch) (c' : Client)
    (ch' : Int) : (s.store ch n ((s.heap ch n).remove c)).InRoom c' ch' ↔
      s.InRoom c' ch' ∧ ¬(c' = c ∧ ch' = ch) := by
  rw [inRoom_store]
  split
  · next hlisted =>
    obtain ⟨rfl, hlookup⟩ := hlisted
    have hroom : s.InRoom c' ch' ↔ c' ∈ (s.heap ch' n).clients := by
      simp [State.InRoom, hlookup]
    rw [hroom, Room.remove, Finset.mem_erase]
    simp [and_comm]
  · next hother =>
    refine ⟨fun hroom => ⟨hroom, ?_⟩, And.left⟩
    rintro ⟨rfl, rfl⟩
    rcases hplaced with hlookup | hout
    · exact hother ⟨rfl, hlookup⟩
    · exact hout hroom

theorem Cmd.Placed.of_heap (hb : b.Placed s) (hrooms : s'.rooms = s.rooms)
    (hrecord : ∀ sub, b = .subscribe .record sub →
      s.InRoom sub.client sub.channelID → s'.InRoom sub.client sub.channelID)
    (hforget : ∀ stage origin c ch, b = .unsubscribe stage origin c ch → stage ≠ .getRoom →
      s'.InRoom c ch → s.InRoom c ch) : b.Placed s' := by
  cases b with
  | subscribe stage sub =>
    cases stage with
    | add n => exact (congrArg (AList.lookup sub.channelID) hrooms).trans hb
    | record => exact hrecord sub rfl hb
    | _ => trivial
  | unsubscribe stage origin c ch =>
    cases stage with
    | getRoom => trivial
    | remove n =>
      refine hb.imp (congrArg (AList.lookup ch) hrooms).trans fun hout hin => hout ?_
      exact hforget (.remove n) origin c ch rfl nofun hin
    | forget => exact fun hin => hb (hforget .forget origin c ch rfl nofun hin)
  | closeRoom ch n => exact (congrArg (AList.lookup ch) hrooms).trans hb
  | _ => trivial

theorem Cmd.Owes.of_heap (how : b.Owes s sub)
    (hheap : ∀ n, b = .closeRoom sub.channelID n → sub.client ∈ (s.heap sub.channelID n).clients →
      sub.client ∈ (s'.heap sub.channelID n).clients) : b.Owes s' sub := by
  cases b with
  | closeRoom ch n =>
    obtain ⟨rfl, hin⟩ := how
    exact ⟨rfl, hheap n rfl hin⟩
  | _ => exact how

namespace Sound

theorem addRoom (h : Sound s S) (hnone : s.rooms.lookup ch = none)
    (hclose : ∀ n, .closeRoom ch n ∉ S) : Sound (s.addRoom ch) S where
  __ := h
  placed b hb := by
    have hroom := inRoom_addRoom hnone
    have hlookup : ∀ ch', ch' ≠ ch → (s.addRoom ch).rooms.lookup ch' = s.rooms.lookup ch' :=
      fun ch' hne => AList.lookup_insert_ne hne
    have hplaced := h.placed b hb
    cases b with
    | subscribe stage sub =>
      cases stage with
      | add k =>
        have hk : s.rooms.lookup sub.channelID = some k := hplaced
        have hne : sub.channelID ≠ ch := by
          intro heq
          rw [heq, hnone] at hk
          cases hk
        exact (hlookup _ hne).trans hk
      | record => exact (hroom _ _).mpr hplaced
      | _ => trivial
    | unsubscribe stage origin c ch' =>
      cases stage with
      | getRoom => trivial
      | remove k =>
        by_cases hch : ch' = ch
        · subst hch
          refine .inr fun hin => ?_
          obtain ⟨m, hm, -⟩ := (hroom c ch').mp hin
          rw [hnone] at hm
          cases hm
        · rcases hplaced with hk | hout
          · exact .inl ((hlookup _ hch).trans hk)
          · exact .inr fun hin => hout ((hroom c ch').mp hin)
      | forget => exact fun hin => hplaced ((hroom c ch').mp hin)
    | closeRoom ch' k =>
      have hne : ch' ≠ ch := fun heq => hclose k (heq ▸ hb)
      exact (hlookup _ hne).trans hplaced
    | _ => trivial
  heard c ch' hin := h.heard c ch' ((inRoom_addRoom hnone c ch').mp hin)
  kept sub hhas := by
    rcases h.kept sub hhas with hfine | ⟨b, hb, how⟩
    · exact .inl ⟨(inRoom_addRoom hnone _ _).mpr hfine.inRoom, hfine.member, hfine.allowed⟩
    · refine .inr ⟨b, hb, how.of_heap fun n heq hin => ?_⟩
      -- the new object is not one that is being closed
      have hne : sub.channelID ≠ ch := by
        rintro rfl
        exact hclose n (heq ▸ hb)
      simpa [State.addRoom, State.store, hne] using hin

theorem enter {room : Room} (h : Sound s (.subscribe (.add n) sub ::ₘ R))
    (hadd : (s.heap sub.channelID n).add sub.client = some room)
    (hfree : ∀ stage origin, stage ≠ .getRoom →
      .unsubscribe stage origin sub.client sub.channelID ∉ R) :
    Sound (s.store sub.channelID n room) (.subscribe .record sub ::ₘ R) := by
  obtain ⟨-, hclients⟩ := Room.add_eq_some hadd
  have hlookup : s.rooms.lookup sub.channelID = some n :=
    h.placed _ (mem_cons_self _ _)
  have hroom : ∀ c ch, (s.store sub.channelID n room).InRoom c ch ↔
      s.InRoom c ch ∨ c = sub.client ∧ ch = sub.channelID := by
    intro c ch
    rw [inRoom_store]
    split
    · next hlisted =>
      rw [hlisted.1, hclients, Finset.mem_insert]
      simp [State.InRoom, hlookup, or_comm]
    · next hother =>
      have hne : ch ≠ sub.channelID := fun heq => hother ⟨heq, hlookup⟩
      simp [hne]
  obtain ⟨hentitled, hentitledR⟩ := forall_mem_cons.mp h.entitled
  refine ⟨?readers, h.serial.replace rfl, forall_mem_cons.mpr ⟨hentitled, hentitledR⟩,
    forall_mem_cons.mpr ⟨?record, ?placed⟩, h.positive, ?heard, ?kept, ?closing⟩
  case readers =>
    have hreaders := h.readers
    rw [sections_cons] at hreaders ⊢
    exact hreaders
  case record => exact (hroom _ _).mpr (.inr ⟨rfl, rfl⟩)
  case placed =>
    intro b hb
    refine (h.placed b (mem_cons_of_mem hb)).of_heap rfl
      (fun sub' _ hin => (hroom _ _).mpr (.inl hin)) fun stage origin c ch heq hstage hin => ?_
    -- an `Unsubscribe` of the same client would be in flight beside the `Subscribe`
    refine ((hroom c ch).mp hin).resolve_right ?_
    rintro ⟨rfl, rfl⟩
    exact hfree stage origin hstage (heq ▸ hb)
  case heard =>
    intro c ch hin
    rcases (hroom c ch).mp hin with hin | ⟨rfl, rfl⟩
    · refine (h.heard c ch hin).imp_right fun ⟨srv, hmem⟩ => ⟨srv, mem_cons_of_mem ?_⟩
      exact (mem_cons.mp hmem).resolve_left nofun
    · exact .inr ⟨sub.serverID, mem_cons_self _ _⟩
  case kept =>
    intro sub' hhas
    rcases h.kept sub' hhas with hfine | howes
    · refine .inl ⟨(hroom _ _).mpr (.inl hfine.inRoom), hfine.member, ?_⟩
      refine hfine.allowed.imp_right fun hre => ?_
      obtain ⟨b, hb, hre⟩ := exists_mem_rest hre id
      exact ⟨b, mem_cons_of_mem hb, hre⟩
    · obtain ⟨b, hb, how⟩ := exists_mem_rest howes id
      refine .inr ⟨b, mem_cons_of_mem hb, how.of_heap fun k _ hin => ?_⟩
      show sub'.client ∈
        (if sub'.channelID = sub.channelID ∧ k = n then room else s.heap sub'.channelID k).clients
      split
      · next heq =>
        rw [hclients, ← heq.1, ← heq.2]
        exact Finset.mem_insert_of_mem hin
      · exact hin
  case closing =>
    intro c hc hdone
    refine mem_cons_of_mem ?_
    exact (mem_cons.mp (h.closing c hc hdone)).resolve_left nofun

theorem remove {origin : Origin} (h : Sound s S) (hmem : .unsubscribe (.remove n) origin c ch ∈ S)
    (hfree : ∀ srv, .subscribe .record ⟨c, srv, ch⟩ ∉ S) :
    Sound (s.store ch n ((s.heap ch n).remove c)) S := by
  have hroom := inRoom_remove (h.placed _ hmem)
  refine ⟨h.readers, h.serial, h.entitled, ?placed, h.positive, ?heard, ?kept, h.closing⟩
  case placed =>
    intro b hb
    refine (h.placed b hb).of_heap rfl (fun sub heq hin => (hroom _ _).mpr ⟨hin, ?_⟩)
      fun _ _ c' ch' _ _ hin => ((hroom c' ch').mp hin).1
    rintro ⟨rfl, rfl⟩
    exact hfree sub.serverID (heq ▸ hb)
  case heard => exact fun c' ch' hin => h.heard c' ch' ((hroom c' ch').mp hin).1
  case kept =>
    intro sub hhas
    by_cases hsub : sub.client = c ∧ sub.channelID = ch
    · exact .inr ⟨_, hmem, hsub.1.symm, hsub.2.symm⟩
    · rcases h.kept sub hhas with hfine | ⟨b, hb, how⟩
      · exact .inl ⟨(hroom _ _).mpr ⟨hfine.inRoom, hsub⟩, hfine.member, hfine.allowed⟩
      · refine .inr ⟨b, hb, how.of_heap fun k _ hin => ?_⟩
        show sub.client ∈ (if sub.channelID = ch ∧ k = n then (s.heap ch n).remove c
          else s.heap sub.channelID k).clients
        split
        · next heq =>
          obtain ⟨rfl, rfl⟩ := heq
          exact Finset.mem_erase.mpr ⟨fun hc => hsub ⟨hc, rfl⟩, hin⟩
        · exact hin

theorem deleteRoom (h : Sound s (.removeRoom ch ::ₘ R)) (hlookup : s.rooms.lookup ch = some n)
    (hfree : ∀ stage sub, .subscribe stage sub ∈ R → stage = .access) :
    Sound (s.deleteRoom ch) (.closeRoom ch n ::ₘ R) := by
  have hroom := inRoom_deleteRoom s ch
  have hrooms : ∀ ch', (s.deleteRoom ch).rooms.lookup ch' =
      if ch' = ch then none else s.rooms.lookup ch' := lookup_erase_eq_ite s.rooms ch
  obtain ⟨-, hentitledR⟩ := forall_mem_cons.mp h.entitled
  refine ⟨?readers, h.serial.replace rfl, forall_mem_cons.mpr ⟨trivial, hentitledR⟩,
    forall_mem_cons.mpr ⟨(hrooms ch).trans (if_pos rfl), ?placed⟩, h.positive, ?heard, ?kept,
    ?closing⟩
  case readers =>
    have hreaders := h.readers
    rw [sections_cons] at hreaders ⊢
    exact hreaders
  case placed =>
    intro b hb
    have hplaced := h.placed b (mem_cons_of_mem hb)
    cases b with
    | subscribe stage sub =>
      obtain rfl := hfree stage sub hb
      trivial
    | unsubscribe stage origin c ch' =>
      cases stage with
      | getRoom => trivial
      | remove k =>
        by_cases hch : ch' = ch
        · exact .inr fun hin => ((hroom c ch').mp hin).1 hch
        · refine hplaced.imp (fun hk => ?_) fun hout hin => hout ((hroom c ch').mp hin).2
          exact (hrooms ch').trans ((if_neg hch).trans hk)
      | forget => exact fun hin => hplaced ((hroom c ch').mp hin).2
    | closeRoom ch' k =>
      show (s.deleteRoom ch).rooms.lookup ch' = none
      rw [hrooms]
      split
      · rfl
      · exact hplaced
    | _ => trivial
  case heard =>
    intro c ch' hin
    refine (h.heard c ch' ((hroom c ch').mp hin).2).imp_right fun ⟨srv, hmem⟩ =>
      ⟨srv, mem_cons_of_mem ?_⟩
    exact (mem_cons.mp hmem).resolve_left nofun
  case kept =>
    intro sub hhas
    rcases h.kept sub hhas with hfine | howes
    · by_cases hch : sub.channelID = ch
      · -- in the object that is about to be closed
        obtain ⟨k, hk, hin⟩ := hfine.inRoom
        obtain rfl : n = k := Option.some.inj (by rw [← hlookup, ← hk, hch])
        exact .inr ⟨_, mem_cons_self _ _, hch.symm, hch ▸ hin⟩
      · refine .inl ⟨(hroom _ _).mpr ⟨hch, hfine.inRoom⟩, hfine.member, ?_⟩
        refine hfine.allowed.imp_right fun hre => ?_
        obtain ⟨b, hb, hre⟩ := exists_mem_rest hre id
        exact ⟨b, mem_cons_of_mem hb, hre⟩
    · obtain ⟨b, hb, how⟩ := exists_mem_rest howes id
      exact .inr ⟨b, mem_cons_of_mem hb, how.of_heap fun _ _ hin => hin⟩
  case closing =>
    intro c hc hdone
    refine mem_cons_of_mem ?_
    exact (mem_cons.mp (h.closing c hc hdone)).resolve_left nofun

theorem closeRoom (h : Sound s S) (hnone : s.rooms.lookup ch = none)
    (hforget : ∀ c ∈ (s.heap ch n).clients, .unsubscribe .forget .revocation c ch ∈ S) :
    Sound (s.store ch n (s.heap ch n).closeAndSnapshot) S := by
  have hroom : ∀ c ch', (s.store ch n (s.heap ch n).closeAndSnapshot).InRoom c ch' ↔
      s.InRoom c ch' := by
    intro c ch'
    rw [inRoom_store, if_neg (by simp [hnone])]
  refine ⟨h.readers, h.serial, h.entitled, ?placed, h.positive, ?heard, ?kept, h.closing⟩
  case placed =>
    exact fun b hb => (h.placed b hb).of_heap rfl (fun sub _ => (hroom _ _).mpr)
      fun _ _ c ch' _ _ => (hroom c ch').mp
  case heard => exact fun c ch' hin => h.heard c ch' ((hroom c ch').mp hin)
  case kept =>
    intro sub hhas
    rcases h.kept sub hhas with hfine | ⟨b, hb, how⟩
    · exact .inl ⟨(hroom _ _).mpr hfine.inRoom, hfine.member, hfine.allowed⟩
    · by_cases hclosed : b = .closeRoom ch n
      · subst hclosed
        obtain ⟨rfl, hin⟩ := how
        exact .inr ⟨_, hforget _ hin, rfl, rfl⟩
      · refine .inr ⟨b, hb, how.of_heap fun k heq hin => ?_⟩
        have hother : ¬(sub.channelID = ch ∧ k = n) := by
          rintro ⟨rfl, rfl⟩
          exact hclosed heq
        simpa [State.store, hother] using hin

end Sound

/-! ## Subscriptions come and go -/

theorem has_addSubscription (s : State) (sub sub' : Subscription) :
    (s.addSubscription sub).Has sub' ↔
      if sub'.client = sub.client ∧ sub'.channelID = sub.channelID then sub' = sub else
      s.Has sub' := by
  obtain ⟨c, srv, ch⟩ := sub
  obtain ⟨c', srv', ch'⟩ := sub'
  simp only [State.Has, addSubscription, Subscription.mk.injEq]
  by_cases hc : c' = c
  · subst hc
    rw [if_pos rfl, lookup_insert_eq_ite]
    by_cases hch : ch' = ch
    · simp [hch, eq_comm]
    · simp [hch]
  · simp [hc]

theorem has_removeSubscription (s : State) (c : Client) (ch : Int) (sub : Subscription) :
    (s.removeSubscription c ch).Has sub ↔ s.Has sub ∧ ¬(sub.client = c ∧ sub.channelID = ch) := by
  simp only [State.Has, removeSubscription]
  by_cases hc : sub.client = c
  · rw [if_pos hc, lookup_erase_eq_ite]
    by_cases hch : sub.channelID = ch
    · simp [hc, hch]
    · simp [hch]
  · simp [hc]

namespace Sound

theorem addSubscription (h : Sound s S) (hmem : .subscribe .record sub ∈ S) :
    Sound (s.addSubscription sub) S where
  __ := h
  positive sub' hhas := by
    rw [has_addSubscription] at hhas
    split at hhas
    · rw [hhas]
      exact (h.entitled _ hmem).1
    · exact h.positive sub' hhas
  heard c ch hin := by
    by_cases heq : c = sub.client ∧ ch = sub.channelID
    · refine .inl ⟨sub.serverID, (has_addSubscription s sub _).mpr ?_⟩
      rw [if_pos heq, heq.1, heq.2]
    · refine (h.heard c ch hin).imp_left fun ⟨srv, hhas⟩ => ⟨srv, ?_⟩
      rw [has_addSubscription, if_neg heq]
      exact hhas
  kept sub' hhas := by
    rw [has_addSubscription] at hhas
    split at hhas
    · obtain ⟨-, hallowed, hmember⟩ := h.entitled _ hmem
      rw [hhas]
      exact .inl ⟨h.placed _ hmem, hmember, .inl hallowed⟩
    · rcases h.kept sub' hhas with hfine | ⟨b, hb, how⟩
      · exact .inl ⟨hfine.inRoom, hfine.member, hfine.allowed⟩
      · exact .inr ⟨b, hb, how⟩

theorem removeSubscription {origin : Origin} (h : Sound s S)
    (hmem : .unsubscribe .forget origin c ch ∈ S) : Sound (s.removeSubscription c ch) S where
  __ := h
  positive sub hhas := h.positive sub ((has_removeSubscription s c ch sub).mp hhas).1
  heard c' ch' hin := by
    have hout : ¬s.InRoom c ch := h.placed _ hmem
    refine (h.heard c' ch' hin).imp_left fun ⟨srv, hhas⟩ => ⟨srv, ?_⟩
    refine (has_removeSubscription s c ch _).mpr ⟨hhas, ?_⟩
    rintro ⟨rfl, rfl⟩
    exact hout hin
  kept sub hhas := by
    rcases h.kept sub ((has_removeSubscription s c ch sub).mp hhas).1 with hfine | ⟨b, hb, how⟩
    · exact .inl ⟨hfine.inRoom, hfine.member, hfine.allowed⟩
    · exact .inr ⟨b, hb, how⟩

theorem refresh (h : Sound s S) (hmem : .refreshSubscriptions c srv ∈ S)
    (hfree : ∀ stage sub, .subscribe stage sub ∈ S → stage = .access) : Sound
    { s with refreshed := fun d => if d = c then insert srv (s.refreshed d) else s.refreshed d }
      S where
  __ := h
  entitled b hb := by
    have hentitled := h.entitled b hb
    cases b with
    | subscribe stage sub =>
      obtain rfl := hfree stage sub hb
      trivial
    | registry next =>
      cases next with
      | removeClientServer c srv announce => cases announce <;> exact hentitled
      | _ => exact hentitled
    | unsubscribe stage origin => cases origin <;> exact hentitled
    | _ => exact hentitled
  kept sub hhas := by
    rcases h.kept sub hhas with hfine | ⟨b, hb, how⟩
    · refine .inl ⟨hfine.inRoom, hfine.member, ?_⟩
      by_cases heq : sub.client = c ∧ sub.serverID = srv
      · exact .inr ⟨_, hmem, heq.1.symm, heq.2.symm⟩
      · refine hfine.allowed.imp_left fun hallowed hin => hallowed ?_
        replace hin : sub.serverID ∈
            if sub.client = c then insert srv (s.refreshed sub.client)
            else s.refreshed sub.client := hin
        split at hin
        · next hc => exact Finset.mem_of_mem_insert_of_ne hin fun hsrv => heq ⟨hc, hsrv⟩
        · exact hin
    · exact .inr ⟨b, hb, how⟩

end Sound

/-! ## The registry changes -/

theorem allowed_setRegistry (hallowed : s.Allowed sub) : (s.setRegistry r').Allowed sub := by
  intro hin
  replace hin : sub.serverID ∈
      if r'.channelAccess sub.client = s.registry.channelAccess sub.client
      then s.refreshed sub.client else ∅ := hin
  split at hin
  · next hsame =>
    show r'.canAccessChannel sub.client sub.channelID = true
    have hcan := hallowed hin
    unfold Registry.canAccessChannel at hcan ⊢
    rwa [hsame]
  · exact absurd hin (Finset.notMem_empty _)

theorem Pushed.idle {h : HubState} (hb : Pushed h cmd b) (s : State) :
    b.reading = none ∧ b.request = none ∧ b.Placed s := by
  cases hb <;> exact ⟨rfl, rfl, trivial⟩

theorem gone_detach
    (he : s.registry.exec x.toChoice (.detach c) = some (r', out)) (hdone : c ∈ s.registry.done) :
    Gone (s.setRegistry r').hub c :=
  ⟨not_mem_clients_of_detach (exec_hub he), done_of_exec (exec_hub he) hdone⟩

section Registry

variable (he : s.registry.exec x.toChoice cmd = some (r', out))
include he

theorem gone_setRegistry (hgone : Gone s.hub c) : Gone (s.setRegistry r').hub c :=
  hgone.of_exec (exec_hub he)

theorem member_of_reads (hreads : writesClients cmd = false) (hmember : s.Member sub) :
    (s.setRegistry r').Member sub := by
  constructor
  · rcases clients_of_exec (exec_hub he) hmember.1 with hc | ⟨heq, -⟩
    · exact hc
    · cases heq
      cases hreads
  · rcases servers_of_exec (exec_hub he) hmember.2 with hs | ⟨announce, heq⟩
    · exact hs
    · cases heq
      cases hreads

theorem Cmd.Entitled.setRegistry (hb : b.Entitled s)
    (hfree : b.reading.isSome → writesClients cmd = false) : b.Entitled (s.setRegistry r') := by
  cases b with
  | registry next =>
    cases next with
    | detach c => exact done_of_exec (exec_hub he) hb
    | unregisterPresence c => exact gone_setRegistry he hb
    | removeClientServer c srv announce =>
      cases announce with
      | true => exact gone_setRegistry he hb
      | false => trivial
    | _ => trivial
  | subscribe stage sub =>
    cases stage with
    | access => trivial
    | registered => exact ⟨hb.1, allowed_setRegistry hb.2⟩
    | _ => exact ⟨hb.1, allowed_setRegistry hb.2.1, member_of_reads he (hfree rfl) hb.2.2⟩
  | unsubscribe stage origin c ch =>
    cases origin with
    | unregister => exact gone_setRegistry he hb
    | _ => trivial
  | unsubscribeAll c => exact gone_setRegistry he hb
  | _ => trivial

theorem Pushed.entitled (hb : Pushed s.hub cmd b) (hcmd : (Cmd.registry cmd).Entitled s) :
    b.Entitled (s.setRegistry r') := by
  cases hb with
  | registry next hf =>
    cases hf with
    | detach c =>
      cases he
      exact Finset.mem_insert_self c _
    | unregisterPresence c => exact gone_detach he hcmd
    | unregisterServer c srv => exact gone_setRegistry he hcmd
    | _ => trivial
  | unsubscribeAll c heq =>
    subst heq
    exact gone_detach he hcmd
  | refreshSubscriptions | unsubscribeFromServer => trivial

theorem member_or_owes (hcmd : (Cmd.registry cmd).Entitled s) (hmember : s.Member sub) :
    (s.setRegistry r').Member sub ∨
      ∃ b, .run b ∈ pushes cmd out ∧ b.Owes (s.setRegistry r') sub := by
  rcases clients_of_exec (exec_hub he) hmember.1 with hc | ⟨-, hleave⟩
  · rcases servers_of_exec (exec_hub he) hmember.2 with hs | ⟨announce, heq⟩
    · exact .inl ⟨hc, hs⟩
    · cases heq
      cases announce with
      | true => exact absurd hmember.1 (And.left hcmd)
      | false =>
        exact .inr ⟨_, List.mem_append_right _ (List.mem_singleton.mpr rfl), rfl, rfl⟩
  · refine .inr ⟨.unsubscribeAll sub.client, List.mem_append_left _ ?_, rfl⟩
    exact List.mem_flatMap.mpr ⟨_, hleave, List.mem_singleton.mpr rfl⟩

theorem closing_setRegistry (hclosing : ∀ c ∈ s.registry.clients, c ∈ s.registry.done →
      .registry (.detach c) ∈ .registry cmd ::ₘ R)
    (hload : ∀ c, cmd = .load c → c ∉ s.registry.clients) (hc : c ∈ r'.clients)
    (hdone : c ∈ r'.done) : .registry (.detach c) ∈ (cmds (pushes cmd out) : Multiset Cmd) + R := by
  rcases clients_from_exec (exec_hub he) hc with hold | ⟨heq, hreg, -⟩
  · rcases Registry.done_from_exec he hdone with hdone | rfl | rfl
    · rcases mem_cons.mp (hclosing c hold hdone) with heq | hmem
      · cases heq
        exact absurd hc (not_mem_clients_of_detach (exec_hub he))
      · exact mem_pushed.mpr (.inr hmem)
    · exact absurd hold (hload c rfl)
    · cases he
      exact mem_pushed.mpr (.inl (List.mem_singleton.mpr rfl))
  · cases heq
    rcases Registry.done_from_exec he hdone with hdone | heq | heq
    · exact absurd hdone hreg.2.2.1
    · cases heq
    · cases heq

theorem Sound.registry (h : Sound s (.registry cmd ::ₘ R))
    (hfree : writesClients cmd = true → s.readers = 0)
    (hload : ∀ c, cmd = .load c → c ∉ s.registry.clients) :
    Sound (s.setRegistry r') ((cmds (pushes cmd out) : Multiset Cmd) + R) := by
  have hpushed : ∀ b, .run b ∈ pushes cmd out → Pushed s.hub cmd b := fun b => pushed_of_pushes he
  have hidle := fun b hb => (hpushed b hb).idle (s.setRegistry r')
  have hcmd : (Cmd.registry cmd).Entitled s := h.entitled _ (by simp)
  refine ⟨?readers, serial_pushed h.serial fun b hb => (hidle b hb).2.1, ?entitled, ?placed,
    h.positive, ?heard, ?kept, fun c => closing_setRegistry he h.closing hload⟩
  case readers =>
    have hreaders : s.readers = sections (.registry cmd ::ₘ R) := h.readers
    rw [sections_cons] at hreaders
    have hsplit : sections ((cmds (pushes cmd out) : Multiset Cmd) + R) =
        sections (cmds (pushes cmd out)) + sections R := countP_add ..
    rw [hsplit, sections_eq_zero fun b hb => (hidle b hb).1, zero_add]
    exact hreaders
  case entitled =>
    intro b hb
    rcases mem_pushed.mp hb with hb | hb
    · exact (hpushed b hb).entitled he hcmd
    · refine (h.entitled b (mem_cons_of_mem hb)).setRegistry he fun hreading => ?_
      -- whoever reads keeps the writers out
      refine Bool.eq_false_iff.mpr fun hwrites => ?_
      have hpos : 0 < sections (.registry cmd ::ₘ R) :=
        countP_pos.mpr ⟨b, mem_cons_of_mem hb, hreading⟩
      rw [← h.readers, hfree hwrites] at hpos
      exact absurd hpos (lt_irrefl 0)
  case placed =>
    intro b hb
    rcases mem_pushed.mp hb with hb | hb
    · exact (hidle b hb).2.2
    · exact h.placed b (mem_cons_of_mem hb)
  case heard =>
    intro c ch hin
    refine (h.heard c ch hin).imp_right fun ⟨srv, hmem⟩ => ⟨srv, mem_pushed.mpr (.inr ?_)⟩
    exact (mem_cons.mp hmem).resolve_left nofun
  case kept =>
    intro sub hhas
    rcases h.kept sub hhas with hfine | ⟨b, hb, how⟩
    · rcases member_or_owes he hcmd hfine.member with hmember | ⟨b, hb, how⟩
      · refine .inl ⟨hfine.inRoom, hmember, ?_⟩
        refine hfine.allowed.imp allowed_setRegistry fun ⟨b, hb, hre⟩ => ?_
        rcases mem_cons.mp hb with rfl | hb
        · exact hre.elim
        · exact ⟨b, mem_pushed.mpr (.inr hb), hre⟩
      · exact .inr ⟨b, mem_pushed.mpr (.inl hb), how⟩
    · rcases mem_cons.mp hb with rfl | hb
      · exact how.elim
      · exact .inr ⟨b, mem_pushed.mpr (.inr hb), how⟩

end Registry

/-! ## The steps of Subscribe -/

namespace Sound

section Subscribe

variable {stage stage' : SubscribeStage} {k : Nat}

theorem subscribeNext (h : Sound s (.subscribe stage sub ::ₘ R)) (hstage : stage ≠ .record)
    (hk : k + (if (Cmd.subscribe stage sub).reading.isSome then 1 else 0) =
      s.readers + if (Cmd.subscribe stage' sub).reading.isSome then 1 else 0)
    (hserial : Serial Cmd.request (.subscribe stage' sub ::ₘ R))
    (hentitled : (Cmd.subscribe stage' sub).Entitled s)
    (hplaced : (Cmd.subscribe stage' sub).Placed s) :
    Sound { s with readers := k }
      ((cmds ([.run (.subscribe stage' sub)] : List RoomInstr) : Multiset Cmd) + R) := by
  refine h.push ?_ ?_ ?_ nofun ?_ (fun _ _ => False.elim) (fun _ _ => False.elim)
  · have hone := sections_cons (.subscribe stage' sub) 0
    exact hk.trans (congrArg _ (hone.trans (zero_add _)).symm)
  · rw [pushed_run]
    exact hserial
  · intro b hb
    obtain rfl := run_inj hb
    exact ⟨hentitled, hplaced⟩
  · intro sub' heq
    cases heq
    exact absurd rfl hstage

theorem subscribeEnd (h : Sound s (.subscribe stage sub ::ₘ R))
    (hstage : stage = .record → s.Has sub)
    (hk : k + (if (Cmd.subscribe stage sub).reading.isSome then 1 else 0) = s.readers) :
    Sound { s with readers := k } ((cmds ([] : List RoomInstr) : Multiset Cmd) + R) := by
  refine h.push hk ?_ (fun _ hb => absurd hb List.not_mem_nil) nofun ?_ (fun _ _ => False.elim)
    (fun _ _ => False.elim)
  · rw [pushed_nil]
    exact h.serial.drop
  · intro sub' heq
    cases heq
    exact hstage rfl

theorem readers_pos (h : Sound s (d ::ₘ R)) (hd : d.reading.isSome) :
    s.readers - 1 + 1 = s.readers := by
  have hreaders := h.readers
  rw [sections_cons, if_pos hd] at hreaders
  omega

theorem not_unsubscribing (h : Sound s (.subscribe (.add n) sub ::ₘ R))
    (hfree : ∀ b, (.channelAccess, .exclusive) ∈ b.needs → ¬b.Starts → b ∉ R)
    (stage : UnsubscribeStage) (origin : Origin) (hstage : stage ≠ .getRoom) :
    .unsubscribe stage origin sub.client sub.channelID ∉ R := by
  intro hmem
  cases origin with
  | request =>
    have hother :
      (Cmd.unsubscribe stage .request sub.client sub.channelID).request ≠ some sub.client :=
      h.serial.ne_of_mem rfl hmem
    refine hother ?_
    cases stage with
    | getRoom => exact absurd rfl hstage
    | _ => rfl
  | unregister =>
    obtain ⟨-, -, hmember⟩ := h.entitled _ (mem_cons_self _ _)
    have hgone : Gone s.hub sub.client := h.entitled _ (mem_cons_of_mem hmem)
    exact hgone.1 hmember.1
  | revocation => exact hfree _ (List.mem_singleton.mpr rfl) (by cases stage <;> exact id) hmem

theorem subscribe (h : Sound s (.subscribe stage sub ::ₘ R))
    (hturn : InTurn s (.subscribe stage sub ::ₘ R) (.subscribe stage sub))
    (hfree : ∀ b, (.channelAccess, .exclusive) ∈ b.needs → ¬b.Starts → b ∉ R) :
    Sound (s.execSubscribe sub stage).1
    ((cmds (s.execSubscribe sub stage).2 : Multiset Cmd) + R) := by
  have hentitled := h.entitled _ (mem_cons_self _ _)
  cases stage with
  | access =>
    simp only [execSubscribe]
    split
    · next hok =>
      refine h.subscribeNext nofun rfl ?_ ⟨hok.2.1, fun _ => hok.2.2⟩ trivial
      refine h.serial.drop.begin fun b hb c hc => ?_
      exact hturn.1 c hc b (mem_cons_of_mem hb)
    · exact h.subscribeEnd nofun rfl
  | registered =>
    simp only [execSubscribe]
    split
    · next hok =>
      exact h.subscribeNext nofun rfl (h.serial.replace rfl)
        ⟨hentitled.1, hentitled.2, hok.1, hok.2.2⟩ trivial
    · exact h.subscribeEnd nofun rfl
  | done =>
    simp only [execSubscribe]
    split
    · exact h.subscribeEnd nofun (h.readers_pos rfl)
    · exact h.subscribeNext nofun rfl (h.serial.replace rfl) hentitled trivial
  | getRoom =>
    simp only [execSubscribe]
    split
    · next hlookup => exact h.subscribeNext nofun rfl (h.serial.replace rfl) hentitled hlookup
    · exact h.subscribeNext nofun rfl (h.serial.replace rfl) hentitled trivial
  | createRoom =>
    simp only [execSubscribe]
    split
    · next hlookup => exact h.subscribeNext nofun rfl (h.serial.replace rfl) hentitled hlookup
    · next hnone =>
      have hclose : ∀ n, .closeRoom sub.channelID n ∉ .subscribe .createRoom sub ::ₘ R := by
        intro n hmem
        exact hfree _ (List.mem_singleton.mpr rfl) id ((mem_cons.mp hmem).resolve_left nofun)
      exact (h.addRoom hnone hclose).subscribeNext nofun rfl (h.serial.replace rfl) hentitled
        (AList.lookup_insert _)
  | add n =>
    simp only [execSubscribe]
    split
    · exact h.subscribeEnd nofun (h.readers_pos rfl)
    · next hadd =>
      rw [pushed_run]
      exact h.enter hadd (h.not_unsubscribing hfree)
  | record =>
    refine (h.addSubscription (mem_cons_self _ _)).subscribeEnd (fun _ => ?_) (h.readers_pos rfl)
    exact (has_addSubscription s sub sub).mpr ((if_pos ⟨rfl, rfl⟩).mpr rfl)

end Subscribe

end Sound

/-! ## The steps of Unsubscribe -/

namespace Sound

section Unsubscribe

variable {stage stage' : UnsubscribeStage} {origin : Origin}

theorem unsubscribeNext (h : Sound s (.unsubscribe stage origin c ch ::ₘ R))
    (hserial : Serial Cmd.request (.unsubscribe stage' origin c ch ::ₘ R))
    (hplaced : (Cmd.unsubscribe stage' origin c ch).Placed s) : Sound s
    ((cmds ([.run (.unsubscribe stage' origin c ch)] : List RoomInstr) : Multiset Cmd) + R) := by
  refine h.push rfl ?_ ?_ nofun nofun ?_ (fun _ _ => False.elim)
  · rw [pushed_run]
    exact hserial
  · intro b hb
    obtain rfl := run_inj hb
    refine ⟨?_, hplaced⟩
    have hentitled := h.entitled _ (mem_cons_self _ _)
    cases origin <;> exact hentitled
  · exact fun sub _ how => ⟨_, List.mem_singleton.mpr rfl, how⟩

theorem not_recording (h : Sound s (.unsubscribe (.remove n) origin c ch ::ₘ R))
    (hfree : origin = .revocation →
      ∀ b, (.channelAccess, .shared) ∈ b.needs → ¬b.Starts → b ∉ R) (srv : Int) :
    .subscribe .record ⟨c, srv, ch⟩ ∉ .unsubscribe (.remove n) origin c ch ::ₘ R := by
  intro hmem
  replace hmem := (mem_cons.mp hmem).resolve_left nofun
  cases origin with
  | request => exact h.serial.ne_of_mem rfl hmem rfl
  | unregister =>
    have hgone : Gone s.hub c := h.entitled _ (mem_cons_self _ _)
    obtain ⟨-, -, hmember⟩ := h.entitled _ (mem_cons_of_mem hmem)
    exact hgone.1 hmember.1
  | revocation => exact hfree rfl _ (List.mem_singleton.mpr rfl) id hmem

theorem unsubscribe (h : Sound s (.unsubscribe stage origin c ch ::ₘ R))
    (hturn : InTurn s (.unsubscribe stage origin c ch ::ₘ R) (.unsubscribe stage origin c ch))
    (hfree : origin = .revocation → ∀ b, (.channelAccess, .shared) ∈ b.needs → ¬b.Starts → b ∉ R) :
    Sound (s.execUnsubscribe origin c ch stage).1
      ((cmds (s.execUnsubscribe origin c ch stage).2 : Multiset Cmd) + R) := by
  cases stage with
  | getRoom =>
    have hserial : ∀ stage', Serial Cmd.request (.unsubscribe stage' origin c ch ::ₘ R) := by
      intro stage'
      refine h.serial.drop.begin fun b hb k hk => ?_
      cases stage' with
      | getRoom => cases hk
      | _ =>
        cases origin with
        | request => exact hturn.1 k hk b (mem_cons_of_mem hb)
        | _ => cases hk
    simp only [execUnsubscribe]
    split
    · next hch =>
      -- nobody has such a channel
      refine h.finish rfl nofun (fun sub hhas how => ?_) (fun _ _ => False.elim)
      have hpos := h.positive sub hhas
      rw [← how.2] at hpos
      omega
    · split
      · next hnone =>
        refine h.unsubscribeNext (hserial _) ?_
        rintro ⟨n, hn, -⟩
        rw [hnone] at hn
        cases hn
      · next hlookup => exact h.unsubscribeNext (hserial _) (.inl hlookup)
  | remove n =>
    have hout := h.remove (mem_cons_self _ _) (h.not_recording hfree)
    refine hout.unsubscribeNext (h.serial.replace (by cases origin <;> rfl)) ?_
    have hroom := inRoom_remove (h.placed _ (mem_cons_self _ _)) c ch
    exact fun hin => (hroom.mp hin).2 ⟨rfl, rfl⟩
  | forget =>
    have hgone := h.removeSubscription (mem_cons_self _ _)
    refine hgone.finish rfl nofun (fun sub hhas how => ?_) (fun _ _ => False.elim)
    exact ((has_removeSubscription s c ch sub).mp hhas).2 ⟨how.1.symm, how.2.symm⟩

end Unsubscribe

/-! ## The other steps -/

theorem unsubscribeAll (h : Sound s (.unsubscribeAll c ::ₘ R))
    (he : s.exec x (.unsubscribeAll c) = some (s', new)) : Sound s' (cmds new + R) := by
  obtain ⟨hlist, heq⟩ := ite_none_right_eq_some.mp he
  cases heq
  have hgone : Gone s.hub c := h.entitled _ (mem_cons_self _ _)
  refine h.spread rfl ?_ ?_ nofun ?_ (fun _ _ => False.elim)
  · simp [Cmd.reading, Cmd.request]
  · simp [Cmd.Entitled, Cmd.Placed, hgone]
  · rintro ⟨c', srv, ch⟩ hhas rfl
    refine ⟨_, List.mem_map.mpr ⟨ch, hlist.mem_iff.mpr ?_, rfl⟩, rfl, rfl⟩
    exact AList.lookup_isSome.mp (isSome_iff_exists.mpr ⟨srv, hhas⟩)

theorem mem_subscriptionIDsForServer (s : State) (c : Client) (srv ch : Int) :
    ch ∈ s.subscriptionIDsForServer c srv ↔ s.Has ⟨c, srv, ch⟩ := by
  simp only [subscriptionIDsForServer, List.mem_filter, decide_eq_true_eq, State.Has]
  refine ⟨And.right, fun hhas => ⟨?_, hhas⟩⟩
  exact AList.lookup_isSome.mp (isSome_iff_exists.mpr ⟨srv, hhas⟩)

theorem unsubscribeFromServer (h : Sound s (.unsubscribeFromServer c srv ::ₘ R))
    (he : s.exec x (.unsubscribeFromServer c srv) = some (s', new)) : Sound s' (cmds new + R) := by
  obtain ⟨hlist, heq⟩ := ite_none_right_eq_some.mp he
  cases heq
  refine h.spread rfl ?_ ?_ nofun ?_ (fun _ _ => False.elim)
  · simp [Cmd.reading, Cmd.request]
  · simp [Cmd.Entitled, Cmd.Placed]
  · rintro ⟨c', srv', ch⟩ hhas ⟨rfl, rfl⟩
    refine ⟨_, List.mem_map.mpr ⟨ch, hlist.mem_iff.mpr ?_, rfl⟩, rfl, rfl⟩
    exact (mem_subscriptionIDsForServer s c srv ch).mpr hhas

theorem refreshSubscriptions (h : Sound s (.refreshSubscriptions c srv ::ₘ R))
    (he : s.exec x (.refreshSubscriptions c srv) = some (s', new))
    (hfree : ∀ stage sub, .subscribe stage sub ∈ R → stage = .access) :
    Sound s' (cmds new + R) := by
  obtain ⟨hlist, heq⟩ := ite_none_right_eq_some.mp he
  cases heq
  have hrefreshed := h.refresh (mem_cons_self _ _) fun stage sub hmem =>
    hfree stage sub ((mem_cons.mp hmem).resolve_left nofun)
  refine hrefreshed.spread rfl ?_ ?_ nofun (fun _ _ => False.elim) ?_
  · simp [Cmd.reading, Cmd.request]
  · simp [Cmd.Entitled, Cmd.Placed]
  · rintro ⟨c', srv', ch⟩ hhas ⟨rfl, rfl⟩
    refine .inr ⟨_, List.mem_map.mpr ⟨ch, hlist.mem_iff.mpr ?_, rfl⟩, .inl ⟨rfl, rfl⟩⟩
    exact (mem_subscriptionIDsForServer s c srv ch).mpr hhas

theorem recheck (h : Sound s (.recheck c ch ::ₘ R))
    (he : s.exec x (.recheck c ch) = some (s', new)) : Sound s' (cmds new + R) := by
  cases he
  split
  · next hcan =>
    refine h.finish rfl nofun (fun _ _ => id) ?_
    rintro ⟨c', srv, ch'⟩ - ⟨rfl, rfl⟩
    exact fun _ => hcan
  · refine h.spread rfl ?_ ?_ nofun (fun _ _ => False.elim) ?_
    · simp [Cmd.reading, Cmd.request]
    · simp [Cmd.Entitled, Cmd.Placed]
    · exact fun sub _ hre => .inr ⟨_, List.mem_singleton.mpr rfl, .inr hre⟩

theorem removeRoom (h : Sound s (.removeRoom ch ::ₘ R))
    (he : s.exec x (.removeRoom ch) = some (s', new))
    (hfree : ∀ stage sub, .subscribe stage sub ∈ R → stage = .access) :
    Sound s' (cmds new + R) := by
  simp only [exec] at he
  split at he
  · cases he
    exact h.finish rfl nofun (fun _ _ => id) (fun _ _ => False.elim)
  · split at he
    · cases he
      exact h.finish rfl nofun (fun _ _ => id) (fun _ _ => False.elim)
    · next hlookup =>
      cases he
      rw [pushed_run]
      exact h.deleteRoom hlookup hfree

theorem closeAndSnapshot (h : Sound s (.closeRoom ch n ::ₘ R))
    (he : s.exec x (.closeRoom ch n) = some (s', new)) : Sound s' (cmds new + R) := by
  obtain ⟨hlist, heq⟩ := ite_none_right_eq_some.mp he
  cases heq
  have hnone : s.rooms.lookup ch = none := h.placed _ (mem_cons_self _ _)
  have hempty : ∀ c, ¬s.InRoom c ch := by
    rintro c ⟨n, hn, -⟩
    rw [hnone] at hn
    cases hn
  refine closeRoom (h.spread rfl ?_ ?_ nofun ?_ (fun _ _ => False.elim)) hnone fun c hc => ?_
  · simp [Cmd.reading, Cmd.request]
  · simp [Cmd.Entitled, Cmd.Placed, hempty]
  · rintro ⟨c, srv, ch'⟩ - ⟨rfl, hc⟩
    exact ⟨_, List.mem_map.mpr ⟨c, hlist.mem_iff.mpr hc, rfl⟩, rfl, rfl⟩
  · exact mem_pushed.mpr (.inl (List.mem_map.mpr ⟨c, hlist.mem_iff.mpr hc, rfl⟩))

theorem more (h : Sound s S) (hreading : b.reading = none) (hrequest : b.request = none)
    (hentitled : b.Entitled s) (hplaced : b.Placed s) : Sound s (b ::ₘ S) where
  readers := by
    rw [sections_cons, hreading]
    exact h.readers
  serial := h.serial.begin fun _ _ k hk => by simp [hrequest] at hk
  entitled := forall_mem_cons.mpr ⟨hentitled, h.entitled⟩
  placed := forall_mem_cons.mpr ⟨hplaced, h.placed⟩
  positive := h.positive
  heard c ch hin := (h.heard c ch hin).imp_right fun ⟨srv, hmem⟩ =>
    ⟨srv, mem_cons_of_mem hmem⟩
  kept sub hhas := by
    rcases h.kept sub hhas with hfine | ⟨b, hb, how⟩
    · refine .inl ⟨hfine.inRoom, hfine.member, ?_⟩
      exact hfine.allowed.imp_right fun ⟨b, hb, hre⟩ => ⟨b, mem_cons_of_mem hb, hre⟩
    · exact .inr ⟨b, mem_cons_of_mem hb, how⟩
  closing c hc hdone := mem_cons_of_mem (h.closing c hc hdone)

theorem start (h : Sound s S) (op : Op) : Sound s (cmds op.body + S) := by
  obtain ⟨b, hbody, hb⟩ : ∃ b, cmds op.body = [b] ∧ b.reading = none ∧ b.request = none ∧
      b.Entitled s ∧ b.Placed s := by
    cases op <;> exact ⟨_, rfl, rfl, rfl, trivial, trivial⟩
  rw [hbody]
  exact (singleton_add b S).symm ▸ h.more hb.1 hb.2.1 hb.2.2.1 hb.2.2.2

end Sound

/-! ## Whole runs -/

section Runs

variable {allowed : Op → Prop} {init : State} {cfg : RoomConfig} {i : Nat} {rest : List RoomInstr}

theorem Sound.fire (hrun : machine.Reachable allowed InTurn init cfg)
    (hf : machine.Fires cfg i d x s' new rest R) (hturn : InTurn cfg.state (d ::ₘ R) d)
    (h : Sound cfg.state (d ::ₘ R)) : Sound s' (cmds new + R) := by
  have he : cfg.state.exec x d = some (s', new) := hf.exec
  have hshared : (.channelAccess, .exclusive) ∈ d.needs →
      ∀ b, (.channelAccess, .shared) ∈ b.needs → ¬b.Starts → b ∉ R :=
    fun hd b hb => not_mem_of_modes hrun hf hd hb nofun
  have haccess : (.channelAccess, .exclusive) ∈ d.needs →
      ∀ stage sub, .subscribe stage sub ∈ R → stage = .access := by
    intro hd stage sub hmem
    cases stage with
    | access => rfl
    | _ => exact absurd hmem (hshared hd _ (List.mem_singleton.mpr rfl) id)
  cases d with
  | registry cmd =>
    obtain ⟨r', out, hr, rfl, rfl, hfree⟩ := exec_registry he
    exact h.registry hr hfree fun c heq => hturn.2 c (heq ▸ rfl)
  | subscribe stage sub =>
    have hstep := h.subscribe hturn fun b hb =>
      not_mem_of_modes hrun hf (List.mem_singleton.mpr rfl) hb nofun
    rwa [show cfg.state.execSubscribe sub stage = (s', new) from Option.some.inj he] at hstep
  | unsubscribe stage origin c ch =>
    have hstep := h.unsubscribe hturn fun horigin =>
      hshared (by rw [horigin]; exact List.mem_singleton.mpr rfl)
    rwa [show cfg.state.execUnsubscribe origin c ch stage = (s', new) from Option.some.inj he]
      at hstep
  | unsubscribeAll c => exact h.unsubscribeAll he
  | unsubscribeFromServer c srv => exact h.unsubscribeFromServer he
  | refreshSubscriptions c srv =>
    exact h.refreshSubscriptions he (haccess (List.mem_singleton.mpr rfl))
  | recheck c ch => exact h.recheck he
  | removeRoom ch => exact h.removeRoom he (haccess (List.mem_singleton.mpr rfl))
  | closeRoom ch n => exact h.closeAndSnapshot he

theorem Sound.initial (servers : Client → Finset Int) : Sound (State.new servers) 0 where
  readers := rfl
  serial := Serial.zero _
  entitled := nofun
  placed := nofun
  positive := by simp [State.Has, new]
  heard := by simp [State.InRoom, new]
  kept := by simp [State.Has, new]
  closing := by simp [new, Registry.new]

theorem sound_of_reachable {servers : Client → Finset Int}
    (hrun : machine.Reachable allowed InTurn (State.new servers) cfg) :
    Sound cfg.state cfg.pending :=
  hrun.induction (P := Sound) (Sound.initial servers) (fun _ _ op _ h => h.start op)
    fun _ _ _ _ _ _ _ _ hrun hf hturn h => Sound.fire hrun hf hturn h

/-- **Rooms and subscriptions agree.** Whatever interleaving of the operations has been run, where
the requests of each connection are served one after the other and a registered one does not
register again: once nothing is in progress, a client is in a channel's room exactly if it has
subscribed to the channel. Such a client is registered and not closed, it is a member of the server
that it named, and if that server has been refreshed since the client's policy last changed, the
policy has the channel. -/
theorem rooms_agree {servers : Client → Finset Int}
    (hrun : machine.Reachable allowed InTurn (State.new servers) cfg) (hquiet : cfg.Quiescent) :
    (∀ c ch, cfg.state.InRoom c ch ↔ ch ∈ cfg.state.subscriptions c) ∧
      ∀ c ch srv, (cfg.state.subscriptions c).lookup ch = some srv →
        c ∈ cfg.state.registry.clients ∧ c ∉ cfg.state.registry.done ∧
        srv ∈ cfg.state.registry.servers c ∧
        ∀ ids, cfg.state.registry.channelAccess c = some ids →
          srv ∈ cfg.state.refreshed c → ch ∈ ids := by
  have h := sound_of_reachable hrun
  rw [hquiet.pending_eq_zero] at h
  -- with nothing pending every subscription is fine
  have hfine : ∀ sub, cfg.state.Has sub → cfg.state.InRoom sub.client sub.channelID ∧
      cfg.state.Member sub ∧ cfg.state.Allowed sub := by
    intro sub hhas
    rcases h.kept sub hhas with hfine | ⟨b, hb, -⟩
    · refine ⟨hfine.inRoom, hfine.member, ?_⟩
      rcases hfine.allowed with hallowed | ⟨b, hb, -⟩
      · exact hallowed
      · exact absurd hb (notMem_zero b)
    · exact absurd hb (notMem_zero b)
  constructor
  · intro c ch
    rw [← AList.lookup_isSome, isSome_iff_exists]
    constructor
    · intro hin
      rcases h.heard c ch hin with hhas | ⟨srv, hmem⟩
      · exact hhas
      · exact absurd hmem (notMem_zero _)
    · rintro ⟨srv, hhas⟩
      exact (hfine ⟨c, srv, ch⟩ hhas).1
  · intro c ch srv hhas
    obtain ⟨-, hmember, hallowed⟩ := hfine ⟨c, srv, ch⟩ hhas
    refine ⟨hmember.1, fun hdone => ?_, hmember.2, fun ids hids hrefreshed => ?_⟩
    · exact notMem_zero _ (h.closing c hmember.1 hdone)
    · have hcan := hallowed hrefreshed
      simpa [Registry.canAccessChannel, hids] using hcan

end Runs

/-! ## Runs of one client -/

def roomSteps (i n : Nat) (x : RoomChoice) : List (Machine.Move RoomChoice Op) :=
  List.replicate n (.step i x)

namespace Sample

/-- The account's policy is channel 5, the client is on the server 1 and has subscribed to channel
5. -/
def listed : RoomChoice where
  load := fun _ => .loaded (some {5})
  serverIDs := [1]
  clients := [Hub.Sample.client]
  channelIDs := [5]

def subscription : Subscription := ⟨Hub.Sample.client, 1, 5⟩

/-- The client registers and subscribes, and the server is refreshed. -/
def refreshing : List (Machine.Move RoomChoice Op) :=
  .start (.register Hub.Sample.client) :: roomSteps 0 5 listed ++
    .start (.subscribe subscription) :: roomSteps 1 9 listed ++
    .start (.refreshChannelAccess 1) :: roomSteps 2 6 listed

/-- Between the two entries of the client's `Subscribe`, its `Unsubscribe` runs. -/
def crossing : List (Machine.Move RoomChoice Op) :=
  .start (.register Hub.Sample.client) :: roomSteps 0 5 listed ++
    .start (.subscribe subscription) :: roomSteps 1 7 listed ++
    .start (.unsubscribe Hub.Sample.client 5) :: roomSteps 2 3 listed ++ roomSteps 1 2 listed

end Sample

/-- The client is in the room of the channel that it has subscribed to, and its policy has the
channel. -/
theorem rooms_agree_refreshed : ∃ cfg : RoomConfig,
      machine.Reachable (fun _ => True) InTurn (State.new fun _ => {1}) cfg ∧ cfg.Quiescent ∧
      cfg.state.InRoom Hub.Sample.client 5 ∧
      ∀ ids, cfg.state.registry.channelAccess Hub.Sample.client = some ids → 5 ∈ ids := by
  obtain ⟨cfg, hrun, hquiet, hhas, hrefreshed⟩ : ∃ cfg : RoomConfig,
      machine.Reachable (fun _ => True) InTurn (new fun _ => {1}) cfg ∧ cfg.Quiescent ∧
      (cfg.state.subscriptions Hub.Sample.client).lookup 5 = some 1 ∧
      1 ∈ cfg.state.refreshed Hub.Sample.client :=
    Machine.exists_reachable_of_play Sample.refreshing (by decide +kernel)
  obtain ⟨hagree, hkept⟩ := rooms_agree hrun hquiet
  have hlisted : 5 ∈ cfg.state.subscriptions Hub.Sample.client :=
    AList.lookup_isSome.mp (isSome_iff_exists.mpr ⟨1, hhas⟩)
  obtain ⟨-, -, -, hallowed⟩ := hkept _ _ _ hhas
  exact ⟨cfg, hrun, hquiet, (hagree _ _).mpr hlisted, fun ids hids => hallowed ids hids hrefreshed⟩

/-- Where a client's `Subscribe` and `Unsubscribe` may overlap, it can be left with a channel whose
room it is not in. -/
theorem subscription_without_room : ∃ cfg : RoomConfig,
      machine.Reachable (fun _ => True) (fun _ _ _ => True) (State.new fun _ => {1}) cfg ∧
      cfg.Quiescent ∧ 5 ∈ cfg.state.subscriptions Hub.Sample.client ∧
      ¬cfg.state.InRoom Hub.Sample.client 5 :=
  Machine.exists_reachable_of_play Sample.crossing (by decide +kernel)

end Voxhold.Hub.Rooms
