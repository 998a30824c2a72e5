/-
# Voxhold.Hub.ClientIndexes — the client indexes agree, and a connection leaves them for good

The registry lists a connection in five places. Four agree in EVERY registry that can be built;
`clientsByConnection` keeps one connection per id, so it follows `clients` only because `NewClient`
never gives an id twice (`Issued`), and only issued connections are ever written (`Tracked`).
-/

import Voxhold.Hub.Membership

namespace Voxhold.Hub

open Voxhold.Lib Registry

variable {x : Choice} {d : Cmd} {h h' : HubState} {r r' : Registry} {new : List HubInstr}
  {R S : Multiset Cmd} {c : Client} {connections : Nat → Client}
  {b : Cmd}

/-! ## Agreement -/

/-- The index has under every key exactly the clients that belong there, and no empty inner map. -/
structure ClientIndex.Exact {K : Type} [DecidableEq K] (index : ClientIndex K)
    (belongs : Client → K → Prop) : Prop where
  mem_iff : ∀ c k, c ∈ index.keysAt k ↔ belongs c k
  key_iff : ∀ k, k ∈ index.entries ↔ ∃ c, belongs c k

theorem ClientIndex.exact_of_get {K : Type} [DecidableEq K] {index : ClientIndex K}
    {belongs : Client → K → Prop} (hget : ∀ c k, (index.get k c).isSome ↔ belongs c k) :
    index.Exact belongs where
  mem_iff c k := by rw [NestedMap.mem_keysAt, hget]
  key_iff k := by
    rw [NestedMap.mem_entries]
    exact exists_congr fun c => by rw [NestedMap.mem_keysAt, hget]

namespace Registry

/-- `clientsByConnection` maps the id of every registered client to it, and has nothing else. -/
def ConnectionsExact (r : Registry) : Prop :=
  ∀ id c, r.clientsByConnection.lookup id = some c ↔ c ∈ r.clients ∧ c.connectionID = id

/-- The indexes list exactly the registered clients. -/
structure IndexesAgree (r : Registry) : Prop where
  byUser : r.clientsByUser.Exact fun c u => c ∈ r.clients ∧ c.userID = u
  bySession : r.clientsBySession.Exact fun c k => c ∈ r.clients ∧ c.sessionKey = k
  byServer : r.clientsByServer.Exact fun c s => c ∈ r.clients ∧ s ∈ r.servers c
  byConnection : r.ConnectionsExact

structure Unlisted (r : Registry) (c : Client) : Prop where
  clients : c ∉ r.clients
  byUser : ∀ u, c ∉ r.clientsByUser.keysAt u
  bySession : ∀ k, c ∉ r.clientsBySession.keysAt k
  byServer : ∀ s, c ∉ r.clientsByServer.keysAt s
  byConnection : ∀ id, r.clientsByConnection.lookup id ≠ some c

theorem ConnectionsExact.indexesAgree (hr : r.ConnectionsExact) : r.IndexesAgree where
  byUser := ClientIndex.exact_of_get r.userIndex
  bySession := ClientIndex.exact_of_get r.sessionIndex
  byServer := ClientIndex.exact_of_get r.serverIndex
  byConnection := hr

theorem IndexesAgree.unlisted (hr : r.IndexesAgree) (hc : c ∉ r.clients) : r.Unlisted c where
  clients := hc
  byUser u hmem := hc ((hr.byUser.mem_iff c u).mp hmem).1
  bySession k hmem := hc ((hr.bySession.mem_iff c k).mp hmem).1
  byServer s hmem := hc ((hr.byServer.mem_iff c s).mp hmem).1
  byConnection id hlookup := hc ((hr.byConnection id c).mp hlookup).1

end Registry

/-! ## Connection ids -/

/-- The connection was made by `NewClient`, which numbers the connections: `connections` lists them.
-/
def Issued (connections : Nat → Client) (c : Client) : Prop :=
  connections c.connectionID = c
deriving Decidable

theorem Issued.eq_of_connectionID {c' : Client} (hc : Issued connections c)
    (hc' : Issued connections c') (hid : c'.connectionID = c.connectionID) : c' = c := by
  rw [← hc', hid, hc]

namespace Registry

theorem ConnectionsExact.indexClient {ids : List Int} (hids : Lists ids (r.servers c))
    (hr : r.ConnectionsExact) (hclients : ∀ c ∈ r.clients, Issued connections c)
    (hc : Issued connections c) : (r.indexClient c ids hids).ConnectionsExact := by
  intro id c'
  show (r.clientsByConnection.insert c.connectionID c).lookup id = some c' ↔
    c' ∈ insert c r.clients ∧ c'.connectionID = id
  rw [lookup_insert_eq_ite, Finset.mem_insert]
  split
  · next hid =>
    constructor
    · rintro ⟨⟩
      exact ⟨.inl rfl, hid.symm⟩
    · rintro ⟨rfl | hmem, hid'⟩
      · rfl
      · rw [hc.eq_of_connectionID (hclients c' hmem) (hid'.trans hid)]
  · next hid =>
    rw [hr]
    refine and_congr_left fun hid' => ⟨.inr, ?_⟩
    rintro (rfl | hmem)
    · exact absurd hid'.symm hid
    · exact hmem

theorem ConnectionsExact.detach {ids : List Int} (hids : Lists ids (r.servers c))
    (hr : r.ConnectionsExact) (hclients : ∀ c ∈ r.clients, Issued connections c)
    (hc : Issued connections c) : (r.detach c ids hids).ConnectionsExact := by
  intro id c'
  show (r.clientsByConnection.erase c.connectionID).lookup id = some c' ↔
    c' ∈ r.clients.erase c ∧ c'.connectionID = id
  rw [lookup_erase_eq_ite, Finset.mem_erase]
  split
  · next hid =>
    -- whoever is registered under this id is the client that leaves
    refine iff_of_false (by simp) ?_
    rintro ⟨⟨hne, hmem⟩, hid'⟩
    exact hne (hc.eq_of_connectionID (hclients c' hmem) (hid'.trans hid))
  · next hid =>
    rw [hr, and_assoc]
    refine ⟨fun hmem => ⟨?_, hmem⟩, And.right⟩
    rintro rfl
    exact hid hmem.2.symm

/-- What a command does to `clientsByConnection`. -/
inductive ConnectionChange (r : Registry) : RegistryCmd → Registry → Prop where
  | same (cmd : RegistryCmd) (r' : Registry) (hclients : r'.clients = r.clients)
      (hconn : r'.clientsByConnection = r.clientsByConnection) : ConnectionChange r cmd r'
  | index (c : Client) (ids : List Int) (hids : Lists ids (r.servers c)) :
      ConnectionChange r (.index c) (r.indexClient c ids hids)
  | detach (c : Client) (ids : List Int) (hids : Lists ids (r.servers c)) :
      ConnectionChange r (.detach c) (r.detach c ids hids)

theorem exec_connectionChange {cmd : RegistryCmd} (he : r.exec x cmd = some (r', new)) :
    ConnectionChange r cmd r' := by
  cases exec_step he with
  | index c _ hids => exact .index c _ hids
  | detach c hids => exact .detach c _ hids
  -- no other command writes the client maps of a connection
  | _ => exact .same _ _ rfl rfl

end Registry

/-! ## The connections the registry is going to write -/

/-- The connection that a command, or one after it, enters or takes out. -/
def RegistryCmd.subject : RegistryCmd → Option Client
  | .load c | .index c | .closeClient c | .detach c | .addServer c _ | .addUserLoad c => some c
  | _ => none

def Cmd.subject : Cmd → Option Client
  | .registry cmd => cmd.subject
  | .media _ => none

theorem mem_of_snapshot {clients : List Client} {round : Client → List HubInstr}
    (hround : ∀ c', .run (.registry (.closeClient c)) ∉ round c')
    (hb : .run (.registry (.closeClient c)) ∈ reloadChannelAccess x clients ++ eachClient x clients
    round) : c ∈ clients := by
  rcases List.mem_append.mp hb with hb | hb
  · obtain ⟨c', ids, heq⟩ := mem_reloadChannelAccess hb
    cases heq
  · obtain ⟨c', hc', heq | hi⟩ := mem_eachClient hb
    · cases heq
      exact hc'
    · exact absurd hi (hround c')

theorem Registry.registered_of_reload {cmd : RegistryCmd} (hcmd : cmd.Reloads)
    (he : r.exec x cmd = some (r', new)) (hb : .run (.registry (.closeClient c)) ∈ new) :
    c ∈ r.clients := by
  cases exec_step he with
  | revokeUser u s hperm =>
    have hmem := mem_of_snapshot (by simp [revokeUserRound]) hb
    exact (r.mem_clientsForUser.mp (hperm.mem_iff.mp hmem)).1
  | revokeServer s hperm =>
    have hmem := mem_of_snapshot (by simp [revokeServerRound])
      ((List.mem_append.mp hb).resolve_right (by simp))
    exact (r.mem_clientsForServer.mp (hperm.mem_iff.mp hmem)).1
  | refresh s hperm =>
    have hmem := mem_of_snapshot (by simp [refreshRound]) hb
    exact (r.mem_clientsForServer.mp (hperm.mem_iff.mp hmem)).1
  | nothing => cases hb
  | _ => exact hcmd.elim

theorem subject_of_exec (he : h.exec x d = some (h', new)) (hb : .run b ∈ new)
    (hc : b.subject = some c) : d.subject = some c ∨ c ∈ h.registry.clients := by
  cases follows_of_exec he hb with
  | addServer u s c' =>
    obtain rfl : c' = c := Option.some.inj hc
    obtain ⟨r', hr, -⟩ := exec_registry he
    cases exec_step hr with
    | nothing => cases hb
    | addUser _ _ hperm =>
      have hmem : c' ∈ x.clients := by simpa using hb
      exact .inr (h.registry.mem_clientsForUser.mp (hperm.mem_iff.mp hmem)).1
  | reloadFailed cmd c' hcmd =>
    obtain rfl : c' = c := Option.some.inj hc
    obtain ⟨r', hr, -⟩ := exec_registry he
    exact .inr (registered_of_reload hcmd hr hb)
  | closeHub c' =>
    obtain rfl : c' = c := Option.some.inj hc
    obtain ⟨r', hr, -⟩ := exec_registry he
    cases exec_step hr with
    | nothing => cases hb
    | closeHub hlists =>
      have hmem : c' ∈ x.clients := by simpa using hb
      exact .inr (hlists.mem_iff.mp hmem)
  | index | detach | addUserLoad | addUserFailed => exact .inl hc
  | _ => simp [Cmd.subject, RegistryCmd.subject] at hc

/-! ## Runs -/

/-- Every connection that is registered, or going to be entered or taken out, has been issued, and
`clientsByConnection` is exact. -/
structure Tracked (connections : Nat → Client) (h : HubState) (S : Multiset Cmd) : Prop where
  clients : ∀ c ∈ h.registry.clients, Issued connections c
  pending : ∀ b ∈ S, ∀ c, b.subject = some c → Issued connections c
  exact : h.registry.ConnectionsExact

/-- The connections an operation is called for are issued ones. -/
def Op.Issues (connections : Nat → Client) : Op → Prop
  | .register c | .unregister c => Issued connections c
  | _ => True

theorem Tracked.start {op : Op} (hop : op.Issues connections) (hinv : Tracked connections h S) :
    Tracked connections h (cmds op.body + S) where
  __ := hinv
  pending b hb c hc := by
    rcases mem_pushed.mp hb with hnew | hS
    · cases op <;> simp [Op.body] at hnew <;> subst hnew <;>
        simp [Cmd.subject, RegistryCmd.subject] at hc
      all_goals
        subst hc
        exact hop
    · exact hinv.pending b hS c hc

theorem Tracked.fire (he : h.exec x d = some (h', new)) (hinv : Tracked connections h (d ::ₘ R)) :
    Tracked connections h' (cmds new + R) where
  clients c hc := by
    rcases clients_from_exec he hc with hc | ⟨rfl, -, -⟩
    · exact hinv.clients c hc
    · exact hinv.pending _ (Multiset.mem_cons_self _ _) c rfl
  pending b hb c hc := by
    rcases mem_pushed.mp hb with hnew | hR
    · rcases subject_of_exec he hnew hc with hd | hmem
      · exact hinv.pending d (by simp) c hd
      · exact hinv.clients c hmem
    · exact hinv.pending b (Multiset.mem_cons_of_mem hR) c hc
  exact := by
    cases d with
    | media cmd =>
      obtain ⟨m', -, rfl⟩ := exec_media he
      exact hinv.exact
    | registry cmd =>
      have hissued := hinv.pending _ (Multiset.mem_cons_self _ _)
      obtain ⟨r', hr, rfl⟩ := exec_registry he
      cases exec_connectionChange hr with
      | same _ _ hclients hconn =>
        intro id c
        show r'.clientsByConnection.lookup id = some c ↔ c ∈ r'.clients ∧ c.connectionID = id
        rw [hclients, hconn]
        exact hinv.exact id c
      | index c _ hids => exact hinv.exact.indexClient hids hinv.clients (hissued c rfl)
      | detach c _ hids => exact hinv.exact.detach hids hinv.clients (hissued c rfl)

section Runs

variable {guard : HubState → Multiset Cmd → Cmd → Prop} {servers : Client → Finset Int}
  {e2eeRequired : Int → Bool} {limits : ViewerLimits} {cfg : HubConfig}

theorem tracked_of_reachable (hrun : hubMachine.Reachable (Op.Issues connections) guard
      (HubState.new servers e2eeRequired limits) cfg) : Tracked connections cfg.state cfg.pending :=
  hrun.induction (P := Tracked connections)
    ⟨by simp [HubState.new, new], by simp,
      by simp [Registry.ConnectionsExact, HubState.new, new]⟩
    (fun _ _ _ hop hinv => hinv.start hop) (fun _ _ _ _ _ _ _ _ _ hf _ hinv => hinv.fire hf.exec)

theorem gone_of_detach {allowed : Op → Prop} {cfg' : HubConfig} {i : Nat}
    (hrun : hubMachine.Reachable allowed guard (HubState.new servers e2eeRequired limits) cfg)
    (hnext : cfg.next i = some (.registry (.detach c)))
    (hstep : hubMachine.step cfg i x = some cfg') : Gone cfg'.state c := by
  obtain ⟨new, he⟩ : ∃ new, cfg.state.exec x (.registry (.detach c)) = some (cfg'.state, new) :=
    Machine.exec_of_next hnext hstep
  have hpending : .registry (.detach c) ∈ cfg.pending := by
    rw [Config.mem_pending]
    exact ⟨i, Config.mem_todo_of_next hnext⟩
  have hdone := (lifecycle_of_reachable hrun).detaching c hpending
  exact ⟨not_mem_clients_of_detach he, done_of_exec he hdone⟩

end Runs

/-- **The client indexes agree.** In every configuration that any interleaving of the operations
reaches, the indexes by account, session, server and connection id list exactly the registered
clients, with no empty inner maps; and from the step on in which `Unregister` detaches a client, it
is in none of them, however the run goes on. -/
theorem client_indexes_agree {connections : Nat → Client} {servers : Client → Finset Int}
    {e2eeRequired : Int → Bool} {limits : ViewerLimits} {cfg : HubConfig}
    (hrun : hubMachine.Reachable (Op.Issues connections) (fun _ _ _ => True)
      (HubState.new servers e2eeRequired limits) cfg) : cfg.state.registry.IndexesAgree ∧
      ∀ (i : Nat) (x : Choice) (c : Client) (cfg₁ cfg₂ : HubConfig),
        cfg.next i = some (.registry (.detach c)) → hubMachine.step cfg i x = some cfg₁ →
        hubMachine.Leads (Op.Issues connections) (fun _ _ _ => True) cfg₁ cfg₂ →
        cfg₂.state.registry.Unlisted c := by
  refine ⟨(tracked_of_reachable hrun).exact.indexesAgree, ?_⟩
  intro i x c cfg₁ cfg₂ hnext hstep hleads
  have hrun₂ := (hrun.step (fun _ _ => trivial) hstep).leads hleads
  have hgone : Gone cfg₂.state c := hleads.stable (P := fun h => Gone h c)
    (fun _ _ _ _ _ he hgone => hgone.of_exec he) (gone_of_detach hrun hnext hstep)
  exact (tracked_of_reachable hrun₂).exact.indexesAgree.unlisted hgone.1

namespace Sample

/-- The connections in the order of their ids; only `client` has the account 7. -/
def numbered (id : Nat) : Client :=
  ⟨id, if id = 1 then 7 else 8, id⟩

/-- The connection registers, and its `Unregister` comes to the critical section. -/
def unregistering : Schedule :=
  .start (.register client) :: goroutine 0 5 here ++ .start
    (.unregister client) :: goroutine 1 1 here

end Sample

instance (connections : Nat → Client) : DecidablePred (Op.Issues connections) := by
  intro op
  unfold Op.Issues
  split <;> infer_instance

/-- A connection that has registered is listed by its account, its server and its id; after its
`Unregister` it is in no index. -/
theorem client_indexes_agree_unregistered : ∃ cfg cfg₁ : HubConfig,
      hubMachine.Reachable (Op.Issues Sample.numbered) (fun _ _ _ => True) Sample.hub cfg ∧
      Sample.client ∈ cfg.state.registry.clientsByUser.keysAt 7 ∧
      Sample.client ∈ cfg.state.registry.clientsByServer.keysAt 1 ∧
      cfg.state.registry.clientsByConnection.lookup 1 = some Sample.client ∧
      hubMachine.step cfg 1 Sample.here = some cfg₁ ∧
      cfg₁.state.registry.Unlisted Sample.client := by
  obtain ⟨cfg, hrun, hc, hs, hnext, hstep⟩ : ∃ cfg,
      hubMachine.Reachable (Op.Issues Sample.numbered) (fun _ _ _ => True) Sample.hub cfg ∧
        Sample.client ∈ cfg.state.registry.clients ∧ 1 ∈ cfg.state.registry.servers Sample.client ∧
        cfg.next 1 = some (.registry (.detach Sample.client)) ∧
        (hubMachine.step cfg 1 Sample.here).isSome :=
    Machine.exists_reachable_of_play Sample.unregistering (by decide +kernel)
  obtain ⟨cfg₁, hstep⟩ := Option.isSome_iff_exists.mp hstep
  obtain ⟨hagree, hgone⟩ := client_indexes_agree hrun
  exact ⟨cfg, cfg₁, hrun, (hagree.byUser.mem_iff _ _).mpr ⟨hc, rfl⟩,
    (hagree.byServer.mem_iff _ _).mpr ⟨hc, hs⟩, (hagree.byConnection _ _).mpr ⟨hc, rfl⟩, hstep,
    hgone 1 Sample.here Sample.client cfg₁ cfg₁ hnext hstep .refl⟩

end Voxhold.Hub
