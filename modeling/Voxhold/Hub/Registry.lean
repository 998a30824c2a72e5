/-
# Voxhold.Hub.Registry — the connected clients and their presence counters

The part of `realtime.Hub` behind `clientsMu` and `presenceMu`: the clients, the indices by server,
connection, account and session, the connection counters, and the clients' mutable fields.
-/

import Mathlib.Data.Finset.Basic
import Mathlib.Data.Finset.Dedup
import Mathlib.Logic.Function.Basic
import Voxhold.Lib.NestedMap

namespace Voxhold.Hub

open Voxhold.Lib NestedMap

/-- A connection, with the fields `Client` never changes. `NewClient` takes the connection id from a
counter, so that a client and its id determine each other. -/
structure Client where
  connectionID : Nat
  userID : Int
  sessionKey : Nat
deriving DecidableEq, Repr

/-! ## Presence counters -/

/-- `presence`: for every server, the number of counted connections of each account. -/
abbrev Presence := NestedMap Int Int Nat

namespace Presence

def incrementPresence (p : Presence) (serverID userID : Int) : Presence :=
  p.put serverID userID ((p.get serverID userID).getD 0 + 1)

def decrementPresence (p : Presence) (serverID userID : Int) : Presence :=
  let connections := (p.get serverID userID).getD 0
  if connections = 0 then p
  else if 0 < connections - 1 then p.put serverID userID (connections - 1)
  else p.drop serverID userID

/-- The accounts with a positive counter, in ascending order. -/
def onlineUserIDs (p : Presence) (serverID : Int) : List Int :=
  ((p.keysAt serverID).filter fun userID => 0 < (p.get serverID userID).getD 0).mergeSort

/-- How a number of connections is stored: zero is stored as no entry. -/
def entryOf (n : Nat) : Option Nat :=
  if n = 0 then none else some n

theorem get_incrementPresence (p : Presence) (s u s' u' : Int) :
    (p.incrementPresence s u).get s' u' =
      if s' = s ∧ u' = u then some ((p.get s u).getD 0 + 1) else p.get s' u' := by
  simp [incrementPresence]

theorem get_decrementPresence {p : Presence} {s u : Int} {n : Nat} (h : p.get s u = entryOf n)
    (s' u' : Int) : (p.decrementPresence s u).get s' u' =
      if s' = s ∧ u' = u then entryOf (n - 1) else p.get s' u' := by
  have hn : (p.get s u).getD 0 = n := by
    rw [h, entryOf]
    split <;> simp_all
  simp only [decrementPresence, hn]
  split
  · next hzero =>
    -- nothing is counted: the counters stay as they are
    split
    · next heq => rw [heq.1, heq.2, h, hzero]
    · rfl
  · split
    · next hpos => simp [entryOf, Nat.ne_of_gt hpos]
    · next hone => simp [entryOf, show n - 1 = 0 by omega]

theorem mem_onlineUserIDs {p : Presence} {s u : Int} {n : Nat} (h : p.get s u = entryOf n) :
    u ∈ p.onlineUserIDs s ↔ 0 < n := by
  simp only [onlineUserIDs, List.mem_mergeSort, List.mem_filter, mem_keysAt, h, entryOf]
  split <;> simp_all [Nat.pos_iff_ne_zero]

theorem onlineUserIDs_sorted (p : Presence) (s : Int) : (p.onlineUserIDs s).Pairwise (· < ·) := by
  have hsorted : (p.onlineUserIDs s).Pairwise (· ≤ ·) := by
    have h := @List.pairwise_mergeSort Int (fun a b => decide (a ≤ b))
      (fun a b c => by simpa using le_trans) (fun a b => by simpa using le_total a b)
      ((p.keysAt s).filter fun userID => 0 < (p.get s userID).getD 0)
    simpa [onlineUserIDs] using h
  have hnodup : (p.onlineUserIDs s).Nodup :=
    (List.mergeSort_perm _ _).nodup_iff.mpr ((p.keysAt_nodup s).filter _)
  exact hsorted.imp₂ (fun a b hle hne => lt_of_le_of_ne hle hne) hnodup

theorem get_foldl_incrementPresence {ids : List Int} (hids : ids.Nodup) (p : Presence)
    (u s' u' : Int) : (ids.foldl (fun p s => p.incrementPresence s u) p).get s' u' =
      if s' ∈ ids ∧ u' = u then some ((p.get s' u).getD 0 + 1) else p.get s' u' := by
  induction ids generalizing p with
  | nil => simp
  | cons s ids ih =>
    obtain ⟨hs, hids⟩ := List.nodup_cons.mp hids
    rw [List.foldl_cons, ih hids, get_incrementPresence, get_incrementPresence]
    by_cases hss : s' = s
    · subst hss
      simp [hs]
    · simp [hss]

end Presence

/-! ## The registry -/

/-- The order in which a loop reads a set: each element once. -/
structure Lists {α : Type} [DecidableEq α] (order : List α) (set : Finset α) : Prop where
  nodup : order.Nodup
  toFinset_eq : order.toFinset = set

instance {α : Type} [DecidableEq α] (order : List α) (set : Finset α) :
    Decidable (Lists order set) :=
  decidable_of_iff (order.Nodup ∧ order.toFinset = set) ⟨fun h => ⟨h.1, h.2⟩, fun h => ⟨h.1, h.2⟩⟩

theorem Lists.mem_iff {α : Type} [DecidableEq α] {order : List α} {set : Finset α}
    (h : Lists order set) {a : α} : a ∈ order ↔ a ∈ set := by
  rw [← h.toFinset_eq, List.mem_toFinset]

abbrev ClientIndex (K : Type) [DecidableEq K] := NestedMap K Client Unit

/-- The state behind `clientsMu` and `presenceMu`. `servers`, `channelAccess` and `done` are fields
of the clients: a client exists before it registers, with the server set it was created with. -/
structure Registry where
  closed : Bool
  clients : Finset Client
  done : Finset Client
  servers : Client → Finset Int
  channelAccess : Client → Option (Finset Int)
  clientsByServer : ClientIndex Int
  clientsByConnection : AList fun _ : Nat => Client
  clientsByUser : ClientIndex Int
  clientsBySession : ClientIndex Nat
  presence : Presence
  serverIndex : ∀ c s, (clientsByServer.get s c).isSome ↔ c ∈ clients ∧ s ∈ servers c
  userIndex : ∀ c u, (clientsByUser.get u c).isSome ↔ c ∈ clients ∧ c.userID = u
  sessionIndex : ∀ c k, (clientsBySession.get k c).isSome ↔ c ∈ clients ∧ c.sessionKey = k

namespace ClientIndex

variable {K : Type} [DecidableEq K]

theorem get_foldl_put (ids : List K) (m : ClientIndex K) (c c' : Client) (s' : K) :
    (ids.foldl (fun m s => m.put s c ()) m).get s' c' =
      if s' ∈ ids ∧ c' = c then some () else m.get s' c' := by
  induction ids generalizing m with
  | nil => simp
  | cons s ids ih =>
    rw [List.foldl_cons, ih, get_put]
    by_cases hs : s' = s <;> by_cases hmem : s' ∈ ids <;> by_cases hc :
      c' = c <;> simp [hs, hmem, hc]

theorem get_foldl_drop (ids : List K) (m : ClientIndex K) (c c' : Client) (s' : K) :
    (ids.foldl (fun m s => m.drop s c) m).get s' c' =
      if s' ∈ ids ∧ c' = c then none else m.get s' c' := by
  induction ids generalizing m with
  | nil => simp
  | cons s ids ih =>
    rw [List.foldl_cons, ih, get_drop]
    by_cases hs : s' = s <;> by_cases hmem : s' ∈ ids <;> by_cases hc :
      c' = c <;> simp [hs, hmem, hc]

variable {m : ClientIndex K} {clients : Finset Client} {key : Client → K}

section

variable (h : ∀ c k, (m.get k c).isSome ↔ c ∈ clients ∧ key c = k)
include h

theorem put_follows (d c : Client)
    (k : K) : ((m.put (key d) d ()).get k c).isSome ↔ c ∈ insert d clients ∧ key c = k := by
  rw [get_put]
  by_cases hc : c = d
  · subst hc
    simp only [and_true, Finset.mem_insert_self, true_and]
    split
    · next hk => simp [hk]
    · next hk => simp [h, Ne.symm hk]
  · simp [hc, h]

theorem drop_follows (d c : Client)
    (k : K) : ((m.drop (key d) d).get k c).isSome ↔ c ∈ clients.erase d ∧ key c = k := by
  rw [get_drop]
  by_cases hc : c = d
  · subst hc
    simp only [and_true, Finset.mem_erase, ne_eq, not_true_eq_false, false_and, iff_false]
    split
    · simp
    · next hk => simp [h, Ne.symm hk]
  · simp [hc, h]

end

end ClientIndex

namespace Registry

variable (r : Registry)
  {c : Client} {s : Int}

/-- The hub as `NewHub` makes it. Clients not yet registered have the server sets they will be
created with. -/
def new (servers : Client → Finset Int) : Registry where
  closed := false
  clients := ∅
  done := ∅
  servers := servers
  channelAccess := fun _ => none
  clientsByServer := empty
  clientsByConnection := ∅
  clientsByUser := empty
  clientsBySession := empty
  presence := empty
  serverIndex := by simp
  userIndex := by simp
  sessionIndex := by simp

def canAccessChannel (c : Client) (channelID : Int) : Bool :=
  match r.channelAccess c with
  | none => true
  | some ids => channelID ∈ ids

def closeClient (c : Client) : Registry :=
  { r with done := insert c r.done }

def replaceChannelAccess (c : Client) (ids : Option (Finset Int)) : Registry :=
  { r with channelAccess := Function.update r.channelAccess c ids }

def Registrable (c : Client) : Prop :=
  0 < c.userID ∧ r.closed = false ∧ c ∉ r.done ∧ c ∉ r.clients
deriving Decidable

/-- The critical section of `Register`: the client enters the client maps, in the order `ids` of its
servers. The counters are not touched. -/
def indexClient (c : Client) (ids : List Int) (hids : Lists ids (r.servers c)) : Registry :=
  { r with
    clients := insert c r.clients
    clientsByServer := ids.foldl (fun m s => m.put s c ()) r.clientsByServer
    clientsByConnection := r.clientsByConnection.insert c.connectionID c
    clientsByUser := r.clientsByUser.put c.userID c ()
    clientsBySession := r.clientsBySession.put c.sessionKey c ()
    serverIndex c' s := by
      rw [ClientIndex.get_foldl_put]
      by_cases hc : c' = c
      · subst hc
        simp only [hids.mem_iff, and_true, Finset.mem_insert_self, true_and]
        split
        · next hs => simp [hs]
        · next hs => simp [r.serverIndex, hs]
      · simp [hc, r.serverIndex]
    userIndex := ClientIndex.put_follows r.userIndex c
    sessionIndex := ClientIndex.put_follows r.sessionIndex c }

/-- The critical section of `Unregister`: the client leaves the client maps. Its server set and the
counters are not touched. -/
def detach (c : Client) (ids : List Int) (hids : Lists ids (r.servers c)) : Registry :=
  { r with
    clients := r.clients.erase c
    clientsByServer := ids.foldl (fun m s => m.drop s c) r.clientsByServer
    clientsByConnection := r.clientsByConnection.erase c.connectionID
    clientsByUser := r.clientsByUser.drop c.userID c
    clientsBySession := r.clientsBySession.drop c.sessionKey c
    serverIndex c' s := by
      rw [ClientIndex.get_foldl_drop]
      by_cases hc : c' = c
      · subst hc
        simp only [hids.mem_iff, and_true, Finset.mem_erase, ne_eq, not_true_eq_false, false_and,
          iff_false]
        split
        · simp
        · next hs => simp [r.serverIndex, hs]
      · simp [hc, r.serverIndex]
    userIndex := ClientIndex.drop_follows r.userIndex c
    sessionIndex := ClientIndex.drop_follows r.sessionIndex c }

/-- `registerPresence` on a registered client: one connection more on each of its servers. -/
def registerPresence (c : Client) (ids : List Int) : Registry :=
  { r with presence := ids.foldl (fun p s => p.incrementPresence s c.userID) r.presence }

/-- The critical section of `AddUserToServer` for a registered client that lacks the server. -/
def addServer (c : Client) (serverID : Int) (hc : c ∈ r.clients) : Registry :=
  { r with
    servers := Function.update r.servers c (insert serverID (r.servers c))
    clientsByServer := r.clientsByServer.put serverID c ()
    presence := r.presence.incrementPresence serverID c.userID
    serverIndex c' s := by
      rw [get_put]
      by_cases hcc : c' = c
      · subst hcc
        by_cases hs : s = serverID
        · simp [hs, hc]
        · simp [hs, r.serverIndex]
      · simp [hcc, r.serverIndex] }

/-- `removeClientServer` on a client that has the server. -/
def removeServer (c : Client) (serverID : Int) : Registry :=
  { r with
    servers := Function.update r.servers c ((r.servers c).erase serverID)
    clientsByServer := r.clientsByServer.drop serverID c
    presence := r.presence.decrementPresence serverID c.userID
    serverIndex c' s := by
      rw [get_drop]
      by_cases hcc : c' = c
      · subst hcc
        by_cases hs : s = serverID
        · simp [hs]
        · simp [hs, r.serverIndex]
      · simp [hcc, r.serverIndex] }

def deletePresence (serverID : Int) : Registry :=
  { r with presence := r.presence.dropAll serverID }

/-- `Close` marks the hub; no client registers any more. -/
def close : Registry :=
  { r with closed := true }

theorem mem_servers_addServer {d : Client} {t : Int} (hc : c ∈ r.clients) :
    t ∈ (r.addServer c s hc).servers d ↔ d = c ∧ t = s ∨ t ∈ r.servers d := by
  by_cases hd : d = c
  · subst hd
    simp [addServer]
  · simp [addServer, hd]

theorem mem_servers_removeServer {d : Client} {t : Int} :
    t ∈ (r.removeServer c s).servers d ↔ ¬(d = c ∧ t = s) ∧ t ∈ r.servers d := by
  by_cases hd : d = c
  · subst hd
    simp [removeServer]
  · simp [removeServer, hd]

theorem mem_clientsForServer :
    c ∈ r.clientsByServer.keysAt s ↔ c ∈ r.clients ∧ s ∈ r.servers c := by
  rw [mem_keysAt, r.serverIndex]

theorem mem_clientsForUser {u : Int} :
    c ∈ r.clientsByUser.keysAt u ↔ c ∈ r.clients ∧ c.userID = u := by
  rw [mem_keysAt, r.userIndex]

end Registry

end Voxhold.Hub
