/-
# Voxhold.Backend.Memberships — the hub's server sets and the members of the database

A connection takes its server set from the database and registers later; accepting an invitation, a
ban and a deletion commit and go through the connections later. A removal deletes the sessions too,
so whoever was about to register is found out by the second authentication.
-/

import Voxhold.Account.Hierarchy
import Voxhold.Backend.Sockets

namespace Voxhold.Backend

open Voxhold.Lib Voxhold.Hub Voxhold.Account Multiset

/-! ## Members in the database -/

def IsMember (db : Database) (serverID userID : Int) : Prop :=
  ∃ m ∈ db.members.rows, (m.serverID : Int) = serverID ∧ (m.userID : Int) = userID
deriving Decidable

section Members

variable {db db' : Database} {call : Call} {m : Member} {now later : Int} {s₀ o : ℕ}

theorem exists_key_of_join {m' : Member} (hjoin : db.insertMember m' = some db')
    (hm : m ∈ db.members.rows) : ∃ m₁ ∈ db'.members.rows, m₁.key = m.key := by
  obtain ⟨-, -, -, hmembers, -⟩ := insertMember_eq_some hjoin
  have hfind : db'.members.find m.key = some m := by
    rw [hmembers, Keyed.find_insertNew, Keyed.mem_rows.mp hm]
    simp
  exact ⟨m, Keyed.mem_of_find hfind, rfl⟩

theorem exists_key_of_update {s u : ℕ} {f : Member → Member} {hf : ∀ m, (f m).key = m.key}
    (hm : m ∈ db.members.rows) :
    ∃ m₁ ∈ (db.updateMember s u f hf).members.rows, m₁.key = m.key := by
  have hfind := @Keyed.find_update _ _ _ db.members m.key _ (fun m => m.key = (s, u)) f hf
  rw [Keyed.mem_rows.mp hm, Option.map_some] at hfind
  exact ⟨_, Keyed.mem_of_find hfind, Keyed.key_of_find hfind⟩

theorem exists_key_of_effect (heffect : Effect db call db') (hm : m ∈ db.members.rows) :
    (∃ m₁ ∈ db'.members.rows, m₁.key = m.key) ∨
    (∃ s u reason, call = .banMember s u m.userID reason) ∨
      ∃ name, call = .deleteAccount m.userID name := by
  cases heffect with
  | same _ _ h => exact .inl ⟨m, h.members ▸ hm, rfl⟩
  | acceptLink _ _ _ _ _ _ _ hjoin | accept _ _ _ _ _ _ _ hjoin =>
    exact .inl (exists_key_of_join hjoin hm)
  | register _ _ _ _ _ _ _ _ _ joined _ hjoin hsession =>
    obtain ⟨-, -, -, hmembers, -⟩ := insertSession_eq_some hsession
    rw [hmembers]
    exact .inl (exists_key_of_join hjoin hm)
  | setRole | setTimeout => exact .inl (exists_key_of_update hm)
  | unban => exact .inl ⟨m, hm, rfl⟩
  | ban s u t reason _ _ banned _ _ _ _ _ hban =>
    obtain ⟨-, -, hmembers, -⟩ := insertBan_eq_some hban
    by_cases ht : m.userID = t
    · exact .inr (.inl ⟨s, u, reason, ht ▸ rfl⟩)
    · exact .inl ⟨m, mem_members_revokeAccess.mpr ⟨hmembers ▸ hm, ht⟩, rfl⟩
  | deleteAccount u name =>
    by_cases hu : m.userID = u
    · exact .inr (.inr ⟨name, hu ▸ rfl⟩)
    · exact .inl ⟨m, mem_members_revokeAccess.mpr ⟨hm, hu⟩, rfl⟩

theorem effect_perform (now later : Int) (db : Database) (call : Call) :
    Effect db call (perform now later db call).db := by
  have hexec := effect_exec now later db call
  cases call with
  | createSession => exact .same _ db (.refl db)
  | createLink | revokeLink | createDirect | decline | unban | deleteExpired | logout
  | revokeOthers => exact hexec
  | accept =>
    simp only [perform]
    split
    · exact hexec
    · exact hexec
  | acceptLink | register | banMember | deleteAccount | updateMemberRole | setMemberTimeout
  | refresh | revokeSessionByID | changePassword =>
    simp only [Call.exec] at hexec
    simp only [perform]
    split
    · next h => simpa [h, settle, Except.map] using hexec
    · exact .same _ db (.refl db)

theorem serverID_pos (hm : m ∈ db.members.rows) : (0 : Int) < m.serverID := by
  have hhas := (db.refs.member hm).1
  rcases Nat.eq_zero_or_pos m.serverID with hzero | hpos
  · rw [hzero, Table.Has, db.servers.get_zero] at hhas
    cases hhas
  · exact_mod_cast hpos

theorem member_perform (howned : Owned db s₀ o) {s u : Int} (h : IsMember db s u) :
    IsMember (perform now later db call).db s u ∨
      (.run (.inl (.registry (.revokeUserSnapshot u s))) ∈ (perform now later db call).next ∧
      0 < s ∧
        ∀ {id r}, (perform now later db call).db.sessions.get id = some r →
        (r.userID : Int) ≠ u) := by
  obtain ⟨m, hm, rfl, rfl⟩ := h
  rcases exists_key_of_effect (effect_perform now later db call) hm with
    ⟨m₁, hm₁, hkey⟩ | ⟨s, u, reason, rfl⟩ | ⟨name, rfl⟩
  · obtain ⟨hs, hu⟩ := Prod.mk.inj hkey
    exact .inl ⟨m₁, hm₁, by rw [hs], by rw [hu]⟩
  · simp only [perform]
    split
    · next db' hban =>
      have hserver : s = m.serverID := by
        have hok := hban
        simp only [Database.banMemberWithReason, Database.requesterRole, bind_eq_ok, require_eq_ok,
          found_eq_ok] at hok
        obtain ⟨-, -, -, -, -, -, ru, hu, -⟩ := hok
        rw [howned.server_of_role hu, howned.serverID_eq hm]
      refine .inr ⟨?_, serverID_pos hm, ?_⟩
      · simp [memberRemoved, called, Op.body, Instr.map, hserver]
      · intro id r hr heq
        have heffect : AccountEffect db _ ⟨db', [.banned m.userID], []⟩ := .banMember hban
        cases heffect.sessions with
        | deleted p hp =>
          rw [hp.sessions] at hr
          have hkept := (db.get_deleteSessions.mp hr).2
          rw [hp.banned List.mem_cons_self id r (by exact_mod_cast heq)] at hkept
          cases hkept
        | registered _ _ _ hevents | refreshed _ _ _ _ hevents => cases hevents
    · exact .inl ⟨m, hm, rfl, rfl⟩
  · simp only [perform]
    split
    · next r hdelete =>
      simp only [Database.deleteAccount, bind_eq_ok, require_eq_ok, found_eq_ok] at hdelete
      obtain ⟨-, -, m', hm', -, -, -, -, -, -, hok⟩ := hdelete
      cases hok
      have hserver : m'.serverID = m.serverID := by
        rw [howned.serverID_eq (List.mem_of_find?_eq_some hm'), howned.serverID_eq hm]
      refine .inr ⟨?_, serverID_pos hm, ?_⟩
      · simp [memberRemoved, called, Op.body, Instr.map, hserver]
      · intro id r hr heq
        have hkept := (db.get_deleteSessions.mp hr).2
        rw [decide_eq_true (by exact_mod_cast heq)] at hkept
        cases hkept
    · exact .inl ⟨m, hm, rfl, rfl⟩

end Members

/-! ## Registrations in progress -/

variable {compare : String → String → Bool} {s s' : State} {t t' : Store} {d : StoreCmd}
  {new : List BackendInstr} {R S : Multiset BackendCmd} {c : Client} {srv : Int}

def entries (S : Multiset BackendCmd) (c : Client) : ℕ :=
  S.count (.inl (.registry (.load c))) + S.count (.inl (.registry (.index c)))

theorem entries_add (S T : Multiset BackendCmd) :
    entries (S + T) c = entries S c + entries T c := by
  simp only [entries, count_add]
  omega

theorem entries_le_cons (a : BackendCmd) : entries R c ≤ entries (a ::ₘ R) c :=
  Nat.add_le_add (count_le_count_cons _ _ _) (count_le_count_cons _ _ _)

theorem entries_eq_zero (hload : .run (.inl (.registry (.load c))) ∉ new)
    (hindex : .run (.inl (.registry (.index c))) ∉ new) :
    entries (cmds new : Multiset BackendCmd) c = 0 := by
  rw [entries, count_eq_zero.mpr, count_eq_zero.mpr]
  · rwa [mem_coe, mem_cmds]
  · rwa [mem_coe, mem_cmds]

theorem entries_hub {h h' : HubState} {a : Hub.Cmd} {x : Choice} {is : List HubInstr}
    (he : h.exec x a = some (h', is)) (c : Client) :
    entries ((cmds (called is : List BackendInstr) : Multiset BackendCmd) + R) c +
      (if a = .registry (.index c) then 1 else 0) ≤ entries (.inl a ::ₘ R) c := by
  rw [entries_add]
  by_cases hload : a = .registry (.load c)
  · subst hload
    have hnew : entries (cmds (called is : List BackendInstr) : Multiset BackendCmd) c ≤ 1 := by
      obtain ⟨r', hr, -⟩ := exec_registry he
      simp only [Registry.exec] at hr
      split at hr
      · cases hr
        simp [entries]
      · cases hr
        simp [entries, called, Instr.map]
    have hcons : entries (.inl (.registry (.load c)) ::ₘ R) c = entries R c + 1 := by
      simp only [entries, count_cons_self]
      rw [count_cons_of_ne (by simp)]
      omega
    rw [hcons, if_neg (by simp)]
    omega
  · have hnew : entries (cmds (called is : List BackendInstr) : Multiset BackendCmd) c = 0 := by
      refine entries_eq_zero (fun hin => ?_) fun hin => ?_
      · cases follows_of_exec he (run_inl_mem_called.mp hin)
      · have hfollows := follows_of_exec he (run_inl_mem_called.mp hin)
        cases hfollows
        exact hload rfl
    rw [hnew, Nat.zero_add]
    split
    · next hindex =>
      subst hindex
      simp only [entries, count_cons_self]
      rw [count_cons_of_ne (by simp)]
      omega
    · exact entries_le_cons _

theorem entries_store (heffect : StoreEffect compare s d s' new)
    (hd : ∀ u token, d ≠ .newClient u token)
    (c : Client) : entries (cmds new + R) c ≤ entries (.inr d ::ₘ R) c := by
  have hnew : entries (cmds new : Multiset BackendCmd) c = 0 := by
    refine entries_eq_zero (fun hin => ?_) fun hin => ?_
    · obtain ⟨u, token, rfl⟩ := owes_of_effect heffect hin (.load c)
      exact hd u token rfl
    · obtain ⟨u, token, rfl⟩ := owes_of_effect heffect hin (.index c)
      exact hd u token rfl
  rw [entries_add, hnew, Nat.zero_add]
  exact entries_le_cons _

/-! ## The invariant -/

/-- Servers are added to a connection while its account is a member, or while its revocation is
still to come. -/
def AddTimely (s : State) (S : Multiset BackendCmd) : BackendCmd → Prop
  | .inl (.registry (.addServer c serverID)) => IsMember s.store.db serverID c.userID ∨
      .inl (.registry (.revokeUserSnapshot c.userID serverID)) ∈ S
  | _ => True

instance (s : State) (S : Multiset BackendCmd) (c : BackendCmd) : Decidable (AddTimely s S c) := by
  unfold AddTimely
  split <;> infer_instance

/-- The token was issued, and a session that has it is the account's. -/
def Belongs (t : Store) (k : ℕ) (userID : Int) : Prop :=
  k ∈ t.issued ∧ ∀ {id r}, t.db.sessions.get id = some r → r.tokenHash = k →
    (r.userID : Int) = userID

theorem Belongs.step {k : ℕ} {u : Int} (h : Belongs t k u) (hstep : TokenStep t t' new) :
    Belongs t' k u := by
  refine ⟨hstep.issued h.1, ?_⟩
  rintro id r' hr' rfl
  rcases hstep.session hr' with ⟨hnew, -⟩ | ⟨⟨r, hr, htoken, huser⟩, -⟩
  · exact absurd h.1 hnew
  · rw [← huser]
    exact h.2 hr htoken

/-- What still takes the server away from the connection, or the connection out of the hub. -/
inductive Removing (t : Store) (S : Multiset BackendCmd) (c : Client) (srv : Int) : Prop where
  | revoke (hsrv : 0 < srv) (h : .inl (.registry (.revokeUserSnapshot c.userID srv)) ∈ S)
  | remove (announce : Bool) (h : .inl (.registry (.removeClientServer c srv announce)) ∈ S)
  | close (h : .inl (.registry (.closeClient c)) ∈ S)
  | detach (h : .inl (.registry (.detach c)) ∈ S)
  | dead (hdead : Dead t c.sessionKey) (h : .inr (.confirm c) ∈ S)

structure Memberships (s : State) (S : Multiset BackendCmd) : Prop where
  owned : Owned s.store.db 1 1
  client_lt : ∀ {c}, c ∈ s.inner.registry.clients → c.connectionID < s.store.connections
  entry_lt : ∀ {c}, 0 < entries S c → c.connectionID < s.store.connections
  entry_once : ∀ c, entries S c ≤ 1
  outside : ∀ {c}, 0 < entries S c → c ∉ s.inner.registry.clients
  positive : ∀ {c}, c ∈ s.inner.registry.clients → 0 < c.userID
  added : ∀ {c srv}, .inl (.registry (.addServer c srv)) ∈ S → 0 < srv
  new : ∀ {u token : ℕ}, .inr (.newClient u token) ∈ S → Belongs s.store token u
  belongs : ∀ {c}, 0 < entries S c → Belongs s.store c.sessionKey c.userID
  entering : ∀ {c}, 0 < entries S c → ∀ srv ∈ s.inner.registry.servers c,
    IsMember s.store.db srv c.userID ∨ Dead s.store c.sessionKey
  covered : ∀ {c}, c ∈ s.inner.registry.clients → ∀ srv ∈ s.inner.registry.servers c,
    IsMember s.store.db srv c.userID ∨ Removing s.store S c srv

namespace Removing

theorem mono {T : Multiset BackendCmd} (h : Removing t S c srv) (hST : S ⊆ T) :
    Removing t T c srv := by
  cases h with
  | revoke hsrv h => exact .revoke hsrv (hST h)
  | remove announce h => exact .remove announce (hST h)
  | close h => exact .close (hST h)
  | detach h => exact .detach (hST h)
  | dead hdead h => exact .dead hdead (hST h)

theorem of_revoke {h h' : HubState} {x : Choice} {is : List HubInstr} (hc : c ∈ h.registry.clients)
    (hu : 0 < c.userID) (hsrv : 0 < srv)
    (he : h.exec x (.registry (.revokeUserSnapshot c.userID srv)) = some (h', is)) :
    Removing t ((cmds (called is : List BackendInstr) : Multiset BackendCmd) + R) c srv := by
  obtain ⟨r', hr, -⟩ := exec_registry he
  simp only [Registry.exec, if_neg (not_or.mpr ⟨not_le.mpr hu, not_le.mpr hsrv⟩)] at hr
  split at hr
  · next hclients =>
    cases hr
    have hin : c ∈ x.clients := hclients.mem_iff.mpr (h.registry.mem_clientsForUser.mpr ⟨hc, rfl⟩)
    have hround :
      ∀ i, i ∈ (if x.failed c then [.run (.registry (.closeClient c))] else revokeUserRound srv c) →
        i ∈ reloadChannelAccess x x.clients ++ eachClient x x.clients (revokeUserRound srv) := by
      intro i hi
      exact List.mem_append_right _ (List.mem_flatMap.mpr ⟨c, hin, hi⟩)
    by_cases hfailed : x.failed c
    · refine .close (mem_pushed.mpr (.inl (run_inl_mem_called.mpr (hround _ ?_))))
      simp [hfailed]
    · refine .remove false (mem_pushed.mpr (.inl (run_inl_mem_called.mpr (hround _ ?_))))
      simp [hfailed, revokeUserRound]
  · cases hr

theorem hub {a : Hub.Cmd} {x : Choice} {is : List HubInstr}
    (h : Removing s.store (.inl a ::ₘ R) c srv)
    (he : s.inner.exec x a = some (s'.inner, is)) (hstep : TokenStep s.store s'.store [])
    (hc : c ∈ s.inner.registry.clients) (hc' : c ∈ s'.inner.registry.clients) (hu : 0 < c.userID)
    (hsrv' : srv ∈ s'.inner.registry.servers c) :
    Removing s'.store ((cmds (called is : List BackendInstr) : Multiset BackendCmd) + R) c srv := by
  have hrest :
    ∀ {b}, b ∈ R → b ∈ (cmds (called is : List BackendInstr) : Multiset BackendCmd) + R :=
    fun hb => mem_pushed.mpr (.inr hb)
  cases h with
  | revoke hsrv h =>
    rcases mem_cons.mp h with heq | h
    · obtain rfl := Sum.inl.inj heq
      exact .of_revoke hc hu hsrv he
    · exact .revoke hsrv (hrest h)
  | remove announce h =>
    rcases mem_cons.mp h with heq | h
    · obtain rfl := Sum.inl.inj heq
      exact absurd hsrv' (not_mem_servers_of_remove he)
    · exact .remove announce (hrest h)
  | close h =>
    rcases mem_cons.mp h with heq | h
    · obtain rfl := Sum.inl.inj heq
      obtain ⟨-, rfl⟩ := Prod.mk.inj (Option.some.inj he)
      exact .detach (mem_pushed.mpr (.inl (by simp)))
    · exact .close (hrest h)
  | detach h =>
    rcases mem_cons.mp h with heq | h
    · obtain rfl := Sum.inl.inj heq
      exact absurd hc' (not_mem_clients_of_detach he)
    · exact .detach (hrest h)
  | dead hdead h =>
    rcases mem_cons.mp h with heq | h
    · cases heq
    · exact .dead (hdead.step hstep) (hrest h)

theorem store (h : Removing s.store (.inr d ::ₘ R) c srv) (heffect : StoreEffect compare s d s' new)
    (hregistered : c ∈ s.store.registered) : Removing s'.store (cmds new + R) c srv := by
  have hrest : ∀ {b}, b ∈ R → b ∈ cmds new + R := fun hb => mem_pushed.mpr (.inr hb)
  cases h with
  | revoke hsrv h => exact .revoke hsrv (hrest ((mem_cons.mp h).resolve_left (by simp)))
  | remove announce h => exact .remove announce (hrest ((mem_cons.mp h).resolve_left (by simp)))
  | close h => exact .close (hrest ((mem_cons.mp h).resolve_left (by simp)))
  | detach h => exact .detach (hrest ((mem_cons.mp h).resolve_left (by simp)))
  | dead hdead h =>
    rcases mem_cons.mp h with heq | h
    · obtain rfl := Sum.inr.inj heq
      cases heffect with
      | confirmed _ u now _ hauth =>
        rw [hdead.unauthenticated] at hauth
        cases hauth
      | unconfirmed => exact .close (mem_pushed.mpr (.inl List.mem_cons_self))
      | unregistered _ hno => exact absurd hregistered hno
    · exact .dead (hdead.step (.of_effect heffect)) (hrest h)

end Removing

namespace Memberships

variable {a : Hub.Cmd} {x : Choice} {is : List HubInstr} {token : ℕ}
  {u : ℕ}

theorem init {db : Database} (hdb : Bootstrapped db) (e2eeRequired : Int → Bool)
    (limits : ViewerLimits) : Memberships (initial db e2eeRequired limits) 0 where
  owned := owned_bootstrapped hdb
  client_lt := fun hc => absurd hc (Finset.notMem_empty _)
  entry_lt := fun h => absurd h (by simp [entries])
  entry_once := by simp [entries]
  outside := fun h => absurd h (by simp [entries])
  positive := fun hc => absurd hc (Finset.notMem_empty _)
  added := fun h => absurd h (notMem_zero _)
  new := fun h => absurd h (notMem_zero _)
  belongs := fun h => absurd h (by simp [entries])
  entering := fun h => absurd h (by simp [entries])
  covered := fun hc => absurd hc (Finset.notMem_empty _)

theorem addServer_pos {h h' : HubState}
    (he : h.exec x a = some (h', is)) (hin : .run (.registry (.addServer c srv)) ∈ is) :
    0 < srv := by
  have hfollows := follows_of_exec he hin
  cases hfollows with
  | addServer u s c =>
    obtain ⟨r', hr, -⟩ := exec_registry he
    simp only [Registry.exec] at hr
    split at hr
    · cases hr
      cases hin
    · next hpos => exact not_le.mp (not_or.mp hpos).2

theorem servers_outside {h h' : HubState}
    (he : h.exec x a = some (h', is)) (hc : c ∉ h.registry.clients)
    (hsrv : srv ∈ h'.registry.servers c) : srv ∈ h.registry.servers c := by
  rcases servers_from_exec he hsrv with hold | rfl
  · exact hold
  · obtain ⟨r', hr, hh'⟩ := exec_registry he
    simp only [Registry.exec, hc, false_and, dite_false, Option.some.injEq, Prod.mk.injEq] at hr
    rw [hh', ← hr.1] at hsrv
    exact hsrv

theorem hub (h : Memberships s (.inl a ::ₘ R)) (he : s.inner.exec x a = some (s'.inner, is))
    (hstore : s'.store = noteRegistered a s.inner s.store)
    (htimely : AddTimely s (.inl a ::ₘ R) (.inl a))
    (howed : ∀ c, a = .registry (.index c) → .inr (.confirm c) ∈ R) :
    Memberships s' ((cmds (called is : List BackendInstr) : Multiset BackendCmd) + R) := by
  obtain ⟨hdb, hconnections⟩ :
    s'.store.db = s.store.db ∧ s'.store.connections = s.store.connections := by
    obtain ⟨registered, hnote, -⟩ := noteRegistered_spec a s.inner s.store
    rw [hstore, hnote]
    exact ⟨rfl, rfl⟩
  have hstep : TokenStep s.store s'.store [] := hstore ▸ .of_note
  have hentries :
    ∀ {c}, 0 < entries ((cmds (called is : List BackendInstr) : Multiset BackendCmd) + R) c →
      0 < entries (.inl a ::ₘ R) c :=
      fun {c} hpos => hpos.trans_le (Nat.le_of_add_right_le (entries_hub he c))
  -- who enters was registering, and is not registering any more
  have hentered : ∀ {c}, c ∈ s'.inner.registry.clients → c ∈ s.inner.registry.clients ∨
      (a = .registry (.index c) ∧ s.inner.registry.Registrable c ∧
      0 < entries (.inl a ::ₘ R) c) := by
    intro c hc
    rcases clients_from_exec he hc with hold | ⟨rfl, hreg, -⟩
    · exact .inl hold
    · exact .inr ⟨rfl, hreg, Nat.add_pos_right _ (count_pos.mpr (by simp))⟩
  constructor
  case owned => exact hdb ▸ h.owned
  case client_lt =>
    intro c hc
    rw [hconnections]
    rcases hentered hc with hc | ⟨-, -, hpos⟩
    · exact h.client_lt hc
    · exact h.entry_lt hpos
  case entry_lt => exact fun hpos => hconnections ▸ h.entry_lt (hentries hpos)
  case entry_once =>
    exact fun c => (Nat.le_of_add_right_le (entries_hub he c)).trans (h.entry_once c)
  case outside =>
    intro c hpos hc
    rcases hentered hc with hc | ⟨rfl, -, -⟩
    · exact h.outside (hentries hpos) hc
    · have hle := (entries_hub he c).trans (h.entry_once c)
      rw [if_pos rfl] at hle
      omega
  case positive =>
    intro c hc
    rcases hentered hc with hc | ⟨-, hreg, -⟩
    · exact h.positive hc
    · exact hreg.1
  case added =>
    intro c srv hin
    rcases mem_pushed.mp hin with hin | hin
    · exact addServer_pos he (run_inl_mem_called.mp hin)
    · exact h.added (mem_cons_of_mem hin)
  case new =>
    intro u token hin
    have hR := (mem_pushed.mp hin).resolve_left run_inr_mem_called
    exact (h.new (mem_cons_of_mem hR)).step hstep
  case belongs => exact fun hpos => (h.belongs (hentries hpos)).step hstep
  case entering =>
    intro c hpos srv hsrv
    rw [hdb]
    have hpos := hentries hpos
    have hsrv := servers_outside he (h.outside hpos) hsrv
    exact (h.entering hpos srv hsrv).imp_right fun hdead => hdead.step hstep
  case covered =>
    intro c hc srv hsrv
    rw [hdb]
    rcases hentered hc with hold | ⟨rfl, -, hpos⟩
    · rcases servers_from_exec he hsrv with hsrv₀ | rfl
      · exact (h.covered hold srv hsrv₀).imp_right fun hremoving =>
          hremoving.hub he hstep hold hc (h.positive hold) hsrv
      · refine htimely.imp_right fun hpending => ?_
        refine .revoke (h.added (mem_cons_self _ _)) (mem_pushed.mpr (.inr ?_))
        exact (mem_cons.mp hpending).resolve_left (by simp)
    · have hsrv := servers_outside he (h.outside hpos) hsrv
      exact (h.entering hpos srv hsrv).imp_right fun hdead =>
        .dead (hdead.step hstep) (mem_pushed.mpr (.inr (howed c rfl)))

/-! ### Commands of the store -/

theorem inner_of_effect (heffect : StoreEffect compare s d s' new)
    (hd : ∀ u token, d ≠ .newClient u token) :
    s'.inner = s.inner ∧ s'.store.connections = s.store.connections := by
  cases heffect with
  | connected => exact absurd rfl (hd _ _)
  | _ => exact ⟨rfl, rfl⟩

theorem entries_connect {n : ℕ} : entries
    ((cmds (called (Op.body (.register ⟨n, u, token⟩)) ++ [.run (.inr (.confirm ⟨n, u, token⟩))] :
      List BackendInstr) : Multiset BackendCmd) + R) c =
        entries R c + if c = ⟨n, u, token⟩ then 1 else 0 := by
  rw [entries_add, Nat.add_comm]
  congr 1
  by_cases hc : c = ⟨n, u, token⟩
  · simp [entries, called, Op.body, Instr.map, hc]
  · simp [entries, called, Op.body, Instr.map, hc]

theorem entries_cons_inr : entries (.inr d ::ₘ R) c = entries R c := by
  rw [entries, entries, count_cons_of_ne (by simp), count_cons_of_ne (by simp)]

section

variable (heffect : StoreEffect compare s d s' new)
include heffect

theorem member_of_effect (howned : Owned s.store.db 1 1) {u : Int}
    (h : IsMember s.store.db srv u) : IsMember s'.store.db srv u ∨
      (.run (.inl (.registry (.revokeUserSnapshot u srv))) ∈ new ∧ 0 < srv ∧
        ∀ {id r}, s'.store.db.sessions.get id = some r → (r.userID : Int) ≠ u) := by
  cases heffect with
  | created _ _ _ _ _ _ hsession =>
    obtain ⟨-, -, -, hmembers, -⟩ := insertSession_eq_some hsession
    obtain ⟨m, hm, heq⟩ := h
    exact .inl ⟨m, (hmembers ▸ hm :), heq⟩
  | performed => exact member_perform howned h
  | _ => exact .inl h

theorem owned_of_effect (howned : Owned s.store.db 1 1) : Owned s'.store.db 1 1 := by
  cases heffect with
  | created _ _ _ _ _ _ hsession =>
    obtain ⟨husers, hservers, -, hmembers, hbans, hinvites⟩ := insertSession_eq_some hsession
    exact howned.same (.of_invites_eq husers hservers hmembers hbans hinvites)
  | performed c now later => exact howned.effect (effect_perform now later _ c)
  | _ => exact howned

theorem new_of_effect {u : ℕ} (htokens : Tokens s.store)
    (hin : .run (.inr (.newClient u token)) ∈ new) : Belongs s.store token u := by
  cases continues_of_effect heffect hin with
  | newClient _ _ now hauth =>
    obtain ⟨id, r, hr, rfl, rfl, -⟩ := findActiveUserID_eq_some hauth
    refine ⟨htokens.issued hr, ?_⟩
    intro id' r' hr' htoken
    obtain rfl := s.store.db.tokens hr' hr htoken
    rw [Option.mem_unique hr' hr]
  | next _ _ hnext => cases hnext

end

theorem store_other (h : Memberships s (.inr d ::ₘ R)) (heffect : StoreEffect compare s d s' new)
    (hsockets : Sockets s (.inr d ::ₘ R)) (hinner : s'.inner = s.inner)
    (hconnections : s'.store.connections = s.store.connections)
    (hle : ∀ c, entries (cmds new + R) c ≤ entries (.inr d ::ₘ R) c) :
    Memberships s' (cmds new + R) := by
  have hstep := TokenStep.of_effect heffect
  have hentries : ∀ {c}, 0 < entries (cmds new + R) c → 0 < entries (.inr d ::ₘ R) c :=
    fun {c} hpos => hpos.trans_le (hle c)
  constructor
  case owned => exact owned_of_effect heffect h.owned
  case client_lt =>
    rw [hinner, hconnections]
    exact h.client_lt
  case entry_lt => exact fun hpos => hconnections ▸ h.entry_lt (hentries hpos)
  case entry_once => exact fun c => (hle c).trans (h.entry_once c)
  case outside =>
    intro c hpos
    rw [hinner]
    exact h.outside (hentries hpos)
  case positive =>
    rw [hinner]
    exact h.positive
  case added =>
    intro c srv hin
    rcases mem_pushed.mp hin with hin | hin
    · cases continues_of_effect heffect hin with
      | next _ _ hnext => cases hnext
    · exact h.added (mem_cons_of_mem hin)
  case new =>
    intro u token hin
    rcases mem_pushed.mp hin with hin | hin
    · exact (new_of_effect heffect hsockets.tokens hin).step hstep
    · exact (h.new (mem_cons_of_mem hin)).step hstep
  case belongs => exact fun hpos => (h.belongs (hentries hpos)).step hstep
  case entering =>
    intro c hpos srv hsrv
    rw [hinner] at hsrv
    have hpos := hentries hpos
    rcases h.entering hpos srv hsrv with hmember | hdead
    · rcases member_of_effect heffect h.owned hmember with hmember | ⟨-, -, hgone⟩
      · exact .inl hmember
      · have hbelongs := (h.belongs hpos).step hstep
        exact .inr ⟨hbelongs.1, fun hr htoken => hgone hr (hbelongs.2 hr htoken)⟩
    · exact .inr (hdead.step hstep)
  case covered =>
    intro c hc srv hsrv
    rw [hinner] at hc hsrv
    rcases h.covered hc srv hsrv with hmember | hremoving
    · rcases member_of_effect heffect h.owned hmember with hmember | ⟨hpushed, hpos, -⟩
      · exact .inl hmember
      · exact .inr (.revoke hpos (mem_pushed.mpr (.inl hpushed)))
    · exact .inr (hremoving.store heffect (hsockets.registered hc))

theorem isMember_of_listServers {db : Database} (hsrv : srv ∈ listServers db u) :
    IsMember db srv u := by
  obtain ⟨m, hm, rfl⟩ := List.mem_map.mp (List.mem_toFinset.mp hsrv)
  obtain ⟨hrow, hu⟩ := List.mem_filter.mp hm
  exact ⟨m, hrow, rfl, by exact_mod_cast of_decide_eq_true hu⟩

theorem store_connect (h : Memberships s (.inr (.newClient u token) ::ₘ R))
    (heffect : StoreEffect compare s (.newClient u token) s' new)
    (hsockets : Sockets s (.inr (.newClient u token) ::ₘ R)) : Memberships s' (cmds new + R) := by
  have hremoving : ∀ {c srv}, c ∈ s.inner.registry.clients →
      Removing s.store (.inr (.newClient u token) ::ₘ R) c srv →
      Removing s'.store (cmds new + R) c srv :=
    fun hc hremoving => hremoving.store heffect (hsockets.registered hc)
  cases heffect with
  | unconnected =>
    have hidle : StoreEffect compare s (.newClient u token) s [] := .unconnected u token
    refine h.store_other hidle hsockets rfl rfl fun c => ?_
    rw [pushed_nil]
    exact entries_le_cons _
  | connected _ _ hfree =>
    -- whoever registers already has another number
    have hfresh : ∀ {c}, 0 < entries R c → c ≠ ⟨s.store.connections, u, token⟩ := by
      rintro c hpos rfl
      exact absurd (h.entry_lt (entries_cons_inr ▸ hpos)) (lt_irrefl _)
    have hnone : entries R ⟨s.store.connections, u, token⟩ = 0 := by
      by_contra hne
      exact hfresh (Nat.pos_of_ne_zero hne) rfl
    have hcases : ∀ {c}, 0 < entries R c + (if c = ⟨s.store.connections, u, token⟩ then 1 else 0) →
        0 < entries (.inr (.newClient u token) ::ₘ R) c ∨ c = ⟨s.store.connections, u, token⟩ := by
      intro c hpos
      split at hpos
      · next hc => exact .inr hc
      · refine .inl ?_
        rw [entries_cons_inr]
        exact hpos
    constructor
    case owned => exact h.owned
    case client_lt => exact fun hc => Nat.lt_succ_of_lt (h.client_lt hc)
    case entry_lt =>
      intro c hpos
      rw [entries_connect] at hpos
      rcases hcases hpos with hpos | rfl
      · exact Nat.lt_succ_of_lt (h.entry_lt hpos)
      · exact Nat.lt_succ_self _
    case entry_once =>
      intro c
      rw [entries_connect]
      split
      · next hc => rw [hc, hnone]
      · exact entries_cons_inr ▸ h.entry_once c
    case outside =>
      intro c hpos
      rw [entries_connect] at hpos
      rcases hcases hpos with hpos | rfl
      · exact h.outside hpos
      · exact hfree
    case positive => exact h.positive
    case added =>
      intro c srv hin
      refine h.added (mem_cons_of_mem ((mem_pushed.mp hin).resolve_left ?_))
      simp [called, Op.body, Instr.map]
    case new =>
      intro u' token' hin
      refine h.new (mem_cons_of_mem ((mem_pushed.mp hin).resolve_left ?_))
      simp [called, Op.body, Instr.map]
    case belongs =>
      intro c hpos
      rw [entries_connect] at hpos
      rcases hcases hpos with hpos | rfl
      · exact h.belongs hpos
      · exact h.new (by simp)
    case entering =>
      intro c hpos srv hsrv
      rw [entries_connect] at hpos
      by_cases hc : c = ⟨s.store.connections, u, token⟩
      · subst hc
        refine .inl (isMember_of_listServers ?_)
        simpa [createClient] using hsrv
      · have hpos := (hcases hpos).resolve_right hc
        exact h.entering hpos srv (by simpa [createClient, Function.update_of_ne hc] using hsrv)
    case covered =>
      intro c hc srv hsrv
      have hne : c ≠ ⟨s.store.connections, u, token⟩ := fun heq => hfree (heq ▸ hc)
      have hsrv : srv ∈ s.inner.registry.servers c := by
        simpa [createClient, Function.update_of_ne hne] using hsrv
      exact (h.covered hc srv hsrv).imp_right (hremoving hc)

theorem store (h : Memberships s (.inr d ::ₘ R)) (heffect : StoreEffect compare s d s' new)
    (hsockets : Sockets s (.inr d ::ₘ R)) : Memberships s' (cmds new + R) := by
  by_cases hconnect : ∃ u token, d = .newClient u token
  · obtain ⟨u, token, rfl⟩ := hconnect
    exact h.store_connect heffect hsockets
  · have hd : ∀ u token, d ≠ .newClient u token := fun u token hd => hconnect ⟨u, token, hd⟩
    obtain ⟨hinner, hconnections⟩ := inner_of_effect heffect hd
    exact h.store_other heffect hsockets hinner hconnections (entries_store heffect hd)

end Memberships

/-! ## Runs -/

section Run

variable {db : Database} {e2eeRequired : Int → Bool} {limits : ViewerLimits} {cfg : BackendConfig}

theorem body_spec (compare : String → String → Bool) {op : Hub.Op ⊕ BackendOp} (hop : Started op) :
    (∀ c, entries (cmds ((backend compare).machine.body op) : Multiset BackendCmd) c = 0) ∧
      (∀ c srv, .run (.inl (.registry (.addServer c srv))) ∉ (backend compare).machine.body op) ∧
      ∀ u token, .run (.inr (.newClient u token)) ∉ (backend compare).machine.body op := by
  cases op with
  | inl op =>
    refine ⟨fun c => entries_eq_zero (fun hin => ?_) fun hin => ?_, fun c srv hin => ?_,
      fun u token hin => ?_⟩
    · have hin := run_inl_mem_called.mp hin
      cases op <;> simp_all [hubMachine, Op.body, Started]
    · exact absurd (Op.starts (run_inl_mem_called.mp hin)) (by simp [Cmd.Starts])
    · exact absurd (Op.starts (run_inl_mem_called.mp hin)) (by simp [Cmd.Starts])
    · exact run_inr_mem_called hin
  | inr op =>
    have hinl : ∀ a, .run (.inl a) ∉ op.body := by
      intro a hin
      obtain ⟨d, heq, -⟩ := BackendOp.opens hin
      cases heq
    refine ⟨fun c => entries_eq_zero (hinl _) (hinl _), fun c srv => hinl _, fun u token hin => ?_⟩
    obtain ⟨d, heq, hopens⟩ := BackendOp.opens hin
    cases heq
    exact hopens

theorem Memberships.start {op : Hub.Op ⊕ BackendOp} (h : Memberships s S) (hop : Started op) :
    Memberships s ((cmds ((backend compare).machine.body op) : Multiset BackendCmd) + S) := by
  obtain ⟨hentries, hadded, hnew⟩ := body_spec compare hop
  have heq :
    ∀ {c}, entries ((cmds ((backend compare).machine.body op) : Multiset BackendCmd) + S) c =
      entries S c := by
    intro c
    rw [entries_add, hentries, Nat.zero_add]
  constructor
  case owned => exact h.owned
  case client_lt => exact h.client_lt
  case entry_lt => exact fun hpos => h.entry_lt (heq ▸ hpos)
  case entry_once => exact fun c => heq ▸ h.entry_once c
  case outside => exact fun hpos => h.outside (heq ▸ hpos)
  case positive => exact h.positive
  case added => exact fun {c srv} hin => h.added ((mem_pushed.mp hin).resolve_left (hadded c srv))
  case new => exact fun {u token} hin => h.new ((mem_pushed.mp hin).resolve_left (hnew u token))
  case belongs => exact fun hpos => h.belongs (heq ▸ hpos)
  case entering => exact fun hpos => h.entering (heq ▸ hpos)
  case covered =>
    intro c hc srv hsrv
    exact (h.covered hc srv hsrv).imp_right fun hremoving =>
      hremoving.mono (subset_of_le (le_add_left _ _))

theorem memberships_reachable (hdb : Bootstrapped db)
    (h : (backend compare).machine.Reachable Started AddTimely (initial db e2eeRequired limits)
    cfg) : Memberships cfg.state cfg.pending := by
  refine h.induction (P := Memberships) (.init hdb e2eeRequired limits) ?_ ?_
  · intro s S op hop hs
    exact hs.start hop
  · intro cfg i a x s' new rest R hcfg hfires htimely hs
    cases a with
    | inl a =>
      obtain ⟨is, -, he, hstore, rfl⟩ := Extension.exec_inl hfires.exec
      refine hs.hub he hstore htimely ?_
      rintro c rfl
      exact confirm_mem_of_fires hcfg hfires (.index c)
    | inr d =>
      have hsockets := (sockets_reachable hcfg).1
      rw [hfires.pending] at hsockets
      exact hs.store (storeEffect_of_exec hfires.exec) hsockets

/-- **Hub membership follows the database**, when servers are added in time: with nothing in
progress, the servers of a registered client are servers of which its account is a member. -/
theorem hub_follows_database (hdb : Bootstrapped db)
    (h : (backend compare).machine.Reachable Started AddTimely (initial db e2eeRequired limits) cfg)
    (hquiet : cfg.Quiescent) : ∀ c ∈ cfg.state.inner.registry.clients,
      ∀ srv ∈ cfg.state.inner.registry.servers c, IsMember cfg.state.store.db srv c.userID := by
  intro c hc srv hsrv
  have hinv := memberships_reachable hdb h
  rw [hquiet.pending_eq_zero] at hinv
  rcases hinv.covered hc srv hsrv with hmember | hremoving
  · exact hmember
  · cases hremoving with
    | revoke _ h | remove _ h | close h | detach h | dead _ h => exact absurd h (notMem_zero _)

end Run

/-! ## A server added too late -/

namespace Sample

def annasClient : Client := ⟨0, 2, 202⟩

/-- Account 2 has registered, was banned and unbanned, and has logged in and connected again; it is
no member any more. -/
def annaReturns : Moves :=
  annaRegisters ++ steps 1 6 (here []) ++ request 2 (.banMember 1 1 2 "spam") ++ steps 2 3
    (here []) ++
    request 3 (.unban 1 1 2) ++ .start (.inr (.login "anna" "anna" "a")) :: steps 4 2 {} ++
    steps 4 1 (issue 202) ++ .start (.inr (.connect 202)) :: steps 5 9 {}

/-- Account 2 accepts a link of the owner, as goroutine 7; the hub is not told yet. -/
def annaAccepts : Moves :=
  request 6 (.createLink 1 1 102 3600 none false) ++ request 7 (.acceptLink 102 2)

def hubAdds : Moves :=
  steps 7 3 { hub := { clients := [] } } ++ steps 7 5 { hub := { clients := [annasClient] } }

/-- Account 2 is banned again, as goroutine 8, and the hub is told. -/
def annaBanned : Moves :=
  request 8 (.banMember 1 1 2 "spam") ++ steps 8 9 { hub := { clients := [annasClient] } }

end Sample

/-- The theorem at a run: an acceptance reaches the connection of the account. -/
theorem hub_follows_database_accepted :
    ∃ cfg, (backend Sample.plain).machine.Reachable Started AddTimely Sample.start cfg ∧
    cfg.Quiescent ∧
      Sample.annasClient ∈ cfg.state.inner.registry.clients ∧
      1 ∈ cfg.state.inner.registry.servers Sample.annasClient ∧
      IsMember cfg.state.store.db 1 2 := by
  have hrun : ∃ cfg, (backend Sample.plain).machine.Reachable Started AddTimely Sample.start cfg ∧
      cfg.Quiescent ∧ Sample.annasClient ∈ cfg.state.inner.registry.clients ∧
      1 ∈ cfg.state.inner.registry.servers Sample.annasClient :=
    Machine.exists_reachable_of_play (Sample.annaReturns ++ Sample.annaAccepts ++ Sample.hubAdds)
      (by decide +kernel)
  obtain ⟨cfg, hreach, hquiet, hc, hsrv⟩ := hrun
  exact ⟨cfg, hreach, hquiet, hc, hsrv,
    hub_follows_database Account.Sample.bootstrapped_instance hreach hquiet _ hc 1 hsrv⟩

/-- **The hub does not always follow.** Account 2 accepts a link; it is banned, and the hub takes
the server away; then the hub is told of the acceptance. With nothing in progress, the registered
connection has a server of which its account is no member. -/
theorem added_after_removal :
    ∃ cfg, (backend Sample.plain).machine.Reachable Started (fun _ _ _ => True) Sample.start cfg ∧
      cfg.Quiescent ∧ Sample.annasClient ∈ cfg.state.inner.registry.clients ∧
      1 ∈ cfg.state.inner.registry.servers Sample.annasClient ∧
      ¬IsMember cfg.state.store.db 1 Sample.annasClient.userID :=
  Machine.exists_reachable_of_play (Sample.annaReturns ++ Sample.annaAccepts ++ Sample.annaBanned ++
    Sample.hubAdds) (by decide +kernel)

end Voxhold.Backend
