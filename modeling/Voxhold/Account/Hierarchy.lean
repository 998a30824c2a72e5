/-
# Voxhold.Account.Hierarchy — one owner, and who may do what to whom

The instance keeps the owner it was bootstrapped with (`Owned`). Whoever changes another account's
role, ban or timeout ranks higher than that account and than any role it gives; an admin lifts only
bans of their own; a call that fails changes nothing.
-/

import Voxhold.Account.Banned

namespace Voxhold.Account

variable {r : Role}

open Voxhold.Lib Keyed Database Option

/-! ## Ranks -/

/-- owner > admin > member > non-member. -/
def Role.rank : Role → ℕ
  | .owner => 3
  | .admin => 2
  | .member => 1

def Database.rank (db : Database) (serverID userID : ℕ) : ℕ :=
  (db.roleOf serverID userID).elim 0 Role.rank

/-- Who makes a call that can change memberships, bans or timeouts; a registration is made by the
account it creates. -/
def Call.requester (db : Database) : Call → Option ℕ
  | .acceptLink _ u | .accept _ u | .decline _ u | .deleteAccount u _ => some u
  | .register .. => some db.users.next
  | .updateMemberRole _ u _ _ | .banMember _ u _ _ | .unban _ u _ | .setMemberTimeout _ u _ _
  | .createLink _ u .. | .revokeLink _ _ u | .createDirect _ u _
  | .revokeSessionByID u _ | .revokeOthers u _ | .changePassword u .. | .createSession u .. =>
    some u
  | .logout _ | .refresh .. | .deleteExpired _ => none

/-- The call changes the membership (with its role and timeout) or the ban of an account. -/
def ChangesStanding (db db' : Database) (serverID userID : ℕ) : Prop :=
  db'.members.find (serverID, userID) ≠ db.members.find (serverID, userID) ∨
    db'.bans.find userID ≠ db.bans.find userID
deriving Decidable

variable {db db' : Database} {call : Call} {s o u v t : ℕ}

theorem rank_of_roleOf (h : db.roleOf s u = some r) : db.rank s u = r.rank := by
  rw [rank, h]
  rfl

theorem rank_pos (h : db.roleOf s u ≠ none) : 0 < db.rank s u := by
  obtain ⟨r, hr⟩ := ne_none_iff_exists'.mp h
  rw [rank_of_roleOf hr]
  cases r <;> decide

theorem Role.rank_lt_of_mayManage {ru rt : Role} (h : Database.mayManage ru rt)
    (howner : rt ≠ .owner) : rt.rank < ru.rank := by
  cases ru <;> cases rt <;> simp_all [mayManage, Role.rank]

theorem Role.rank_lt_owner (h : r ≠ .owner) : r.rank < Role.owner.rank := by
  cases r <;> simp_all [Role.rank]

theorem roleOf_eq_some : db.roleOf s u = some r ↔
    ∃ m, db.members.find (s, u) = some m ∧ m.role = r := by
  simp [roleOf]

/-! ## The owner -/

/-- Server `s` is the only one, and `o` is its only owner, neither timed out nor banned nor deleted.
-/
structure Owned (db : Database) (s o : ℕ) : Prop where
  server : ∀ {id}, db.servers.Has id → id = s
  hosted : db.servers.Has s
  owner : db.members.find (s, o) = some ⟨s, o, .owner, none⟩
  only : ∀ m ∈ db.members.rows, m.role = .owner → m.userID = o
  active : db.active o

namespace Owned

variable {s' : ℕ}

section

variable (h : Owned db s o)
include h

theorem has_user : db.users.Has o :=
  (db.refs.member (mem_of_find h.owner)).2

theorem serverID_eq {m : Member} (hm : m ∈ db.members.rows) : m.serverID = s :=
  h.server (db.refs.member hm).1

theorem server_of_role {r : Role} (hrole : db.roleOf s' u = some r) : s' = s := by
  obtain ⟨m, hm, -⟩ := roleOf_eq_some.mp hrole
  rw [← (columns_of_member hm).1]
  exact h.serverID_eq (mem_of_find hm)

theorem ne_of_role {r : Role} (hrole : db.roleOf s u = some r) (hr : r ≠ .owner) : u ≠ o := by
  rintro rfl
  rw [roleOf, h.owner] at hrole
  exact hr (some.inj hrole).symm

theorem eq_of_role (hrole : db.roleOf s u = some .owner) : u = o := by
  obtain ⟨m, hm, hr⟩ := roleOf_eq_some.mp hrole
  rw [← (columns_of_member hm).2]
  exact h.only m (mem_of_find hm) hr

theorem same (hsame : SameStanding db db') : Owned db' s o where
  server := by
    rw [hsame.servers]
    exact h.server
  hosted := by
    rw [hsame.servers]
    exact h.hosted
  owner := by
    rw [hsame.members]
    exact h.owner
  only := by
    rw [hsame.members]
    exact h.only
  active := by
    rw [hsame.active h.has_user]
    exact h.active

theorem join (hjoin : db.insertMember ⟨s', u, .member, none⟩ = some db') : Owned db' s o := by
  obtain ⟨husers, hservers, -, hmembers, hbans, -⟩ := insertMember_eq_some hjoin
  refine ⟨?_, ?_, ?_, ?_, ?_⟩
  · rw [hservers]
    exact h.server
  · rw [hservers]
    exact h.hosted
  · rw [hmembers, find_insertNew, h.owner]
    simp
  · intro m hm hrole
    rw [hmembers] at hm
    rcases mem_insertNew hm with rfl | hm
    · cases hrole
    · exact h.only m hm hrole
  · have hundeleted : db'.undeleted o = db.undeleted o := by
      rw [undeleted, undeleted, husers]
    rw [active_congr (by rw [hbans]) hundeleted]
    exact h.active

theorem insertUser {linkID : ℕ} {now : Int} {user : User} :
    Owned ((db.consumeLink linkID now).insertUser user) s o where
  __ := h
  active := by
    have hundeleted :
      ((db.consumeLink linkID now).insertUser user).undeleted o = db.undeleted o := by
      show ((db.users.insert user).get o).any _ = _
      rw [Table.get_insert_of_ne _ h.has_user.ne_next, undeleted]
    have hactive : ((db.consumeLink linkID now).insertUser user).active o = db.active o :=
      active_congr rfl hundeleted
    rw [hactive]
    exact h.active

theorem updateMember {f : Member → Member} {hf : ∀ m, (f m).key = m.key}
    (ht : t ≠ o) (hrole : ∀ m ∈ db.members.rows, (f m).role = .owner → m.role = .owner) :
    Owned (db.updateMember s' t f hf) s o where
  __ := h
  owner := by
    show (db.members.update _ f hf).find (s, o) = _
    rw [find_update, h.owner]
    simp [Member.key, Ne.symm ht]
  only m' hm' hrole' := by
    have hrows : (db.updateMember s' t f hf).members.rows =
        db.members.rows.map fun m => if m.key = (s', t) then f m else m := by
      show (db.members.update _ f hf).rows = _
      simp only [rows_update, decide_eq_true_eq]
    rw [hrows] at hm'
    obtain ⟨m, hm, rfl⟩ := List.mem_map.mp hm'
    split at hrole'
    · next hkey =>
      rw [if_pos hkey, (Prod.mk.inj (hf m)).2]
      exact h.only m hm (hrole m hm hrole')
    · next hkey =>
      rw [if_neg hkey]
      exact h.only m hm hrole'

theorem revokeAccess (ht : t ≠ o) (hservers : db'.servers = db.servers)
    (hmembers : db'.members = (db.revokeAccess t).members) (hactive : db'.active o = db.active o) :
    Owned db' s o where
  server := by
    rw [hservers]
    exact h.server
  hosted := by
    rw [hservers]
    exact h.hosted
  owner := by
    rw [hmembers]
    show (db.members.delete _).find (s, o) = _
    rw [find_delete, h.owner]
    simp [Option.filter, Ne.symm ht]
  only := by
    rw [hmembers]
    intro m hm
    exact h.only m (mem_members_revokeAccess.mp hm).1
  active := by
    rw [hactive]
    exact h.active

theorem ban {reason : String} {banned : Database} (ht : t ≠ o)
    (hban : db.insertBan ⟨t, u, reason⟩ = some banned) : Owned (banned.revokeAccess t) s o := by
  obtain ⟨husers, hservers, hmembers, -, -, hfree, hbans⟩ := insertBan_eq_some hban
  refine h.revokeAccess ht hservers ?_ (active_congr ?_ ?_)
  · show banned.members.delete _ = db.members.delete _
    rw [hmembers]
  · show banned.bans.find o = _
    rw [hbans, find_insert, if_neg (Ne.symm ht)]
  · show (banned.users.get o).any _ = _
    rw [husers, undeleted]

theorem unban (t : ℕ) : Owned (db.deleteBans fun b => b.userID = t) s o where
  __ := h
  active := by
    obtain ⟨hban, hrow⟩ := active_iff.mp h.active
    refine active_iff.mpr ⟨?_, hrow⟩
    show (db.bans.delete _).find o = none
    rw [find_delete, hban]
    rfl

theorem effect (heffect : Effect db call db') : Owned db' s o := by
  cases heffect with
  | same _ _ hsame => exact h.same hsame
  | acceptLink t u linkID s' now _ _ hjoin =>
    have hconsumed : Owned (db.consumeLink linkID now) s o :=
      h.same (.of_invites_eq rfl rfl rfl rfl rfl)
    exact hconsumed.join hjoin
  | register name key hash t t' linkID s' now expiry joined _ hjoin hsession =>
    obtain ⟨husers, hservers, -, hmembers, hbans, hinvites⟩ := insertSession_eq_some hsession
    exact (h.insertUser.join hjoin).same (.of_invites_eq husers hservers hmembers hbans hinvites)
  | accept inviteID u i _ _ _ _ hjoin =>
    have hsame : SameStanding db (db.setInviteStatus (fun id _ => id = inviteID) .accepted) :=
      .setInviteStatus _ nofun
    exact (h.same hsame).join hjoin
  | setRole s' u t old role hrole _ _ ht hold =>
    obtain rfl := h.server_of_role ht
    exact h.updateMember (h.ne_of_role ht hold) fun _ _ hr => absurd hr hrole
  | ban s' u t reason ru rt banned _ _ ht howner _ hban =>
    obtain rfl := h.server_of_role ht
    exact h.ban (h.ne_of_role ht howner) hban
  | unban s' u t => exact h.unban t
  | setTimeout s' u t expiry ru rt _ _ ht howner =>
    obtain rfl := h.server_of_role ht
    exact h.updateMember (h.ne_of_role ht howner) fun _ _ hr => hr
  | deleteAccount u name now m hm hu howner =>
    have hne : u ≠ o := by
      rintro rfl
      refine howner ?_
      have hrow : db.members.find (s, u) = some m :=
        find_eq_some.mpr ⟨hm, by rw [Member.key, h.serverID_eq hm, hu]⟩
      rw [mem_unique hrow h.owner]
    exact h.revokeAccess hne rfl rfl (active_congr rfl (undeleted_anonymise (Ne.symm hne)))

theorem validateOwner : db.validateOwner = .ok () := by
  have hmem : (⟨s, o, .owner, none⟩ : Member) ∈ db.activeOwners := by
    refine List.mem_filter.mpr ⟨mem_of_find h.owner, ?_⟩
    simp [h.hosted, h.active]
  have hall : ∀ m ∈ db.activeOwners, m = ⟨s, o, .owner, none⟩ := by
    intro m hm
    obtain ⟨hrow, hp⟩ := List.mem_filter.mp hm
    have hrole : m.role = .owner := by
      simp only [Bool.decide_and, Bool.and_eq_true, decide_eq_true_eq] at hp
      exact hp.1
    refine eq_of_key hrow (mem_of_find h.owner) ?_
    rw [Member.key, h.serverID_eq hrow, h.only m hrow hrole]
    rfl
  have hnodup : db.activeOwners.Nodup :=
    (db.members.unique.filter _).imp fun hkey heq => hkey (congrArg Member.key heq)
  have hone : db.activeOwners = [⟨s, o, .owner, none⟩] := by
    have hrep := List.eq_replicate_of_mem hall
    rw [hrep] at hnodup hmem ⊢
    have hle := List.nodup_replicate.mp hnodup
    have hpos : db.activeOwners.length ≠ 0 := by
      intro hzero
      rw [hzero] at hmem
      cases hmem
    obtain hlen : db.activeOwners.length = 1 := by omega
    rw [hlen]
    rfl
  rw [Database.validateOwner, hone]
  rfl

end

end Owned

/-! ## Ranks of who changes what -/

/-- Whoever changes another account's standing outranks it, before and after. -/
def Outranks (db db' : Database) (call : Call) (s v : ℕ) : Prop :=
  ∃ u, call.requester db = some u ∧ (u = v ∨ db.rank s v < db.rank s u ∧ db'.rank s v < db.rank s u)

theorem eq_of_join {s' : ℕ} (hjoin : db.insertMember ⟨s', u, .member, none⟩ = some db')
    (h : ChangesStanding db db' s v) : v = u := by
  obtain ⟨-, -, -, hmembers, hbans, -⟩ := insertMember_eq_some hjoin
  by_contra hne
  rcases h with h | h
  · refine h ?_
    rw [hmembers, find_insertNew, if_neg]
    rintro ⟨hkey, -⟩
    exact hne (Prod.mk.inj hkey).2
  · exact h (by rw [hbans])

theorem roleOf_updateMember {f : Member → Member} {hf : ∀ m, (f m).key = m.key} {m : Member}
    (hm : db.members.find (s, t) = some m) :
    (db.updateMember s t f hf).roleOf s t = some (f m).role := by
  show ((db.members.update _ f hf).find (s, t)).map Member.role = _
  rw [find_update, hm]
  simp [key_of_find hm]

theorem find_members_revokeAccess : (db.revokeAccess t).members.find (s, v) =
    if v = t then none else db.members.find (s, v) := by
  show (db.members.delete _).find (s, v) = _
  rw [find_delete]
  cases hm : db.members.find (s, v) with
  | none => simp
  | some m =>
    have hu : m.userID = v := (columns_of_member hm).2
    by_cases hv : v = t
    · simp [Option.filter, hu, hv]
    · simp [Option.filter, hu, hv]

theorem find_bans_delete : (db.deleteBans fun b => b.userID = t).bans.find v =
    if v = t then none else db.bans.find v := by
  show (db.bans.delete _).find v = _
  rw [find_delete]
  cases hb : db.bans.find v with
  | none => simp
  | some b =>
    have hu : b.userID = v := key_of_find hb
    by_cases hv : v = t
    · simp [Option.filter, hu, hv]
    · simp [Option.filter, hu, hv]

theorem not_changes_same (h : SameStanding db db') : ¬ChangesStanding db db' s v := by
  rintro (hm | hb)
  · exact hm (by rw [h.members])
  · exact hb (by rw [h.bans])

theorem MembersActive.rank_eq_zero (h : MembersActive db) {b : Ban} (hb : db.bans.find t = some b) :
    db.rank s t = 0 := by
  cases hm : db.members.find (s, t) with
  | none => rw [rank, roleOf, hm]; rfl
  | some m =>
    have hactive := h.members m (mem_of_find hm)
    rw [(columns_of_member hm).2] at hactive
    rw [(active_iff.mp hactive).1] at hb
    cases hb

theorem outranks_of_changes (howned : Owned db s o) (hactive : MembersActive db)
    (heffect : Effect db call db') (h : ChangesStanding db db' s v) : Outranks db db' call s v := by
  cases heffect with
  | same _ _ hsame => exact absurd h (not_changes_same hsame)
  | acceptLink t u linkID s' now _ _ hjoin | accept inviteID u i _ _ _ _ hjoin =>
    exact ⟨u, rfl, .inl (eq_of_join hjoin h).symm⟩
  | register name key hash t t' linkID s' now expiry joined _ hjoin hsession =>
    obtain ⟨-, -, -, hmembers, hbans, -⟩ := insertSession_eq_some hsession
    have hchanges : ChangesStanding db joined s v := by
      unfold ChangesStanding at h ⊢
      rwa [hmembers, hbans] at h
    exact ⟨_, rfl, .inl (eq_of_join hjoin hchanges).symm⟩
  | setRole s' u t old role hrole hu hut ht hold =>
    obtain rfl := howned.server_of_role ht
    obtain rfl : v = t := by
      by_contra hne
      exact h.elim (fun hm => hm (db.find_updateMember_of_ne fun heq => hne (Prod.mk.inj heq).2))
        (fun hb => hb rfl)
    refine ⟨u, rfl, .inr ?_⟩
    obtain ⟨m, hm, -⟩ := roleOf_eq_some.mp ht
    have hafter : (db.setRole s' v role).roleOf s' v = some role := roleOf_updateMember hm
    rw [rank_of_roleOf hu, rank_of_roleOf ht, rank_of_roleOf hafter]
    exact ⟨Role.rank_lt_owner hold, Role.rank_lt_owner hrole⟩
  | ban s' u t reason ru rt banned hu hut ht howner hmay hban =>
    obtain rfl := howned.server_of_role ht
    obtain ⟨-, -, hmembers, -, -, hfree, hbans⟩ := insertBan_eq_some hban
    obtain rfl : v = t := by
      by_contra hne
      rcases h with hm | hb
      · rw [find_members_revokeAccess, if_neg hne, hmembers] at hm
        exact hm rfl
      · refine hb ?_
        show banned.bans.find v = _
        rw [hbans, find_insert, if_neg hne]
    refine ⟨u, rfl, .inr ?_⟩
    have hafter : (banned.revokeAccess v).rank s' v = 0 := by
      rw [rank, roleOf, find_members_revokeAccess, if_pos rfl]
      rfl
    rw [hafter]
    refine ⟨?_, rank_pos (by rw [hu]; nofun)⟩
    rw [rank_of_roleOf hu, rank_of_roleOf ht]
    exact Role.rank_lt_of_mayManage hmay howner
  | unban s' u t ru b hu hb hmay =>
    obtain rfl := howned.server_of_role hu
    obtain rfl : v = t := by
      by_contra hne
      rcases h with hm | hb'
      · exact hm rfl
      · rw [find_bans_delete, if_neg hne] at hb'
        exact hb' rfl
    refine ⟨u, rfl, .inr ?_⟩
    -- the target's rank is not looked at: it has none
    have hsame : (db.deleteBans fun b => b.userID = v).rank s' v = db.rank s' v := rfl
    rw [hsame, hactive.rank_eq_zero hb]
    exact ⟨rank_pos (by rw [hu]; nofun), rank_pos (by rw [hu]; nofun)⟩
  | setTimeout s' u t expiry ru rt hu hut ht howner hmay =>
    obtain rfl := howned.server_of_role ht
    obtain rfl : v = t := by
      by_contra hne
      exact h.elim (fun hm => hm (db.find_updateMember_of_ne fun heq => hne (Prod.mk.inj heq).2))
        (fun hb => hb rfl)
    refine ⟨u, rfl, .inr ?_⟩
    obtain ⟨m, hm, hrole⟩ := roleOf_eq_some.mp ht
    have hafter : (db.setTimeout s' v expiry).roleOf s' v = some m.role := roleOf_updateMember hm
    have hlt := Role.rank_lt_of_mayManage hmay howner
    rw [rank_of_roleOf hu, rank_of_roleOf ht, rank_of_roleOf hafter, hrole]
    exact ⟨hlt, hlt⟩
  | deleteAccount u name now m hm hu howner =>
    refine ⟨u, rfl, .inl ?_⟩
    by_contra hne
    rcases h with hmem | hb
    · refine hmem ?_
      show (db.revokeAccess u).members.find (s, v) = _
      rw [find_members_revokeAccess, if_neg (Ne.symm hne)]
    · exact hb rfl

theorem lifts_of_effect (howned : Owned db s o) (heffect : Effect db call db') {b : Ban}
    (hb : db.bans.find v = some b) (hlifted : db'.bans.find v = none) :
    ∃ u, call.requester db = some u ∧ (u = o ∨
      (db.roleOf s u = some .admin ∧ b.bannedByUserID = u)) := by
  have hkept : db'.bans.find v ≠ db.bans.find v := by
    rw [hb, hlifted]
    nofun
  cases heffect with
  | same _ _ hsame => exact absurd (by rw [hsame.bans]) hkept
  | acceptLink _ _ _ _ _ _ _ hjoin | accept _ _ _ _ _ _ _ hjoin =>
    obtain ⟨-, -, -, -, hbans, -⟩ := insertMember_eq_some hjoin
    exact absurd (by rw [hbans]; rfl) hkept
  | register _ _ _ _ _ _ _ _ _ _ _ hjoin hsession =>
    obtain ⟨-, -, -, -, hbans, -⟩ := insertMember_eq_some hjoin
    obtain ⟨-, -, -, -, hbans', -⟩ := insertSession_eq_some hsession
    exact absurd (by rw [hbans', hbans]; rfl) hkept
  | setRole => exact absurd rfl hkept
  | ban s' u t reason ru rt banned _ _ _ _ _ hban =>
    obtain ⟨-, -, -, -, -, hfree, hbans⟩ := insertBan_eq_some hban
    have hbans' : (banned.revokeAccess t).bans = banned.bans := rfl
    rw [hbans', hbans, find_insert] at hlifted
    split at hlifted
    · cases hlifted
    · rw [hb] at hlifted
      cases hlifted
  | unban s' u t ru b' hu hb' hmay =>
    obtain rfl := howned.server_of_role hu
    rw [find_bans_delete] at hkept
    split at hkept
    · next hv =>
      subst hv
      obtain rfl := mem_unique hb' hb
      refine ⟨u, rfl, ?_⟩
      rcases hmay with rfl | ⟨rfl, hby⟩
      · exact .inl (howned.eq_of_role hu)
      · exact .inr ⟨hu, hby⟩
    · exact absurd rfl hkept
  | setTimeout | deleteAccount => exact absurd rfl hkept

/-! ## Runs -/

theorem owned_bootstrapped (h : Bootstrapped db) : Owned db 1 1 := by
  have hactive := membersActive_bootstrapped h
  obtain ⟨user, server, -, husers, hservers, hmembers, -, -, -, -⟩ := bootstrapped_cases h
  have howner : db.members.find (1, 1) = some ⟨1, 1, .owner, none⟩ := by
    rw [hmembers]
    rfl
  refine ⟨?_, ?_, howner, ?_, hactive.members _ (mem_of_find howner)⟩
  · intro id hid
    rw [hservers, Table.Has, Table.get_insert] at hid
    by_contra hne
    rw [if_neg (show id ≠ Table.empty.next from hne)] at hid
    cases hid
  · rw [hservers]
    rfl
  · intro m hm _
    rw [hmembers] at hm
    rcases mem_insertNew hm with rfl | hm
    · rfl
    · cases hm

theorem owned_run (h : Bootstrapped db) (requests : List Request) : Owned (run db requests) 1 1 :=
  foldl_preserves (P := fun db => Owned db 1 1)
    (fun db r howned => howned.effect (effect_apply db r)) (owned_bootstrapped h)

/-- **One owner, and ranks.** After every run of a bootstrapped instance account 1 is the one owner
of server 1, neither timed out nor banned nor deleted, so `validateOwner` succeeds. Of the next
request: if it fails, it changes no membership and no ban; if it lifts a ban, the owner or the admin
who issued it asked for that; and if no link was accepted by a banned or deleted account, whoever
changes another account's membership, role, timeout or ban outranks that account, and the role it
has afterwards. -/
theorem role_hierarchy (hboot : Bootstrapped db) (requests : List Request) :
    ((∀ m ∈ (run db requests).members.rows, m.role = .owner ↔ m = ⟨1, 1, .owner, none⟩) ∧
      ⟨1, 1, .owner, none⟩ ∈ (run db requests).members.rows ∧ (run db requests).active 1 ∧
      (run db requests).validateOwner = .ok ()) ∧
    ∀ r : Request, (∀ err, (r.exec (run db requests)).2 = .error err → ∀ s v,
        ¬ChangesStanding (run db requests) (r.apply (run db requests)) s v) ∧
      (∀ v b, (run db requests).bans.find v = some b →
      (r.apply (run db requests)).bans.find v = none →
        ∃ u, r.call.requester (run db requests) = some u ∧
          (u = 1 ∨ ((run db requests).roleOf 1 u = some .admin ∧ b.bannedByUserID = u))) ∧
      (Along Timely db requests →
      ∀ v, ChangesStanding (run db requests) (r.apply (run db requests)) 1 v →
        Outranks (run db requests) (r.apply (run db requests)) r.call 1 v) := by
  have howned := owned_run hboot requests
  refine ⟨⟨?_, mem_of_find howned.owner, howned.active, howned.validateOwner⟩,
    fun r => ⟨?_, ?_, ?_⟩⟩
  · intro m hm
    constructor
    · intro hrole
      refine eq_of_key hm (mem_of_find howned.owner) ?_
      rw [Member.key, howned.serverID_eq hm, howned.only m hm hrole]
      rfl
    · rintro rfl
      rfl
  · exact fun err herr s v => not_changes_same (sameStanding_of_error herr)
  · exact fun v b hb hlifted => lifts_of_effect howned (effect_apply _ r) hb hlifted
  · intro htimely v hchanges
    have hactive : MembersActive (run db requests) :=
      run_induction (membersActive_bootstrapped hboot) (fun _ _ h ht => h.apply ht) htimely
    exact outranks_of_changes howned hactive (effect_apply _ r) hchanges

/-- **An instance can be started again.** After every run `Ensure` succeeds, whatever the
configuration, and changes nothing. -/
theorem ensure_unchanged (hboot : Bootstrapped db) (requests : List Request) (crypto : Crypto)
    (config : Config) : (run db requests).ensure crypto config = .ok (run db requests) := by
  have howned := owned_run hboot requests
  generalize run db requests = db' at howned ⊢
  have hone : db'.servers.toList.length = 1 := by
    obtain ⟨server, hserver⟩ := isSome_iff_exists.mp howned.hosted
    have hmem := Table.mem_toList.mpr hserver
    have hid : ∀ x ∈ db'.servers.toList, x.1 = 1 := fun x hx =>
      howned.server (isSome_of_eq_some (Table.mem_toList.mp hx))
    have hsorted := db'.servers.toList_sorted
    generalize db'.servers.toList = rows at hmem hid hsorted
    cases hsorted with
    | nil => cases hmem
    | @cons x rest hlt _ =>
      cases rest with
      | nil => rfl
      | cons y rest => simpa [hid] using hlt y List.mem_cons_self
  rw [Database.ensure, hone, howned.validateOwner]
  rfl

namespace Sample

def admins : List Request :=
  members ++ [Sample.call (.updateMemberRole 1 1 3 .admin)]

/-- The admin bans account 2, which accepts a link afterwards and is made an admin too. -/
def rejoined : List Request :=
  admins ++ [Sample.call (.banMember 1 3 2 "spam"), Sample.call (.acceptLink 102 2),
    Sample.call (.updateMemberRole 1 1 2 .admin)]

end Sample

theorem ensure_unchanged_members : (run Sample.instance₁ Sample.members).ensure Sample.crypto
    ⟨"", "", ""⟩ = .ok (run Sample.instance₁ Sample.members) :=
  ensure_unchanged Sample.bootstrapped_instance _ _ _

theorem role_hierarchy_ban : Outranks (run Sample.instance₁ Sample.admins)
      ((Sample.call (.banMember 1 3 2 "spam")).apply (run Sample.instance₁ Sample.admins))
      (.banMember 1 3 2 "spam") 1 2 :=
  ((role_hierarchy Sample.bootstrapped_instance Sample.admins).2
    (Sample.call (.banMember 1 3 2 "spam"))).2.2 (by decide) 2 (by decide)

/-- **An admin lifts the ban of an admin.** -/
theorem unban_of_equal_rank : let db := run Sample.instance₁ Sample.rejoined
    let r := Sample.call (.unban 1 3 2)
    (r.exec db).2 = .ok () ∧ ChangesStanding db (r.apply db) 1 2 ∧ r.call.requester db = some 3 ∧
      db.rank 1 2 = db.rank 1 3 := by
  decide

end Voxhold.Account
