/-
# Voxhold.Account.Banned — who is banned or deleted is no member

A ban and a deletion take the memberships and invitations of the account away, but `AcceptLink`
looks at the link only: a request authenticated before the ban and committed after it makes the
banned account a member (`acceptLink_after_removal`). Without one, nobody banned or deleted is a
member (`members_active`).
-/

import Voxhold.Account.Bootstrap

namespace Voxhold.Account

open Voxhold.Lib Database

variable {db db' : Database} {u v : ℕ}
  {m : Member}

/-! ## Active accounts -/

theorem active_iff : db.active u ↔
    db.bans.find u = none ∧ ∃ r, db.users.get u = some r ∧ r.deletedAt = none := by
  rw [active, Bool.and_eq_true, and_comm]
  simp [banned, undeleted, Option.any_eq_true]

theorem active_congr (hbans : db'.bans.find u = db.bans.find u)
    (hdeleted : db'.undeleted u = db.undeleted u) : db'.active u = db.active u := by
  rw [active, active, banned, banned, hbans, hdeleted]

theorem SameStanding.active (h : SameStanding db db') (hu : db.users.Has u) :
    db'.active u = db.active u :=
  active_congr (by rw [h.bans]) (h.deleted u hu)

theorem bans_find_next : db.bans.find db.users.next = none := by
  refine Keyed.find_eq_none.mpr fun b hb hu => ?_
  exact (db.refs.ban hb).1.ne_next hu

/-! ## What the statements do to the tables -/

theorem columns_of_member {s : ℕ} (h : db.members.find (s, u) = some m) :
    m.serverID = s ∧ m.userID = u :=
  Prod.mk.inj (Keyed.key_of_find h : m.key = (s, u))

theorem insertMember_eq_some (h : db.insertMember m = some db') :
    db'.users = db.users ∧ db'.servers = db.servers ∧ db'.sessions = db.sessions ∧
      db'.members = db.members.insertNew m ∧ db'.bans = db.bans ∧ db'.invites = db.invites := by
  unfold insertMember at h
  split at h
  · cases h
    exact ⟨rfl, rfl, rfl, rfl, rfl, rfl⟩
  · cases h

theorem insertSession_eq_some {s : Session} (h : db.insertSession s = some db') :
    db'.users = db.users ∧ db'.servers = db.servers ∧ db'.sessions = db.sessions.insert s ∧
      db'.members = db.members ∧ db'.bans = db.bans ∧ db'.invites = db.invites := by
  unfold insertSession at h
  split at h
  · cases h
    exact ⟨rfl, rfl, rfl, rfl, rfl, rfl⟩
  · cases h

theorem insertBan_eq_some {b : Ban} (h : db.insertBan b = some db') :
    db'.users = db.users ∧ db'.servers = db.servers ∧ db'.members = db.members ∧
      db'.invites = db.invites ∧ db'.sessions = db.sessions ∧
      ∃ hfree, db'.bans = db.bans.insert b hfree := by
  unfold insertBan at h
  split at h
  · next hchecked =>
    cases h
    exact ⟨rfl, rfl, rfl, rfl, rfl, hchecked.2.2, rfl⟩
  · cases h

theorem mem_members_revokeAccess :
    m ∈ (db.revokeAccess u).members.rows ↔ m ∈ db.members.rows ∧ m.userID ≠ u := by
  simp [revokeAccess, deleteMembers, deleteLinks, deleteInvites,
    deleteSessions, alterSessions, Keyed.mem_delete]

theorem get_invites_revokeAccess {id : ℕ} {i : Invite}
    (h : (db.revokeAccess u).invites.get id = some i) :
    db.invites.get id = some i ∧ i.inviteeUserID ≠ u := by
  have hkept := (Table.get_delete_eq_some db.invites).mp h
  simpa using hkept.imp_right fun hp => (by simpa using hp : i.inviterUserID ≠ u ∧
    i.inviteeUserID ≠ u).2

theorem undeleted_anonymise {name : String} {now : Int} (h : v ≠ u) :
    (db.anonymise u name now).undeleted v = db.undeleted v := by
  rw [undeleted, anonymise, updateUser, setUsers_users,
    Table.get_modify, if_neg h, undeleted]

/-! ## The invariant -/

/-- Every member, and everybody who may become one by a pending invitation, is neither banned nor
deleted. -/
structure MembersActive (db : Database) : Prop where
  members : ∀ m ∈ db.members.rows, db.active m.userID
  invites : ∀ {id i}, db.invites.get id = some i → i.status = .pending → db.active i.inviteeUserID

/-- A request is timely if it does not let an account in by a link that is banned or deleted by
then. -/
def Timely (db : Database) (r : Request) : Prop :=
  ∀ t u, r.call = .acceptLink t u → (r.exec db).2.isOk → db.active u

instance (db : Database) (r : Request) : Decidable (Timely db r) :=
  match hcall : r.call with
  | .acceptLink t u =>
    decidable_of_iff ((r.exec db).2.isOk → db.active u) (by
      unfold Timely
      rw [hcall]
      constructor
      · rintro h _ _ ⟨⟩
        exact h
      · exact fun h => h t u rfl)
  | .createLink .. | .revokeLink .. | .register .. | .createDirect .. | .accept .. | .decline ..
  | .updateMemberRole .. | .banMember .. | .unban .. | .setMemberTimeout .. | .deleteAccount ..
  | .createSession .. | .logout .. | .refresh .. | .revokeSessionByID .. | .revokeOthers ..
  | .changePassword .. | .deleteExpired .. => .isTrue (by
      intro t u h
      rw [hcall] at h
      cases h)

namespace MembersActive

section

variable (hinv : MembersActive db)
include hinv

theorem same (h : SameStanding db db') : MembersActive db' where
  members m hm := by
    rw [h.members] at hm
    rw [h.active (db.refs.member hm).2]
    exact hinv.members m hm
  invites := by
    intro id i hi hp
    rcases h.invites hi hp with hactive | ⟨i₀, hi₀, hp₀, heq⟩
    · have hhas : db.users.Has i.inviteeUserID := by
        obtain ⟨-, r, hr, -⟩ := active_iff.mp hactive
        exact Table.has_of_get hr
      rwa [h.active hhas]
    · rw [← heq, h.active (db.refs.invite hi₀).2.2]
      exact hinv.invites hi₀ hp₀

theorem join {m : Member} (hm : db.active m.userID)
    (h : db.insertMember m = some db') : MembersActive db' := by
  obtain ⟨husers, -, -, hmembers, hbans, hinvites⟩ := insertMember_eq_some h
  have hactive : ∀ v, db'.active v = db.active v := fun v =>
    active_congr (by rw [hbans]) (by rw [undeleted, undeleted, husers])
  refine ⟨?_, ?_⟩
  · intro m' hm'
    rw [hmembers] at hm'
    rw [hactive]
    rcases Keyed.mem_insertNew hm' with rfl | hm'
    · exact hm
    · exact hinv.members m' hm'
  · intro id i hi hp
    rw [hinvites] at hi
    rw [hactive]
    exact hinv.invites hi hp

theorem updateMember {s : ℕ} {f : Member → Member} {hf : ∀ m, (f m).key = m.key} :
    MembersActive (db.updateMember s u f hf) where
  members m hm := by
    obtain ⟨m₀, hm₀, hkey⟩ := @Keyed.exists_of_mem_update _ _ _ _ _ _ _ hf hm
    rw [(Prod.mk.inj hkey).2]
    exact hinv.members m₀ hm₀
  invites := hinv.invites

theorem revokeAccess (hmembers : db'.members.rows = (db.revokeAccess u).members.rows)
    (hinvites : db'.invites = (db.revokeAccess u).invites)
    (hactive : ∀ v, v ≠ u → db'.active v = db.active v) : MembersActive db' where
  members m hm := by
    rw [hmembers] at hm
    obtain ⟨hold, hne⟩ := mem_members_revokeAccess.mp hm
    rw [hactive _ hne]
    exact hinv.members m hold
  invites := by
    intro id i hi hp
    rw [hinvites] at hi
    obtain ⟨hold, hne⟩ := get_invites_revokeAccess hi
    rw [hactive _ hne]
    exact hinv.invites hold hp

theorem ban {t : ℕ} {reason : String} (h : db.insertBan ⟨t, u, reason⟩ = some db') :
    MembersActive (db'.revokeAccess t) := by
  obtain ⟨husers, -, hmembers, hinvites, -, hfree, hbans⟩ := insertBan_eq_some h
  refine hinv.revokeAccess (u := t) ?_ ?_ fun v hv => ?_
  · show (db'.members.delete _).rows = (db.members.delete _).rows
    rw [hmembers]
  · show db'.invites.delete _ = db.invites.delete _
    rw [hinvites]
  · refine active_congr ?_ ?_
    · show db'.bans.find v = _
      rw [hbans, Keyed.find_insert, if_neg hv]
    · show (db'.users.get v).any _ = _
      rw [husers, undeleted]

theorem unban (t : ℕ) : MembersActive (db.deleteBans fun b => b.userID = t) := by
  have hactive : ∀ v, db.active v → (db.deleteBans fun b => b.userID = t).active v := by
    intro v hv
    obtain ⟨hban, hrow⟩ := active_iff.mp hv
    refine active_iff.mpr ⟨?_, hrow⟩
    show (db.bans.delete _).find v = none
    rw [Keyed.find_delete, hban]
    rfl
  exact ⟨fun m hm => hactive _ (hinv.members m hm), fun hi hp => hactive _ (hinv.invites hi hp)⟩

theorem register {linkID : ℕ} {now : Int} {user : User} :
    MembersActive ((db.consumeLink linkID now).insertUser user) := by
  have hactive : ∀ v, db.users.Has v → ((db.consumeLink linkID now).insertUser user).active v =
    db.active v := by
    intro v hv
    refine active_congr rfl ?_
    show ((db.users.insert user).get v).any _ = _
    rw [Table.get_insert_of_ne _ hv.ne_next, undeleted]
  refine ⟨fun m hm => ?_, fun hi hp => ?_⟩
  · rw [hactive _ (db.refs.member hm).2]
    exact hinv.members m hm
  · rw [hactive _ (db.refs.invite hi).2.2]
    exact hinv.invites hi hp

theorem effect {call : Call} (h : Effect db call db')
    (htimely : ∀ t u, call = .acceptLink t u → db.active u) : MembersActive db' := by
  cases h with
  | same _ _ h => exact hinv.same h
  | acceptLink t u linkID s now _ _ hjoin =>
    have hconsumed : MembersActive (db.consumeLink linkID now) :=
      hinv.same (.of_invites_eq rfl rfl rfl rfl rfl)
    have hu : (db.consumeLink linkID now).active u := htimely t u rfl
    exact hconsumed.join hu hjoin
  | register name key hash t t' linkID s now expiry joined _ hjoin hsession =>
    have hnew : ((db.consumeLink linkID now).insertUser ⟨name, some key, hash, none⟩).active
        db.users.next := by
      have hrow := Table.get_insert_next db.users (v := ⟨name, some key, hash, none⟩)
      exact active_iff.mpr ⟨bans_find_next, _, hrow, rfl⟩
    have hjoined := hinv.register.join hnew hjoin
    obtain ⟨husers, hservers, -, hmembers, hbans, hinvites⟩ := insertSession_eq_some hsession
    exact hjoined.same (.of_invites_eq husers hservers hmembers hbans hinvites)
  | accept inviteID u i _ hinvite hpending hinvitee hjoin =>
    have hsame : SameStanding db (db.setInviteStatus (fun id _ => id = inviteID) .accepted) :=
      .setInviteStatus _ nofun
    have hu : db.active u := hinvitee ▸ hinv.invites hinvite hpending
    refine (hinv.same hsame).join ?_ hjoin
    rwa [hsame.active (hinvitee ▸ (db.refs.invite hinvite).2.2)]
  | setRole s u t old role => exact hinv.updateMember (f := fun m => { m with role := role })
  | ban s u t reason ru rt banned _ _ _ _ _ hban => exact hinv.ban hban
  | unban s u t => exact hinv.unban t
  | setTimeout s u t expiry =>
    exact hinv.updateMember (f := fun m => { m with timeoutUntil := expiry })
  | deleteAccount u name now m =>
    refine hinv.revokeAccess rfl rfl fun v hv => ?_
    exact active_congr rfl (undeleted_anonymise hv)

theorem apply {r : Request} (htimely : Timely db r) : MembersActive (r.apply db) := by
  cases hresult : (r.exec db).2 with
  | error err => exact hinv.same (sameStanding_of_error hresult)
  | ok done =>
    refine hinv.effect (effect_apply db r) fun t u hcall => htimely t u hcall ?_
    rw [hresult]
    rfl

end

end MembersActive

/-! ## Runs -/

theorem bootstrapped_cases (h : Bootstrapped db) : ∃ user server,
    user.deletedAt = none ∧ db.users = Table.empty.insert user ∧
    db.servers = Table.empty.insert server ∧
    db.members = Keyed.empty.insertNew ⟨1, 1, .owner, none⟩ ∧ db.bans = .empty ∧
    db.invites = .empty ∧ db.sessions = .empty ∧ db.links = .empty := by
  obtain ⟨crypto, config, h⟩ := h
  simp only [ensure, createInstance, bind_eq_ok, require_eq_ok] at h
  obtain ⟨-, -, h⟩ := h
  rw [if_neg (by decide)] at h
  simp only [bind_eq_ok, require_eq_ok, found_eq_ok] at h
  obtain ⟨-, -, name, -, -, -, -, -, h⟩ := h
  unfold insertMember at h
  split at h
  · cases h
    exact ⟨_, _, rfl, rfl, rfl, rfl, rfl, rfl, rfl, rfl⟩
  · cases h

theorem membersActive_bootstrapped (h : Bootstrapped db) : MembersActive db := by
  obtain ⟨user, server, huser, husers, -, hmembers, hbans, hinvites, -, -⟩ := bootstrapped_cases h
  refine ⟨?_, ?_⟩
  · intro m hm
    rw [hmembers] at hm
    rcases Keyed.mem_insertNew hm with rfl | hm
    · refine active_iff.mpr ⟨by rw [hbans]; rfl, user, ?_, huser⟩
      rw [husers]
      rfl
    · cases hm
  · intro id i hi
    rw [hinvites] at hi
    cases hi

/-- **A banned or deleted account is never a member** of a bootstrapped instance, along every run in
which no link is accepted by an account that is banned or deleted by then. -/
theorem members_active (hboot : Bootstrapped db) (requests : List Request)
    (htimely : Along Timely db requests) : ∀ m ∈ (run db requests).members.rows,
      (run db requests).bans.find m.userID = none ∧
        ∃ user, (run db requests).users.get m.userID = some user ∧ user.deletedAt = none := by
  have hinv : MembersActive (run db requests) :=
    run_induction (membersActive_bootstrapped hboot) (fun _ _ h ht => h.apply ht) htimely
  exact fun m hm => active_iff.mp (hinv.members m hm)

/-- The theorem at a run: account 2 is banned, the ban is lifted, and only then the link is
accepted. -/
theorem members_active_unbanned :
    let requests := Sample.members ++ [Sample.call (.banMember 1 1 2 "spam"),
      Sample.call (.unban 1 1 2), Sample.call (.acceptLink 102 2)]
    (⟨1, 2, .member, none⟩ : Member) ∈ (run Sample.instance₁ requests).members.rows ∧
      (run Sample.instance₁ requests).bans.find 2 = none :=
  ⟨by decide, (members_active Sample.bootstrapped_instance _ (by decide) ⟨1, 2, .member,
    none⟩ (by decide)).1⟩

/-- **A link accepted after the ban, or after the deletion.** A request that was authenticated
before commits afterwards: the account is banned, or deleted, and a member. -/
theorem acceptLink_after_removal : (((run Sample.instance₁ Sample.banned).bans.find 2).isSome ∧
      (run Sample.instance₁ Sample.banned).roleOf 1 2 = some .member) ∧
    let requests := Sample.members ++ [Sample.call (.deleteAccount 2 "deleted"),
      Sample.call (.acceptLink 102 2)]
    ((run Sample.instance₁ requests).users.get 2).any (fun user => user.deletedAt.isSome) ∧
      (run Sample.instance₁ requests).roleOf 1 2 = some .member := by
  decide

end Voxhold.Account
