/-
# Voxhold.Backend.Effects — what the backend's commands do

Everything a command of the store can do, said once (`storeEffect_of_exec`), and what a call does to
sessions and passwords, with the history that notes bans, password changes and tokens that are gone.
-/

import Voxhold.Account.Banned
import Voxhold.Backend.Operations

namespace Voxhold.Backend

open Voxhold.Lib Voxhold.Hub Voxhold.Account List Table Database Option

/-! ## Entries of the history -/

section History

variable {h events : List Event} {n : ℕ} {e : Event}

theorem getElem?_append_of_some (hn : h[n]? = some e) : (h ++ events)[n]? = some e := by
  rwa [List.getElem?_append_left (List.getElem?_eq_some_iff.mp hn).1]

theorem getElem?_or_mem (hn : (h ++ events)[n]? = some e) : h[n]? = some e ∨ e ∈ events := by
  rw [List.getElem?_append] at hn
  split at hn
  · exact .inl hn
  · exact .inr (mem_of_getElem? hn)

theorem lt_of_notMem_drop {m : ℕ} (hm : h[m]? = some e) (hdrop : e ∉ h.drop n) : m < n := by
  by_contra hlt
  refine hdrop (mem_of_getElem? (i := m - n) ?_)
  rw [List.getElem?_drop, Nat.add_sub_cancel' (not_lt.mp hlt), hm]

end History

/-! ## Password changes in the history -/

def Event.change (u : ℕ) : Event → Option (String × Option ℕ)
  | .changed v new kept => if v = u then some (new, kept) else none
  | _ => none

/-- The last password change of the account: the new hash and the session that was kept. -/
def lastChange (u : ℕ) : List Event → Option (String × Option ℕ)
  | [] => none
  | e :: events => (lastChange u events).or (e.change u)

section LastChange

variable {u : ℕ} {h events : List Event}

theorem lastChange_append : lastChange u (h ++ events) = (lastChange u events).or
    (lastChange u h) := by
  induction h with
  | nil => simp [lastChange]
  | cons e h ih => rw [cons_append, lastChange, ih, lastChange, Option.or_assoc]

theorem lastChange_eq_none (hno : ∀ e ∈ events, e.change u = none) :
    lastChange u events = none := by
  induction events with
  | nil => rfl
  | cons e events ih =>
    rw [lastChange, hno e mem_cons_self, or_none,
      ih fun e he => hno e (mem_cons_of_mem _ he)]

theorem mem_of_lastChange {new : String} {kept : Option ℕ}
    (hlast : lastChange u events = some (new, kept)) : .changed u new kept ∈ events := by
  induction events with
  | nil => cases hlast
  | cons e events ih =>
    rcases or_eq_some_iff.mp hlast with hlast | ⟨-, he⟩
    · exact mem_cons_of_mem _ (ih hlast)
    · cases e with
      | changed v n k =>
        simp only [Event.change] at he
        split at he
        · next hv =>
          cases he
          exact hv ▸ mem_cons_self
        · cases he
      | _ => cases he

end LastChange

/-! ## What a call does to sessions and passwords -/

def Event.OfCall : Event → Prop
  | .banned _ | .changed _ _ _ | .revoked _ => True
  | _ => False

/-- The sessions that `p` selects are deleted, all of them if the account was banned, all but the
kept one if the password was changed, and among them those whose tokens are noted as revoked. -/
structure Deletes (db : Database) (out : Outcome) (p : ℕ → Session → Bool) : Prop where
  sessions : out.db.sessions = (db.deleteSessions p).sessions
  banned : ∀ {u}, .banned u ∈ out.events → ∀ id s, s.userID = u → p id s
  changed : ∀ {u new kept}, .changed u new kept ∈ out.events →
    ∀ {id s}, db.sessions.get id = some s → s.userID = u → p id s = false → kept = some id
  revoked : ∀ {k}, .revoked k ∈ out.events → ∃ id s, db.sessions.get id = some s ∧
    s.tokenHash = k ∧ p id s

inductive SessionEffect (db : Database) (call : Call) (out : Outcome) : Prop where
  | deleted (p : ℕ → Session → Bool) (h : Deletes db out p)
  | registered (token : ℕ) (expiry : Int) (hnew : newToken call = some token)
      (hevents : out.events = [])
      (hsessions : out.db.sessions = db.sessions.insert ⟨db.users.next, token, expiry⟩)
  | refreshed (old new : ℕ) (expiry : Int) (hnew : newToken call = some new)
      (hevents : out.events = [.revoked old])
      (hold : ∃ id s, db.sessions.get id = some s ∧ s.tokenHash = old)
      (hsessions : out.db.sessions = db.sessions.alter fun _ s =>
        some (if s.tokenHash = old then { s with tokenHash := new, expiresAt := expiry } else s))

/-- The password of an account that is not deleted is the one of before, or the new one that is
noted. -/
structure PasswordEffect (db : Database) (out : Outcome) : Prop where
  has : ∀ {u}, db.users.Has u → out.db.users.Has u
  changed : ∀ {u change}, lastChange u out.events = some change → db.users.Has u
  password : ∀ {u user'}, db.users.Has u → out.db.users.get u = some user' →
    user'.deletedAt = none → ∃ user, db.users.get u = some user ∧ user.deletedAt = none ∧
      ((lastChange u out.events = none ∧ user'.passwordHash = user.passwordHash) ∨
        ∃ kept, lastChange u out.events = some (user'.passwordHash, kept))

/-- What a call does to accounts and sessions, and what is noted of it. -/
structure AccountEffect (db : Database) (call : Call) (out : Outcome) : Prop where
  sessions : SessionEffect db call out
  passwords : PasswordEffect db out
  noted : ∀ e ∈ out.events, e.OfCall

section Accounts

variable {db db' : Database} {call : Call} {out : Outcome} {now later : Int}
  {u t inviteID id keep k : ℕ} {name : String} {p : ℕ → Session → Bool} {next : List BackendInstr}

theorem deleteSessions_none : (db.deleteSessions fun _ _ => false).sessions = db.sessions := by
  show db.sessions.alter _ = _
  have hsame : (fun id : ℕ => (db.sessions.get id).bind fun s => some s) = db.sessions.get := by
    funext id
    simp
  simp only [Table.alter, Bool.false_eq_true, if_false, hsame]

theorem PasswordEffect.of_users (husers : out.db.users = db.users)
    (hno : ∀ e ∈ out.events, ∀ u, e.change u = none) : PasswordEffect db out where
  has := fun h => by rwa [husers]
  changed := by
    intro u change hlast
    rw [lastChange_eq_none fun e he => hno e he u] at hlast
    cases hlast
  password := by
    intro u user' _ hget hdel
    rw [husers] at hget
    exact ⟨user', hget, hdel, .inl ⟨lastChange_eq_none fun e he => hno e he u, rfl⟩⟩

theorem sameAccounts_acceptLink {joined : Database.Joined}
    (h : db.acceptLink t u now = .ok joined) : SameAccounts db joined.db := by
  simp only [acceptLink, bind_eq_ok, require_eq_ok, found_eq_ok] at h
  obtain ⟨-, -, link, -, h⟩ := h
  split at h
  · obtain ⟨db', hjoin, h⟩ := bind_eq_ok.mp h
    cases h
    obtain ⟨husers, -, hsessions, -⟩ := insertMember_eq_some (found_eq_ok.mp hjoin)
    exact ⟨hsessions, husers⟩
  · obtain ⟨-, -, h⟩ := bind_eq_ok.mp h
    cases h
    exact .refl db

theorem sameAccounts_answer {α : Type} {respond : Invite → Option (Database × α)}
    (hrespond : ∀ i r, respond i = some r → SameAccounts db r.1) :
    SameAccounts db (db.answer inviteID u now later respond).1 := by
  rcases answer_cases db now later inviteID u respond with ⟨i, a, db', -, -, -, hr,
    hans⟩ | ⟨-, -, hsame⟩
  · rw [hans]
    exact hrespond i _ hr
  · exact hsame.toSameAccounts

theorem sameAccounts_accept : SameAccounts db (db.accept inviteID u now later).1 := by
  refine sameAccounts_answer fun i r hr => ?_
  obtain ⟨db', hjoin, rfl⟩ := map_eq_some_iff.mp hr
  obtain ⟨husers, -, hsessions, -⟩ := insertMember_eq_some hjoin
  exact ⟨hsessions, husers⟩

theorem sameAccounts_decline : SameAccounts db (db.decline inviteID u now later).1 := by
  refine sameAccounts_answer fun i r hr => ?_
  cases hr
  exact ⟨rfl, rfl⟩

theorem sameAccounts_updateMemberRole {s : ℕ} {role : Role}
    (h : db.updateMemberRole s u t role = .ok db') : SameAccounts db db' := by
  simp only [updateMemberRole, requesterRole, findMemberRole, bind_eq_ok,
    require_eq_ok, found_eq_ok] at h
  obtain ⟨-, -, -, -, -, -, _, -, -, -, -, -, _, -, -, -, h⟩ := h
  split at h
  · cases h
    exact .refl db
  · cases h
    exact ⟨rfl, rfl⟩

theorem sameAccounts_unban {s : ℕ} (h : db.unban s u t = .ok db') : SameAccounts db db' := by
  simp only [unban, requesterRole, bind_eq_ok, require_eq_ok, found_eq_ok] at h
  obtain ⟨_, -, _, -, -, -, h⟩ := h
  cases h
  exact ⟨rfl, rfl⟩

theorem sameAccounts_setMemberTimeout {s : ℕ} {expiry : Option Int}
    (h : db.setMemberTimeout s u t expiry now = .ok db') : SameAccounts db db' := by
  simp only [setMemberTimeout, requesterRole, findMemberRole, bind_eq_ok,
    require_eq_ok, found_eq_ok] at h
  obtain ⟨-, -, -, -, -, -, _, -, -, -, _, -, -, -, -, -, h⟩ := h
  cases h
  exact ⟨rfl, rfl⟩

theorem sameAccounts_settle {tx : Except Error Database}
    (h : ∀ db', tx = .ok db' → SameAccounts db db') : SameAccounts db (settle db tx).1 := by
  cases tx with
  | ok db' => exact h db' rfl
  | error err => exact .refl db

/-! ### The calls that touch sessions -/

theorem sessionByToken_eq_some {s : Session} (h : db.sessionByToken t = some (id, s)) :
    db.sessions.get id = some s ∧ s.tokenHash = t :=
  ⟨mem_toList.mp (mem_of_find?_eq_some h), of_decide_eq_true (List.find?_some h :)⟩

theorem sessionByToken_of_get {s : Session} (h : db.sessions.get id = some s) :
    db.sessionByToken s.tokenHash = some (id, s) := by
  cases hfound : db.sessionByToken s.tokenHash with
  | none =>
    have hno := List.find?_eq_none.mp hfound (id, s) (mem_toList.mpr h)
    simp at hno
  | some r =>
    obtain ⟨id', s'⟩ := r
    obtain ⟨hget, htoken⟩ := sessionByToken_eq_some hfound
    obtain rfl := db.tokens hget h htoken
    rw [mem_unique hget h]

theorem findActiveUserID_eq_some (h : db.findActiveUserID now t = some u) :
    ∃ id s, db.sessions.get id = some s ∧ s.tokenHash = t ∧ s.userID = u ∧ db.active u := by
  obtain ⟨r, hr, h⟩ := bind_eq_some_iff.mp h
  split at h
  · next hactive =>
    cases h
    obtain ⟨hget, htoken⟩ := sessionByToken_eq_some hr
    exact ⟨r.1, r.2, hget, htoken, rfl, hactive.2⟩
  · cases h

theorem deletes_deleteOthers {users : Database} (events : List Event)
    (next : List BackendInstr) (hsessions : users.sessions = db.sessions)
    (hchanged : ∀ e ∈ events, ∃ new, e = .changed u new (keptSession db u keep)) :
    Deletes db ⟨(users.deleteOthers u keep).1,
      events ++ (users.deleteOthers u keep).2.map .revoked, next⟩
      fun _ => Database.isOther u keep where
  sessions := by
    show users.sessions.alter _ = db.sessions.alter _
    rw [hsessions]
  banned := by
    intro v hv
    rcases mem_append.mp hv with hv | hv
    · obtain ⟨new, heq⟩ := hchanged _ hv
      cases heq
    · simp at hv
  changed := by
    intro v new kept hv id s hget hu hp
    rcases mem_append.mp hv with hv | hv
    · obtain ⟨_, heq⟩ := hchanged _ hv
      obtain ⟨rfl, rfl, rfl⟩ := Event.changed.inj heq
      obtain rfl : s.tokenHash = keep := by simpa [isOther, hu] using hp
      rw [keptSession, sessionByToken_of_get hget]
      simp [hu, Option.filter]
    · simp at hv
  revoked := by
    intro k hk
    rcases mem_append.mp hk with hk | hk
    · obtain ⟨_, heq⟩ := hchanged _ hk
      cases heq
    · obtain ⟨k', hk', heq⟩ := mem_map.mp hk
      obtain rfl := Event.revoked.inj heq
      obtain ⟨⟨id, s⟩, hs, htoken⟩ := mem_map.mp hk'
      obtain ⟨hget, hother⟩ := mem_filter.mp hs
      exact ⟨id, s, hsessions ▸ mem_toList.mp hget, htoken, hother⟩

section

variable (hsessions : out.db.sessions = (db.deleteSessions p).sessions)
include hsessions

theorem Deletes.of_sessions (hevents : out.events = []) : Deletes db out p where
  sessions := hsessions
  banned := fun hmem => absurd hmem (by simp [hevents])
  changed := fun hmem => absurd hmem (by simp [hevents])
  revoked := fun hmem => absurd hmem (by simp [hevents])

theorem Deletes.of_revoked (hevents : out.events = [.revoked k])
    (hk : ∃ id s, db.sessions.get id = some s ∧ s.tokenHash = k ∧ p id s) : Deletes db out p where
  sessions := hsessions
  banned := fun hmem => absurd hmem (by simp [hevents])
  changed := fun hmem => absurd hmem (by simp [hevents])
  revoked := by
    intro k' hmem
    obtain rfl : k' = k := by simpa [hevents] using hmem
    exact hk

end

theorem PasswordEffect.of_modify {v : ℕ} {f : User → User}
    (husers : out.db.users = db.users.modify v f)
    (hchanged : ∀ {u change}, lastChange u out.events = some change → db.users.Has u)
    (hother : ∀ {u}, u ≠ v → lastChange u out.events = none)
    (hself : ∀ {user}, db.users.get v = some user → (f user).deletedAt = none →
    user.deletedAt = none ∧
      ∃ kept, lastChange v out.events = some ((f user).passwordHash, kept)) :
      PasswordEffect db out where
  has := by
    intro u hu
    rw [husers]
    exact has_modify hu
  changed := hchanged
  password := by
    intro u user' _ hget hdel
    rw [husers, get_modify] at hget
    split at hget
    · next huv =>
      subst huv
      obtain ⟨user, huser, rfl⟩ := map_eq_some_iff.mp hget
      exact ⟨user, huser, (hself huser hdel).1, .inr (hself huser hdel).2⟩
    · next huv => exact ⟨user', hget, hdel, .inl ⟨hother huv, rfl⟩⟩

theorem AccountEffect.same (h : SameAccounts db out.db) (hevents : out.events = []) :
    AccountEffect db call out where
  sessions := .deleted _ (.of_sessions (h.sessions.trans deleteSessions_none.symm) hevents)
  passwords := .of_users h.users (by simp [hevents])
  noted := by simp [hevents]

theorem AccountEffect.register {key hash : String} {t' : ℕ} {expiry : Int}
    {joined : Database.Joined}
    (h : db.registerWithInvite name key hash t t' expiry now = .ok joined) :
    AccountEffect db (.register name key hash t t' expiry) ⟨joined.db, [], next⟩ := by
  simp only [registerWithInvite, bind_eq_ok, require_eq_ok, found_eq_ok] at h
  obtain ⟨link, -, -, -, -, -, db₁, hjoin, db₂, hsession, h⟩ := h
  cases h
  have husers : db₂.users = db.users.insert ⟨name, some key, hash, none⟩ := by
    rw [(insertSession_eq_some hsession).1, (insertMember_eq_some hjoin).1]
    rfl
  refine ⟨.registered t' expiry rfl rfl ?_, ⟨?_, nofun, ?_⟩, nofun⟩
  · rw [(insertSession_eq_some hsession).2.2.1, (insertMember_eq_some hjoin).2.2.1]
    rfl
  · intro u hu
    exact husers ▸ has_insert hu
  · intro u user' hu hget hdel
    have hget : db₂.users.get u = some user' := hget
    rw [husers, get_insert_of_ne _ hu.ne_next] at hget
    exact ⟨user', hget, hdel, .inl ⟨rfl, rfl⟩⟩

theorem AccountEffect.banMember {s : ℕ} {reason : String}
    (h : db.banMemberWithReason s u t reason = .ok db') :
    AccountEffect db (.banMember s u t reason) ⟨db', [.banned t], next⟩ := by
  simp only [banMemberWithReason, bind_eq_ok, require_eq_ok, found_eq_ok] at h
  obtain ⟨-, -, -, -, -, -, _, -, -, -, _, -, -, -, -, -, banned, hban, h⟩ := h
  cases h
  refine ⟨.deleted (fun _ s => s.userID = t) ⟨?_, ?_, nofun, nofun⟩, .of_users ?_ ?_, ?_⟩
  · show banned.sessions.alter _ = db.sessions.alter _
    rw [(insertBan_eq_some hban).2.2.2.2.1]
  · intro v hv id s hs
    obtain rfl : v = t := by simpa using hv
    exact decide_eq_true hs
  · exact (insertBan_eq_some hban).1
  · simp [Event.change]
  · simp [Event.OfCall]

theorem AccountEffect.deleteAccount {r : Database × ℕ} (h : db.deleteAccount u name now = .ok r) :
    AccountEffect db (.deleteAccount u name) ⟨r.1, [], next⟩ := by
  simp only [Database.deleteAccount, bind_eq_ok, require_eq_ok, found_eq_ok] at h
  obtain ⟨-, -, m, -, -, -, -, -, -, -, h⟩ := h
  cases h
  have husers : ((db.revokeAccess u).anonymise u name now).users =
      db.users.modify u fun _ => ⟨name, none, "", some now⟩ := rfl
  have hsessions : ((db.revokeAccess u).anonymise u name now).sessions =
      (db.deleteSessions fun _ s => s.userID = u).sessions := rfl
  exact ⟨.deleted _ (.of_sessions hsessions rfl), .of_modify husers nofun (fun _ => rfl) nofun,
    nofun⟩

theorem AccountEffect.of_revoked (husers : out.db.users = db.users)
    (hsessions : out.db.sessions = (db.deleteSessions p).sessions)
    (hevents : out.events = [.revoked k])
    (hk : ∃ id s, db.sessions.get id = some s ∧ s.tokenHash = k ∧ p id s) :
    AccountEffect db call out where
  sessions := .deleted p (.of_revoked hsessions hevents hk)
  passwords := .of_users husers (by simp [hevents, Event.change])
  noted := by simp [hevents, Event.OfCall]

theorem AccountEffect.logout : AccountEffect db (.logout t) (perform now later db (.logout t)) := by
  cases hfound : db.sessionByToken t with
  | none =>
    have hevents : (perform now later db (.logout t)).events = [] := by simp [perform, hfound]
    exact ⟨.deleted _ (.of_sessions rfl hevents), .of_users rfl (by simp [hevents]),
      by simp [hevents]⟩
  | some r =>
    obtain ⟨id, s⟩ := r
    obtain ⟨hget, htoken⟩ := sessionByToken_eq_some hfound
    exact .of_revoked rfl rfl (by simp [perform, hfound])
      ⟨id, s, hget, htoken, decide_eq_true htoken⟩

theorem AccountEffect.refresh {t' : ℕ} {expiry : Int} (h : db.rotate t t' expiry now = .ok db') :
    AccountEffect db (.refresh t t' expiry) ⟨db', [.revoked t], next⟩ := by
  simp only [Database.rotate, bind_eq_ok, found_eq_ok] at h
  obtain ⟨u, hu, h⟩ := h
  split at h
  · cases h
    obtain ⟨id, s, hget, htoken, -⟩ := findActiveUserID_eq_some hu
    exact ⟨.refreshed t t' expiry rfl rfl ⟨id, s, hget, htoken⟩ rfl,
      .of_users rfl (by simp [Event.change]), by simp [Event.OfCall]⟩
  · cases h

theorem AccountEffect.revokeSessionByID {r : Database × ℕ} (h : db.deleteByID u id = .ok r) :
    AccountEffect db (.revokeSessionByID u id) ⟨r.1, [.revoked r.2], next⟩ := by
  simp only [deleteByID, bind_eq_ok, require_eq_ok, found_eq_ok] at h
  obtain ⟨s, hs, -, -, h⟩ := h
  cases h
  exact .of_revoked rfl rfl rfl ⟨id, s, hs, rfl, decide_eq_true rfl⟩

theorem lastChange_revoked (keys : List ℕ) : lastChange u (keys.map .revoked) = none := by
  refine lastChange_eq_none fun e he => ?_
  obtain ⟨k, -, rfl⟩ := mem_map.mp he
  rfl

theorem AccountEffect.revokeOthers : AccountEffect db (.revokeOthers u keep)
      ⟨(db.deleteOthers u keep).1, (db.deleteOthers u keep).2.map .revoked, next⟩ := by
  refine ⟨.deleted _ (deletes_deleteOthers [] next rfl nofun), .of_users rfl ?_, ?_⟩
  · simp [Event.change]
  · simp [Event.OfCall]

theorem AccountEffect.changePassword {old new : String} {r : Database × List ℕ}
    (h : db.replacePassword u old new keep = .ok r) :
    AccountEffect db (.changePassword u old new keep)
      ⟨r.1, .changed u new (keptSession db u keep) :: r.2.map .revoked, next⟩ := by
  simp only [replacePassword, bind_eq_ok, require_eq_ok, found_eq_ok] at h
  obtain ⟨user, huser, -, hcurrent, h⟩ := h
  cases h
  have hlast :
    ∀ v keys, lastChange v (.changed u new (keptSession db u keep) :: List.map .revoked keys) =
      if u = v then some (new, keptSession db u keep) else none := by
    intro v keys
    rw [lastChange, lastChange_revoked, none_or, Event.change]
  refine ⟨.deleted _ (deletes_deleteOthers [.changed u new (keptSession db u keep)] next rfl ?_),
    .of_modify rfl ?_ ?_ ?_, by simp [Event.OfCall]⟩
  · intro e he
    exact ⟨new, mem_singleton.mp he⟩
  · intro v change hv
    rw [hlast] at hv
    split at hv
    · next huv => exact huv ▸ has_of_get huser
    · cases hv
  · intro v hv
    rw [hlast, if_neg (Ne.symm hv)]
  · intro user' huser' _
    rw [huser] at huser'
    cases huser'
    exact ⟨hcurrent.2, _, by rw [hlast, if_pos rfl]⟩

theorem accountEffect_perform (now later : Int) (db : Database) (call : Call) :
    AccountEffect db call (perform now later db call) := by
  have hfailed : ∀ call, AccountEffect db call ⟨db, [], []⟩ :=
    fun _ => .same (SameAccounts.refl db) rfl
  cases call with
  | createLink =>
    exact .same (sameAccounts_settle fun _ h => (untouched_createLink h).toSameAccounts) rfl
  | revokeLink =>
    exact .same (sameAccounts_settle fun _ h => (untouched_revokeLink h).toSameAccounts) rfl
  | createDirect =>
    exact .same (sameAccounts_settle fun _ h => (untouched_createDirect h).toSameAccounts) rfl
  | decline => exact .same sameAccounts_decline rfl
  | unban => exact .same (sameAccounts_settle fun _ => sameAccounts_unban) rfl
  | createSession => exact hfailed _
  | deleteExpired => exact ⟨.deleted _ (.of_sessions rfl rfl), .of_users rfl nofun, nofun⟩
  | logout => exact .logout
  | revokeOthers => exact .revokeOthers
  | acceptLink t u =>
    simp only [perform]
    split
    · next h => exact .same (sameAccounts_acceptLink h) rfl
    · exact hfailed _
  | register name key hash t t' expiry =>
    simp only [perform]
    split
    · next h => exact .register h
    · exact hfailed _
  | accept i u =>
    simp only [perform]
    split
    · exact .same sameAccounts_accept rfl
    · exact .same sameAccounts_accept rfl
  | updateMemberRole s u t role =>
    simp only [perform]
    split
    · next h => exact .same (sameAccounts_updateMemberRole h) rfl
    · exact hfailed _
  | setMemberTimeout s u t expiry =>
    simp only [perform]
    split
    · next h => exact .same (sameAccounts_setMemberTimeout h) rfl
    · exact hfailed _
  | banMember s u t reason =>
    simp only [perform]
    split
    · next h => exact .banMember h
    · exact hfailed _
  | deleteAccount u name =>
    simp only [perform]
    split
    · next h => exact .deleteAccount h
    · exact hfailed _
  | refresh t t' expiry =>
    simp only [perform]
    split
    · next h => exact .refresh h
    · exact hfailed _
  | revokeSessionByID u id =>
    simp only [perform]
    split
    · next h => exact .revokeSessionByID h
    · exact hfailed _
  | changePassword u old new keep =>
    simp only [perform]
    split
    · next h => exact .changePassword h
    · exact hfailed _

section

variable (h : SessionEffect db call out)
include h

theorem SessionEffect.old {s' : Session} (hget : out.db.sessions.get id = some s') :
    (∃ s, db.sessions.get id = some s ∧ s.userID = s'.userID) ∨
      (id = db.sessions.next ∧ s'.userID = db.users.next) := by
  cases h with
  | deleted p h =>
    rw [h.sessions] at hget
    exact .inl ⟨s', (db.get_deleteSessions.mp hget).1, rfl⟩
  | registered token expiry _ _ hsessions =>
    rw [hsessions, get_insert] at hget
    split at hget
    · next hid => exact .inr ⟨hid, some.inj hget ▸ rfl⟩
    · exact .inl ⟨s', hget, rfl⟩
  | refreshed old new expiry _ _ _ hsessions =>
    rw [hsessions, get_alter] at hget
    obtain ⟨s, hs, heq⟩ := bind_eq_some_iff.mp hget
    refine .inl ⟨s, hs, ?_⟩
    rw [← some.inj heq]
    split
    · rfl
    · rfl

theorem SessionEffect.next_le : db.sessions.next ≤ out.db.sessions.next := by
  cases h with
  | deleted p h => exact (congrArg Table.next h.sessions).ge
  | registered _ _ _ _ hsessions => rw [hsessions, next_insert]; exact Nat.le_succ _
  | refreshed _ _ _ _ _ _ hsessions => rw [hsessions, next_alter]

theorem SessionEffect.token {s' : Session}
    (hget : out.db.sessions.get id = some s') : newToken call = some s'.tokenHash ∨
      ((∃ s, db.sessions.get id = some s ∧ s.tokenHash = s'.tokenHash ∧ s.userID = s'.userID) ∧
        .revoked s'.tokenHash ∉ out.events) := by
  cases h with
  | deleted p h =>
    rw [h.sessions] at hget
    obtain ⟨hs, hp⟩ := db.get_deleteSessions.mp hget
    refine .inr ⟨⟨s', hs, rfl, rfl⟩, fun hrevoked => ?_⟩
    obtain ⟨id', s, hs', htoken, hp'⟩ := h.revoked hrevoked
    obtain rfl := db.tokens hs' hs htoken
    obtain rfl := mem_unique hs' hs
    rw [hp] at hp'
    cases hp'
  | registered token expiry hnew hevents hsessions =>
    rw [hsessions, get_insert] at hget
    split at hget
    · exact .inl (some.inj hget ▸ hnew)
    · exact .inr ⟨⟨s', hget, rfl, rfl⟩, by simp [hevents]⟩
  | refreshed old new expiry hnew hevents _ hsessions =>
    rw [hsessions, get_alter] at hget
    obtain ⟨s, hs, heq⟩ := bind_eq_some_iff.mp hget
    have heq := some.inj heq
    split at heq
    · exact .inl (heq ▸ hnew)
    · next hold =>
      subst heq
      exact .inr ⟨⟨s, hs, rfl, rfl⟩, by simpa [hevents] using hold⟩

theorem SessionEffect.revoked (hk : .revoked k ∈ out.events) :
    ∃ id s, db.sessions.get id = some s ∧ s.tokenHash = k := by
  cases h with
  | deleted p h =>
    obtain ⟨id, s, hs, htoken, -⟩ := h.revoked hk
    exact ⟨id, s, hs, htoken⟩
  | registered _ _ _ hevents => simp [hevents] at hk
  | refreshed old _ _ _ hevents hold =>
    obtain rfl : k = old := by simpa [hevents] using hk
    exact hold

end

/-! ### What a call leads to -/

inductive Next : BackendCmd → Prop where
  | revokeSession (key : ℕ) : Next (.inr (.revokeSession key))
  | refreshChannelAccess (serverID : ℕ) : Next (.inl (.registry (.refreshSnapshot serverID)))
  | addUserToServer (userID serverID : ℕ) :
      Next (.inl (.registry (.addUserSnapshot userID serverID)))
  | revokeUserFromServer (userID serverID : ℕ) :
      Next (.inl (.registry (.revokeUserSnapshot userID serverID)))

section Next

variable {c : BackendCmd} {u s : ℕ}

theorem next_of_refresh (h : .run c ∈ refreshChannelAccess s) : Next c := by
  obtain rfl : c = .inl (.registry (.refreshSnapshot s)) := by
    simpa [refreshChannelAccess, called, Op.body, Instr.map] using h
  exact .refreshChannelAccess s

theorem next_of_joined (h : .run c ∈ memberJoined u s) : Next c := by
  rcases mem_append.mp h with h | h
  · exact next_of_refresh h
  · obtain rfl : c = .inl (.registry (.addUserSnapshot u s)) := by
      simpa [called, Op.body, Instr.map] using h
    exact .addUserToServer u s

theorem next_of_removed (h : .run c ∈ memberRemoved u s) : Next c := by
  obtain rfl : c = .inl (.registry (.revokeUserSnapshot u s)) := by
    simpa [memberRemoved, called, Op.body, Instr.map] using h
  exact .revokeUserFromServer u s

theorem next_of_revoked {keys : List ℕ} (h : .run c ∈ revokeSessions keys) : Next c := by
  obtain ⟨k, -, heq⟩ := mem_map.mp h
  exact Instr.run.inj heq ▸ .revokeSession k

theorem next_of_nil (h : .run c ∈ ([] : List BackendInstr)) : Next c :=
  absurd h not_mem_nil

theorem next_of_perform (h : .run c ∈ (perform now later db call).next) : Next c := by
  cases call with
  | createLink | revokeLink | createDirect | decline | unban | createSession | deleteExpired =>
    exact next_of_nil h
  | logout | revokeOthers => exact next_of_revoked h
  | acceptLink =>
    simp only [perform] at h
    split at h
    · dsimp only at h
      split at h
      · exact next_of_nil h
      · exact next_of_joined h
    · exact next_of_nil h
  | register | accept =>
    simp only [perform] at h
    split at h
    · exact next_of_joined h
    · exact next_of_nil h
  | banMember | deleteAccount =>
    simp only [perform] at h
    split at h
    · exact next_of_removed h
    · exact next_of_nil h
  | setMemberTimeout =>
    simp only [perform] at h
    split at h
    · exact next_of_refresh h
    · exact next_of_nil h
  | updateMemberRole =>
    simp only [perform] at h
    split at h
    · dsimp only at h
      split at h
      · exact next_of_nil h
      · exact next_of_refresh h
    · exact next_of_nil h
  | refresh | revokeSessionByID | changePassword =>
    simp only [perform] at h
    split at h
    · exact next_of_revoked h
    · exact next_of_nil h

end Next

theorem revokeSession_mem_next (h : .revoked k ∈ (perform now later db call).events) :
    .run (.inr (.revokeSession k)) ∈ (perform now later db call).next := by
  have hkeys : ∀ {keys : List ℕ}, k ∈ keys → .run (.inr (.revokeSession k)) ∈ revokeSessions keys :=
    fun hk => mem_map.mpr ⟨k, hk, rfl⟩
  cases call with
  | createLink | revokeLink | createDirect | decline | unban | createSession | deleteExpired =>
    cases h
  | logout t =>
    simp only [perform] at h
    split at h
    · exact hkeys (by simpa using h)
    · cases h
  | revokeOthers u keep => exact hkeys (by simpa [perform] using h)
  | acceptLink | register | accept | deleteAccount | setMemberTimeout | updateMemberRole =>
    simp only [perform] at h
    split at h
    · cases h
    · cases h
  | banMember =>
    simp only [perform] at h
    split at h
    · simp at h
    · cases h
  | refresh | revokeSessionByID | changePassword =>
    simp only [perform] at h ⊢
    split at h
    · exact hkeys (by simpa using h)
    · cases h

end Accounts

/-! ## What a command of the store does -/

variable {compare : String → String → Bool}

/-- Everything a command of the store can do. -/
inductive StoreEffect (compare : String → String → Bool) (s : State) :
    StoreCmd → State → List BackendInstr → Prop where
  | findByUsername (name key password : String) (next : List BackendInstr)
      (hnext : ∀ c, .run c ∈ next → ∃ u hash, c = .inr (.compare u hash password)) :
      StoreEffect compare s (.findByUsername name key password) s next
  | mismatched (u : ℕ) (hash password : String) :
      StoreEffect compare s (.compare u hash password) s []
  | compared (u : ℕ) (hash password : String) (h : compare hash password) :
      StoreEffect compare s (.compare u hash password)
        { s with store := s.store.log [.compared u hash] }
        [.run (.inr (.createSession u s.store.history.length))]
  | created (u comparison token : ℕ) (expiry : Int) (db' : Database) (hnew : token ∉ s.store.issued)
      (hsession : s.store.db.insertSession ⟨u, token, expiry⟩ = some db') :
      StoreEffect compare s (.createSession u comparison)
        { s with
          store := Store.log { s.store with db := db', issued := insert token s.store.issued }
            [.created s.store.db.sessions.next comparison] } []
  | uncreated (u comparison token : ℕ) :
      StoreEffect compare s (.createSession u comparison)
        { s with store := { s.store with issued := insert token s.store.issued } } []
  | verifyPassword (u token : ℕ) (current : String) (next : List BackendInstr)
      (hnext : ∀ c, .run c ∈ next → ∃ old new, c = .inr (.call (.changePassword u old new token))) :
      StoreEffect compare s (.verifyPassword u token current) s next
  | performed (c : Call) (now later : Int) (hnew : ∀ t ∈ newToken c, t ∉ s.store.issued) :
      StoreEffect compare s (.call c)
        { s with store := Store.log
                  { s.store with
                    db := (perform now later s.store.db c).db
                    issued := (newToken c).toFinset ∪ s.store.issued }
                  (perform now later s.store.db c).events }
        (perform now later s.store.db c).next
  | failed (c : Call) :
      StoreEffect compare s (.call c)
        { s with store := { s.store with issued := (newToken c).toFinset ∪ s.store.issued } } []
  | revokeSession (key : ℕ) (clients : List Client)
      (hclients : clients.Perm (s.inner.registry.clientsBySession.keysAt key)) :
      StoreEffect compare s (.revokeSession key) s
        (clients.flatMap fun c => called (Op.body (.unregister c)))
  | authenticated (token u : ℕ) (now : Int) (h : s.store.db.findActiveUserID now token = some u) :
      StoreEffect compare s (.authenticate token) s [.run (.inr (.newClient u token))]
  | unauthenticated (token : ℕ) : StoreEffect compare s (.authenticate token) s []
  | connected (u token : ℕ)
      (h : (⟨s.store.connections, u, token⟩ : Client) ∉ s.inner.registry.clients) :
      StoreEffect compare s (.newClient u token)
        ⟨{ s.inner with registry := createClient s.inner.registry _ (listServers s.store.db u) h },
          { s.store with connections := s.store.connections + 1 }⟩
        (called (Op.body (.register ⟨s.store.connections, u, token⟩)) ++
          [.run (.inr (.confirm ⟨s.store.connections, u, token⟩))])
  | unconnected (u token : ℕ) : StoreEffect compare s (.newClient u token) s []
  | confirmed (c : Client) (u : ℕ) (now : Int) (hregistered : c ∈ s.store.registered)
      (hauth : s.store.db.findActiveUserID now c.sessionKey = some u) (hu : c.userID = u) :
      StoreEffect compare s (.confirm c)
        { s with store := s.store.log [.authenticatedAgain c true] } [.run (.inr (.ready c))]
  | unconfirmed (c : Client) (hregistered : c ∈ s.store.registered) :
      StoreEffect compare s (.confirm c)
        { s with store := s.store.log [.authenticatedAgain c false] }
          (called (Op.body (.unregister c)))
  | unregistered (c : Client) (h : c ∉ s.store.registered) : StoreEffect compare s (.confirm c) s []
  | ready (c : Client) :
      StoreEffect compare s (.ready c)
        { s with
          store := Store.log { s.store with serving := insert c s.store.serving } [.wrote c] } []
  | unready (c : Client) : StoreEffect compare s (.ready c) s (called (Op.body (.unregister c)))
  | wrote (c : Client) (h : c ∈ s.store.serving) :
      StoreEffect compare s (.write c) { s with store := s.store.log [.wrote c] } []
  | unwritten (c : Client) : StoreEffect compare s (.write c) s []

section StoreEffect

variable {x : Input} {s s' : State} {new : List BackendInstr}
  {u : ℕ}

theorem StoreEffect.of_login {name key password : String}
    (h : Store.exec compare x s (.findByUsername name key password) = some (s', new)) :
    StoreEffect compare s (.findByUsername name key password) s' new := by
  simp only [Store.exec] at h
  split at h
  · cases h
    refine .findByUsername name key password _ ?_
    intro c hc
    split at hc
    · exact ⟨_, _, by simpa using hc⟩
    · cases hc
  · cases h
    exact .findByUsername name key password [] fun _ hc => absurd hc not_mem_nil

theorem StoreEffect.of_createSession {comparison : ℕ}
    (h : Store.exec compare x s (.createSession u comparison) = some (s', new)) :
    StoreEffect compare s (.createSession u comparison) s' new := by
  simp only [Store.exec] at h
  split at h
  · cases h
  · next hnew =>
    split at h
    · next db' hdb =>
      cases h
      split at hdb
      · exact .created u comparison x.token x.expiry db' hnew (found_eq_ok.mp hdb)
      · cases hdb
    · cases h
      exact .uncreated u comparison x.token

theorem StoreEffect.of_verifyPassword {token : ℕ} {current : String}
    (h : Store.exec compare x s (.verifyPassword u token current) = some (s', new)) :
    StoreEffect compare s (.verifyPassword u token current) s' new := by
  simp only [Store.exec] at h
  split at h
  · cases h
    refine .verifyPassword u token current _ ?_
    intro c hc
    split at hc
    · exact ⟨_, _, by simpa using hc⟩
    · cases hc
  · cases h
    exact .verifyPassword u token current [] fun _ hc => absurd hc not_mem_nil

theorem StoreEffect.of_call {c : Call} (h : Store.exec compare x s (.call c) = some (s', new)) :
    StoreEffect compare s (.call c) s' new := by
  simp only [Store.exec] at h
  split at h
  · cases h
  · next hnew =>
    split at h
    · cases h
      exact .performed c x.now x.later fun t ht hissued => hnew ⟨t, ht, hissued⟩
    · cases h
      exact .failed c

theorem StoreEffect.of_newClient {token : ℕ}
    (h : Store.exec compare x s (.newClient u token) = some (s', new)) :
    StoreEffect compare s (.newClient u token) s' new := by
  simp only [Store.exec] at h
  split at h
  · split at h
    · next hfree =>
      cases h
      exact .connected u token hfree
    · cases h
  · cases h
    exact .unconnected u token

theorem StoreEffect.of_confirm {c : Client}
    (h : Store.exec compare x s (.confirm c) = some (s', new)) :
    StoreEffect compare s (.confirm c) s' new := by
  simp only [Store.exec] at h
  split at h
  · next hregistered =>
    split at h
    · next hauth =>
      cases h
      obtain ⟨u, hu, heq⟩ := (any_eq_true _ _).mp hauth.2
      exact .confirmed c u x.now hregistered hu (of_decide_eq_true heq)
    · cases h
      exact .unconfirmed c hregistered
  · next hregistered =>
    cases h
    exact .unregistered c hregistered

theorem storeEffect_of_exec {d : StoreCmd}
    (h : (backend compare).machine.exec (.inr d) x s = some (s', new)) :
    StoreEffect compare s d s' new := by
  have h : Store.exec compare x s d = some (s', new) := h
  cases d with
  | findByUsername => exact .of_login h
  | createSession => exact .of_createSession h
  | verifyPassword => exact .of_verifyPassword h
  | call => exact .of_call h
  | newClient => exact .of_newClient h
  | confirm => exact .of_confirm h
  | compare u hash password =>
    simp only [Store.exec] at h
    split at h
    · next hmatch =>
      cases h
      exact .compared u hash password hmatch
    · cases h
      exact .mismatched u hash password
  | revokeSession key =>
    simp only [Store.exec, revokeSessionKey] at h
    split at h
    · next hclients =>
      cases h
      exact .revokeSession key x.hub.clients hclients
    · cases h
  | authenticate token =>
    simp only [Store.exec] at h
    split at h
    · next u hu =>
      cases h
      split
      · exact .authenticated token u x.now hu
      · exact .unauthenticated token
    · cases h
      exact .unauthenticated token
  | ready c =>
    simp only [Store.exec] at h
    split at h
    · cases h
      exact .ready c
    · cases h
      exact .unready c
  | write c =>
    simp only [Store.exec] at h
    split at h
    · next hserving =>
      cases h
      exact .wrote c hserving
    · cases h
      exact .unwritten c

end StoreEffect

/-! ## What runs next -/

/-- What a command of the store has its goroutine run afterwards. -/
inductive Continues (s : State) : StoreCmd → BackendCmd → Prop where
  | compare (name key password : String) (u : ℕ) (hash : String) :
      Continues s (.findByUsername name key password) (.inr (.compare u hash password))
  | createSession (u : ℕ) (hash password : String) :
      Continues s (.compare u hash password) (.inr (.createSession u s.store.history.length))
  | changePassword (u token : ℕ) (current old new : String) :
      Continues s (.verifyPassword u token current) (.inr (.call (.changePassword u old new token)))
  | next (call : Call) (b : BackendCmd) (h : Next b) : Continues s (.call call) b
  | close (d : StoreCmd) (c : Client) : Continues s d (.inl (.registry (.closeClient c)))
  | newClient (token u : ℕ) (now : Int) (h : s.store.db.findActiveUserID now token = some u) :
      Continues s (.authenticate token) (.inr (.newClient u token))
  | load (u token : ℕ) :
      Continues s (.newClient u token) (.inl (.registry (.load ⟨s.store.connections, u, token⟩)))
  | confirm (u token : ℕ) :
      Continues s (.newClient u token) (.inr (.confirm ⟨s.store.connections, u, token⟩))
  | ready (c : Client) : Continues s (.confirm c) (.inr (.ready c))

theorem continues_of_effect {s s' : State} {d : StoreCmd} {new : List BackendInstr} {b : BackendCmd}
    (heffect : StoreEffect compare s d s' new) (hb : .run b ∈ new) : Continues s d b := by
  have hclose : ∀ {c : Client}, .run b ∈ (called (Op.body (.unregister c)) : List BackendInstr) →
      Continues s d b := by
    intro c hb
    obtain rfl : b = .inl (.registry (.closeClient c)) := by
      simpa [called, Op.body, Instr.map] using hb
    exact .close d c
  cases heffect with
  | findByUsername _ _ _ _ hnext =>
    obtain ⟨_, _, rfl⟩ := hnext b hb
    exact .compare ..
  | verifyPassword _ _ _ _ hnext =>
    obtain ⟨_, _, rfl⟩ := hnext b hb
    exact .changePassword ..
  | performed => exact .next _ b (next_of_perform hb)
  | revokeSession =>
    obtain ⟨c, -, hb⟩ := mem_flatMap.mp hb
    exact hclose hb
  | unconfirmed | unready => exact hclose hb
  | connected u token =>
    rcases (by simpa [called, Op.body, Instr.map] using hb : b = .inl (.registry (.load _)) ∨
      b = .inr (.confirm _)) with rfl | rfl
    · exact .load u token
    · exact .confirm u token
  | compared =>
    obtain rfl := run_inj hb
    exact .createSession ..
  | authenticated token u now hauth =>
    obtain rfl := run_inj hb
    exact .newClient token u now hauth
  | confirmed c =>
    obtain rfl := run_inj hb
    exact .ready c
  | mismatched | created | uncreated | failed | unauthenticated | unconnected | unregistered
  | ready | wrote | unwritten => cases hb

/-- The commands with which operations begin. -/
def StoreCmd.Opens : StoreCmd → Prop
  | .findByUsername _ _ _ | .verifyPassword _ _ _ | .call _ | .authenticate _ | .write _ => True
  | _ => False

theorem BackendOp.opens {op : BackendOp} {b : BackendCmd} (hb : .run b ∈ op.body) :
    ∃ d, b = .inr d ∧ d.Opens := by
  cases op with
  | login | changePassword =>
    simp only [BackendOp.body] at hb
    split at hb
    · obtain rfl := run_inj hb
      exact ⟨_, rfl, trivial⟩
    · cases hb
  | request | connect | write =>
    obtain rfl := run_inj hb
    exact ⟨_, rfl, trivial⟩

theorem noteRegistered_spec (cmd : Hub.Cmd) (h : HubState) (t : Store) :
    ∃ registered, noteRegistered cmd h t = { t with registered := registered } ∧
      t.registered ⊆ registered ∧
      ∀ c, cmd = .registry (.index c) → h.registry.Registrable c → c ∈ registered := by
  unfold noteRegistered
  split
  · next d =>
    split
    · refine ⟨_, rfl, Finset.subset_insert _ _, ?_⟩
      rintro c hcmd -
      obtain rfl : d = c := by simpa using hcmd
      exact Finset.mem_insert_self _ _
    · next hno =>
      refine ⟨_, rfl, subset_rfl, ?_⟩
      intro c hcmd hreg
      obtain rfl : d = c := by simpa using hcmd
      exact absurd hreg hno
  · next hother => exact ⟨_, rfl, subset_rfl, fun c hcmd => absurd hcmd (hother c)⟩

end Voxhold.Backend
