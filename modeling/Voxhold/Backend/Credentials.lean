/-
# Voxhold.Backend.Credentials — what a password change and a ban leave of earlier logins

`Login` compares the password with a hash it read before and then inserts the session. So a login
that compared before a password change or a ban inserts its session after it
(`login_across_passwordChange`, `login_across_ban`). Where no login does (`LoginTimely`),
credentials are cut off (`credentials_cut_off`).
-/

import Voxhold.Backend.Effects

namespace Voxhold.Backend

open Voxhold.Lib Voxhold.Hub Voxhold.Account

variable {compare : String → String → Bool}

/-- The hash with which the comparison at this place of the history was made. -/
def comparedWith (history : List Event) (n : ℕ) : Option String :=
  match history[n]? with
  | some (.compared _ hash) => some hash
  | _ => none

/-- A login inserts its session while the account has the hash that was compared, and the account
was not banned since. -/
def LoginTimely (s : State) (_ : Multiset BackendCmd) : BackendCmd → Prop
  | .inr (.createSession u n) =>
    (s.store.db.users.get u).map User.passwordHash = comparedWith s.store.history n ∧
      Event.banned u ∉ s.store.history.drop n
  | _ => True

instance (s : State) (S : Multiset BackendCmd) (c : BackendCmd) :
    Decidable (LoginTimely s S c) := by
  unfold LoginTimely
  split <;> infer_instance

/-- The events that say nothing of sessions and passwords. -/
def Event.Plain : Event → Prop
  | .compared _ _ | .authenticatedAgain _ _ | .wrote _ => True
  | _ => False

/-! ## The invariant -/

/-- Every session that a login created was compared for its account, after all bans of it, and, if
the password was changed, with the new hash, which is the account's hash still. -/
structure Credentials (t : Store) (S : Multiset BackendCmd) : Prop where
  compared : ∀ {u n}, .inr (.createSession u n) ∈ S →
    ∃ hash, t.history[n]? = some (.compared u hash)
  created : ∀ {id n}, .created id n ∈ t.history → id < t.db.sessions.next ∧
    ∃ u hash, t.history[n]? = some (.compared u hash) ∧ ∀ {r}, t.db.sessions.get id = some r →
      r.userID = u
  banned : ∀ {id n m r}, .created id n ∈ t.history → t.db.sessions.get id = some r →
    t.history[m]? = some (.banned r.userID) → m < n
  exists_of_change : ∀ {u change}, lastChange u t.history = some change → t.db.users.Has u
  password : ∀ {u new kept user}, lastChange u t.history = some (new, kept) →
    t.db.users.get u = some user → user.deletedAt = none → user.passwordHash = new
  kept : ∀ {u new kept user id r}, lastChange u t.history = some (new, kept) →
    t.db.users.get u = some user → user.deletedAt = none → t.db.sessions.get id = some r →
      r.userID = u →
      kept = some id ∨ ∃ n, .created id n ∈ t.history ∧ t.history[n]? = some (.compared u new)

namespace Credentials

variable {t t' : Store} {S S' : Multiset BackendCmd} {events : List Event}

theorem init (db : Database) : Credentials (.new db) 0 where
  compared := nofun
  created := nofun
  banned := nofun
  exists_of_change := nofun
  password := nofun
  kept := nofun

section

variable (h : Credentials t S)
include h

theorem call {c : Call} {out : Outcome} (hsessions : SessionEffect t.db c out)
    (hpasswords : PasswordEffect t.db out) (hcreated : ∀ id n, .created id n ∉ out.events)
    (hdb : t'.db = out.db) (hhistory : t'.history = t.history ++ out.events)
    (hpending : ∀ u n, .inr (.createSession u n) ∈ S' →
      ∃ hash, t'.history[n]? = some (.compared u hash)) : Credentials t' S' := by
  have hmem : ∀ {id k}, .created id k ∈ t'.history → .created id k ∈ t.history := by
    intro id k hin
    rw [hhistory] at hin
    exact (List.mem_append.mp hin).resolve_right (hcreated id k)
  have hold : ∀ {k : ℕ} {e}, t.history[k]? = some e → t'.history[k]? = some e := by
    intro k e hk
    rw [hhistory]
    exact getElem?_append_of_some hk
  have hrow : ∀ {id r}, t'.db.sessions.get id = some r → id < t.db.sessions.next →
      ∃ s, t.db.sessions.get id = some s ∧ s.userID = r.userID := by
    intro id r hr hid
    rw [hdb] at hr
    exact (hsessions.old hr).resolve_right fun hnew => hid.ne hnew.1
  constructor
  case compared => exact fun {u n} hc => hpending u n hc
  case created =>
    intro id n hin
    obtain ⟨hid, u, hash, hn, hu⟩ := h.created (hmem hin)
    refine ⟨hdb ▸ hid.trans_le hsessions.next_le, u, hash, hold hn, ?_⟩
    intro r hr
    obtain ⟨s, hs, heq⟩ := hrow hr hid
    exact heq ▸ hu hs
  case banned =>
    intro id n m r hin hr hm
    obtain ⟨s, hs, heq⟩ := hrow hr (h.created (hmem hin)).1
    rw [hhistory] at hm
    rcases getElem?_or_mem hm with hm | hm
    · exact h.banned (hmem hin) hs (heq ▸ hm)
    · -- a ban deletes all sessions of the account
      exfalso
      rw [hdb] at hr
      cases hsessions with
      | deleted p hp =>
        rw [hp.sessions] at hr
        have hkept := (t.db.get_deleteSessions.mp hr).2
        rw [hp.banned hm id r rfl] at hkept
        cases hkept
      | registered _ _ _ hevents | refreshed _ _ _ _ hevents => simp [hevents] at hm
  case exists_of_change =>
    intro u change hc
    rw [hdb]
    rw [hhistory, lastChange_append] at hc
    refine hpasswords.has ?_
    rcases Option.or_eq_some_iff.mp hc with hc | ⟨-, hc⟩
    · exact hpasswords.changed hc
    · exact h.exists_of_change hc
  case password =>
    intro u new kept user' hc huser' hdel
    rw [hdb] at huser'
    rw [hhistory, lastChange_append] at hc
    rcases Option.or_eq_some_iff.mp hc with hc | ⟨hnone, hc⟩
    · have hu := hpasswords.changed hc
      obtain ⟨user, -, -, ⟨hnone, -⟩ | ⟨kept', hsome⟩⟩ := hpasswords.password hu huser' hdel
      · rw [hnone] at hc
        cases hc
      · exact (Prod.mk.inj (Option.mem_unique hsome hc)).1
    · obtain ⟨user, huser, hundeleted, ⟨-, hsame⟩ | ⟨kept', hsome⟩⟩ :=
        hpasswords.password (h.exists_of_change hc) huser' hdel
      · rw [hsame]
        exact h.password hc huser hundeleted
      · rw [hnone] at hsome
        cases hsome
  case kept =>
    intro u new kept user' id r hc huser' hdel hr hu
    rw [hdb] at huser' hr
    rw [hhistory, lastChange_append] at hc
    rcases Option.or_eq_some_iff.mp hc with hc | ⟨hnone, hc⟩
    · -- the change itself deletes all sessions but the kept one
      refine .inl ?_
      cases hsessions with
      | deleted p hp =>
        rw [hp.sessions] at hr
        obtain ⟨hs, hkept⟩ := t.db.get_deleteSessions.mp hr
        exact hp.changed (mem_of_lastChange hc) hs hu hkept
      | registered _ _ _ hevents => simp [hevents, lastChange] at hc
      | refreshed _ _ _ _ hevents => simp [hevents, lastChange, Event.change] at hc
    · have hhas := h.exists_of_change hc
      obtain ⟨s, hs, heq⟩ := (hsessions.old hr).resolve_right fun hnew =>
        hhas.ne_next (hu.symm.trans hnew.2)
      obtain ⟨user, huser, hundeleted, -⟩ := hpasswords.password hhas huser' hdel
      rcases h.kept hc huser hundeleted hs (heq.trans hu) with hkept | ⟨n, hin, hn⟩
      · exact .inl hkept
      · refine .inr ⟨n, ?_, hold hn⟩
        rw [hhistory]
        exact List.mem_append_left _ hin

theorem note (hdb : t'.db = t.db) (hhistory : t'.history = t.history ++ events)
    (hplain : ∀ e ∈ events, e.Plain) (hpending : ∀ u n, .inr (.createSession u n) ∈ S' →
      ∃ hash, t'.history[n]? = some (.compared u hash)) : Credentials t' S' := by
  have hdeletes : Deletes t.db ⟨t.db, events, []⟩ fun _ _ => false :=
    ⟨deleteSessions_none.symm, fun he => (hplain _ he).elim, fun he => (hplain _ he).elim,
      fun he => (hplain _ he).elim⟩
  refine h.call (c := .logout 0) (.deleted _ hdeletes) (.of_users rfl fun e he u => ?_)
    (fun id n he => hplain _ he) hdb hhistory hpending
  have hplain := hplain e he
  cases e with
  | changed => exact hplain.elim
  | _ => rfl

theorem same (hdb : t'.db = t.db) (hhistory : t'.history = t.history)
    (hpending : ∀ u n, .inr (.createSession u n) ∈ S' → .inr (.createSession u n) ∈ S) :
    Credentials t' S' := by
  refine h.note hdb (hhistory.trans (List.append_nil _).symm) nofun fun u n hc => ?_
  rw [hhistory]
  exact h.compared (hpending u n hc)

theorem insert {u n token : ℕ} {expiry : Int} {db' : Database} {hash : String} (hdb : t'.db = db')
    (hsession : t.db.insertSession ⟨u, token, expiry⟩ = some db')
    (hhistory : t'.history = t.history ++ [.created t.db.sessions.next n])
    (hn : t.history[n]? = some (.compared u hash))
    (hhash : (t.db.users.get u).map User.passwordHash = some hash)
    (hbans : Event.banned u ∉ t.history.drop n)
    (hpending : ∀ u n, .inr (.createSession u n) ∈ S' → .inr (.createSession u n) ∈ S) :
    Credentials t' S' := by
  obtain ⟨husers, -, hsessions, -⟩ := insertSession_eq_some hsession
  subst hdb
  have hget : ∀ {id r}, t'.db.sessions.get id = some r →
      (id = t.db.sessions.next ∧ r.userID = u) ∨ t.db.sessions.get id = some r := by
    intro id r hr
    rw [hsessions, Table.get_insert] at hr
    split at hr
    · next hid => exact .inl ⟨hid, Option.some.inj hr ▸ rfl⟩
    · exact .inr hr
  have hmem : ∀ {id k}, .created id k ∈ t'.history →
      .created id k ∈ t.history ∨ (id = t.db.sessions.next ∧ k = n) := by
    intro id k hin
    rw [hhistory] at hin
    simpa using hin
  have hlast : ∀ v, lastChange v t'.history = lastChange v t.history := by
    intro v
    rw [hhistory, lastChange_append]
    rfl
  have hold : ∀ {k : ℕ} {e}, t.history[k]? = some e → t'.history[k]? = some e := by
    intro k e hk
    rw [hhistory]
    exact getElem?_append_of_some hk
  constructor
  case compared =>
    intro v k hc
    obtain ⟨hash, hk⟩ := h.compared (hpending v k hc)
    exact ⟨hash, hold hk⟩
  case created =>
    intro id k hin
    rw [hsessions, Table.next_insert]
    rcases hmem hin with hin | ⟨rfl, rfl⟩
    · obtain ⟨hid, v, hash, hk, hv⟩ := h.created hin
      refine ⟨Nat.lt_succ_of_lt hid, v, hash, hold hk, ?_⟩
      intro r hr
      rw [Table.get_insert_of_ne _ hid.ne] at hr
      exact hv hr
    · refine ⟨Nat.lt_succ_self _, u, hash, hold hn, ?_⟩
      intro r hr
      rw [Table.get_insert_next] at hr
      exact Option.some.inj hr ▸ rfl
  case banned =>
    intro id k m r hin hr hm
    have hbefore : t.history[m]? = some (.banned r.userID) := by
      rw [hhistory] at hm
      exact (getElem?_or_mem hm).resolve_right (by simp)
    rcases hmem hin with hin | ⟨rfl, rfl⟩
    · have hr : t.db.sessions.get id = some r := by
        rwa [hsessions, Table.get_insert_of_ne _ (h.created hin).1.ne] at hr
      exact h.banned hin hr hbefore
    · rw [hsessions, Table.get_insert_next] at hr
      cases hr
      exact lt_of_notMem_drop hbefore hbans
  case exists_of_change =>
    intro v change hc
    rw [husers]
    exact h.exists_of_change (hlast v ▸ hc)
  case password =>
    intro v new kept user hc huser hdel
    exact h.password (hlast v ▸ hc) (husers ▸ huser) hdel
  case kept =>
    intro v new kept user id r hc huser hdel hr hv
    rw [hlast] at hc
    rw [husers] at huser
    rcases hget hr with ⟨rfl, hu⟩ | hr
    · obtain rfl : v = u := hv.symm.trans hu
      rw [huser] at hhash
      have hnew : hash = new := (Option.some.inj hhash).symm.trans (h.password hc huser hdel)
      refine .inr ⟨n, ?_, hold (hnew ▸ hn)⟩
      rw [hhistory]
      exact List.mem_append_right _ List.mem_cons_self
    · rcases h.kept hc huser hdel hr hv with hkept | ⟨k, hin, hk⟩
      · exact .inl hkept
      · refine .inr ⟨k, ?_, hold hk⟩
        rw [hhistory]
        exact List.mem_append_left _ hin

end

end Credentials

/-! ## Runs -/

theorem createSession_notMem_body (op : Hub.Op ⊕ BackendOp) (u n : ℕ) :
    .run (.inr (.createSession u n)) ∉ (backend compare).machine.body op := by
  intro h
  cases op with
  | inl op => exact run_inr_mem_called h
  | inr op =>
    obtain ⟨d, heq, hopens⟩ := BackendOp.opens h
    cases heq
    exact hopens

theorem Credentials.store {s s' : State} {d : StoreCmd} {new : List BackendInstr}
    {R : Multiset BackendCmd}
    (heffect : StoreEffect compare s d s' new) (htimely : LoginTimely s (.inr d ::ₘ R) (.inr d))
    (h : Credentials s.store (.inr d ::ₘ R)) : Credentials s'.store (cmds new + R) := by
  -- unless the command pushes an insertion, those that are pending were pending before
  have hrest : (∀ u hash password, d ≠ .compare u hash password) → ∀ u n,
      .inr (.createSession u n) ∈ cmds new + R → .inr (.createSession u n) ∈ .inr d ::ₘ R := by
    intro hd u n hc
    refine Multiset.mem_cons_of_mem ((mem_pushed.mp hc).resolve_left fun hnew => ?_)
    cases continues_of_effect heffect hnew with
    | createSession _ hash password => exact hd u hash password rfl
    | next _ _ hnext => cases hnext
  have hold : ∀ {e} u n, .inr (.createSession u n) ∈ .inr d ::ₘ R →
      ∃ hash, (s.store.history ++ [e])[n]? = some (.compared u hash) := by
    intro e u n hc
    obtain ⟨hash, hn⟩ := h.compared hc
    exact ⟨hash, getElem?_append_of_some hn⟩
  cases heffect with
  | compared u hash password _ =>
    refine h.note rfl rfl (by simp [Event.Plain]) ?_
    intro v n hc
    rcases mem_pushed.mp hc with hc | hc
    · obtain ⟨rfl, rfl⟩ : v = u ∧ n = s.store.history.length := by simpa using hc
      exact ⟨hash, by simp [Store.log]⟩
    · exact hold v n (Multiset.mem_cons_of_mem hc)
  | created u n token expiry db' _ hsession =>
    obtain ⟨hash, hn⟩ := h.compared (Multiset.mem_cons_self _ _)
    have hhash : comparedWith s.store.history n = some hash := by simp [comparedWith, hn]
    exact h.insert rfl hsession rfl hn (htimely.1.trans hhash) htimely.2 (hrest (by simp))
  | performed c now later _ =>
    have heffect := accountEffect_perform now later s.store.db c
    refine h.call heffect.sessions heffect.passwords (fun id n he => heffect.noted _ he) rfl rfl
      fun u n hc => ?_
    obtain ⟨hash, hn⟩ := h.compared (hrest (by simp) u n hc)
    exact ⟨hash, getElem?_append_of_some hn⟩
  | confirmed | unconfirmed | ready | wrote =>
    exact h.note rfl rfl (by simp [Event.Plain]) fun u n hc => hold u n (hrest (by simp) u n hc)
  | mismatched =>
    exact h.same rfl rfl fun _ _ hc => Multiset.mem_cons_of_mem (by simpa using hc)
  | uncreated | failed | authenticated | unauthenticated | unconnected | unregistered | unwritten
  | findByUsername | verifyPassword | connected | revokeSession | unready =>
    exact h.same rfl rfl (hrest (by simp))

section Run

variable {db : Database} {e2eeRequired : Int → Bool} {limits : ViewerLimits} {cfg : BackendConfig}

theorem credentials_reachable
    (h : (backend compare).machine.Reachable Started LoginTimely (initial db e2eeRequired limits)
    cfg) : Credentials cfg.state.store cfg.pending := by
  refine h.induction (P := fun s S => Credentials s.store S) (.init db) ?_ ?_
  · intro s S op _ hs
    exact hs.same rfl rfl fun u n hc =>
      (mem_pushed.mp hc).resolve_left (createSession_notMem_body op u n)
  · intro cfg i c x s' new rest R _ hfires htimely hs
    cases c with
    | inl c =>
      obtain ⟨is, -, -, hstore, rfl⟩ := Extension.exec_inl hfires.exec
      obtain ⟨registered, hnote, -⟩ := noteRegistered_spec c cfg.state.inner cfg.state.store
      rw [hstore.trans hnote]
      exact hs.same rfl rfl fun u n hc =>
        Multiset.mem_cons_of_mem ((mem_pushed.mp hc).resolve_left run_inr_mem_called)
    | inr d => exact hs.store (storeEffect_of_exec hfires.exec) htimely

/-- **Credential changes cut off old credentials**, when sessions are inserted in time. After a
password change every session that authenticates the account is the kept one or was compared with
the new hash. And a session whose comparison was made before a ban of the account is gone, so it
authenticates nobody, whether the ban is lifted or not. -/
theorem credentials_cut_off
    (h : (backend compare).machine.Reachable Started LoginTimely (initial db e2eeRequired limits)
    cfg) : (∀ u new kept now token, lastChange u cfg.state.store.history = some (new, kept) →
      cfg.state.store.db.findActiveUserID now token = some u →
        ∃ id s, cfg.state.store.db.sessions.get id = some s ∧ s.tokenHash = token ∧ s.userID = u ∧
          (kept = some id ∨ ∃ n, .created id n ∈ cfg.state.store.history ∧
            cfg.state.store.history[n]? = some (.compared u new))) ∧
    (∀ id n u hash m, .created id n ∈ cfg.state.store.history →
      cfg.state.store.history[n]? = some (.compared u hash) →
      cfg.state.store.history[m]? = some (.banned u) → n < m →
        cfg.state.store.db.sessions.get id = none) := by
  have hinv := credentials_reachable h
  constructor
  · intro u new kept now token hlast hauth
    obtain ⟨id, s, hget, htoken, hu, hactive⟩ := findActiveUserID_eq_some hauth
    obtain ⟨-, user, huser, hdel⟩ := active_iff.mp hactive
    exact ⟨id, s, hget, htoken, hu, hinv.kept hlast huser hdel hget hu⟩
  · intro id n u hash m hcreated hcompared hbanned hnm
    cases hget : cfg.state.store.db.sessions.get id with
    | none => rfl
    | some s =>
      obtain ⟨-, v, hash', hcompared', huser⟩ := hinv.created hcreated
      obtain ⟨rfl, -⟩ := Event.compared.inj (Option.mem_unique hcompared' hcompared)
      exact absurd (hinv.banned hcreated hget (huser hget ▸ hbanned)) hnm.not_gt

end Run

/-! ## Logins that are not in time -/

namespace Sample

def ownerChanges : Moves :=
  .start (.inr (.changePassword 1 0 "generated" "new password" "new password")) ::
    steps 1 2 { hash := "new password" }

/-- Account 2 logs in, as goroutine 2, is banned, and the ban is lifted after the login has gone on.
-/
def annaAcrossBan : Moves :=
  annaRegisters ++ .start (.inr (.login "anna" "anna" "a")) :: steps 2 2 {} ++
    request 3 (.banMember 1 1 2 "spam") ++ steps 2 1 (issue 202) ++ request 4 (.unban 1 1 2)

end Sample

/-- The theorem at a run: the owner logs in again after a password change, and the new session
authenticates. -/
theorem credentials_cut_off_relogin :
    ∃ cfg, (backend Sample.plain).machine.Reachable Started LoginTimely Sample.start cfg ∧
      lastChange 1 cfg.state.store.history = some ("new password", none) ∧
      ∃ id s, cfg.state.store.db.sessions.get id = some s ∧ s.tokenHash = 203 ∧ s.userID = 1 ∧
        (none = some id ∨ ∃ n, .created id n ∈ cfg.state.store.history ∧
          cfg.state.store.history[n]? = some (.compared 1 "new password")) := by
  have hrun : ∃ cfg, (backend Sample.plain).machine.Reachable Started LoginTimely Sample.start cfg ∧
      lastChange 1 cfg.state.store.history = some ("new password", none) ∧
      cfg.state.store.db.findActiveUserID 0 203 = some 1 :=
    Machine.exists_reachable_of_play (Sample.ownerCompares ++ Sample.steps 0 1 (Sample.issue 202) ++
      Sample.ownerChanges ++ .start (.inr (.login "owner" "owner" "new password")) ::
      Sample.steps 2 2 {} ++ Sample.steps 2 1 (Sample.issue 203)) (by decide +kernel)
  obtain ⟨cfg, hreach, hlast, hauth⟩ := hrun
  exact ⟨cfg, hreach, hlast, (credentials_cut_off hreach).1 1 _ none 0 203 hlast hauth⟩

theorem login_across_passwordChange :
    ∃ cfg, (backend Sample.plain).machine.Reachable Started (fun _ _ _ => True) Sample.start cfg ∧
      lastChange 1 cfg.state.store.history = some ("new password", none) ∧
      cfg.state.store.db.findActiveUserID 0 202 = some 1 ∧
      cfg.state.store.history = [.compared 1 "generated", .changed 1 "new password" none,
      .created 1 0] :=
  Machine.exists_reachable_of_play (Sample.ownerCompares ++ Sample.ownerChanges ++
    Sample.steps 0 1 (Sample.issue 202)) (by decide +kernel)

theorem login_across_ban :
    ∃ cfg, (backend Sample.plain).machine.Reachable Started (fun _ _ _ => True) Sample.start cfg ∧
      cfg.state.store.db.findActiveUserID 0 202 = some 2 ∧
      cfg.state.store.db.sessionByToken 202 = some (2, ⟨2, 202, 1000⟩) ∧
      cfg.state.store.history = [.compared 2 "a", .banned 2, .created 2 0] :=
  Machine.exists_reachable_of_play Sample.annaAcrossBan (by decide +kernel)

/-- **Old credentials are not always cut off**: neither by a password change nor by a ban. -/
theorem old_credentials_authenticate :
    (∃ cfg, (backend Sample.plain).machine.Reachable Started (fun _ _ _ => True) Sample.start cfg ∧
      ∃ u new kept now token, lastChange u cfg.state.store.history = some (new, kept) ∧
        cfg.state.store.db.findActiveUserID now token = some u ∧
        ¬∃ id s, cfg.state.store.db.sessions.get id = some s ∧ s.tokenHash = token ∧ s.userID = u ∧
          (kept = some id ∨ ∃ n, .created id n ∈ cfg.state.store.history ∧
            cfg.state.store.history[n]? = some (.compared u new))) ∧
    (∃ cfg, (backend Sample.plain).machine.Reachable Started (fun _ _ _ => True) Sample.start cfg ∧
      ∃ id n u hash m now token s, .created id n ∈ cfg.state.store.history ∧
        cfg.state.store.history[n]? = some (.compared u hash) ∧
        cfg.state.store.history[m]? = some (.banned u) ∧ n < m ∧
        cfg.state.store.db.sessionByToken token = some (id, s) ∧
        cfg.state.store.db.findActiveUserID now token = some u) := by
  constructor
  · obtain ⟨cfg, hreach, hlast, hauth, hhistory⟩ := login_across_passwordChange
    refine ⟨cfg, hreach, 1, _, none, 0, 202, hlast, hauth, ?_⟩
    rintro ⟨id, s, -, -, -, hkept | ⟨n, hcreated, hcompared⟩⟩
    · cases hkept
    · rw [hhistory] at hcreated hcompared
      obtain ⟨rfl, rfl⟩ : id = 1 ∧ n = 0 := by simpa using hcreated
      simp at hcompared
  · obtain ⟨cfg, hreach, hauth, hsession, hhistory⟩ := login_across_ban
    refine ⟨cfg, hreach, 2, 0, 2, "a", 1, 0, 202, _, ?_, ?_, ?_, Nat.zero_lt_one, hsession, hauth⟩
    · simp [hhistory]
    · simp [hhistory]
    · simp [hhistory]

end Voxhold.Backend
