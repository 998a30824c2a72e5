/-
# Voxhold.Calls.Admission — who may join a direct call

`joinCall` looks at the leases with `heartbeat_at >= now-45`, `readCall` lists those with
`heartbeat_at > now-45`: a lease of exactly 45 seconds is not shown and still refuses
(`refused_unlisted`). Such a lease of the user is the ONLY thing the two can differ by
(`joinCall_admits`).
-/

import Voxhold.Calls.CallStates

namespace Voxhold.Calls

open Database

open List

open Voxhold.Lib Voxhold.E2ee

/-! ## What is shown of a user -/

variable {db : Database} {c now u : Int} {a : Answers} {req : CallJoin}

theorem members_readCall_filter : ((db.readCall c now).members.filter fun e => e.userID = u) =
      (((db.members.find u).filter fun r => r.conversationID = c ∧ now - 45 < r.heartbeatAt).map
        CallMember.entry).toList := by
  have hperm : ((db.readCall c now).members.filter fun e => e.userID = u).Perm
      (((db.listed c now).map CallMember.entry).filter fun e => e.userID = u) :=
    ((perm_insertionSort _ (db.listed c now)).map CallMember.entry).filter _
  have hrows : (((db.listed c now).map CallMember.entry).filter fun e => e.userID = u) =
      (((db.members.find u).filter fun r => r.conversationID = c ∧ now - 45 < r.heartbeatAt).map
        CallMember.entry).toList := by
    have huser : ((fun e : CallEntry => decide (e.userID = u)) ∘ CallMember.entry) =
        fun r => decide (r.userID = u) := rfl
    rw [filter_map, huser, listed, rowsOf, filter_comm,
      filter_comm (fun r : CallMember => decide (r.userID = u)), Keyed.filter_key]
    cases db.members.find u with
    | none => rfl
    | some r =>
      by_cases hc : r.conversationID = c <;> by_cases hlive : now - 45 < r.heartbeatAt <;>
        simp [hc, hlive, Option.filter]
  rw [hrows] at hperm
  generalize (((db.members.find u).filter fun r =>
    decide (r.conversationID = c ∧ now - 45 < r.heartbeatAt)).map CallMember.entry) = shown at hperm
  cases shown with
  | none => exact perm_nil.mp hperm
  | some e => exact perm_singleton.mp hperm

theorem mem_members_readCall {e : CallEntry} : e ∈ (db.readCall c now).members ↔
      ∃ r, db.members.find e.userID = some r ∧ r.conversationID = c ∧ now - 45 < r.heartbeatAt ∧
      r.entry = e := by
  have hmem : e ∈ (db.readCall c now).members ↔
      e ∈ ((db.readCall c now).members.filter fun e' => e'.userID = e.userID) := by
    simp
  rw [hmem, members_readCall_filter]
  simp only [Option.mem_toList, Option.map_eq_some_iff, Option.filter_eq_some_iff,
    decide_eq_true_eq]
  grind

theorem exists_mem_readCall {P : CallEntry → Prop} :
    (∃ e ∈ (db.readCall c now).members, e.userID = u ∧ P e) ↔
      ∃ r, db.members.find u = some r ∧ r.conversationID = c ∧ now - 45 < r.heartbeatAt ∧
      P r.entry := by
  constructor
  · rintro ⟨e, he, rfl, hP⟩
    obtain ⟨r, hfind, hc, hlive, rfl⟩ := mem_members_readCall.mp he
    exact ⟨r, hfind, hc, hlive, hP⟩
  · rintro ⟨r, hfind, hc, hlive, hP⟩
    obtain rfl : r.userID = u := Keyed.key_of_find hfind
    exact ⟨r.entry, mem_members_readCall.mpr ⟨r, hfind, hc, hlive, rfl⟩, rfl, hP⟩

theorem exists_user_readCall : (∃ e ∈ (db.readCall c now).members, e.userID = u) ↔
      ∃ r, db.members.find u = some r ∧ r.conversationID = c ∧ now - 45 < r.heartbeatAt := by
  simpa using @exists_mem_readCall db c now u fun _ => True

/-! ## Sessions -/

/-- A session of a lease is never empty. -/
def SessionsNamed (db : Database) : Prop :=
  ∀ r ∈ db.members.rows, r.sessionID ≠ ""

namespace SessionsNamed

theorem deleteMembers (h : SessionsNamed db) (p : CallMember → Bool) :
    SessionsNamed (db.deleteMembers p) :=
  fun r hr => h r (Keyed.mem_delete.mp hr).1

theorem upsertMember (h : SessionsNamed db) {req : CallJoin} {now : Int}
    {hconv : (db.conversations req.conversationID).isSome}
    (hsession : 16 ≤ req.sessionID.utf8ByteSize) :
    SessionsNamed (db.upsertMember req now hconv) := by
  have hnew : req.sessionID ≠ "" := by
    intro heq
    rw [heq] at hsession
    exact absurd hsession (by decide)
  intro r hr
  rw [Database.upsertMember, Database.rows_upsert, mem_append, mem_map] at hr
  rcases hr with ⟨old, hold, rfl⟩ | hr
  · unfold rejoined
    split
    · exact hnew
    · exact h old hold
  · split at hr
    · rw [mem_singleton.mp hr]
      exact hnew
    · cases hr

theorem apply (h : SessionsNamed db) (r : Request) : SessionsNamed (r.apply db) := by
  cases r with
  | joinCall a req =>
    simp only [Request.apply]
    split
    · next hjoin =>
      obtain ⟨hsession, -, hconv, rfl⟩ := joinCall_eq_ok hjoin
      exact (h.deleteMembers _).upsertMember hsession
    · exact h
  | leaveCall a c u s =>
    simp only [Request.apply, Database.leaveCall]
    split
    · exact h.deleteMembers _
    · exact h
  | leaveConversation c u | revokeInvalidCallDevices u => exact h.deleteMembers _
  | deleteAccount u =>
    have hdeleted : SessionsNamed (db.deleteConversations fun conv => conv.savedOwnerID = some u) :=
      fun r hr => h r (Keyed.mem_delete.mp hr).1
    exact hdeleted.deleteMembers _
  | devices call o => exact h

end SessionsNamed

theorem sessionsNamed_run (keys : DeviceKeys) (conversations : Int → Option (Option Int))
    (requests : List Request) :
    SessionsNamed (run (Database.initial keys conversations) requests) :=
  foldl_preserves (fun _ r hdb => hdb.apply r) fun _ hr => absurd hr not_mem_nil

/-! ## Admission -/

/-- The user may join the conversation, the input is valid and the database carries the call out. -/
structure Permitted (db : Database) (a : Answers) (req : CallJoin) : Prop where
  session : 16 ≤ req.sessionID.utf8ByteSize ∧ req.sessionID.utf8ByteSize ≤ 64
  canSend : a.canSend ∧ a.canSendTransaction
  conversation : (db.conversations req.conversationID).isSome
  called : db.saved req.conversationID = false
  device : req.e2eeDeviceID = "" ∨ db.keys.hasActive req.userID req.e2eeDeviceID
  completes : a.completes

/-- The user's lease as `joinCall` finds it: it has not run out, or ends this second. -/
def Database.previous (db : Database) (a : Answers) (req : CallJoin) : Option CallMember :=
  (db.members.find req.userID).filter fun r => a.now - 45 ≤ r.heartbeatAt

theorem find_expire :
    (CallMembers.expire db.members a.now).find req.userID = db.previous a req := by
  rw [CallMembers.expire, Keyed.find_delete, previous]
  congr 1
  funext r
  by_cases h : r.heartbeatAt < a.now - 45
  · simp [h, Int.not_le.mpr h]
  · simp [h, Int.not_lt.mp h]

theorem joinCall_of_permitted (h : Permitted db a req) : ∃ hconv, db.joinCall a req =
      if ((db.previous a req).any fun r => r.conversationID ≠ req.conversationID) ∨
        ((db.previous a req).any fun r => r.sessionID ≠ "" ∧ r.sessionID ≠ req.sessionID) ∧
        !req.replace
      then .error .conflict
      else .ok ((db.deleteMembers fun r => r.heartbeatAt < a.now - 45).upsertMember req a.now
      hconv) := by
  have hsession : ¬(req.sessionID.utf8ByteSize < 16 ∨ 64 < req.sessionID.utf8ByteSize) := by
    have := h.session
    omega
  have hdevice : ¬(req.e2eeDeviceID ≠ "" ∧ ¬db.keys.hasActive req.userID req.e2eeDeviceID) := by
    rintro ⟨hne, hinactive⟩
    exact h.device.elim hne hinactive
  have hsaved : ((db.conversations req.conversationID).any fun conv => conv.savedOwnerID.isSome) =
    false :=
    h.called
  refine ⟨by rw [deleteMembers, isSome_raise]; exact h.conversation, ?_⟩
  rw [Database.joinCall, dif_pos h.conversation]
  dsimp only
  rw [joinCall, if_neg hsession, if_neg (by simp [h.canSend.1]), if_neg (by simp [hsaved]),
    if_neg (by simp [h.canSend.2]), if_neg hdevice]
  dsimp only
  rw [find_expire]
  by_cases hother : (db.previous a req).any fun r => r.conversationID ≠ req.conversationID
  · rw [if_pos hother, if_pos (.inl hother)]
  · rw [if_neg hother]
    by_cases hreplace :
      ((db.previous a req).any fun r => r.sessionID ≠ "" ∧ r.sessionID ≠ req.sessionID) ∧
        !req.replace
    · rw [if_pos hreplace, if_pos (.inr hreplace)]
    · rw [if_neg hreplace, if_neg (by simp [h.completes]),
        if_neg (by rintro (h | h) <;> contradiction)]

theorem conflict_iff (h : Permitted db a req)
    (hnamed : SessionsNamed db) : db.joinCall a req = .error .conflict ↔
    ∃ r, db.previous a req = some r ∧
      (r.conversationID ≠ req.conversationID ∨ r.sessionID ≠ req.sessionID ∧
      req.replace = false) := by
  obtain ⟨hconv, hjoin⟩ := joinCall_of_permitted h
  rw [hjoin]
  cases hprevious : db.previous a req with
  | none => simp
  | some r =>
    have hr : r.sessionID ≠ "" :=
      hnamed r (Keyed.mem_of_find (Option.filter_eq_some_iff.mp hprevious).1)
    simp [hr, ← imp_iff_not_or]

theorem find_of_joinCall {db' : Database} (h : Permitted db a req)
    (hjoin : db.joinCall a req = .ok db') : db'.members.find req.userID = some (req.row a.now) := by
  obtain ⟨hconv, heq⟩ := joinCall_of_permitted h
  rw [heq] at hjoin
  split at hjoin
  · cases hjoin
  · next hadmitted =>
    cases hjoin
    have hfind : (db.deleteMembers fun r => r.heartbeatAt < a.now - 45).members.find req.userID =
        db.previous a req := find_expire
    unfold Database.upsertMember CallMembers.upsert
    rw [Keyed.find_insertNew, Keyed.find_update, hfind]
    cases hprevious : db.previous a req with
    | none => simp [CallJoin.row]
    | some r =>
      have huser : r.userID = req.userID :=
        Keyed.key_of_find (Option.filter_eq_some_iff.mp hprevious).1
      have hsame : r.conversationID = req.conversationID := by
        by_contra hne
        exact hadmitted (.inl (by simp [hprevious, hne]))
      simp [huser, hsame, CallJoin.row]

/-- `readCall` lists the user in another conversation, or in this one under another session that is
not to be replaced. -/
def Database.Listed (db : Database) (now : Int) (req : CallJoin) : Prop :=
  (∃ c, c ≠ req.conversationID ∧ ∃ e ∈ (db.readCall c now).members, e.userID = req.userID) ∨
  ∃ e ∈ (db.readCall req.conversationID now).members,
    e.userID = req.userID ∧ e.sessionID ≠ req.sessionID ∧ req.replace = false

/-- The user has a lease of exactly 45 seconds in another conversation, or in this one under another
session that is not to be replaced. -/
def Database.EndsNow (db : Database) (now : Int) (req : CallJoin) : Prop :=
  ∃ r, db.members.find req.userID = some r ∧ r.heartbeatAt = now - 45 ∧
    (r.conversationID ≠ req.conversationID ∨ r.sessionID ≠ req.sessionID ∧ req.replace = false)

theorem listed_iff : db.Listed now req ↔
    ∃ r, db.members.find req.userID = some r ∧ now - 45 < r.heartbeatAt ∧
      (r.conversationID ≠ req.conversationID ∨ r.sessionID ≠ req.sessionID ∧
      req.replace = false) := by
  constructor
  · rintro (⟨c, hc, hlisted⟩ | hlisted)
    · obtain ⟨r, hfind, rfl, hlive⟩ := exists_user_readCall.mp hlisted
      exact ⟨r, hfind, hlive, .inl hc⟩
    · obtain ⟨r, hfind, -, hlive, hsession⟩ := exists_mem_readCall.mp hlisted
      exact ⟨r, hfind, hlive, .inr hsession⟩
  · rintro ⟨r, hfind, hlive, hrefused⟩
    by_cases hc : r.conversationID = req.conversationID
    · exact .inr
        (exists_mem_readCall.mpr ⟨r, hfind, hc, hlive, hrefused.resolve_left (fun hne => hne hc)⟩)
    · exact .inl ⟨r.conversationID, hc, exists_user_readCall.mpr ⟨r, hfind, rfl, hlive⟩⟩

theorem conflict_iff_listed_or (h : Permitted db a req) (hnamed : SessionsNamed db) :
    db.joinCall a req = .error .conflict ↔ db.Listed a.now req ∨ db.EndsNow a.now req := by
  rw [conflict_iff h hnamed, listed_iff]
  simp only [previous, Option.filter_eq_some_iff, decide_eq_true_eq]
  constructor
  · rintro ⟨r, ⟨hfind, hage⟩, hrefused⟩
    rcases hage.lt_or_eq with hlive | hends
    · exact .inl ⟨r, hfind, hlive, hrefused⟩
    · exact .inr ⟨r, hfind, hends.symm, hrefused⟩
  · rintro (⟨r, hfind, hlive, hrefused⟩ | ⟨r, hfind, hends, hrefused⟩)
    · exact ⟨r, ⟨hfind, hlive.le⟩, hrefused⟩
    · exact ⟨r, ⟨hfind, hends.ge⟩, hrefused⟩

theorem not_listed_of_endsNow (h : db.EndsNow now req) : ¬db.Listed now req := by
  rw [listed_iff]
  rintro ⟨r, hfind, hlive, -⟩
  obtain ⟨r', hfind', hends, -⟩ := h
  cases hfind.symm.trans hfind'
  exact hlive.ne' hends

theorem getD_nullIfEmpty (deviceID : String) : (nullIfEmpty deviceID).getD "" = deviceID := by
  unfold nullIfEmpty
  split
  · next h => exact h.symm
  · rfl

/-- **Admission agrees with what is shown.** In every reachable state, that a user who may join a
conversation is refused exactly if listed elsewhere, or there under another session that is not to
be replaced, holds if and only if the user has no such lease of exactly 45 seconds. A join that is
not refused succeeds, and the user is then listed once, there and with the new session and device.
-/
theorem joinCall_admits (keys : DeviceKeys) (conversations : Int → Option (Option Int))
    (requests : List Request) (a : Answers) (req : CallJoin)
    (hpermitted : Permitted (run (Database.initial keys conversations) requests) a req) :
    let db := run (Database.initial keys conversations) requests
    ((db.joinCall a req = .error .conflict ↔ db.Listed a.now req) ↔ ¬db.EndsNow a.now req) ∧
    (db.joinCall a req ≠ .error .conflict → ∃ db', db.joinCall a req = .ok db' ∧
      ((db'.readCall req.conversationID a.now).members.filter fun e => e.userID = req.userID) =
        [⟨req.userID, req.sessionID, req.e2eeDeviceID⟩] ∧
      ∀ c, c ≠ req.conversationID → ∀ e ∈ (db'.readCall c a.now).members,
      e.userID ≠ req.userID) := by
  intro db
  have hnamed : SessionsNamed db := sessionsNamed_run keys conversations requests
  have hconflict := conflict_iff_listed_or hpermitted hnamed
  refine ⟨⟨fun hagree hends => ?_, fun hlasts => ?_⟩, fun hadmitted => ?_⟩
  · exact not_listed_of_endsNow hends (hagree.mp (hconflict.mpr (.inr hends)))
  · rw [hconflict, or_iff_left hlasts]
  · obtain ⟨hconv, hjoin⟩ := joinCall_of_permitted hpermitted
    rw [if_neg (fun hconflict => hadmitted (hjoin.trans (if_pos hconflict)))] at hjoin
    refine ⟨_, hjoin, ?_, ?_⟩
    · rw [members_readCall_filter, find_of_joinCall hpermitted hjoin]
      have hlive : a.now - 45 < a.now := by omega
      simp [Option.filter, CallJoin.row, CallMember.entry, getD_nullIfEmpty, hlive]
    · intro c hc e he huser
      obtain ⟨r, hfind, hrc, -, -⟩ := mem_members_readCall.mp he
      rw [huser, find_of_joinCall hpermitted hjoin] at hfind
      cases hfind
      exact hc hrc.symm

/-- A lease of 30 seconds is shown, and refuses a second session. -/
theorem joinCall_admits_other_session :
    (run Sample.database [Sample.join Sample.laptop 0]).joinCall { now := 30 }
      ⟨3, 7, "session-of-tab-02", false, Sample.phone⟩ = .error .conflict := by
  refine ((joinCall_admits Sample.keys _ [Sample.join Sample.laptop 0] { now := 30 }
    ⟨3, 7, "session-of-tab-02", false, Sample.phone⟩
    ⟨by decide +kernel, by decide, by decide +kernel, by decide +kernel, by decide +kernel,
    by decide⟩).1.mpr
    ?_).mpr (.inr ⟨⟨7, "session-of-tab-01", Sample.laptop⟩, by decide +kernel, rfl, by decide, rfl⟩)
  rintro ⟨r, hfind, hends, -⟩
  obtain rfl : ⟨3, 7, "session-of-tab-01", some Sample.laptop, 0⟩ = r := Option.some.inj hfind
  exact absurd hends (by decide)

/-- After exactly 45 seconds nobody is shown in any call, and the join is refused. -/
theorem refused_unlisted : let db := run Sample.database [Sample.join Sample.laptop 0]
    (∀ c, (db.readCall c 45).members = []) ∧
    db.joinCall { now := 45 } ⟨3, 7, "session-of-tab-02", false, Sample.phone⟩ =
    .error .conflict := by
  intro db
  constructor
  · intro c
    have hages : ∀ r ∈ db.members.rows, ¬(45 : Int) - 45 < r.heartbeatAt := by decide +kernel
    refine eq_nil_iff_forall_not_mem.mpr ?_
    intro e he
    obtain ⟨r, hfind, -, hlive, -⟩ := mem_members_readCall.mp he
    exact hages r (Keyed.mem_of_find hfind) hlive
  · rfl

end Voxhold.Calls
