/-
# Voxhold.Calls.CallStates — what a client is shown of a direct call

The rows of `conversation_call_members` with the revisions that the triggers keep: one more for
every row inserted, deleted or given another session. `readCall` shows the revision with the leases
that last.
-/

import Voxhold.Calls.Operations
import Mathlib.Data.List.Sort

namespace Voxhold.Calls

open List

open Voxhold.Lib Voxhold.E2ee

/-! ## The tables -/

structure Conversation where
  savedOwnerID : Option Int
  callRevision : ℕ
deriving DecidableEq

structure Database where
  keys : DeviceKeys
  conversations : Int → Option Conversation
  members : CallMembers
  /-- `REFERENCES conversations(id) ON DELETE CASCADE`. -/
  refs : ∀ r ∈ members.rows, (conversations r.conversationID).isSome

namespace Database

variable (db : Database)

/-- The conversation's revision is raised by the triggers. -/
def raise (n : Int → ℕ) (c : Int) : Option Conversation :=
  (db.conversations c).map fun conv => { conv with callRevision := conv.callRevision + n c }

theorem isSome_raise {n : Int → ℕ} {c : Int} :
    (db.raise n c).isSome = (db.conversations c).isSome := by
  simp [raise]

/-- `DELETE FROM conversation_call_members WHERE …`, with `conversation_call_leave`. -/
def deleteMembers (p : CallMember → Bool) : Database where
  keys := db.keys
  conversations := db.raise fun c => db.members.rows.countP fun r => p r && r.conversationID = c
  members := db.members.delete p
  refs r hr := by
    rw [isSome_raise]
    exact db.refs r (Keyed.mem_delete.mp hr).1

/-- Whether the upsert of `joinCall` inserts a row or replaces a session. -/
def replaces (req : CallJoin) : Bool :=
  match db.members.find req.userID with
  | none => true
  | some r => r.conversationID = req.conversationID ∧ r.sessionID ≠ req.sessionID

/-- The upsert of `joinCall`, with `conversation_call_join` and `conversation_call_replace`. -/
def upsertMember (req : CallJoin) (now : Int)
    (hconv : (db.conversations req.conversationID).isSome) : Database where
  keys := db.keys
  conversations := db.raise fun c => if c = req.conversationID ∧ db.replaces req then 1 else 0
  members := CallMembers.upsert db.members req now
  refs r hr := by
    rw [isSome_raise]
    rcases Keyed.mem_insertNew hr with rfl | hr
    · exact hconv
    · rw [Keyed.rows_update] at hr
      obtain ⟨old, hold, rfl⟩ := List.mem_map.mp hr
      have hold := db.refs old hold
      split
      · exact hold
      · exact hold

def deleteConversations (p : Conversation → Bool) : Database where
  keys := db.keys
  conversations := fun c => (db.conversations c).filter fun conv => !p conv
  members := db.members.delete fun r => (db.conversations r.conversationID).any p
  refs r hr := by
    obtain ⟨hr, hkept⟩ := Keyed.mem_delete.mp hr
    obtain ⟨conv, hconv⟩ := Option.isSome_iff_exists.mp (db.refs r hr)
    rw [hconv, Option.any_some] at hkept
    simp [hconv, hkept]

/-! ## The calls -/

/-- `joinCall`. Nobody may send into a conversation that does not exist. -/
def joinCall (a : Answers) (req : CallJoin) : Except CallError Database :=
  if hconv : (db.conversations req.conversationID).isSome then
    let saved := (db.conversations req.conversationID).any fun conv => conv.savedOwnerID.isSome
    match Calls.joinCall { a with saved := saved } db.keys db.members req with
    | .ok _ =>
      .ok ((db.deleteMembers fun r => r.heartbeatAt < a.now - 45).upsertMember req a.now
        (by rwa [deleteMembers, isSome_raise]))
    | .error e => .error e
  else .error .refused

def leaveCall (a : Answers) (conversationID userID : Int) (sessionID : String) : Database :=
  if a.canSend ∧ a.completes then
    db.deleteMembers fun r => r.conversationID = conversationID ∧ r.userID = userID ∧
      r.sessionID = sessionID
  else db

/-- `leaveConversation`: the lease goes with the membership. -/
def leaveConversation (conversationID userID : Int) : Database :=
  db.deleteMembers fun r => r.conversationID = conversationID ∧ r.userID = userID

def revokeInvalidCallDevices (userID : Int) : Database :=
  db.deleteMembers fun r => r.userID = userID ∧ r.e2eeDeviceID.any fun d =>
    !db.keys.hasActive r.userID d

/-- The trigger `community_account_cleanup`. -/
def deleteAccount (userID : Int) : Database :=
  (db.deleteConversations fun conv => conv.savedOwnerID = some userID).deleteMembers fun r =>
    r.userID = userID

def withKeys (keys : DeviceKeys) : Database :=
  { db with keys := keys }

end Database

inductive Request where
  | joinCall (a : Answers) (req : CallJoin)
  | leaveCall (a : Answers) (conversationID userID : Int) (sessionID : String)
  | leaveConversation (conversationID userID : Int)
  | revokeInvalidCallDevices (userID : Int)
  | deleteAccount (userID : Int)
  | devices (call : E2ee.Call) (o : E2ee.Outcome)

def Request.apply (db : Database) : Request → Database
  | .joinCall a req =>
    match db.joinCall a req with
    | .ok db' => db'
    | .error _ => db
  | .leaveCall a c u s => db.leaveCall a c u s
  | .leaveConversation c u => db.leaveConversation c u
  | .revokeInvalidCallDevices u => db.revokeInvalidCallDevices u
  | .deleteAccount u => db.deleteAccount u
  | .devices call o => db.withKeys (E2ee.Call.apply db.keys (call, o))

def run (db : Database) (requests : List Request) : Database :=
  requests.foldl Request.apply db

/-- Conversations without calls so far; a saved one has an owner. -/
def Database.initial (keys : DeviceKeys) (conversations : Int → Option (Option Int)) :
    Database where
  keys := keys
  conversations := fun c => (conversations c).map fun owner => ⟨owner, 0⟩
  members := Keyed.empty
  refs := fun _ hr => absurd hr List.not_mem_nil

/-! ## What is shown -/

/-- `CallMember` of the API, without the user's name. -/
structure CallEntry where
  userID : Int
  sessionID : String
  e2eeDeviceID : String
deriving DecidableEq

structure CallState where
  conversationID : Int
  revision : ℕ
  members : List CallEntry
deriving DecidableEq

def CallMember.entry (r : CallMember) : CallEntry :=
  ⟨r.userID, r.sessionID, r.e2eeDeviceID.getD ""⟩

namespace Database

variable (db : Database)

def rowsOf (c : Int) : List CallMember :=
  db.members.rows.filter fun r => r.conversationID = c

/-- `m.heartbeat_at > now-45`. -/
def listed (c now : Int) : List CallMember :=
  (db.rowsOf c).filter fun r => now - 45 < r.heartbeatAt

def callRevision (c : Int) : ℕ :=
  (db.conversations c).elim 0 Conversation.callRevision

def readCall (c now : Int) : CallState :=
  ⟨c, db.callRevision c, ((db.listed c now).insertionSort (·.userID ≤ ·.userID)).map
    CallMember.entry⟩

def entries (c : Int) : List CallEntry :=
  (db.rowsOf c).map CallMember.entry

end Database

/-! ## What a statement does to a revision -/

namespace Database

variable {db : Database} {c : Int}
  {req : CallJoin} {now : Int}
  {hconv : (db.conversations req.conversationID).isSome}

theorem mem_rowsOf {r : CallMember} : r ∈ db.rowsOf c ↔ r ∈ db.members.rows ∧
    r.conversationID = c := by
  simp [rowsOf]

theorem rowsOf_eq_nil (hconv : db.conversations c = none) : db.rowsOf c = [] := by
  refine eq_nil_iff_forall_not_mem.mpr ?_
  intro r hr
  obtain ⟨hrow, rfl⟩ := mem_rowsOf.mp hr
  simpa [hconv] using db.refs r hrow

theorem rowsOf_deleteMembers {p : CallMember → Bool} :
    (db.deleteMembers p).rowsOf c = (db.rowsOf c).filter fun r => !p r := by
  rw [rowsOf, rowsOf, deleteMembers, Keyed.rows_delete, filter_comm]

theorem callRevision_deleteMembers {p : CallMember → Bool} :
    (db.deleteMembers p).callRevision c = db.callRevision c + (db.rowsOf c).countP p := by
  have hcount :
    db.members.rows.countP (fun r => p r && r.conversationID = c) = (db.rowsOf c).countP p := by
    rw [rowsOf, countP_filter]
  cases hconv : db.conversations c with
  | none => simp [callRevision, deleteMembers, raise, hconv, rowsOf_eq_nil hconv]
  | some conv => simp [callRevision, deleteMembers, raise, hconv, hcount]

theorem callRevision_upsertMember : (db.upsertMember req now hconv).callRevision c =
      db.callRevision c + if c = req.conversationID ∧ db.replaces req then 1 else 0 := by
  cases hc : db.conversations c with
  | none =>
    have hne : c ≠ req.conversationID := by
      rintro rfl
      simp [hc] at hconv
    simp [callRevision, upsertMember, raise, hc, hne]
  | some conv => simp [callRevision, upsertMember, raise, hc]

/-- What the upsert of `joinCall` makes of a row. -/
def rejoined (req : CallJoin) (now : Int) (r : CallMember) : CallMember :=
  if r.conversationID = req.conversationID ∧ r.userID = req.userID then req.row now else r

theorem rejoined_conversationID {r : CallMember} :
    (rejoined req now r).conversationID = r.conversationID := by
  unfold rejoined
  split
  · next h => exact h.1.symm
  · rfl

theorem rows_upsert {t : CallMembers} : (t.upsert req now).rows =
    t.rows.map (rejoined req now) ++ if t.find req.userID = none then [req.row now] else [] := by
  rw [CallMembers.upsert, Keyed.rows_insertNew, Keyed.rows_update, Keyed.find_update]
  congr 1
  · refine map_congr_left fun r _ => ?_
    unfold rejoined
    by_cases h : r.conversationID = req.conversationID ∧ r.userID = req.userID
    · simp only [decide_eq_true_eq]
      rw [if_pos h, if_pos h, CallJoin.row, ← h.1, ← h.2]
    · simp [h]
  · simp [CallJoin.row]

theorem rowsOf_upsertMember : (db.upsertMember req now hconv).rowsOf c =
      (db.rowsOf c).map (rejoined req now) ++
        if c = req.conversationID ∧ db.members.find req.userID = none then [req.row now]
        else [] := by
  have hcomp : (fun r : CallMember => decide (r.conversationID = c)) ∘ rejoined req now =
      fun r => decide (r.conversationID = c) := by
    funext r
    simp [rejoined_conversationID]
  rw [rowsOf, upsertMember, rows_upsert, filter_append, filter_map, hcomp]
  congr 1
  by_cases hfind : db.members.find req.userID = none
  · by_cases hc : c = req.conversationID
    · simp [hfind, hc, CallJoin.row]
    · simp [hfind, hc, CallJoin.row, Ne.symm hc]
  · simp [hfind]

theorem entries_upsertMember (hsame : ¬(c = req.conversationID ∧ db.replaces req))
    (hdevice : c = req.conversationID → ∀ r ∈ db.rowsOf c, r.userID = req.userID →
      r.sessionID = req.sessionID → r.e2eeDeviceID = nullIfEmpty req.e2eeDeviceID) :
    (db.upsertMember req now hconv).entries c = db.entries c := by
  have hfresh : ¬(c = req.conversationID ∧ db.members.find req.userID = none) := by
    rintro ⟨hc, hfind⟩
    exact hsame ⟨hc, by simp [replaces, hfind]⟩
  rw [entries, rowsOf_upsertMember, if_neg hfresh, append_nil, map_map]
  refine map_congr_left fun r hr => ?_
  obtain ⟨hrow, hrc⟩ := mem_rowsOf.mp hr
  rw [Function.comp_apply, rejoined]
  split
  · next h =>
    have hc : c = req.conversationID := hrc.symm.trans h.1
    have hfind : db.members.find req.userID = some r := h.2 ▸ Keyed.mem_rows.mp hrow
    have hsession : r.sessionID = req.sessionID := by
      by_contra hne
      exact hsame ⟨hc, by simp [replaces, hfind, h.1, hne]⟩
    simp [CallMember.entry, CallJoin.row, h.2, hsession, hdevice hc r hr h.2 hsession]
  · rfl

theorem rowsOf_deleteConversations {p : Conversation → Bool} : (db.deleteConversations p).rowsOf c =
    if (db.conversations c).any p then [] else db.rowsOf c := by
  rw [rowsOf, deleteConversations, Keyed.rows_delete, filter_comm, filter_filter]
  split
  · next h =>
    refine filter_eq_nil_iff.mpr ?_
    intro r _ hr
    simp only [Bool.and_eq_true, decide_eq_true_eq, Bool.not_eq_true'] at hr
    rw [hr.2, h] at hr
    exact Bool.noConfusion hr.1
  · next h =>
    refine filter_congr fun r _ => ?_
    by_cases hr : r.conversationID = c
    · simp [hr, h]
    · simp [hr]

theorem callRevision_deleteConversations {p : Conversation → Bool} :
    (db.deleteConversations p).callRevision c =
      if (db.conversations c).any p then 0 else db.callRevision c := by
  unfold callRevision deleteConversations
  cases hc : db.conversations c with
  | none => simp [hc]
  | some conv => cases hp : p conv <;> simp [hc, hp, Option.filter]

end Database

/-! ## Saved messages -/

namespace Database

variable (db : Database)

/-- Whether a conversation is somebody's saved messages. -/
def saved (c : Int) : Bool :=
  (db.conversations c).any fun conv => conv.savedOwnerID.isSome

/-- Saved messages are never called. Only they are ever deleted, so no revision is lost. -/
def SavedIdle : Prop :=
  ∀ c, db.saved c → db.callRevision c = 0 ∧ db.rowsOf c = []

variable {db} {c : Int}

theorem saved_deleteMembers {p : CallMember → Bool} :
    (db.deleteMembers p).saved c = db.saved c := by
  cases hc : db.conversations c <;> simp [saved, deleteMembers, raise, hc]

theorem SavedIdle.deleteMembers (h : db.SavedIdle) (p : CallMember → Bool) :
    (db.deleteMembers p).SavedIdle := by
  intro c hc
  obtain ⟨hrevision, hrows⟩ := h c (saved_deleteMembers ▸ hc)
  rw [callRevision_deleteMembers, rowsOf_deleteMembers, hrevision, hrows]
  exact ⟨rfl, rfl⟩

theorem SavedIdle.upsertMember (h : db.SavedIdle) {req : CallJoin} {now : Int}
    {hconv : (db.conversations req.conversationID).isSome}
    (hcalled : db.saved req.conversationID = false) :
    (db.upsertMember req now hconv).SavedIdle := by
  intro c hc
  have hsaved : (db.upsertMember req now hconv).saved c = db.saved c := by
    cases hc : db.conversations c <;> simp [saved, Database.upsertMember, raise, hc]
  rw [hsaved] at hc
  have hne : c ≠ req.conversationID := by
    rintro rfl
    simp [hcalled] at hc
  obtain ⟨hrevision, hrows⟩ := h c hc
  rw [callRevision_upsertMember, rowsOf_upsertMember, hrevision, hrows]
  simp [hne]

theorem SavedIdle.deleteConversations (h : db.SavedIdle) (p : Conversation → Bool) :
    (db.deleteConversations p).SavedIdle := by
  intro c hc
  have hc : db.saved c := by
    unfold saved Database.deleteConversations at hc
    cases hconv : db.conversations c with
    | none => simp [hconv] at hc
    | some conv => cases hp : p conv <;> simp_all [saved]
  obtain ⟨hrevision, hrows⟩ := h c hc
  rw [callRevision_deleteConversations, rowsOf_deleteConversations, hrevision, hrows]
  exact ⟨ite_self 0, ite_self []⟩

end Database

/-! ## What a request does to a revision -/

variable {db : Database} {c : Int}

theorem checks_of_joinCall {a : Answers} {keys : DeviceKeys} {t t' : CallMembers} {req : CallJoin}
    (h : joinCall a keys t req = .ok t') : 16 ≤ req.sessionID.utf8ByteSize ∧ a.saved = false := by
  unfold joinCall at h
  split at h
  · cases h
  · next hsession =>
    split at h
    · cases h
    · split at h
      · cases h
      · next hsaved => exact ⟨by omega, Bool.eq_false_iff.mpr hsaved⟩

theorem joinCall_eq_ok {db' : Database} {a : Answers} {req : CallJoin}
    (h : db.joinCall a req = .ok db') :
    16 ≤ req.sessionID.utf8ByteSize ∧ db.saved req.conversationID = false ∧ ∃ hconv,
      db' = (db.deleteMembers fun r => r.heartbeatAt < a.now - 45).upsertMember req a.now
      hconv := by
  unfold Database.joinCall at h
  split at h
  · dsimp only at h
    split at h
    · next hjoin =>
      obtain ⟨hsession, hsaved⟩ := checks_of_joinCall hjoin
      exact ⟨hsession, hsaved, _, (Except.ok.inj h).symm⟩
    · cases h
  · cases h

/-- A join that succeeds under the session of the user's lease is made with the device of the lease.
-/
def KeepsDevice (c : Int) (db : Database) : Request → Prop
  | .joinCall a req => (db.joinCall a req).isOk → req.conversationID = c → ∀ r ∈ db.rowsOf c,
      a.now - 45 ≤ r.heartbeatAt → r.userID = req.userID → r.sessionID = req.sessionID →
        r.e2eeDeviceID = nullIfEmpty req.e2eeDeviceID
  | _ => True

instance (c : Int) (db : Database) (r : Request) : Decidable (KeepsDevice c db r) := by
  cases r <;> unfold KeepsDevice <;> infer_instance

/-- How the state of a call may go on: the revision never decreases, and with it unchanged the rows
show what they did, as long as the devices are kept. -/
structure Follows (c : Int) (kept : Prop) (db db' : Database) : Prop where
  revision : db.callRevision c ≤ db'.callRevision c
  entries : kept → db'.callRevision c = db.callRevision c → db'.entries c = db.entries c

namespace Follows

variable {c : Int} {kept kept' : Prop} {db db' db'' : Database}

theorem refl (db : Database) : Follows c kept db db :=
  ⟨le_rfl, fun _ _ => rfl⟩

theorem mono (himp : kept' → kept) (h : Follows c kept db db') : Follows c kept' db db' :=
  ⟨h.revision, fun hkept => h.entries (himp hkept)⟩

theorem trans (h : Follows c kept db db') (h' : Follows c kept db' db'') :
    Follows c kept db db'' where
  revision := h.revision.trans h'.revision
  entries hkept heq := by
    have hmid : db'.callRevision c = db.callRevision c :=
      le_antisymm (heq ▸ h'.revision) h.revision
    rw [h'.entries hkept (heq.trans hmid.symm), h.entries hkept hmid]

theorem deleteMembers (p : CallMember → Bool) : Follows c kept db (db.deleteMembers p) where
  revision := by
    rw [Database.callRevision_deleteMembers]
    exact Nat.le_add_right _ _
  entries _ heq := by
    rw [Database.callRevision_deleteMembers, Nat.add_eq_left, countP_eq_zero] at heq
    rw [Database.entries, Database.rowsOf_deleteMembers, filter_eq_self.mpr, Database.entries]
    intro r hr
    simpa using heq r hr

theorem deleteConversations (hidle : db.SavedIdle) {p : Conversation → Bool}
    (hp : ∀ conv, p conv → conv.savedOwnerID.isSome) :
    Follows c kept db (db.deleteConversations p) := by
  by_cases hc : (db.conversations c).any p
  · have hsaved : db.saved c := by
      obtain ⟨conv, hconv, hpconv⟩ := (Option.any_eq_true _ _).mp hc
      exact (Option.any_eq_true _ _).mpr ⟨conv, hconv, hp conv hpconv⟩
    obtain ⟨hrevision, hrows⟩ := hidle c hsaved
    constructor
    · rw [hrevision]
      exact Nat.zero_le _
    · intro _ _
      rw [Database.entries, Database.rowsOf_deleteConversations, if_pos hc, Database.entries, hrows]
  · constructor
    · rw [Database.callRevision_deleteConversations, if_neg hc]
    · intro _ _
      rw [Database.entries, Database.rowsOf_deleteConversations, if_neg hc, Database.entries]

theorem joinCall {a : Answers} {req : CallJoin} (h : db.joinCall a req = .ok db') :
    Follows c (KeepsDevice c db (.joinCall a req)) db db' := by
  have hok : (db.joinCall a req).isOk := by
    rw [h]
    rfl
  obtain ⟨-, -, hconv, rfl⟩ := joinCall_eq_ok h
  refine (deleteMembers fun r => r.heartbeatAt < a.now - 45).trans ⟨?_, ?_⟩
  · rw [Database.callRevision_upsertMember]
    exact Nat.le_add_right _ _
  · intro hkeeps heq
    rw [Database.callRevision_upsertMember, Nat.add_eq_left] at heq
    refine Database.entries_upsertMember (by simpa using heq) ?_
    intro hc r hr
    rw [Database.rowsOf_deleteMembers, mem_filter] at hr
    exact hkeeps hok hc.symm r hr.1 (by simpa using hr.2)

end Follows

theorem savedIdle_apply (r : Request) (h : db.SavedIdle) : (r.apply db).SavedIdle := by
  cases r with
  | joinCall a req =>
    simp only [Request.apply]
    split
    · next hjoin =>
      obtain ⟨-, hcalled, hconv, rfl⟩ := joinCall_eq_ok hjoin
      exact (h.deleteMembers _).upsertMember (Database.saved_deleteMembers.trans hcalled)
    · exact h
  | leaveCall a c u s =>
    simp only [Request.apply, Database.leaveCall]
    split
    · exact h.deleteMembers _
    · exact h
  | leaveConversation c u | revokeInvalidCallDevices u => exact h.deleteMembers _
  | deleteAccount u => exact (h.deleteConversations _).deleteMembers _
  | devices call o => exact h

theorem follows_apply (hidle : db.SavedIdle) (r : Request) :
    Follows c (KeepsDevice c db r) db (r.apply db) := by
  cases r with
  | joinCall a req =>
    simp only [Request.apply]
    split
    · next hjoin => exact .joinCall hjoin
    · exact .refl db
  | leaveCall a c' u s =>
    simp only [Request.apply, Database.leaveCall]
    split
    · exact .deleteMembers _
    · exact .refl db
  | leaveConversation c' u | revokeInvalidCallDevices u => exact .deleteMembers _
  | deleteAccount u =>
    refine (Follows.deleteConversations hidle ?_).trans (.deleteMembers _)
    intro conv howner
    simp [of_decide_eq_true howner]
  | devices call o => exact ⟨le_rfl, fun _ _ => rfl⟩

theorem savedIdle_run (requests : List Request) (h : db.SavedIdle) : (run db requests).SavedIdle :=
  foldl_preserves (fun _ r hdb => savedIdle_apply r hdb) h

theorem follows_run (hidle : db.SavedIdle) (requests : List Request) :
    Follows c (Throughout Request.apply (KeepsDevice c) db requests) db (run db requests) := by
  induction requests generalizing db with
  | nil => exact .refl db
  | cons r requests ih =>
    exact ((follows_apply hidle r).mono And.left).trans
      ((ih (savedIdle_apply r hidle)).mono And.right)

/-! ## The states that are shown -/

theorem savedIdle_initial (keys : DeviceKeys) (conversations : Int → Option (Option Int)) :
    (Database.initial keys conversations).SavedIdle := by
  intro c _
  refine ⟨?_, rfl⟩
  cases hc : conversations c <;> simp [Database.callRevision, Database.initial, hc]

theorem members_readCall {now : Int} (hlive : ∀ r ∈ db.rowsOf c, now - 45 < r.heartbeatAt) :
    (db.readCall c now).members = (db.entries c).insertionSort (·.userID ≤ ·.userID) := by
  have hlisted : db.listed c now = db.rowsOf c :=
    filter_eq_self.mpr fun r hr => decide_eq_true (hlive r hr)
  rw [Database.readCall, hlisted]
  exact map_insertionSort _ _ _ _ fun _ _ _ _ => Iff.rfl

/-- **When a revision identifies a call state.** Along every run, a later state of a call never has
a smaller revision. Two states with equal revisions list the same members, if in between nobody
joined with another device under the same session, and no lease of the conversation has run out
where a state is read. -/
theorem call_revision (keys : DeviceKeys) (conversations : Int → Option (Option Int))
    (pre mid : List Request) (c now now' : Int) :
    let db := run (Database.initial keys conversations) pre
    let db' := run db mid
    (db.readCall c now).revision ≤ (db'.readCall c now').revision ∧
    (Throughout Request.apply (KeepsDevice c) db mid →
      (∀ r ∈ db.rowsOf c, now - 45 < r.heartbeatAt) →
      (∀ r ∈ db'.rowsOf c, now' - 45 < r.heartbeatAt) →
      (db.readCall c now).revision = (db'.readCall c now').revision →
      (db.readCall c now).members = (db'.readCall c now').members) := by
  intro db db'
  have hidle : db.SavedIdle := savedIdle_run pre (savedIdle_initial keys conversations)
  have hfollows := follows_run (c := c) hidle mid
  refine ⟨hfollows.revision, ?_⟩
  intro hkept hlive hlive' heq
  rw [members_readCall hlive, members_readCall hlive', hfollows.entries hkept heq.symm]

namespace Sample

def database : Database :=
  Database.initial keys fun c => if c = 3 then some none else if c = 4 then some (some 7) else none

def join (deviceID : String) (now : Int) : Request :=
  .joinCall { now := now } ⟨3, 7, "session-of-tab-01", false, deviceID⟩

end Sample

/-- A lease is renewed, and the call stays as it was. -/
theorem call_revision_renewed : let db := run Sample.database [Sample.join Sample.laptop 0]
    (db.readCall 3 40).members = ((run db [Sample.join Sample.laptop 40]).readCall 3 80).members :=
  (call_revision Sample.keys _ [Sample.join Sample.laptop 0] [Sample.join Sample.laptop 40] 3
    40 80).2 (by decide +kernel) (by decide +kernel) (by decide +kernel) (by decide +kernel)

/-- The device is changed under the same session, and the revision stays; it stays as well when the
lease runs out and nobody is shown. -/
theorem revision_shared : let db := run Sample.database [Sample.join Sample.laptop 0]
    let db' := run db [Sample.join Sample.phone 10]
    ((db.readCall 3 10).revision = (db'.readCall 3 10).revision ∧
      (db.readCall 3 10).members = [⟨7, "session-of-tab-01", Sample.laptop⟩] ∧
      (db'.readCall 3 10).members = [⟨7, "session-of-tab-01", Sample.phone⟩]) ∧
    (db.readCall 3 45).revision = (db.readCall 3 10).revision ∧
    (db.readCall 3 45).members = [] := by
  decide +kernel

end Voxhold.Calls
