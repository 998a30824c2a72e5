/-
# Voxhold.Notifications.Recipients — who is notified of a message

`deliver` starts from six sets of candidates: all members for a news channel, those who want
everything, those mentioned by id, by name and by role, and the followers of the thread. Its query
applies the conditions for everyone, and the loop drops the candidates whom the message does not
concern.
-/

import Voxhold.Permissions.Channels

namespace Voxhold.Notifications

open Voxhold.Lib Voxhold.Account Voxhold.Permissions List

/-! ## Messages and settings -/

/-- What `mentions.Parse` finds in a text. -/
structure Targets where
  users : List ℕ
  names : List String
  roles : List Role
deriving DecidableEq

def Targets.matches (t : Targets) (userID : ℕ) (username : String) (role : Role) : Bool :=
  userID ∈ t.users ∨ role ∈ t.roles ∨ username ∈ t.names

structure ReplyReference where
  authorID : ℕ
  deleted : Bool
deriving DecidableEq

/-- A message as `deliver` gets it, with the targets of its text. -/
structure Posted where
  id : ℕ
  channelID : ℕ
  authorID : ℕ
  targets : Targets
  replayed : Bool
  threadRootID : Option ℕ
  reply : Option ReplyReference
  forward : Bool
deriving DecidableEq

inductive Mode where
  | all
  | mentions
  | none
deriving DecidableEq

/-- A row of `channel_notification_settings`. -/
structure Setting where
  channelID : ℕ
  userID : ℕ
  mode : Mode
deriving DecidableEq

def Setting.key (s : Setting) : ℕ × ℕ := (s.channelID, s.userID)

def defaultMode (news : Bool) : Mode :=
  if news then .all else .mentions

/-- A row of `thread_subscriptions`. -/
structure Subscription where
  messageID : ℕ
  userID : ℕ
  following : Bool
  lastReadID : ℕ
deriving DecidableEq

def Subscription.key (s : Subscription) : ℕ × ℕ := (s.messageID, s.userID)

/-- The tables that `deliver` reads. -/
structure Tables where
  access : Access
  settings : Keyed Setting (ℕ × ℕ) Setting.key
  subscriptions : Keyed Subscription (ℕ × ℕ) Subscription.key

/-- The replied-to message is there and is the user's. -/
def Posted.repliesTo (v : Posted) (userID : ℕ) : Bool :=
  v.reply.any fun r => !r.deleted ∧ r.authorID = userID

/-- Only owners and admins may mention roles. -/
def permitted (authorRole : Option Role) (t : Targets) : Targets :=
  if authorRole = some .owner ∨ authorRole = some .admin then t else { t with roles := [] }

namespace Tables

variable (t : Tables)
  {authorRole : Option Role} {targets : Targets}

def members : Members := t.access.tables.db.members

def mode (news : Bool) (channelID userID : ℕ) : Mode :=
  (t.settings.find (channelID, userID)).elim (defaultMode news) Setting.mode

/-- `t.message_id=? AND t.following=1`, which no row is if the message has no root. -/
def follows (v : Posted) (s : Subscription) : Bool :=
  v.threadRootID = some s.messageID ∧ s.following

def following (v : Posted) (userID : ℕ) : Bool :=
  t.subscriptions.rows.any fun s => follows v s ∧ s.userID = userID

/-! ## The query -/

def membersOf (serverID : ℕ) : List Member :=
  t.members.rows.filter fun m => m.serverID = serverID

/-- The ids that are looked for: those mentioned, and the author of the message replied to. -/
def wantedUsers (v : Posted) (targets : Targets) : List ℕ :=
  if v.forward then []
  else targets.users ++ (v.reply.filter fun r => !r.deleted).toList.map ReplyReference.authorID

def wantedNames (v : Posted) (targets : Targets) : List String :=
  if v.forward then [] else targets.names

def wantedRoles (v : Posted) (targets : Targets) : List Role :=
  if v.forward then [] else targets.roles

/-- The six sets of candidates. -/
def candidates (ch : Channel) (v : Posted) (targets : Targets) : List ℕ :=
  (if ch.isNews ∧ v.threadRootID = none then (t.membersOf ch.serverID).map Member.userID else []) ++
  (if v.threadRootID = none then
    (t.settings.rows.filter fun s => s.channelID = v.channelID ∧ s.mode = .all).map Setting.userID
      else []) ++
  wantedUsers v targets ++
  (t.access.tables.db.users.toList.filter fun x => x.2.username ∈ wantedNames v targets).map
    Prod.fst ++
  ((t.membersOf ch.serverID).filter fun m => m.role ∈ wantedRoles v targets).map Member.userID ++
  (t.subscriptions.rows.filter (follows v)).map Subscription.userID

/-- The conditions that the query puts on every candidate. -/
def eligible (now : Int) (ch : Channel) (v : Posted) (userID : ℕ) (user : User) : Bool :=
  userID ≠ v.authorID ∧ user.deletedAt = none ∧ t.mode ch.isNews v.channelID userID ≠ .none ∧
    t.access.accessible now v.channelID userID ∧ t.access.tables.db.bans.find userID = none

structure Delivery where
  userID : ℕ
  mentioned : Bool
deriving DecidableEq

/-- One round of the loop, for a candidate that the query returns. -/
def round (now : Int) (ch : Channel) (v : Posted) (targets : Targets) (userID : ℕ) :
    Option Delivery :=
  match t.access.tables.db.users.get userID, t.members.find (ch.serverID, userID) with
  | some user, some m =>
    if t.eligible now ch v userID user then
      let mentioned :=
        !v.forward && (targets.matches userID user.username m.role || v.repliesTo userID)
      -- A busy discussion does not notify everyone who wants all messages.
      if (t.mode ch.isNews v.channelID userID ≠ .all ∨ v.threadRootID.isSome) ∧ !mentioned ∧
          !t.following v userID then none
      else some ⟨userID, mentioned⟩
    else none
  | _, _ => none

/-- The recipients of a message. Only text channels notify. -/
def recipients (now : Int) (v : Posted) : List Delivery :=
  match t.access.channels.get v.channelID with
  | none => []
  | some ch =>
    if ch.kind ≠ .text then []
    else
      let targets := permitted (t.access.tables.db.roleOf ch.serverID v.authorID) v.targets
      (t.candidates ch v targets).dedup.filterMap (t.round now ch v targets)

/-! ## The rule -/

/-- The message concerns the user. -/
def Mentioned (v : Posted) (authorRole : Option Role) (userID : ℕ) (username : String)
    (role : Role) : Prop :=
  v.forward = false ∧ (userID ∈ v.targets.users ∨ username ∈ v.targets.names ∨
    (role ∈ v.targets.roles ∧ (authorRole = some .owner ∨ authorRole = some .admin)) ∨
    ∃ r, v.reply = some r ∧ r.deleted = false ∧ r.authorID = userID)

/-- Who is to be notified of a message, told member by member. -/
structure Notified (now : Int) (ch : Channel) (v : Posted) (userID : ℕ) : Prop where
  other : userID ≠ v.authorID
  access : t.access.accessible now v.channelID userID
  unbanned : t.access.tables.db.bans.find userID = none
  mode : t.mode ch.isNews v.channelID userID ≠ .none
  concerned : ∃ user m, t.access.tables.db.users.get userID = some user ∧
    t.members.find (ch.serverID, userID) = some m ∧ user.deletedAt = none ∧
    (Mentioned v (t.access.tables.db.roleOf ch.serverID v.authorID) userID user.username m.role ∨
      (∃ root s, v.threadRootID = some root ∧ t.subscriptions.find (root, userID) = some s ∧
        s.following) ∨
      (t.mode ch.isNews v.channelID userID = .all ∧ v.threadRootID = none))

/-! ## The query and the loop compute it -/

variable {t} {now : Int} {ch : Channel} {v : Posted} {u : ℕ}

theorem following_iff : t.following v u ↔
    ∃ root s, v.threadRootID = some root ∧ t.subscriptions.find (root, u) = some s ∧
    s.following := by
  simp only [following, any_eq_true, follows, decide_eq_true_eq, Bool.decide_and, Bool.and_eq_true]
  constructor
  · rintro ⟨s, hs, ⟨hroot, hfollowing⟩, rfl⟩
    exact ⟨s.messageID, s, hroot, Keyed.mem_rows.mp hs, hfollowing⟩
  · rintro ⟨root, s, hroot, hfind, hfollowing⟩
    obtain ⟨hs, hkey⟩ := Keyed.find_eq_some.mp hfind
    obtain ⟨rfl, rfl⟩ := Prod.mk.inj (hkey : s.key = (root, u))
    exact ⟨s, hs, ⟨hroot, hfollowing⟩, rfl⟩

@[simp] theorem users_permitted : (permitted authorRole targets).users = targets.users := by
  unfold permitted
  split <;> rfl

@[simp] theorem names_permitted : (permitted authorRole targets).names = targets.names := by
  unfold permitted
  split <;> rfl

@[simp] theorem mem_roles_permitted {role : Role} : role ∈ (permitted authorRole targets).roles ↔
      role ∈ targets.roles ∧ (authorRole = some .owner ∨ authorRole = some .admin) := by
  unfold permitted
  split
  · next h => exact ⟨fun hrole => ⟨hrole, h⟩, And.left⟩
  · next h => simp [h]

theorem mentioned_iff {username : String} {role : Role} :
    (!v.forward && ((permitted authorRole v.targets).matches u username role || v.repliesTo u)) =
    true ↔
      Mentioned v authorRole u username role := by
  have hreply : v.repliesTo u = true ↔ ∃ r, v.reply = some r ∧ r.deleted = false ∧
    r.authorID = u := by
    simp [Posted.repliesTo, Option.any_eq_true]
  unfold Mentioned
  rw [Bool.and_eq_true, Bool.or_eq_true, hreply, Targets.matches, decide_eq_true_eq,
    mem_roles_permitted, users_permitted, names_permitted, Bool.not_eq_true']
  tauto

theorem round_eq_some {d : Delivery} : t.round now ch v targets u = some d ↔
    ∃ user m, t.access.tables.db.users.get u = some user ∧ t.members.find
    (ch.serverID, u) = some m ∧
      t.eligible now ch v u user ∧
      let mentioned := !v.forward && (targets.matches u user.username m.role || v.repliesTo u)
      (mentioned ∨ t.following v u ∨ (t.mode ch.isNews v.channelID u = .all ∧
      v.threadRootID = none)) ∧
        d = ⟨u, mentioned⟩ := by
  unfold round
  cases huser : t.access.tables.db.users.get u with
  | none => simp
  | some user =>
    cases hm : t.members.find (ch.serverID, u) with
    | none => simp
    | some m =>
      simp only [Option.some.injEq, exists_eq_left', exists_and_left]
      generalize (!v.forward && (targets.matches u user.username m.role || v.repliesTo u)) =
        mentioned
      by_cases heligible : t.eligible now ch v u user = true
      · rw [if_pos heligible]
        split
        · next hskip =>
          simp only [heligible, true_and, reduceCtorEq, false_iff, not_and]
          rintro (hmentioned | hfollowing | ⟨hall, htop⟩)
          · simp [hmentioned] at hskip
          · simp [hfollowing] at hskip
          · simp [hall, htop] at hskip
        · next hkeep =>
          have hconcerned : mentioned = true ∨ t.following v u = true ∨
              (t.mode ch.isNews v.channelID u = .all ∧ v.threadRootID = none) := by
            by_contra hno
            simp only [not_or, not_and, Bool.not_eq_true] at hno
            refine hkeep ⟨?_, by simp [hno.1], by simp [hno.2.1]⟩
            by_cases hall : t.mode ch.isNews v.channelID u = .all
            · exact .inr (Option.isSome_iff_ne_none.mpr (hno.2.2 hall))
            · exact .inl hall
          simp only [heligible, hconcerned, true_and, Option.some.injEq]
          exact eq_comm
      · simp [heligible]

theorem mem_candidates {user : User} {m : Member}
    (huser : t.access.tables.db.users.get u = some user)
    (hm : t.members.find (ch.serverID, u) = some m)
    (h : Mentioned v authorRole u user.username m.role ∨ t.following v u ∨
      (t.mode ch.isNews v.channelID u = .all ∧ v.threadRootID = none)) :
    u ∈ t.candidates ch v (permitted authorRole v.targets) := by
  obtain ⟨hrow, hkey⟩ := Keyed.find_eq_some.mp hm
  obtain ⟨hserver, rfl⟩ := Prod.mk.inj (hkey : m.key = (ch.serverID, u))
  have hmember : m ∈ t.membersOf ch.serverID := mem_filter.mpr ⟨hrow, decide_eq_true hserver⟩
  simp only [candidates, mem_append]
  rcases h with ⟨hforward, hid | hname | hrole | ⟨r, hr, hdeleted, hauthor⟩⟩ | hfollowing | ⟨hall,
    htop⟩
  · exact .inl (.inl (.inl (.inr (by simp [wantedUsers, hforward, hid]))))
  · refine .inl (.inl (.inr (mem_map.mpr ⟨(m.userID, user), ?_, rfl⟩)))
    simp [wantedNames, hforward, huser, hname]
  · refine .inl (.inr (mem_map.mpr ⟨m, ?_, rfl⟩))
    simp [wantedRoles, hforward, hmember, hrole.1, hrole.2]
  · exact .inl
      (.inl (.inl (.inr (by simp [wantedUsers, hforward, hr, hdeleted, hauthor, Option.filter]))))
  · obtain ⟨s, hs, hfollows⟩ := any_eq_true.mp hfollowing
    have hfollows := of_decide_eq_true hfollows
    exact .inr (mem_map.mpr ⟨s, mem_filter.mpr ⟨hs, hfollows.1⟩, hfollows.2⟩)
  · -- Someone who gets everything has set it, or gets it by default in a news channel.
    cases hsetting : t.settings.find (v.channelID, m.userID) with
    | none =>
      have hnews : ch.isNews = true := by
        by_contra hno
        simp [mode, hsetting, defaultMode, hno] at hall
      refine .inl (.inl (.inl (.inl (.inl ?_))))
      rw [if_pos ⟨hnews, htop⟩]
      exact mem_map.mpr ⟨m, hmember, rfl⟩
    | some setting =>
      obtain ⟨hs, hkey⟩ := Keyed.find_eq_some.mp hsetting
      obtain ⟨hchannel, huserID⟩ := Prod.mk.inj (hkey : setting.key = (v.channelID, m.userID))
      have hmode : setting.mode = .all := by
        simpa [mode, hsetting] using hall
      refine .inl (.inl (.inl (.inl (.inr ?_))))
      rw [if_pos htop]
      refine mem_map.mpr ⟨setting, mem_filter.mpr ⟨hs, ?_⟩, huserID⟩
      exact decide_eq_true ⟨hchannel, hmode⟩

theorem userIDs_recipients (hch : t.access.channels.get v.channelID = some ch)
    (hkind : ch.kind = .text) : (t.recipients now v).map Delivery.userID =
      let targets := permitted (t.access.tables.db.roleOf ch.serverID v.authorID) v.targets
      (t.candidates ch v targets).dedup.filter fun u => (t.round now ch v targets u).isSome := by
  simp only [recipients, hch, hkind, ne_eq, not_true_eq_false, if_false]
  rw [map_filterMap, ← filterMap_eq_filter]
  refine congrArg (fun f => List.filterMap f _) (funext fun u => ?_)
  cases hround :
    t.round now ch v (permitted (t.access.tables.db.roleOf ch.serverID v.authorID) v.targets) u with
  | none => simp [Option.guard, hround]
  | some d =>
    obtain ⟨user, m, -, -, -, -, rfl⟩ := round_eq_some.mp hround
    simp [Option.guard, hround]

/-- **The recipients are those of the naive rule.** For every state of the tables and every message
of a text channel, the candidates and the loop of `deliver` select exactly the members that are to
be notified, each once. -/
theorem recipients_naive (t : Tables) (now : Int) (v : Posted) (ch : Channel)
    (hch : t.access.channels.get v.channelID = some ch) (hkind : ch.kind = .text) :
    ((t.recipients now v).map Delivery.userID).Nodup ∧
    ∀ u, u ∈ (t.recipients now v).map Delivery.userID ↔ t.Notified now ch v u := by
  rw [userIDs_recipients hch hkind]
  refine ⟨(nodup_dedup _).filter _, ?_⟩
  intro u
  rw [mem_filter, mem_dedup, Option.isSome_iff_exists]
  constructor
  · rintro ⟨-, d, hround⟩
    obtain ⟨user, m, huser, hm, heligible, hconcerned, -⟩ := round_eq_some.mp hround
    obtain ⟨hother, halive, hmode, haccess, hban⟩ := of_decide_eq_true heligible
    refine ⟨hother, haccess, hban, hmode, user, m, huser, hm, halive, ?_⟩
    rw [mentioned_iff, following_iff] at hconcerned
    exact hconcerned
  · rintro ⟨hother, haccess, hban, hmode, user, m, huser, hm, halive, hconcerned⟩
    rw [← following_iff] at hconcerned
    refine ⟨mem_candidates huser hm hconcerned,
      ⟨_, round_eq_some.mpr ⟨user, m, huser, hm, ?_, ?_, rfl⟩⟩⟩
    · exact decide_eq_true ⟨hother, halive, hmode, haccess, hban⟩
    · rw [mentioned_iff]
      exact hconcerned

namespace Sample

/-- Account 1 owns the server, account 2 may read its open channel. -/
def tables : Tables := ⟨Access.Sample.access, Keyed.empty, Keyed.empty⟩

def general : Channel := Access.Sample.general

def mention : Posted := ⟨1, 1, 1, ⟨[2], [], []⟩, false, none, none, false⟩

end Sample

theorem recipients_naive_mention : Sample.tables.Notified 0 Sample.general Sample.mention 2 :=
  ((recipients_naive Sample.tables 0 Sample.mention Sample.general rfl rfl).2 2).mp
    (by decide +kernel)

end Tables

end Voxhold.Notifications
