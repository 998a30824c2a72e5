/-
# Voxhold.Permissions.Channels — who may see a channel, and the preview of a role

The channels with their four kinds of grants, the view `channel_accessible_members`, and
`previewRole`, which works out by hand what the views would say of a member with one role and
nothing else.
-/

import Mathlib.Data.List.Sort
import Mathlib.Data.Prod.Lex
import Voxhold.Account.Bootstrap
import Voxhold.Lib.Masks
import Voxhold.Message.Threads
import Voxhold.Permissions.Roles

namespace Voxhold.Permissions

open Voxhold.Lib Voxhold.Account List

/-! ## The tables and the views -/

/-- `CHECK (kind IN ('text', 'voice'))`. -/
inductive Kind where
  | text
  | voice
deriving DecidableEq

structure Channel where
  serverID : ℕ
  name : String
  kind : Kind
  position : ℕ
  isNews : Bool
  commentsEnabled : Bool
  accessRestricted : Bool
  slowmodeSeconds : ℕ
  /-- `CHECK(is_news=0 OR kind='text')`. -/
  news : isNews → kind = .text

/-- `CASE WHEN c.is_news=1 THEN 'news' ELSE c.kind END`. -/
def Channel.shownKind (ch : Channel) : Message.ChannelKind :=
  if ch.isNews then .news
  else match ch.kind with
    | .text => .text
    | .voice => .voice

/-- The roles and the channels with their grants. A personal grant and a publisher are a channel and
a user, a grant to a role of the server or to a custom role is a channel and the role. -/
structure Access where
  tables : Tables
  channels : Table Channel
  userGrants : Finset (ℕ × ℕ)
  roleGrants : Finset (ℕ × Role)
  customRoleGrants : Finset (ℕ × ℕ)
  publishers : Finset (ℕ × ℕ)

def readBit : ℕ := 1

def publishBit : ℕ := 2

def manageMessagesBit : ℕ := 16

namespace Access

variable (a : Access) (now : Int)

def allowed (serverID userID bit : ℕ) : Bool :=
  (a.tables.memberPermissions now serverID userID).any fun bits => bits &&& bit ≠ 0

/-- The channel is open to the member or granted to the member, in person or by role. -/
def granted (c : ℕ) (ch : Channel) (m : Member) : Bool :=
  ch.accessRestricted = false ∨ m.role = .owner ∨ m.role = .admin ∨ (c, m.userID) ∈ a.userGrants ∨
    (c, m.role) ∈ a.roleGrants ∨
    ∃ x ∈ a.tables.rolesOf ch.serverID m.userID, (c, x.roleID) ∈ a.customRoleGrants

/-- The view `channel_accessible_members`. -/
def accessible (c userID : ℕ) : Bool :=
  (a.channels.get c).any fun ch =>
    (a.tables.db.members.find (ch.serverID, userID)).any fun m =>
      a.allowed now ch.serverID userID readBit ∧ a.granted c ch m

/-- What a transaction on messages finds about its caller. -/
def standing (serverID c userID : ℕ) : Message.Standing where
  member := (a.tables.db.members.find (serverID, userID)).map fun m =>
    match m.role with
    | .owner => .owner
    | .admin => .admin
    | .member => .member
  channel := ((a.channels.get c).filter fun ch => ch.serverID = serverID).map fun ch =>
    { kind := match ch.kind with
        | .text => .text
        | .voice => .voice
      isNews := ch.isNews
      commentsEnabled := ch.commentsEnabled
      slowmodeSeconds := ch.slowmodeSeconds }
  accessible := a.accessible now c userID
  publisher := (c, userID) ∈ a.publishers
  publish := a.allowed now serverID userID publishBit
  manageMessages := a.allowed now serverID userID manageMessagesBit
  timedOut := (a.tables.db.members.find (serverID, userID)).any fun m =>
    m.timeoutUntil.any fun expiry => now < expiry

end Access

/-! ## The preview -/

structure PreviewChannel where
  id : ℕ
  name : String
  kind : Message.ChannelKind
  permissions : ℕ
  canPublish : Bool
deriving DecidableEq

def previewChannel (bits : ℕ) (x : ℕ × Channel) : PreviewChannel where
  id := x.1
  name := x.2.name
  kind := x.2.shownKind
  permissions := bits
  canPublish := bits &&& 2 ≠ 0 ∧ x.2.shownKind ≠ .news

theorem canPublish_iff {bits : ℕ} {x : ℕ × Channel} :
    (previewChannel bits x).canPublish ↔ bits &&& 2 ≠ 0 ∧ x.2.isNews = false := by
  unfold previewChannel Channel.shownKind
  cases x.2.isNews <;> cases x.2.kind <;> simp

/-- `ORDER BY c.position,c.id`. -/
def ByPosition (x y : ℕ × Channel) : Prop :=
  toLex (x.2.position, x.1) ≤ toLex (y.2.position, y.1)
deriving Decidable

namespace Access

variable (a : Access)

/-- The channels that are listed for a role with these permissions. -/
def previewed (serverID roleID bits : ℕ) (x : ℕ × Channel) : Bool :=
  x.2.serverID = serverID ∧ bits &&& 1 ≠ 0 ∧
    (x.2.accessRestricted = false ∨ (x.1, .member) ∈ a.roleGrants ∨
    (x.1, roleID) ∈ a.customRoleGrants)

def previewRows (serverID roleID bits : ℕ) : List (ℕ × Channel) :=
  (a.channels.toList.filter (a.previewed serverID roleID bits)).insertionSort ByPosition

def previewRole (serverID userID roleID : ℕ) : Except Error (List PreviewChannel) := do
  a.tables.owner serverID userID
  let r ← found ((a.tables.roles.get roleID).filter fun r => r.serverID = serverID) .noRows
  return (a.previewRows serverID roleID r.permissions).map (previewChannel r.permissions)

variable {a}

theorem mem_previewRows {s id bits c : ℕ} {ch : Channel} :
    (c, ch) ∈ a.previewRows s id bits ↔ a.channels.get c = some ch ∧ a.previewed s id bits
    (c, ch) := by
  rw [previewRows, mem_insertionSort, mem_filter, Table.mem_toList]

theorem nodup_previewRows {s id bits : ℕ} : ((a.previewRows s id bits).map Prod.fst).Nodup := by
  have hkeys : (a.channels.toList.map Prod.fst).Nodup := by
    refine pairwise_map.mpr (a.channels.toList_sorted.imp ?_)
    intro x y hlt
    exact Nat.ne_of_lt hlt
  have hperm :=
    (perm_insertionSort ByPosition (a.channels.toList.filter (a.previewed s id bits))).map Prod.fst
  exact hperm.nodup_iff.mpr (hkeys.sublist (filter_sublist.map Prod.fst))

end Access

/-! ## The OR of the roles -/

namespace Tables

variable (t : Tables)

/-- The mask of a role that a member has. -/
def maskOf (x : Assignment) : ℕ :=
  (t.roles.get x.roleID).elim 0 ServerRole.permissions

/-- What a member's roles permit: all that one of them does, in five bits. -/
def rolesUnion (serverID userID : ℕ) : ℕ :=
  Masks.union (t.rolesOf serverID userID) fun x => t.maskOf x % 32

variable {t}

theorem largest_eq {serverID userID bit : ℕ} :
    t.largest serverID userID bit = (t.rolesOf serverID userID).sup fun x =>
    t.maskOf x &&& bit := by
  refine Finset.sup_congr rfl fun x _ => ?_
  cases hget : t.roles.get x.roleID <;> simp [maskOf, hget]

theorem sum_largest {serverID userID : ℕ} :
    ([1, 2, 4, 8, 16].map fun bit => t.largest serverID userID bit).sum = t.rolesUnion serverID
    userID := by
  have hsum :
    (∑ i ∈ Finset.range 5, (t.rolesOf serverID userID).sup fun x => t.maskOf x &&& 2 ^ i) =
      Masks.union (t.rolesOf serverID userID) t.maskOf % 2 ^ 5 := Masks.sum_sup_and_two_pow 5
  rw [← Masks.union_mod_two_pow] at hsum
  simp only [largest_eq, map_cons, map_nil, sum_cons, sum_nil]
  simpa [Finset.sum_range_succ, rolesUnion, Nat.add_assoc] using hsum

theorem base_eq_union (m : Member) : t.base m = if m.role = .owner ∨ m.role = .admin then 31
    else if t.rolesOf m.serverID m.userID = ∅ then 15 else t.rolesUnion m.serverID m.userID := by
  rw [base, sum_largest]

end Tables

/-! ## A member with one role -/

/-- A plain member who is not timed out, has one role, and has no grant of its own. -/
structure Access.OnlyRole (a : Access) (now : Int) (serverID userID roleID : ℕ) : Prop where
  member : ∃ timeoutUntil,
    a.tables.db.members.find (serverID, userID) = some ⟨serverID, userID, .member, timeoutUntil⟩ ∧
      ¬timeoutUntil.any fun expiry => now < expiry
  role : a.tables.rolesOf serverID userID = {⟨serverID, userID, roleID⟩}
  grants : ∀ c, (c, userID) ∉ a.userGrants

namespace Access

variable {a : Access} {now : Int} {s u id : ℕ}

section

variable (h : a.OnlyRole now s u id)
include h

theorem OnlyRole.permissions {r : ServerRole} (hr : a.tables.roles.get id = some r) :
    a.tables.memberPermissions now s u = some (r.permissions % 32) := by
  obtain ⟨timeoutUntil, hfind, hout⟩ := h.member
  have hunion : a.tables.rolesUnion s u = r.permissions % 32 := by
    rw [Tables.rolesUnion, h.role]
    simp [Masks.union, Tables.maskOf, hr]
  rw [Tables.memberPermissions, hfind, Option.map_some, if_neg hout, Tables.base_eq_union,
    if_neg (by simp), if_neg (by simp [h.role]), hunion]

theorem OnlyRole.allowed {r : ServerRole} (hr : a.tables.roles.get id = some r)
    {i : ℕ} (hi : i < 5) : a.allowed now s u (2 ^ i) ↔ r.permissions &&& 2 ^ i ≠ 0 := by
  have hcut : r.permissions % 32 &&& 2 ^ i = r.permissions &&& 2 ^ i := Masks.mod_and_two_pow hi
  rw [Access.allowed, h.permissions hr, Option.any_some, hcut, decide_eq_true_eq]

theorem OnlyRole.previewed_iff {r : ServerRole} (hr : a.tables.roles.get id = some r)
    {c : ℕ} {ch : Channel} (hch : a.channels.get c = some ch) :
    a.previewed s id r.permissions (c, ch) ↔ ch.serverID = s ∧ a.accessible now c u := by
  obtain ⟨timeoutUntil, hfind, -⟩ := h.member
  by_cases hs : ch.serverID = s
  · subst hs
    have hread : a.allowed now ch.serverID u readBit ↔ r.permissions &&& 1 ≠ 0 :=
      h.allowed hr (i := 0) (by decide)
    simp [previewed, accessible, granted, hch, hfind, hread, h.role, h.grants]
  · simp [previewed, hs]

end

/-! ## Publishing -/

/-- A new text, not in a thread and no reply, that slow mode does not hold up. -/
structure TopLevel (db : Message.Database) (r : Message.CreateRequest) : Prop where
  text : r.forward = none ∧ r.input.poll = none ∧ r.input.attachmentIDs = []
  top : r.input.replyToMessageID = none ∧ r.input.threadRootID = none
  free : db.findKey r = none
  slowmode : ∀ role ch, r.standing.access = .ok (role, ch) →
    db.requireSlowmode role ch r.channel r.author r.checkedAt = .ok ()

theorem TopLevel.accepts_iff {f : Message.Primitives} {db : Message.Database}
    {r : Message.CreateRequest} (h : TopLevel db r) {role : Message.Role} {ch : Message.ChannelRow}
    (haccess : r.standing.access = .ok (role, ch)) : Message.Database.Accepts f db r ↔
      (ch.isNews → role = .owner ∨ role = .admin ∨ r.standing.publisher) ∧ r.standing.publish := by
  obtain ⟨hforward, hpoll, hattachments⟩ := h.text
  obtain ⟨hreply, hroot⟩ := h.top
  have hnew : (∃ sent db', db.createReferenced f r = .ok (sent, db')) ↔
      ∃ x, (db.newRow r role ch >>= db.store f r) = .ok x := by
    rw [Message.Database.createReferenced_of_free h.free, haccess]
    simp [bind, Except.bind]
  rw [Message.Database.Accepts, hnew]
  constructor
  · rintro ⟨x, hx⟩
    obtain ⟨row, hrow, -⟩ := bind_eq_ok.mp hx
    obtain ⟨newsRoot, hwrite, hrow⟩ := bind_eq_ok.mp hrow
    obtain ⟨⟨⟩, hpublish, -⟩ := bind_eq_ok.mp hrow
    rw [hreply, Message.Database.requireNewsWrite] at hwrite
    unfold Message.Standing.requirePublish at hpublish
    split at hwrite
    · cases hwrite
    · next hnews =>
      split at hpublish
      · next hallowed => exact ⟨fun hisNews => by_contra fun hno => hnews ⟨hisNews, hno⟩, hallowed⟩
      · cases hpublish
  · rintro ⟨hnews, hpublish⟩
    have hwrite :
      db.requireNewsWrite r.standing role ch r.channel r.input.replyToMessageID = .ok none := by
      rw [hreply, Message.Database.requireNewsWrite, if_neg]
      rintro ⟨hisNews, hno⟩
      exact hno (hnews hisNews)
    have hallowed : r.standing.requirePublish = .ok () := if_pos hpublish
    have hthread :
      db.requireThread ch r.channel r.input.replyToMessageID none r.input.threadRootID =
      .ok none := by
      rw [hroot]
      rfl
    have htarget : db.requireReply r.channel r.input.replyToMessageID = .ok () := by
      rw [hreply]
      rfl
    have htext : Message.Database.forwarded r = .ok (r.input.content, none) := by
      rw [Message.Database.forwarded, hforward]
    obtain ⟨row, hrow, hnoReply, hnoRoot⟩ : ∃ row, db.newRow r role ch = .ok row ∧
      row.replyTo = none ∧
        row.threadRoot = none :=
      ⟨_, bind_eq_ok.mpr ⟨none, hwrite, bind_eq_ok.mpr ⟨(), hallowed, bind_eq_ok.mpr ⟨(),
        h.slowmode role ch haccess, bind_eq_ok.mpr ⟨none, hthread, bind_eq_ok.mpr ⟨(), htarget,
        bind_eq_ok.mpr ⟨_, htext, rfl⟩⟩⟩⟩⟩⟩, hreply, rfl⟩
    have hscope : db.replyInScope row ∧ db.rootInScope row := by
      simp [Message.Database.replyInScope, Message.Database.rootInScope, hnoReply, hnoRoot]
    have hcomplete : Message.Database.Complete f db r := by
      simp [Message.Database.Complete, hpoll, hattachments, Message.Database.linkAttachments]
    obtain ⟨x, hstore⟩ := (Message.Database.store_ok hscope).mpr hcomplete
    exact ⟨x, bind_eq_ok.mpr ⟨row, hrow, hstore⟩⟩

theorem OnlyRole.access (h : a.OnlyRole now s u id) {c : ℕ} {ch : Channel}
    (hch : a.channels.get c = some ch) (hs : ch.serverID = s) (haccess : a.accessible now c u) :
    ∃ row, (a.standing now s c u).access = .ok (.member, row) ∧ row.isNews = ch.isNews := by
  obtain ⟨timeoutUntil, hfind, -⟩ := h.member
  cases hkind : ch.kind <;>
    exact ⟨⟨_, ch.isNews, ch.commentsEnabled, ch.slowmodeSeconds⟩, by
      simp [Message.Standing.access, Message.Standing.requireServerMember,
        Message.Standing.requireMessageChannel,
        standing, hfind, hch, hs, hkind, haccess, Option.filter]
      rfl, rfl⟩

/-- **The preview of a role agrees with the views and the message service.** The permissions of a
member are the bitwise OR of the masks of the member's roles. For every role, the preview lists,
once each, the channels of the server that a plain member with this role alone has access to, and
marks those in which such a member may publish a message without being a publisher of the channel.
-/
theorem role_preview (a : Access) (now : Int) :
    (∀ s u m, a.tables.db.members.find (s, u) = some m → a.tables.memberPermissions now s u =
      let base :=
        if m.role = .owner ∨ m.role = .admin then 31
        else if a.tables.rolesOf s u = ∅ then 15
        else Masks.union (a.tables.rolesOf s u) fun x => a.tables.maskOf x % 32
      some (if m.timeoutUntil.any fun expiry => now < expiry then base &&& 17 else base)) ∧
    ∀ s u id, a.OnlyRole now s u id → ∀ user listed, a.previewRole s user id = .ok listed →
      (listed.map PreviewChannel.id).Nodup ∧
      (∀ c, c ∈ listed.map PreviewChannel.id ↔
        ((a.channels.get c).any fun ch => ch.serverID = s) ∧ a.accessible now c u) ∧
      ∀ p ∈ listed, (p.id, u) ∉ a.publishers → ∀ f db r, r.standing = a.standing now s p.id u →
        TopLevel db r → (Message.Database.Accepts f db r ↔ p.canPublish) := by
  constructor
  · intro s u m hfind
    obtain ⟨rfl, rfl⟩ := Prod.mk.inj (Keyed.key_of_find hfind : m.key = (s, u))
    rw [Tables.memberPermissions, hfind, Option.map_some, Tables.base_eq_union]
    rfl
  · intro s u id honly user listed hlisted
    obtain ⟨-, -, hlisted⟩ := bind_eq_ok.mp hlisted
    obtain ⟨r, hr, hlisted⟩ := bind_eq_ok.mp hlisted
    obtain ⟨hr, -⟩ := Option.filter_eq_some_iff.mp (found_eq_ok.mp hr)
    cases hlisted
    have hids :
      ((a.previewRows s id r.permissions).map (previewChannel r.permissions)).map
      PreviewChannel.id =
        (a.previewRows s id r.permissions).map Prod.fst := by
      rw [map_map]
      rfl
    refine ⟨hids ▸ nodup_previewRows, ?_, ?_⟩
    · intro c
      rw [hids]
      constructor
      · intro hc
        obtain ⟨⟨c, ch⟩, hmem, rfl⟩ := mem_map.mp hc
        obtain ⟨hch, hpreviewed⟩ := mem_previewRows.mp hmem
        obtain ⟨hs, haccess⟩ := (honly.previewed_iff hr hch).mp hpreviewed
        exact ⟨by simp [hch, hs], haccess⟩
      · rintro ⟨hs, haccess⟩
        obtain ⟨ch, hch, hs⟩ := (Option.any_eq_true _ _).mp hs
        have hpreviewed := (honly.previewed_iff hr hch).mpr ⟨of_decide_eq_true hs, haccess⟩
        exact mem_map.mpr ⟨(c, ch), mem_previewRows.mpr ⟨hch, hpreviewed⟩, rfl⟩
    · intro p hp hno f db req hstanding htop
      obtain ⟨⟨c, ch⟩, hmem, rfl⟩ := mem_map.mp hp
      obtain ⟨hch, hpreviewed⟩ := mem_previewRows.mp hmem
      obtain ⟨hs, haccess⟩ := (honly.previewed_iff hr hch).mp hpreviewed
      obtain ⟨row, hrow, hnews⟩ := honly.access hch hs haccess
      have hpublish : a.allowed now s u publishBit ↔ r.permissions &&& 2 ≠ 0 :=
        honly.allowed hr (i := 1) (by decide)
      replace hno : (c, u) ∉ a.publishers := hno
      rw [htop.accepts_iff (hstanding ▸ hrow), hstanding, canPublish_iff, hnews]
      simp [standing, previewChannel, hno, hpublish, and_comm]

namespace Sample

/-- Account 2 has the role "reader" of server 1, which may read. -/
def reader : Tables where
  db := Account.run Account.Sample.instance₁ Account.Sample.members
  roles := Table.empty.insert ⟨1, "reader", "#000000", 1⟩
  assigned := {⟨1, 2, 1⟩}
  refs x hx := by
    obtain rfl := Finset.mem_singleton.mp hx
    exact ⟨_, rfl, rfl⟩

def general : Channel := ⟨1, "general", .text, 0, false, false, false, 0, by decide⟩

/-- An open channel, and one that is restricted to nobody. -/
def access : Access where
  tables := reader
  channels := (Table.empty.insert general).insert
    ⟨1, "staff", .voice, 1, false, false, true, 0, by decide⟩
  userGrants := ∅
  roleGrants := ∅
  customRoleGrants := ∅
  publishers := ∅

theorem onlyRole_reader : access.OnlyRole 0 1 2 1 where
  member := ⟨none, by decide +kernel, by decide⟩
  role := by decide
  grants := fun _ => Finset.notMem_empty _

def text : Message.CreateRequest := .plain (access.standing 0 1 1 2) 1 2 "hi" 0

theorem topLevel_text : TopLevel .empty text where
  text := ⟨rfl, rfl, rfl⟩
  top := ⟨rfl, rfl⟩
  free := rfl
  slowmode role ch haccess := by
    obtain rfl : ⟨.text, false, false, 0⟩ = ch := congrArg Prod.snd (Except.ok.inj haccess)
    rfl

end Sample

/-- The preview of the role lists the open channel, to which account 2 has access, and does not mark
it: a text of account 2 is not accepted there. -/
theorem role_preview_reader : Sample.access.accessible 0 1 2 = true ∧
    Sample.access.accessible 0 2 2 = false ∧
    ¬Message.Database.Accepts .verbatim .empty Sample.text := by
  have hpreview := (role_preview Sample.access 0).2 1 2 1 Sample.onlyRole_reader 1
    [⟨1, "general", .text, 1, false⟩] rfl
  refine ⟨((hpreview.2.1 1).mp (by decide)).2, ?_, fun haccepts => ?_⟩
  · by_contra haccess
    have hlisted := (hpreview.2.1 2).mpr ⟨by decide, Bool.eq_true_of_not_eq_false haccess⟩
    exact absurd hlisted (by decide)
  · have hmarked :=
      (hpreview.2.2 _ (mem_singleton.mpr rfl) (Finset.notMem_empty _) .verbatim .empty Sample.text
      rfl Sample.topLevel_text).mp haccepts
    cases hmarked

end Access

end Voxhold.Permissions
