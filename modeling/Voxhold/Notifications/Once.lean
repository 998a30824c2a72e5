/-
# Voxhold.Notifications.Once — notifications are recorded and announced once

`deliver` selects the recipients in one transaction and records them in another; only those it
inserted rows for are told. A row that is read leaves the cursor behind, a message is deleted once,
and a membership that ends starts a new count. So a second delivery inserts nothing
(`notified_once`).
-/

import Voxhold.Lib.Trace
import Voxhold.Notifications.Recipients

namespace Voxhold.Notifications

open Voxhold.Lib Voxhold.Account Voxhold.Permissions Option Keyed List Table

/-! ## The tables -/

structure MessageRow where
  channelID : ℕ
  threadRootID : Option ℕ
deriving DecidableEq

structure Notification where
  channelID : ℕ
  serverID : ℕ
  userID : ℕ
  messageID : ℕ
  readAt : Option Int
deriving DecidableEq

/-- `PRIMARY KEY(channel_id,user_id,message_id)`. -/
def Notification.key (n : Notification) : ℕ × ℕ × ℕ := (n.channelID, n.userID, n.messageID)

/-- How far a user has read a channel. -/
structure ChannelRead where
  channelID : ℕ
  userID : ℕ
  lastReadMessageID : ℕ
deriving DecidableEq

/-- `PRIMARY KEY (channel_id, user_id)`. -/
def ChannelRead.key (r : ChannelRead) : ℕ × ℕ := (r.channelID, r.userID)

def Notification.read (now : Int) (n : Notification) : Notification :=
  { n with readAt := some now }

theorem Notification.key_read (now : Int) (n : Notification) : (n.read now).key = n.key := rfl

def ChannelRead.advance (messageID : ℕ) (r : ChannelRead) : ChannelRead :=
  { r with lastReadMessageID := messageID }

theorem ChannelRead.key_advance (messageID : ℕ) (r : ChannelRead) :
    (r.advance messageID).key = r.key := rfl

def Subscription.advance (messageID : ℕ) (t : Subscription) : Subscription :=
  { t with lastReadID := max t.lastReadID messageID }

theorem Subscription.key_advance (messageID : ℕ) (t : Subscription) :
    (t.advance messageID).key = t.key := rfl

/-- A delivery between its two transactions. -/
structure Pending where
  channelID : ℕ
  messageID : ℕ
  ids : List ℕ

/-- A user is notified of a message, in the membership of this number. -/
structure Occasion where
  serverID : ℕ
  userID : ℕ
  messageID : ℕ
  membership : ℕ
deriving DecidableEq

/-- The tables, the deliveries under way, and logs of what was inserted and published. -/
structure State where
  tables : Tables
  messages : Table MessageRow
  reads : Keyed ChannelRead (ℕ × ℕ) ChannelRead.key
  notifications : Keyed Notification (ℕ × ℕ × ℕ) Notification.key
  pending : List Pending
  memberships : ℕ × ℕ → ℕ
  inserted : List Occasion
  published : List Occasion
  /-- `REFERENCES channels(id)`. -/
  refs : ∀ {id m}, messages.get id = some m → (tables.access.channels.get m.channelID).isSome

namespace State

variable (s : State)

/-- `COALESCE((SELECT last_read_message_id …),0)`. -/
def cursor (channelID userID : ℕ) : ℕ :=
  (s.reads.find (channelID, userID)).elim 0 ChannelRead.lastReadMessageID

def channel (channelID : ℕ) : Option Channel :=
  s.tables.access.channels.get channelID

def isMember (serverID userID : ℕ) : Bool :=
  (s.tables.members.find (serverID, userID)).isSome

/-! ## Delivery -/

/-- The first transaction of `deliver`. -/
def select (now : Int) (v : Posted) : State :=
  if v.replayed then s
  else
    match s.tables.recipients now v with
    | [] => s
    | deliveries =>
      { s with pending := s.pending ++ [⟨v.channelID, v.id,
        deliveries.map Tables.Delivery.userID⟩] }

/-- The row that `persistDeliveries` would insert for a user, before it looks for a conflict. -/
def row (now : Int) (p : Pending) (userID : ℕ) : Option Notification :=
  match s.messages.get p.messageID, s.channel p.channelID,
    s.tables.access.tables.db.users.get userID with
  | some m, some ch, some user =>
    if m.channelID = p.channelID ∧ s.cursor p.channelID userID < p.messageID ∧
        s.tables.access.accessible now p.channelID userID ∧ user.deletedAt = none ∧
        s.tables.access.tables.db.bans.find userID = none then
      some ⟨p.channelID, ch.serverID, userID, p.messageID, none⟩
    else none
  | _, _, _ => none

/-- The rows that are inserted: `ON CONFLICT DO NOTHING RETURNING user_id`. -/
def newRows (now : Int) (p : Pending) : List Notification :=
  (p.ids.filterMap (s.row now p)).filter fun n => s.notifications.find n.key = none

def occasion (n : Notification) : Occasion :=
  ⟨n.serverID, n.userID, n.messageID, s.memberships (n.serverID, n.userID)⟩

/-- The second transaction of the `i`th delivery under way, and the events for those that are
online. -/
def persistDeliveries (now : Int) (i : ℕ) (isOnline : ℕ → Bool) : State :=
  match s.pending[i]? with
  | none => s
  | some p =>
    let rows := s.newRows now p
    { s with
      notifications := s.notifications.insertAll rows
      pending := s.pending.eraseIdx i
      inserted := s.inserted ++ rows.map s.occasion
      published := s.published ++ (rows.filter fun n => isOnline n.userID).map s.occasion }

/-! ## Reading -/

/-- The cursor is written, by an `INSERT` or an `UPDATE`, and the triggers clear what it passes. -/
def readTo (reads : Keyed ChannelRead (ℕ × ℕ) ChannelRead.key) (channelID userID messageID : ℕ) :
    State :=
  { s with
    reads := reads
    notifications := s.notifications.delete fun n =>
      n.channelID = channelID ∧ n.userID = userID ∧ n.messageID ≤ messageID }

/-- `Mark`: the cursor only moves up. -/
def mark (now : Int) (serverID channelID userID messageID : ℕ) : State :=
  if (s.channel channelID).any (fun ch => ch.serverID = serverID) ∧
      s.tables.access.accessible now channelID userID ∧
      (s.messages.get messageID).any (fun m => m.channelID = channelID) then
    match s.reads.find (channelID, userID) with
    | none => s.readTo (s.reads.insertNew ⟨channelID, userID, messageID⟩) channelID userID messageID
    | some r =>
      if r.lastReadMessageID < messageID then
        let reads := s.reads.update (fun r => r.channelID = channelID ∧ r.userID = userID)
          (ChannelRead.advance messageID) (ChannelRead.key_advance messageID)
        s.readTo reads channelID userID messageID
      else s
  else s

/-- A notification is read on its own; the cursor of the channel stays. -/
def readInbox (now : Int) (userID messageID : ℕ) : State :=
  { s with
    notifications := s.notifications.update (fun n => n.userID = userID ∧ n.messageID = messageID)
      (Notification.read now) (Notification.key_read now)
    tables := { s.tables with
      subscriptions := s.tables.subscriptions.update
        (fun t => t.userID = userID ∧
          ((s.messages.get messageID).bind MessageRow.threadRootID) = some t.messageID)
        (Subscription.advance messageID) (Subscription.key_advance messageID) } }

/-! ## Messages, memberships and access -/

def createMessage (row : MessageRow) : State :=
  if h : (s.channel row.channelID).isSome then
    { s with
      messages := s.messages.insert row
      refs := by
        intro id m hget
        rw [Table.get_insert] at hget
        split at hget
        · exact Option.some.inj hget ▸ h
        · exact s.refs hget }
  else s

/-- A message is deleted with its comments, and the rows that refer to them. -/
def deleteMessages (p : ℕ → Bool) : State :=
  { s with
    messages := s.messages.eraseAll p
    notifications := s.notifications.delete fun n => p n.messageID
    tables :=
      { s.tables with subscriptions := s.tables.subscriptions.delete fun t => p t.messageID }
    refs := by
      intro id m hget
      exact s.refs (Table.get_eraseAll_eq_some _ |>.mp hget).1 }

/-- The membership does not outlast a change of the tables. -/
def ends (tables : Tables) (serverID userID : ℕ) : Bool :=
  s.isMember serverID userID ∧ (tables.members.find (serverID, userID)).isNone

/-- A change of memberships, roles, grants, channels or settings, with what goes by `ON DELETE
CASCADE`: the messages, rows and cursors of deleted channels and the rows of memberships that end.
The cursors of these memberships go as well where the transaction deletes them. -/
def change (tables : Tables) (deletesReads : Bool) : State :=
  let gone := fun c => (tables.access.channels.get c).isNone
  { s with
    tables := tables
    messages := s.messages.delete fun row => gone row.channelID
    reads := s.reads.delete fun r => gone r.channelID ∨
      (deletesReads ∧ (s.channel r.channelID).any fun ch => s.ends tables ch.serverID r.userID)
    notifications := s.notifications.delete fun n => gone n.channelID ∨
      s.ends tables n.serverID n.userID
    memberships := fun k =>
      if (tables.members.find k).isSome ∧ (s.tables.members.find k).isNone then s.memberships k + 1
      else s.memberships k
    refs := by
      intro id m hget
      have hkept : (tables.access.channels.get m.channelID).isNone = false :=
        (Table.get_delete_eq_some _ |>.mp hget).2
      rwa [← Option.not_isSome, Bool.not_eq_false'] at hkept }

end State

/-- One transaction each. -/
inductive Op where
  | select (v : Posted)
  | persistDeliveries (i : ℕ) (isOnline : ℕ → Bool)
  | mark (serverID channelID userID messageID : ℕ)
  | readInbox (userID messageID : ℕ)
  | createMessage (row : MessageRow)
  | deleteMessages (p : ℕ → Bool)
  | change (tables : Tables) (deletesReads : Bool)

def State.apply (s : State) (x : Int × Op) : State :=
  match x.2 with
  | .select v => s.select x.1 v
  | .persistDeliveries i isOnline => s.persistDeliveries x.1 i isOnline
  | .mark serverID channelID userID messageID => s.mark x.1 serverID channelID userID messageID
  | .readInbox userID messageID => s.readInbox x.1 userID messageID
  | .createMessage row => s.createMessage row
  | .deleteMessages p => s.deleteMessages p
  | .change tables deletesReads => s.change tables deletesReads

/-- A channel stays in its server. -/
def Legal (s : State) (x : Int × Op) : Prop :=
  match x.2 with
  | .change tables _ => ∀ c ch ch', s.channel c = some ch →
    tables.access.channels.get c = some ch' →
      ch'.serverID = ch.serverID
  | _ => True

def State.run (s : State) (ops : List (Int × Op)) : State :=
  ops.foldl State.apply s

/-- Nobody has been notified and nothing has been read. -/
def State.initial (tables : Tables) (messages : Table MessageRow)
    (refs : ∀ {id m}, messages.get id = some m → (tables.access.channels.get m.channelID).isSome) :
    State where
  tables := tables
  messages := messages
  reads := Keyed.empty
  notifications := Keyed.empty
  pending := []
  memberships := fun _ => 0
  inserted := []
  published := []
  refs := refs

/-! ## What a transaction does -/

namespace State

variable {s s' : State}
  {now : Int} {c u id : ℕ} {p : Pending} {n : Notification}
  {reads : Keyed ChannelRead (ℕ × ℕ) ChannelRead.key} {tables : Tables} {x : Int × Op}

/-- A row is of a message of its channel that is not read, and of a membership. -/
structure RowOk (s : State) (n : Notification) : Prop where
  message : ∃ m, s.messages.get n.messageID = some m ∧ m.channelID = n.channelID
  channel : ∃ ch, s.channel n.channelID = some ch ∧ ch.serverID = n.serverID
  member : s.isMember n.serverID n.userID
  unread : s.cursor n.channelID n.userID < n.messageID

/-- How the state may go on: messages do not come back, a membership that begins gets a new number,
and while a membership lasts its cursors do not decrease and its rows stay until their messages are
read or deleted. -/
structure Evolves (s s' : State) : Prop where
  next : s.messages.next ≤ s'.messages.next
  message : ∀ {id m}, id < s.messages.next → s'.messages.get id = some m →
    s.messages.get id = some m
  channel : ∀ {c ch ch'}, s.channel c = some ch → s'.channel c = some ch' →
    ch'.serverID = ch.serverID
  memberships : ∀ k, s.memberships k ≤ s'.memberships k
  lasting : ∀ {a u}, s'.isMember a u → s'.memberships (a, u) = s.memberships (a, u) → s.isMember a u
  cursor : ∀ {c ch u}, s.channel c = some ch → (s'.channel c).isSome → s.isMember ch.serverID u →
    s'.isMember ch.serverID u → s.cursor c u ≤ s'.cursor c u
  row : ∀ {n}, n ∈ s.notifications.rows → RowOk s n → (s'.messages.get n.messageID).isSome →
    s'.isMember n.serverID n.userID →
    (s'.notifications.find n.key).isSome ∨ n.messageID ≤ s'.cursor n.channelID n.userID

theorem Evolves.of_eq (haccess : s'.tables.access = s.tables.access)
    (hmessages : s'.messages = s.messages)
    (hreads : s'.reads = s.reads) (hmemberships : s'.memberships = s.memberships)
    (hrows : ∀ k, (s.notifications.find k).isSome → (s'.notifications.find k).isSome) :
    Evolves s s' where
  next := hmessages ▸ le_rfl
  message := fun _ hget => hmessages ▸ hget
  channel := by
    intro c ch ch' hch hch'
    rw [State.channel, haccess] at hch'
    rw [State.channel] at hch
    rw [hch] at hch'
    rw [Option.some.inj hch']
  memberships := fun k => hmemberships ▸ le_rfl
  lasting := by
    intro a u hmember _
    unfold isMember Tables.members at hmember ⊢
    rwa [haccess] at hmember
  cursor := by
    intro c ch u _ _ _ _
    unfold State.cursor
    rw [hreads]
  row := fun hn _ _ _ => .inl (hrows _ (by rw [mem_rows.mp hn]; rfl))

theorem isMember_of_accessible {ch : Channel} (hch : s.channel c = some ch)
    (h : s.tables.access.accessible now c u) : s.isMember ch.serverID u := by
  obtain ⟨ch', hch', h⟩ := (any_eq_true _ _).mp h
  obtain rfl := mem_unique hch hch'
  obtain ⟨m, hm, -⟩ := (any_eq_true _ _).mp h
  exact isSome_iff_exists.mpr ⟨m, hm⟩

/-! ### Delivery -/

theorem row_eq_some : s.row now p u = some n ↔
    ∃ m ch user, s.messages.get p.messageID = some m ∧ s.channel p.channelID = some ch ∧
      s.tables.access.tables.db.users.get u = some user ∧
      (m.channelID = p.channelID ∧ s.cursor p.channelID u < p.messageID ∧
        s.tables.access.accessible now p.channelID u ∧ user.deletedAt = none ∧
        s.tables.access.tables.db.bans.find u = none) ∧
      n = ⟨p.channelID, ch.serverID, u, p.messageID, none⟩ := by
  unfold row
  cases hm : s.messages.get p.messageID with
  | none => simp
  | some m =>
    cases hch : s.channel p.channelID with
    | none => simp
    | some ch =>
      cases huser : s.tables.access.tables.db.users.get u with
      | none => simp
      | some user =>
        simp only [Option.some.injEq, exists_eq_left', exists_and_left]
        split
        · next hadmitted =>
          simp only [Option.some.injEq, hadmitted, true_and]
          exact eq_comm
        · next hrefused => simp [hrefused]

/-- What is known of a row that is inserted. -/
structure Fresh (s : State) (now : Int) (p : Pending) (n : Notification) : Prop where
  id : n.userID ∈ p.ids
  ok : RowOk s n
  absent : s.notifications.find n.key = none
  access : s.tables.access.accessible now n.channelID n.userID
  place : n.channelID = p.channelID ∧ n.messageID = p.messageID

theorem fresh_of_mem (h : n ∈ s.newRows now p) : Fresh s now p n := by
  obtain ⟨hrow, habsent⟩ := mem_filter.mp h
  obtain ⟨u, hu, hrow⟩ := mem_filterMap.mp hrow
  obtain ⟨m, ch, user, hm, hch, huser, ⟨hchannel, hcursor, haccess, -, -⟩, rfl⟩ :=
    row_eq_some.mp hrow
  exact
    { id := hu
      ok := ⟨⟨m, hm, hchannel⟩, ⟨ch, hch, rfl⟩, isMember_of_accessible hch haccess, hcursor⟩
      absent := of_decide_eq_true habsent
      access := haccess
      place := ⟨rfl, rfl⟩ }

/-- The second transaction of a delivery that is under way. -/
def recorded (s : State) (now : Int) (i : ℕ) (isOnline : ℕ → Bool) (p : Pending) : State :=
  { s with
    notifications := s.notifications.insertAll (s.newRows now p)
    pending := s.pending.eraseIdx i
    inserted := s.inserted ++ (s.newRows now p).map s.occasion
    published :=
      s.published ++ ((s.newRows now p).filter fun n => isOnline n.userID).map s.occasion }

theorem evolves_recorded (now : Int) (i : ℕ) (isOnline : ℕ → Bool) (p : Pending) :
    Evolves s (s.recorded now i isOnline p) := by
  refine .of_eq rfl rfl rfl rfl fun k h => ?_
  show ((s.notifications.insertAll _).find k).isSome
  rw [find_insertAll, isSome_or, h, Bool.true_or]

/-! ### Reading -/

/-- The cursor that is written goes up, and all others stay. -/
structure Reads (s : State) (reads : Keyed ChannelRead (ℕ × ℕ) ChannelRead.key) (c u id : ℕ) :
    Prop where
  up : s.cursor c u ≤ id
  self : (reads.find (c, u)).elim 0 ChannelRead.lastReadMessageID = id
  other : ∀ k, k ≠ (c, u) → reads.find k = s.reads.find k

theorem mark_cases (now : Int) (server c u id : ℕ) :
    s.mark now server c u id = s ∨ ∃ reads, Reads s reads c u id ∧
    s.mark now server c u id = s.readTo reads c u id := by
  unfold mark
  split
  · split
    · next hfind =>
      refine .inr ⟨_, ⟨?_, ?_, ?_⟩, rfl⟩
      · simp [cursor, hfind]
      · rw [find_insertNew, if_pos ⟨rfl, hfind⟩]
        rfl
      · intro k hk
        rw [find_insertNew, if_neg fun h => hk h.1]
    · next r hfind =>
      split
      · next hlt =>
        refine .inr ⟨_, ⟨?_, ?_, ?_⟩, rfl⟩
        · rw [cursor, hfind]
          exact hlt.le
        · obtain ⟨rfl, rfl⟩ := Prod.mk.inj (key_of_find hfind : r.key = (c, u))
          rw [find_update, hfind]
          simp [ChannelRead.advance]
        · intro k hk
          rw [find_update]
          cases hk' : s.reads.find k with
          | none => rfl
          | some r' =>
            have hne : ¬(r'.channelID = c ∧ r'.userID = u) := by
              rintro ⟨rfl, rfl⟩
              exact hk (key_of_find hk').symm
            simp [hne]
      · exact .inl rfl
  · exact .inl rfl

theorem Reads.cursor_le (h : Reads s reads c u id)
    (c' u' : ℕ) : s.cursor c' u' ≤ (s.readTo reads c u id).cursor c' u' := by
  by_cases hk : (c', u') = (c, u)
  · cases hk
    exact h.up.trans_eq h.self.symm
  · unfold cursor
    exact (congrArg (fun r => Option.elim r 0 ChannelRead.lastReadMessageID) (h.other _ hk)).ge

theorem evolves_readTo (h : Reads s reads c u id) : Evolves s (s.readTo reads c u id) where
  next := le_rfl
  message := fun _ hget => hget
  channel := fun hch hch' => by rw [mem_unique hch hch']
  memberships := fun _ => le_rfl
  lasting := fun hmember _ => hmember
  cursor := fun _ _ _ _ => h.cursor_le _ _
  row := by
    intro n hn _ _ _
    by_cases hread : n.channelID = c ∧ n.userID = u ∧ n.messageID ≤ id
    · obtain ⟨rfl, rfl, hle⟩ := hread
      exact .inr (hle.trans_eq h.self.symm)
    · refine .inl ?_
      show ((s.notifications.delete _).find n.key).isSome
      rw [find_delete, mem_rows.mp hn]
      simp [Option.filter, hread]

theorem evolves_readInbox (now : Int) (u id : ℕ) : Evolves s (s.readInbox now u id) := by
  refine .of_eq rfl rfl rfl rfl fun k h => ?_
  unfold readInbox
  rw [find_update, isSome_map]
  exact h

/-! ### Messages, memberships and access -/

theorem evolves_created {row : MessageRow} {refs} :
    Evolves s { s with messages := s.messages.insert row, refs := refs } where
  next := Nat.le_succ _
  message := by
    intro id m hid hget
    rwa [get_insert_of_ne _ (Nat.ne_of_lt hid)] at hget
  channel := fun hch hch' => by rw [mem_unique hch hch']
  memberships := fun _ => le_rfl
  lasting := fun hmember _ => hmember
  cursor := fun _ _ _ _ => le_rfl
  row := fun hn _ _ _ => .inl (by rw [mem_rows.mp hn]; rfl)

theorem evolves_deleteMessages (p : ℕ → Bool) : Evolves s (s.deleteMessages p) where
  next := le_rfl
  message := fun _ hget => ((get_eraseAll_eq_some _).mp hget).1
  channel := fun hch hch' => by rw [mem_unique hch hch']
  memberships := fun _ => le_rfl
  lasting := fun hmember _ => hmember
  cursor := fun _ _ _ _ => le_rfl
  row := by
    intro n hn _ hmessage _
    obtain ⟨m, hm⟩ := isSome_iff_exists.mp hmessage
    have hkept : p n.messageID = false := ((get_eraseAll_eq_some _).mp hm).2
    refine .inl ?_
    unfold deleteMessages
    rw [find_delete, mem_rows.mp hn]
    simp [Option.filter, hkept]

theorem evolves_change {deletesReads : Bool}
    (hlegal : ∀ c ch ch', s.channel c = some ch → tables.access.channels.get c = some ch' →
      ch'.serverID = ch.serverID) : Evolves s (s.change tables deletesReads) where
  next := le_rfl
  message := fun _ hget => ((get_delete_eq_some _).mp hget).1
  channel := fun hch hch' => hlegal _ _ _ hch hch'
  memberships := by
    intro k
    unfold change
    dsimp only
    split
    · exact Nat.le_succ _
    · exact le_rfl
  lasting := by
    intro a u hmember hnumber
    by_contra hno
    have hbegins : (tables.members.find (a, u)).isSome ∧ (s.tables.members.find (a, u)).isNone :=
      ⟨hmember, by simpa [isMember] using hno⟩
    unfold change at hnumber
    dsimp only at hnumber
    rw [if_pos hbegins] at hnumber
    omega
  cursor := by
    intro c ch u hch hstays hmember hmember'
    unfold cursor change
    rw [find_delete]
    cases hread : s.reads.find (c, u) with
    | none => exact le_rfl
    | some r =>
      obtain ⟨rfl, rfl⟩ := Prod.mk.inj (key_of_find hread : r.key = (c, u))
      have hgone : (tables.access.channels.get r.channelID).isNone = false := by
        rw [← not_isSome]
        exact congrArg not hstays
      have hends : s.ends tables ch.serverID r.userID = false := by
        have hafter : (tables.members.find (ch.serverID, r.userID)).isNone = false := by
          rw [← not_isSome]
          exact congrArg not hmember'
        simp [ends, hafter]
      simp [Option.filter, hgone, hch, hends]
  row := by
    intro n hn hok hmessage hmember'
    obtain ⟨m, hm⟩ := isSome_iff_exists.mp hmessage
    obtain ⟨hold, hkept⟩ := (get_delete_eq_some _).mp hm
    obtain ⟨m', hm', hchannel⟩ := hok.message
    obtain rfl := mem_unique hold hm'
    have hafter : (tables.members.find (n.serverID, n.userID)).isNone = false := by
      rw [← not_isSome]
      exact congrArg not hmember'
    refine .inl ?_
    unfold change
    rw [find_delete, mem_rows.mp hn]
    simp [Option.filter, ends, hafter, ← hchannel, hkept]

/-! ### Every transaction -/

/-- What a transaction does, with its checks passed. -/
inductive Effect (s : State) (now : Int) : State → Prop where
  | same : Effect s now s
  | selected (p : Pending) (hp : p.ids.Nodup) : Effect s now { s with pending := s.pending ++ [p] }
  | recorded (i : ℕ) (isOnline : ℕ → Bool) (p : Pending) (hp : s.pending[i]? = some p) :
      Effect s now (s.recorded now i isOnline p)
  | read {reads : Keyed ChannelRead (ℕ × ℕ) ChannelRead.key} {c u id : ℕ}
      (h : Reads s reads c u id) : Effect s now (s.readTo reads c u id)
  | readInbox (u id : ℕ) : Effect s now (s.readInbox now u id)
  | created (row : MessageRow)
      (refs : ∀ {id m}, (s.messages.insert row).get id = some m → (s.channel m.channelID).isSome) :
      Effect s now { s with messages := s.messages.insert row, refs := refs }
  | deleted (p : ℕ → Bool) : Effect s now (s.deleteMessages p)
  | changed (tables : Tables) (deletesReads : Bool) (hlegal : ∀ c ch ch', s.channel c = some ch →
      tables.access.channels.get c = some ch' → ch'.serverID = ch.serverID) :
      Effect s now (s.change tables deletesReads)

theorem nodup_recipients (t : Tables) (now : Int) (v : Posted) :
    ((t.recipients now v).map Tables.Delivery.userID).Nodup := by
  cases hch : t.access.channels.get v.channelID with
  | none => simp [Tables.recipients, hch]
  | some ch =>
    by_cases hkind : ch.kind = .text
    · rw [Tables.userIDs_recipients hch hkind]
      exact (nodup_dedup _).filter _
    · simp [Tables.recipients, hch, hkind]

theorem effect_apply (hlegal : Legal s x) : Effect s x.1 (s.apply x) := by
  obtain ⟨now, op⟩ := x
  cases op with
  | select v =>
    simp only [State.apply, select]
    split
    · exact .same
    · split
      · exact .same
      · exact .selected _ (nodup_recipients s.tables now v)
  | persistDeliveries i isOnline =>
    simp only [State.apply, persistDeliveries]
    split
    · exact .same
    · next p hp => exact .recorded i isOnline p hp
  | mark server c u id =>
    show Effect s now (s.mark now server c u id)
    rcases mark_cases now server c u id with heq | ⟨reads, hreads, heq⟩
    · exact heq ▸ .same
    · exact heq ▸ .read hreads
  | readInbox u id => exact .readInbox u id
  | createMessage row =>
    simp only [State.apply, createMessage]
    split
    · next hch =>
      refine .created row fun {id m} hget => ?_
      rw [get_insert] at hget
      split at hget
      · exact Option.some.inj hget ▸ hch
      · exact s.refs hget
    · exact .same
  | deleteMessages p => exact .deleted p
  | change tables deletesReads => exact .changed tables deletesReads hlegal

theorem Effect.evolves (h : Effect s now s') : Evolves s s' := by
  cases h with
  | same | selected => exact .of_eq rfl rfl rfl rfl fun _ h => h
  | recorded i isOnline p => exact evolves_recorded now i isOnline p
  | read hreads => exact evolves_readTo hreads
  | readInbox u id => exact evolves_readInbox now u id
  | created => exact evolves_created
  | deleted p => exact evolves_deleteMessages p
  | changed _ _ hlegal => exact evolves_change hlegal

/-! ## The rows -/

theorem RowOk.of_eq (h : RowOk s n) (haccess : s'.tables.access = s.tables.access)
    (hmessages : s'.messages = s.messages) (hreads : s'.reads = s.reads) : RowOk s' n where
  message := by
    rw [hmessages]
    exact h.message
  channel := by
    rw [State.channel, haccess]
    exact h.channel
  member := by
    rw [isMember, Tables.members, haccess]
    exact h.member
  unread := by
    rw [State.cursor, hreads]
    exact h.unread

def RowsOk (s : State) : Prop :=
  ∀ n ∈ s.notifications.rows, RowOk s n

section

variable (h : RowsOk s)
include h

theorem RowsOk.recorded (now : Int) (i : ℕ) (isOnline : ℕ → Bool) (p : Pending) :
    RowsOk (s.recorded now i isOnline p) := by
  intro n hn
  have hfind : (s.notifications.insertAll (s.newRows now p)).find n.key = some n := mem_rows.mp hn
  rw [find_insertAll] at hfind
  rcases or_eq_some_iff.mp hfind with hold | ⟨-, hnew⟩
  · exact (h n (mem_of_find hold)).of_eq rfl rfl rfl
  · exact (fresh_of_mem (mem_of_find?_eq_some hnew)).ok.of_eq rfl rfl rfl

theorem RowsOk.readTo (hreads : Reads s reads c u id) : RowsOk (s.readTo reads c u id) := by
  intro n hn
  obtain ⟨hn, hkept⟩ := mem_delete.mp hn
  have hkept := of_decide_eq_false hkept
  have hok := h n hn
  refine ⟨hok.message, hok.channel, hok.member, ?_⟩
  by_cases hk : (n.channelID, n.userID) = (c, u)
  · obtain ⟨hc, hu⟩ := Prod.mk.inj hk
    have hunread : id < n.messageID := Nat.lt_of_not_le fun hle => hkept ⟨hc, hu, hle⟩
    rw [hc, hu]
    exact hreads.self.trans_lt hunread
  · unfold State.cursor
    show (reads.find _).elim 0 ChannelRead.lastReadMessageID < n.messageID
    rw [hreads.other _ hk]
    exact hok.unread

theorem RowsOk.readInbox (now : Int) (u id : ℕ) : RowsOk (s.readInbox now u id) := by
  intro n hn
  unfold State.readInbox at hn
  rw [rows_update] at hn
  obtain ⟨old, hold, rfl⟩ := mem_map.mp hn
  have hok : RowOk (s.readInbox now u id) old := (h old hold).of_eq rfl rfl rfl
  split
  · exact ⟨hok.message, hok.channel, hok.member, hok.unread⟩
  · exact hok

theorem RowsOk.created {row : MessageRow} {refs} :
    RowsOk { s with messages := s.messages.insert row, refs := refs } := by
  intro n hn
  have hok := h n hn
  obtain ⟨m, hm, hchannel⟩ := hok.message
  refine ⟨⟨m, ?_, hchannel⟩, hok.channel, hok.member, hok.unread⟩
  show (s.messages.insert row).get n.messageID = some m
  rw [get_insert_of_ne _ (has_of_get hm).ne_next, hm]

theorem RowsOk.deleteMessages (p : ℕ → Bool) : RowsOk (s.deleteMessages p) := by
  intro n hn
  obtain ⟨hn, hkept⟩ := mem_delete.mp hn
  have hok := h n hn
  obtain ⟨m, hm, hchannel⟩ := hok.message
  exact ⟨⟨m, (get_eraseAll_eq_some _).mpr ⟨hm, hkept⟩, hchannel⟩, hok.channel, hok.member,
    hok.unread⟩

theorem RowsOk.change {deletesReads : Bool}
    (hlegal : ∀ c ch ch', s.channel c = some ch → tables.access.channels.get c = some ch' →
      ch'.serverID = ch.serverID) : RowsOk (s.change tables deletesReads) := by
  intro n hn
  obtain ⟨hn, hkept⟩ := mem_delete.mp hn
  have hkept := of_decide_eq_false hkept
  have hok := h n hn
  obtain ⟨m, hm, hchannel⟩ := hok.message
  obtain ⟨ch, hch, hserver⟩ := hok.channel
  have hstays : (tables.access.channels.get n.channelID).isNone = false := by
    by_contra hgone
    exact hkept (.inl (Bool.eq_true_of_not_eq_false hgone))
  obtain ⟨ch', hch'⟩ := isSome_iff_exists.mp (by rwa [← not_isSome, Bool.not_eq_false'] at hstays)
  refine ⟨⟨m, ?_, hchannel⟩, ⟨ch', hch', (hlegal _ _ _ hch hch').trans hserver⟩, ?_, ?_⟩
  · exact (get_delete_eq_some _).mpr ⟨hm, hchannel ▸ hstays⟩
  · by_contra hno
    have hnone : (tables.members.find (n.serverID, n.userID)).isNone := by
      rwa [← not_isSome, Bool.not_eq_true', ← Bool.not_eq_true]
    exact hkept (.inr (decide_eq_true ⟨hok.member, hnone⟩))
  · refine lt_of_le_of_lt ?_ hok.unread
    unfold State.cursor State.change
    rw [find_delete]
    cases hread : s.reads.find (n.channelID, n.userID) with
    | none => exact le_rfl
    | some r =>
      simp only [Option.filter]
      split
      · exact le_rfl
      · exact Nat.zero_le _

theorem RowsOk.effect (heffect : Effect s now s') : RowsOk s' := by
  cases heffect with
  | same => exact h
  | selected => exact fun n hn => (h n hn).of_eq rfl rfl rfl
  | recorded i isOnline p => exact h.recorded now i isOnline p
  | read hreads => exact h.readTo hreads
  | readInbox u id => exact h.readInbox now u id
  | created => exact h.created
  | deleted p => exact h.deleteMessages p
  | changed _ _ hlegal => exact h.change hlegal

end

/-! ## Each occasion once -/

/-- The user was notified of the message, and while the message and the membership last, the row is
there or the message is read. -/
structure Spent (s : State) (o : Occasion) : Prop where
  old : o.messageID < s.messages.next
  counted : o.membership ≤ s.memberships (o.serverID, o.userID)
  server : ∀ {m ch}, s.messages.get o.messageID = some m → s.channel m.channelID = some ch →
    ch.serverID = o.serverID
  covered : ∀ {m}, s.messages.get o.messageID = some m → s.isMember o.serverID o.userID →
    s.memberships (o.serverID, o.userID) = o.membership →
    (s.notifications.find (m.channelID, o.userID, o.messageID)).isSome ∨
      o.messageID ≤ s.cursor m.channelID o.userID

theorem Spent.evolves {o : Occasion} (h : Spent s o) (hrows : RowsOk s) (he : Evolves s s') :
    Spent s' o where
  old := h.old.trans_le he.next
  counted := h.counted.trans (he.memberships _)
  server := by
    intro m ch' hm hch'
    have hold := he.message h.old hm
    obtain ⟨ch, hch⟩ := isSome_iff_exists.mp (s.refs hold)
    exact (he.channel hch hch').trans (h.server hold hch)
  covered := by
    intro m hm hmember hnumber
    have hold := he.message h.old hm
    obtain ⟨ch, hch⟩ := isSome_iff_exists.mp (s.refs hold)
    -- The number is that of the membership before, which therefore lasts.
    have hsame : s.memberships (o.serverID, o.userID) = o.membership :=
      le_antisymm ((he.memberships _).trans_eq hnumber) h.counted
    have hlasted : s.isMember o.serverID o.userID := he.lasting hmember (hnumber.trans hsame.symm)
    rcases h.covered hold hlasted hsame with hrow | hread
    · obtain ⟨n, hn⟩ := isSome_iff_exists.mp hrow
      obtain ⟨hmem, hkey⟩ := find_eq_some.mp hn
      obtain ⟨hc, hrest⟩ := Prod.mk.inj (hkey : n.key = (m.channelID, o.userID, o.messageID))
      obtain ⟨hu, hid⟩ := Prod.mk.inj hrest
      have hok := hrows n hmem
      have hserver : n.serverID = o.serverID := by
        obtain ⟨ch', hch', hserver⟩ := hok.channel
        rw [← hserver]
        exact h.server hold (hc ▸ hch')
      have hkept := he.row hmem hok (by rw [hid, hm]; rfl) (by rw [hserver, hu]; exact hmember)
      rw [show n.key = (m.channelID, o.userID, o.messageID) from hkey, hc, hu, hid] at hkept
      exact hkept
    · refine .inr (hread.trans (he.cursor hch (s'.refs hm) ?_ ?_))
      · rw [h.server hold hch]
        exact hlasted
      · rw [h.server hold hch]
        exact hmember

/-- Every occasion is inserted at most once, and published only if inserted. -/
structure Sound (s : State) : Prop where
  rows : RowsOk s
  distinct : ∀ p ∈ s.pending, p.ids.Nodup
  once : s.inserted.Nodup
  spent : ∀ o ∈ s.inserted, Spent s o
  published : s.published.Sublist s.inserted

theorem Sound.occasion_new (h : Sound s) (hn : Fresh s now p n) : s.occasion n ∉ s.inserted := by
  intro hmem
  obtain ⟨m, hm, hchannel⟩ := hn.ok.message
  have hcovered := (h.spent _ hmem).covered hm hn.ok.member rfl
  rw [hchannel] at hcovered
  rcases hcovered with hrow | hread
  · have habsent : s.notifications.find (n.channelID, n.userID, n.messageID) = none := hn.absent
    simp [occasion, habsent] at hrow
  · exact absurd hread (Nat.not_le.mpr hn.ok.unread)

theorem nodup_occasions (hids : p.ids.Nodup) : ((s.newRows now p).map s.occasion).Nodup := by
  have huser : ∀ {u n}, s.row now p u = some n → n.userID = u := by
    intro u n hrow
    obtain ⟨m, ch, user, -, -, -, -, rfl⟩ := row_eq_some.mp hrow
    rfl
  refine List.Nodup.map_on ?_ ((hids.filterMap ?_).filter _)
  · intro n hn n' hn' heq
    obtain ⟨u, -, hrow⟩ := mem_filterMap.mp (mem_filter.mp hn).1
    obtain ⟨u', -, hrow'⟩ := mem_filterMap.mp (mem_filter.mp hn').1
    have hsame :
      u = u' := (huser hrow).symm.trans ((congrArg Occasion.userID heq).trans (huser hrow'))
    rw [hsame, hrow'] at hrow
    exact (Option.some.inj hrow).symm
  · intro u u' n hrow hrow'
    exact (huser hrow).symm.trans (huser hrow')

theorem spent_of_fresh (hn : Fresh s now p n) (hmem : n ∈ s.newRows now p) {i : ℕ}
    {isOnline : ℕ → Bool} : Spent (s.recorded now i isOnline p) (s.occasion n) := by
  obtain ⟨m, hm, hchannel⟩ := hn.ok.message
  obtain ⟨ch, hch, hserver⟩ := hn.ok.channel
  refine ⟨lt_next_of_get hm, le_rfl, fun {m' ch'} hm' hch' => ?_, fun {m'} hm' _ _ => .inl ?_⟩
  · obtain rfl := mem_unique hm hm'
    rw [hchannel] at hch'
    exact (congrArg Channel.serverID (mem_unique hch' hch)).trans hserver
  · obtain rfl := mem_unique hm hm'
    show ((s.notifications.insertAll _).find _).isSome
    rw [find_insertAll, isSome_or, Bool.or_eq_true]
    refine .inr (List.find?_isSome.mpr ⟨n, hmem, ?_⟩)
    exact decide_eq_true (by rw [hchannel]; rfl)

theorem Sound.recorded (h : Sound s) (now : Int) (isOnline : ℕ → Bool) {i : ℕ}
    (hp : s.pending[i]? = some p) : Sound (s.recorded now i isOnline p) where
  rows := h.rows.recorded now i isOnline p
  distinct := fun q hq => h.distinct q (mem_of_mem_eraseIdx hq)
  once := by
    refine List.Nodup.append h.once (nodup_occasions (h.distinct p (mem_of_getElem? hp))) ?_
    intro o hold hnew
    obtain ⟨n, hn, rfl⟩ := mem_map.mp hnew
    exact h.occasion_new (fresh_of_mem hn) hold
  spent := by
    intro o ho
    rcases mem_append.mp ho with hold | hnew
    · exact (h.spent o hold).evolves h.rows (evolves_recorded now i isOnline p)
    · obtain ⟨n, hn, rfl⟩ := mem_map.mp hnew
      exact spent_of_fresh (fresh_of_mem hn) hn
  published := h.published.append (filter_sublist.map _)

theorem Sound.effect (h : Sound s) (heffect : Effect s now s') : Sound s' := by
  have hrows := h.rows.effect heffect
  have hspent : ∀ o ∈ s.inserted, Spent s' o :=
    fun o ho => (h.spent o ho).evolves h.rows heffect.evolves
  cases heffect with
  | selected p hids =>
    refine ⟨hrows, fun q hq => ?_, h.once, hspent, h.published⟩
    rcases mem_append.mp hq with hold | hnew
    · exact h.distinct q hold
    · rw [mem_singleton.mp hnew]
      exact hids
  | recorded i isOnline p hp => exact h.recorded now isOnline hp
  | same | read | readInbox | created | deleted | changed =>
    exact ⟨hrows, h.distinct, h.once, hspent, h.published⟩

/-! ## The whole run -/

theorem sound_initial {messages : Table MessageRow}
    {refs : ∀ {id m}, messages.get id = some m → (tables.access.channels.get m.channelID).isSome} :
    Sound (initial tables messages refs) where
  rows := fun _ hn => absurd hn not_mem_nil
  distinct := fun _ hp => absurd hp not_mem_nil
  once := nodup_nil
  spent := fun _ ho => absurd ho not_mem_nil
  published := List.Sublist.refl []

theorem Effect.published {o : Occasion} (h : Effect s now s') (ho : o ∈ s'.published)
    (hnew : o ∉ s.published) : ∃ c, s.notifications.find (c, o.userID, o.messageID) = none ∧
      (s'.notifications.find (c, o.userID, o.messageID)).isSome ∧
      s.tables.access.accessible now c o.userID ∧ o.membership = s.memberships
      (o.serverID, o.userID) := by
  cases h with
  | recorded i isOnline p =>
    obtain ⟨n, hn, rfl⟩ := mem_map.mp ((mem_append.mp ho).resolve_left hnew)
    have hmem := (mem_filter.mp hn).1
    have hfresh := fresh_of_mem hmem
    refine ⟨n.channelID, hfresh.absent, ?_, hfresh.access, rfl⟩
    show ((s.notifications.insertAll _).find _).isSome
    rw [find_insertAll, isSome_or, Bool.or_eq_true]
    exact .inr (List.find?_isSome.mpr ⟨n, hmem, decide_eq_true rfl⟩)
  | same | selected | read | readInbox | created | deleted | changed => exact absurd ho hnew

/-- **Notifications are recorded and announced once.** After every run, a notification is of a
message of its channel that the user's read cursor has not passed, and no user was told twice of a
message during one membership. Every transaction that follows leaves the cursors of the memberships
that last where they are or moves them up, and announces only what it inserts at that moment, to
users who have access. -/
theorem notified_once (tables : Tables) (messages : Table MessageRow)
    (refs : ∀ {id m}, messages.get id = some m → (tables.access.channels.get m.channelID).isSome)
    (ops : List (Int × Op))
    (hlegal : Throughout State.apply Legal (initial tables messages refs) ops) :
    let s := (initial tables messages refs).run ops
    (∀ n ∈ s.notifications.rows, (∃ m, s.messages.get n.messageID = some m ∧
    m.channelID = n.channelID) ∧
      s.cursor n.channelID n.userID < n.messageID) ∧
    s.published.Nodup ∧
    ∀ x, Legal s x →
      (∀ c ch u, s.channel c = some ch → ((s.apply x).channel c).isSome → s.isMember ch.serverID u →
        (s.apply x).isMember ch.serverID u → s.cursor c u ≤ (s.apply x).cursor c u) ∧
      ∀ o ∈ (s.apply x).published, o ∉ s.published → ∃ c,
        s.notifications.find (c, o.userID, o.messageID) = none ∧
        ((s.apply x).notifications.find (c, o.userID, o.messageID)).isSome ∧
        s.tables.access.accessible x.1 c o.userID ∧ o.membership = s.memberships
        (o.serverID, o.userID) := by
  intro s
  have hsound :
    Sound s := foldl_throughout (fun _ _ h hl => h.effect (effect_apply hl)) sound_initial hlegal
  refine ⟨fun n hn => ⟨(hsound.rows n hn).message, (hsound.rows n hn).unread⟩,
    hsound.once.sublist hsound.published, ?_⟩
  intro x hx
  have heffect := effect_apply hx
  exact ⟨fun c ch u => heffect.evolves.cursor, fun o => heffect.published⟩

namespace Sample

/-- Account 1 mentions account 2 in message 1, which is delivered twice. -/
def twice : List (Int × Op) :=
  [(0, .createMessage ⟨1, none⟩), (0, .select Tables.Sample.mention),
    (0, .select Tables.Sample.mention),
    (0, .persistDeliveries 0 fun _ => true), (0, .persistDeliveries 0 fun _ => true)]

end Sample

/-- Two deliveries of a message, and one event. -/
theorem notified_once_twice :
    ((initial Tables.Sample.tables Table.empty nofun).run Sample.twice).published = [⟨1, 2, 1, 0⟩] ∧
    ((initial Tables.Sample.tables Table.empty nofun).run Sample.twice).published.Nodup :=
  ⟨by decide +kernel, (notified_once Tables.Sample.tables Table.empty nofun Sample.twice
    ⟨trivial, trivial, trivial, trivial, trivial, trivial⟩).2.1⟩

end State

end Voxhold.Notifications
