/-
# Voxhold.Message.Store — the tables behind a channel's messages, and their triggers

Messages with their reactions, attachments, polls and votes, the keys of past sends, and the
journal: one row of `message_changes` for each change, and `message_sync_state` with the last number
and the floor of each channel.
-/

import Voxhold.Lib.Table

namespace Voxhold.Message

open Voxhold.Lib

/-! ## Rows -/

/-- A row of `messages`, without its key. -/
structure Row where
  channel : ℕ
  author : ℕ
  content : String
  createdAt : ℤ
  editedAt : Option ℤ
  revision : ℕ
  replyTo : Option ℕ
  replyToOriginal : Option ℕ
  forwardData : Option String
  threadRoot : Option ℕ
deriving DecidableEq

namespace Row

def countUp (row : Row) : Row :=
  { row with revision := row.revision + 1 }

def rewrite (content : String) (now : ℤ) (row : Row) : Row :=
  { row with content := content, editedAt := some now, revision := row.revision + 1 }

/-- What is never written again once the row is there. -/
def fixed (row : Row) : Row :=
  { row with content := "", editedAt := none, revision := 0, replyTo := none }

end Row

/-- A row of `message_changes`, without its sequence number. -/
structure Change where
  channel : ℕ
  message : ℕ
  createdAt : ℤ
deriving DecidableEq

structure SyncState where
  cursor : ℕ
  floor : ℕ
deriving DecidableEq

inductive RequestKind where
  | message | reply | forward
deriving DecidableEq

/-- A row of `message_send_keys`, without its key. -/
structure SendKey where
  contentHash : String
  message : Option ℕ
  kind : RequestKind
deriving DecidableEq

structure Reaction where
  message : ℕ
  emoji : String
  user : ℕ
deriving DecidableEq

/-- What is shown of an attached file. -/
structure FileInfo where
  filename : String
  mimeType : String
  sizeBytes : ℕ
  width : ℕ
  height : ℕ
deriving DecidableEq

structure Attachment where
  id : String
  channel : ℕ
  owner : ℕ
  message : Option ℕ
  deletedAt : Option ℤ
  file : FileInfo
deriving DecidableEq

structure Poll where
  message : ℕ
  question : String
  multiple : Bool
  anonymous : Bool
  closesAt : ℤ
  revision : ℕ
deriving DecidableEq

structure PollOption where
  poll : ℕ
  label : String
deriving DecidableEq

structure Vote where
  poll : ℕ
  option : ℕ
  user : ℕ
deriving DecidableEq

/-- What identifies a send: channel, author and the key the client chose. -/
structure SendID where
  channel : ℕ
  author : ℕ
  clientMessageID : String
deriving DecidableEq

structure Database where
  messages : Table Row
  changes : Table Change
  syncState : ℕ → Option SyncState
  sendKeys : SendID → Option SendKey
  reactions : List Reaction
  attachments : List Attachment
  polls : Table Poll
  pollOptions : Table PollOption
  votes : List Vote

namespace Database

/-- The tables right after the migration that adds the journal: messages may be there already, and
the rows attached to them, but no change of them was recorded and no key is known. -/
def migrated (messages : Table Row) (reactions : List Reaction) (attachments : List Attachment)
    (polls : Table Poll) (pollOptions : Table PollOption) (votes : List Vote) : Database where
  messages := messages
  changes := .empty
  syncState := fun _ => none
  sendKeys := fun _ => none
  reactions := reactions
  attachments := attachments
  polls := polls
  pollOptions := pollOptions
  votes := votes

def empty : Database :=
  migrated .empty [] [] .empty .empty []

variable (db : Database)

/-! ## Triggers -/

/-- What the three sync triggers do for a row: a journal row under the next sequence number, which
becomes the channel's cursor. -/
def journal (channel message : ℕ) (now : ℤ) : Database :=
  { db with
    changes := db.changes.insert ⟨channel, message, now⟩
    syncState := Function.update db.syncState channel
      (some ⟨db.changes.next, ((db.syncState channel).map SyncState.floor).getD 0⟩) }

def setRow (id channel : ℕ) (f : Row → Row) (now : ℤ) : Database :=
  { db with messages := db.messages.modify id f }.journal channel id now

/-- `UPDATE messages SET revision=revision+1 WHERE id=?`. -/
def bump (id : ℕ) (now : ℤ) : Database :=
  match db.messages.get id with
  | none => db
  | some row => db.setRow id row.channel Row.countUp now

def bumpAll (ids : List ℕ) (now : ℤ) : Database :=
  ids.foldl (fun db id => db.bump id now) db

def repliesTo (id : ℕ) : List ℕ :=
  (db.messages.toList.filter fun x => x.2.replyTo = some id).map Prod.fst

def commentsOf (id : ℕ) : List ℕ :=
  (db.messages.toList.filter fun x => x.2.threadRoot = some id).map Prod.fst

/-! ## Statements on messages -/

/-- A reply is to a message of the channel. -/
def replyInScope (row : Row) : Bool :=
  match row.replyTo with
  | none => true
  | some target => (db.messages.get target).any fun r => r.channel = row.channel

/-- A comment is under a message of the channel that is no comment. -/
def rootInScope (row : Row) : Bool :=
  match row.threadRoot with
  | none => true
  | some root => (db.messages.get root).any fun r => r.channel = row.channel ∧ r.threadRoot = none

/-- A new row under the next key, and its journal row. -/
def insertRow (row : Row) (now : ℤ) : Database :=
  { db with messages := db.messages.insert row }.journal row.channel db.messages.next now

/-- The comment triggers count up the root of a comment. -/
def bumpRoot (now : ℤ) : Option ℕ → Database
  | none => db
  | some root => db.bump root now

/-- `INSERT INTO messages`, which the scope triggers may refuse. -/
def insertMessage (row : Row) (now : ℤ) : Option Database :=
  if db.replyInScope row ∧ db.rootInScope row then
    some ((db.insertRow row now).bumpRoot now row.threadRoot)
  else none

/-- The `UPDATE` of an edit: the replies show the text, so they are counted up if it changed. -/
def editMessage (id : ℕ) (content : String) (now : ℤ) : Database :=
  match db.messages.get id with
  | none => db
  | some row =>
    let edited := db.setRow id row.channel (Row.rewrite content now) now
    if row.content = content then edited else edited.bumpAll (edited.repliesTo id) now

/-- A reply to a removed row loses the reference. -/
def forgetReply (id : ℕ) (row : Row) : Row :=
  if row.replyTo = some id then { row with replyTo := none } else row

/-- The row of a message goes, with everything that refers to it: its reactions and polls are
deleted with it, its attachments, the keys of its send and the replies to it lose the reference. -/
def detachRow (id : ℕ) : Database :=
  { db with
    messages := (db.messages.erase id).alter fun _ row => some (forgetReply id row)
    -- `ON DELETE CASCADE`.
    reactions := db.reactions.filter fun r => r.message ≠ id
    -- `ON DELETE SET NULL`: the file and the key of the send stay.
    attachments := db.attachments.map fun a =>
      if a.message = some id then { a with message := none } else a
    sendKeys := fun key => (db.sendKeys key).map fun k =>
      if k.message = some id then { k with message := none } else k
    -- Polls go with their message, options and votes with their poll.
    polls := db.polls.alter fun _ poll => if poll.message = id then none else some poll
    pollOptions := db.pollOptions.alter fun _ option =>
      if (db.polls.get option.poll).any fun poll => poll.message = id then none else some option
    votes := db.votes.filter fun v => (db.polls.get v.poll).all fun poll => poll.message ≠ id }

/-- `DELETE` of one row: the change is recorded before the row goes; then the replies that lost it
and the root of a comment are counted up. -/
def deleteRow (id : ℕ) (now : ℤ) : Database :=
  match db.messages.get id with
  | none => db
  | some row =>
    -- The replies are those of before: the row that goes takes the references with it.
    let detached := (db.journal row.channel id now).detachRow id
    (detached.bumpAll (db.repliesTo id) now).bumpRoot now row.threadRoot

/-- `DELETE FROM messages WHERE id=?`: the message, and its comments by the cascade. -/
def deleteMessage (id : ℕ) (now : ℤ) : Database :=
  (id :: db.commentsOf id).foldl (fun db id => db.deleteRow id now) db

/-! ## Statements on attached rows -/

def insertReaction (r : Reaction) (now : ℤ) : Database :=
  if r ∈ db.reactions then db
  else { db with reactions := db.reactions ++ [r] }.bump r.message now

def deleteReaction (r : Reaction) (now : ℤ) : Database :=
  if r ∈ db.reactions then
    { db with reactions := db.reactions.filter (· ≠ r) }.bump r.message now
  else db

/-- Marks attachments deleted that are not yet; the message of each, if it has one, is counted up.
-/
def deleteAttachments (p : Attachment → Bool) (now : ℤ) : Database :=
  { db with
    attachments := db.attachments.map fun a =>
      if p a ∧ a.deletedAt = none then { a with deletedAt := some now } else a
  }.bumpAll ((db.attachments.filter fun a => p a ∧ a.deletedAt = none).filterMap Attachment.message)
    now

/-- The votes of a user on a poll are replaced, and the poll is counted up. -/
def replaceVotes (poll user : ℕ) (options : List ℕ) : Database :=
  { db with
    votes := db.votes.filter (fun v => ¬ (v.poll = poll ∧ v.user = user)) ++
      options.map fun option => ⟨poll, option, user⟩
    polls := db.polls.modify poll fun p => { p with revision := p.revision + 1 } }

/-! ## What the statements leave alone -/

section Frames

variable {db : Database} {id channel k : ℕ} {now : ℤ} {f : Row → Row} {row : Row} {root : Option ℕ}

@[simp] theorem messages_journal : (db.journal channel id now).messages = db.messages := rfl

@[simp] theorem sendKeys_journal : (db.journal channel id now).sendKeys = db.sendKeys := rfl

@[simp] theorem sendKeys_setRow : (db.setRow id channel f now).sendKeys = db.sendKeys := rfl

@[simp] theorem messages_setRow : (db.setRow id channel f now).messages = db.messages.modify id f :=
    rfl

@[simp] theorem messages_insertRow : (db.insertRow row now).messages = db.messages.insert row := rfl

@[simp] theorem sendKeys_insertRow : (db.insertRow row now).sendKeys = db.sendKeys := rfl

theorem get_detachRow : (db.detachRow id).messages.get k =
    if k = id then none else (db.messages.get k).map (forgetReply id) := by
  rw [detachRow, Table.get_alter, Table.get_erase]
  split
  · rfl
  · cases db.messages.get k <;> rfl

theorem of_get_detachRow {row' : Row} (h : (db.detachRow id).messages.get k = some row') :
    ∃ row, db.messages.get k = some row ∧ forgetReply id row = row' := by
  rw [get_detachRow] at h
  split at h
  · cases h
  · exact Option.map_eq_some_iff.mp h

theorem bump_of_get (h : db.messages.get id = some row) :
    db.bump id now = db.setRow id row.channel Row.countUp now := by
  rw [bump, h]

theorem bump_of_none (h : db.messages.get id = none) : db.bump id now = db := by
  rw [bump, h]

theorem get_bump : (db.bump id now).messages.get k =
    if k = id then (db.messages.get k).map Row.countUp else db.messages.get k := by
  cases hget : db.messages.get id with
  | none =>
    rw [bump_of_none hget]
    split
    next hk => rw [hk, hget, Option.map_none]
    · rfl
  | some row => rw [bump_of_get hget, messages_setRow, Table.get_modify]

@[simp] theorem sendKeys_bump : (db.bump id now).sendKeys = db.sendKeys := by
  unfold bump
  split <;> rfl

@[simp] theorem sendKeys_bumpRoot : (db.bumpRoot now root).sendKeys = db.sendKeys := by
  cases root with
  | none => rfl
  | some root => exact sendKeys_bump

theorem get_bumpRoot_of_ne (h : root ≠ some k) :
    (db.bumpRoot now root).messages.get k = db.messages.get k := by
  cases root with
  | none => rfl
  | some root =>
    have hne : k ≠ root := fun hk => h (congrArg some hk.symm)
    exact get_bump.trans (if_neg hne)

end Frames

end Database

end Voxhold.Message
