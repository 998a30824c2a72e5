/-
# Voxhold.Community.Direct — messages of conversations

The write transactions on `conversation_messages`: direct sends, forwards and saved messages. The
key a client chose for a send is a column of the message's own row; there is no other record of it.
-/

import Mathlib.Data.List.Sort
import Voxhold.Lib.Indexed
import Voxhold.Lib.Trace
import Voxhold.Message.Operations

namespace Voxhold.Community

open Voxhold.Lib
open Voxhold.Message (Primitives PollInput Poll PollOption text texts number unix)

inductive Error where
  | forbidden | invalid | conflict
  | noRows
  /-- Any other error of the database, of a service that is used or of the file system. -/
  | other
deriving DecidableEq

/-! ## Requests -/

/-- Who wrote a forwarded message and when, with the names of the users it mentions. -/
structure ForwardReference where
  userID : ℕ
  username : String
  createdAt : ℤ
  mentionNames : List (ℕ × String)
deriving DecidableEq

/-- A list of attachments that was left out is not an empty one. -/
structure DirectInput where
  attachmentIDs : Option (List String)
  content : String
  clientMessageID : String
  poll : Option PollInput
  forward : Option ForwardReference
deriving DecidableEq

def DirectInput.ids (input : DirectInput) : List String :=
  input.attachmentIDs.getD []

/-- What the tables of users and members hold about a send. -/
structure Access where
  active : Bool
  member : Bool
  members : List ℕ
  saved : Bool
  blocked : List ℕ
deriving DecidableEq

/-- A call of `createDirect`. The clock, in nanoseconds, is read to check the poll, by the insert
and to check the poll again. -/
structure DirectRequest where
  access : Access
  conversation : ℕ
  author : ℕ
  input : DirectInput
  checkedAt : ℤ
  insertedAt : ℤ
  polledAt : ℤ

/-- The columns of the unique index. -/
structure DirectKey where
  conversation : ℕ
  author : ℕ
  clientMessageID : String
deriving DecidableEq

def DirectRequest.key (r : DirectRequest) : DirectKey :=
  ⟨r.conversation, r.author, r.input.clientMessageID⟩

/-- The content of a message that has attachments only, a paperclip. -/
def paperclip : String := "📎"

def checkPoll (f : Primitives) (now : ℤ) : Option PollInput → Except Error (Option PollInput)
  | none => .ok none
  | some p => match p.validate f now with
    | .ok p => .ok (some p)
    | .error _ => .error .invalid

/-- The content of a message: a poll without a text shows its question. -/
def DirectInput.body (input : DirectInput) (poll : Option PollInput) : String :=
  let content := trimSpace (match poll with
    | some p => if trimSpace input.content = "" then p.question else input.content
    | none => input.content)
  if content = "" ∧ input.ids ≠ [] then paperclip else content

/-- The checks before the transaction, and the request as it goes on. -/
def DirectInput.prepare (f : Primitives) (input : DirectInput) (now : ℤ) :
    Except Error DirectInput := do
  -- The poll is checked against the clock even if the request is a retry.
  let poll ← checkPoll f now input.poll
  let content := input.body poll
  if 10 < input.ids.length ∨ Char.ofNat 0 ∈ content.toList ∨ content = "" ∨ 5120 < content.length ∨
      input.clientMessageID.utf8ByteSize < 1 ∨ 64 < input.clientMessageID.utf8ByteSize then
    .error .invalid
  else .ok { input with content := content, poll := poll }

/-- `activeActor`, `conversationAccess`, the members and `canContact` for each of them. -/
def Access.require (a : Access) (author : ℕ) : Except Error Unit :=
  if ¬ a.active then .error .forbidden
  else if ¬ a.member then .error .forbidden
  -- Only the saved messages are a conversation with oneself.
  else if a.members.length < 2 ∧ ¬ a.saved then .error .forbidden
  else if a.members.any fun user => user ≠ author ∧ user ∈ a.blocked then .error .forbidden
  else .ok ()

/-! ## The fingerprint of a request -/

def ForwardReference.json (v : ForwardReference) : Json :=
  .obj ([("author".toList, .obj [("user_id".toList, number v.userID),
      ("username".toList, text v.username)]), ("created_at".toList, .num v.createdAt)] ++
    if v.mentionNames = [] then []
    else [("mention_names".toList,
      .obj (v.mentionNames.map fun x => (Nat.toDigits 10 x.1, text x.2)))])

def idsJson : Option (List String) → Json
  | none => .null
  | some ids => texts ids

def pollJson : Option PollInput → Json
  | none => .null
  | some p => p.json

def forwardJson : Option ForwardReference → Json
  | none => .null
  | some v => v.json

/-- A poll or a reference makes the encoding a longer one. -/
def DirectInput.json (input : DirectInput) : Json :=
  if input.poll.isSome ∨ input.forward.isSome then
    .arr [text input.content, idsJson input.attachmentIDs, pollJson input.poll,
      forwardJson input.forward]
  else .arr [text input.content, idsJson input.attachmentIDs]

def DirectInput.hash (f : Primitives) (input : DirectInput) : String :=
  f.sha256 input.json.marshal

/-- An attachment of the source: the id of the file, and what a copy of it would end in (the source
may be gone, the budget used up, the file unreadable). -/
structure SourceFile where
  id : String
  outcome : Except Error Unit

/-- A call of `forwardMessage` for a conversation. `destination` and `snapshot` are what the checks
of the two ends say. -/
structure ForwardRequest where
  destination : Except Error Unit
  snapshot : Except Error (String × ForwardReference × List SourceFile)
  direct : DirectRequest

/-- A message of the saved conversation of a user. `owner` is the owner of the conversation, if it
is a saved one. -/
structure SavedRequest where
  conversation : ℕ
  message : ℕ
  owner : Option ℕ
  user : ℕ
deriving DecidableEq

inductive Op where
  | createDirect (r : DirectRequest)
  | forward (r : ForwardRequest)
  | deleteSaved (r : SavedRequest)
  | savedNote (r : SavedRequest) (note : String)
  | upload (id : String) (conversation owner : ℕ)

/-! ## The tables -/

structure DirectRow where
  conversation : ℕ
  author : ℕ
  content : String
  clientMessageID : String
  requestHash : String
  createdAt : ℤ
  forwardData : Option String
  note : String
  revision : ℕ
deriving DecidableEq

def DirectRow.key (row : DirectRow) : DirectKey :=
  ⟨row.conversation, row.author, row.clientMessageID⟩

structure DirectAttachment where
  id : String
  conversation : ℕ
  owner : ℕ
  message : Option ℕ
  deletedAt : Option ℤ
deriving DecidableEq

def SavedRequest.selects (r : SavedRequest) (id : ℕ) (row : DirectRow) : Bool :=
  id = r.message ∧ row.conversation = r.conversation ∧ r.owner = some r.user

structure Conversations where
  messages : Indexed DirectRow DirectKey fun row => some row.key
  polls : Table Poll
  pollOptions : Table PollOption
  attachments : List DirectAttachment

structure DirectMessage where
  id : ℕ
  row : DirectRow
  attachments : List DirectAttachment
deriving DecidableEq

/-- What is sent to a user: the event with the message, or a notification. -/
inductive Emit where
  | message (user id : ℕ)
  | notification (user id : ℕ)
deriving DecidableEq

structure DirectSent where
  message : DirectMessage
  replayed : Bool
  emitted : List Emit
deriving DecidableEq

namespace Conversations

def empty : Conversations where
  messages := .empty
  polls := .empty
  pollOptions := .empty
  attachments := []

variable (db : Conversations)

/-! ## Sending -/

def attached (id : ℕ) : List DirectAttachment :=
  (db.attachments.filter fun a => a.message = some id).insertionSort fun a b => a.id ≤ b.id

def storePoll (f : Primitives) (message : ℕ) (now : ℤ) :
    Option PollInput → Except Error Conversations
  | none => .ok db
  | some input => match input.validate f now with
    | .error _ => .error .invalid
    | .ok p => .ok { db with
        polls := db.polls.insert ⟨message, p.question, p.multiple, p.anonymous, p.closesAt, 1⟩
        pollOptions :=
          p.options.foldl (fun t label => t.insert ⟨db.polls.next, label⟩) db.pollOptions }

def linkable (conversation owner : ℕ) (id : String) (a : DirectAttachment) : Bool :=
  a.id = id ∧ a.conversation = conversation ∧ a.owner = owner ∧ a.message = none ∧
    a.deletedAt = none

def linkAttachment (message conversation owner : ℕ) (id : String) : Conversations :=
  { db with attachments := db.attachments.map fun a =>
      if linkable conversation owner id a then { a with message := some message } else a }

def linkAttachments (message conversation owner : ℕ) (db : Conversations) :
    List String → Except Error Conversations
  | [] => .ok db
  | id :: ids =>
    if db.attachments.any (linkable conversation owner id) then
      linkAttachments message conversation owner
        (db.linkAttachment message conversation owner id) ids
    else .error .invalid

def newRow (f : Primitives) (r : DirectRequest) (input : DirectInput) : DirectRow where
  conversation := r.conversation
  author := r.author
  content := input.content
  clientMessageID := r.input.clientMessageID
  requestHash := input.hash f
  createdAt := unix r.insertedAt
  forwardData := input.forward.map fun v => v.json.marshal
  note := ""
  revision := 1

/-- Everyone in the conversation gets the message, and the others a notification. -/
def announce (r : DirectRequest) (id : ℕ) : List Emit :=
  r.access.members.flatMap fun user =>
    .message user id :: if user ≠ r.author then [.notification user id] else []

/-- The inserts of a new message. -/
def store (f : Primitives) (r : DirectRequest) (input : DirectInput) :
    Except Error (DirectSent × Conversations) :=
  if hfree : db.messages.Free (newRow f r input) then do
    let inserted := { db with messages := db.messages.insert (newRow f r input) hfree }
    let polled ← inserted.storePoll f db.messages.next r.polledAt input.poll
    let linked ← linkAttachments db.messages.next r.conversation r.author polled input.ids
    return (⟨⟨db.messages.next, newRow f r input, linked.attached db.messages.next⟩, false,
      announce r db.messages.next⟩, linked)
  else .error .other

def createDirect (f : Primitives) (r : DirectRequest) :
    Except Error (DirectSent × Conversations) := do
  let input ← r.input.prepare f r.checkedAt
  r.access.require r.author
  match db.messages.find r.key with
  | some (id, row) =>
    -- A retry: answered from the row, and nobody is told.
    if row.requestHash ≠ input.hash f then .error .conflict
    else .ok (⟨⟨id, row, db.attached id⟩, true, []⟩, db)
  | none => db.store f r input

/-! ## Forwarding -/

/-- The id of the copy of an attachment is derived from the request. -/
def copyID (f : Primitives) (r : DirectRequest) (i : ℕ) (id : String) : String :=
  String.ofList
    ((f.sha256 (toString r.author ++ ":" ++ r.input.clientMessageID ++ ":" ++ toString i ++
    ":conversation:" ++ toString r.conversation ++ ":" ++ id)).toList.take 32)

/-- The row of an uploaded or copied file, which belongs to no message yet. -/
def upload (id : String) (conversation owner : ℕ) : Except Error Conversations :=
  if db.attachments.any fun a => a.id = id then .error .other
  else .ok { db with attachments := db.attachments ++ [⟨id, conversation, owner, none, none⟩] }

/-- A copy that is there already is used again. -/
def copyAttachment (id : String) (conversation owner : ℕ) (outcome : Except Error Unit) :
    Except Error Conversations :=
  if db.attachments.any fun a =>
      a.id = id ∧ a.conversation = conversation ∧ a.owner = owner ∧ a.deletedAt = none then .ok db
  else outcome >>= fun _ => db.upload id conversation owner

/-- Copies the attachments from number `i` on. The copies made stay when a later one fails. -/
def copyAttachments (f : Primitives) (r : DirectRequest) (db : Conversations) :
    ℕ → List SourceFile → Except Error (List String) × Conversations
  | _, [] => (.ok [], db)
  | i, file :: files =>
    match db.copyAttachment (copyID f r i file.id) r.conversation r.author file.outcome with
    | .error e => (.error e, db)
    | .ok copied =>
      let (rest, db') := copyAttachments f r copied (i + 1) files
      (rest.map (copyID f r i file.id :: ·), db')

/-- The send a forward ends in, and the tables with the copies. -/
def forwardMessage (f : Primitives) (r : ForwardRequest) :
    Except Error DirectRequest × Conversations :=
  if r.direct.input.clientMessageID = "" ∨ 64 < r.direct.input.clientMessageID.utf8ByteSize then
    (.error .invalid, db)
  else match r.destination, r.snapshot with
    | .error e, _ | _, .error e => (.error e, db)
    | .ok _, .ok (content, reference, files) =>
      -- The copies are made before the transaction of the send and stay if it fails.
      let (ids, db') := copyAttachments f r.direct db 0 files
      (ids.map fun ids => { r.direct with input :=
        ⟨some ids, content, r.direct.input.clientMessageID, none, some reference⟩ }, db')

/-! ## Saved messages -/

def deleteSaved (r : SavedRequest) : Except Error Conversations :=
  if (db.messages.get r.message).any (r.selects r.message) then
    .ok { db with
      messages := db.messages.alter (fun id row => if r.selects id row then none else some row) (by
        intro id row row' h
        split at h
        · cases h
        · cases h
          rfl)
      -- The key goes with the row; polls and their options follow by the cascade.
      polls := db.polls.alter fun _ p => if p.message = r.message then none else some p
      pollOptions := db.pollOptions.alter fun _ option =>
        if (db.polls.get option.poll).any fun p => p.message = r.message then none else some option
      attachments := db.attachments.map fun a =>
        if a.message = some r.message then { a with message := none } else a }
  else .error .forbidden

def savedNote (r : SavedRequest) (note : String) : Except Error Conversations :=
  if 2000 < note.length then .error .invalid
  else if (db.messages.get r.message).any (r.selects r.message) then
    .ok { db with
      messages := db.messages.alter (fun id row => some (if r.selects id row then
          { row with note := note, revision := row.revision + 1 } else row)) (by
        intro id row row' h
        cases h
        split <;> rfl) }
  else .error .forbidden

/-! ## Operations and runs -/

/-- A failed transaction is rolled back. -/
def commit : Except Error Conversations → Conversations
  | .ok db' => db'
  | .error _ => db

/-- A send that was accepted for the tables it is made on. -/
def send (f : Primitives) : Except Error DirectRequest → Conversations
  | .ok r => db.commit ((db.createDirect f r).map Prod.snd)
  | .error _ => db

def apply (f : Primitives) (db : Conversations) : Op → Conversations
  | .createDirect r => db.send f (.ok r)
  | .forward r => (db.forwardMessage f r).2.send f (db.forwardMessage f r).1
  | .deleteSaved r => db.commit (db.deleteSaved r)
  | .savedNote r note => db.commit (db.savedNote r note)
  | .upload id conversation owner => db.commit (db.upload id conversation owner)

def run (f : Primitives) (db : Conversations) (ops : List Op) : Conversations :=
  ops.foldl (fun db op => db.apply f op) db

end Conversations

end Voxhold.Community
