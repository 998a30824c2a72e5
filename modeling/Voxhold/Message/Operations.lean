/-
# Voxhold.Message.Operations — the write transactions on channel messages

Every operation that writes to the tables of `Voxhold.Message.Store`: sends of all kinds, edits,
deletions, reactions, votes, uploads, removed attachments and journal pruning. Each runs in one
write transaction and fails without a trace or ends in the tables it returns.
-/

import Voxhold.Lib.Json
import Voxhold.Lib.Text
import Voxhold.Message.Store

namespace Voxhold.Message

open Voxhold.Lib

inductive Error where
  | forbidden | channelNotFound | textChannelRequired | idempotencyConflict | messageNotFound
  | replyInvalid | pollInvalid | editForbidden | deleteForbidden | forwardEdit
  | reactionInvalid | reactionLimit | invalid | conflict
  | slowmode (retryAfter : ℤ)
  | database
deriving DecidableEq

/-! ## What is found about the caller -/

inductive Role where
  | owner | admin | member
deriving DecidableEq

inductive ChannelKind where
  | text | voice | news
deriving DecidableEq

structure ChannelRow where
  kind : ChannelKind
  isNews : Bool
  commentsEnabled : Bool
  slowmodeSeconds : ℕ
deriving DecidableEq

/-- The caller's membership in the server, the channel if the server has it, and what the access and
permission tables hold about the two. -/
structure Standing where
  member : Option Role
  channel : Option ChannelRow
  accessible : Bool
  publisher : Bool
  publish : Bool
  manageMessages : Bool
  timedOut : Bool
deriving DecidableEq

namespace Standing

def requireServerMember (s : Standing) : Except Error Role :=
  match s.member with
  | none => .error .forbidden
  | some role => .ok role

def requireMessageChannel (s : Standing) : Except Error ChannelRow :=
  match s.channel with
  | none => .error .channelNotFound
  | some ch =>
    if ¬ s.accessible then .error .forbidden
    else if ch.kind ≠ .text ∧ ch.kind ≠ .voice then .error .textChannelRequired
    else .ok ch

/-- The two checks every operation starts with. -/
def access (s : Standing) : Except Error (Role × ChannelRow) := do
  let role ← s.requireServerMember
  let ch ← s.requireMessageChannel
  return (role, ch)

def requirePublish (s : Standing) : Except Error Unit :=
  if s.publish then .ok () else .error .forbidden

/-- A plain member who may write to a text channel. -/
def writer (slowmodeSeconds : ℕ) : Standing where
  member := some .member
  channel := some ⟨.text, false, false, slowmodeSeconds⟩
  accessible := true
  publisher := false
  publish := true
  manageMessages := false
  timedOut := false

end Standing

/-! ## Requests -/

/-- Library functions the send path uses: the digest, and case folding, for which there are no
tables. -/
structure Primitives where
  sha256 : String → String
  toLower : String → String

/-- Functions that leave every text as it is, to run the model with. -/
def Primitives.verbatim : Primitives := ⟨id, id⟩

structure PollInput where
  question : String
  options : List String
  multiple : Bool
  anonymous : Bool
  closesAt : ℤ
deriving DecidableEq

structure CreateInput where
  poll : Option PollInput
  attachmentIDs : List String
  threadRootID : Option ℕ
  content : String
  clientMessageID : String
  replyToMessageID : Option ℕ
deriving DecidableEq

structure ForwardInput where
  sourceConversationID : ℕ
  sourceServerID : ℕ
  sourceChannelID : ℕ
  sourceMessageID : ℕ
deriving DecidableEq

/-- A call of `CreateReferenced`. `snapshot` is what `forwardSnapshot` finds for a forwarded
message, its text and the encoded reference. The clock, in nanoseconds, is read for slow mode, by
the insert and for the poll. -/
structure CreateRequest where
  standing : Standing
  channel : ℕ
  author : ℕ
  input : CreateInput
  forward : Option ForwardInput
  snapshot : Except Error (String × String)
  checkedAt : ℤ
  insertedAt : ℤ
  polledAt : ℤ

def CreateRequest.key (r : CreateRequest) : SendID :=
  ⟨r.channel, r.author, r.input.clientMessageID⟩

/-- A text without a key. -/
def CreateRequest.plain (s : Standing) (channel author : ℕ) (content : String) (now : ℤ) :
    CreateRequest where
  standing := s
  channel := channel
  author := author
  input := ⟨none, [], none, content, "", none⟩
  forward := none
  snapshot := .error .forbidden
  checkedAt := now
  insertedAt := now
  polledAt := now

def second : ℤ := 1000000000

def unix (now : ℤ) : ℤ := now / second

/-! ## The fingerprint of a request -/

def text (s : String) : Json := .str s.toList

def number (n : ℕ) : Json := .num n

def optional : Option ℕ → Json
  | none => .null
  | some n => number n

def texts (ids : List String) : Json := .arr (ids.map text)

def PollInput.json (p : PollInput) : Json :=
  .obj [("question".toList, text p.question), ("options".toList, texts p.options),
    ("multiple".toList, .bool p.multiple), ("anonymous".toList, .bool p.anonymous),
    ("closes_at".toList, .num p.closesAt)]

def ForwardInput.json (f : ForwardInput) : Json :=
  if 0 < f.sourceConversationID then
    .arr [text "conversation", number f.sourceConversationID, number f.sourceMessageID]
  else .arr [number f.sourceServerID, number f.sourceChannelID, number f.sourceMessageID]

/-- The kind of a request and the text that is hashed, from the text alone up to a thread root. -/
def baseSource (input : CreateInput) : Option ForwardInput → RequestKind × String
  | some f =>
    -- The text comes from the source of the forward and is not hashed.
    let source := f.json.marshal
    (.forward, if input.attachmentIDs = [] then source
      else (Json.arr [text source, texts input.attachmentIDs]).marshal)
  | none =>
    match input.replyToMessageID with
    | none => (.message, input.content)
    | some reply => (.reply, (Json.arr [text input.content, number reply]).marshal)

def threadSource (input : CreateInput) (base : RequestKind × String) : RequestKind × String :=
  match input.threadRootID with
  | none => base
  | some root => (.reply, (Json.obj [("content".toList, text input.content),
      ("reply".toList, optional input.replyToMessageID), ("root".toList, number root),
      ("type".toList, text "thread")]).marshal)

def attachmentSource (input : CreateInput) (forward : Option ForwardInput)
    (base : RequestKind × String) : RequestKind × String :=
  if input.attachmentIDs ≠ [] ∧ forward = none then
    (.reply, (Json.obj [("content".toList, text input.content),
      ("ids".toList, texts input.attachmentIDs), ("reply".toList, optional input.replyToMessageID),
      ("root".toList, optional input.threadRootID), ("type".toList, text "attachment")]).marshal)
  else base

def pollSource (input : CreateInput) (base : RequestKind × String) : RequestKind × String :=
  match input.poll with
  | none => base
  | some poll =>
    -- What would have been hashed becomes a string: its shape is no longer seen.
    (.reply, (Json.arr [text base.2, poll.json]).marshal)

def requestSource (input : CreateInput) (forward : Option ForwardInput) : RequestKind × String :=
  pollSource input (attachmentSource input forward (threadSource input (baseSource input forward)))

def requestHash (f : Primitives) (input : CreateInput) (forward : Option ForwardInput) :
    RequestKind × String :=
  ((requestSource input forward).1, f.sha256 (requestSource input forward).2)

/-! ## Sending a message -/

structure Sent where
  id : ℕ
  row : Row
  replayed : Bool
deriving DecidableEq

/-- The loop of `PollInput.Validate` over the options: each is trimmed, and checked against those
before it. -/
def validateOptions (f : Primitives) : List String → List String → Option (List String)
  | _, [] => some []
  | seen, v :: rest =>
    let v := trimSpace v
    if v = "" ∨ 120 < v.length ∨ f.toLower v ∈ seen then none
    else (validateOptions f (f.toLower v :: seen) rest).map (v :: ·)

def PollInput.validate (f : Primitives) (p : PollInput) (now : ℤ) : Except Error PollInput :=
  let question := trimSpace p.question
  if question.length < 1 ∨ 300 < question.length ∨ p.options.length < 2 ∨ 10 < p.options.length ∨
      p.closesAt ≤ unix now then .error .pollInvalid
  else match validateOptions f [] p.options with
    | none => .error .pollInvalid
    | some options => .ok { p with question := question, options := options }

namespace Database

variable (db : Database)

def findMessage (channel id : ℕ) : Option Row :=
  (db.messages.get id).filter fun row => row.channel = channel

/-- The answer to a request whose key is known. -/
def replay (f : Primitives) (r : CreateRequest) (k : SendKey) : Except Error Sent :=
  if k.contentHash ≠ (requestHash f r.input r.forward).2 ∨
      k.kind ≠ (requestHash f r.input r.forward).1 then .error .idempotencyConflict
  else match k.message with
    -- The key outlives its message.
    | none => .error .messageNotFound
    | some id =>
      match db.findMessage r.channel id with
      | none => .error .messageNotFound
      | some row => .ok ⟨id, row, true⟩

/-- The row of the key of a request, if it has a key. -/
def findKey (r : CreateRequest) : Option SendKey :=
  if r.input.clientMessageID = "" then none else db.sendKeys r.key

/-- In a news channel posts are for publishers, and a reply is a comment under its post. -/
def requireNewsWrite (s : Standing) (role : Role) (ch : ChannelRow) (channel : ℕ) :
    Option ℕ → Except Error (Option ℕ)
  | none =>
    if ch.isNews ∧ ¬ (role = .owner ∨ role = .admin ∨ s.publisher) then .error .forbidden
    else .ok none
  | some reply =>
    if ¬ ch.isNews then .ok none
    else if ¬ ch.commentsEnabled then .error .forbidden
    else match db.findMessage channel reply with
      | none => .error .replyInvalid
      | some row => .ok (some (row.threadRoot.getD reply))

/-- The newest message of a user in a channel that is still there. -/
def lastMessage (channel user : ℕ) : Option (ℕ × Row) :=
  (db.messages.toList.filter fun x => x.2.channel = channel ∧ x.2.author = user).getLast?

/-- How long the user has to wait, in nanoseconds. -/
def checkSlowmode (role : Role) (ch : ChannelRow) (channel user : ℕ) (now : ℤ) : ℤ :=
  if ch.slowmodeSeconds = 0 ∨ role = .owner ∨ role = .admin then 0
  else match db.lastMessage channel user with
    -- Nothing left of the user: no wait, whatever was deleted.
    | none => 0
    | some (_, row) =>
      let wait := (row.createdAt + ch.slowmodeSeconds) * second - now
      if wait < 0 then 0 else wait

def requireSlowmode (role : Role) (ch : ChannelRow) (channel user : ℕ) (now : ℤ) :
    Except Error Unit :=
  if 0 < db.checkSlowmode role ch channel user now then
    .error (.slowmode (db.checkSlowmode role ch channel user now))
  else .ok ()

/-- The thread a request names is one of the channel, and a reply in it stays in it. -/
def requireThread (ch : ChannelRow) (channel : ℕ) (reply : Option ℕ) (newsRoot : Option ℕ) :
    Option ℕ → Except Error (Option ℕ)
  | none => .ok newsRoot
  | some root =>
    match (db.findMessage channel root).filter fun row => row.threadRoot = none with
    | none => .error .replyInvalid
    | some _ =>
      if ch.kind = .text ∧ (¬ ch.isNews ∨ ch.commentsEnabled) then
        match reply with
        | none => .ok (some root)
        | some target =>
          if (db.findMessage channel target).any fun row =>
              target = root ∨ row.threadRoot = some root then .ok (some root)
          else .error .replyInvalid
      else .error .replyInvalid

def requireReply (channel : ℕ) : Option ℕ → Except Error Unit
  | none => .ok ()
  | some target => if (db.findMessage channel target).isSome then .ok () else .error .replyInvalid

/-- The text of the message, and the reference of a forwarded one. -/
def forwarded (r : CreateRequest) : Except Error (String × Option String) :=
  match r.forward with
  | none => .ok (r.input.content, none)
  | some _ => r.snapshot.map fun x => (x.1, some x.2)

/-- The checks of a new message, in their order, and the row to insert. -/
def newRow (r : CreateRequest) (role : Role) (ch : ChannelRow) : Except Error Row := do
  let newsRoot ← db.requireNewsWrite r.standing role ch r.channel r.input.replyToMessageID
  r.standing.requirePublish
  db.requireSlowmode role ch r.channel r.author r.checkedAt
  let root ← db.requireThread ch r.channel r.input.replyToMessageID newsRoot r.input.threadRootID
  db.requireReply r.channel r.input.replyToMessageID
  let (content, forwardData) ← forwarded r
  return { channel := r.channel, author := r.author, content := content,
           createdAt := unix r.insertedAt, editedAt := none, revision := 1,
           replyTo := r.input.replyToMessageID, replyToOriginal := r.input.replyToMessageID,
           forwardData := forwardData, threadRoot := root }

def storePoll (f : Primitives) (message : ℕ) (now : ℤ) : Option PollInput → Except Error Database
  | none => .ok db
  | some input => do
    let p ← input.validate f now
    return { db with
      polls := db.polls.insert ⟨message, p.question, p.multiple, p.anonymous, p.closesAt, 1⟩
      pollOptions :=
        p.options.foldl (fun t label => t.insert ⟨db.polls.next, label⟩) db.pollOptions }

def linkable (channel owner : ℕ) (id : String) (a : Attachment) : Bool :=
  a.id = id ∧ a.channel = channel ∧ a.owner = owner ∧ a.message = none ∧ a.deletedAt = none

def linkAttachment (message channel owner : ℕ) (id : String) : Database :=
  { db with attachments := db.attachments.map fun a =>
      if linkable channel owner id a then { a with message := some message } else a }

def linkAttachments (message channel owner : ℕ) (db : Database) :
    List String → Except Error Database
  | [] => .ok db
  | id :: ids =>
    if db.attachments.any (linkable channel owner id) then
      linkAttachments message channel owner (db.linkAttachment message channel owner id) ids
    else .error .replyInvalid

/-- The key of a request is kept, if it has one. -/
def storeKey (f : Primitives) (r : CreateRequest) (id : ℕ) : Database :=
  if r.input.clientMessageID = "" then db
  else
    let (kind, contentHash) := requestHash f r.input r.forward
    { db with sendKeys := Function.update db.sendKeys r.key (some ⟨contentHash, some id, kind⟩) }

/-- The inserts of a new message. -/
def store (f : Primitives) (r : CreateRequest) (row : Row) : Except Error (Sent × Database) :=
  match db.insertMessage row (unix r.insertedAt) with
  | none => .error .database
  | some inserted => do
    let polled ← inserted.storePoll f db.messages.next r.polledAt r.input.poll
    let linked ← polled.linkAttachments db.messages.next r.channel r.author r.input.attachmentIDs
    return (⟨db.messages.next, row, false⟩, linked.storeKey f r db.messages.next)

def createReferenced (f : Primitives) (r : CreateRequest) : Except Error (Sent × Database) := do
  let (role, ch) ← r.standing.access
  -- A key that is known answers before anything about the message is checked.
  match db.findKey r with
  | some k => (db.replay f r k).map fun sent => (sent, db)
  | none => db.newRow r role ch >>= db.store f r

/-! ## Editing and deleting -/

/-- In a news channel a post is edited by publishers only, a comment by its author. -/
def requireNewsEdit (s : Standing) (role : Role) (ch : ChannelRow) (channel id : ℕ) :
    Except Error Unit :=
  if (db.findMessage channel id).bind Row.threadRoot = none then
    (db.requireNewsWrite s role ch channel none).map fun _ => ()
  else .ok ()

def update (s : Standing) (channel id user : ℕ) (content : String) (now : ℤ) :
    Except Error Database := do
  let (role, ch) ← s.access
  s.requirePublish
  db.requireNewsEdit s role ch channel id
  match db.findMessage channel id with
  | none => .error .messageNotFound
  | some row =>
    if row.forwardData.isSome then .error .forwardEdit
    else if row.author ≠ user then .error .editForbidden
    else .ok (db.editMessage id content (unix now))

def delete (s : Standing) (channel id user : ℕ) (now : ℤ) : Except Error Database := do
  let (role, _) ← s.access
  match db.findMessage channel id with
  | none => .error .messageNotFound
  | some row =>
    if row.author ≠ user ∧ ¬ (role = .owner ∨ role = .admin ∨ s.manageMessages) then
      .error .deleteForbidden
    else .ok (db.deleteMessage id (unix now))

/-! ## Reactions -/

def reactionEmoji : List String :=
  ["❤️", "👍", "👎", "😂", "🤣", "🔥", "🤔", "😁", "😢", "😭", "😮", "😱", "🤯", "🥰", "😍", "😎",
   "🤩", "🥳", "😇", "🙂", "🙃", "😉", "😊", "😋", "😘", "😴", "🤤", "🤨", "😐", "😑", "😏", "😒",
   "😔", "😕", "🙁", "☹️", "😫", "😩", "😤", "😡", "🤬", "😳", "🥺", "🥹", "🤗", "🤫", "🤭", "🫡",
   "🫠", "🤡", "💀", "👻", "👀", "🧠", "💯", "✅", "❌", "⚡", "⭐", "🌟", "🎉", "🎊", "🎁", "💎",
   "🏆", "🥇", "🚀", "🌈", "☀️", "🌙", "☕", "🍿", "🍰", "🍕", "🍓", "🍉", "🌹", "💐", "🦋", "🐱",
   "🐶", "🐸", "🦄", "🐝", "🤝", "👏", "🙌", "👐", "🤲", "🙏", "💪", "✊", "👊", "✌️", "🤞", "🤟",
   "🤘", "👌", "🤌", "🫶", "🫰", "👋"]

/-- A message has at most twenty different reactions. -/
def reactionsFull (id : ℕ) (emoji : String) : Bool :=
  ¬ (db.reactions.any fun r => r.message = id ∧ r.emoji = emoji) ∧
    20 ≤ ((db.reactions.filter fun r => r.message = id).map Reaction.emoji).dedup.length

def setReaction (s : Standing) (channel id user : ℕ) (emoji : String) (active : Bool) (now : ℤ) :
    Except Error Database :=
  if emoji ∉ reactionEmoji then .error .reactionInvalid
  else do
    let _ ← s.access
    if (db.findMessage channel id).isNone then .error .messageNotFound
    else if ¬ active then .ok (db.deleteReaction ⟨id, emoji, user⟩ (unix now))
    else if s.timedOut then .error .forbidden
    else if db.reactionsFull id emoji then .error .reactionLimit
    else .ok (db.insertReaction ⟨id, emoji, user⟩ (unix now))

/-! ## Poll votes -/

/-- `vote`, for a poll on a channel message. -/
def vote (accessible : Bool) (poll user : ℕ) (options : List ℕ) (now : ℤ) : Except Error Database :=
  if 10 < options.length then .error .invalid
  else match db.polls.get poll with
  | none => .error .database
  | some p =>
    if (db.messages.get p.message).isNone then .error .database
    else if ¬ accessible then .error .forbidden
    else if p.closesAt ≤ unix now then .error .conflict
    else if ¬ p.multiple ∧ 1 < options.length then .error .invalid
    else if ¬ (options.all fun id => (db.pollOptions.get id).any fun o => o.poll = poll) ∨
        ¬ options.Nodup then .error .invalid
    -- Neither the message nor the journal is written.
    else .ok (db.replaceVotes poll user options)

/-! ## Attachments -/

/-- The row of an uploaded or copied file, which belongs to no message yet. -/
def upload (id : String) (channel owner : ℕ) (file : FileInfo) : Except Error Database :=
  if db.attachments.any fun a => a.id = id then .error .database
  else .ok { db with attachments := db.attachments ++ [⟨id, channel, owner, none, none, file⟩] }

def cleanup (id : String) (now : ℤ) : Database :=
  db.deleteAttachments (fun a => a.id = id) (unix now)

/-- A file that is linked to no message, and that no scheduled message waits for, is marked deleted.
One that is deleted already keeps its time. -/
def claimAbandoned (id : String) (scheduled : Bool) (now : ℤ) : Database :=
  db.deleteAttachments (fun a => a.id = id ∧ a.message = none ∧ ¬ scheduled) (unix now)

/-! ## Pruning the journal -/

/-- How many of the newest journal rows are kept whatever their age. -/
def journalLimit : ℕ := 100000

/-- The newest sequence number that is still in the journal. -/
def lastSequence : ℕ :=
  (db.changes.toList.getLast?.map Prod.fst).getD 0

/-- The journal rows of one batch: the 500 oldest that are too old or too many. -/
def expired (cutoff : ℤ) : List (ℕ × Change) :=
  (db.changes.toList.filter fun x =>
    x.2.createdAt < cutoff ∨ x.1 + journalLimit ≤ db.lastSequence).take 500

/-- The highest sequence number of a batch in a channel, if the batch has one there. -/
def batchFloor (batch : List (ℕ × Change)) (channel : ℕ) : Option ℕ :=
  ((batch.filter fun x => x.2.channel = channel).map Prod.fst).max?

def pruneChangeBatch (now : ℤ) : Database :=
  let batch := db.expired (unix now - 24 * 60 * 60)
  { db with
    syncState := fun channel => match batchFloor batch channel with
      | none => db.syncState channel
      | some floor => (db.syncState channel).map fun s => { s with floor := max s.floor floor }
    -- Everything of a channel up to its new floor goes, in the batch or not.
    changes := db.changes.alter fun sequence change => match batchFloor batch change.channel with
      | none => some change
      | some floor => if sequence ≤ floor then none else some change }

end Database

/-! ## Operations and runs -/

inductive Op where
  | create (r : CreateRequest)
  | update (s : Standing) (channel id user : ℕ) (content : String) (now : ℤ)
  | delete (s : Standing) (channel id user : ℕ) (now : ℤ)
  | setReaction (s : Standing) (channel id user : ℕ) (emoji : String) (active : Bool) (now : ℤ)
  | vote (accessible : Bool) (poll user : ℕ) (options : List ℕ) (now : ℤ)
  | upload (id : String) (channel owner : ℕ) (file : FileInfo)
  | cleanup (id : String) (now : ℤ)
  | claimAbandoned (id : String) (scheduled : Bool) (now : ℤ)
  | prune (now : ℤ)

namespace Database

/-- A failed transaction is rolled back. -/
def commit (db : Database) : Except Error Database → Database
  | .ok db' => db'
  | .error _ => db

def apply (f : Primitives) (db : Database) : Op → Database
  | .create r => db.commit ((db.createReferenced f r).map Prod.snd)
  | .update s channel id user content now => db.commit (db.update s channel id user content now)
  | .delete s channel id user now => db.commit (db.delete s channel id user now)
  | .setReaction s channel id user emoji active now =>
    db.commit (db.setReaction s channel id user emoji active now)
  | .vote accessible poll user options now => db.commit (db.vote accessible poll user options now)
  | .upload id channel owner file => db.commit (db.upload id channel owner file)
  | .cleanup id now => db.cleanup id now
  | .claimAbandoned id scheduled now => db.claimAbandoned id scheduled now
  | .prune now => db.pruneChangeBatch now

def run (f : Primitives) (db : Database) (ops : List Op) : Database :=
  ops.foldl (fun db op => db.apply f op) db

end Database

end Voxhold.Message
