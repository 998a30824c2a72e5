/-
# Voxhold.Community.Scheduled — messages that are sent later

The jobs of `scheduled_messages` and the worker: `ProcessDue` looks for each due job whether its
message is there, sends it, and marks the job. Between any two of these statements other requests
are served, and the worker may stop for good (`Event.stop`); `workMu` excludes only schedule,
reschedule and cancel.
-/

import Voxhold.Community.DirectSends
import Voxhold.Message.Writes

namespace Voxhold.Community

open Voxhold.Lib
open Voxhold.Message (Primitives PollInput CreateInput CreateRequest Standing unix second)

/-! ## Sending to a channel through the service -/

/-- Why a send failed: an error of this package, one of the message repository, or one of the checks
of the message service. -/
inductive SendError where
  | community (e : Error)
  | message (e : Message.Error)
  | contentInvalid | contentRequired | contentTooLong | clientMessageIDInvalid
deriving DecidableEq

def normalizeContent (poll : Option PollInput) (ids : List String) (content : String) : String :=
  let content := trimSpace content
  let content := if content = "" then (poll.map PollInput.question).getD "" else content
  if content = "" ∧ ids ≠ [] then paperclip else content

def normalize (i : CreateInput) : CreateInput :=
  { i with content := normalizeContent i.poll i.attachmentIDs i.content }

/-- The characters of a client message id. -/
def isKeyChar (c : Char) : Bool :=
  c.isAlphanum ∨ c = '-' ∨ c = '_'

def validatePoll (f : Primitives) (now : ℤ) : Option PollInput → Except SendError (Option PollInput)
  | none => .ok none
  | some p => match p.validate f now with
    | .ok p => .ok (some p)
    | .error e => .error (.message e)

/-- `CreateInput.Validate`, which also trims the poll. -/
def validate (f : Primitives) (now : ℤ) (i : CreateInput) : Except SendError CreateInput :=
  if Char.ofNat 0 ∈ i.content.toList then .error .contentInvalid
  else do
    let poll ← validatePoll f now i.poll
    if i.threadRootID = some 0 ∨ 10 < i.attachmentIDs.length ∨ i.replyToMessageID = some 0 then
      .error (.message .replyInvalid)
    else if 64 < i.clientMessageID.utf8ByteSize ∨ ¬ i.clientMessageID.toList.all isKeyChar then
      .error .clientMessageIDInvalid
    else if i.content = "" ∧ i.attachmentIDs = [] then .error .contentRequired
    else if 5120 < i.content.length then .error .contentTooLong
    else .ok { i with poll := poll }

/-! ## Jobs -/

inductive DestinationKind where
  | channel | conversation
deriving DecidableEq

structure Destination where
  kind : DestinationKind
  id : ℕ
deriving DecidableEq

inductive Status where
  | pending | sent | failed | cancelled
deriving DecidableEq

structure Job where
  user : ℕ
  destination : Destination
  payload : DirectInput
  sendAt : ℤ
  status : Status
  error : String
  attempts : ℕ
  nextAttemptAt : ℤ
deriving DecidableEq

def Job.key (job : Job) : Option (ℕ × String) :=
  if job.payload.clientMessageID = "" then none else some (job.user, job.payload.clientMessageID)

/-- The client message id of the message a job sends. -/
def scheduleKey (id : ℕ) : String :=
  "schedule-" ++ String.ofList (Nat.toDigits 10 id)

structure Work where
  id : ℕ
  user : ℕ
  destination : Destination
  payload : DirectInput
  attempts : ℕ
deriving DecidableEq

def Job.work (id : ℕ) (job : Job) : Work :=
  ⟨id, job.user, job.destination, job.payload, job.attempts⟩

/-- Where the worker is with the first of its jobs: about to look for the message, to mark the job
as sent because it is there, to send it, or to mark the job after the send. -/
inductive Phase where
  | check
  | recover
  | send
  | mark (status : Status) (problem : String) (nextAttempt : ℤ)
deriving DecidableEq

structure Worker where
  now : ℤ
  work : List Work
  phase : Phase
deriving DecidableEq

/-- On to the next job, if there is one. -/
def Worker.advance (w : Worker) : Option Worker :=
  if w.work.tail = [] then none else some ⟨w.now, w.work.tail, .check⟩

structure Tables where
  channels : Message.Database
  conversations : Conversations

structure Service where
  tables : Tables
  jobs : Indexed Job (ℕ × String) Job.key
  worker : Option Worker

/-! ## Requests -/

/-- A job as a client asks for it, and what is found about its sender and its destination. -/
structure ScheduleRequest where
  user : ℕ
  destination : Destination
  payload : DirectInput
  sendAt : ℤ
  reachable : Except Error Unit
  active : Bool
  now : ℤ
  yearLater : ℤ

/-- What a send of the worker finds, and how it ends if something fails: `fault` is an error before
the transaction is committed, `lost` that the context was over by then. -/
structure Found where
  reachable : Except Error Unit
  standing : Standing
  access : Access
  checkedAt : ℤ
  insertedAt : ℤ
  polledAt : ℤ
  fault : Bool
  lost : Bool

inductive Event where
  | schedule (r : ScheduleRequest)
  | reschedule (id : ℕ) (r : ScheduleRequest)
  | cancel (id user : ℕ)
  /-- Any operation on channel messages, by anyone. -/
  | channel (op : Message.Op)
  /-- Any operation on conversations, by anyone. -/
  | conversation (op : Op)
  | process (now : ℤ)
  | step (found : Found)
  | stop

/-! ## Scheduling -/

/-- A job with another payload, destination and time. Its key stays. -/
def Job.replan (payload : DirectInput) (r : ScheduleRequest) (job : Job) : Job :=
  ⟨job.user, r.destination, { payload with clientMessageID := job.payload.clientMessageID },
    r.sendAt, .pending, "", 0, 0⟩

/-- A job that is still pending is marked. -/
def Job.mark (status : Status) (problem : String) (nextAttempt : ℤ) (job : Job) : Job :=
  if job.status = .pending then
    { job with status := status, error := problem, attempts := job.attempts + 1,
               nextAttemptAt := nextAttempt }
  else job

theorem Job.key_mark (status : Status) (problem : String) (nextAttempt : ℤ) (job : Job) :
    (Job.mark status problem nextAttempt job).key = job.key := by
  unfold Job.mark
  split <;> rfl

namespace Tables

/-- An attachment that may be used by a job is one that could be linked to its message. -/
def usable (t : Tables) (user : ℕ) (destination : Destination) (id : String) : Bool :=
  match destination.kind with
  | .channel => t.channels.attachments.any (Message.Database.linkable destination.id user id)
  | .conversation => t.conversations.attachments.any (Conversations.linkable destination.id user id)

/-- The message of a job is there: its key is. -/
def delivered (t : Tables) (user : ℕ) (destination : Destination) (key : String) : Bool :=
  match destination.kind with
  | .channel => (t.channels.sendKeys ⟨destination.id, user, key⟩).isSome
  | .conversation => (t.conversations.messages.find ⟨destination.id, user, key⟩).isSome

end Tables

/-- The payload of a job as a send to a channel. -/
def DirectInput.toChannel (p : DirectInput) : CreateInput :=
  ⟨p.poll, p.ids, none, p.content, p.clientMessageID, none⟩

namespace Service

def empty : Service where
  tables := ⟨.empty, .empty⟩
  jobs := .empty
  worker := none

variable (s : Service)

/-- The payload after the checks, whichever operation makes them. -/
def validateSchedule (f : Primitives) (r : ScheduleRequest) (payload : DirectInput) :
    Except Error DirectInput :=
  if r.sendAt ≤ unix r.now ∨ r.yearLater < r.sendAt then .error .invalid
  else do
    r.reachable
    match validate f r.now (normalize payload.toChannel) with
    | .error _ => .error .invalid
    | .ok input =>
      if (payload.poll.any fun p => p.closesAt ≤ r.sendAt) ∨
          ¬ payload.ids.all (s.tables.usable r.user r.destination) then .error .invalid
      else .ok { payload with content := input.content, poll := input.poll }

/-- The payload as `schedule` compares it with the one of an earlier request. -/
def trimmed (p : DirectInput) : DirectInput :=
  let poll := p.poll.map fun q =>
    { q with question := trimSpace q.question, options := q.options.map trimSpace }
  { p with poll := poll, content := normalizeContent poll p.ids p.content }

def existing (user : ℕ) (p : DirectInput) : Option (ℕ × Job) :=
  if p.clientMessageID = "" then none else s.jobs.find (user, p.clientMessageID)

def schedule (f : Primitives) (r : ScheduleRequest) : Except Error (ℕ × Service) :=
  if 64 < r.payload.clientMessageID.utf8ByteSize then .error .invalid
  else
    let payload := trimmed r.payload
    match s.existing r.user payload with
    | some (id, job) =>
      -- The same request again: whatever became of the job, it is the answer.
      if job.destination ≠ r.destination ∨ job.sendAt ≠ r.sendAt ∨ job.payload ≠ payload then
        .error .conflict
      else .ok (id, s)
    | none => do
      let payload ← s.validateSchedule f r payload
      if ¬ r.active then .error .forbidden
      else
        let job : Job := ⟨r.user, r.destination, payload, r.sendAt, .pending, "", 0, 0⟩
        if hfree :
          s.jobs.Free job then .ok (s.jobs.next, { s with jobs := s.jobs.insert job hfree })
        else .error .other

/-- Changes one job, but not whose it is nor its key. -/
def setJob (id : ℕ) (g : Job → Job) (hg : ∀ job, (g job).key = job.key) : Service :=
  { s with jobs := s.jobs.alter (fun i job => some (if i = id then g job else job)) (by
      intro i job job' h
      cases h
      split
      · exact hg job
      · rfl) }

def editable (id user : ℕ) : Option Job :=
  (s.jobs.get id).filter fun job => job.user = user ∧ (job.status = .pending ∨ job.status = .failed)

def reschedule (f : Primitives) (id : ℕ) (r : ScheduleRequest) : Except Error Service :=
  match s.editable id r.user with
  | none => .error .noRows
  | some original =>
    if r.payload.clientMessageID ≠ "" ∧
      r.payload.clientMessageID ≠ original.payload.clientMessageID then .error .conflict
    else do
      -- The key of a job cannot be changed, so it is put back before the checks.
      let payload ← s.validateSchedule f r
        { r.payload with clientMessageID := original.payload.clientMessageID }
      if ¬ r.active then .error .forbidden
      else .ok (s.setJob id (Job.replan payload r) fun _ => rfl)

def cancelSchedule (id user : ℕ) : Except Error Service :=
  match s.editable id user with
  | none => .error .noRows
  | some _ => .ok (s.setJob id (fun job => { job with status := .cancelled }) fun _ => rfl)

/-! ## The worker -/

def before (a b : ℕ × Job) : Prop :=
  a.2.sendAt < b.2.sendAt ∨ (a.2.sendAt = b.2.sendAt ∧ a.1 ≤ b.1)
deriving Decidable

def due (now : ℤ) : List Work :=
  (((s.jobs.toList.filter fun x => x.2.status = .pending ∧ x.2.sendAt ≤ now ∧
    x.2.nextAttemptAt ≤ now).insertionSort before).take 20).map fun x => x.2.work x.1

def process (now : ℤ) : Service :=
  { s with worker := if s.due now = [] then none else some ⟨now, s.due now, .check⟩ }

end Service

inductive Outgoing where
  | channel (r : CreateRequest)
  | conversation (r : DirectRequest)

inductive Created where
  | channel (c : Message.Database.Creation)
  | conversation (c : Conversations.Creation)

/-- The payload that goes out, under the key of the job. -/
def Work.input (w : Work) : DirectInput :=
  { w.payload with clientMessageID := scheduleKey w.id }

def Work.direct (w : Work) (x : Found) : DirectRequest :=
  ⟨x.access, w.destination.id, w.user, w.input, x.checkedAt, x.insertedAt, x.polledAt⟩

/-- The send to a channel, with the input that passed the checks of the message service. -/
def Work.toChannel (w : Work) (x : Found) (input : CreateInput) : CreateRequest :=
  ⟨x.standing, w.destination.id, w.user, input, none, .error .forbidden, x.checkedAt, x.insertedAt,
    x.polledAt⟩

def Work.outgoing (f : Primitives) (w : Work) (x : Found) : Except SendError Outgoing :=
  match x.reachable with
  | .error e => .error (.community e)
  | .ok () =>
    if x.fault then .error (.community .other)
    else match w.destination.kind with
      | .conversation => .ok (.conversation (w.direct x))
      | .channel =>
        -- The checks of `Service.Create`.
        if w.destination.id = 0 then .error (.message .channelNotFound)
        else if w.user = 0 then .error (.message .forbidden)
        else (validate f x.checkedAt (normalize w.input.toChannel)).map fun input =>
          .channel (w.toChannel x input)

def Tables.send (f : Primitives) (t : Tables) :
    Outgoing → Except SendError (Option Created × Tables)
  | .channel r => match t.channels.createReferenced f r with
    | .error e => .error (.message e)
    | .ok (_, channels) =>
      .ok ((t.channels.created f (.create r)).map .channel, { t with channels := channels })
  | .conversation r => match t.conversations.createDirect f r with
    | .error e => .error (.community e)
    | .ok (_, conversations) => .ok
      ((t.conversations.created f (.createDirect r)).map .conversation,
        { t with conversations := conversations })

/-- An error that a retry would meet again. -/
def permanentScheduleError : SendError → Bool
  | .community e => e ≠ .other
  | .message e => e ∈ [.forbidden, .pollInvalid, .channelNotFound, .replyInvalid,
    .idempotencyConflict,
      .messageNotFound, .textChannelRequired, .database]
  | .contentInvalid | .contentRequired | .contentTooLong | .clientMessageIDInvalid => true

/-- How a job is marked after a send that failed. -/
def Worker.failed (w : Worker) (job : Work) (e : SendError) : Phase :=
  if ¬ permanentScheduleError e ∧ job.attempts + 1 < 5 then
    -- The wait doubles with every attempt, up to 80 seconds.
    .mark .pending "Временная ошибка отправки; ожидается повторная попытка"
      (w.now + (5 <<< min job.attempts 4 : ℕ))
  else .mark .failed "Отправка недоступна: проверьте права, получателей и вложения" 0

namespace Service

variable (s : Service)

/-- The send of a job, from the first check to the commit. -/
def attempt (f : Primitives) (job : Work) (x : Found) :
    Except SendError (Option Created × Tables) :=
  job.outgoing f x >>= s.tables.send f

/-- One statement of the worker on its first job. -/
def step (f : Primitives) (w : Worker) (job : Work) (x : Found) : Service :=
  match w.phase with
  | .check =>
    let there := s.tables.delivered job.user job.destination (scheduleKey job.id)
    { s with worker := some { w with phase := if there then .recover else .send } }
  | .recover =>
    -- Without a look at the status: the message is there.
    { s.setJob job.id (fun j => { j with status := .sent, error := "" }) (fun _ => rfl) with
      worker := w.advance }
  | .send => match s.attempt f job x with
    | .ok (_, tables) =>
      { s with tables := tables, worker := some { w with phase := .mark .sent "" 0 } }
    | .error e =>
      -- With its context gone the run ends here, and the job stays pending.
      if x.lost then { s with worker := none }
      else { s with worker := some { w with phase := w.failed job e } }
  | .mark status problem nextAttempt =>
    { s.setJob job.id (Job.mark status problem nextAttempt)
      (Job.key_mark status problem nextAttempt) with worker := w.advance }

/-! ## Runs -/

def commit : Except Error Service → Service
  | .ok s' => s'
  | .error _ => s

/-- A request that needs `workMu` waits as long as the worker runs. -/
def locked (s' : Service) : Service :=
  if s.worker = none then s' else s

def apply (f : Primitives) (s : Service) : Event → Service
  | .schedule r => s.locked (s.commit ((s.schedule f r).map Prod.snd))
  | .reschedule id r => s.locked (s.commit (s.reschedule f id r))
  | .cancel id user => s.locked (s.commit (s.cancelSchedule id user))
  | .channel op => { s with tables := { s.tables with channels := s.tables.channels.apply f op } }
  | .conversation op =>
    { s with tables := { s.tables with conversations := s.tables.conversations.apply f op } }
  | .process now => s.locked (s.process now)
  | .step x => match s.worker with
    | some ⟨now, job :: rest, phase⟩ => s.step f ⟨now, job :: rest, phase⟩ job x
    | _ => s
  | .stop => { s with worker := none }

def run (f : Primitives) (events : List Event) : Service :=
  events.foldl (apply f) empty

structure Delivery where
  job : ℕ
  message : Created

def deliver (f : Primitives) (s : Service) : Event → Option Delivery
  | .step x => match s.worker with
    | some ⟨_, job :: _, .send⟩ => match s.attempt f job x with
      | .ok (some c, _) => some ⟨job.id, c⟩
      | _ => none
    | _ => none
  | _ => none

def deliveries (f : Primitives) (events : List Event) : List Delivery :=
  logged (apply f) (deliver f) empty events

end Service

end Voxhold.Community
