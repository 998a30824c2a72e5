/-
# Voxhold.Community.ScheduledOnce — a scheduled message is sent once

`Once`: a job marked sent had one message created, one that failed or was cancelled had none, a
pending one had none or one whose key is where the worker looks. It holds while the run leaves the
job alone (`Spares`): until it is sent nobody takes its key where it is to be sent, and nobody
touches it between the commit and the mark.
-/

import Voxhold.Community.Scheduled
import Voxhold.Message.SendKeys

namespace Voxhold.Community

open Voxhold.Lib List Conversations
open Voxhold.Message (Primitives PollInput CreateInput CreateRequest Standing unix second)

/-! ## The key of a job -/

theorem scheduleKey_injective : Function.Injective scheduleKey := by
  intro a b h
  have hdigits : Nat.toDigits 10 a = Nat.toDigits 10 b := by
    have hlist := congrArg String.toList h
    simpa [scheduleKey, String.toList_append] using hlist
  exact toDigits_injective hdigits

theorem scheduleKey_ne_empty (id : ℕ) : scheduleKey id ≠ "" := by
  intro h
  have hlist := congrArg String.toList h
  simp [scheduleKey, String.toList_append] at hlist

/-! ## What a send of the worker does -/

theorem validate_cases {f : Primitives} {now : ℤ} {i i' : CreateInput}
    (h : validate f now i = .ok i') : ∃ poll, i' = { i with poll := poll } := by
  unfold validate at h
  split at h
  · cases h
  · obtain ⟨poll, -, h⟩ := bind_eq_ok.mp h
    split_ifs at h
    exact ⟨poll, (Except.ok.inj h).symm⟩

/-- The message has the payload and the sender of a job and is where the job sends it. -/
def Created.Carries (f : Primitives) (w : Work) : Created → Prop
  | .channel c => w.destination = ⟨.channel, c.request.channel⟩ ∧ c.request.author = w.user ∧
      ∃ now, validate f now (normalize w.input.toChannel) = .ok c.request.input
  | .conversation c => w.destination = ⟨.conversation, c.request.conversation⟩ ∧
      c.request.author = w.user ∧ c.request.input = w.input

namespace Tables

variable {f : Primitives} {t t' : Tables} {w : Work} {x : Found} {c : Option Created}

def has (t : Tables) (w : Work) : Bool :=
  t.delivered w.user w.destination (scheduleKey w.id)

/-- A send that created a message: it was not there before, and its key is taken after it and no
other that was free. -/
structure Sends (f : Primitives) (t : Tables) (w : Work) (m : Created) (t' : Tables) : Prop where
  absent : t.has w = false
  carries : m.Carries f w
  keys : ∀ user destination key, t'.delivered user destination key ↔
    t.delivered user destination key ∨
      (user = w.user ∧ destination = w.destination ∧ key = scheduleKey w.id)

theorem send_conversation (hkind : w.destination.kind = .conversation)
    (h : t.send f (.conversation (w.direct x)) = .ok (c, t')) :
    (c = none ∧ t' = t ∧ t.has w) ∨ ∃ m, c = some m ∧ Sends f t w m t' := by
  obtain ⟨id, user, ⟨kind, destination⟩, payload, attempts⟩ := w
  obtain rfl : kind = .conversation := hkind
  simp only [send] at h
  split at h
  · cases h
  next sent db' hcreate =>
    obtain ⟨hc, rfl⟩ := Prod.mk.inj (Except.ok.inj h)
    rcases created_or_taken hcreate with
      ⟨hnone, rfl, htaken⟩ | ⟨m, hsome, hrequest, hfree, hkeys⟩
    · rw [hnone] at hc
      exact .inl ⟨hc.symm, rfl, htaken⟩
    · rw [hsome] at hc
      refine .inr ⟨.conversation m, hc.symm, hfree, ?_, ?_⟩
      · rw [Created.Carries, hrequest]
        exact ⟨rfl, rfl, rfl⟩
      · rintro user' ⟨kind', destination'⟩ key
        cases kind' with
        | channel => simp [delivered]
        | conversation =>
          refine (hkeys _).trans (or_congr_right ?_)
          simp [DirectRequest.key, Work.direct, Work.input, eq_comm, and_left_comm]

theorem send_channel {input : CreateInput} {now : ℤ} (hkind : w.destination.kind = .channel)
    (hvalid : validate f now (normalize w.input.toChannel) = .ok input)
    (h : t.send f (.channel (w.toChannel x input)) = .ok (c, t')) :
    (c = none ∧ t' = t ∧ t.has w) ∨ ∃ m, c = some m ∧ Sends f t w m t' := by
  obtain ⟨id, user, ⟨kind, destination⟩, payload, attempts⟩ := w
  obtain rfl : kind = .channel := hkind
  have hkey : input.clientMessageID = scheduleKey id := by
    obtain ⟨poll, rfl⟩ := validate_cases hvalid
    rfl
  simp only [send] at h
  split at h
  · cases h
  next sent db' hcreate =>
    obtain ⟨hc, rfl⟩ := Prod.mk.inj (Except.ok.inj h)
    have hne : input.clientMessageID ≠ "" := hkey ▸ scheduleKey_ne_empty id
    have hhas : t.has ⟨id, user, ⟨.channel, destination⟩, payload, attempts⟩ =
        (t.channels.sendKeys ⟨destination, user, input.clientMessageID⟩).isSome := by
      rw [hkey]
      rfl
    rcases Message.Database.created_or_taken hne hcreate with
      ⟨hnone, rfl, htaken⟩ | ⟨m, hsome, hrequest, hfree, hkeys⟩
    · rw [hnone] at hc
      exact .inl ⟨hc.symm, rfl, hhas.trans htaken⟩
    · rw [hsome] at hc
      refine .inr ⟨.channel m, hc.symm, hhas.trans hfree, ?_, ?_⟩
      · rw [Created.Carries, hrequest]
        exact ⟨rfl, rfl, now, hvalid⟩
      · rintro user' ⟨kind', destination'⟩ key
        cases kind' with
        | conversation => simp [delivered]
        | channel =>
          refine (hkeys _).trans (or_congr_right ?_)
          simp [CreateRequest.key, Work.toChannel, hkey, eq_comm, and_left_comm]

end Tables

namespace Service

variable {f : Primitives} {s : Service}
  {t : Tables} {rest : List Work} {w' : Worker} {s' : Service} {id : ℕ}

theorem attempt_cases {w : Work} {x : Found} {c : Option Created}
    (h : s.attempt f w x = .ok (c, t)) :
    (c = none ∧ t = s.tables ∧ s.tables.has w) ∨ ∃ m, c = some m ∧
    Tables.Sends f s.tables w m t := by
  obtain ⟨out, hout, hsend⟩ := bind_eq_ok.mp h
  unfold Work.outgoing at hout
  split at hout
  · cases hout
  · split at hout
    · cases hout
    · split at hout
      next hkind =>
        cases hout
        exact Tables.send_conversation hkind hsend
      next hkind =>
        split at hout
        · cases hout
        · split at hout
          · cases hout
          · obtain ⟨input, hvalid, rfl⟩ := map_eq_ok.mp hout
            exact Tables.send_channel hkind hvalid hsend

/-! ## Changes of jobs -/

section Jobs

variable {s' : Service} {id i : ℕ} {r : ScheduleRequest} {g : Job → Job}
  {hg : ∀ job, (g job).key = job.key}

theorem get_setJob : (s.setJob id g hg).jobs.get i =
    if i = id then (s.jobs.get i).map g else s.jobs.get i := by
  show (s.jobs.get i).bind _ = _
  split
  next hi => cases s.jobs.get i <;> simp [hi]
  next hi => cases s.jobs.get i <;> simp [hi]

theorem schedule_cases (h : s.schedule f r = .ok (id, s')) :
    s' = s ∨ ∃ job hfree, (job.status = .pending ∧ job.user = r.user ∧
    job.destination = r.destination) ∧
      s' = { s with jobs := s.jobs.insert job hfree } := by
  unfold schedule at h
  split at h
  · cases h
  · simp only at h
    split at h
    · split at h
      · cases h
      · exact .inl (Prod.mk.inj (Except.ok.inj h)).2.symm
    · obtain ⟨payload, -, h⟩ := bind_eq_ok.mp h
      split at h
      · cases h
      · split at h
        next hfree => exact .inr ⟨_, hfree, ⟨rfl, rfl, rfl⟩, (Prod.mk.inj (Except.ok.inj h)).2.symm⟩
        · cases h

/-- The job can still be changed. -/
def Open (s : Service) (id : ℕ) : Prop :=
  ∃ job, s.jobs.get id = some job ∧ (job.status = .pending ∨ job.status = .failed)

theorem open_of_editable {user : ℕ} {job : Job} (h : s.editable id user = some job) :
    s.Open id := by
  obtain ⟨hget, htest⟩ := Option.filter_eq_some_iff.mp h
  simp only [decide_eq_true_eq] at htest
  exact ⟨job, hget, htest.2⟩

theorem reschedule_cases (h : s.reschedule f id r = .ok s') :
    s.Open id ∧ ∃ payload, s' = s.setJob id (Job.replan payload r) fun _ => rfl := by
  unfold reschedule at h
  split at h
  · cases h
  next job hjob =>
    split at h
    · cases h
    · obtain ⟨payload, -, h⟩ := bind_eq_ok.mp h
      split at h
      · cases h
      · exact ⟨open_of_editable hjob, payload, (Except.ok.inj h).symm⟩

theorem cancelSchedule_cases {user : ℕ} (h : s.cancelSchedule id user = .ok s') :
    s.Open id ∧ s' = s.setJob id (fun job => { job with status := .cancelled }) fun _ => rfl := by
  unfold cancelSchedule at h
  split at h
  · cases h
  next job hjob => exact ⟨open_of_editable hjob, (Except.ok.inj h).symm⟩

theorem locked_commit (x : Except Error Service) : s.locked (s.commit x) = s ∨
    s.worker = none ∧ ∃ s', x = .ok s' ∧ s.locked (s.commit x) = s' := by
  unfold locked
  split
  next hidle =>
    cases x with
    | error e => exact .inl rfl
    | ok s' => exact .inr ⟨hidle, s', rfl, rfl⟩
  · exact .inl rfl

theorem apply_schedule (r : ScheduleRequest) : s.apply f (.schedule r) = s ∨
    s.worker = none ∧ ∃ job hfree,
      (job.status = .pending ∧ job.user = r.user ∧ job.destination = r.destination) ∧
      s.apply f (.schedule r) = { s with jobs := s.jobs.insert job hfree } := by
  rcases locked_commit ((s.schedule f r).map Prod.snd) with heq | ⟨hidle, s', hok, heq⟩
  · exact .inl heq
  · obtain ⟨x, hschedule, rfl⟩ := map_eq_ok.mp hok
    rcases schedule_cases hschedule with hsame | ⟨job, hfree, hjob, hnew⟩
    · exact .inl (heq.trans hsame)
    · exact .inr ⟨hidle, job, hfree, hjob, heq.trans hnew⟩

theorem apply_reschedule (id : ℕ) (r : ScheduleRequest) : s.apply f (.reschedule id r) = s ∨
    s.worker = none ∧ s.Open id ∧
      ∃ payload, s.apply f (.reschedule id r) = s.setJob id (Job.replan payload r) fun _ =>
      rfl := by
  rcases locked_commit (s.reschedule f id r) with heq | ⟨hidle, s', hok, heq⟩
  · exact .inl heq
  · obtain ⟨hopen, payload, rfl⟩ := reschedule_cases hok
    exact .inr ⟨hidle, hopen, payload, heq⟩

theorem apply_cancel (id user : ℕ) : s.apply f (.cancel id user) = s ∨ s.worker = none ∧ s.Open id ∧
      s.apply f (.cancel id user) =
        s.setJob id (fun job => { job with status := .cancelled }) fun _ => rfl := by
  rcases locked_commit (s.cancelSchedule id user) with heq | ⟨hidle, s', hok, heq⟩
  · exact .inl heq
  · obtain ⟨hopen, rfl⟩ := cancelSchedule_cases hok
    exact .inr ⟨hidle, hopen, heq⟩

theorem apply_process (now : ℤ) : s.apply f (.process now) = s ∨
    s.apply f (.process now) = { s with worker := none } ∨
    s.apply f (.process now) = { s with worker := some ⟨now, s.due now, .check⟩ } := by
  show s.locked (s.process now) = s ∨ s.locked (s.process now) = _ ∨ s.locked (s.process now) = _
  unfold locked process
  split
  · split
    · exact .inr (.inl rfl)
    · exact .inr (.inr rfl)
  · exact .inl rfl

end Jobs

/-! ## The jobs of a run -/

/-- The worker has jobs that are pending, each once, and as they are. -/
structure Running (s : Service) (w : Worker) : Prop where
  distinct : (w.work.map Work.id).Nodup
  job : ∀ x ∈ w.work, ∃ job, s.jobs.get x.id = some job ∧ job.status = .pending ∧ job.work x.id = x

def Orderly (s : Service) : Prop :=
  ∀ w, s.worker = some w → Running s w

theorem running_due (now : ℤ) : Running s ⟨now, s.due now, .check⟩ where
  distinct := by
    have hsorted : (s.jobs.toList.map Prod.fst).Nodup :=
      pairwise_map.mpr (s.jobs.toList_sorted.imp Nat.ne_of_lt)
    have htaken : List.Sublist _ _ := take_sublist 20 ((s.jobs.toList.filter fun x =>
      x.2.status = .pending ∧ x.2.sendAt ≤ now ∧ x.2.nextAttemptAt ≤ now).insertionSort before)
    have hids : (s.due now).map Work.id = ((((s.jobs.toList.filter fun x => x.2.status = .pending ∧
        x.2.sendAt ≤ now ∧ x.2.nextAttemptAt ≤ now).insertionSort before).take 20).map
        Prod.fst) := by
      rw [due, map_map]
      rfl
    show ((s.due now).map Work.id).Nodup
    rw [hids]
    refine List.Nodup.sublist (htaken.map Prod.fst) ?_
    refine ((perm_insertionSort before _).map Prod.fst).nodup_iff.mpr ?_
    exact hsorted.sublist (filter_sublist.map Prod.fst)
  job x hx := by
    obtain ⟨⟨i, job⟩, hmem, rfl⟩ := mem_map.mp hx
    have hfilter := (mem_insertionSort before).mp (mem_of_mem_take hmem)
    obtain ⟨hlist, htest⟩ := mem_filter.mp hfilter
    simp only [decide_eq_true_eq] at htest
    exact ⟨job, Table.mem_toList.mp hlist, htest.1, rfl⟩

theorem Running.head {w : Worker} {x : Work} (h : Running s w) (hwork : w.work = x :: rest) :
    ∃ job, s.jobs.get x.id = some job ∧ job.status = .pending ∧ job.work x.id = x :=
  h.job x (by rw [hwork]; exact mem_cons_self)

theorem Running.advance {w : Worker} {x : Work} {g : Job → Job}
    {hg : ∀ job, (g job).key = job.key} (h : Running s w) (hwork : w.work = x :: rest)
    (hw' : w.advance = some w') : Running { s.setJob x.id g hg with worker := some w' } w' := by
  unfold Worker.advance at hw'
  split at hw'
  · cases hw'
  · cases hw'
    have hdistinct := h.distinct
    rw [hwork, map_cons, nodup_cons] at hdistinct
    refine ⟨by rw [hwork]; exact hdistinct.2, ?_⟩
    intro y hy
    replace hy : y ∈ rest := by rwa [hwork] at hy
    obtain ⟨job, hget, hjob⟩ := h.job y (by rw [hwork]; exact mem_cons_of_mem x hy)
    have hne : y.id ≠ x.id := fun heq => hdistinct.1 (heq ▸ mem_map_of_mem hy)
    refine ⟨job, ?_, hjob⟩
    show (s.setJob x.id g hg).jobs.get y.id = some job
    rw [get_setJob, if_neg hne, hget]

theorem orderly_of_idle (h : s'.worker = none) : Orderly s' := by
  intro w hw
  rw [h] at hw
  cases hw

theorem Running.congr {w : Worker} (h : Running s w) (hjobs : s'.jobs = s.jobs)
    (hwork : w'.work = w.work) : Running s' w' where
  distinct := hwork ▸ h.distinct
  job := by
    rw [hjobs, hwork]
    exact h.job

theorem Running.orderly {w : Worker} (h : Running s w) (hjobs : s'.jobs = s.jobs)
    (hworker : s'.worker = some w') (hwork : w'.work = w.work) : Orderly s' := by
  intro w'' hw''
  obtain rfl := Option.mem_unique hworker hw''
  exact h.congr hjobs hwork

theorem Running.orderly_advance {w : Worker} {x : Work} {g : Job → Job}
    {hg : ∀ job, (g job).key = job.key} (h : Running s w) (hwork : w.work = x :: rest) :
    Orderly { s.setJob x.id g hg with worker := w.advance } := by
  intro w' hw'
  replace hw' : w.advance = some w' := hw'
  rw [hw']
  exact h.advance hwork hw'

theorem orderly_step {w : Worker} {x : Work} {found : Found} (h : Running s w)
    (hwork : w.work = x :: rest) : Orderly (s.step f w x found) := by
  unfold step
  split
  · exact h.orderly rfl rfl rfl
  · exact h.orderly_advance hwork
  · split
    · exact h.orderly rfl rfl rfl
    · split
      · exact orderly_of_idle rfl
      · exact h.orderly rfl rfl rfl
  · exact h.orderly_advance hwork

theorem orderly_apply (ho : Orderly s) (e : Event) : Orderly (s.apply f e) := by
  cases e with
  | schedule r =>
    rcases apply_schedule r with heq | ⟨hidle, job, hfree, -, heq⟩
    · exact heq ▸ ho
    · exact heq ▸ orderly_of_idle hidle
  | reschedule id r =>
    rcases apply_reschedule id r with heq | ⟨hidle, -, payload, heq⟩
    · exact heq ▸ ho
    · exact heq ▸ orderly_of_idle hidle
  | cancel id user =>
    rcases apply_cancel id user with heq | ⟨hidle, -, heq⟩
    · exact heq ▸ ho
    · exact heq ▸ orderly_of_idle hidle
  | channel op | conversation op => exact fun w hw => (ho w hw).congr rfl rfl
  | process now =>
    rcases apply_process now with heq | heq | heq
    · exact heq ▸ ho
    · exact heq ▸ orderly_of_idle rfl
    · exact heq ▸ (running_due now).orderly rfl rfl rfl
  | step found =>
    simp only [apply]
    split
    next hw => exact orderly_step (ho _ hw) rfl
    · exact ho
  | stop => exact orderly_of_idle rfl

/-! ## One job -/

def sentFor (log : List Delivery) (id : ℕ) : List Delivery :=
  log.filter fun d => d.job = id

/-- What the status of a job says about the messages created for it. The key of a pending job is
taken where it is to be sent exactly if one was. -/
def Settled (f : Primitives) (t : Tables) (id : ℕ) (job : Job) (sent : List Delivery) : Prop :=
  match job.status with
  | .sent => ∃ d, sent = [d] ∧ d.message.Carries f (job.work id)
  | .pending => sent = [] ∧ t.has (job.work id) = false ∨
      ∃ d, sent = [d] ∧ d.message.Carries f (job.work id) ∧ t.has (job.work id)
  | .failed | .cancelled => sent = []

theorem Settled.transfer {t' : Tables} {job : Job} {sent : List Delivery}
    (h : Settled f t id job sent)
    (hfree : job.status = .pending → sent = [] → t'.has (job.work id) → t.has (job.work id))
    (hkept : job.status = .pending → sent ≠ [] → t.has (job.work id) → t'.has (job.work id)) :
    Settled f t' id job sent := by
  unfold Settled at h ⊢
  split at h
  · exact h
  next hpending =>
    rcases h with ⟨hnone, hmissing⟩ | ⟨d, rfl, hcarries, hhas⟩
    · refine .inl ⟨hnone, Bool.eq_false_iff.mpr fun hhas => ?_⟩
      rw [hfree hpending hnone hhas] at hmissing
      cases hmissing
    · exact .inr ⟨d, rfl, hcarries, hkept hpending (cons_ne_nil d []) hhas⟩
  · exact h
  · exact h

theorem Settled.length_le_one {job : Job} {sent : List Delivery}
    (h : Settled f t id job sent) : sent.length ≤ 1 := by
  unfold Settled at h
  split at h
  · obtain ⟨d, rfl, -⟩ := h
    exact le_rfl
  · rcases h with ⟨rfl, -⟩ | ⟨d, rfl, -⟩
    · exact Nat.zero_le 1
    · exact le_rfl
  · exact h ▸ Nat.zero_le 1
  · exact h ▸ Nat.zero_le 1

/-- What the worker knows about the job it is at. -/
def Fits (sent : List Delivery) : Phase → Prop
  | .check => True
  | .recover | .mark .sent _ _ => sent ≠ []
  | .send | .mark _ _ _ => sent = []

/-- **Once.** What holds of a job of a user: its status says how many messages there are and whether
its key is taken, and so does the place of the worker in its work on it. -/
structure Once (f : Primitives) (id user : ℕ) (s : Service) (log : List Delivery) : Prop where
  unborn : s.jobs.next ≤ id → sentFor log id = []
  job : ∀ job, s.jobs.get id = some job → job.user = user →
    Settled f s.tables id job (sentFor log id)
  phase : ∀ w x rest, s.worker = some w → w.work = x :: rest → x.id = id → x.user = user →
    Fits (sentFor log id) w.phase

/-- A message was created for the job, and the job is not marked yet. -/
def Unmarked (id : ℕ) (s : Service) (log : List Delivery) : Prop :=
  sentFor log id ≠ [] ∧ ∃ job, s.jobs.get id = some job ∧ job.status = .pending

/-- No message was created for the job yet, and it is pending for the destination. -/
def Awaits (id user : ℕ) (s : Service) (log : List Delivery) (destination : Destination) : Prop :=
  sentFor log id = [] ∧
    ∃ job, s.jobs.get id = some job ∧ job.status = .pending ∧ job.user = user ∧
      job.destination = destination

/-- **An event that leaves a job alone.** While the job is unmarked it is not changed and not
cancelled, and its message is not deleted. Its key is free in a destination for which it is made or
changed, and stays so: the user does not send there under it. -/
def Spares (id user : ℕ) (s : Service) (log : List Delivery) : Event → Prop
  | .schedule r => s.jobs.next = id → s.tables.delivered user r.destination (scheduleKey id) = false
  | .reschedule i r => i = id →
    ¬ Unmarked id s log ∧ s.tables.delivered user r.destination (scheduleKey id) = false
  | .cancel i _ => i = id → ¬ Unmarked id s log
  | .channel (.create r) =>
    ∀ place, Awaits id user s log ⟨.channel, place⟩ → r.key ≠ ⟨place, user, scheduleKey id⟩
  | .conversation (.createDirect r) =>
    ∀ place, Awaits id user s log ⟨.conversation, place⟩ → r.key ≠ ⟨place, user, scheduleKey id⟩
  | .conversation (.forward r) =>
    ∀ place, Awaits id user s log ⟨.conversation, place⟩ →
      r.direct.key ≠ ⟨place, user, scheduleKey id⟩
  | .conversation (.deleteSaved d) => Unmarked id s log →
    ∀ row, s.tables.conversations.messages.get d.message = some row → row.author = user →
      row.clientMessageID ≠ scheduleKey id
  | _ => True

namespace Once

variable {id user : ℕ} {log : List Delivery}

section

variable (h : Once f id user s log)
include h

theorem congr {s' : Service} (htables : s'.tables = s.tables)
    (hjobs : s'.jobs = s.jobs) (hworker : ∀ w, s'.worker = some w → w.phase = .check) :
    Once f id user s' log where
  unborn := hjobs ▸ h.unborn
  job := by
    rw [hjobs, htables]
    exact h.job
  phase w x rest hw _ _ _ := by
    rw [hworker w hw]
    trivial

theorem setJob {target : ℕ} {g : Job → Job} {worker : Option Worker}
    (hg : ∀ job, (g job).key = job.key)
    (hset : target = id → ∀ job, s.jobs.get id = some job → (g job).user = user →
      Settled f s.tables id (g job) (sentFor log id))
    (hworker : ∀ w, worker = some w → w.phase = .check) :
    Once f id user { s.setJob target g hg with worker := worker } log where
  unborn := h.unborn
  job job hget huser := by
    replace hget : (s.setJob target g hg).jobs.get id = some job := hget
    rw [get_setJob] at hget
    split at hget
    next htarget =>
      obtain ⟨old, hold, rfl⟩ := Option.map_eq_some_iff.mp hget
      exact hset htarget.symm old hold huser
    · exact h.job job hget huser
  phase w x rest hw _ _ _ := by
    rw [hworker w hw]
    trivial

theorem insert {job : Job} {hfree : s.jobs.Free job}
    (hidle : s.worker = none) (hjob : job.status = .pending)
    (hmissing : s.jobs.next = id → job.user = user → s.tables.has (job.work id) = false) :
    Once f id user { s with jobs := s.jobs.insert job hfree } log where
  unborn := fun hid => h.unborn (Nat.le_of_succ_le hid)
  job job' hget huser := by
    replace hget : (s.jobs.toTable.insert job).get id = some job' := hget
    rw [Table.get_insert] at hget
    split at hget
    next hid =>
      cases hget
      rw [Settled, hjob, h.unborn (Nat.le_of_eq hid.symm)]
      exact .inl ⟨rfl, hmissing hid.symm huser⟩
    · exact h.job job' hget huser
  phase w x rest hw := by
    rw [show s.worker = none from hidle] at hw
    cases hw

theorem tables {t : Tables} (htaken : ∀ destination, Awaits id user s log destination →
      t.delivered user destination (scheduleKey id) → s.tables.delivered user destination
      (scheduleKey id))
    (hkept : Unmarked id s log → ∀ destination,
    s.tables.delivered user destination (scheduleKey id) →
      t.delivered user destination (scheduleKey id)) :
    Once f id user { s with tables := t } log where
  __ := h
  job job hget huser := by
    subst huser
    refine (h.job job hget rfl).transfer (fun hpending hnone hhas => ?_) fun hpending hsent hhas =>
      ?_
    · exact htaken job.destination ⟨hnone, job, hget, hpending, rfl, rfl⟩ hhas
    · exact hkept ⟨hsent, job, hget, hpending⟩ job.destination hhas

theorem none_of_spared {job : Job} (hget : s.jobs.get id = some job)
    (huser : job.user = user) (hopen : job.status = .pending ∨ job.status = .failed)
    (hspared : ¬ Unmarked id s log) : sentFor log id = [] := by
  rcases hopen with hpending | hfailed
  · by_contra hsent
    exact hspared ⟨hsent, job, hget, hpending⟩
  · have hsettled := h.job job hget huser
    rw [Settled, hfailed] at hsettled
    exact hsettled

end

end Once

/-! ## Events -/

section Events

variable {id user : ℕ} {log : List Delivery}
  {i : ℕ} {w : Worker} {x : Work} {rest : List Work} {found : Found}

section

variable (h : Once f id user s log)
include h

theorem once_schedule {r : ScheduleRequest} (hspares : Spares id user s log (.schedule r)) :
    Once f id user (s.apply f (.schedule r)) log := by
  rcases apply_schedule r with heq | ⟨hidle, job, hfree, ⟨hpending, -, hdestination⟩, heq⟩
  · exact heq ▸ h
  · rw [heq]
    refine h.insert hidle hpending ?_
    rintro hid rfl
    show s.tables.delivered job.user job.destination (scheduleKey id) = false
    rw [hdestination]
    exact hspares hid

theorem Once.change {g : Job → Job} {hg : ∀ job, (g job).key = job.key} (hidle : s.worker = none)
    (hspares : i = id → ¬ Unmarked id s log) (hopen : s.Open i)
    (huser : ∀ job, (g job).user = job.user)
    (hset : i = id → ∀ job, (g job).user = user → sentFor log id = [] →
      Settled f s.tables id (g job) (sentFor log id)) :
    Once f id user (s.setJob i g hg) log := by
  obtain ⟨old, hold, hstatus⟩ := hopen
  refine h.setJob hg ?_ (fun w hw => ?_)
  · rintro rfl job hget hjob
    obtain rfl := Option.mem_unique hold hget
    exact hset rfl old hjob
      (h.none_of_spared hold ((huser old).symm.trans hjob) hstatus (hspares rfl))
  · rw [show s.worker = none from hidle] at hw
    cases hw

theorem once_reschedule {r : ScheduleRequest} (hspares : Spares id user s log (.reschedule i r)) :
    Once f id user (s.apply f (.reschedule i r)) log := by
  rcases apply_reschedule i r with heq | ⟨hidle, hopen, payload, heq⟩
  · exact heq ▸ h
  · rw [heq]
    refine h.change hidle (fun hi => (hspares hi).1) hopen (by intro; rfl) ?_
    rintro hi job rfl hnone
    exact .inl ⟨hnone, (hspares hi).2⟩

theorem once_cancel {owner : ℕ} (hspares : i = id → ¬ Unmarked id s log) :
    Once f id user (s.apply f (.cancel i owner)) log := by
  rcases apply_cancel i owner with heq | ⟨hidle, hopen, heq⟩
  · exact heq ▸ h
  · rw [heq]
    exact h.change hidle hspares hopen (by intro; rfl) fun _ _ _ hnone => hnone

theorem once_process {now : ℤ} : Once f id user (s.apply f (.process now)) log := by
  rcases apply_process now with heq | heq | heq
  · exact heq ▸ h
  · exact heq ▸ h.congr rfl rfl nofun
  · rw [heq]
    refine h.congr rfl rfl fun w hw => ?_
    cases hw
    rfl

theorem once_channel {op : Message.Op} (hspares : Spares id user s log (.channel op)) :
    Once f id user (s.apply f (.channel op)) log := by
  refine h.tables ?_ ?_
  · rintro ⟨kind, place⟩ hawaits hdelivered
    cases kind with
    | conversation => exact hdelivered
    | channel =>
      rcases (Message.Database.taken_apply op).mp hdelivered with htaken | ⟨c, hcreated, -, hkey⟩
      · exact htaken
      · obtain ⟨rfl, -⟩ := Message.Database.created_cases hcreated
        exact absurd hkey (hspares place hawaits)
  · rintro - ⟨kind, place⟩ hdelivered
    cases kind with
    | conversation => exact hdelivered
    | channel => exact (Message.Database.taken_apply op).mpr (.inl hdelivered)

theorem once_conversation {op : Op} (hspares : Spares id user s log (.conversation op)) :
    Once f id user (s.apply f (.conversation op)) log := by
  refine h.tables ?_ ?_
  · rintro ⟨kind, place⟩ hawaits hdelivered
    cases kind with
    | channel => exact hdelivered
    | conversation =>
      rcases taken_of_apply hdelivered with htaken | ⟨c, hcreated, hkey⟩
      · exact htaken
      · rcases created_request hcreated with ⟨r, rfl, hr⟩ | ⟨r, rfl, hr⟩
        · exact absurd (hr.symm.trans hkey) (hspares place hawaits)
        · exact absurd (hr.symm.trans hkey) (hspares place hawaits)
  · rintro hunmarked ⟨kind, place⟩ hdelivered
    cases kind with
    | channel => exact hdelivered
    | conversation =>
      obtain ⟨⟨row, message⟩, hfind⟩ := Option.isSome_iff_exists.mp hdelivered
      obtain ⟨hget, hkey⟩ := (Indexed.find_eq_some _).mp hfind
      replace hkey : message.key = ⟨place, user, scheduleKey id⟩ := Option.some.inj hkey
      have hafter : (((s.tables.conversations.apply f op).messages.find message.key)).isSome := by
        refine taken_apply_of_get hget ?_
        rintro d rfl rfl
        exact hspares hunmarked message hget (congrArg DirectKey.author hkey)
          (congrArg DirectKey.clientMessageID hkey)
      rw [hkey] at hafter
      exact hafter

end

/-! ## The worker -/

theorem sentFor_append (d : Delivery) : sentFor (log ++ [d]) id =
    sentFor log id ++ if d.job = id then [d] else [] := by
  rw [sentFor, filter_append, sentFor, filter_cons, filter_nil]
  split
  next h => rw [if_pos (of_decide_eq_true h)]
  next h => rw [if_neg fun heq => h (decide_eq_true heq)]

theorem Once.of_sentFor {log' : List Delivery} (h : Once f id user s log)
    (heq : sentFor log' id = sentFor log id) : Once f id user s log' where
  unborn := heq ▸ h.unborn
  job := heq ▸ h.job
  phase := heq ▸ h.phase

theorem phase_advance {w' : Worker} (h : w.advance = some w') : w'.phase = .check := by
  unfold Worker.advance at h
  split at h
  · cases h
  · cases h
    rfl

theorem Once.quiet {e : Event} {s' : Service} (h : Once f id user s' log)
    (hquiet : s.deliver f e = none) : Once f id user s' (log ++ (s.deliver f e).toList) := by
  rw [hquiet, Option.toList_none, append_nil]
  exact h

section

variable (hwork : w.work = x :: rest)
include hwork

theorem Once.at_phase {p : Phase} (h : Once f id user s log)
    (hp : x.id = id → x.user = user → Fits (sentFor log id) p) :
    Once f id user { s with worker := some { w with phase := p } } log where
  __ := h
  phase w' y rest' hw' hwork' hid huser := by
    cases hw'
    obtain ⟨rfl, -⟩ := cons_eq_cons.mp (hwork.symm.trans hwork')
    exact hp hid huser

theorem Running.settled (hrun : Running s w) (h : Once f x.id user s log) (huser : x.user = user) :
    sentFor log x.id = [] ∧ s.tables.has x = false ∨
      ∃ d, sentFor log x.id = [d] ∧ d.message.Carries f x ∧ s.tables.has x := by
  obtain ⟨job, hget, hpending, hjob⟩ := hrun.head hwork
  have hsettled := h.job job hget ((congrArg Work.user hjob).trans huser)
  rw [Settled, hpending, hjob] at hsettled
  exact hsettled

theorem Running.sent_of_has (hrun : Running s w) (h : Once f x.id user s log)
    (huser : x.user = user) (hhas : s.tables.has x) : sentFor log x.id ≠ [] := by
  rcases hrun.settled hwork h huser with ⟨-, hmissing⟩ | ⟨d, hsent, -⟩
  · rw [hhas] at hmissing
    cases hmissing
  · rw [hsent]
    exact cons_ne_nil d []

theorem once_check (h : Once f id user s log) (hrun : Running s w) : Once f id user
      { s with worker := some ⟨w.now, w.work, if s.tables.has x then .recover else .send⟩ }
      log := by
  refine h.at_phase hwork ?_
  rintro rfl huser
  split
  next hhas => exact hrun.sent_of_has hwork h huser hhas
  next hmissing =>
    rcases hrun.settled hwork h huser with ⟨hnone, -⟩ | ⟨d, -, -, hhas⟩
    · exact hnone
    · exact absurd hhas hmissing

theorem once_created_other {m : Created} {t : Tables} {p : Phase}
    (h : Once f id user s log) (hid : x.id ≠ id) (hsends : Tables.Sends f s.tables x m t) :
    Once f id user { s with tables := t, worker := some { w with phase := p } }
    (log ++ [⟨x.id, m⟩]) := by
  have htables : Once f id user { s with tables := t } log := by
    refine h.tables ?_ (fun _ destination hd => (hsends.keys _ _ _).mpr (.inl hd))
    intro destination _ hdelivered
    rcases (hsends.keys user destination (scheduleKey id)).mp hdelivered with hold | ⟨-, -, hkey⟩
    · exact hold
    · exact absurd (scheduleKey_injective hkey).symm hid
  refine (htables.at_phase hwork fun heq => absurd heq hid).of_sentFor ?_
  rw [sentFor_append, if_neg hid, append_nil]

theorem once_created_own {m : Created} {t : Tables} (hrun : Running s w)
    (hnone : x.user = user → sentFor log x.id = []) (hsends : Tables.Sends f s.tables x m t) :
    Once f x.id user { s with tables := t, worker := some { w with phase := .mark .sent "" 0 } }
      (log ++ [⟨x.id, m⟩]) := by
  obtain ⟨job, hget, hpending, hjob⟩ := hrun.head hwork
  have hsent : sentFor (log ++ [⟨x.id, m⟩]) x.id = sentFor log x.id ++ [⟨x.id, m⟩] := by
    rw [sentFor_append, if_pos rfl]
  have hnonempty : sentFor (log ++ [⟨x.id, m⟩]) x.id ≠ [] := by
    rw [hsent]
    exact append_ne_nil_of_right_ne_nil _ (cons_ne_nil _ _)
  refine ⟨?_, ?_, ?_⟩
  · intro hunborn
    exact absurd hunborn (Nat.not_le_of_lt (Table.lt_next_of_get hget))
  · intro job' hget' huser
    obtain rfl := Option.mem_unique hget hget'
    have huser' : x.user = user := (congrArg Work.user hjob).symm.trans huser
    rw [Settled, hpending, hsent, hnone huser', hjob]
    exact .inr ⟨_, rfl, hsends.carries, (hsends.keys _ _ _).mpr (.inr ⟨rfl, rfl, rfl⟩)⟩
  · intro w' y rest' hw' _ _ _
    cases hw'
    exact hnonempty

theorem once_recover (h : Once f id user s log) (hrun : Running s w)
    (hsent : x.id = id → x.user = user → sentFor log id ≠ []) : Once f id user
    { s.setJob x.id (fun j => { j with status := .sent, error := "" }) (fun _ => rfl) with
      worker := w.advance } log := by
  refine h.setJob (by intro; rfl) ?_ (fun w' => phase_advance)
  rintro rfl job hget huser
  obtain ⟨job', hget', -, hjob⟩ := hrun.head hwork
  obtain rfl := Option.mem_unique hget hget'
  have huser' : x.user = user := (congrArg Work.user hjob).symm.trans huser
  rcases hrun.settled hwork h huser' with ⟨hnone, -⟩ | ⟨d, hd, hcarries, -⟩
  · exact absurd hnone (hsent rfl huser')
  · exact ⟨d, hd, hjob ▸ hcarries⟩

theorem once_mark {status : Status} {problem : String} {nextAttempt : ℤ}
    (h : Once f id user s log) (hrun : Running s w)
    (hfits : x.id = id → x.user = user → Fits (sentFor log id) (.mark status problem nextAttempt)) :
    Once f id user { s.setJob x.id (Job.mark status problem nextAttempt)
      (Job.key_mark status problem nextAttempt) with worker := w.advance } log := by
  refine h.setJob (Job.key_mark status problem nextAttempt) ?_ (fun w' => phase_advance)
  rintro rfl job hget huser
  obtain ⟨job', hget', hpending, hjob⟩ := hrun.head hwork
  obtain rfl := Option.mem_unique hget hget'
  rw [Job.mark, if_pos hpending] at huser ⊢
  have huser' : x.user = user := (congrArg Work.user hjob).symm.trans huser
  have hfits := hfits rfl huser'
  have hsettled := hrun.settled hwork h huser'
  cases status with
  | sent =>
    rcases hsettled with ⟨hnone, -⟩ | ⟨d, hd, hcarries, -⟩
    · exact absurd hnone hfits
    · refine ⟨d, hd, ?_⟩
      -- Only the number of attempts differs, and a message does not carry it.
      rw [← hjob] at hcarries
      cases hmessage : d.message <;> rw [hmessage] at hcarries <;> exact hcarries
  | pending =>
    rcases hsettled with ⟨-, hmissing⟩ | ⟨d, hd, -⟩
    · rw [← hjob] at hmissing
      exact .inl ⟨hfits, hmissing⟩
    · exact absurd (hd.symm.trans hfits) (cons_ne_nil d [])
  | failed | cancelled => exact hfits

theorem deliver_eq_none (hw : s.worker = some w) (hphase : w.phase ≠ .send) :
    s.deliver f (.step found) = none := by
  obtain ⟨now, work, phase⟩ := w
  obtain rfl : work = x :: rest := hwork
  simp only [deliver, hw]
  cases phase with
  | send => exact absurd rfl hphase
  | check | recover | mark => rfl

variable (h : Once f id user s log)
include h

theorem once_send (hrun : Running s w) (hw : s.worker = some w) (hphase : w.phase = .send) :
    Once f id user (s.step f w x found) (log ++ (s.deliver f (.step found)).toList) := by
  obtain ⟨now, work, phase⟩ := w
  obtain rfl : work = x :: rest := hwork
  obtain rfl : phase = .send := hphase
  have hnone : x.id = id → x.user = user → sentFor log id = [] := h.phase _ x rest hw rfl
  simp only [deliver, hw, step]
  cases hattempt : s.attempt f x found with
  | ok y =>
    obtain ⟨c, t⟩ := y
    rcases attempt_cases hattempt with ⟨rfl, rfl, hhas⟩ | ⟨m, rfl, hsends⟩
    · -- The message was there: somebody else created it, so this is not the job in question.
      simp only [Option.toList_none, append_nil]
      refine h.at_phase (w := ⟨now, x :: rest, .send⟩) rfl ?_
      rintro rfl huser
      exact hrun.sent_of_has rfl h huser hhas
    · by_cases hid : x.id = id
      · subst hid
        exact once_created_own rfl hrun (hnone rfl) hsends
      · exact once_created_other (w := ⟨now, x :: rest, .send⟩) rfl h hid hsends
  | error e =>
    simp only [Option.toList_none, append_nil]
    split
    · exact h.congr rfl rfl nofun
    · refine h.at_phase (w := ⟨now, x :: rest, .send⟩) rfl ?_
      intro hid huser
      unfold Worker.failed
      split
      · exact hnone hid huser
      · exact hnone hid huser

theorem once_step (hrun : Running s w) (hw : s.worker = some w) :
    Once f id user (s.step f w x found) (log ++ (s.deliver f (.step found)).toList) := by
  have hphase := h.phase w x rest hw hwork
  by_cases hsend : w.phase = .send
  · exact once_send hwork h hrun hw hsend
  · refine Once.quiet ?_ (deliver_eq_none hwork hw hsend)
    rw [step]
    cases hp : w.phase with
    | send => exact absurd hp hsend
    | check => exact once_check hwork h hrun
    | recover => exact once_recover hwork h hrun (by rwa [hp] at hphase)
    | mark => exact once_mark hwork h hrun (by rwa [hp] at hphase)

omit hwork in
theorem once_worker (ho : Orderly s) :
    Once f id user (s.apply f (.step found)) (log ++ (s.deliver f (.step found)).toList) := by
  cases hw : s.worker with
  | none =>
    simp only [apply, deliver, hw, Option.toList_none, append_nil]
    exact h
  | some w =>
    obtain ⟨now, work, phase⟩ := w
    cases work with
    | nil =>
      simp only [apply, deliver, hw, Option.toList_none, append_nil]
      exact h
    | cons x rest =>
      have happly : s.apply f (.step found) = s.step f ⟨now, x :: rest, phase⟩ x found := by
        simp only [apply, hw]
      rw [happly]
      exact once_step rfl h (ho _ hw) hw

omit hwork in
theorem once_apply {e : Event} (ho : Orderly s) (hspares : Spares id user s log e) :
    Once f id user (s.apply f e) (log ++ (s.deliver f e).toList) := by
  cases e with
  | step found => exact once_worker h ho
  | schedule r => exact (once_schedule h hspares).quiet rfl
  | reschedule i r => exact (once_reschedule h hspares).quiet rfl
  | cancel i owner => exact (once_cancel h hspares).quiet rfl
  | channel op => exact (once_channel h hspares).quiet rfl
  | conversation op => exact (once_conversation h hspares).quiet rfl
  | process now => exact (once_process h).quiet rfl
  | stop => exact (h.congr rfl rfl nofun : Once f id user (s.apply f .stop) log).quiet rfl

end

end Events

/-! ## Runs -/

/-- Every event of the run leaves the job alone. -/
def Undisturbed (f : Primitives) (id user : ℕ) (events : List Event) : Prop :=
  ∀ pre e post, events = pre ++ e :: post → Spares id user (run f pre) (deliveries f pre) e

theorem once_empty (f : Primitives) (id user : ℕ) : Once f id user empty [] where
  unborn := fun _ => rfl
  job job hget := by
    cases hget
  phase w x rest hw := by
    cases hw

theorem once_run {user : ℕ} {events : List Event} (h : Undisturbed f id user events) :
    Once f id user (run f events) (deliveries f events) := by
  have hboth : Orderly (run f events) ∧ Once f id user (run f events) (deliveries f events) :=
    logged_induction (P := fun s log => Orderly s ∧ Once f id user s log)
      ⟨orderly_of_idle rfl, once_empty f id user⟩
      (fun s log e hs hspares => ⟨orderly_apply hs.1 e, once_apply hs.2 hs.1 hspares⟩) h
  exact hboth.2

/-- **A scheduled message is sent once.** Over every run that leaves a job of a user alone, with the
worker stopped wherever it may be, at most one message is created for the job; if the job is marked
as sent there is one, with the payload and in the destination of the job; and if it is cancelled
there is none. -/
theorem scheduled_once (f : Primitives) (events : List Event) (id user : ℕ) (job : Job)
    (h : Undisturbed f id user events) (hget : (run f events).jobs.get id = some job)
    (huser : job.user = user) : (sentFor (deliveries f events) id).length ≤ 1 ∧
    (job.status = .sent → ∃ d, sentFor (deliveries f events) id = [d] ∧
      d.message.Carries f (job.work id)) ∧
    (job.status = .cancelled → sentFor (deliveries f events) id = []) := by
  have hsettled := (once_run h).job job hget huser
  refine ⟨hsettled.length_le_one, fun hsent => ?_, fun hcancelled => ?_⟩
  · rw [Settled, hsent] at hsettled
    exact hsettled
  · rw [Settled, hcancelled] at hsettled
    exact hsettled

/-- User 7 schedules a text for a channel. -/
def later (channel : ℕ) (sendAt : ℤ) : ScheduleRequest where
  user := 7
  destination := ⟨.channel, channel⟩
  payload := ⟨none, "text", "", none, none⟩
  sendAt := sendAt
  reachable := .ok ()
  active := true
  now := 0
  yearLater := 365 * 24 * 60 * 60

def fine : Found where
  reachable := .ok ()
  standing := .writer 0
  access := ⟨true, true, [7, 8], false, []⟩
  checkedAt := 0
  insertedAt := 0
  polledAt := 0
  fault := false
  lost := false

/-- A run that is stopped after the message was committed, and the next one. -/
def interrupted : List Event :=
  [.schedule (later 1 60), .process 60, .step fine, .step fine, .stop, .process 61, .step fine,
    .step fine]

theorem undisturbed_interrupted : Undisturbed .verbatim 1 7 interrupted := by
  intro pre e post hevents
  cases pre with
  | nil =>
    -- the job is made in a channel without messages
    cases hevents
    exact fun _ => rfl
  | cons _ pre =>
    have he : e ∈ interrupted.tail := by
      rw [hevents]
      exact mem_append_right pre mem_cons_self
    simp only [interrupted, tail_cons, mem_cons, not_mem_nil, or_false] at he
    rcases he with rfl | rfl | rfl | rfl | rfl | rfl | rfl <;> trivial

/-- The job is marked by the second run, and has the message of the first. -/
theorem scheduled_once_interrupted : ∃ d, sentFor (deliveries .verbatim interrupted) 1 = [d] ∧
      d.message.Carries .verbatim ⟨1, 7, ⟨.channel, 1⟩, ⟨none, "text", "", none, none⟩, 0⟩ :=
  (scheduled_once .verbatim interrupted 1 7
    ⟨7, ⟨.channel, 1⟩, ⟨none, "text", "", none, none⟩, 60, .sent, "", 0, 0⟩
    undisturbed_interrupted (by decide +kernel) rfl).2.1 rfl

def sendUnderKey (key : String) : CreateRequest :=
  { CreateRequest.plain (.writer 0) 1 7 "now" 0 with input := ⟨none, [], none, "now", key, none⟩ }

/-- The status of the first job, and how many messages were created for it. -/
def outcome (events : List Event) : Option Status × ℕ :=
  (((run .verbatim events).jobs.get 1).map Job.status,
    (sentFor (deliveries .verbatim events) 1).length)

/-- **Runs that disturb a job.** The user sends a text under the key of the job, which is a key the
service accepts: the job is marked as sent and its message was never created. The worker stops after
the message was committed, and the job is moved to another channel: it is sent there again. The
worker stops in the same place, and the job is cancelled: its message is there. -/
theorem scheduled_not_once :
    (validate .verbatim 0 (sendUnderKey "schedule-1").input).toOption.isSome ∧
    outcome [.channel (.create (sendUnderKey "schedule-1")), .schedule (later 1 60), .process 60,
      .step fine, .step fine] = (some .sent, 0) ∧
    outcome [.schedule (later 1 60), .process 60, .step fine, .step fine, .stop,
      .reschedule 1 (later 2 90), .process 90, .step fine, .step fine, .step fine] =
      (some .sent, 2) ∧
    outcome [.schedule (later 1 60), .process 60, .step fine, .step fine, .stop, .cancel 1 7] =
      (some .cancelled, 1) := by
  decide +kernel

end Service

end Voxhold.Community
