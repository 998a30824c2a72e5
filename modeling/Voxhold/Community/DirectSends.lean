/-
# Voxhold.Community.DirectSends — a direct send and its retries

`Keyed`: as long as a created message has its row, the row has the key and the fingerprint of its
request. So a request with that key writes and emits nothing: an equal one is answered with the
message, another one is refused. Fingerprints are not confused (`DirectInput.json_injective`).
-/

import Voxhold.Community.Direct
import Voxhold.Message.Fingerprint

namespace Voxhold.Community

open Voxhold.Lib Table DirectInput Option Except List
open Voxhold.Message (Primitives PollInput Poll PollOption text texts number unix second
  text_injective texts_injective number_injective)

/-! ## The fingerprint -/

theorem toDigits_injective : Function.Injective (Nat.toDigits 10) := by
  intro m n h
  have hstops : Json.Stops [] := nofun
  exact (Json.toDigits_append hstops hstops (by rw [h])).1

theorem ForwardReference.json_injective : Function.Injective ForwardReference.json := by
  intro v w h
  obtain ⟨userID, username, createdAt, names⟩ := v
  obtain ⟨userID', username', createdAt', names'⟩ := w
  have hentry : Function.Injective fun x : ℕ × String => (Nat.toDigits 10 x.1, text x.2) := by
    rintro ⟨a, s⟩ ⟨b, t⟩ heq
    obtain ⟨hdigits, hname⟩ := Prod.mk.inj heq
    exact Prod.ext (toDigits_injective hdigits) (text_injective hname)
  simp only [ForwardReference.json, Json.obj.injEq, cons_append, nil_append,
    cons.injEq, Prod.mk.injEq, true_and, Json.num.injEq, and_true] at h
  obtain ⟨⟨huser, hname⟩, rfl, hnames⟩ := h
  rw [number_injective huser, text_injective hname]
  by_cases hempty : names = [] <;> by_cases hempty' : names' = []
  · rw [hempty, hempty']
  · simp [hempty, hempty'] at hnames
  · simp [hempty, hempty'] at hnames
  · simp only [hempty, hempty', if_false, cons.injEq, Prod.mk.injEq, true_and, Json.obj.injEq,
      and_true] at hnames
    rw [hentry.list_map hnames]

theorem idsJson_injective : Function.Injective idsJson :=
  Message.option_injective nofun texts_injective

theorem pollJson_injective : Function.Injective pollJson :=
  Message.option_injective nofun PollInput.json_injective

theorem forwardJson_injective : Function.Injective forwardJson :=
  Message.option_injective nofun ForwardReference.json_injective

/-- What a request asks for, apart from its key. -/
def DirectInput.asked (i : DirectInput) :
    String × Option (List String) × Option PollInput × Option ForwardReference :=
  (i.content, i.attachmentIDs, i.poll, i.forward)

variable {i i' : DirectInput} {f : Primitives} {now now' : ℤ}

theorem DirectInput.json_injective : i.json = i'.json ↔ i.asked = i'.asked := by
  obtain ⟨ids, content, key, poll, forward⟩ := i
  obtain ⟨ids', content', key', poll', forward'⟩ := i'
  constructor
  · intro h
    have hparts : content = content' ∧ ids = ids' ∧ poll = poll' ∧ forward = forward' := by
      unfold json at h
      split at h <;> split at h
      · simp only [Json.arr.injEq, cons.injEq, and_true] at h
        exact ⟨text_injective h.1, idsJson_injective h.2.1, pollJson_injective h.2.2.1,
          forwardJson_injective h.2.2.2⟩
      · simp at h
      · simp at h
      next hplain hplain' =>
        simp only [not_or, Bool.not_eq_true, isSome_eq_false_iff, isNone_iff_eq_none]
          at hplain hplain'
        simp only [Json.arr.injEq, cons.injEq, and_true] at h
        exact ⟨text_injective h.1, idsJson_injective h.2, hplain.1.trans hplain'.1.symm,
          hplain.2.trans hplain'.2.symm⟩
    simp only [asked, hparts]
  · intro h
    simp only [asked, Prod.mk.injEq] at h
    simp only [json, h]

/-! ## The checks -/

theorem validate_congr {p q q' : PollInput}
    (h : p.validate f now = .ok q) (h' : p.validate f now' = .ok q') : q = q' := by
  unfold PollInput.validate at h h'
  simp only at h h'
  split at h
  · cases h
  · split at h'
    · cases h'
    · cases hoptions : Message.validateOptions f [] p.options with
      | none =>
        rw [hoptions] at h
        cases h
      | some options =>
        rw [hoptions] at h h'
        exact (ok.inj h).symm.trans (ok.inj h')

theorem checkPoll_congr {poll q q' : Option PollInput}
    (h : checkPoll f now poll = .ok q) (h' : checkPoll f now' poll = .ok q') : q = q' := by
  cases poll with
  | none => exact (ok.inj h).symm.trans (ok.inj h')
  | some p =>
    simp only [checkPoll] at h h'
    split at h
    next hvalid =>
      split at h'
      next hvalid' =>
        cases h
        cases h'
        rw [validate_congr hvalid hvalid']
      · cases h'
    · cases h

theorem DirectInput.prepare_cases
    (h : i.prepare f now = .ok i') : ∃ poll, checkPoll f now i.poll = .ok poll ∧
      i' = { i with content := i.body poll, poll := poll } := by
  obtain ⟨poll, hpoll, h⟩ := bind_eq_ok.mp h
  simp only at h
  split at h
  · cases h
  · exact ⟨poll, hpoll, (ok.inj h).symm⟩

theorem DirectInput.asked_prepare {j j' : DirectInput}
    (hi : i.prepare f now = .ok i') (hj : j.prepare f now' = .ok j') (h : i.asked = j.asked) :
    i'.asked = j'.asked := by
  obtain ⟨ids, content, key, poll, forward⟩ := i
  obtain ⟨ids', content', key', poll', forward'⟩ := j
  simp only [asked, Prod.mk.injEq] at h
  obtain ⟨rfl, rfl, rfl, rfl⟩ := h
  obtain ⟨p, hp, rfl⟩ := prepare_cases hi
  obtain ⟨q, hq, rfl⟩ := prepare_cases hj
  obtain rfl := checkPoll_congr hp hq
  rfl

namespace Conversations

variable {f : Primitives} {db db' : Conversations} {r : DirectRequest} {input : DirectInput}
  {sent : DirectSent}
  {conversation owner : ℕ} {row : DirectRow}

/-! ## What a send does -/

theorem storePoll_cases {id : ℕ} {now : ℤ} {poll : Option PollInput}
    (h : db.storePoll f id now poll = .ok db') :
    ∃ polls pollOptions, db' = { db with polls := polls, pollOptions := pollOptions } := by
  cases poll with
  | none => exact ⟨_, _, (ok.inj h).symm⟩
  | some p =>
    simp only [storePoll] at h
    split at h
    · cases h
    · exact ⟨_, _, (ok.inj h).symm⟩

theorem linkAttachments_cases {message : ℕ} {ids : List String}
    (h : linkAttachments message conversation owner db ids = .ok db') :
    ∃ attachments, db' = { db with attachments := attachments } := by
  induction ids generalizing db with
  | nil => exact ⟨_, (ok.inj h).symm⟩
  | cons id ids ih =>
    unfold linkAttachments at h
    split at h
    · obtain ⟨attachments, rfl⟩ := ih h
      exact ⟨attachments, rfl⟩
    · cases h

theorem store_cases (h : db.store f r input = .ok (sent, db')) :
    sent.message.id = db.messages.next ∧ sent.replayed = false ∧
      db'.messages.toTable = db.messages.toTable.insert (newRow f r input) := by
  unfold store at h
  split at h
  next hfree =>
    obtain ⟨polled, hpoll, h⟩ := bind_eq_ok.mp h
    obtain ⟨linked, hlink, h⟩ := bind_eq_ok.mp h
    obtain ⟨polls, pollOptions, rfl⟩ := storePoll_cases hpoll
    obtain ⟨attachments, rfl⟩ := linkAttachments_cases hlink
    cases h
    exact ⟨rfl, rfl, rfl⟩
  · cases h

theorem createDirect_eq (hprepare : r.input.prepare f r.checkedAt = .ok input)
    (hrequire : r.access.require r.author = .ok ()) :
    db.createDirect f r = match db.messages.find r.key with
      | some (id, row) =>
        if row.requestHash ≠ input.hash f then .error .conflict
        else .ok (⟨⟨id, row, db.attached id⟩, true, []⟩, db)
      | none => db.store f r input := by
  rw [createDirect, hprepare, hrequire]
  cases hfind : db.messages.find r.key with
  | none => rfl
  | some x =>
    show (if x.2.requestHash ≠ input.hash f then _ else _) = (if x.2.requestHash ≠ input.hash f then
      _ else _)
    split <;> rfl

theorem createDirect_cases (h : db.createDirect f r = .ok (sent, db')) :
    (sent.replayed = true ∧ db' = db ∧ (db.messages.find r.key).isSome) ∨
    ∃ input, r.input.prepare f r.checkedAt = .ok input ∧ db.messages.find r.key = none ∧
      db.store f r input = .ok (sent, db') := by
  obtain ⟨input, hprepare, hrest⟩ := bind_eq_ok.mp h
  obtain ⟨⟨⟩, hrequire, -⟩ := bind_eq_ok.mp hrest
  rw [createDirect_eq hprepare hrequire] at h
  cases hfind : db.messages.find r.key with
  | some x =>
    simp only [hfind] at h
    split at h
    · cases h
    · cases h
      exact .inl ⟨rfl, rfl, rfl⟩
  | none =>
    simp only [hfind] at h
    exact .inr ⟨input, hprepare, rfl, h⟩

/-! ## What an operation does to the rows -/

theorem upload_cases {id : String}
    (h : db.upload id conversation owner = .ok db') : db'.messages = db.messages := by
  unfold upload at h
  split at h
  · cases h
  · cases h
    rfl

theorem copyAttachment_cases {id : String} {outcome : Except Error Unit}
    (h : db.copyAttachment id conversation owner outcome = .ok db') :
    db'.messages = db.messages := by
  unfold copyAttachment at h
  split at h
  · cases h
    rfl
  · obtain ⟨-, -, h⟩ := bind_eq_ok.mp h
    exact upload_cases h

theorem messages_copyAttachments (files : List SourceFile) (i : ℕ) :
    (copyAttachments f r db i files).2.messages = db.messages := by
  induction files generalizing db i with
  | nil => rfl
  | cons file files ih =>
    unfold copyAttachments
    split
    · rfl
    next hcopy => exact (ih (i + 1)).trans (copyAttachment_cases hcopy)

theorem messages_forwardMessage (f : Primitives) (db : Conversations) (r : ForwardRequest) :
    (db.forwardMessage f r).2.messages = db.messages := by
  unfold forwardMessage
  split
  · rfl
  · split
    · rfl
    · rfl
    · exact messages_copyAttachments _ 0

theorem forwardMessage_request {r : ForwardRequest} {d : DirectRequest}
    (h : (db.forwardMessage f r).1 = .ok d) : d.key = r.direct.key := by
  unfold forwardMessage at h
  split at h
  · cases h
  · split at h
    · cases h
    · cases h
    · obtain ⟨ids, -, rfl⟩ := map_eq_ok.mp h
      rfl

/-! ## The messages a run creates -/

/-- A message that was created: the request, the id it got and the tables it found. -/
structure Creation where
  request : DirectRequest
  id : ℕ
  before : Conversations

/-- The message a send creates, if it does. -/
def accept (f : Primitives) (db : Conversations) : Except Error DirectRequest → Option Creation
  | .ok r => match db.createDirect f r with
    | .ok (sent, _) => if sent.replayed then none else some ⟨r, sent.message.id, db⟩
    | .error _ => none
  | .error _ => none

def created (f : Primitives) (db : Conversations) : Op → Option Creation
  | .createDirect r => db.accept f (.ok r)
  | .forward r => (db.forwardMessage f r).2.accept f (db.forwardMessage f r).1
  | _ => none

def creations (f : Primitives) (db : Conversations) (ops : List Op) : List Creation :=
  logged (apply f) (created f) db ops

variable {op : Op} {ops : List Op} {c : Creation}

theorem request_of_accept (h : db.accept f (.ok r) = some c) : c.request = r := by
  simp only [accept] at h
  split at h
  · split at h
    · cases h
    · exact congrArg Creation.request (some.inj h).symm
  · cases h

structure Inserts (f : Primitives) (db : Conversations) (c : Creation) (db' : Conversations) :
    Prop where
  id : c.id = db.messages.next
  before : c.before.messages = db.messages
  free : db.messages.find c.request.key = none
  row : ∃ input, c.request.input.prepare f c.request.checkedAt = .ok input ∧
    db'.messages.toTable = db.messages.toTable.insert (newRow f c.request input)

/-- An operation that creates no message takes none away, but for the deletion of a saved one, and
leaves keys and fingerprints alone. -/
structure Retains (op : Op) (db db' : Conversations) : Prop where
  next : db'.messages.next = db.messages.next
  row : ∀ id row', db'.messages.get id = some row' → ∃ row, db.messages.get id = some row ∧
    row'.key = row.key ∧ row'.requestHash = row.requestHash
  gone : ∀ id row, db.messages.get id = some row → db'.messages.get id = none →
    ∃ d, op = .deleteSaved d ∧ d.message = id

theorem Retains.of_messages_eq (h : db'.messages = db.messages) : Retains op db db' where
  next := by rw [h]
  row := by
    rw [h]
    exact fun id row hget => ⟨row, hget, rfl, rfl⟩
  gone := by
    rw [h]
    intro id row hget hgone
    rw [hget] at hgone
    cases hgone

theorem send_cases (f : Primitives) (db : Conversations) (x : Except Error DirectRequest) :
    (db.accept f x = none ∧ db.send f x = db) ∨
    ∃ c, db.accept f x = some c ∧ Inserts f db c (db.send f x) := by
  cases x with
  | error e => exact .inl ⟨rfl, rfl⟩
  | ok r =>
    cases hcreate : db.createDirect f r with
    | error e =>
      left
      simp [accept, send, hcreate, commit, Except.map]
    | ok y =>
      obtain ⟨sent, db'⟩ := y
      have hsend : db.send f (.ok r) = db' := by simp [send, hcreate, commit, Except.map]
      rcases createDirect_cases hcreate with
        ⟨hreplayed, heq, -⟩ | ⟨input, hprepare, hfree, hstore⟩
      · exact .inl ⟨by simp [accept, hcreate, hreplayed], by rw [hsend, heq]⟩
      · obtain ⟨hid, hreplayed, hinsert⟩ := store_cases hstore
        refine .inr ⟨⟨r, sent.message.id, db⟩, by simp [accept, hcreate, hreplayed], hid, rfl,
          hfree, ?_⟩
        rw [hsend]
        exact ⟨input, hprepare, hinsert⟩

theorem Retains.of_alter {g : ℕ → DirectRow → Option DirectRow}
    (h : db'.messages.toTable = db.messages.toTable.alter g)
    (hrow : ∀ id row row', g id row = some row' → row'.key = row.key ∧
    row'.requestHash = row.requestHash)
    (hgone : ∀ id row, g id row = none → ∃ d, op = .deleteSaved d ∧ d.message = id) :
    Retains op db db' where
  next := by rw [h, next_alter]
  row id row' hget := by
    rw [h, get_alter] at hget
    obtain ⟨row, hold, hnew⟩ := bind_eq_some_iff.mp hget
    exact ⟨row, hold, hrow id row row' hnew⟩
  gone id row hget hnone := by
    rw [h, get_alter, hget, bind_some] at hnone
    exact hgone id row hnone

theorem retains_deleteSaved (d : SavedRequest) :
    Retains (.deleteSaved d) db (db.apply f (.deleteSaved d)) := by
  show Retains _ _ (db.commit (db.deleteSaved d))
  unfold deleteSaved
  split
  · refine .of_alter rfl ?_ ?_
    · intro id row row' hsome
      split at hsome
      · cases hsome
      · cases hsome
        exact ⟨rfl, rfl⟩
    · intro id row hnone
      split at hnone
      next hselects =>
        simp only [SavedRequest.selects, Bool.decide_and, Bool.and_eq_true, decide_eq_true_eq]
          at hselects
        exact ⟨d, rfl, hselects.1.symm⟩
      · cases hnone
  · exact .of_messages_eq rfl

theorem retains_savedNote (d : SavedRequest) (note : String) :
    Retains (.savedNote d note) db (db.apply f (.savedNote d note)) := by
  show Retains _ _ (db.commit (db.savedNote d note))
  unfold savedNote
  split
  · exact .of_messages_eq rfl
  · split
    · refine .of_alter rfl ?_ (fun id row hnone => nomatch hnone)
      intro id row row' hsome
      cases hsome
      split <;> exact ⟨rfl, rfl⟩
    · exact .of_messages_eq rfl

theorem apply_cases (f : Primitives) (db : Conversations) (op : Op) :
    (db.created f op = none ∧ Retains op db (db.apply f op)) ∨
    ∃ c, db.created f op = some c ∧ Inserts f db c (db.apply f op) := by
  cases op with
  | createDirect r =>
    rcases send_cases f db (.ok r) with ⟨hnone, hsend⟩ | hsome
    · exact .inl ⟨hnone, .of_messages_eq (congrArg messages hsend)⟩
    · exact .inr hsome
  | forward r =>
    have hmessages := messages_forwardMessage f db r
    rcases send_cases f (db.forwardMessage f r).2 (db.forwardMessage f r).1 with
      ⟨hnone, hsend⟩ | ⟨c, hsome, hinserts⟩
    · exact .inl ⟨hnone, .of_messages_eq ((congrArg messages hsend).trans hmessages)⟩
    · obtain ⟨hid, hbefore, hfree, hrow⟩ := hinserts
      rw [hmessages] at hid hbefore hfree hrow
      exact .inr ⟨c, hsome, hid, hbefore, hfree, hrow⟩
  | deleteSaved d => exact .inl ⟨rfl, retains_deleteSaved d⟩
  | savedNote d note => exact .inl ⟨rfl, retains_savedNote d note⟩
  | upload id conversation owner =>
    refine .inl ⟨rfl, .of_messages_eq ?_⟩
    show (db.commit (db.upload id conversation owner)).messages = _
    cases hupload : db.upload id conversation owner with
    | error e => rfl
    | ok db' => exact upload_cases hupload

theorem created_request (h : db.created f op = some c) :
    (∃ r, op = .createDirect r ∧ c.request.key = r.key) ∨
    ∃ r, op = .forward r ∧ c.request.key = r.direct.key := by
  cases op with
  | createDirect r => exact .inl ⟨r, rfl, congrArg DirectRequest.key (request_of_accept h)⟩
  | forward r =>
    refine .inr ⟨r, rfl, ?_⟩
    cases hforward : (db.forwardMessage f r).1 with
    | error e => simp [created, hforward, accept] at h
    | ok d =>
      simp only [created, hforward] at h
      rw [request_of_accept h]
      exact forwardMessage_request hforward
  | deleteSaved | savedNote | upload => cases h

/-! ## Which keys are taken -/

section Taken

variable {k : DirectKey}

theorem taken_of_get {id : ℕ} {row : DirectRow} (hget : db.messages.get id = some row)
    (hkey : row.key = k) : (db.messages.find k).isSome := by
  rw [db.messages.find_eq_some.mpr ⟨hget, congrArg some hkey⟩]
  rfl

theorem taken_of_apply (h : ((db.apply f op).messages.find k).isSome) :
    (db.messages.find k).isSome ∨ ∃ c, db.created f op = some c ∧ c.request.key = k := by
  obtain ⟨⟨id, row'⟩, hfind⟩ := isSome_iff_exists.mp h
  obtain ⟨hget, hkey⟩ := (Indexed.find_eq_some _).mp hfind
  rcases apply_cases f db op with ⟨-, hretains⟩ | ⟨c, hcreated, hinserts⟩
  · obtain ⟨row, hrow, hsame, -⟩ := hretains.row id row' hget
    exact .inl (taken_of_get hrow (hsame.symm.trans (some.inj hkey)))
  · obtain ⟨input, -, hinsert⟩ := hinserts.row
    rw [hinsert, get_insert] at hget
    split at hget
    · cases hget
      exact .inr ⟨c, hcreated, some.inj hkey⟩
    · exact .inl (taken_of_get hget (some.inj hkey))

theorem taken_of_created (h : db.created f op = some c) :
    ((db.apply f op).messages.find c.request.key).isSome := by
  rcases apply_cases f db op with ⟨hnone, -⟩ | ⟨c', hsome, hinserts⟩
  · rw [hnone] at h
    cases h
  · rw [hsome] at h
    cases h
    obtain ⟨input, -, hinsert⟩ := hinserts.row
    have hget :
      (db.apply f op).messages.get db.messages.next = some (newRow f c.request input) := by
      rw [hinsert, get_insert_next]
    exact taken_of_get hget rfl

theorem taken_apply_of_get {id : ℕ} {row : DirectRow} (hget : db.messages.get id = some row)
    (hkeep : ∀ d, op = .deleteSaved d → d.message ≠ id) :
    ((db.apply f op).messages.find row.key).isSome := by
  rcases apply_cases f db op with ⟨-, hretains⟩ | ⟨c, -, hinserts⟩
  · cases hafter : (db.apply f op).messages.get id with
    | none =>
      obtain ⟨d, hop, hid⟩ := hretains.gone id row hget hafter
      exact absurd hid (hkeep d hop)
    | some row' =>
      obtain ⟨row₀, hrow₀, hkey, -⟩ := hretains.row id row' hafter
      rw [hget] at hrow₀
      cases hrow₀
      exact taken_of_get hafter hkey
  · obtain ⟨input, -, hinsert⟩ := hinserts.row
    have hafter : (db.apply f op).messages.get id = some row := by
      rw [hinsert, get_insert_of_ne _ (Nat.ne_of_lt (lt_next_of_get hget)), hget]
    exact taken_of_get hafter rfl

theorem taken_apply (hop : ∀ d, op ≠ .deleteSaved d) : ((db.apply f op).messages.find k).isSome ↔
    (db.messages.find k).isSome ∨ ∃ c, db.created f op = some c ∧ c.request.key = k := by
  constructor
  · exact taken_of_apply
  · rintro (htaken | ⟨c, hcreated, rfl⟩)
    · obtain ⟨⟨id, row⟩, hfind⟩ := isSome_iff_exists.mp htaken
      obtain ⟨hget, hkey⟩ := (Indexed.find_eq_some _).mp hfind
      cases hkey
      exact taken_apply_of_get hget fun d hd => absurd hd (hop d)
    · exact taken_of_created hcreated

section

variable (h : db.createDirect f r = .ok (sent, db'))
include h

theorem created_or_taken :
    (db.created f (.createDirect r) = none ∧ db' = db ∧ (db.messages.find r.key).isSome) ∨
    ∃ c, db.created f (.createDirect r) = some c ∧ c.request = r ∧
      (db.messages.find r.key).isSome = false ∧
      ∀ k, (db'.messages.find k).isSome ↔ (db.messages.find k).isSome ∨ r.key = k := by
  rcases createDirect_cases h with ⟨hreplayed, heq, htaken⟩ | ⟨input, -, hfree, hstore⟩
  · exact .inl ⟨by simp [created, accept, h, hreplayed], heq, htaken⟩
  · have hreplayed := (store_cases hstore).2.1
    have hcreated : db.created f (.createDirect r) = some ⟨r, sent.message.id, db⟩ := by
      simp [created, accept, h, hreplayed]
    refine .inr ⟨_, hcreated, rfl, by simp [hfree], fun k => ?_⟩
    have happly : db.apply f (.createDirect r) = db' := by simp [apply, send, h, commit, Except.map]
    rw [← happly, taken_apply (by simp), hcreated]
    simp

end

end Taken

/-! ## The key of a message over time -/

/-- What is known of a created message as long as it is there. -/
structure Keyed (f : Primitives) (c : Creation) (db : Conversations) : Prop where
  born : c.id < db.messages.next
  row : ∀ row, db.messages.get c.id = some row → row.key = c.request.key ∧
    ∃ input, c.request.input.prepare f c.request.checkedAt = .ok input ∧
      row.requestHash = input.hash f

namespace Keyed

theorem of_inserts (h : Inserts f db c db') :
    Keyed f c db' ∧ ∃ row, db'.messages.get c.id = some row := by
  obtain ⟨input, hprepare, hinsert⟩ := h.row
  have hget : db'.messages.get c.id = some (newRow f c.request input) := by
    rw [hinsert, h.id, get_insert_next]
  refine ⟨⟨?_, ?_⟩, _, hget⟩
  · rw [hinsert, next_insert, h.id]
    exact Nat.lt_succ_self _
  · intro row hrow
    rw [hget] at hrow
    cases hrow
    exact ⟨rfl, input, hprepare, rfl⟩

theorem apply (h : Keyed f c db) (op : Op) : Keyed f c (db.apply f op) := by
  rcases apply_cases f db op with ⟨-, hretains⟩ | ⟨c', -, hinserts⟩
  · refine ⟨hretains.next ▸ h.born, ?_⟩
    intro row' hget
    obtain ⟨row, hrow, hkey, hhash⟩ := hretains.row c.id row' hget
    rw [hkey, hhash]
    exact h.row row hrow
  · obtain ⟨input, -, hinsert⟩ := hinserts.row
    constructor
    · rw [hinsert, next_insert]
      exact h.born.trans (Nat.lt_succ_self _)
    · rw [hinsert, get_insert_of_ne _ (Nat.ne_of_lt h.born)]
      exact h.row

theorem run (h : Keyed f c db) (ops : List Op) : Keyed f c (db.run f ops) :=
  foldl_preserves (fun _ op h => h.apply op) h

theorem find {row : DirectRow} (h : Keyed f c db) (hkey : r.key = c.request.key)
    (hget : db.messages.get c.id = some row) : db.messages.find r.key = some (c.id, row) :=
  db.messages.find_eq_some.mpr ⟨hget, congrArg some ((h.row row hget).1.trans hkey.symm)⟩

end Keyed

theorem deleted_of_gone {id : ℕ} (hget : db.messages.get id = some row)
    (hgone : (db.run f ops).messages.get id = none) :
    ∃ d, Op.deleteSaved d ∈ ops ∧ d.message = id := by
  induction ops generalizing db row with
  | nil =>
    rw [show (db.run f []).messages.get id = some row from hget] at hgone
    cases hgone
  | cons op ops ih =>
    cases hnext : (db.apply f op).messages.get id with
    | some row' =>
      obtain ⟨d, hd, hid⟩ := ih hnext hgone
      exact ⟨d, mem_cons_of_mem op hd, hid⟩
    | none =>
      rcases apply_cases f db op with ⟨-, hretains⟩ | ⟨c, -, hinserts⟩
      · obtain ⟨d, rfl, hid⟩ := hretains.gone id row hget hnext
        exact ⟨d, mem_cons_self, hid⟩
      · obtain ⟨input, -, hinsert⟩ := hinserts.row
        rw [hinsert, get_insert_of_ne _ (Nat.ne_of_lt (lt_next_of_get hget)), hget] at hnext
        cases hnext

theorem inserts_of_created (h : db.created f op = some c) : Inserts f db c (db.apply f op) := by
  rcases apply_cases f db op with ⟨hnone, -⟩ | ⟨c', hsome, hinserts⟩
  · rw [hnone] at h
    cases h
  · rw [hsome] at h
    cases h
    exact hinserts

theorem keyed_of_mem_creations (h : c ∈ creations f db ops) : Keyed f c (db.run f ops) := by
  obtain ⟨pre, op, post, rfl, hcreated⟩ := mem_logged h
  have hkeyed := (Keyed.of_inserts (inserts_of_created hcreated)).1.run post
  rwa [Conversations.run, foldl_append]

/-! ## Requests with a key that is taken -/

theorem Keyed.answer {asked : DirectInput} (h : Keyed f c db)
    (hget : db.messages.get c.id = some row) (hkey : r.key = c.request.key)
    (hrequire : r.access.require r.author = .ok ())
    (hinput : c.request.input.prepare f c.request.checkedAt = .ok input)
    (hasked : r.input.prepare f r.checkedAt = .ok asked) :
    db.createDirect f r = if input.hash f ≠ asked.hash f then .error .conflict
      else .ok (⟨⟨c.id, row, db.attached c.id⟩, true, []⟩, db) := by
  obtain ⟨-, input', hinput', hhash⟩ := h.row row hget
  rw [hinput] at hinput'
  cases hinput'
  rw [createDirect_eq hasked hrequire, h.find hkey hget, ← hhash]

/-! ## Sends over a run -/

theorem gone_before_second {a b : Creation} {db'' : Conversations} (ha : Inserts f db a db')
    (hb : Inserts f (db'.run f ops) b db'') (hkey : a.request.key = b.request.key) :
    (db'.run f ops).messages.get a.id = none ∧ ∃ d, Op.deleteSaved d ∈ ops ∧ d.message = a.id := by
  obtain ⟨hkeyed, row, hrow⟩ := Keyed.of_inserts ha
  have hgone : (db'.run f ops).messages.get a.id = none := by
    cases hget : (db'.run f ops).messages.get a.id with
    | none => rfl
    | some row' =>
      have hfind := (hkeyed.run ops).find hkey.symm hget
      rw [hb.free] at hfind
      cases hfind
  exact ⟨hgone, deleted_of_gone hrow hgone⟩

/-- **Direct sends with a key.** Over every run, a key creates a second message only after the first
one was deleted from the saved messages. As long as a created message is there, an author who may
send is answered as follows to a request with its key that passes the checks: if it asks for the
same (and a request that was equal before the checks is), with the id of the message, and nothing is
written or emitted; if not, with a conflict. -/
theorem direct_sends_by_key (f : Primitives) (hf : Function.Injective f.sha256) (db : Conversations)
    (ops : List Op) : ((creations f db ops).Pairwise fun a b => a.request.key = b.request.key →
      b.before.messages.get a.id = none ∧ ∃ d, Op.deleteSaved d ∈ ops ∧ d.message = a.id) ∧
    ∀ c ∈ creations f db ops, ∀ row, (db.run f ops).messages.get c.id = some row →
      ∀ (r : DirectRequest) (input asked : DirectInput), r.key = c.request.key →
        r.access.require r.author = .ok () →
        c.request.input.prepare f c.request.checkedAt = .ok input →
        r.input.prepare f r.checkedAt = .ok asked →
        (r.input.asked = c.request.input.asked → asked.asked = input.asked) ∧
        (asked.asked = input.asked → (db.run f ops).createDirect f r =
          .ok (⟨⟨c.id, row, (db.run f ops).attached c.id⟩, true, []⟩, db.run f ops)) ∧
        (asked.asked ≠ input.asked → (db.run f ops).createDirect f r = .error .conflict) := by
  constructor
  · refine pairwise_logged ?_
    intro pre op mid op' post a b hops ha hb hkey
    have hinserts' := inserts_of_created hb
    obtain ⟨hgone, d, hd, hid⟩ := gone_before_second (inserts_of_created ha) hinserts' hkey
    refine ⟨?_, d, ?_, hid⟩
    · rw [hinserts'.before]
      exact hgone
    · rw [hops]
      exact mem_append_right _ (mem_cons_of_mem _ (mem_append_left _ hd))
  · intro c hc row hget r input asked hkey hrequire hinput hasked
    rw [(keyed_of_mem_creations hc).answer hget hkey hrequire hinput hasked]
    refine ⟨asked_prepare hasked hinput, fun hsame => if_neg (not_not.mpr ?_), fun hother =>
      if_pos ?_⟩
    · rw [DirectInput.hash, DirectInput.hash, json_injective.mpr hsame]
    · intro hequal
      exact hother (json_injective.mp (Json.marshal_injective (hf hequal))).symm

def saveUnderKey (content : String) (poll : Option PollInput) (now : ℤ) : DirectRequest where
  access := ⟨true, true, [7], true, []⟩
  conversation := 3
  author := 7
  input := ⟨none, content, "k", poll, none⟩
  checkedAt := now
  insertedAt := now
  polledAt := now

/-- A text and another text under the same key. -/
theorem direct_sends_by_key_texts :
    (empty.run .verbatim [.createDirect (saveUnderKey "one" none 0)]).createDirect .verbatim
      (saveUnderKey "two" none 0) = .error .conflict := by
  have hmem : (⟨saveUnderKey "one" none 0, 1, empty⟩ : Creation) ∈
      creations .verbatim empty [.createDirect (saveUnderKey "one" none 0)] :=
    mem_singleton_self _
  exact ((direct_sends_by_key .verbatim Function.injective_id empty
    [.createDirect (saveUnderKey "one" none 0)]).2 _ hmem _ rfl (saveUnderKey "two" none 0)
    ⟨none, "one", "k", none, none⟩ ⟨none, "two", "k", none, none⟩ rfl rfl rfl rfl).2.2 (by decide)

/-- **A deleted message comes back.** A message is saved and deleted, and the same request arrives
again: a second message is created under the key. And a request with a poll that is sent again when
the poll is over is not answered with its message. -/
theorem saved_message_brought_back :
    ((creations .verbatim empty [.createDirect (saveUnderKey "note" none 0),
        .deleteSaved ⟨3, 1, some 7, 7⟩, .createDirect (saveUnderKey "note" none 0)]).map fun c =>
      (c.request.key, c.id)) = [(⟨3, 7, "k"⟩, 1), (⟨3, 7, "k"⟩, 2)] ∧
    (let poll : PollInput := ⟨"question", ["yes", "no"], false, false, 60⟩
     let saved := empty.run .verbatim [.createDirect (saveUnderKey "note" (some poll) 0)]
     (saved.messages.get 1).isSome ∧
      (saved.createDirect .verbatim
      (saveUnderKey "note" (some poll) (60 * second))).toOption.isNone) := by
  decide +kernel

end Conversations

end Voxhold.Community
