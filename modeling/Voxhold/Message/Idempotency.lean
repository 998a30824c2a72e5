/-
# Voxhold.Message.Idempotency — a channel send and its retries

The key of a send has a row of its own, with the fingerprint and a reference to the message; the key
stays when the message goes (`Keyed`). So a key never creates a second message, an equal request is
answered with the first one, and another one is refused.
-/

import Voxhold.Message.Fingerprint
import Voxhold.Message.Writes

namespace Voxhold.Message

open Voxhold.Lib

namespace Database

variable {f : Primitives} {db db' : Database} {c : Creation} {r : CreateRequest} {row : Row}
  {now : ℤ} {role : Role} {ch : ChannelRow}

/-! ## The key of a message over time -/

/-- What is stored under the key of a message that was created. -/
structure Keyed (f : Primitives) (c : Creation) (db : Database) : Prop where
  key : db.sendKeys c.request.key = some
    ⟨(requestHash f c.request.input c.request.forward).2, (db.messages.get c.id).map fun _ => c.id,
      (requestHash f c.request.input c.request.forward).1⟩
  born : c.id < db.messages.next
  channel : ∀ row, db.messages.get c.id = some row → row.channel = c.request.channel

namespace Keyed

theorem congr (h : Keyed f c db) (hkeys : db'.sendKeys = db.sendKeys)
    (hmessages : db'.messages = db.messages) : Keyed f c db' where
  key := by rw [hkeys, hmessages, h.key]
  born := hmessages ▸ h.born
  channel := hmessages ▸ h.channel

theorem setRow {id channel : ℕ} {g : Row → Row} (hg : Amends g) (h : Keyed f c db) :
    Keyed f c (db.setRow id channel g now) where
  key := by
    rw [sendKeys_setRow, h.key, messages_setRow, Table.get_modify]
    split
    · rw [Option.map_map]
      rfl
    · rfl
  born := h.born
  channel row hget := by
    rw [messages_setRow, Table.get_modify] at hget
    split at hget
    · obtain ⟨row, hrow, rfl⟩ := Option.map_eq_some_iff.mp hget
      rw [← Row.channel_fixed, hg.fixed]
      exact h.channel row hrow
    · exact h.channel row hget

theorem detachRow {id : ℕ} (h : Keyed f c db) : Keyed f c (db.detachRow id) where
  key := by
    show (db.sendKeys c.request.key).map _ = _
    rw [h.key, get_detachRow]
    by_cases hid : c.id = id
    · rw [if_pos hid]
      cases hget : db.messages.get c.id with
      | none => simp
      | some row => simp [hid]
    · rw [if_neg hid]
      cases hget : db.messages.get c.id with
      | none => simp
      | some row => simp [hid]
  born := h.born
  channel row hget := by
    obtain ⟨row, hrow, rfl⟩ := of_get_detachRow hget
    rw [← Row.channel_fixed, Row.fixed_forgetReply]
    exact h.channel row hrow

theorem write (hwrite : Write db db') (h : Keyed f c db) : Keyed f c db' := by
  cases hwrite with
  | set now _ hg => exact h.setRow hg
  | remove now _ => exact (h.congr sendKeys_journal messages_journal).detachRow
  | attach | prune => exact h.congr rfl rfl
  | key contentHash kind hfree hget hchannel =>
    refine ⟨?_, h.born, h.channel⟩
    -- Another key is stored: the one of this message is taken.
    have hne : c.request.key ≠ _ :=
      fun heq => Option.some_ne_none _ (h.key.symm.trans (heq ▸ hfree))
    rw [← h.key]
    exact Function.update_of_ne hne _ _

theorem insertRow (h : Keyed f c db) : Keyed f c (db.insertRow row now) where
  key := by
    rw [sendKeys_insertRow, h.key, messages_insertRow,
      Table.get_insert_of_ne _ (Nat.ne_of_lt h.born)]
  born := h.born.trans (Nat.lt_succ_self _)
  channel := by
    rw [messages_insertRow, Table.get_insert_of_ne _ (Nat.ne_of_lt h.born)]
    exact h.channel

theorem run (h : Keyed f c db) (ops : List Op) : Keyed f c (db.run f ops) :=
  run_induction (R := fun db db' => Keyed f c db → Keyed f c db') (fun _ h => h)
    (fun h h' hc => h' (h hc)) write (fun _ _ => insertRow) f db ops h

end Keyed

theorem keyed_of_creates (hid : c.id = db.messages.next)
    (hkey : c.request.input.clientMessageID ≠ "")
    (h : Creates f db c.request c.row db') : Keyed f c db' where
  key := by
    have hget : db'.messages.get c.id = some c.row := hid ▸ h.get
    obtain ⟨-, inserted, linked, -, ⟨attachments, polls, pollOptions, rfl⟩, hdb'⟩ :=
      store_cases h.stored
    rw [hget, hdb', storeKey, if_neg hkey, hid]
    exact Function.update_self _ _ _
  born := by
    rw [hid, h.next_eq]
    exact Nat.lt_succ_self _
  channel row hget := by
    rw [hid, h.get] at hget
    cases hget
    exact h.channel

/-! ## Requests with a key that is taken -/

/-- The answer to a request that was made before: its message, or that it is gone. -/
def answerWith (db : Database) (id : ℕ) : Except Error (Sent × Database) :=
  match db.messages.get id with
  | some row => .ok (⟨id, row, true⟩, db)
  | none => .error .messageNotFound

theorem createReferenced_of_key {k : SendKey}
    (hkey : db.findKey r = some k) (haccess : r.standing.access = .ok (role, ch)) :
    db.createReferenced f r = (db.replay f r k).map fun sent => (sent, db) := by
  simp only [createReferenced, haccess, hkey]
  rfl

section

variable (h : Keyed f c db) (hkey : r.key = c.request.key)
  (hne : c.request.input.clientMessageID ≠ "")
include h hkey hne

theorem Keyed.findKey : db.findKey r = some
      ⟨(requestHash f c.request.input c.request.forward).2, (db.messages.get c.id).map fun _ =>
      c.id,
        (requestHash f c.request.input c.request.forward).1⟩ := by
  have hid : r.input.clientMessageID = c.request.input.clientMessageID :=
    congrArg SendID.clientMessageID hkey
  rw [Database.findKey, if_neg (hid ▸ hne), hkey, h.key]

theorem Keyed.answer_same (haccess : r.standing.access = .ok (role, ch))
    (hsame : SameRequest c.request.input r.input c.request.forward r.forward) :
    db.createReferenced f r = db.answerWith c.id := by
  have hchannel : r.channel = c.request.channel := congrArg SendID.channel hkey
  rw [createReferenced_of_key (h.findKey hkey hne) haccess, replay, requestHash, requestHash,
    requestSource_congr hsame, if_neg (by simp), answerWith]
  cases hget : db.messages.get c.id with
  | none => rfl
  | some row =>
    have hfind : db.findMessage r.channel c.id = some row := by
      simp [findMessage, hget, Option.filter, hchannel, h.channel row hget]
    simp only [Option.map_some, hfind]
    rfl

theorem Keyed.answer_other (hf : Function.Injective f.sha256)
    (haccess : r.standing.access = .ok (role, ch))
    (hother : requestSource c.request.input c.request.forward ≠ requestSource r.input r.forward) :
    db.createReferenced f r = .error .idempotencyConflict := by
  rw [createReferenced_of_key (h.findKey hkey hne) haccess, replay, if_pos]
  · rfl
  · by_contra hequal
    push Not at hequal
    exact hother (Prod.ext hequal.2 (hf hequal.1))

theorem Keyed.apply_eq : db.apply f (.create r) = db := by
  cases hcreate : db.createReferenced f r with
  | error e => exact apply_create_of_error hcreate
  | ok x =>
    rw [apply_create_of_ok hcreate]
    rcases createReferenced_creates hcreate with ⟨-, heq⟩ | ⟨-, hcreates⟩
    · exact heq
    · cases (h.findKey hkey hne).symm.trans hcreates.free

end

/-! ## Sends over a run -/

theorem keyed_of_mem_creations {ops : List Op} (hc : c ∈ creations f db ops)
    (hne : c.request.input.clientMessageID ≠ "") : Keyed f c (db.run f ops) := by
  obtain ⟨pre, post, rfl, hbefore, hid, hcreates⟩ := mem_creations hc
  have hrun := (keyed_of_creates hid hne hcreates).run post
  rw [hbefore] at hrun
  rwa [Database.run, List.foldl_append]

/-- **Sends with a key.** Over every run, no key creates two messages; and after a message was
created with a key, a request with that key writes nothing. If it is the request the message was
created by, a caller with access is answered with the message, or that it is gone; if it is another
one, it is refused as a conflict, for requests as the service makes them and unless one is mistaken
for the other. -/
theorem sends_by_key (f : Primitives) (hf : Function.Injective f.sha256) (db : Database)
    (ops : List Op) : ((creations f db ops).Pairwise fun a b =>
      a.request.input.clientMessageID ≠ "" → a.request.key ≠ b.request.key) ∧
    ∀ c ∈ creations f db ops, c.request.input.clientMessageID ≠ "" → ∀ r : CreateRequest,
      r.key = c.request.key → (∃ found, r.standing.access = .ok found) →
        (db.run f ops).apply f (.create r) = db.run f ops ∧
        (SameRequest c.request.input r.input c.request.forward r.forward →
          (db.run f ops).createReferenced f r = (db.run f ops).answerWith c.id) ∧
        (¬ SameRequest c.request.input r.input c.request.forward r.forward →
          FromService c.request.input c.request.forward → FromService r.input r.forward →
          ¬ Mistaken (c.request.input.shape c.request.forward) (r.input.shape r.forward)
            c.request.input.poll r.input.poll →
          (db.run f ops).createReferenced f r = .error .idempotencyConflict) := by
  constructor
  · refine pairwise_creations ?_
    intro db a b first pre post _ hid hcreates hbefore' hcreates' hne hkey
    have hkeyed := (keyed_of_creates hid hne hcreates).run pre
    rw [← hbefore'] at hkeyed
    cases (hkeyed.findKey hkey.symm hne).symm.trans hcreates'.free
  · rintro c hc hne r hkey ⟨⟨role, ch⟩, haccess⟩
    have hkeyed := keyed_of_mem_creations hc hne
    refine ⟨hkeyed.apply_eq hkey hne, hkeyed.answer_same hkey hne haccess, ?_⟩
    intro hother hservice hservice' hmistaken
    refine hkeyed.answer_other hkey hne hf haccess fun heq => hother ?_
    exact requestSource_injective hservice hservice' hmistaken heq

/-- A send of user 7 to channel 1 under the key `k`, in the first second. -/
def sendUnderKey (content : String) (reply : Option ℕ) (poll : Option PollInput) : CreateRequest :=
  { CreateRequest.plain (.writer 0) 1 7 content second with
    input := ⟨poll, [], none, content, "k", reply⟩ }

/-- A text and another text under the same key. -/
theorem sends_by_key_texts :
    ((Database.empty.run .verbatim [.create (sendUnderKey "one" none none)]).createReferenced
    .verbatim
      (sendUnderKey "two" none none)) = .error .idempotencyConflict := by
  have hmem : (⟨sendUnderKey "one" none none, 1, ⟨1, 7, "one", 1, none, 1, none, none, none, none⟩,
      .empty⟩ : Creation) ∈ creations .verbatim .empty [.create (sendUnderKey "one" none none)] :=
    List.mem_singleton_self _
  have hanswers := (sends_by_key .verbatim Function.injective_id .empty
    [.create (sendUnderKey "one" none none)]).2 _ hmem (by decide)
    (sendUnderKey "two" none none) rfl ⟨_, rfl⟩
  refine hanswers.2.2 (fun hsame => ?_) nofun nofun (fun hmistaken => ?_)
  · exact absurd hsame.content (by decide)
  · exact absurd hmistaken.1 (by decide)

/-- **A retry that is another request.** A poll is sent with a text that looks like an encoded
reply. A reply to message 5 with the same poll under the same key then has the same fingerprint: it
is answered with the first message, and not refused. -/
theorem retry_of_other_request :
    let poll : PollInput := ⟨"question", ["yes", "no"], false, false, 60⟩
    let first := sendUnderKey "[\"hi\",5]" none (some poll)
    let other := sendUnderKey "hi" (some 5) (some poll)
    other.key = first.key ∧ ¬ SameRequest first.input other.input first.forward other.forward ∧
      FromService first.input first.forward ∧ FromService other.input other.forward ∧
      ((Database.empty.run .verbatim [.create first]).createReferenced .verbatim other).toOption.map
        (fun x => (x.1.id, x.1.replayed)) = some (1, true) :=
  ⟨rfl, fun hsame => absurd hsame.reply (by decide), nofun, nofun, by decide +kernel⟩

end Database

end Voxhold.Message
