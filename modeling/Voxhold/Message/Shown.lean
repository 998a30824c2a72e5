/-
# Voxhold.Message.Shown — what a message shows, and whether the journal covers it

`hydrateInteractions` puts together what a reader is shown of a message from several tables. The
journal only learns of a change in them if a trigger counts up the revision of the message.
-/

import Mathlib.Data.List.Sort
import Voxhold.Message.Writes

namespace Voxhold.Message

open Voxhold.Lib List Table

/-! ## What is shown -/

structure ReplyReference where
  messageID : ℕ
  author : ℕ
  content : String
  revision : ℕ
  deleted : Bool
deriving DecidableEq

structure ReactionCount where
  emoji : String
  count : ℕ
  me : Bool
deriving DecidableEq

structure AttachmentView where
  id : String
  file : FileInfo
  deleted : Bool
deriving DecidableEq

structure OptionView where
  id : ℕ
  label : String
  count : ℕ
  me : Bool
  voters : List ℕ
deriving DecidableEq

structure PollView where
  id : ℕ
  question : String
  multiple : Bool
  anonymous : Bool
  closesAt : ℤ
  revision : ℕ
  options : List OptionView
deriving DecidableEq

structure Shown where
  content : String
  editedAt : Option ℤ
  reply : Option ReplyReference
  forwardData : Option String
  threadRoot : Option ℕ
  commentCount : ℕ
  reactions : List ReactionCount
  poll : Option PollView
  attachments : List AttachmentView
deriving DecidableEq

namespace Database

variable (db : Database)

def replyOf (row : Row) : Option ReplyReference :=
  row.replyToOriginal.map fun original =>
    let target := row.replyTo.bind fun id => db.findMessage row.channel id
    ⟨original, (target.map Row.author).getD 0, (target.map Row.content).getD "",
      (target.map Row.revision).getD 0, target.isNone⟩

/-- The reactions to a message by emoji, counted, with the reader's own. -/
def reactionsOf (reader id : ℕ) : List ReactionCount :=
  let reactions := db.reactions.filter fun r => r.message = id
  ((reactions.map Reaction.emoji).dedup.insertionSort (· ≤ ·)).map fun emoji =>
    ⟨emoji, reactions.countP fun r => r.emoji = emoji,
      reactions.any fun r => r.emoji = emoji ∧ r.user = reader⟩

def attachmentsOf (id : ℕ) : List AttachmentView :=
  ((db.attachments.filter fun a => a.message = some id).insertionSort fun a b => a.id ≤ b.id).map
    fun a => ⟨a.id, a.file, a.deletedAt.isSome⟩

/-- An option of a poll with its votes; an anonymous poll does not show who voted. -/
def optionView (reader : ℕ) (anonymous : Bool) (x : ℕ × PollOption) : OptionView :=
  let votes := db.votes.filter fun v => v.option = x.1
  ⟨x.1, x.2.label, votes.length, votes.any fun v => v.user = reader,
    if anonymous then [] else votes.map Vote.user⟩

def pollView (reader : ℕ) (x : ℕ × Poll) : PollView :=
  ⟨x.1, x.2.question, x.2.multiple, x.2.anonymous, x.2.closesAt, x.2.revision,
    (db.pollOptions.toList.filter fun o => o.2.poll = x.1).map (db.optionView reader x.2.anonymous)⟩

def pollOf (reader id : ℕ) : Option PollView :=
  (db.polls.toList.find? fun x => x.2.message = id).map (db.pollView reader)

def hydrateInteractions (reader id : ℕ) : Option Shown :=
  (db.messages.get id).map fun row =>
    { content := row.content
      editedAt := row.editedAt
      reply := db.replyOf row
      forwardData := row.forwardData
      threadRoot := row.threadRoot
      commentCount := (db.commentsOf id).length
      reactions := db.reactionsOf reader id
      poll := db.pollOf reader id
      attachments := db.attachmentsOf id }

end Database

/-! ## What the journal covers -/

/-- A poll without its tallies and without its revision, which counts the votes. -/
def PollView.lasting (p : PollView) : PollView :=
  { p with
    revision := 0
    options := p.options.map fun o => { o with count := 0, me := false, voters := [] } }

/-- What is shown, without the tallies of a poll and without the revision in a preview. -/
def Shown.lasting (s : Shown) : Shown :=
  { s with
    reply := s.reply.map fun r => { r with revision := 0 }
    poll := s.poll.map PollView.lasting }

def Row.unnumbered (row : Row) : Row :=
  { row with revision := 0 }

/-- What a reply shows of a row: its channel decides whether it is shown. -/
def Row.preview (row : Row) : ℕ × ℕ × String :=
  (row.channel, row.author, row.content)

namespace Database

variable {db db' db'' : Database} {reader m id lo : ℕ} {row : Row} {now : ℤ}
  {channel owner message : ℕ}

def lasting (db : Database) (reader id : ℕ) : Option Shown :=
  (db.hydrateInteractions reader id).map Shown.lasting

def unnumbered (db : Database) (id : ℕ) : Option Row :=
  (db.messages.get id).map Row.unnumbered

def preview (db : Database) (id : ℕ) : Option (ℕ × ℕ × String) :=
  (db.messages.get id).map Row.preview

def lastingReply (db : Database) (row : Row) : Option ReplyReference :=
  row.replyToOriginal.map fun original =>
    let target := row.replyTo.bind fun id => (db.preview id).filter fun x => x.1 = row.channel
    ⟨original, (target.map fun x => x.2.1).getD 0, (target.map fun x => x.2.2).getD "", 0,
      target.isNone⟩

theorem lastingReply_eq (db : Database) (row : Row) :
    (db.replyOf row).map (fun r => { r with revision := 0 }) = db.lastingReply row := by
  unfold replyOf lastingReply
  rw [Option.map_map]
  congr 1
  funext original
  cases row.replyTo with
  | none => rfl
  | some id =>
    simp only [Function.comp_apply, Option.bind_some, findMessage, preview]
    cases db.messages.get id with
    | none => rfl
    | some target =>
      by_cases hchannel : target.channel = row.channel <;>
        simp [Option.filter, Row.preview, hchannel]

theorem lasting_eq (db : Database) (reader id : ℕ) : db.lasting reader id =
    (db.unnumbered id).map fun row =>
      { content := row.content
        editedAt := row.editedAt
        reply := db.lastingReply row
        forwardData := row.forwardData
        threadRoot := row.threadRoot
        commentCount := (db.commentsOf id).length
        reactions := db.reactionsOf reader id
        poll := (db.pollOf reader id).map PollView.lasting
        attachments := db.attachmentsOf id } := by
  unfold lasting hydrateInteractions unnumbered
  rw [Option.map_map, Option.map_map]
  congr 1
  funext row
  simp only [Function.comp_apply, Shown.lasting, lastingReply_eq]
  rfl

/-- A poll without its tallies does not depend on the votes. -/
def lastingPoll (db : Database) (id : ℕ) : Option PollView :=
  (db.polls.toList.find? fun x => x.2.message = id).map fun x =>
    ⟨x.1, x.2.question, x.2.multiple, x.2.anonymous, x.2.closesAt, 0,
      (db.pollOptions.toList.filter fun o => o.2.poll = x.1).map fun o =>
        ⟨o.1, o.2.label, 0, false, []⟩⟩

theorem lastingPoll_eq (db : Database) (reader id : ℕ) :
    (db.pollOf reader id).map PollView.lasting = db.lastingPoll id := by
  unfold pollOf lastingPoll
  rw [Option.map_map]
  congr 1
  funext x
  simp only [Function.comp_apply, PollView.lasting, pollView, map_map]
  rfl

theorem commentsOf_eq (db : Database) (id : ℕ) : db.commentsOf id =
    (List.range db.messages.next).filter fun k =>
      (db.messages.get k).any fun row => row.threadRoot = some id :=
  db.messages.keys_filter fun row => decide (row.threadRoot = some id)

theorem lasting_congr (hrow : db'.unnumbered m = db.unnumbered m)
    (htarget : ∀ row t, db.messages.get m = some row → row.replyTo = some t →
      db'.preview t = db.preview t)
    (hcomments : (db'.commentsOf m).length = (db.commentsOf m).length)
    (hreactions : db'.reactions.filter (fun r => r.message = m) =
      db.reactions.filter fun r => r.message = m)
    (hattachments : db'.attachmentsOf m = db.attachmentsOf m)
    (hpoll : db'.lastingPoll m = db.lastingPoll m) :
    db'.lasting reader m = db.lasting reader m := by
  rw [lasting_eq, lasting_eq, hrow]
  cases hget : db.messages.get m with
  | none => simp [unnumbered, hget]
  | some row =>
    have hreply : db'.lastingReply row.unnumbered = db.lastingReply row.unnumbered := by
      unfold lastingReply
      cases hreplyTo : row.replyTo with
      | none => simp [Row.unnumbered, hreplyTo]
      | some t =>
        simp only [Row.unnumbered, hreplyTo, Option.bind_some, htarget row t hget hreplyTo]
    simp only [unnumbered, hget, Option.map_some, hreply, hcomments, reactionsOf, hreactions,
      hattachments, lastingPoll_eq, hpoll]

/-- The tables of the rows attached to messages, apart from the votes. -/
structure SameAttached (db db' : Database) : Prop where
  reactions : db'.reactions = db.reactions
  attachments : db'.attachments = db.attachments
  polls : db'.polls = db.polls
  pollOptions : db'.pollOptions = db.pollOptions

theorem lasting_of_sameAttached (h : SameAttached db db')
    (hrow : db'.unnumbered m = db.unnumbered m)
    (htarget : ∀ row t, db.messages.get m = some row → row.replyTo = some t →
      db'.preview t = db.preview t)
    (hcomments : (db'.commentsOf m).length = (db.commentsOf m).length) :
    db'.lasting reader m = db.lasting reader m := by
  refine lasting_congr hrow htarget hcomments ?_ ?_ ?_
  · rw [h.reactions]
  · rw [attachmentsOf, attachmentsOf, h.attachments]
  · rw [lastingPoll, lastingPoll, h.polls, h.pollOptions]

theorem lasting_of_messages_eq (hmessages : db'.messages = db.messages)
    (hreactions : db'.reactions.filter (fun r => r.message = m) =
      db.reactions.filter fun r => r.message = m)
    (hattachments : db'.attachmentsOf m = db.attachmentsOf m)
    (hpoll : db'.lastingPoll m = db.lastingPoll m) :
    db'.lasting reader m = db.lasting reader m := by
  refine lasting_congr ?_ (fun _ _ _ _ => ?_) ?_ hreactions hattachments hpoll
  · rw [unnumbered, unnumbered, hmessages]
  · rw [preview, preview, hmessages]
  · rw [commentsOf, commentsOf, hmessages]

/-! ## Counting up -/

theorem sameAttached_bump (db : Database) (id : ℕ) (now : ℤ) :
    SameAttached db (db.bump id now) := by
  unfold bump
  split <;> exact ⟨rfl, rfl, rfl, rfl⟩

theorem map_bump {α : Type} {g : Row → α} (hg : ∀ row, g row.countUp = g row) (k : ℕ) :
    ((db.bump id now).messages.get k).map g = (db.messages.get k).map g := by
  rw [get_bump]
  split
  · rw [Option.map_map, show g ∘ Row.countUp = g from funext hg]
  · rfl

theorem commentsOf_congr (hnext : db'.messages.next = db.messages.next)
    (h : ∀ k, (db'.messages.get k).map Row.threadRoot = (db.messages.get k).map Row.threadRoot) :
    db'.commentsOf m = db.commentsOf m := by
  have hany : ∀ (db : Database) k, ((db.messages.get k).any fun row => row.threadRoot = some m) =
      ((db.messages.get k).map Row.threadRoot).any fun root => root = some m := by
    intro db k
    cases db.messages.get k <;> rfl
  simp only [commentsOf_eq, hany, hnext, h]

theorem lasting_bump (db : Database) (id : ℕ) (now : ℤ) (reader m : ℕ) :
    (db.bump id now).lasting reader m = db.lasting reader m := by
  refine lasting_of_sameAttached (sameAttached_bump db id now) (map_bump (fun _ => rfl) m)
    (fun _ t _ _ => map_bump (fun _ => rfl) t) (congrArg length (commentsOf_congr ?_ ?_))
  · exact (rewrites_bump db id now).writes.next_eq
  · exact map_bump fun _ => rfl

theorem lasting_bumpAll (db : Database) (ids : List ℕ) (now : ℤ) (reader m : ℕ) :
    (db.bumpAll ids now).lasting reader m = db.lasting reader m := by
  induction ids generalizing db with
  | nil => rfl
  | cons id ids ih => exact (ih (db.bump id now)).trans (lasting_bump db id now reader m)

theorem isSome_bump (db : Database) (id : ℕ) (now : ℤ) (m : ℕ) :
    ((db.bump id now).messages.get m).isSome = (db.messages.get m).isSome := by
  rw [← Option.isSome_map, map_bump (g := fun _ => ()) fun _ => rfl, Option.isSome_map]

theorem isSome_bumpAll (db : Database) (ids : List ℕ) (now : ℤ) (m : ℕ) :
    ((db.bumpAll ids now).messages.get m).isSome = (db.messages.get m).isSome := by
  induction ids generalizing db with
  | nil => rfl
  | cons id ids ih => exact (ih (db.bump id now)).trans (isSome_bump db id now m)

theorem bumpRoot_eq (db : Database) (now : ℤ) (root : Option ℕ) :
    db.bumpRoot now root = db.bumpAll root.toList now := by
  cases root <;> rfl

/-! ## Statements that are covered -/

/-- Rows keep their fixed part and journal rows stay. -/
structure Keeps (db db' : Database) : Prop where
  descends : Descends db db'
  next_le : db.changes.next ≤ db'.changes.next
  changes : ∀ {n : ℕ} {c : Change}, db.changes.get n = some c → db'.changes.get n = some c

theorem Keeps.of_eq (hmessages : db'.messages = db.messages) (hchanges : db'.changes = db.changes) :
    Keeps db db' where
  descends := .of_messages_eq hmessages
  next_le := hchanges ▸ le_rfl
  changes := fun h => hchanges ▸ h

theorem Keeps.of_insert {c : Change} (hdescends : Descends db db')
    (hchanges : db'.changes = db.changes.insert c) : Keeps db db' where
  descends := hdescends
  next_le := by
    rw [hchanges]
    exact Nat.le_succ _
  changes := by
    intro n c' h
    rw [hchanges, get_insert_of_ne _ (Nat.ne_of_lt (lt_next_of_get h)), h]

theorem Keeps.trans (h : Keeps db db') (h' : Keeps db' db'') : Keeps db db'' where
  descends := h.descends.trans h'.descends
  next_le := h.next_le.trans h'.next_le
  changes := fun hc => h'.changes (h.changes hc)

theorem keeps_bump (db : Database) (id : ℕ) (now : ℤ) : Keeps db (db.bump id now) := by
  cases hget : db.messages.get id with
  | none =>
    rw [bump_of_none hget]
    exact .of_eq rfl rfl
  | some row =>
    rw [bump_of_get hget]
    exact .of_insert (.of_setRow amends_countUp _ _ now) rfl

theorem keeps_bumpAll (db : Database) (ids : List ℕ) (now : ℤ) : Keeps db (db.bumpAll ids now) := by
  induction ids generalizing db with
  | nil => exact .of_eq rfl rfl
  | cons id ids ih => exact (keeps_bump db id now).trans (ih _)

/-- The revision of a message went up, and a new journal row names it. -/
structure Touched (db db' : Database) (m : ℕ) : Prop where
  revision : ∀ {row row' : Row}, db.messages.get m = some row → db'.messages.get m = some row' →
    row.revision < row'.revision
  change : ∃ n channel now, db.changes.next ≤ n ∧ db'.changes.get n = some ⟨channel, m, now⟩ ∧
    ∀ row', db'.messages.get m = some row' → row'.channel = channel

theorem Touched.later (h : Touched db db' m) (hm : m < db'.messages.next)
    (hkeeps : Keeps db' db'') : Touched db db'' m where
  revision := by
    intro row row'' hrow hrow''
    obtain ⟨row', hrow', -, hle⟩ := hkeeps.descends.row hm hrow''
    exact (h.revision hrow hrow').trans_le hle
  change := by
    obtain ⟨n, channel, now, hn, hchange, hchannel⟩ := h.change
    refine ⟨n, channel, now, hn, hkeeps.changes hchange, fun row'' hrow'' => ?_⟩
    obtain ⟨row', hrow', hfixed, -⟩ := hkeeps.descends.row hm hrow''
    rw [← Row.channel_fixed, hfixed, Row.channel_fixed]
    exact hchannel row' hrow'

theorem Touched.earlier (hkeeps : Keeps db db') (hm : m < db.messages.next) (h : Touched db' db'' m)
    (hkeeps' : Keeps db' db'') : Touched db db'' m where
  revision := by
    intro row row'' hrow hrow''
    obtain ⟨row', hrow', -, -⟩ :=
      hkeeps'.descends.row (hm.trans_le hkeeps.descends.next_le) hrow''
    obtain ⟨row₀, hrow₀, -, hle⟩ := hkeeps.descends.row hm hrow'
    rw [hrow] at hrow₀
    cases hrow₀
    exact hle.trans_lt (h.revision hrow' hrow'')
  change := by
    obtain ⟨n, channel, now, hn, hchange, hchannel⟩ := h.change
    exact ⟨n, channel, now, hkeeps.next_le.trans hn, hchange, hchannel⟩

theorem touched_setRow {f : Row → Row} (hf : Amends f) (hget : db.messages.get m = some row) :
    Touched db (db.setRow m row.channel f now) m where
  revision := by
    intro row₀ row' hrow₀ hrow'
    rw [messages_setRow, get_modify, if_pos rfl, hrow₀] at hrow'
    cases hrow'
    exact hf.revision row₀
  change := by
    refine ⟨db.changes.next, row.channel, now, le_rfl, get_insert_next _, fun row' hrow' => ?_⟩
    rw [messages_setRow, get_modify, if_pos rfl, hget] at hrow'
    cases hrow'
    rw [← Row.channel_fixed, hf.fixed, Row.channel_fixed]

theorem touched_bumpAll {ids : List ℕ} (hmem : m ∈ ids) (hget : (db.messages.get m).isSome) :
    Touched db (db.bumpAll ids now) m := by
  induction ids generalizing db with
  | nil => cases hmem
  | cons id ids ih =>
    obtain ⟨row, hrow⟩ := Option.isSome_iff_exists.mp hget
    have hlt : m < db.messages.next := lt_next_of_get hrow
    by_cases hid : m = id
    · subst hid
      have hbump : Touched db (db.bump m now) m := by
        rw [bump_of_get hrow]
        exact touched_setRow amends_countUp hrow
      exact hbump.later (hlt.trans_le (keeps_bump db m now).descends.next_le)
        (keeps_bumpAll _ ids now)
    · have hrest := ih ((mem_cons.mp hmem).resolve_left hid)
        ((isSome_bump db id now m).trans hget)
      exact hrest.earlier (keeps_bump db id now) hlt (keeps_bumpAll _ ids now)

/-- What the journal has to cover: of the messages with a key below a bound, those that are still
there show the same or were touched. -/
structure Covers (lo : ℕ) (db db' : Database) : Prop where
  keeps : Keeps db db'
  shown : ∀ reader m, m < lo → (db'.messages.get m).isSome →
    db'.lasting reader m = db.lasting reader m ∨ Touched db db' m

theorem Covers.trans (hlo : lo ≤ db.messages.next) (h : Covers lo db db')
    (h' : Covers lo db' db'') : Covers lo db db'' where
  keeps := h.keeps.trans h'.keeps
  shown reader m hm hsome := by
    have hlt : m < db.messages.next := hm.trans_le hlo
    have hlt' : m < db'.messages.next := hlt.trans_le h.keeps.descends.next_le
    rcases h'.shown reader m hm hsome with hsame' | htouched'
    · obtain ⟨row'', hrow''⟩ := Option.isSome_iff_exists.mp hsome
      obtain ⟨row', hrow', -, -⟩ := h'.keeps.descends.row hlt' hrow''
      rcases h.shown reader m hm (hrow' ▸ rfl) with hsame | htouched
      · exact .inl (hsame'.trans hsame)
      · exact .inr (htouched.later hlt' h'.keeps)
    · exact .inr (htouched'.earlier h.keeps hlt h'.keeps)

theorem covers_bumpAll (ids : List ℕ) (hlo : lo ≤ db.messages.next) (hkeeps : Keeps db db')
    (hshown : ∀ reader m, m < lo → (db'.messages.get m).isSome → m ∉ ids →
      db'.lasting reader m = db.lasting reader m ∨ Touched db db' m) :
    Covers lo db (db'.bumpAll ids now) where
  keeps := hkeeps.trans (keeps_bumpAll db' ids now)
  shown reader m hm hsome := by
    have hlt : m < db.messages.next := hm.trans_le hlo
    rw [isSome_bumpAll] at hsome
    by_cases hmem : m ∈ ids
    · exact .inr ((touched_bumpAll hmem hsome).earlier hkeeps hlt (keeps_bumpAll db' ids now))
    · rcases hshown reader m hm hsome hmem with hsame | htouched
      · exact .inl ((lasting_bumpAll db' ids now reader m).trans hsame)
      · exact .inr
          (htouched.later (hlt.trans_le hkeeps.descends.next_le) (keeps_bumpAll db' ids now))

theorem Covers.of_lasting (hkeeps : Keeps db db')
    (h : ∀ reader m, m < lo → db'.lasting reader m = db.lasting reader m) : Covers lo db db' where
  keeps := hkeeps
  shown := fun reader m hm _ => .inl (h reader m hm)

theorem Covers.refl : Covers lo db db := .of_lasting (.of_eq rfl rfl) fun _ _ _ => rfl

/-! ## The statements, one by one -/

theorem filter_map_of_eq {α : Type} {p : α → Bool} {g : α → α} {l : List α}
    (hp : ∀ a ∈ l, p (g a) = p a) (hg : ∀ a ∈ l, p a = true → g a = a) :
    (l.map g).filter p = l.filter p := by
  induction l with
  | nil => rfl
  | cons a l ih =>
    have hrest := ih (fun b hb => hp b (mem_cons_of_mem _ hb))
      (fun b hb => hg b (mem_cons_of_mem _ hb))
    rw [map_cons, filter_cons, filter_cons, hp a mem_cons_self, hrest]
    split
    next ha => rw [hg a mem_cons_self ha]
    · rfl

/-- Replies refer to rows that were there. -/
def Refers (db : Database) : Prop :=
  ∀ {m t : ℕ} {row : Row}, db.messages.get m = some row → row.replyTo = some t →
    t < db.messages.next

theorem covers_insertMessage {inserted : Database} (hrefers : Refers db)
    (h : db.insertMessage row now = some inserted) : Covers db.messages.next db inserted := by
  obtain ⟨-, -, rfl⟩ := insertMessage_cases h
  rw [bumpRoot_eq]
  refine covers_bumpAll _ le_rfl (.of_insert (.of_insertRow row now) rfl) ?_
  intro reader m hm _ hroot
  left
  refine lasting_of_sameAttached ⟨rfl, rfl, rfl, rfl⟩ ?_ ?_ ?_
  · rw [unnumbered, messages_insertRow, get_insert_of_ne _ (Nat.ne_of_lt hm), unnumbered]
  · intro row' t hget ht
    rw [preview, messages_insertRow, get_insert_of_ne _ (Nat.ne_of_lt (hrefers hget ht)), preview]
  · -- The new row is no comment under `m`.
    have hold : ∀ k ∈ range db.messages.next,
        (((db.insertRow row now).messages.get k).any fun row => row.threadRoot = some m) =
          (db.messages.get k).any fun row => row.threadRoot = some m := by
      intro k hk
      rw [messages_insertRow, get_insert_of_ne _ (Nat.ne_of_lt (mem_range.mp hk))]
    have hnew : ((db.insertRow row now).messages.get db.messages.next).any
        (fun row => row.threadRoot = some m) = false := by
      rw [messages_insertRow, get_insert_next, Option.any_some]
      exact decide_eq_false fun heq => hroot (by rw [heq]; exact mem_singleton_self m)
    rw [commentsOf_eq, commentsOf_eq, messages_insertRow, next_insert, range_succ,
      filter_append, ← messages_insertRow, filter_congr hold, filter_singleton, hnew]
    simp

theorem mem_repliesTo : m ∈ db.repliesTo id ↔
    ∃ row, db.messages.get m = some row ∧ row.replyTo = some id := by
  unfold repliesTo
  simp only [mem_map, mem_filter, decide_eq_true_eq]
  constructor
  · rintro ⟨⟨k, row⟩, ⟨hmem, hreply⟩, rfl⟩
    exact ⟨row, mem_toList.mp hmem, hreply⟩
  · rintro ⟨row, hget, hreply⟩
    exact ⟨(m, row), ⟨mem_toList.mpr hget, hreply⟩, rfl⟩

theorem lasting_rewrite {content : String} (hget : db.messages.get id = some row) (hm : m ≠ id)
    (hreply : m ∈ db.repliesTo id → row.content = content) :
    (db.setRow id row.channel (Row.rewrite content now) now).lasting reader m =
      db.lasting reader m := by
  have hother :
    ∀ k, k ≠ id → (db.setRow id row.channel (Row.rewrite content now) now).messages.get k =
      db.messages.get k := fun k hk => by rw [messages_setRow, get_modify, if_neg hk]
  have hself : (db.setRow id row.channel (Row.rewrite content now) now).messages.get id =
      some (row.rewrite content now) := by
    rw [messages_setRow, get_modify, if_pos rfl, hget, Option.map_some]
  refine lasting_of_sameAttached ⟨rfl, rfl, rfl, rfl⟩ ?_ ?_ ?_
  · rw [unnumbered, hother m hm, unnumbered]
  · intro row' t hrow' ht
    by_cases htid : t = id
    · rw [preview, preview, htid, hself, hget,
        ← hreply (mem_repliesTo.mpr ⟨row', hrow', htid ▸ ht⟩)]
      rfl
    · rw [preview, hother t htid, preview]
  · refine congrArg length (commentsOf_congr rfl fun k => ?_)
    by_cases hk : k = id
    · rw [hk, hself, hget]
      rfl
    · rw [hother k hk]

theorem repliesTo_setRow {g : Row → Row} (hg : ∀ row, (g row).replyTo = row.replyTo) :
    m ∈ (db.setRow id channel g now).repliesTo id ↔ m ∈ db.repliesTo id := by
  rw [mem_repliesTo, mem_repliesTo, messages_setRow, get_modify]
  split
  · simp [Option.map_eq_some_iff, hg]
  · rfl

theorem covers_editMessage (hlo : lo ≤ db.messages.next) (id : ℕ) (content : String) (now : ℤ) :
    Covers lo db (db.editMessage id content now) := by
  unfold editMessage
  cases hget : db.messages.get id with
  | none => exact .refl
  | some row =>
    have hkeeps : Keeps db (db.setRow id row.channel (Row.rewrite content now) now) :=
      .of_insert (.of_setRow (amends_rewrite content now) _ _ now) rfl
    have hshown : ∀ reader m, (m ≠ id → m ∈ db.repliesTo id → row.content = content) →
        (db.setRow id row.channel (Row.rewrite content now) now).lasting reader m =
          db.lasting reader m ∨
          Touched db (db.setRow id row.channel (Row.rewrite content now) now) m := by
      intro reader m hreply
      by_cases hm : m = id
      · rw [hm]
        exact .inr (touched_setRow (amends_rewrite content now) hget)
      · exact .inl (lasting_rewrite hget hm (hreply hm))
    simp only
    split
    next hsame => exact ⟨hkeeps, fun reader m _ _ => hshown reader m fun _ _ => hsame⟩
    · refine covers_bumpAll _ hlo hkeeps fun reader m _ _ hmem => hshown reader m fun _ hreply => ?_
      exact absurd ((repliesTo_setRow (amends_rewrite content now).replyTo).mpr hreply) hmem

/-! ### Deleting -/

theorem lastingPoll_detachRow (db : Database) (hm : m ≠ id) :
    (db.detachRow id).lastingPoll m = db.lastingPoll m := by
  have hpolls : ((db.detachRow id).polls.toList.find? fun x => x.2.message = m) =
      db.polls.toList.find? fun x => x.2.message = m := by
    have hfilter : (db.detachRow id).polls.toList =
        db.polls.toList.filter fun x => x.2.message ≠ id := by
      show (db.polls.alter _).toList = _
      rw [toList_alter, ← filterMap_eq_filter]
      refine filterMap_congr fun x _ => ?_
      by_cases hx : x.2.message = id <;> simp [Option.guard, hx]
    rw [hfilter, find?_filter]
    refine congrArg (fun p => find? p db.polls.toList) (funext fun x => ?_)
    by_cases hx : x.2.message = m
    · simp [hx, hm]
    · simp [hx]
  unfold lastingPoll
  rw [hpolls]
  refine Option.map_congr fun x hx => ?_
  have hget : db.polls.get x.1 = some x.2 := mem_toList.mp (mem_of_find?_eq_some hx)
  have hmessage : x.2.message = m := by simpa using find?_some hx
  -- The options of a poll that stays are kept.
  have hoptions : ((db.detachRow id).pollOptions.toList.filter fun o => o.2.poll = x.1) =
      db.pollOptions.toList.filter fun o => o.2.poll = x.1 := by
    show ((db.pollOptions.alter _).toList.filter _) = _
    rw [toList_alter, filter_filterMap, ← filterMap_eq_filter]
    refine filterMap_congr fun o _ => ?_
    by_cases ho : o.2.poll = x.1
    · simp [Option.guard, Option.filter, ho, hget, hmessage, hm]
    · by_cases hgone : (db.polls.get o.2.poll).any fun poll => poll.message = id
      · simp [Option.guard, Option.filter, ho, hgone]
      · simp [Option.guard, Option.filter, ho, hgone]
  rw [hoptions]

theorem attachmentsOf_detachRow (db : Database) (hm : m ≠ id) :
    (db.detachRow id).attachmentsOf m = db.attachmentsOf m := by
  have hfilter : ((db.detachRow id).attachments.filter fun a => a.message = some m) =
      db.attachments.filter fun a => a.message = some m := by
    refine filter_map_of_eq (fun a _ => ?_) (fun a _ ha => ?_)
    · by_cases ha : a.message = some id
      · simp [ha, hm.symm]
      · simp [ha]
    · rw [if_neg]
      intro hid
      rw [of_decide_eq_true ha] at hid
      exact hm (Option.some.inj hid)
  rw [attachmentsOf, hfilter, attachmentsOf]

theorem preview_detachRow {t : ℕ} (ht : t ≠ id) : (db.detachRow id).preview t = db.preview t := by
  rw [preview, get_detachRow, if_neg ht, Option.map_map, preview]
  refine congrArg (fun g => Option.map g (db.messages.get t)) (funext fun r => ?_)
  simp only [Function.comp_apply, forgetReply]
  split <;> rfl

theorem commentsOf_detachRow (hroot : ∀ row, db.messages.get id = some row →
    row.threadRoot ≠ some m) : (db.detachRow id).commentsOf m = db.commentsOf m := by
  rw [commentsOf_eq, commentsOf_eq]
  refine filter_congr fun k _ => ?_
  by_cases hk : k = id
  · rw [hk, get_detachRow, if_pos rfl]
    cases hget : db.messages.get id with
    | none => rfl
    | some row => exact (decide_eq_false (hroot row hget)).symm
  · rw [get_detachRow, if_neg hk, Option.any_map]
    refine congrArg (fun g => Option.any g (db.messages.get k)) (funext fun r => ?_)
    simp only [forgetReply]
    split <;> rfl

theorem reactions_detachRow (hm : m ≠ id) :
    (db.detachRow id).reactions.filter (fun r => r.message = m) =
      db.reactions.filter fun r => r.message = m := by
  show (filter _ (filter _ db.reactions)) = _
  rw [filter_filter]
  refine filter_congr fun r _ => ?_
  by_cases hr : r.message = m
  · simp [hr, hm]
  · simp [hr]

theorem lasting_detachRow (hm : m ≠ id) (hreply : m ∉ db.repliesTo id)
    (hroot : ∀ row, db.messages.get id = some row → row.threadRoot ≠ some m) :
    (db.detachRow id).lasting reader m = db.lasting reader m := by
  have hto : ∀ row, db.messages.get m = some row → row.replyTo ≠ some id :=
    fun row hget hto => hreply (mem_repliesTo.mpr ⟨row, hget, hto⟩)
  refine lasting_congr ?_ ?_ (congrArg length (commentsOf_detachRow hroot))
    (reactions_detachRow hm) (attachmentsOf_detachRow db hm) (lastingPoll_detachRow db hm)
  · rw [unnumbered, get_detachRow, if_neg hm, unnumbered]
    cases hget : db.messages.get m with
    | none => rfl
    | some row => rw [Option.map_some, forgetReply, if_neg (hto row hget)]
  · intro row t hget ht
    exact preview_detachRow fun heq => hto row hget (heq ▸ ht)

section

variable (hlo : lo ≤ db.messages.next)
include hlo

theorem covers_deleteRow (id : ℕ) (now : ℤ) : Covers lo db (db.deleteRow id now) := by
  unfold deleteRow
  cases hget : db.messages.get id with
  | none => exact .refl
  | some row =>
    simp only
    rw [bumpRoot_eq, bumpAll, bumpAll, ← foldl_append, ← bumpAll]
    have hdescends : Descends db ((db.journal row.channel id now).detachRow id) :=
      (Descends.of_messages_eq messages_journal).trans (.of_detachRow id)
    refine covers_bumpAll _ hlo (.of_insert hdescends rfl) fun reader m _ hsome hmem => .inl ?_
    have hm : m ≠ id := by
      rintro rfl
      rw [get_detachRow, if_pos rfl] at hsome
      cases hsome
    rw [mem_append, not_or] at hmem
    have hjournal : (db.journal row.channel id now).lasting reader m = db.lasting reader m :=
      lasting_of_messages_eq messages_journal rfl rfl rfl
    refine (lasting_detachRow hm hmem.1 ?_).trans hjournal
    rintro row' hrow' hroot
    obtain rfl := Option.some.inj (hget.symm.trans hrow')
    exact hmem.2 (hroot ▸ mem_singleton_self m)

theorem covers_deleteMessage (id : ℕ) (now : ℤ) : Covers lo db (db.deleteMessage id now) := by
  unfold deleteMessage
  generalize id :: db.commentsOf id = ids
  induction ids generalizing db with
  | nil => exact .refl
  | cons id ids ih =>
    have hrow := covers_deleteRow hlo id now
    exact hrow.trans hlo (ih (hlo.trans hrow.keeps.descends.next_le))

/-! ### Reactions and attachments -/

theorem covers_insertReaction (r : Reaction) (now : ℤ) :
    Covers lo db (db.insertReaction r now) := by
  unfold insertReaction
  split
  · exact .refl
  · refine covers_bumpAll [r.message] hlo (.of_eq rfl rfl) fun reader m _ _ hmem => .inl ?_
    refine lasting_of_messages_eq rfl ?_ rfl rfl
    rw [filter_append, filter_singleton]
    simp [Ne.symm (ne_of_not_mem_cons hmem)]

theorem covers_deleteReaction (r : Reaction) (now : ℤ) :
    Covers lo db (db.deleteReaction r now) := by
  unfold deleteReaction
  split
  · refine covers_bumpAll [r.message] hlo (.of_eq rfl rfl) fun reader m _ _ hmem => .inl ?_
    refine lasting_of_messages_eq rfl ?_ rfl rfl
    rw [filter_filter]
    refine filter_congr fun r' _ => ?_
    by_cases hr' : r'.message = m
    · have hne : r' ≠ r := fun heq => ne_of_not_mem_cons hmem (heq ▸ hr'.symm)
      simp [hr', hne]
    · simp [hr']
  · exact .refl

theorem covers_deleteAttachments (p : Attachment → Bool) (now : ℤ) :
    Covers lo db (db.deleteAttachments p now) := by
  refine covers_bumpAll _ hlo (.of_eq rfl rfl) fun reader m _ _ hmem => .inl ?_
  refine lasting_of_messages_eq rfl rfl ?_ rfl
  have hfilter : (filter (fun a => a.message = some m) (db.attachments.map fun a =>
      if p a ∧ a.deletedAt = none then { a with deletedAt := some now } else a)) =
      db.attachments.filter fun a => a.message = some m := by
    refine filter_map_of_eq (fun a _ => ?_) (fun a ha hmessage => ?_)
    · split <;> rfl
    · refine if_neg fun hdeleted => hmem (mem_filterMap.mpr ⟨a, mem_filter.mpr ⟨ha, ?_⟩, ?_⟩)
      · exact decide_eq_true hdeleted
      · exact of_decide_eq_true hmessage
  exact congrArg (fun l => (insertionSort (fun a b : Attachment => a.id ≤ b.id) l).map
    fun a => (⟨a.id, a.file, a.deletedAt.isSome⟩ : AttachmentView)) hfilter

end

theorem covers_upload {aid : String} {file : FileInfo} : Covers lo db
    { db with attachments := db.attachments ++ [⟨aid, channel, owner, none, none, file⟩] } := by
  refine .of_lasting (.of_eq rfl rfl) fun reader m _ => lasting_of_messages_eq rfl rfl ?_ rfl
  rw [attachmentsOf, filter_append, filter_singleton, attachmentsOf]
  simp

theorem attachmentsOf_linkAttachment {aid : String} (hne : m ≠ message) :
    (db.linkAttachment message channel owner aid).attachmentsOf m = db.attachmentsOf m := by
  have hfilter : (db.linkAttachment message channel owner aid).attachments.filter
      (fun a => a.message = some m) = db.attachments.filter fun a => a.message = some m := by
    refine filter_map_of_eq (fun a _ => ?_) (fun a _ ha => ?_)
    · split
      next hlink =>
        have hnone : a.message = none := by simp_all [linkable]
        simp [hnone, hne.symm]
      · rfl
    · refine if_neg fun hlink => ?_
      have hnone : a.message = none := by simp_all [linkable]
      simp [hnone] at ha
  rw [attachmentsOf, hfilter, attachmentsOf]

theorem covers_linkAttachments {ids : List String}
    (hlo : lo ≤ db.messages.next) (hmessage : lo ≤ message)
    (h : linkAttachments message channel owner db ids = .ok db') : Covers lo db db' := by
  induction ids generalizing db with
  | nil =>
    cases h
    exact .refl
  | cons id ids ih =>
    unfold linkAttachments at h
    split at h
    · have hfirst : Covers lo db (db.linkAttachment message channel owner id) :=
        .of_lasting (.of_eq rfl rfl) fun reader m hm => lasting_of_messages_eq rfl rfl
          (attachmentsOf_linkAttachment (Nat.ne_of_lt (hm.trans_le hmessage))) rfl
      exact hfirst.trans hlo (ih hlo h)
    · cases h

/-! ### Polls -/

theorem filter_foldl_insert {poll pid : ℕ} (hne : pid ≠ poll) (labels : List String)
    (t : Table PollOption) :
    ((labels.foldl (fun t label => t.insert ⟨poll, label⟩) t).toList.filter fun o =>
    o.2.poll = pid) =
      t.toList.filter fun o => o.2.poll = pid := by
  induction labels generalizing t with
  | nil => rfl
  | cons label labels ih =>
    rw [foldl_cons, ih, toList_insert, filter_append, filter_singleton]
    simp [hne.symm]

theorem covers_storePoll {f : Primitives} {poll : Option PollInput} (hmessage : lo ≤ message)
    (h : db.storePoll f message now poll = .ok db') : Covers lo db db' := by
  cases poll with
  | none =>
    cases h
    exact .refl
  | some input =>
    obtain ⟨p, -, h⟩ := bind_eq_ok.mp h
    cases h
    refine .of_lasting (.of_eq rfl rfl) fun reader m hm => lasting_of_messages_eq rfl rfl rfl ?_
    have hne : message ≠ m := Nat.ne_of_gt (hm.trans_le hmessage)
    unfold lastingPoll
    dsimp only
    rw [toList_insert, find?_append, find?_singleton]
    simp only [hne, decide_false, Bool.false_eq_true, if_false, Option.or_none]
    refine Option.map_congr fun x hx => ?_
    have hget : db.polls.get x.1 = some x.2 := mem_toList.mp (mem_of_find?_eq_some hx)
    rw [filter_foldl_insert (Nat.ne_of_lt (lt_next_of_get hget))]

theorem lasting_replaceVotes (poll user : ℕ) (options : List ℕ) (reader m : ℕ) :
    (db.replaceVotes poll user options).lasting reader m = db.lasting reader m := by
  refine lasting_of_messages_eq rfl rfl rfl ?_
  unfold lastingPoll replaceVotes
  dsimp only
  rw [toList_modify, find?_map]
  have hmessage : ((fun x : ℕ × Poll => decide (x.2.message = m)) ∘ fun x : ℕ × Poll =>
      (x.1, if x.1 = poll then { x.2 with revision := x.2.revision + 1 } else x.2)) =
      fun x => decide (x.2.message = m) := by
    funext x
    simp only [Function.comp_apply]
    split <;> rfl
  rw [hmessage, Option.map_map]
  refine Option.map_congr fun x _ => ?_
  simp only [Function.comp_apply]
  split <;> rfl

/-! ## Operations -/

theorem refers_write (h : Write db db') (hrefers : Refers db) : Refers db' := by
  cases h with
  | set now _ hf =>
    intro m t row' hget ht
    rw [messages_setRow, get_modify] at hget
    split at hget
    · obtain ⟨row, hrow, rfl⟩ := Option.map_eq_some_iff.mp hget
      rw [hf.replyTo] at ht
      exact hrefers hrow ht
    · exact hrefers hget ht
  | remove now _ =>
    intro m t row' hget ht
    obtain ⟨row, hrow, rfl⟩ := of_get_detachRow hget
    unfold forgetReply at ht
    split at ht
    · cases ht
    · exact hrefers hrow ht
  | attach | key | prune => exact hrefers

theorem refers_insertRow (hscope : db.replyInScope row) (hrefers : Refers db) :
    Refers (db.insertRow row now) := by
  intro m t row' hget ht
  rw [messages_insertRow, get_insert] at hget
  rw [messages_insertRow, next_insert]
  split at hget
  · cases hget
    rw [replyInScope, ht] at hscope
    cases htarget : db.messages.get t with
    | none => simp [htarget] at hscope
    | some target => exact (lt_next_of_get htarget).trans (Nat.lt_succ_self _)
  · exact (hrefers hget ht).trans (Nat.lt_succ_self _)

theorem refers_run (f : Primitives) (ops : List Op) (h : Refers db) : Refers (db.run f ops) :=
  run_induction (R := fun db db' => Refers db → Refers db') (fun _ h => h)
    (fun h h' hdb => h' (h hdb)) refers_write (fun _ => refers_insertRow) f db ops h

theorem covers_store {f : Primitives} {r : CreateRequest} {sent : Sent} (hrefers : Refers db)
    (h : db.store f r row = .ok (sent, db')) : Covers db.messages.next db db' := by
  unfold store at h
  cases hinsert : db.insertMessage row (unix r.insertedAt) with
  | none =>
    simp only [hinsert] at h
    cases h
  | some inserted =>
    simp only [hinsert] at h
    obtain ⟨polled, hpoll, h⟩ := bind_eq_ok.mp h
    obtain ⟨linked, hlink, h⟩ := bind_eq_ok.mp h
    cases h
    have hinserted := covers_insertMessage hrefers hinsert
    have hpolled := hinserted.trans le_rfl (covers_storePoll le_rfl hpoll)
    have hlinked := hpolled.trans le_rfl
      (covers_linkAttachments hpolled.keeps.descends.next_le le_rfl hlink)
    refine hlinked.trans le_rfl ?_
    unfold storeKey
    split
    · exact .refl
    · exact .of_lasting (.of_eq rfl rfl) fun _ _ _ => lasting_of_messages_eq rfl rfl rfl rfl

theorem lasting_or_covers (f : Primitives) (hrefers : Refers db) (op : Op) :
    (∀ reader m, (db.apply f op).lasting reader m = db.lasting reader m) ∨
      Covers db.messages.next db (db.apply f op) := by
  have hcommit : ∀ {x : Except Error Database},
      (∀ db', x = .ok db' → Covers db.messages.next db db') →
      Covers db.messages.next db (db.commit x) := by
    intro x hx
    cases x with
    | error e => exact .refl
    | ok db' => exact hx db' rfl
  cases op with
  | create r =>
    refine .inr (hcommit fun db' h => ?_)
    obtain ⟨⟨sent, db''⟩, hcreate, rfl⟩ := map_eq_ok.mp h
    rcases createReferenced_cases hcreate with ⟨k, -, -, rfl⟩ | ⟨role, ch, row, -, -, -, hstore⟩
    · exact .refl
    · exact covers_store hrefers hstore
  | update s channel id user content now =>
    refine .inr (hcommit fun db' h => ?_)
    rw [update_cases h]
    exact covers_editMessage le_rfl id content _
  | delete s channel id user now =>
    refine .inr (hcommit fun db' h => ?_)
    rw [delete_cases h]
    exact covers_deleteMessage le_rfl id _
  | setReaction s channel id user emoji active now =>
    refine .inr (hcommit fun db' h => ?_)
    rcases setReaction_cases h with rfl | rfl
    · exact covers_insertReaction le_rfl _ _
    · exact covers_deleteReaction le_rfl _ _
  | vote accessible poll user options now =>
    refine .inr (hcommit fun db' h => ?_)
    rw [vote_cases h]
    exact .of_lasting (.of_eq rfl rfl) fun reader m _ => lasting_replaceVotes poll user options
      reader m
  | upload id channel owner file =>
    refine .inr (hcommit fun db' h => ?_)
    rw [upload_cases h]
    exact covers_upload
  | cleanup id now
  | claimAbandoned id scheduled now => exact .inr (covers_deleteAttachments le_rfl _ _)
  | prune now => exact .inl fun _ _ => lasting_of_messages_eq rfl rfl rfl rfl

/-- **The journal covers what is shown.** Take any tables a run of the program reaches, any
operation and any message that is there before and after it. If the message then shows something
else to some reader, apart from the tallies of a poll and the revision in a preview, its revision
went up and a new journal row of its channel names it. -/
theorem shown_covered (f : Primitives) (ops : List Op) (op : Op) (reader m : ℕ) (row row' : Row)
    (shown shown' : Shown) : let db := Database.empty.run f ops
    let db' := db.apply f op
    db.messages.get m = some row → db'.messages.get m = some row' →
    db.hydrateInteractions reader m = some shown → db'.hydrateInteractions reader m = some shown' →
    shown.lasting ≠ shown'.lasting →
      row.revision < row'.revision ∧ ∃ n now, db.changes.next ≤ n ∧
        db'.changes.get n = some ⟨row'.channel, m, now⟩ := by
  intro db db' hrow hrow' hshown hshown' hne
  have hrefers : Refers db := by
    refine refers_run f ops ?_
    intro m t row hget
    cases hget
  have hdiffer : db'.lasting reader m ≠ db.lasting reader m := by
    intro heq
    rw [lasting, hshown', lasting, hshown] at heq
    exact hne (Option.some.inj heq).symm
  rcases lasting_or_covers f hrefers op with hsame | hcovers
  · exact absurd (hsame reader m) hdiffer
  · have htouched :=
      (hcovers.shown reader m (lt_next_of_get hrow) (hrow' ▸ rfl)).resolve_left hdiffer
    obtain ⟨n, channel, now, hn, hchange, hchannel⟩ := htouched.change
    refine ⟨htouched.revision hrow hrow', n, now, hn, ?_⟩
    rw [hchannel row' hrow']
    exact hchange

/-- A reaction is shown, counted up and journaled. -/
theorem reaction_covered :
    let db := Database.empty.run .verbatim [.create (.plain (.writer 0) 1 7 "hi" 0)]
    let db' := db.apply .verbatim (.setReaction (.writer 0) 1 1 8 "👍" true 0)
    db'.hydrateInteractions 8 1 =
        some ⟨"hi", none, none, none, none, 0, [⟨"👍", 1, true⟩], none, []⟩ ∧
      ∃ n now, db.changes.next ≤ n ∧ db'.changes.get n = some ⟨1, 1, now⟩ := by
  intro db db'
  have hshown : db'.hydrateInteractions 8 1 =
      some ⟨"hi", none, none, none, none, 0, [⟨"👍", 1, true⟩], none, []⟩ := by decide +kernel
  exact ⟨hshown, (shown_covered .verbatim [.create (.plain (.writer 0) 1 7 "hi" 0)]
    (.setReaction (.writer 0) 1 1 8 "👍" true 0) 8 1
    ⟨1, 7, "hi", 0, none, 1, none, none, none, none⟩ ⟨1, 7, "hi", 0, none, 2, none, none,
    none, none⟩
    ⟨"hi", none, none, none, none, 0, [], none, []⟩ _ (by decide +kernel) (by decide +kernel)
    (by decide +kernel) hshown (by decide +kernel)).2⟩

/-- **What is shown and not journaled.** User 8 votes in a poll: the tallies of the message change
for them, and neither its revision nor the journal does. User 9 reacts to a message: the preview in
a reply to it has the new revision, and the reply, its own revision and its part of the journal
stay. -/
theorem vote_not_covered : (let poll : PollInput := ⟨"question", ["yes", "no"], false, false, 60⟩
    let db :=
    Database.empty.run .verbatim [.create { CreateRequest.plain (.writer 0) 1 7 "hi" 0 with
      input := ⟨some poll, [], none, "hi", "", none⟩ }]
    let db' := db.apply .verbatim (.vote true 1 8 [1] 0)
    ((db.hydrateInteractions 8 1).bind Shown.poll).map (fun p => p.options.map OptionView.count) =
        some [0, 0] ∧
      ((db'.hydrateInteractions 8 1).bind Shown.poll).map
      (fun p => p.options.map OptionView.count) =
        some [1, 0] ∧
      db'.messages.get 1 = db.messages.get 1 ∧ db'.changes = db.changes) ∧
    let db := Database.empty.run .verbatim [.create (.plain (.writer 0) 1 7 "hi" 0),
      .create { CreateRequest.plain (.writer 0) 1 8 "yes" 0 with input := ⟨none, [], none, "yes",
      "", some 1⟩ }]
    let db' := db.apply .verbatim (.setReaction (.writer 0) 1 1 9 "👍" true 0)
    ((db.hydrateInteractions 8 2).bind Shown.reply).map ReplyReference.revision = some 1 ∧
      ((db'.hydrateInteractions 8 2).bind Shown.reply).map ReplyReference.revision = some 2 ∧
      db'.messages.get 2 = db.messages.get 2 ∧ ∀ c ∈ db'.changes.toList, db.changes.next ≤ c.1 →
      c.2.message ≠ 2 := by
  refine ⟨⟨by decide +kernel, by decide +kernel, by decide +kernel, rfl⟩, by decide +kernel⟩

end Database

end Voxhold.Message
