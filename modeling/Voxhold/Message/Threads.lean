/-
# Voxhold.Message.Threads — threads, and comments in news channels

A thread root is a message of the same channel that has none (`roots_run`): the scope trigger checks
it at the insert, the column is never written again, and `ON DELETE CASCADE` takes the comments with
the root.
-/

import Voxhold.Message.Writes

namespace Voxhold.Message

open Voxhold.Lib Option Row

namespace Database

/-! ## Rows that stay -/

/-- The same rows are there, with the same fixed parts. -/
def KeepsRows (db db' : Database) : Prop :=
  ∀ k, (db'.messages.get k).map fixed = (db.messages.get k).map fixed

namespace KeepsRows

variable {db db' db'' : Database} {id : ℕ} {now : ℤ}

theorem of_eq (h : db'.messages = db.messages) : KeepsRows db db' := fun k => by rw [h]

theorem trans (h : KeepsRows db db') (h' : KeepsRows db' db'') : KeepsRows db db'' :=
  fun k => (h' k).trans (h k)

theorem setRow {f : Row → Row} (hf : Amends f) (id channel : ℕ) (now : ℤ) :
    KeepsRows db (db.setRow id channel f now) := by
  intro k
  rw [messages_setRow, Table.get_modify]
  split
  · rw [map_map]
    exact congrArg (fun g => (db.messages.get k).map g) (funext hf.fixed)
  · rfl

theorem bump : KeepsRows db (db.bump id now) := by
  cases hget : db.messages.get id with
  | none =>
    rw [bump_of_none hget]
    exact of_eq rfl
  | some row =>
    rw [bump_of_get hget]
    exact setRow amends_countUp _ _ now

theorem bumpAll (ids : List ℕ) : KeepsRows db (db.bumpAll ids now) := by
  unfold Database.bumpAll
  induction ids generalizing db with
  | nil => exact of_eq rfl
  | cons id ids ih => exact bump.trans ih

theorem bumpRoot (root : Option ℕ) : KeepsRows db (db.bumpRoot now root) := by
  cases root with
  | none => exact of_eq rfl
  | some root => exact bump

theorem editMessage {content : String} : KeepsRows db (db.editMessage id content now) := by
  unfold Database.editMessage
  cases db.messages.get id with
  | none => exact of_eq rfl
  | some row =>
    have hset : KeepsRows db (db.setRow id row.channel (rewrite content now) now) :=
      setRow (amends_rewrite content now) _ _ now
    simp only
    split
    · exact hset
    · exact hset.trans (bumpAll _)

theorem insertReaction {r : Reaction} : KeepsRows db (db.insertReaction r now) := by
  unfold Database.insertReaction
  split
  · exact of_eq rfl
  · exact (of_eq rfl : KeepsRows db { db with reactions := _ }).trans bump

theorem deleteReaction {r : Reaction} : KeepsRows db (db.deleteReaction r now) := by
  unfold Database.deleteReaction
  split
  · exact (of_eq rfl : KeepsRows db { db with reactions := _ }).trans bump
  · exact of_eq rfl

theorem deleteAttachments {p : Attachment → Bool} : KeepsRows db (db.deleteAttachments p now) :=
  (of_eq rfl : KeepsRows db { db with attachments := _ }).trans (bumpAll _)

end KeepsRows

/-! ## Roots -/

/-- Every thread root is a message of the channel that has no root itself. -/
def RootsTop (db : Database) : Prop :=
  ∀ id row root, db.messages.get id = some row → row.threadRoot = some root →
    ∃ top, db.messages.get root = some top ∧ top.channel = row.channel ∧ top.threadRoot = none

variable {f : Primitives} {db db' : Database} {id : ℕ} {now : ℤ}

theorem exists_get_of_fixed {k : ℕ} {row : Row}
    (h : (db.messages.get k).map Row.fixed = (db'.messages.get k).map Row.fixed)
    (hget : db.messages.get k = some row) : ∃ row', db'.messages.get k = some row' ∧
    row'.fixed = row.fixed := by
  rw [hget, map_some] at h
  obtain ⟨row', hrow', heq⟩ := map_eq_some_iff.mp h.symm
  exact ⟨row', hrow', heq⟩

theorem RootsTop.keeps (h : RootsTop db) (hkeeps : KeepsRows db db') : RootsTop db' := by
  intro id row' root hget hroot
  obtain ⟨row, hrow, hfixed⟩ := exists_get_of_fixed (hkeeps id) hget
  have hroot' : row.threadRoot = some root := by
    rw [← threadRoot_fixed, hfixed, threadRoot_fixed, hroot]
  obtain ⟨top, htop, hchannel, hnone⟩ := h id row root hrow hroot'
  obtain ⟨top', htop', hfixed'⟩ := exists_get_of_fixed (hkeeps root).symm htop
  refine ⟨top', htop', ?_, ?_⟩
  · rw [← channel_fixed, hfixed', channel_fixed, hchannel, ← channel_fixed, hfixed,
      channel_fixed]
  · rw [← threadRoot_fixed, hfixed', threadRoot_fixed, hnone]

theorem fixed_deleteRow {k : ℕ} : ((db.deleteRow id now).messages.get k).map Row.fixed =
    if k = id then none else (db.messages.get k).map Row.fixed := by
  unfold deleteRow
  cases hget : db.messages.get id with
  | none =>
    by_cases hk : k = id
    · simp [hk, hget]
    · simp [hk]
  | some row =>
    dsimp only
    rw [KeepsRows.bumpRoot row.threadRoot k, KeepsRows.bumpAll _ k, get_detachRow]
    split
    · rfl
    · rw [messages_journal, map_map]
      exact congrArg (fun g => (db.messages.get k).map g) (funext (fixed_forgetReply id))

theorem fixed_deleteMessage {k : ℕ} : ((db.deleteMessage id now).messages.get k).map Row.fixed =
    if k ∈ id :: db.commentsOf id then none else (db.messages.get k).map Row.fixed := by
  unfold deleteMessage
  generalize id :: db.commentsOf id = ids
  induction ids generalizing db with
  | nil => simp
  | cons id ids ih =>
    rw [List.foldl_cons, ih, fixed_deleteRow]
    by_cases hk : k = id <;> simp [hk]

theorem mem_commentsOf {k : ℕ} :
    k ∈ db.commentsOf id ↔ ∃ row, db.messages.get k = some row ∧ row.threadRoot = some id := by
  simp [commentsOf]

theorem RootsTop.deleteMessage (h : RootsTop db) : RootsTop (db.deleteMessage id now) := by
  intro k row' root hget hroot
  have hfixed := @fixed_deleteMessage db id now k
  rw [hget, map_some] at hfixed
  split at hfixed
  · cases hfixed
  next hkept =>
    obtain ⟨row, hrow, hrowfixed⟩ := map_eq_some_iff.mp hfixed.symm
    have hroot' : row.threadRoot = some root := by
      rw [← threadRoot_fixed, hrowfixed, threadRoot_fixed, hroot]
    obtain ⟨top, htop, hchannel, hnone⟩ := h k row root hrow hroot'
    -- The root is not the deleted message, whose comments go, and not one of the comments.
    have hstays : root ∉ id :: db.commentsOf id := by
      intro hmem
      rcases List.mem_cons.mp hmem with rfl | hcomment
      · exact hkept (List.mem_cons_of_mem _ (mem_commentsOf.mpr ⟨row, hrow, hroot'⟩))
      · obtain ⟨top', htop', hroot''⟩ := mem_commentsOf.mp hcomment
        rw [htop] at htop'
        cases htop'
        rw [hnone] at hroot''
        cases hroot''
    have htopfixed := @fixed_deleteMessage db id now root
    rw [if_neg hstays] at htopfixed
    obtain ⟨top', htop', hfixed'⟩ := exists_get_of_fixed htopfixed.symm htop
    refine ⟨top', htop', ?_, ?_⟩
    · rw [← channel_fixed, hfixed', channel_fixed, hchannel, ← channel_fixed, hrowfixed,
        channel_fixed]
    · rw [← threadRoot_fixed, hfixed', threadRoot_fixed, hnone]

theorem RootsTop.insertRow (h : RootsTop db) {row : Row} (hscope : db.rootInScope row) (now : ℤ) :
    RootsTop (db.insertRow row now) := by
  have hstays : ∀ {k : ℕ} {top : Row}, db.messages.get k = some top →
      (db.insertRow row now).messages.get k = some top := by
    intro k top hget
    rw [messages_insertRow, Table.get_insert_of_ne _ (Table.has_of_get hget).ne_next, hget]
  intro k row' root hget hroot
  rw [messages_insertRow, Table.get_insert] at hget
  split at hget
  · cases hget
    rw [rootInScope, hroot] at hscope
    obtain ⟨top, htop, hin⟩ := (any_eq_true _ _).mp hscope
    have hin := of_decide_eq_true hin
    exact ⟨top, hstays htop, hin.1, hin.2⟩
  · obtain ⟨top, htop, hrest⟩ := h k row' root hget hroot
    exact ⟨top, hstays htop, hrest⟩

theorem keepsRows_store {r : CreateRequest} {row : Row} {sent : Sent}
    (h : db.store f r row = .ok (sent, db')) :
    KeepsRows (db.insertRow row (unix r.insertedAt)) db' := by
  obtain ⟨-, inserted, linked, hinsert, ⟨attachments, polls, pollOptions, rfl⟩, rfl⟩ :=
    store_cases h
  obtain ⟨-, -, rfl⟩ := insertMessage_cases hinsert
  have hroot : KeepsRows (db.insertRow row (unix r.insertedAt))
      ((db.insertRow row (unix r.insertedAt)).bumpRoot (unix r.insertedAt) row.threadRoot) :=
      .bumpRoot _
  refine hroot.trans (KeepsRows.of_eq ?_)
  unfold storeKey
  split <;> rfl

theorem RootsTop.commit (h : RootsTop db) {x : Except Error Database}
    (hx : ∀ db', x = .ok db' → RootsTop db') : RootsTop (db.commit x) := by
  cases x with
  | error e => exact h
  | ok db' => exact hx db' rfl

theorem rootsTop_apply (h : RootsTop db) (op : Op) : RootsTop (db.apply f op) := by
  cases op with
  | create r =>
    refine h.commit fun db' hok => ?_
    obtain ⟨⟨sent, db''⟩, hcreate, rfl⟩ := map_eq_ok.mp hok
    rcases createReferenced_creates hcreate with ⟨-, rfl⟩ | ⟨-, hcreates⟩
    · exact h
    · exact (h.insertRow hcreates.root _).keeps (keepsRows_store hcreates.stored)
  | update s channel id user content now =>
    refine h.commit fun db' hok => ?_
    rw [update_cases hok]
    exact h.keeps .editMessage
  | delete s channel id user now =>
    refine h.commit fun db' hok => ?_
    rw [delete_cases hok]
    exact h.deleteMessage
  | setReaction s channel id user emoji active now =>
    refine h.commit fun db' hok => ?_
    rcases setReaction_cases hok with rfl | rfl
    · exact h.keeps .insertReaction
    · exact h.keeps .deleteReaction
  | vote accessible poll user options now =>
    refine h.commit fun db' hok => ?_
    rw [vote_cases hok]
    exact h.keeps (.of_eq rfl)
  | upload id channel owner file =>
    refine h.commit fun db' hok => ?_
    rw [upload_cases hok]
    exact h.keeps (.of_eq rfl)
  | cleanup id now | claimAbandoned id scheduled now => exact h.keeps .deleteAttachments
  | prune now => exact h.keeps (.of_eq rfl)

theorem roots_run (h : RootsTop db) (ops : List Op) : RootsTop (db.run f ops) :=
  foldl_preserves (fun _ op hdb => rootsTop_apply hdb op) h

end Database

/-! ## Comments -/

/-- How a comment names its post. -/
inductive Naming where
  | reply | root | both
deriving DecidableEq

/-- The request for a comment under a post. -/
def CreateRequest.under (r : CreateRequest) (post : ℕ) (n : Naming) : CreateRequest :=
  { r with input := { r.input with
    replyToMessageID := if n = .root then none else some post
    threadRootID := if n = .reply then none else some post } }

def Standing.mayPost (s : Standing) : Prop :=
  s.member = some .owner ∨ s.member = some .admin ∨ s.publisher

namespace Database

/-- The request is a new one, for the news channel that has the post. -/
structure NewsPost (db : Database) (r : CreateRequest) (ch : ChannelRow) (post : ℕ) : Prop where
  channel : r.standing.channel = some ch
  /-- `CHECK(is_news=0 OR kind='text')`. -/
  news : ch.isNews ∧ ch.kind = .text
  post : ∃ row, db.findMessage r.channel post = some row ∧ row.threadRoot = none
  free : db.findKey r = none

variable {f : Primitives} {db : Database} {r : CreateRequest} {ch : ChannelRow} {role : Role}
  {post : ℕ} {n : Naming}

section

variable (h : NewsPost db r ch post)
include h

theorem requireNewsWrite_under {newsRoot : Option ℕ} :
    db.requireNewsWrite r.standing role ch r.channel (if n = .root then none else some post) =
    .ok newsRoot ↔
      if n = .root then (role = .owner ∨ role = .admin ∨ r.standing.publisher) ∧ newsRoot = none
      else ch.commentsEnabled ∧ newsRoot = some post := by
  obtain ⟨row, hrow, htop⟩ := h.post
  by_cases hn : n = .root
  · rw [if_pos hn, if_pos hn, requireNewsWrite]
    split
    next hforbidden => simp [hforbidden.2]
    next hallowed =>
      have hmay : role = .owner ∨ role = .admin ∨ r.standing.publisher := by
        by_contra hno
        exact hallowed ⟨h.news.1, hno⟩
      simp [hmay, eq_comm (b := newsRoot)]
  · rw [if_neg hn, if_neg hn, requireNewsWrite, if_neg (not_not_intro h.news.1)]
    cases hcomments : ch.commentsEnabled with
    | false => simp
    | true => simp [hrow, htop, eq_comm (b := newsRoot)]

theorem requireThread_under {newsRoot root : Option ℕ}
    (hnews : n ≠ .root → ch.commentsEnabled ∧ newsRoot = some post) :
    db.requireThread ch r.channel (if n = .root then none else some post) newsRoot
      (if n = .reply then none else some post) = .ok root ↔ ch.commentsEnabled ∧
      root = some post := by
  obtain ⟨row, hrow, htop⟩ := h.post
  obtain ⟨hisNews, hkind⟩ := h.news
  cases n with
  | reply =>
    obtain ⟨hcomments, rfl⟩ := hnews (by decide)
    simp [requireThread, hcomments, eq_comm (b := root)]
  | root =>
    cases hcomments : ch.commentsEnabled <;>
      simp [requireThread, hrow, htop, hisNews, hkind, hcomments, Option.filter,
        eq_comm (b := root)]
  | both =>
    obtain ⟨hcomments, rfl⟩ := hnews (by decide)
    simp [requireThread, hrow, htop, hkind, hcomments, Option.filter, eq_comm (b := root)]

theorem requireReply_under :
    db.requireReply r.channel (if n = .root then none else some post) = .ok () := by
  obtain ⟨row, hrow, -⟩ := h.post
  split
  · rfl
  · simp [requireReply, hrow]

/-- The checks of a comment that do not read how it names its post. -/
def Clear (db : Database) (r : CreateRequest) (role : Role) (ch : ChannelRow) : Prop :=
  r.standing.requirePublish = .ok () ∧ db.requireSlowmode role ch r.channel r.author r.checkedAt =
    .ok () ∧ ∃ x, forwarded r = .ok x

theorem newRow_under : (∃ row, db.newRow (r.under post n) role ch = .ok row) ↔
    ch.commentsEnabled ∧ (n = .root → role = .owner ∨ role = .admin ∨ r.standing.publisher) ∧
      Clear db r role ch := by
  constructor
  · rintro ⟨row, hrow⟩
    obtain ⟨newsRoot, hnews, hrow⟩ := bind_eq_ok.mp hrow
    obtain ⟨⟨⟩, hpublish, hrow⟩ := bind_eq_ok.mp hrow
    obtain ⟨⟨⟩, hslow, hrow⟩ := bind_eq_ok.mp hrow
    obtain ⟨root, hthread, hrow⟩ := bind_eq_ok.mp hrow
    obtain ⟨⟨⟩, -, hrow⟩ := bind_eq_ok.mp hrow
    obtain ⟨x, hforward, -⟩ := bind_eq_ok.mp hrow
    have hnews := (requireNewsWrite_under h).mp hnews
    have hcomments := ((requireThread_under h fun hn => by rwa [if_neg hn] at hnews).mp hthread).1
    refine ⟨hcomments, ?_, hpublish, hslow, x, hforward⟩
    intro hn
    rw [if_pos hn] at hnews
    exact hnews.1
  · rintro ⟨hcomments, hmay, hpublish, hslow, x, hforward⟩
    have hnews : db.requireNewsWrite r.standing role ch r.channel
      (if n = .root then none else some post) =
        .ok (if n = .root then none else some post) := by
      refine (requireNewsWrite_under h).mpr ?_
      split
      next hn => exact ⟨hmay hn, rfl⟩
      next hn => exact ⟨hcomments, rfl⟩
    have hthread : db.requireThread ch r.channel (if n = .root then none else some post)
        (if n = .root then none else some post) (if n = .reply then none else some post) = .ok
        (some post) :=
      (requireThread_under h fun hn => ⟨hcomments, if_neg hn⟩).mpr ⟨hcomments, rfl⟩
    have hreply : db.requireReply r.channel (if n = .root then none else some post) = .ok () :=
      requireReply_under h
    exact ⟨_, bind_eq_ok.mpr ⟨_, hnews, bind_eq_ok.mpr ⟨(), hpublish, bind_eq_ok.mpr ⟨(), hslow,
      bind_eq_ok.mpr
      ⟨_, hthread, bind_eq_ok.mpr ⟨(), hreply, bind_eq_ok.mpr ⟨x, hforward, rfl⟩⟩⟩⟩⟩⟩⟩

theorem threadRoot_under {row : Row} (hrow : db.newRow (r.under post n) role ch = .ok row) :
    row.threadRoot = some post ∧ row.channel = r.channel ∧ row.replyTo = if n = .root then none else
    some post := by
  obtain ⟨newsRoot, hnews, hrow⟩ := bind_eq_ok.mp hrow
  obtain ⟨-, -, hrow⟩ := bind_eq_ok.mp hrow
  obtain ⟨-, -, hrow⟩ := bind_eq_ok.mp hrow
  obtain ⟨root, hthread, hrow⟩ := bind_eq_ok.mp hrow
  obtain ⟨-, -, hrow⟩ := bind_eq_ok.mp hrow
  obtain ⟨x, -, hrow⟩ := bind_eq_ok.mp hrow
  have hnews := (requireNewsWrite_under h).mp hnews
  have hroot := ((requireThread_under h fun hn => by rwa [if_neg hn] at hnews).mp hthread).2
  cases hrow
  exact ⟨hroot, rfl, rfl⟩

theorem scope_under {row : Row} (hrow : db.newRow (r.under post n) role ch = .ok row) :
    db.replyInScope row ∧ db.rootInScope row := by
  obtain ⟨hroot, hchannel, hreply⟩ := threadRoot_under h hrow
  obtain ⟨top, hpost, htop⟩ := h.post
  obtain ⟨hget, hin⟩ := filter_eq_some_iff.mp hpost
  have hin : top.channel = r.channel := of_decide_eq_true hin
  constructor
  · rw [replyInScope, hreply]
    cases n <;> simp [hget, hin, hchannel]
  · simp [rootInScope, hroot, hget, hin, hchannel, htop]

end

/-! ## The inserts -/

theorem attachments_bumpRoot {now : ℤ} {root : Option ℕ} :
    (db.bumpRoot now root).attachments = db.attachments := by
  cases root with
  | none => rfl
  | some root =>
    show (db.bump root now).attachments = db.attachments
    unfold bump
    split <;> rfl

/-- The poll of a request is valid, and its attachments are there to be linked. -/
def Complete (f : Primitives) (db : Database) (r : CreateRequest) : Prop :=
  (∀ poll ∈ r.input.poll, ∃ p, poll.validate f r.polledAt = .ok p) ∧
    ∃ linked, db.linkAttachments db.messages.next r.channel r.author r.input.attachmentIDs =
      .ok linked

theorem storePoll_ok {id : ℕ} {now : ℤ} {poll : Option PollInput} :
    (∃ polled, db.storePoll f id now poll = .ok polled) ↔
      ∀ input ∈ poll, ∃ p, input.validate f now = .ok p := by
  cases poll with
  | none => simp [storePoll]
  | some input =>
    simp only [mem_some, forall_eq']
    constructor
    · rintro ⟨polled, hpolled⟩
      obtain ⟨p, hvalid, -⟩ := bind_eq_ok.mp hpolled
      exact ⟨p, hvalid⟩
    · rintro ⟨p, hvalid⟩
      exact ⟨_, bind_eq_ok.mpr ⟨p, hvalid, rfl⟩⟩

theorem linkAttachments_ok {db db' : Database} {message channel owner : ℕ} {ids : List String}
    (hsame : db'.attachments = db.attachments)
    (h : ∃ linked, linkAttachments message channel owner db ids = .ok linked) :
    ∃ linked, linkAttachments message channel owner db' ids = .ok linked := by
  induction ids generalizing db db' with
  | nil => exact ⟨db', rfl⟩
  | cons id ids ih =>
    unfold linkAttachments at h ⊢
    rw [hsame]
    split at h
    next hlink =>
      rw [if_pos hlink]
      refine ih ?_ h
      rw [linkAttachment, linkAttachment, hsame]
    · obtain ⟨linked, hlinked⟩ := h
      cases hlinked

theorem store_ok {row : Row} (hscope : db.replyInScope row ∧ db.rootInScope row) :
    (∃ x, db.store f r row = .ok x) ↔ Complete f db r := by
  have hinsert : db.insertMessage row (unix r.insertedAt) =
      some ((db.insertRow row (unix r.insertedAt)).bumpRoot (unix r.insertedAt) row.threadRoot) :=
      if_pos hscope
  -- neither the message nor its poll touches the attachments
  have hsame :
    ∀ {polled : Database}, ((db.insertRow row (unix r.insertedAt)).bumpRoot (unix r.insertedAt)
      row.threadRoot).storePoll f db.messages.next r.polledAt r.input.poll = .ok polled →
      polled.attachments = db.attachments := by
    intro polled hpolled
    obtain ⟨polls, pollOptions, rfl⟩ := storePoll_cases hpolled
    exact attachments_bumpRoot
  unfold store
  rw [hinsert]
  constructor
  · rintro ⟨x, h⟩
    obtain ⟨polled, hpolled, h⟩ := bind_eq_ok.mp h
    obtain ⟨linked, hlinked, -⟩ := bind_eq_ok.mp h
    exact ⟨storePoll_ok.mp ⟨polled, hpolled⟩, linkAttachments_ok (hsame hpolled).symm ⟨linked,
      hlinked⟩⟩
  · rintro ⟨hpoll, hattachments⟩
    obtain ⟨polled, hpolled⟩ := storePoll_ok.mpr hpoll
    obtain ⟨linked, hlinked⟩ := linkAttachments_ok (hsame hpolled) hattachments
    exact ⟨_, bind_eq_ok.mpr ⟨polled, hpolled, bind_eq_ok.mpr ⟨linked, hlinked, rfl⟩⟩⟩

/-! ## Admission -/

def Accepts (f : Primitives) (db : Database) (r : CreateRequest) : Prop :=
  ∃ sent db', db.createReferenced f r = .ok (sent, db')

theorem createReferenced_of_free (hfree : db.findKey r = none) : db.createReferenced f r =
    r.standing.access >>= fun x => db.newRow r x.1 x.2 >>= db.store f r := by
  unfold createReferenced
  simp only [hfree]

theorem createReferenced_under (h : NewsPost db r ch post) :
    db.createReferenced f (r.under post n) =
      r.standing.access >>= fun x => db.newRow (r.under post n) x.1 x.2 >>= db.store f
      (r.under post n) :=
  createReferenced_of_free h.free

/-- The author may comment in the channel, whatever the comment names its post by: its comments are
enabled, the author has access to it and may publish, is not held back by slow mode, and the request
is complete. -/
structure MayComment (f : Primitives) (db : Database) (r : CreateRequest) (ch : ChannelRow) :
    Prop where
  comments : ch.commentsEnabled
  clear : ∃ role, r.standing.access = .ok (role, ch) ∧ Clear db r role ch
  complete : Complete f db r

theorem complete_under : Complete f db (r.under post n) ↔ Complete f db r := by
  simp only [Complete, CreateRequest.under]

theorem accepts_under (h : NewsPost db r ch post) :
    Accepts f db (r.under post n) ↔ MayComment f db r ch ∧ (n = .root → r.standing.mayPost) := by
  have hposts : ∀ {role}, r.standing.member = some role →
      ((role = .owner ∨ role = .admin ∨ r.standing.publisher) ↔ r.standing.mayPost) := by
    intro role hrole
    simp [Standing.mayPost, hrole]
  constructor
  · rintro ⟨sent, db', haccepts⟩
    rw [createReferenced_under h] at haccepts
    obtain ⟨⟨role, ch'⟩, haccess, haccepts⟩ := bind_eq_ok.mp haccepts
    obtain ⟨row, hrow, hstore⟩ := bind_eq_ok.mp haccepts
    obtain ⟨hrole, hch⟩ := access_cases haccess
    obtain rfl := mem_unique h.channel hch
    obtain ⟨hcomments, hmay, hclear⟩ := (newRow_under h).mp ⟨row, hrow⟩
    refine ⟨⟨hcomments, ⟨role, haccess, hclear⟩, ?_⟩, fun hn => (hposts hrole).mp (hmay hn)⟩
    exact complete_under.mp ((store_ok (scope_under h hrow)).mp ⟨_, hstore⟩)
  · rintro ⟨⟨hcomments, ⟨role, haccess, hclear⟩, hcomplete⟩, hmay⟩
    have hrole := (access_cases haccess).1
    obtain ⟨row, hrow⟩ :=
      (newRow_under h).mpr ⟨hcomments, fun hn => (hposts hrole).mpr (hmay hn), hclear⟩
    obtain ⟨⟨sent, db'⟩, hstore⟩ : ∃ x, db.store f (r.under post n) row = .ok x :=
      (store_ok (scope_under h hrow)).mpr (complete_under.mpr hcomplete)
    refine ⟨sent, db', ?_⟩
    rw [createReferenced_under h]
    exact bind_eq_ok.mpr ⟨(role, ch), haccess, bind_eq_ok.mpr ⟨row, hrow, hstore⟩⟩

theorem root_under (h : NewsPost db r ch post) {sent : Sent} {db' : Database}
    (haccepted : db.createReferenced f (r.under post n) = .ok (sent, db')) :
    sent.row.threadRoot = some post := by
  rw [createReferenced_under h] at haccepted
  obtain ⟨⟨role, ch'⟩, haccess, haccepted⟩ := bind_eq_ok.mp haccepted
  obtain ⟨row, hrow, hstore⟩ := bind_eq_ok.mp haccepted
  obtain ⟨-, hch⟩ := access_cases haccess
  obtain rfl := mem_unique h.channel hch
  rw [(store_cases hstore).1]
  exact (threadRoot_under h hrow).1

/-- **Threads are one level deep, and when comments are admitted uniformly.** After every run, a
thread root is a message of the channel that has no root. In a news channel, a new comment under a
post has the post as its root, however it names it, and a comment that replies to the post is
accepted exactly if it also is with the post as its thread root. Naming the root alone makes no
difference exactly to those who may write posts and to those who may not comment at all. -/
theorem comments_uniform (f : Primitives) (ops : List Op) : let db := Database.empty.run f ops
    (∀ id row root, db.messages.get id = some row → row.threadRoot = some root →
      ∃ top, db.messages.get root = some top ∧ top.channel = row.channel ∧ top.threadRoot = none) ∧
    ∀ r ch post, NewsPost db r ch post →
      (∀ n sent db', db.createReferenced f (r.under post n) = .ok (sent, db') →
        sent.row.threadRoot = some post) ∧
      (Accepts f db (r.under post .reply) ↔ Accepts f db (r.under post .both)) ∧
      ((Accepts f db (r.under post .root) ↔ Accepts f db (r.under post .reply)) ↔
        r.standing.mayPost ∨ ¬MayComment f db r ch) := by
  intro db
  have hempty : RootsTop Database.empty := by
    intro id row root hget
    cases hget
  refine ⟨roots_run hempty ops, ?_⟩
  intro r ch post h
  refine ⟨fun n sent db' haccepted => root_under h haccepted, ?_, ?_⟩
  · rw [accepts_under h, accepts_under h]
    simp
  · rw [accepts_under h, accepts_under h]
    simp only [reduceCtorEq, forall_const, false_implies, and_true, and_iff_left_iff_imp]
    rw [or_comm, imp_iff_not_or]

/-! ## A news channel -/

namespace Sample

/-- What is found about a user of a news channel with comments. -/
def standing (role : Role) : Standing :=
  { Standing.writer 0 with member := some role, channel := some ⟨.text, true, true, 0⟩ }

/-- Account 7 owns the server and has posted. -/
def posted : Op := .create (.plain (standing .owner) 1 7 "post" 0)

def comment (role : Role) (user : ℕ) : CreateRequest :=
    .plain (standing role) 1 user "comment" second

end Sample

/-- The owner's comment is accepted with the root alone, as it is with a reply. -/
theorem comments_uniform_owner : let db := Database.empty.run .verbatim [Sample.posted]
    Accepts .verbatim db ((Sample.comment .owner 7).under 1 .root) ↔
      Accepts .verbatim db ((Sample.comment .owner 7).under 1 .reply) :=
  ((comments_uniform .verbatim [Sample.posted]).2 (Sample.comment .owner 7) ⟨.text, true, true, 0⟩ 1
    ⟨rfl, by decide, ⟨_, rfl, rfl⟩, rfl⟩).2.2.mpr (.inl (.inl rfl))

/-- A plain member may comment with a reply, and with both, but not with the root alone. -/
theorem comment_by_root_refused : let db := Database.empty.run .verbatim [Sample.posted]
    (∃ sent db', db.createReferenced .verbatim ((Sample.comment .member 8).under 1 .reply) = .ok
    (sent, db') ∧
      sent.row.threadRoot = some 1) ∧
    (∃ sent db', db.createReferenced .verbatim ((Sample.comment .member 8).under 1 .both) = .ok
    (sent, db') ∧
      sent.row.threadRoot = some 1) ∧
    db.createReferenced .verbatim ((Sample.comment .member 8).under 1 .root) =
    .error .forbidden := by
  exact ⟨⟨_, _, rfl, rfl⟩, ⟨_, _, rfl, rfl⟩, rfl⟩

/-- **A message keeps its identity.** An id that was given out stays with its message: once deleted
it does not come back, and its revision never decreases. -/
theorem message_identity (f : Primitives) (db : Database) (ops : List Op) {id row'}
    (hid : id < db.messages.next) (hrow : (db.run f ops).messages.get id = some row') :
    ∃ row, db.messages.get id = some row ∧ row'.fixed = row.fixed ∧ row.revision ≤ row'.revision :=
  (Descends.of_run f db ops).row hid hrow

theorem message_identity_posted : let db := Database.empty.run .verbatim [Sample.posted]
    ∃ row', (db.run .verbatim [Sample.posted]).messages.get 1 = some row' ∧ ∃ row,
      db.messages.get 1 = some row ∧ row'.fixed = row.fixed ∧ row.revision ≤ row'.revision :=
  ⟨_, rfl, message_identity .verbatim _ [Sample.posted] (by decide) rfl⟩

end Database

end Voxhold.Message
