/-
# Voxhold.Message.Writes — what an operation on messages can write

`Write` lists the single statements on messages that are there. Every operation is a sequence of
them, after the insert of one row if it is a new send (`apply_cases`); a fact proved for both holds
along every run (`run_induction`).
-/

import Mathlib.Logic.Relation
import Voxhold.Lib.Trace
import Voxhold.Message.Operations

namespace Voxhold.Message

open Voxhold.Lib Relation Except

namespace Row

@[simp] theorem fixed_forgetReply (id : ℕ) (row : Row) :
    (Database.forgetReply id row).fixed = row.fixed := by
  unfold Database.forgetReply
  split <;> rfl

@[simp] theorem channel_fixed (row : Row) : row.fixed.channel = row.channel := rfl

@[simp] theorem threadRoot_fixed (row : Row) : row.fixed.threadRoot = row.threadRoot := rfl

@[simp] theorem createdAt_fixed (row : Row) : row.fixed.createdAt = row.createdAt := rfl

end Row

namespace Database

/-! ## Single statements -/

/-- An update of a row as the program makes it: the revision goes up and the fixed part stays. -/
structure Amends (f : Row → Row) : Prop where
  fixed : ∀ row, (f row).fixed = row.fixed
  revision : ∀ row, row.revision < (f row).revision
  replyTo : ∀ row, (f row).replyTo = row.replyTo

theorem amends_countUp : Amends Row.countUp :=
  ⟨fun _ => rfl, fun row => Nat.lt_succ_self row.revision, fun _ => rfl⟩

theorem amends_rewrite (content : String) (now : ℤ) : Amends (Row.rewrite content now) :=
  ⟨fun _ => rfl, fun row => Nat.lt_succ_self row.revision, fun _ => rfl⟩

inductive Write : Database → Database → Prop
  | set {db : Database} {id : ℕ} {row : Row} {f : Row → Row} (now : ℤ)
      (hget : db.messages.get id = some row) (hf : Amends f) :
        Write db (db.setRow id row.channel f now)
  | remove {db : Database} {id : ℕ} {row : Row} (now : ℤ) (hget : db.messages.get id = some row) :
      Write db ((db.journal row.channel id now).detachRow id)
  | attach (db : Database) (reactions : List Reaction) (attachments : List Attachment)
      (polls : Table Poll) (pollOptions : Table PollOption) (votes : List Vote) :
      Write db { db with reactions := reactions, attachments := attachments, polls := polls,
                         pollOptions := pollOptions, votes := votes }
  | key {db : Database} {key : SendID} {id : ℕ} {row : Row} (contentHash : String)
      (kind : RequestKind) (hfree : db.sendKeys key = none) (hget : db.messages.get id = some row)
      (hchannel : row.channel = key.channel) :
      Write db
        { db with sendKeys := Function.update db.sendKeys key (some ⟨contentHash, some id, kind⟩) }
  | prune (db : Database) (now : ℤ) : Write db (db.pruneChangeBatch now)

def Writes : Database → Database → Prop := ReflTransGen Write

namespace Writes

variable {db db' db'' : Database}

theorem refl (db : Database) : Writes db db := ReflTransGen.refl

theorem single (h : Write db db') : Writes db db' := ReflTransGen.single h

theorem trans (h : Writes db db') (h' : Writes db' db'') : Writes db db'' := ReflTransGen.trans h h'

theorem induction {R : Database → Database → Prop} (hrefl : ∀ db, R db db)
    (hwrite : ∀ {db db'}, Write db db' → R db db')
    (htrans : ∀ {db db' db''}, R db db' → R db' db'' → R db db'') (h : Writes db db') :
    R db db' := by
  induction h with
  | refl => exact hrefl db
  | tail _ hlast ih => exact htrans ih (hwrite hlast)

end Writes

def SameKeys (db db' : Database) : Prop :=
  ∀ k, (db'.sendKeys k).isSome = (db.sendKeys k).isSome

/-- Writes that store no key. -/
def Rewrites : Database → Database → Prop :=
  ReflTransGen fun db db' => Write db db' ∧ SameKeys db db'

namespace Rewrites

variable {db db' db'' : Database}

theorem refl (db : Database) : Rewrites db db := ReflTransGen.refl

theorem single (h : Write db db') (hkeys : SameKeys db db') : Rewrites db db' :=
  ReflTransGen.single ⟨h, hkeys⟩

theorem trans (h : Rewrites db db') (h' : Rewrites db' db'') : Rewrites db db'' :=
    ReflTransGen.trans h h'

theorem foldl {α : Type} {g : Database → α → Database} (hg : ∀ db a, Rewrites db (g db a))
    (l : List α) (db : Database) : Rewrites db (l.foldl g db) := by
  induction l generalizing db with
  | nil => exact refl db
  | cons a l ih => exact (hg db a).trans (ih (g db a))

theorem writes (h : Rewrites db db') : Writes db db' :=
  ReflTransGen.mono (fun _ _ => And.left) _ _ h

theorem sameKeys (h : Rewrites db db') : SameKeys db db' := by
  induction h with
  | refl => exact fun _ => rfl
  | tail _ hlast ih => exact fun k => (hlast.2 k).trans (ih k)

theorem set {id : ℕ} {row : Row} {f : Row → Row} (now : ℤ) (hget : db.messages.get id = some row)
    (hf : Amends f) : Rewrites db (db.setRow id row.channel f now) :=
  single (.set now hget hf) fun k => by rw [sendKeys_setRow]

theorem remove {id : ℕ} {row : Row} (now : ℤ) (hget : db.messages.get id = some row) :
    Rewrites db ((db.journal row.channel id now).detachRow id) :=
  single (.remove now hget) fun _ => Option.isSome_map

theorem attach (db : Database) (reactions : List Reaction) (attachments : List Attachment)
    (polls : Table Poll) (pollOptions : Table PollOption) (votes : List Vote) :
    Rewrites db { db with reactions := reactions, attachments := attachments, polls := polls,
                          pollOptions := pollOptions, votes := votes } :=
  single (.attach db _ _ _ _ _) fun _ => rfl

end Rewrites

/-! ## Statements with their triggers -/

section Statements

section

variable (db : Database)

theorem rewrites_bump (id : ℕ) (now : ℤ) : Rewrites db (db.bump id now) := by
  cases hget : db.messages.get id with
  | none =>
    rw [bump_of_none hget]
    exact .refl db
  | some row =>
    rw [bump_of_get hget]
    exact .set now hget amends_countUp

theorem rewrites_bumpAll (ids : List ℕ) (now : ℤ) : Rewrites db (db.bumpAll ids now) :=
  Rewrites.foldl (fun db id => rewrites_bump db id now) ids db

theorem rewrites_bumpRoot (now : ℤ) (root : Option ℕ) : Rewrites db (db.bumpRoot now root) := by
  cases root with
  | none => exact .refl db
  | some root => exact rewrites_bump db root now

theorem rewrites_editMessage (id : ℕ) (content : String) (now : ℤ) :
    Rewrites db (db.editMessage id content now) := by
  unfold editMessage
  cases hget : db.messages.get id with
  | none => exact .refl db
  | some row =>
    have hset := Rewrites.set now hget (amends_rewrite content now)
    simp only
    split
    · exact hset
    · exact hset.trans (rewrites_bumpAll _ _ now)

theorem rewrites_deleteRow (id : ℕ) (now : ℤ) : Rewrites db (db.deleteRow id now) := by
  unfold deleteRow
  cases hget : db.messages.get id with
  | none => exact .refl db
  | some row =>
    exact ((Rewrites.remove now hget).trans (rewrites_bumpAll _ _ now)).trans
      (rewrites_bumpRoot _ now _)

theorem rewrites_insertReaction (r : Reaction) (now : ℤ) :
    Rewrites db (db.insertReaction r now) := by
  unfold insertReaction
  split
  · exact .refl db
  · exact (Rewrites.attach db _ _ _ _ _).trans (rewrites_bump _ _ now)

theorem rewrites_deleteReaction (r : Reaction) (now : ℤ) :
    Rewrites db (db.deleteReaction r now) := by
  unfold deleteReaction
  split
  · exact (Rewrites.attach db _ _ _ _ _).trans (rewrites_bump _ _ now)
  · exact .refl db

theorem rewrites_deleteAttachments (p : Attachment → Bool) (now : ℤ) :
    Rewrites db (db.deleteAttachments p now) :=
  (Rewrites.attach db _ _ _ _ _).trans (rewrites_bumpAll _ _ now)

end

end Statements

/-! ## Transactions -/

theorem access_cases {s : Standing} {role : Role} {ch : ChannelRow}
    (h : s.access = .ok (role, ch)) : s.member = some role ∧ s.channel = some ch := by
  obtain ⟨role', hmember, h⟩ := bind_eq_ok.mp h
  obtain ⟨ch', hchannel, h⟩ := bind_eq_ok.mp h
  cases h
  constructor
  · unfold Standing.requireServerMember at hmember
    split at hmember
    · cases hmember
    next heq => rw [heq, ok.inj hmember]
  · unfold Standing.requireMessageChannel at hchannel
    split at hchannel
    · cases hchannel
    next heq =>
      split_ifs at hchannel
      rw [heq, ok.inj hchannel]

section Creating

variable {f : Primitives} {db db' : Database} {r : CreateRequest} {row : Row} {sent : Sent} {id : ℕ}
  {now : ℤ}
  {inserted : Database}

theorem createReferenced_cases (h : db.createReferenced f r = .ok (sent, db')) :
    (∃ k, db.findKey r = some k ∧ db.replay f r k = .ok sent ∧ db' = db) ∨
    (∃ role ch row, r.standing.access = .ok (role, ch) ∧ db.findKey r = none ∧
      db.newRow r role ch = .ok row ∧ db.store f r row = .ok (sent, db')) := by
  obtain ⟨⟨role, ch⟩, haccess, h⟩ := bind_eq_ok.mp h
  cases hkey : db.findKey r with
  | some k =>
    simp only [hkey] at h
    obtain ⟨sent', hreplay, heq⟩ := map_eq_ok.mp h
    cases heq
    exact .inl ⟨k, rfl, hreplay, rfl⟩
  | none =>
    simp only [hkey] at h
    obtain ⟨row, hnew, hstore⟩ := bind_eq_ok.mp h
    exact .inr ⟨role, ch, row, haccess, rfl, hnew, hstore⟩

theorem newRow_cases {role : Role} {ch : ChannelRow} (h : db.newRow r role ch = .ok row) :
    ∃ root content forwardData, db.checkSlowmode role ch r.channel r.author r.checkedAt ≤ 0 ∧
      row = { channel := r.channel, author := r.author, content := content,
              createdAt := unix r.insertedAt, editedAt := none, revision := 1,
              replyTo := r.input.replyToMessageID, replyToOriginal := r.input.replyToMessageID,
              forwardData := forwardData, threadRoot := root } := by
  obtain ⟨newsRoot, -, h⟩ := bind_eq_ok.mp h
  obtain ⟨-, -, h⟩ := bind_eq_ok.mp h
  obtain ⟨⟨⟩, hslow, h⟩ := bind_eq_ok.mp h
  obtain ⟨root, -, h⟩ := bind_eq_ok.mp h
  obtain ⟨-, -, h⟩ := bind_eq_ok.mp h
  obtain ⟨⟨content, forwardData⟩, -, h⟩ := bind_eq_ok.mp h
  refine ⟨root, content, forwardData, ?_, (ok.inj h).symm⟩
  unfold requireSlowmode at hslow
  split at hslow
  · cases hslow
  next hwait => exact Int.not_lt.mp hwait

theorem storePoll_cases {poll : Option PollInput} (h : db.storePoll f id now poll = .ok db') :
    ∃ polls pollOptions, db' = { db with polls := polls, pollOptions := pollOptions } := by
  cases poll with
  | none => exact ⟨_, _, (ok.inj h).symm⟩
  | some input =>
    obtain ⟨p, -, h⟩ := bind_eq_ok.mp h
    exact ⟨_, _, (ok.inj h).symm⟩

theorem linkAttachments_cases {message channel owner : ℕ} {ids : List String}
    (h : linkAttachments message channel owner db ids = .ok db') :
    ∃ attachments, db' = { db with attachments := attachments } := by
  induction ids generalizing db with
  | nil => exact ⟨_, (ok.inj h).symm⟩
  | cons id ids ih =>
    unfold linkAttachments at h
    split at h
    · obtain ⟨attachments, rfl⟩ := ih h
      exact ⟨attachments, rfl⟩
    · cases h

theorem store_cases (h : db.store f r row = .ok (sent, db')) :
    sent = ⟨db.messages.next, row, false⟩ ∧ ∃ inserted linked,
      db.insertMessage row (unix r.insertedAt) = some inserted ∧
      (∃ attachments polls pollOptions, linked = { inserted with
        attachments := attachments, polls := polls, pollOptions := pollOptions }) ∧
      db' = linked.storeKey f r db.messages.next := by
  unfold store at h
  cases hinsert : db.insertMessage row (unix r.insertedAt) with
  | none =>
    simp only [hinsert] at h
    cases h
  | some inserted =>
    simp only [hinsert] at h
    obtain ⟨polled, hpoll, h⟩ := bind_eq_ok.mp h
    obtain ⟨linked, hlink, h⟩ := bind_eq_ok.mp h
    obtain ⟨polls, pollOptions, rfl⟩ := storePoll_cases hpoll
    obtain ⟨attachments, rfl⟩ := linkAttachments_cases hlink
    cases h
    exact ⟨rfl, inserted, _, rfl, ⟨attachments, polls, pollOptions, rfl⟩, rfl⟩

theorem insertMessage_cases (h : db.insertMessage row now = some inserted) :
    db.replyInScope row ∧ db.rootInScope row ∧
      inserted = (db.insertRow row now).bumpRoot now row.threadRoot := by
  unfold insertMessage at h
  split at h
  next hscope =>
    cases h
    exact ⟨hscope.1, hscope.2, rfl⟩
  · cases h

theorem root_ne_next (h : db.rootInScope row) : row.threadRoot ≠ some db.messages.next := by
  intro hroot
  rw [rootInScope, hroot] at h
  simp at h

theorem get_insertMessage_next (h : db.insertMessage row now = some inserted) :
    inserted.messages.get db.messages.next = some row := by
  obtain ⟨-, hroot, rfl⟩ := insertMessage_cases h
  rw [get_bumpRoot_of_ne (root_ne_next hroot), messages_insertRow, Table.get_insert_next]

theorem sendKeys_insertMessage (h : db.insertMessage row now = some inserted) :
    inserted.sendKeys = db.sendKeys := by
  obtain ⟨-, -, rfl⟩ := insertMessage_cases h
  rw [sendKeys_bumpRoot, sendKeys_insertRow]

theorem get_store (h : db.store f r row = .ok (sent, db')) :
    db'.messages.get sent.id = some row := by
  obtain ⟨rfl, inserted, linked, hinsert, ⟨attachments, polls, pollOptions, rfl⟩, rfl⟩ :=
    store_cases h
  have hget := get_insertMessage_next hinsert
  unfold storeKey
  split <;> exact hget

theorem writes_storeKey (hfree : db.findKey r = none) (hget : db.messages.get id = some row)
    (hchannel : row.channel = r.channel) : Writes db (db.storeKey f r id) := by
  unfold findKey at hfree
  unfold storeKey
  split at hfree
  next hempty =>
    rw [if_pos hempty]
    exact .refl db
  next hempty =>
    rw [if_neg hempty]
    exact .single (.key _ _ hfree hget hchannel)

theorem writes_store (hfree : db.findKey r = none) (hchannel : row.channel = r.channel)
    (h : db.store f r row = .ok (sent, db')) :
    Writes (db.insertRow row (unix r.insertedAt)) db' := by
  obtain ⟨rfl, inserted, linked, hinsert, ⟨attachments, polls, pollOptions, rfl⟩, rfl⟩ :=
    store_cases h
  have hroot : Writes (db.insertRow row (unix r.insertedAt)) inserted := by
    rw [(insertMessage_cases hinsert).2.2]
    exact (rewrites_bumpRoot _ _ _).writes
  have hattach :=
    Writes.single (Write.attach inserted inserted.reactions attachments polls pollOptions
    inserted.votes)
  have hget := get_insertMessage_next hinsert
  refine (hroot.trans hattach).trans (writes_storeKey ?_ hget hchannel)
  simpa only [findKey, sendKeys_insertMessage hinsert] using hfree

/-- A send that inserted a row. -/
structure Creates (f : Primitives) (db : Database) (r : CreateRequest) (row : Row)
    (db' : Database) : Prop where
  result : db.createReferenced f r = .ok (⟨db.messages.next, row, false⟩, db')
  free : db.findKey r = none
  admitted : ∃ role ch, r.standing.access = .ok (role, ch) ∧ db.newRow r role ch = .ok row
  channel : row.channel = r.channel
  author : row.author = r.author
  createdAt : row.createdAt = unix r.insertedAt
  reply : db.replyInScope row
  root : db.rootInScope row
  writes : Writes (db.insertRow row (unix r.insertedAt)) db'
  stored : db.store f r row = .ok (⟨db.messages.next, row, false⟩, db')

theorem createReferenced_creates (h : db.createReferenced f r = .ok (sent, db')) :
    (sent.replayed = true ∧ db' = db) ∨
      (sent = ⟨db.messages.next, sent.row, false⟩ ∧ Creates f db r sent.row db') := by
  rcases createReferenced_cases h with ⟨k, -, hreplay, rfl⟩ | ⟨role, ch, row, haccess, hfree,
    hnew, hstore⟩
  · left
    refine ⟨?_, rfl⟩
    unfold replay at hreplay
    split at hreplay
    · cases hreplay
    · split at hreplay
      · cases hreplay
      · split at hreplay
        · cases hreplay
        · exact congrArg Sent.replayed (ok.inj hreplay).symm
  · right
    obtain ⟨rfl, inserted, linked, hinsert, -⟩ := store_cases hstore
    obtain ⟨hreply, hroot, -⟩ := insertMessage_cases hinsert
    obtain ⟨root, content, forwardData, -, hrow⟩ := newRow_cases hnew
    refine ⟨rfl, ?_⟩
    exact { result := h, free := hfree, admitted := ⟨role, ch, haccess, hnew⟩,
            channel := hrow ▸ rfl, author := hrow ▸ rfl, createdAt := hrow ▸ rfl,
            reply := hreply, root := hroot, writes := writes_store hfree (hrow ▸ rfl) hstore,
            stored := hstore }

end Creating

section Applying

variable {f : Primitives} {db db' : Database} {s : Standing} {channel id user : ℕ} {now : ℤ}

theorem update_cases {content : String} (h : db.update s channel id user content now = .ok db') :
    db' = db.editMessage id content (unix now) := by
  obtain ⟨⟨role, ch⟩, -, h⟩ := bind_eq_ok.mp h
  obtain ⟨-, -, h⟩ := bind_eq_ok.mp h
  obtain ⟨-, -, h⟩ := bind_eq_ok.mp h
  split at h
  · cases h
  · split at h
    · cases h
    · split at h
      · cases h
      · exact (ok.inj h).symm

theorem delete_cases (h : db.delete s channel id user now = .ok db') :
    db' = db.deleteMessage id (unix now) := by
  obtain ⟨⟨role, ch⟩, -, h⟩ := bind_eq_ok.mp h
  dsimp only at h
  split at h
  · cases h
  · split at h
    · cases h
    · exact (ok.inj h).symm

theorem setReaction_cases {emoji : String} {active : Bool}
    (h : db.setReaction s channel id user emoji active now = .ok db') :
    db' = db.insertReaction ⟨id, emoji, user⟩ (unix now) ∨
      db' = db.deleteReaction ⟨id, emoji, user⟩ (unix now) := by
  unfold setReaction at h
  split at h
  · cases h
  · obtain ⟨-, -, h⟩ := bind_eq_ok.mp h
    split_ifs at h
    · exact .inl (ok.inj h).symm
    · exact .inr (ok.inj h).symm

theorem vote_cases {accessible : Bool} {poll : ℕ} {options : List ℕ}
    (h : db.vote accessible poll user options now = .ok db') :
    db' = db.replaceVotes poll user options := by
  unfold vote at h
  split at h
  · cases h
  · split at h
    · cases h
    · split_ifs at h
      exact (ok.inj h).symm

theorem upload_cases {aid : String} {file : FileInfo}
    (h : db.upload aid channel user file = .ok db') :
    db' = { db with attachments := db.attachments ++ [⟨aid, channel, user, none, none,
    file⟩] } := by
  unfold upload at h
  split at h
  · cases h
  · exact (ok.inj h).symm

theorem rewrites_commit {x : Except Error Database} (h : ∀ db', x = .ok db' → Rewrites db db') :
    Rewrites db (db.commit x) := by
  cases x with
  | error e => exact .refl db
  | ok db' => exact h db' rfl

theorem apply_create_of_ok {r : CreateRequest} {sent : Sent}
    (h : db.createReferenced f r = .ok (sent, db')) : db.apply f (.create r) = db' := by
  rw [apply, h]
  rfl

theorem apply_create_of_error {r : CreateRequest} {e : Error}
    (h : db.createReferenced f r = .error e) : db.apply f (.create r) = db := by
  rw [apply, h]
  rfl

theorem apply_cases (f : Primitives) (db : Database) (op : Op) :
    Rewrites db (db.apply f op) ∨ ∃ r row, op = .create r ∧ Creates f db r row (db.apply f op) := by
  cases op with
  | create r =>
    cases hcreate : db.createReferenced f r with
    | error e =>
      rw [apply_create_of_error hcreate]
      exact .inl (.refl db)
    | ok x =>
      obtain ⟨sent, db'⟩ := x
      rw [apply_create_of_ok hcreate]
      rcases createReferenced_creates hcreate with ⟨-, rfl⟩ | ⟨-, hcreates⟩
      · exact .inl (.refl db')
      · exact .inr ⟨r, sent.row, rfl, hcreates⟩
  | update s channel id user content now =>
    refine .inl (rewrites_commit fun db' h => ?_)
    rw [update_cases h]
    exact rewrites_editMessage db id content _
  | delete s channel id user now =>
    refine .inl (rewrites_commit fun db' h => ?_)
    rw [delete_cases h]
    exact Rewrites.foldl (fun db id => rewrites_deleteRow db id _) _ db
  | setReaction s channel id user emoji active now =>
    refine .inl (rewrites_commit fun db' h => ?_)
    rcases setReaction_cases h with rfl | rfl
    · exact rewrites_insertReaction db _ _
    · exact rewrites_deleteReaction db _ _
  | vote accessible poll user options now =>
    refine .inl (rewrites_commit fun db' h => ?_)
    rw [vote_cases h]
    exact .attach db _ _ _ _ _
  | upload id channel owner file =>
    refine .inl (rewrites_commit fun db' h => ?_)
    rw [upload_cases h]
    exact .attach db _ _ _ _ _
  | cleanup id now
  | claimAbandoned id scheduled now => exact .inl (rewrites_deleteAttachments db _ _)
  | prune now => exact .inl (.single (.prune db now) fun _ => rfl)

section

variable {R : Database → Database → Prop} (hrefl : ∀ db, R db db)
  (htrans : ∀ {db db' db''}, R db db' → R db' db'' → R db db'') (hwrite : ∀ {db db'}, Write db db' →
  R db db')
  (hinsert : ∀ {db : Database} {row : Row} (now : ℤ), db.replyInScope row →
  R db (db.insertRow row now))
include hrefl htrans hwrite hinsert

theorem apply_induction (f : Primitives) (db : Database) (op : Op) : R db (db.apply f op) := by
  rcases apply_cases f db op with hwrites | ⟨r, row, -, hcreates⟩
  · exact hwrites.writes.induction hrefl hwrite htrans
  · exact htrans (hinsert _ hcreates.reply) (hcreates.writes.induction hrefl hwrite htrans)

theorem run_induction (f : Primitives) (db : Database) (ops : List Op) : R db (db.run f ops) := by
  induction ops generalizing db with
  | nil => exact hrefl db
  | cons op ops ih => exact htrans (apply_induction hrefl htrans hwrite hinsert f db op) (ih _)

end

end Applying

/-! ## Rows over time -/

/-- Keys are not handed out twice, and a row that is still there has its fixed part. -/
structure Descends (db db' : Database) : Prop where
  next_le : db.messages.next ≤ db'.messages.next
  row : ∀ {id : ℕ} {row' : Row}, id < db.messages.next → db'.messages.get id = some row' →
    ∃ row, db.messages.get id = some row ∧ row'.fixed = row.fixed ∧ row.revision ≤ row'.revision

namespace Descends

variable {db db' db'' : Database}

theorem of_messages_eq (h : db'.messages = db.messages) : Descends db db' where
  next_le := h ▸ le_rfl
  row := fun {_ row'} _ hget => ⟨row', h ▸ hget, rfl, le_rfl⟩

theorem trans (h : Descends db db') (h' : Descends db' db'') : Descends db db'' where
  next_le := h.next_le.trans h'.next_le
  row := by
    intro id row'' hid hget
    obtain ⟨row', hget', hfixed', hrev'⟩ := h'.row (hid.trans_le h.next_le) hget
    obtain ⟨row, hget, hfixed, hrev⟩ := h.row hid hget'
    exact ⟨row, hget, hfixed'.trans hfixed, hrev.trans hrev'⟩

theorem of_insertRow (row : Row) (now : ℤ) : Descends db (db.insertRow row now) where
  next_le := Nat.le_succ _
  row := by
    intro id row' hid hget
    rw [messages_insertRow, Table.get_insert_of_ne _ (Nat.ne_of_lt hid)] at hget
    exact ⟨row', hget, rfl, le_rfl⟩

theorem of_setRow {f : Row → Row} (hf : Amends f) (id channel : ℕ) (now : ℤ) :
    Descends db (db.setRow id channel f now) where
  next_le := le_rfl
  row := by
    intro k row' _ hget
    rw [messages_setRow, Table.get_modify] at hget
    split at hget
    · obtain ⟨row, hrow, rfl⟩ := Option.map_eq_some_iff.mp hget
      exact ⟨row, hrow, hf.fixed row, (hf.revision row).le⟩
    · exact ⟨row', hget, rfl, le_rfl⟩

theorem of_detachRow (id : ℕ) : Descends db (db.detachRow id) where
  next_le := le_rfl
  row := by
    intro k row' _ hget
    obtain ⟨row, hrow, rfl⟩ := of_get_detachRow hget
    refine ⟨row, hrow, Row.fixed_forgetReply id row, ?_⟩
    unfold forgetReply
    split <;> exact le_rfl

theorem of_write (h : Write db db') : Descends db db' := by
  cases h with
  | set now _ hf => exact of_setRow hf _ _ now
  | remove now _ => exact (of_messages_eq messages_journal).trans (of_detachRow _)
  | attach | key | prune => exact of_messages_eq rfl

theorem of_writes (h : Writes db db') : Descends db db' :=
  h.induction (fun _ => of_messages_eq rfl) of_write trans

theorem of_run (f : Primitives) (db : Database) (ops : List Op) : Descends db (db.run f ops) :=
  run_induction (fun _ => of_messages_eq rfl) trans of_write
    (fun now _ => of_insertRow _ now) f db ops

end Descends

theorem Writes.next_eq {db db' : Database} (h : Writes db db') :
    db'.messages.next = db.messages.next := by
  refine h.induction (R := fun db db' => db'.messages.next = db.messages.next) (fun _ => rfl) ?_
    fun h h' => h'.trans h
  intro db db' hwrite
  cases hwrite <;> rfl

namespace Creates

variable {f : Primitives} {db db' db'' : Database} {r : CreateRequest} {row row' : Row}

theorem next_eq (h : Creates f db r row db') : db'.messages.next = db.messages.next + 1 :=
  h.writes.next_eq

theorem get (h : Creates f db r row db') : db'.messages.get db.messages.next = some row :=
  get_store h.stored

end Creates

/-! ## The messages a run creates -/

/-- A message that was created: the request, the key and the row it got, and the tables it found. -/
structure Creation where
  request : CreateRequest
  id : ℕ
  row : Row
  before : Database

/-- The message an operation creates, if it does. -/
def created (f : Primitives) (db : Database) : Op → Option Creation
  | .create r => match db.createReferenced f r with
    | .ok (sent, _) => if sent.replayed then none else some ⟨r, sent.id, sent.row, db⟩
    | .error _ => none
  | _ => none

def creations (f : Primitives) : Database → List Op → List Creation
  | _, [] => []
  | db, op :: ops => (db.created f op).toList ++ creations f (db.apply f op) ops

section Log

variable {f : Primitives} {db : Database} {op : Op} {ops : List Op} {c : Creation}

theorem created_cases (h : db.created f op = some c) :
    op = .create c.request ∧ c.before = db ∧ c.id = db.messages.next ∧
      Creates f db c.request c.row (db.apply f op) := by
  cases op with
  | create r =>
    unfold created at h
    cases hcreate : db.createReferenced f r with
    | error e =>
      simp only [hcreate] at h
      cases h
    | ok x =>
      obtain ⟨sent, db'⟩ := x
      simp only [hcreate] at h
      rcases createReferenced_creates hcreate with ⟨hreplayed, -⟩ | ⟨hsent, hcreates⟩
      · rw [if_pos hreplayed] at h
        cases h
      · rw [if_neg (by rw [hsent]; exact Bool.false_ne_true)] at h
        cases h
        refine ⟨rfl, rfl, congrArg Sent.id hsent, ?_⟩
        rw [apply_create_of_ok hcreate]
        exact hcreates
  | update | delete | setReaction | vote | upload | cleanup | claimAbandoned | prune => cases h

theorem creations_eq_logged :
    creations f db ops = logged (fun db op => db.apply f op) (created f) db ops := by
  induction ops generalizing db with
  | nil => rfl
  | cons op ops ih => exact congrArg ((db.created f op).toList ++ ·) ih

theorem mem_creations (h : c ∈ creations f db ops) : ∃ pre post,
    ops = pre ++ .create c.request :: post ∧ c.before = db.run f pre ∧
      c.id = c.before.messages.next ∧
      Creates f c.before c.request c.row (c.before.apply f (.create c.request)) := by
  rw [creations_eq_logged] at h
  obtain ⟨pre, op, post, rfl, hcreated⟩ := mem_logged h
  obtain ⟨rfl, hbefore, hid, hcreates⟩ := created_cases hcreated
  refine ⟨pre, post, rfl, hbefore, hbefore ▸ hid, ?_⟩
  rw [hbefore]
  exact hcreates

theorem pairwise_creations {R : Creation → Creation → Prop}
    (hR : ∀ {db : Database} {c c' : Creation} {first pre post : List Op},
      ops = first ++ .create c.request :: (pre ++ .create c'.request :: post) →
      c.id = db.messages.next → Creates f db c.request c.row (db.apply f (.create c.request)) →
      c'.before = (db.apply f (.create c.request)).run f pre →
      Creates f c'.before c'.request c'.row (c'.before.apply f (.create c'.request)) → R c c') :
    (creations f db ops).Pairwise R := by
  rw [creations_eq_logged]
  refine pairwise_logged fun first op pre op' post c c' hops hc hc' => ?_
  obtain ⟨rfl, -, hid, hcreates⟩ := created_cases hc
  obtain ⟨rfl, hbefore', -, hcreates'⟩ := created_cases hc'
  refine hR hops hid hcreates hbefore' ?_
  rw [hbefore']
  exact hcreates'

end Log

end Database

end Voxhold.Message
