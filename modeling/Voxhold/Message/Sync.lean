/-
# Voxhold.Message.Sync — message sync and the client that follows it

`Sync` answers with the newest messages of the channel (a reset) or with those the journal names
since the client's cursor. The rows are those of the moment the page is read, and pruning moves the
floor between two pages.
-/

import Voxhold.Lib.ChangeFeed
import Voxhold.Message.Writes

namespace Voxhold.Message

open Voxhold.Lib List Table Database

/-! ## Pages -/

structure Item where
  id : ℕ
  author : ℕ
  content : String
  createdAt : ℤ
  editedAt : Option ℤ
  revision : ℕ
  threadRoot : Option ℕ
deriving DecidableEq

def Row.item (id : ℕ) (row : Row) : Item :=
  ⟨id, row.author, row.content, row.createdAt, row.editedAt, row.revision, row.threadRoot⟩

structure SyncPage where
  messages : List Item
  deletedIDs : List ℕ
  cursor : ℕ
  reset : Bool
  hasMore : Bool
  hasOlder : Bool
deriving DecidableEq

def syncPageSize : ℕ := 200

namespace Database

variable (db : Database)

/-- The state of a channel; a channel without a row has not been written to yet. -/
def stateOf (channel : ℕ) : SyncState :=
  (db.syncState channel).getD ⟨0, 0⟩

/-- The top-level messages of a channel, in the order of their keys. -/
def topLevel (channel : ℕ) : List Item :=
  (db.messages.toList.filter fun x => x.2.channel = channel ∧ x.2.threadRoot = none).map
    fun x => x.2.item x.1

/-- The newest 50 top-level messages; one more is read to know whether there are older ones. -/
def resetPage (channel : ℕ) : SyncPage :=
  let newest := (db.topLevel channel).reverse.take 51
  { messages := (newest.take 50).reverse
    deletedIDs := []
    cursor := (db.stateOf channel).cursor
    reset := true
    hasMore := false
    hasOlder := 50 < newest.length }

def changesAfter (channel after : ℕ) : List (ℕ × Change) :=
  db.changes.toList.filter fun x => x.2.channel = channel ∧ after < x.1

/-- The messages that the journal names after a cursor, as they are now. One row more than the page
holds is read to know whether there are more. -/
def deltaPage (channel after : ℕ) : SyncPage :=
  let rows := (db.changesAfter channel after).take (syncPageSize + 1)
  let page := rows.take syncPageSize
  let hasMore := decide (syncPageSize < rows.length)
  { messages := page.filterMap fun x => (db.messages.get x.2.message).map (Row.item x.2.message)
    deletedIDs := (page.filter fun x => (db.messages.get x.2.message).isNone).map fun x =>
      x.2.message
    cursor := if hasMore then (page.getLast?.map Prod.fst).getD after else
      (db.stateOf channel).cursor
    reset := false
    hasMore := hasMore
    hasOlder := false }

def mustReset (channel : ℕ) : Option ℕ → Bool
  | none => true
  | some after => after < (db.stateOf channel).floor ∨ (db.stateOf channel).cursor < after

def syncPage (channel : ℕ) (after : Option ℕ) : SyncPage :=
  if db.mustReset channel after then db.resetPage channel
  else db.deltaPage channel (after.getD 0)

def sync (s : Standing) (channel : ℕ) (after : Option ℕ) : Except Error SyncPage := do
  let _ ← s.access
  return db.syncPage channel after

end Database

/-! ## The client -/

/-- What a client has: its messages, the cursor of the last page, and the smallest key of the last
reset page if there were older messages. -/
structure Client where
  view : ℕ → Option Item
  cursor : Option ℕ
  bound : ℕ

namespace Client

def new : Client := ⟨fun _ => none, none, 0⟩

def upsert (view : ℕ → Option Item) (item : Item) : ℕ → Option Item :=
  Function.update view item.id (some item)

def remove (view : ℕ → Option Item) (id : ℕ) : ℕ → Option Item :=
  Function.update view id none

/-- A reset page replaces the view; another page brings changes of top-level messages and deletions.
-/
def receive (c : Client) (page : SyncPage) : Client :=
  if page.reset then
    { view := page.messages.foldl upsert fun _ => none
      cursor := some page.cursor
      bound := if page.hasOlder then (page.messages.map Item.id).min?.getD 0 else 0 }
  else
    { c with
      view := page.deletedIDs.foldl remove
        ((page.messages.filter fun item => item.threadRoot = none).foldl upsert c.view)
      cursor := some page.cursor }

end Client

/-- What happens to the tables and the client: an operation of the program, or a call of `Sync` with
the cursor of the last page, which is applied if it is not refused. -/
inductive Event where
  | write (op : Op)
  | sync (s : Standing)

def Event.step (f : Primitives) (channel : ℕ) (x : Database × Client) : Event → Database × Client
  | .write op => (x.1.apply f op, x.2)
  | .sync s => match x.1.sync s channel x.2.cursor with
    | .ok page => (x.1, x.2.receive page)
    | .error _ => x

def follow (f : Primitives) (channel : ℕ) (db : Database) (events : List Event) :
    Database × Client :=
  events.foldl (Event.step f channel) (db, .new)

namespace Database

variable {db db' : Database} {channel id k n : ℕ} {row : Row} {now : ℤ}

/-! ## The journal -/

/-- What the triggers keep true of the journal. -/
structure JournalSound (db : Database) : Prop where
  cursor : ∀ {n : ℕ} {c : Change}, db.changes.get n = some c →
    ∃ state, db.syncState c.channel = some state ∧ n ≤ state.cursor
  fresh : ∀ {channel : ℕ} {state : SyncState}, db.syncState channel = some state →
    state.cursor < db.changes.next
  born : ∀ {n : ℕ} {c : Change}, db.changes.get n = some c → c.message < db.messages.next
  channel : ∀ {n : ℕ} {c : Change} {row : Row}, db.changes.get n = some c →
    db.messages.get c.message = some row → row.channel = c.channel

/-- The channel as a store with a journal. -/
def feed (db : Database) (channel : ℕ) : Feed ℕ Item where
  rows := fun id => (db.messages.get id).bind fun row =>
    if row.channel = channel ∧ row.threadRoot = none then some (row.item id) else none
  hidden := fun id => ∃ row, db.messages.get id = some row ∧
    ¬ (row.channel = channel ∧ row.threadRoot = none)
  born := fun id => id < db.messages.next
  log := fun n => (db.changes.get n).bind fun c => if c.channel = channel then some c.message
    else none
  cursor := (db.stateOf channel).cursor
  floor := (db.stateOf channel).floor

theorem rows_feed_eq_some {item : Item} : (db.feed channel).rows id = some item ↔
    ∃ row, db.messages.get id = some row ∧ row.channel = channel ∧ row.threadRoot = none ∧
      row.item id = item := by
  simp only [feed, Option.bind_eq_some_iff, Option.ite_none_right_eq_some, Option.some.injEq,
    and_assoc]

theorem log_feed_eq_some : (db.feed channel).log n = some id ↔
    ∃ c, db.changes.get n = some c ∧ c.channel = channel ∧ c.message = id := by
  simp only [feed, Option.bind_eq_some_iff, Option.ite_none_right_eq_some, Option.some.injEq]

theorem sound_feed (h : JournalSound db) (channel : ℕ) : (db.feed channel).Sound where
  log_le := by
    intro n id hlog
    obtain ⟨c, hget, rfl, -⟩ := log_feed_eq_some.mp hlog
    obtain ⟨state, hstate, hle⟩ := h.cursor hget
    show n ≤ (db.stateOf c.channel).cursor
    rw [stateOf, hstate]
    exact hle
  born_of_rows := by
    intro id item hrow
    obtain ⟨row, hget, -⟩ := rows_feed_eq_some.mp hrow
    exact lt_next_of_get hget
  shown_of_rows := by
    rintro id item hrow ⟨row', hget', hhidden⟩
    obtain ⟨row, hget, hchannel, hroot, -⟩ := rows_feed_eq_some.mp hrow
    rw [hget] at hget'
    cases hget'
    exact hhidden ⟨hchannel, hroot⟩

/-! ## How a channel evolves -/

/-- A statement that keeps the journal sound and lets every channel evolve. -/
def Syncs (db db' : Database) : Prop :=
  JournalSound db → JournalSound db' ∧ ∀ channel, (db.feed channel).Evolves (db'.feed channel)

theorem Syncs.refl (db : Database) : Syncs db db := fun h => ⟨h, fun _ => .refl _⟩

theorem Syncs.trans {db'' : Database} (h : Syncs db db') (h' : Syncs db' db'') : Syncs db db'' := by
  intro hdb
  obtain ⟨hdb', hevolves⟩ := h hdb
  obtain ⟨hdb'', hevolves'⟩ := h' hdb'
  exact ⟨hdb'', fun channel => (hevolves channel).trans (hevolves' channel)⟩

theorem hidden_of_descends (h : Descends db db') (hk : (db'.feed channel).hidden k) :
    (db.feed channel).hidden k ∨ ¬ (db.feed channel).born k := by
  by_cases hborn : k < db.messages.next
  · obtain ⟨row', hget', hhidden⟩ := hk
    obtain ⟨row, hget, hfixed, -⟩ := h.row hborn hget'
    refine .inl ⟨row, hget, ?_⟩
    rwa [← Row.channel_fixed row, ← Row.threadRoot_fixed row, ← hfixed]
  · exact .inr hborn

/-- A statement with a journal row: it changes the shown rows of one channel at one key, and the
journal row names both. -/
structure Journaled (channel id : ℕ) (db db' : Database) : Prop where
  changes : ∃ now, db'.changes = db.changes.insert ⟨channel, id, now⟩
  state : db'.syncState = Function.update db.syncState channel
    (some ⟨db.changes.next, (db.stateOf channel).floor⟩)
  descends : Descends db db'
  born : id < db'.messages.next
  channel_eq : ∀ row, db'.messages.get id = some row → row.channel = channel
  rows : ∀ channel' k, channel' ≠ channel ∨ k ≠ id →
    (db'.feed channel').rows k = (db.feed channel').rows k

namespace Journaled

variable {channel' : ℕ} {c : Change}

section

variable (h : Journaled channel id db db')
include h

theorem state_self :
    db'.syncState channel = some ⟨db.changes.next, (db.stateOf channel).floor⟩ := by
  rw [h.state, Function.update_self]

theorem state_ne (hne : channel' ≠ channel) : db'.syncState channel' = db.syncState channel' := by
  rw [h.state, Function.update_of_ne hne]

theorem get_changes (hc : db'.changes.get n = some c) :
    (n = db.changes.next ∧ c.channel = channel ∧ c.message = id) ∨ db.changes.get n = some c := by
  obtain ⟨now, hchanges⟩ := h.changes
  rw [hchanges, get_insert] at hc
  split at hc
  next hn =>
    cases hc
    exact .inl ⟨hn, rfl, rfl⟩
  · exact .inr hc

theorem next_changes : db'.changes.next = db.changes.next + 1 := by
  obtain ⟨now, hchanges⟩ := h.changes
  rw [hchanges, next_insert]

theorem journalSound (hdb : JournalSound db) : JournalSound db' where
  cursor := by
    intro n c hc
    rcases h.get_changes hc with ⟨rfl, hcc, -⟩ | hold
    · rw [hcc]
      exact ⟨_, h.state_self, le_rfl⟩
    · obtain ⟨state, hstate, hle⟩ := hdb.cursor hold
      by_cases hcc : c.channel = channel
      · rw [hcc] at hstate ⊢
        exact ⟨_, h.state_self, hle.trans (hdb.fresh hstate).le⟩
      · exact ⟨state, (h.state_ne hcc).trans hstate, hle⟩
  fresh := by
    intro channel' state hstate
    rw [h.next_changes]
    by_cases hcc : channel' = channel
    · rw [hcc, h.state_self] at hstate
      cases hstate
      exact Nat.lt_succ_self _
    · rw [h.state_ne hcc] at hstate
      exact (hdb.fresh hstate).trans (Nat.lt_succ_self _)
  born := by
    intro n c hc
    rcases h.get_changes hc with ⟨-, -, hm⟩ | hold
    · rw [hm]
      exact h.born
    · exact (hdb.born hold).trans_le h.descends.next_le
  channel := by
    intro n c row hc hrow
    rcases h.get_changes hc with ⟨-, hcc, hm⟩ | hold
    · rw [hcc]
      exact h.channel_eq row (hm ▸ hrow)
    · obtain ⟨row₀, hrow₀, hfixed, -⟩ := h.descends.row (hdb.born hold) hrow
      rw [← Row.channel_fixed, hfixed, Row.channel_fixed]
      exact hdb.channel hold hrow₀

end

theorem cursor_lt (hdb : JournalSound db) (channel : ℕ) :
    (db.stateOf channel).cursor < db.changes.next := by
  unfold stateOf
  cases hs : db.syncState channel with
  | none => exact db.changes.next_pos
  | some state => exact hdb.fresh hs

section

variable (h : Journaled channel id db db')
include h

theorem stateOf_eq : db'.stateOf channel' =
    if channel' = channel then ⟨db.changes.next, (db.stateOf channel).floor⟩
    else db.stateOf channel' := by
  split
  next heq => rw [heq, stateOf, h.state_self, Option.getD_some]
  next hne => rw [stateOf, h.state_ne hne, stateOf]

theorem log_kept (hlog : (db.feed channel').log n = some k) :
    (db'.feed channel').log n = some k := by
  obtain ⟨c, hc, hcc, hm⟩ := log_feed_eq_some.mp hlog
  obtain ⟨now, hchanges⟩ := h.changes
  refine log_feed_eq_some.mpr ⟨c, ?_, hcc, hm⟩
  rw [hchanges, get_insert_of_ne _ (Nat.ne_of_lt (lt_next_of_get hc)), hc]

theorem log_next : (db'.feed channel).log db.changes.next = some id := by
  obtain ⟨now, hchanges⟩ := h.changes
  refine log_feed_eq_some.mpr ⟨⟨channel, id, now⟩, ?_, rfl, rfl⟩
  rw [hchanges, get_insert_next]

theorem evolves (hdb : JournalSound db) (channel' : ℕ) :
    (db.feed channel').Evolves (db'.feed channel') where
  cursor_le := by
    show (db.stateOf channel').cursor ≤ (db'.stateOf channel').cursor
    rw [h.stateOf_eq]
    split
    next heq => exact heq ▸ (cursor_lt hdb channel').le
    · exact le_rfl
  floor_le := by
    show (db.stateOf channel').floor ≤ (db'.stateOf channel').floor
    rw [h.stateOf_eq]
    split
    next heq => rw [heq]
    · exact le_rfl
  changed k hk := by
    have hboth : channel' = channel ∧ k = id := by
      by_contra hne
      exact hk (h.rows channel' k (by tauto))
    obtain ⟨rfl, rfl⟩ := hboth
    exact ⟨db.changes.next, cursor_lt hdb channel', .inl h.log_next⟩
  kept := fun n k hlog _ => h.log_kept hlog
  born := fun k hk => Nat.lt_of_lt_of_le hk h.descends.next_le
  hidden := fun k hk => hidden_of_descends h.descends hk

theorem syncs : Syncs db db' := fun hdb =>
  ⟨h.journalSound hdb, h.evolves hdb⟩

end

end Journaled

theorem syncState_journal :
    (db.journal channel id now).syncState = Function.update db.syncState channel
    (some ⟨db.changes.next, (db.stateOf channel).floor⟩) := by
  unfold journal stateOf
  cases db.syncState channel <;> rfl

theorem rows_feed_congr (h : (db'.messages.get k).map (fun row => (row.channel, row.item k)) =
    (db.messages.get k).map fun row => (row.channel, row.item k)) (channel : ℕ) :
    (db'.feed channel).rows k = (db.feed channel).rows k := by
  have hrows : ∀ db : Database, (db.feed channel).rows k =
      ((db.messages.get k).map fun row => (row.channel, row.item k)).bind fun x =>
        if x.1 = channel ∧ x.2.threadRoot = none then some x.2 else none := by
    intro db
    show (db.messages.get k).bind _ = _
    cases db.messages.get k <;> rfl
  rw [hrows, hrows, h]

theorem rows_feed_of_ne (h : ∀ row, db.messages.get k = some row → row.channel ≠ channel) :
    (db.feed channel).rows k = none := by
  cases hrow : (db.feed channel).rows k with
  | none => rfl
  | some item =>
    obtain ⟨row, hget, hchannel, -⟩ := rows_feed_eq_some.mp hrow
    exact absurd hchannel (h row hget)

theorem Journaled.of_row (hchanges : ∃ now, db'.changes = db.changes.insert ⟨channel, id, now⟩)
    (hstate : db'.syncState = Function.update db.syncState channel
      (some ⟨db.changes.next, (db.stateOf channel).floor⟩))
    (hdescends : Descends db db') (hborn : id < db'.messages.next)
    (hbefore : ∀ row, db.messages.get id = some row → row.channel = channel)
    (hafter : ∀ row, db'.messages.get id = some row → row.channel = channel)
    (hother : ∀ k, k ≠ id → (db'.messages.get k).map (fun row => (row.channel, row.item k)) =
      (db.messages.get k).map fun row => (row.channel, row.item k)) :
      Journaled channel id db db' where
  changes := hchanges
  state := hstate
  descends := hdescends
  born := hborn
  channel_eq := hafter
  rows := by
    rintro channel' k hne
    by_cases hk : k = id
    · subst hk
      have hne : channel ≠ channel' := (hne.resolve_right (not_not_intro rfl)).symm
      rw [rows_feed_of_ne fun row hget => (hafter row hget).trans_ne hne,
        rows_feed_of_ne fun row hget => (hbefore row hget).trans_ne hne]
    · exact rows_feed_congr (hother k hk) channel'

theorem journaled_insertRow (db : Database) (row : Row) (now : ℤ) :
    Journaled row.channel db.messages.next db (db.insertRow row now) := by
  refine .of_row ⟨now, rfl⟩ syncState_journal (.of_insertRow row now) (Nat.lt_succ_self _) ?_ ?_ ?_
  · intro row' hget
    rw [get_next] at hget
    cases hget
  · intro row' hget
    rw [messages_insertRow, get_insert_next] at hget
    cases hget
    rfl
  · intro k hk
    rw [messages_insertRow, get_insert_of_ne _ hk]

theorem journaled_setRow {f : Row → Row} (hf : Amends f) (hget : db.messages.get id = some row) :
    Journaled row.channel id db (db.setRow id row.channel f now) := by
  refine .of_row ⟨now, rfl⟩ syncState_journal (.of_setRow hf _ _ now)
    (lt_next_of_get hget : id < db.messages.next) ?_ ?_ ?_
  · intro row' hget'
    rw [hget] at hget'
    cases hget'
    rfl
  · intro row' hget'
    rw [messages_setRow, get_modify, if_pos rfl, hget] at hget'
    cases hget'
    rw [← Row.channel_fixed, hf.fixed, Row.channel_fixed]
  · intro k hk
    rw [messages_setRow, get_modify, if_neg hk]

theorem item_forgetReply : (forgetReply id row).item k = row.item k := by
  unfold forgetReply
  split <;> rfl

theorem channel_forgetReply : (forgetReply id row).channel = row.channel := by
  unfold forgetReply
  split <;> rfl

theorem journaled_remove (hget : db.messages.get id = some row) :
    Journaled row.channel id db ((db.journal row.channel id now).detachRow id) := by
  refine .of_row ⟨now, rfl⟩ (syncState_journal : (db.journal row.channel id now).syncState = _)
    ((Descends.of_messages_eq messages_journal).trans (.of_detachRow id))
    (lt_next_of_get hget : id < db.messages.next) ?_ ?_ ?_
  · intro row' hget'
    rw [hget] at hget'
    cases hget'
    rfl
  · intro row' hget'
    rw [get_detachRow, if_pos rfl] at hget'
    cases hget'
  · intro k hk
    rw [get_detachRow, if_neg hk, messages_journal, Option.map_map]
    simp only [Function.comp_def, item_forgetReply, channel_forgetReply]

theorem syncs_of_eq (hmessages : db'.messages = db.messages) (hchanges : db'.changes = db.changes)
    (hstate : db'.syncState = db.syncState) : Syncs db db' := by
  have hfeed : ∀ channel, db'.feed channel = db.feed channel := by
    intro channel
    simp only [feed, stateOf, hmessages, hchanges, hstate]
  intro h
  refine ⟨⟨?_, ?_, ?_, ?_⟩, fun channel => hfeed channel ▸ .refl _⟩
  · rw [hchanges, hstate]
    exact h.cursor
  · rw [hchanges, hstate]
    exact h.fresh
  · rw [hchanges, hmessages]
    exact h.born
  · rw [hchanges, hmessages]
    exact h.channel

/-! ## Pruning -/

section Prune

variable {batch : List (ℕ × Change)} {c : Change}

theorem get_pruneChangeBatch (h : (db.pruneChangeBatch now).changes.get n = some c) :
    db.changes.get n = some c := by
  obtain ⟨c', hc', hkeep⟩ := Option.bind_eq_some_iff.mp h
  dsimp only at hkeep
  split at hkeep
  · exact hkeep ▸ hc'
  · split at hkeep
    · cases hkeep
    · exact hkeep ▸ hc'

theorem stateOf_pruneChangeBatch (db : Database) (channel : ℕ) (now : ℤ) :
    ((db.pruneChangeBatch now).stateOf channel).cursor = (db.stateOf channel).cursor ∧
      (db.stateOf channel).floor ≤ ((db.pruneChangeBatch now).stateOf channel).floor := by
  unfold pruneChangeBatch stateOf
  dsimp only
  split
  · exact ⟨rfl, le_rfl⟩
  next floor _ =>
    cases db.syncState channel with
    | none => exact ⟨rfl, le_rfl⟩
    | some state => exact ⟨rfl, le_max_left _ _⟩

theorem isSome_pruneChangeBatch (db : Database) (channel : ℕ) (now : ℤ) :
    ((db.pruneChangeBatch now).syncState channel).isSome = (db.syncState channel).isSome := by
  unfold pruneChangeBatch
  dsimp only
  split
  · rfl
  · exact Option.isSome_map

theorem syncState_eq_some_iff {state : SyncState} : db.syncState channel = some state ↔
    (db.syncState channel).isSome ∧ db.stateOf channel = state := by
  unfold stateOf
  cases db.syncState channel <;> simp

theorem get_pruneChangeBatch_of_lt (h : JournalSound db) (hget : db.changes.get n = some c)
    (hfloor : ((db.pruneChangeBatch now).stateOf c.channel).floor < n) :
    (db.pruneChangeBatch now).changes.get n = some c := by
  obtain ⟨state, hstate, -⟩ := h.cursor hget
  unfold pruneChangeBatch stateOf at hfloor
  unfold pruneChangeBatch
  rw [get_alter, hget, Option.bind_some]
  dsimp only at hfloor ⊢
  split
  · rfl
  next floor hbatch =>
    rw [hbatch, hstate] at hfloor
    exact if_neg (not_le.mpr ((le_max_right _ _).trans_lt hfloor))

theorem syncs_pruneChangeBatch (db : Database) (now : ℤ) : Syncs db (db.pruneChangeBatch now) := by
  intro h
  constructor
  · constructor
    · intro n c hc
      obtain ⟨state, hstate, hle⟩ := h.cursor (get_pruneChangeBatch hc)
      obtain ⟨hsome, hstateOf⟩ := syncState_eq_some_iff.mp hstate
      refine ⟨_, syncState_eq_some_iff.mpr ⟨?_, rfl⟩, ?_⟩
      · rw [isSome_pruneChangeBatch, hsome]
      · rw [(stateOf_pruneChangeBatch db c.channel now).1, hstateOf]
        exact hle
    · intro channel state hstate
      obtain ⟨hsome, rfl⟩ := syncState_eq_some_iff.mp hstate
      rw [isSome_pruneChangeBatch] at hsome
      rw [(stateOf_pruneChangeBatch db channel now).1]
      exact h.fresh (syncState_eq_some_iff.mpr ⟨hsome, rfl⟩)
    · exact fun hc => h.born (get_pruneChangeBatch hc)
    · exact fun hc => h.channel (get_pruneChangeBatch hc)
  · intro channel
    obtain ⟨hcursor, hfloor⟩ := stateOf_pruneChangeBatch db channel now
    refine ⟨hcursor.ge, hfloor, fun k hk => absurd rfl hk, ?_, fun _ hk => hk, fun _ hk => .inl hk⟩
    intro n k hlog hn
    obtain ⟨c, hc, rfl, hm⟩ := log_feed_eq_some.mp hlog
    exact log_feed_eq_some.mpr ⟨c, get_pruneChangeBatch_of_lt h hc hn, rfl, hm⟩

end Prune

theorem syncs_write (h : Write db db') : Syncs db db' := by
  cases h with
  | set now hget hf => exact (journaled_setRow hf hget).syncs
  | remove now hget => exact (journaled_remove hget).syncs
  | attach | key => exact syncs_of_eq rfl rfl rfl
  | prune now => exact syncs_pruneChangeBatch db now

theorem syncs_apply (f : Primitives) (db : Database) (op : Op) : Syncs db (db.apply f op) :=
  apply_induction Syncs.refl Syncs.trans syncs_write
    (fun now _ => (journaled_insertRow _ _ now).syncs) f db op

end Database

/-! ## Applying a page -/

namespace Client

variable {view : ℕ → Option Item} {k : ℕ}

theorem foldl_upsert {rows : ℕ → Option Item} {items : List Item}
    (h : ∀ item ∈ items, rows item.id = some item) :
    items.foldl upsert view k = if k ∈ items.map Item.id then rows k else view k := by
  induction items generalizing view with
  | nil => simp
  | cons item items ih =>
    rw [foldl_cons, ih fun i hi => h i (mem_cons_of_mem _ hi), map_cons]
    by_cases hk : k = item.id
    · simp [hk, upsert, h item mem_cons_self]
    · simp [hk, upsert]

theorem foldl_remove {ids : List ℕ} : ids.foldl remove view k = if k ∈ ids then none else
    view k := by
  induction ids generalizing view with
  | nil => simp
  | cons id ids ih =>
    rw [foldl_cons, ih]
    by_cases hk : k = id
    · simp [hk, remove]
    · simp [hk, remove]

end Client

namespace Database

variable {db : Database} {channel id k n after : ℕ} {item : Item} {c : Client}
  {x : ℕ × Change}

/-! ### A reset page -/

theorem mem_topLevel : item ∈ db.topLevel channel ↔ (db.feed channel).rows item.id = some item := by
  rw [rows_feed_eq_some]
  simp only [topLevel, mem_map, mem_filter, decide_eq_true_eq, Prod.exists, mem_toList]
  constructor
  · rintro ⟨id, row, ⟨hget, hchannel, hroot⟩, rfl⟩
    exact ⟨row, hget, hchannel, hroot, rfl⟩
  · rintro ⟨row, hget, hchannel, hroot, heq⟩
    exact ⟨item.id, row, ⟨hget, hchannel, hroot⟩, heq⟩

theorem messages_resetPage : (db.resetPage channel).messages =
    (db.topLevel channel).drop ((db.topLevel channel).length - 50) := by
  show ((((db.topLevel channel).reverse.take 51).take 50).reverse) = _
  rw [take_take, take_reverse, reverse_reverse]
  rfl

theorem hasOlder_resetPage : (db.resetPage channel).hasOlder = false ↔
    (db.topLevel channel).length ≤ 50 := by
  show decide (50 < ((db.topLevel channel).reverse.take 51).length) = false ↔ _
  rw [decide_eq_false_iff_not, length_take, length_reverse]
  omega

theorem rows_of_mem_resetPage (h : item ∈ (db.resetPage channel).messages) :
    (db.feed channel).rows item.id = some item := by
  rw [messages_resetPage] at h
  exact mem_topLevel.mp (mem_of_mem_drop h)

theorem older_of_not_mem_resetPage (h : (db.feed channel).rows item.id = some item)
    (hnot : item ∉ (db.resetPage channel).messages) : (db.resetPage channel).hasOlder = true ∧
      ∀ other ∈ (db.resetPage channel).messages, item.id < other.id := by
  have hmem := mem_topLevel.mpr h
  have hsorted : (db.topLevel channel).Pairwise fun a b => a.id < b.id :=
    pairwise_map.mpr (db.messages.toList_sorted.filter _)
  rw [messages_resetPage] at hnot ⊢
  rw [← take_append_drop ((db.topLevel channel).length - 50) (db.topLevel channel)] at hmem hsorted
  have holder := (mem_append.mp hmem).resolve_right hnot
  refine ⟨?_, fun other hother => (pairwise_append.mp hsorted).2.2 item holder other hother⟩
  rw [← Bool.not_eq_false, hasOlder_resetPage]
  intro hshort
  rw [Nat.sub_eq_zero_of_le hshort] at holder
  cases holder

theorem id_of_rows (h : (db.feed channel).rows k = some item) : item.id = k := by
  obtain ⟨row, -, -, -, rfl⟩ := rows_feed_eq_some.mp h
  rfl

theorem lt_bound_of_not_mem (h : (db.feed channel).rows k = some item)
    (hnot : item ∉ (db.resetPage channel).messages) :
    k < (c.receive (db.resetPage channel)).bound := by
  obtain rfl := id_of_rows h
  obtain ⟨hmore, holder⟩ := older_of_not_mem_resetPage h hnot
  have hbound : (c.receive (db.resetPage channel)).bound =
      ((db.resetPage channel).messages.map Item.id).min?.getD 0 := by
    show (if (db.resetPage channel).hasOlder then _ else 0) = _
    rw [if_pos hmore]
  rw [hbound]
  cases hmin : ((db.resetPage channel).messages.map Item.id).min? with
  | none =>
    have hlong : ¬ (db.topLevel channel).length ≤ 50 := by
      rw [← hasOlder_resetPage, hmore]
      exact Bool.noConfusion
    rw [List.min?_eq_none_iff, map_eq_nil_iff, messages_resetPage, drop_eq_nil_iff] at hmin
    omega
  | some m =>
    obtain ⟨other, hother, rfl⟩ := mem_map.mp (List.min?_mem hmin)
    exact holder other hother

theorem view_receive_reset (c : Client) (channel k : ℕ) :
    (c.receive (db.resetPage channel)).view k =
      if k ∈ (db.resetPage channel).messages.map Item.id then (db.feed channel).rows k else none :=
  Client.foldl_upsert fun _ => rows_of_mem_resetPage

theorem view_receive_reset_of_bound (h : (c.receive (db.resetPage channel)).bound ≤ k) :
    (c.receive (db.resetPage channel)).view k = (db.feed channel).rows k := by
  rw [view_receive_reset]
  split
  · rfl
  next hnot =>
    cases hrow : (db.feed channel).rows k with
    | none => rfl
    | some item =>
      refine absurd h (not_le.mpr (lt_bound_of_not_mem hrow fun hmem => hnot ?_))
      exact mem_map.mpr ⟨item, hmem, id_of_rows hrow⟩

theorem follows_reset (h : JournalSound db) (c : Client) (channel : ℕ) :
    Follows (db.feed channel) ((c.receive (db.resetPage channel)).bound ≤ ·)
    (db.feed channel).cursor
      (c.receive (db.resetPage channel)).view := by
  refine Follows.start (sound_feed h channel) (fun k => view_receive_reset_of_bound) fun k => ?_
  rw [view_receive_reset]
  split
  · exact .inl rfl
  · exact .inr rfl

/-! ### A page of changes -/

/-- The journal rows a page is made of. -/
def pageRows (db : Database) (channel after : ℕ) : List (ℕ × Change) :=
  (db.changesAfter channel after).take syncPageSize

theorem mem_changesAfter : x ∈ db.changesAfter channel after ↔
    db.changes.get x.1 = some x.2 ∧ x.2.channel = channel ∧ after < x.1 := by
  obtain ⟨n, c⟩ := x
  simp [changesAfter]

theorem mem_of_mem_pageRows (h : x ∈ db.pageRows channel after) :
    db.changes.get x.1 = some x.2 ∧ x.2.channel = channel ∧ after < x.1 :=
  mem_changesAfter.mp (mem_of_mem_take h)

theorem take_changesAfter :
    ((db.changesAfter channel after).take (syncPageSize + 1)).take syncPageSize =
    db.pageRows channel after := by
  rw [take_take]
  rfl

theorem hasMore_deltaPage : (db.deltaPage channel after).hasMore = true ↔
    syncPageSize < (db.changesAfter channel after).length := by
  simp only [deltaPage, decide_eq_true_eq, length_take]
  omega

theorem messages_deltaPage : (db.deltaPage channel after).messages =
    (db.pageRows channel after).filterMap fun x =>
      (db.messages.get x.2.message).map (Row.item x.2.message) := by
  rw [← take_changesAfter]
  rfl

theorem deletedIDs_deltaPage : (db.deltaPage channel after).deletedIDs =
    ((db.pageRows channel after).filter fun x => (db.messages.get x.2.message).isNone).map
      fun x => x.2.message := by
  rw [← take_changesAfter]
  rfl

theorem cursor_deltaPage : (db.deltaPage channel after).cursor =
    if (db.deltaPage channel after).hasMore then
      ((db.pageRows channel after).getLast?.map Prod.fst).getD after
    else (db.feed channel).cursor := by
  rw [← take_changesAfter]
  rfl

theorem cursor_of_hasMore (h : (db.deltaPage channel after).hasMore = true) : ∃ last,
    last ∈ db.pageRows channel after ∧ (db.deltaPage channel after).cursor = last.1 ∧
      ∀ x ∈ db.changesAfter channel after, x.1 ≤ last.1 → x ∈ db.pageRows channel after := by
  have hlong := hasMore_deltaPage.mp h
  have hne : db.pageRows channel after ≠ [] := by
    intro hnil
    have hlength := congrArg List.length hnil
    rw [pageRows, length_take, length_nil, Nat.min_eq_left hlong.le] at hlength
    cases hlength
  refine ⟨(db.pageRows channel after).getLast hne, getLast_mem hne, ?_, ?_⟩
  · rw [cursor_deltaPage, if_pos h, List.getLast?_eq_some_getLast hne]
    rfl
  · intro x hx hle
    have hsorted : (db.changesAfter channel after).Pairwise fun a b => a.1 < b.1 :=
      db.changes.toList_sorted.filter _
    rw [← take_append_drop syncPageSize (db.changesAfter channel after)] at hx hsorted
    refine (mem_append.mp hx).resolve_right fun hrest => ?_
    have hlt := (pairwise_append.mp hsorted).2.2 _ (getLast_mem hne) x hrest
    exact absurd hle (not_le.mpr hlt)

theorem mem_pageRows_of_log (hn : after < n) (hcursor : n ≤ (db.deltaPage channel after).cursor)
    (hlog : (db.feed channel).log n = some k) :
    ∃ x ∈ db.pageRows channel after, x.2.message = k := by
  obtain ⟨change, hget, hchannel, hmessage⟩ := log_feed_eq_some.mp hlog
  have hmem : (n, change) ∈ db.changesAfter channel after :=
    mem_changesAfter.mpr ⟨hget, hchannel, hn⟩
  refine ⟨(n, change), ?_, hmessage⟩
  by_cases hmore : (db.deltaPage channel after).hasMore = true
  · obtain ⟨last, -, heq, hall⟩ := cursor_of_hasMore hmore
    exact hall _ hmem (heq ▸ hcursor)
  · rw [hasMore_deltaPage, not_lt] at hmore
    rwa [pageRows, take_of_length_le hmore]

theorem cursor_deltaPage_bounds (h : JournalSound db) (hafter : after ≤ (db.feed channel).cursor) :
    after ≤ (db.deltaPage channel after).cursor ∧
      (db.deltaPage channel after).cursor ≤ (db.feed channel).cursor := by
  by_cases hmore : (db.deltaPage channel after).hasMore = true
  · obtain ⟨last, hlast, heq, -⟩ := cursor_of_hasMore hmore
    obtain ⟨hget, hchannel, hlt⟩ := mem_of_mem_pageRows hlast
    have hlog : (db.feed channel).log last.1 = some last.2.message :=
      log_feed_eq_some.mpr ⟨last.2, hget, hchannel, rfl⟩
    rw [heq]
    exact ⟨hlt.le, (sound_feed h channel).log_le hlog⟩
  · rw [cursor_deltaPage, if_neg hmore]
    exact ⟨hafter, le_rfl⟩

theorem rows_of_mem_deltaPage (h : JournalSound db)
    (hitem : item ∈ (db.deltaPage channel after).messages.filter fun item =>
    item.threadRoot = none) : (db.feed channel).rows item.id = some item := by
  obtain ⟨hmem, hroot⟩ := mem_filter.mp hitem
  rw [messages_deltaPage] at hmem
  obtain ⟨x, hx, hrow⟩ := mem_filterMap.mp hmem
  obtain ⟨row, hget, rfl⟩ := Option.map_eq_some_iff.mp hrow
  obtain ⟨hchange, hchannel, -⟩ := mem_of_mem_pageRows hx
  refine rows_feed_eq_some.mpr ⟨row, hget, ?_, of_decide_eq_true hroot, rfl⟩
  rw [h.channel hchange hget, hchannel]

theorem rows_of_mem_deletedIDs (h : k ∈ (db.deltaPage channel after).deletedIDs) :
    (db.feed channel).rows k = none := by
  rw [deletedIDs_deltaPage] at h
  obtain ⟨x, hx, rfl⟩ := mem_map.mp h
  have hnone := Option.isNone_iff_eq_none.mp (mem_filter.mp hx).2
  show (db.messages.get x.2.message).bind _ = none
  rw [hnone, Option.bind_none]

theorem hidden_of_passed_over (hx : x ∈ db.pageRows channel after)
    (hdeleted : x.2.message ∉ (db.deltaPage channel after).deletedIDs) (hshown : x.2.message ∉
      ((db.deltaPage channel after).messages.filter fun item => item.threadRoot = none).map
      Item.id) :
    (db.feed channel).hidden x.2.message := by
  cases hget : db.messages.get x.2.message with
  | none =>
    refine absurd ?_ hdeleted
    rw [deletedIDs_deltaPage]
    exact mem_map.mpr ⟨x, mem_filter.mpr ⟨hx, by rw [hget]; rfl⟩, rfl⟩
  | some row =>
    refine ⟨row, hget, fun htop => hshown ?_⟩
    refine mem_map.mpr ⟨row.item x.2.message, mem_filter.mpr ⟨?_, decide_eq_true htop.2⟩, rfl⟩
    rw [messages_deltaPage]
    exact mem_filterMap.mpr ⟨x, hx, by rw [hget]; rfl⟩

theorem view_receive_delta (h : JournalSound db) (c : Client) (channel after k : ℕ) :
    (c.receive (db.deltaPage channel after)).view k = (db.feed channel).rows k ∨
      ((c.receive (db.deltaPage channel after)).view k = c.view k ∧
        ((db.feed channel).hidden k ∨ ∀ x ∈ db.pageRows channel after, x.2.message ≠ k)) := by
  have hview : (c.receive (db.deltaPage channel after)).view k =
      if k ∈ (db.deltaPage channel after).deletedIDs then none
      else if k ∈ ((db.deltaPage channel after).messages.filter fun item =>
      item.threadRoot = none).map Item.id
        then (db.feed channel).rows k else c.view k := by
    show List.foldl Client.remove _ _ k = _
    rw [Client.foldl_remove, Client.foldl_upsert fun _ => rows_of_mem_deltaPage h]
  rw [hview]
  split
  next hdeleted => exact .inl (rows_of_mem_deletedIDs hdeleted).symm
  next hdeleted =>
    split
    · exact .inl rfl
    next hshown =>
      refine .inr ⟨rfl, ?_⟩
      by_cases hentry : ∃ x ∈ db.pageRows channel after, x.2.message = k
      · obtain ⟨x, hx, rfl⟩ := hentry
        exact .inl (hidden_of_passed_over hx hdeleted hshown)
      · push Not at hentry
        exact .inr hentry

theorem follows_delta (h : JournalSound db)
    (hc : Follows (db.feed channel) (c.bound ≤ ·) after c.view)
    (hfloor : (db.feed channel).floor ≤ after) :
    Follows (db.feed channel) ((c.receive (db.deltaPage channel after)).bound ≤ ·)
      (db.deltaPage channel after).cursor (c.receive (db.deltaPage channel after)).view := by
  refine Follows.read (sound_feed h channel) hc hfloor (cursor_deltaPage_bounds h hc.pos_le).2 ?_
  intro k
  rcases view_receive_delta h c channel after k with htaken | ⟨hsame, hhidden | hno⟩
  · exact .inl htaken
  · exact .inr ⟨hsame, .inl hhidden⟩
  · refine .inr ⟨hsame, .inr fun n hn hcursor hlog => ?_⟩
    obtain ⟨x, hx, hmessage⟩ := mem_pageRows_of_log hn hcursor hlog
    exact hno x hx hmessage

end Database

/-! ## Following a channel -/

/-- What holds of the tables and of a client that has had a page. -/
structure Following (channel : ℕ) (x : Database × Client) : Prop where
  journal : x.1.JournalSound
  follows : ∀ pos, x.2.cursor = some pos →
    Follows (x.1.feed channel) (x.2.bound ≤ ·) pos x.2.view

namespace Following

variable {f : Primitives} {channel : ℕ} {db : Database} {c : Client} {page : SyncPage}

theorem syncPage_cases (db : Database) (channel : ℕ) (after : Option ℕ) :
    db.syncPage channel after = db.resetPage channel ∨
      ∃ pos, after = some pos ∧ (db.feed channel).floor ≤ pos ∧
        db.syncPage channel after = db.deltaPage channel pos := by
  unfold syncPage
  split
  · exact .inl rfl
  next hreset =>
    cases after with
    | none => exact absurd rfl hreset
    | some pos =>
      simp only [mustReset, decide_eq_true_eq, not_or, not_lt] at hreset
      exact .inr ⟨pos, rfl, hreset.1, rfl⟩

section

variable (h : Following channel (db, c))
include h

theorem apply (op : Op) : Following channel (db.apply f op, c) := by
  obtain ⟨hjournal, hevolves⟩ := db.syncs_apply f op h.journal
  exact ⟨hjournal, fun pos hpos => (h.follows pos hpos).evolve (hevolves channel)⟩

theorem receive : Following channel (db, c.receive (db.syncPage channel c.cursor)) := by
  refine ⟨h.journal, fun pos hpos => ?_⟩
  rcases syncPage_cases db channel c.cursor with hreset | ⟨after, hafter, hfloor, hdelta⟩
  · rw [hreset] at hpos ⊢
    obtain rfl : (db.feed channel).cursor = pos := Option.some.inj hpos
    exact follows_reset h.journal c channel
  · rw [hdelta] at hpos ⊢
    obtain rfl : (db.deltaPage channel after).cursor = pos := Option.some.inj hpos
    exact follows_delta h.journal (h.follows after hafter) hfloor

theorem step (event : Event) : Following channel (event.step f channel (db, c)) := by
  cases event with
  | write op => exact h.apply op
  | sync s =>
    unfold Event.step
    cases hpage : db.sync s channel c.cursor with
    | error e =>
      simp only [hpage]
      exact h
    | ok page =>
      simp only [hpage]
      obtain ⟨found, -, heq⟩ := bind_eq_ok.mp hpage
      rw [← Except.ok.inj heq]
      exact h.receive

end

theorem run {x : Database × Client} (h : Following channel x) (events : List Event) :
    Following channel (events.foldl (Event.step f channel) x) :=
  foldl_preserves (P := Following channel) (fun _ event hx => hx.step event) h

theorem upToDate (h : Following channel (db, c))
    (hpage : (db.syncPage channel c.cursor).hasMore = false) {id : ℕ}
    (hid : (c.receive (db.syncPage channel c.cursor)).bound ≤ id) :
    (c.receive (db.syncPage channel c.cursor)).view id = (db.feed channel).rows id := by
  have hsound := sound_feed h.journal channel
  rcases syncPage_cases db channel c.cursor with hreset | ⟨after, hafter, hfloor, hdelta⟩
  · rw [hreset] at hid ⊢
    exact view_receive_reset_of_bound hid
  · rw [hdelta] at hpage hid ⊢
    have hfollows := follows_delta h.journal (h.follows after hafter) hfloor
    have hcursor : (db.deltaPage channel after).cursor = (db.feed channel).cursor := by
      rw [cursor_deltaPage, if_neg (by rw [hpage]; exact Bool.false_ne_true)]
    rw [hcursor] at hfollows
    exact hfollows.upToDate hsound (hfloor.trans (h.follows after hafter).pos_le) hid

end Following

/-- **Message sync converges.** Take any tables as the migration that added the journal left them,
and any sequence of operations (with any clock) and of calls of `Sync` by a client that starts
without a cursor. After a page that was not cut short, the client has exactly the top-level messages
of the channel from its bound on; and a page that is no reset does not take the cursor back. -/
theorem sync_converges (f : Primitives) (channel : ℕ) (messages : Table Row)
    (reactions : List Reaction)
    (attachments : List Attachment) (polls : Table Poll) (pollOptions : Table PollOption)
    (votes : List Vote) (events : List Event) (s : Standing) (page : SyncPage) :
    let x :=
    follow f channel (.migrated messages reactions attachments polls pollOptions votes) events
    x.1.sync s channel x.2.cursor = .ok page →
      (page.hasMore = false → ∀ id, (x.2.receive page).bound ≤ id →
        (x.2.receive page).view id = (x.1.messages.get id).bind fun row =>
          if row.channel = channel ∧ row.threadRoot = none then some (row.item id) else none) ∧
      (page.reset = false → ∀ pos, x.2.cursor = some pos → pos ≤ page.cursor) := by
  intro x hpage
  have hx : Following channel x := by
    refine Following.run ⟨⟨?_, ?_, ?_, ?_⟩, ?_⟩ events
    all_goals
      intros
      contradiction
  obtain ⟨found, -, heq⟩ := bind_eq_ok.mp hpage
  obtain rfl : x.1.syncPage channel x.2.cursor = page := Except.ok.inj heq
  refine ⟨fun hmore id hid => hx.upToDate hmore hid, fun hreset pos hpos => ?_⟩
  rcases Following.syncPage_cases x.1 channel x.2.cursor with h | ⟨after, hafter, hfloor, hdelta⟩
  · rw [h] at hreset
    cases hreset
  · rw [hpos] at hafter
    cases hafter
    rw [hdelta]
    exact (cursor_deltaPage_bounds hx.journal (hx.follows pos hpos).pos_le).1

/-- A message is sent, read and edited; the next page brings the edit. -/
theorem sync_converges_after_edit :
    let x := follow .verbatim 1 .empty [.write (.create (.plain (.writer 0) 1 7 "one" 0)),
      .sync (.writer 0), .write (.update (.writer 0) 1 1 7 "two" second)]
    (x.2.view 1).map Item.content = some "one" ∧
      (x.2.receive (x.1.syncPage 1 x.2.cursor)).view 1 = some ⟨1, 7, "two", 0, some 1, 2,
      none⟩ := by
  intro x
  refine ⟨by decide +kernel, ?_⟩
  have hview := (sync_converges .verbatim 1 .empty [] [] .empty .empty [] _ (.writer 0)
    (x.1.syncPage 1 x.2.cursor) rfl).1 (by decide +kernel) 1 (by decide +kernel)
  exact hview.trans (by decide +kernel)

end Voxhold.Message
