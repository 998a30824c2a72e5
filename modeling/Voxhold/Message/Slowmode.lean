/-
# Voxhold.Message.Slowmode — how far apart slow mode keeps a member's messages

`checkSlowmode` measures from the member's newest message that is still in the channel. So two
messages are the interval apart if the first or a newer one is left (`slowmode_from_kept`); a member
who deletes them is not held up at all (`slowmode_lifted_by_delete`).
-/

import Voxhold.Message.Writes

namespace Voxhold.Message

open Voxhold.Lib List

/-- The clock readings of an operation, in their order. -/
def Op.readings : Op → List ℤ
  | .create r => [r.checkedAt, r.insertedAt, r.polledAt]
  | .update _ _ _ _ _ now | .delete _ _ _ _ now | .setReaction _ _ _ _ _ _ now
  | .vote _ _ _ _ now | .cleanup _ now | .claimAbandoned _ _ now | .prune now => [now]
  | .upload _ _ _ _ => []

/-- A run in which the clock does not go back, a channel has one slow-mode interval and a user is a
plain member throughout. -/
structure SlowRun (channel user seconds : ℕ) (ops : List Op) : Prop where
  clock : (ops.flatMap Op.readings).Pairwise (· ≤ ·)
  slow : ∀ r, .create r ∈ ops → r.channel = channel →
    ∀ ch ∈ r.standing.channel, ch.slowmodeSeconds = seconds
  plain : ∀ r, .create r ∈ ops → r.channel = channel → r.author = user →
    ∀ role ∈ r.standing.member, role = .member

namespace SlowRun

variable {channel user seconds : ℕ} {ops : List Op}

theorem rest {first : List Op} (h : SlowRun channel user seconds (first ++ ops)) :
    SlowRun channel user seconds ops where
  clock := by
    have hclock := h.clock
    rw [flatMap_append] at hclock
    exact (pairwise_append.mp hclock).2.1
  slow := fun r hr => h.slow r (mem_append_right _ hr)
  plain := fun r hr => h.plain r (mem_append_right _ hr)

theorem insertedAt_le {r r' : CreateRequest} (h : SlowRun channel user seconds (.create r :: ops))
    (hr' : .create r' ∈ ops) : r.insertedAt ≤ r'.insertedAt := by
  refine (pairwise_append.mp h.clock).2.2 _ ?_ _ (mem_flatMap.mpr ⟨_, hr', ?_⟩)
  · simp [Op.readings]
  · simp [Op.readings]

theorem checkedAt_le {r : CreateRequest} (h : SlowRun channel user seconds ops)
    (hr : .create r ∈ ops) : r.checkedAt ≤ r.insertedAt := by
  obtain ⟨pre, post, rfl⟩ := append_of_mem hr
  have hclock := h.clock
  rw [flatMap_append, flatMap_cons] at hclock
  have hreadings := (pairwise_append.mp (pairwise_append.mp hclock).2.1).1
  exact (pairwise_cons.mp hreadings).1 _ (by simp)

end SlowRun

namespace Database

variable {f : Primitives} {db db' : Database} {channel user id lo seconds : ℕ} {row : Row}
  {t now : ℤ}

/-! ## The check -/

theorem exists_lastMessage (hget : db.messages.get id = some row) : ∃ last newest,
    db.lastMessage row.channel row.author = some (last, newest) ∧ id ≤ last ∧
      db.messages.get last = some newest := by
  let p : ℕ × Row → Bool := fun x => x.2.channel = row.channel ∧ x.2.author = row.author
  have hmem : (id, row) ∈ db.messages.toList.filter p := by
    simp [p, hget]
  have hsorted := db.messages.toList_sorted.filter p
  obtain ⟨init, ⟨last, newest⟩, hlist⟩ :=
    (eq_nil_or_concat' _).resolve_left (ne_nil_of_mem hmem)
  rw [hlist] at hmem hsorted
  have hlast : (last, newest) ∈ db.messages.toList := by
    refine mem_of_mem_filter (p := p) ?_
    rw [hlist]
    exact mem_append_right _ (mem_singleton_self _)
  refine ⟨last, newest, ?_, ?_, Table.mem_toList.mp hlast⟩
  · show (db.messages.toList.filter p).getLast? = _
    rw [hlist, List.getLast?_concat]
  · rcases mem_append.mp hmem with hinit | hlast
    · exact ((pairwise_append.mp hsorted).2.2 _ hinit _ (mem_singleton_self _)).le
    · rw [mem_singleton] at hlast
      exact (congrArg Prod.fst hlast).le

theorem waited_of_checkSlowmode {ch : ChannelRow} {last : ℕ} (hslow : 0 < ch.slowmodeSeconds)
    (hlast : db.lastMessage channel user = some (last, row))
    (hcheck : db.checkSlowmode .member ch channel user now ≤ 0) :
    (row.createdAt + ch.slowmodeSeconds) * second ≤ now := by
  unfold checkSlowmode at hcheck
  rw [if_neg (by simp; omega), hlast] at hcheck
  dsimp only at hcheck
  split at hcheck <;> omega

/-! ## Messages created since -/

/-- The messages from a key on were created at or after a time. -/
def CreatedSince (lo : ℕ) (t : ℤ) (db : Database) : Prop :=
  ∀ id row, lo ≤ id → db.messages.get id = some row → t ≤ row.createdAt

theorem CreatedSince.writes (h : CreatedSince lo t db) (hwrites : Writes db db') :
    CreatedSince lo t db' := by
  intro id row' hlo hget
  have hlt : id < db.messages.next := hwrites.next_eq ▸ Table.lt_next_of_get hget
  obtain ⟨row, hrow, hfixed, -⟩ := (Descends.of_writes hwrites).row hlt hget
  rw [← Row.createdAt_fixed, hfixed]
  exact h id row hlo hrow

theorem CreatedSince.insertRow (h : CreatedSince lo t db) (hrow : t ≤ row.createdAt) :
    CreatedSince lo t (db.insertRow row now) := by
  intro id row' hlo hget
  rw [messages_insertRow, Table.get_insert] at hget
  split at hget
  · cases hget
    exact hrow
  · exact h id row' hlo hget

theorem CreatedSince.run {ops : List Op} (h : CreatedSince lo t db)
    (hops : ∀ r, .create r ∈ ops → t ≤ unix r.insertedAt) : CreatedSince lo t (db.run f ops) := by
  induction ops generalizing db with
  | nil => exact h
  | cons op ops ih =>
    refine ih ?_ fun r hr => hops r (mem_cons_of_mem _ hr)
    rcases apply_cases f db op with hwrites | ⟨r, row, rfl, hcreates⟩
    · exact h.writes hwrites.writes
    · refine (h.insertRow ?_).writes hcreates.writes
      rw [hcreates.createdAt]
      exact hops r mem_cons_self

theorem createdSince_of_creates {r : CreateRequest} (h : Creates f db r row db') :
    CreatedSince db.messages.next row.createdAt db' := by
  refine CreatedSince.writes ?_ h.writes
  intro id row' hlo hget
  rw [messages_insertRow, Table.get_insert] at hget
  split at hget
  · cases hget
    exact Int.le_refl _
  · rw [db.messages.get_unused id hlo] at hget
    cases hget

/-! ## Slow mode over a run -/

/-- Two messages of a user in a channel; when the second was sent, there was still one of the user
that is at least as new as the first. -/
structure BothKept (channel user : ℕ) (a b : Creation) : Prop where
  first : a.row.channel = channel ∧ a.row.author = user
  second : b.row.channel = channel ∧ b.row.author = user
  kept : ∃ k row, a.id ≤ k ∧ b.before.messages.get k = some row ∧ row.channel = channel ∧
    row.author = user

theorem unix_mono {s t : ℤ} (h : s ≤ t) : unix s ≤ unix t :=
  Int.ediv_le_ediv (by decide) h

/-- **Slow mode from a message that is still there.** Over every run in which the clock does not go
back, two messages of a plain member in the channel are the interval apart, if the first or a newer
one of the member was left when the second was sent. -/
theorem slowmode_from_kept (f : Primitives) (db : Database) (hseconds : 0 < seconds) {ops : List Op}
    (h : SlowRun channel user seconds ops) :
    (creations f db ops).Pairwise fun a b => BothKept channel user a b →
      a.row.createdAt + seconds ≤ b.row.createdAt := by
  refine pairwise_creations ?_
  intro db a b first pre post hops hid hcreates hbefore' hcreates' hkept
  have hrun :
    SlowRun channel user seconds (.create a.request :: (pre ++ .create b.request :: post)) :=
    (hops ▸ h).rest
  -- A message is left that is no older than the first, and so is the newest, which the check found.
  obtain ⟨k, row, hk, hget, hrowchannel, hauthor⟩ := hkept.kept
  have hsince : CreatedSince a.id a.row.createdAt b.before := by
    rw [hid, hbefore']
    refine (createdSince_of_creates hcreates).run fun r hr => ?_
    rw [hcreates.createdAt]
    exact unix_mono (hrun.insertedAt_le (mem_append_left _ hr))
  obtain ⟨last, newest, hlast, hle, hnewest⟩ := exists_lastMessage hget
  rw [hrowchannel, hauthor] at hlast
  have hnewer : a.row.createdAt ≤ newest.createdAt := hsince last newest (hk.trans hle) hnewest
  -- The second message passed the check.
  obtain ⟨role, ch, haccess, hnew⟩ := hcreates'.admitted
  obtain ⟨hmember, hchannel⟩ := access_cases haccess
  have hchannelEq : b.request.channel = channel := hcreates'.channel.symm.trans hkept.second.1
  have hauthorEq : b.request.author = user := hcreates'.author.symm.trans hkept.second.2
  have hin : Op.create b.request ∈ .create a.request :: (pre ++ .create b.request :: post) := by
    simp
  have hrole : role = .member := hrun.plain _ hin hchannelEq hauthorEq role hmember
  have hslow : ch.slowmodeSeconds = seconds := hrun.slow _ hin hchannelEq ch hchannel
  obtain ⟨-, -, -, hcheck, -⟩ := newRow_cases hnew
  rw [hrole, hchannelEq, hauthorEq] at hcheck
  have hwaited := waited_of_checkSlowmode (hslow ▸ hseconds) hlast hcheck
  have hreading : b.request.checkedAt ≤ b.request.insertedAt := hrun.checkedAt_le hin
  calc a.row.createdAt + seconds
      ≤ newest.createdAt + ch.slowmodeSeconds := by rw [hslow]; omega
    _ ≤ unix b.request.insertedAt :=
        (Int.le_ediv_iff_mul_le (by decide)).mpr (Int.le_trans hwaited hreading)
    _ = b.row.createdAt := hcreates'.createdAt.symm

/-- A plain text from user 7 in channel 1, with a slow mode of a minute. -/
def slowPost (content : String) (now : ℤ) : Op :=
  .create (.plain (.writer 60) 1 7 content now)

theorem slowRun_posts {t t' : ℤ} (h : t ≤ t') (between : List Op)
    (hbetween : between.flatMap Op.readings = [] ∨ between.flatMap Op.readings = [t])
    (hno : ∀ r, .create r ∉ between) :
    SlowRun 1 7 60 (slowPost "first" t :: (between ++ [slowPost "second" t'])) where
  clock := by
    rcases hbetween with hnone | hone
    · simp [slowPost, CreateRequest.plain, Op.readings, hnone, h]
    · simp [slowPost, CreateRequest.plain, Op.readings, hone, h]
  slow r hr _ ch hch := by
    simp only [slowPost, mem_cons, mem_append, Op.create.injEq, hno, false_or,
      not_mem_nil, or_false] at hr
    rcases hr with rfl | rfl <;> (cases hch; rfl)
  plain r hr _ _ role hrole := by
    simp only [slowPost, mem_cons, mem_append, Op.create.injEq, hno, false_or,
      not_mem_nil, or_false] at hr
    rcases hr with rfl | rfl <;> (cases hrole; rfl)

/-- Two messages a minute apart. -/
theorem slowmode_kept_minute : (creations .verbatim .empty [slowPost "first" (100 * second),
    slowPost "second" (160 * second)]).map
        (fun c => (c.id, c.row.createdAt)) = [(1, 100), (2, 160)] ∧
      (creations .verbatim .empty
        [slowPost "first" (100 * second), slowPost "second" (160 * second)]).Pairwise
        fun a b => BothKept 1 7 a b → a.row.createdAt + (60 : ℕ) ≤ b.row.createdAt :=
  ⟨by decide +kernel, slowmode_from_kept .verbatim .empty (by decide)
    (slowRun_posts (Int.mul_le_mul_of_nonneg_right (by decide) (by decide)) [] (.inl rfl) (fun _ =>
    not_mem_nil))⟩

/-- **Deleting a message lifts slow mode.** A member posts, deletes the message and posts again in
the same second: both messages of the run were created then. -/
theorem slowmode_lifted_by_delete :
    let ops := [slowPost "first" (100 * second), .delete (.writer 60) 1 1 7 (100 * second),
      slowPost "second" (100 * second)]
    SlowRun 1 7 60 ops ∧
      (creations .verbatim .empty ops).map
        (fun c => (c.row.channel, c.row.author, c.row.createdAt)) = [(1, 7, 100), (1, 7, 100)] :=
  ⟨slowRun_posts (Int.le_refl _) [.delete (.writer 60) 1 1 7 (100 * second)] (.inr rfl) (fun _ =>
    by simp), by decide +kernel⟩

end Database

end Voxhold.Message
