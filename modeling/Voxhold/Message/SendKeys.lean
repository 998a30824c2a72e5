/-
# Voxhold.Message.SendKeys — which send keys are taken

A key is taken by the message that is created with it and stays taken: its row only loses its
message. An operation adds at most the key of the message it created (`taken_apply`).
-/

import Voxhold.Message.Writes

namespace Voxhold.Message.Database

variable {f : Primitives} {db db' : Database} {k : SendID} {r : CreateRequest}

theorem sendKeys_of_creates {row : Row} (h : Creates f db r row db') :
    (db'.sendKeys k).isSome ↔ (db.sendKeys k).isSome ∨
    (r.input.clientMessageID ≠ "" ∧ r.key = k) := by
  obtain ⟨-, inserted, linked, hinsert, ⟨attachments, polls, pollOptions, rfl⟩, rfl⟩ :=
    store_cases h.stored
  have hkeys := sendKeys_insertMessage hinsert
  unfold storeKey
  split
  next hempty => simp [hempty, hkeys]
  next hkey =>
    by_cases hk : r.key = k
    · simp [hkey, ← hk]
    · simp [hk, hkeys, Function.update_of_ne (Ne.symm hk)]

theorem taken_apply (op : Op) : ((db.apply f op).sendKeys k).isSome ↔ (db.sendKeys k).isSome ∨
    ∃ c, db.created f op = some c ∧ c.request.input.clientMessageID ≠ "" ∧ c.request.key = k := by
  cases hcreated : db.created f op with
  | some c =>
    obtain ⟨rfl, -, -, hcreates⟩ := created_cases hcreated
    rw [sendKeys_of_creates hcreates]
    simp
  | none =>
    rcases apply_cases f db op with hrewrites | ⟨r, row, rfl, hcreates⟩
    · rw [hrewrites.sameKeys k]
      simp
    · simp [created, hcreates.result] at hcreated

theorem created_or_taken {sent : Sent} (hkey : r.input.clientMessageID ≠ "")
    (h : db.createReferenced f r = .ok (sent, db')) :
    (db.created f (.create r) = none ∧ db' = db ∧ (db.sendKeys r.key).isSome) ∨
    ∃ c, db.created f (.create r) = some c ∧ c.request = r ∧ (db.sendKeys r.key).isSome = false ∧
      ∀ k, (db'.sendKeys k).isSome ↔ (db.sendKeys k).isSome ∨ r.key = k := by
  rcases createReferenced_creates h with ⟨hreplayed, heq⟩ | ⟨hsent, hcreates⟩
  · refine .inl ⟨by simp [created, h, hreplayed], heq, ?_⟩
    rcases createReferenced_cases h with ⟨key, hfind, -⟩ | ⟨role, ch, row, -, -, -, hstore⟩
    · unfold findKey at hfind
      rw [if_neg hkey] at hfind
      rw [hfind, Option.isSome_some]
    · rw [(store_cases hstore).1] at hreplayed
      cases hreplayed
  · have hreplayed : sent.replayed = false := by rw [hsent]
    have hfree := hcreates.free
    unfold findKey at hfree
    rw [if_neg hkey] at hfree
    refine .inr ⟨⟨r, sent.id, sent.row, db⟩, by simp [created, h, hreplayed], rfl, by simp [hfree],
      fun k => ?_⟩
    rw [sendKeys_of_creates hcreates, and_iff_right hkey]

end Voxhold.Message.Database
