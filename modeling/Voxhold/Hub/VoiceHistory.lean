/-
# Voxhold.Hub.VoiceHistory — the voice state over whole call sequences

The methods as the moves of a machine. No two entries share a GENERATION, by which the media layer's
failure callbacks recognise a join; and `JoinReport` says what the fields of `voiceJoinResult` mean,
in terms of the participants before and after.
-/

import Voxhold.Hub.VoiceState

namespace Voxhold.Hub

open Voxhold.Lib

namespace VoiceMaps

variable {m m' : VoiceMaps} {req : JoinRequest} {c : Client} {r : VoiceJoinResult}

/-! ## What a join reports -/

/-- The report of a join is the difference between the participants before and after it. -/
structure JoinReport (m m' : VoiceMaps) (c : Client) (r : VoiceJoinResult) : Prop where
  participant : m'.current c = some r.participant
  joined : r.joined = true ↔ ∀ p, m.current c = some p → p.place ≠ r.participant.place
  updated : r.updated = true ↔ ∃ p, m.current c = some p ∧ p.place = r.participant.place ∧
    (p.selfMute ≠ r.participant.selfMute ∨ p.selfDeaf ≠ r.participant.selfDeaf)
  replaced : ∀ d, r.replaced = some d ↔ (m.current d).isSome ∧ m'.current d = none
  previous : ∀ q, r.previous = some q ↔
    ∃ d, m.current d = some q ∧ ∀ q', m'.current d = some q' → q'.place ≠ q.place
  others : ∀ d, d ≠ c → m'.current d ≠ m.current d → r.replaced = some d

namespace JoinOutcome

section

variable (h : JoinOutcome m req m' r)
include h

theorem replaced_eq_some {d : Client} (hd : r.replaced = some d) :
    d ≠ req.client ∧ (m.current d).isSome := by
  cases h with
  | refresh | moved | fresh => cases hd
  | takeover _ hne he =>
    cases hd
    exact ⟨hne, by simp [he]⟩

theorem joined_iff :
    r.joined = true ↔ ∀ p, m.current req.client = some p → p.place ≠ r.participant.place := by
  rw [h.place_eq]
  cases h with
  | refresh hc hsame => simp [hc, hsame]
  | moved hc hother => simp [hc, hother]
  | takeover hc | fresh hc => simp [hc]

theorem updated_iff :
    r.updated = true ↔ ∃ p, m.current req.client = some p ∧ p.place = r.participant.place ∧
      (p.selfMute ≠ r.participant.selfMute ∨ p.selfDeaf ≠ r.participant.selfDeaf) := by
  rw [h.place_eq]
  cases h with
  | refresh hc hsame => simp [hc, hsame, newParticipant]
  | moved hc hother => simp [hc, hother]
  | takeover hc | fresh hc => simp [hc]

theorem previous_iff (q : VoiceParticipant) : r.previous = some q ↔
      (m.current req.client = some q ∧ q.place ≠ r.participant.place) ∨
        ∃ d, r.replaced = some d ∧ m.current d = some q := by
  rw [h.place_eq]
  cases h with
  | @refresh p hc hsame =>
    simp only [hc, Option.some.injEq, reduceCtorEq, false_and, exists_false, or_false, false_iff,
      not_and, not_not]
    rintro rfl
    exact hsame
  | @moved p hc hother =>
    simp only [hc, Option.some.injEq, reduceCtorEq, false_and, exists_false, or_false]
    exact ⟨fun heq => ⟨heq, heq ▸ hother⟩, fun heq => heq.1⟩
  | takeover hc _ he => simp [hc, he]
  | fresh hc => simp [hc]

theorem report : JoinReport m m' req.client r where
  participant := by rw [h.current_eq, if_pos rfl]
  joined := h.joined_iff
  updated := h.updated_iff
  replaced d := by
    rw [h.current_eq]
    constructor
    · intro hd
      obtain ⟨hne, hsome⟩ := h.replaced_eq_some hd
      exact ⟨hsome, by rw [if_neg hne, if_pos hd]⟩
    · rintro ⟨hsome, hnone⟩
      split at hnone
      · cases hnone
      · split at hnone
        · assumption
        · simp [hnone] at hsome
  previous q := by
    rw [h.previous_iff]
    constructor
    · rintro (⟨hc, hplace⟩ | ⟨d, hd, hq⟩)
      · refine ⟨req.client, hc, fun q' hq' => ?_⟩
        rw [h.current_eq, if_pos rfl] at hq'
        rw [← Option.some.inj hq']
        exact Ne.symm hplace
      · refine ⟨d, hq, fun q' hq' => ?_⟩
        rw [h.current_eq, if_neg (h.replaced_eq_some hd).1, if_pos hd] at hq'
        cases hq'
    · rintro ⟨d, hq, hgone⟩
      by_cases hd : d = req.client
      · subst hd
        exact .inl ⟨hq, Ne.symm (hgone _ (by rw [h.current_eq, if_pos rfl]))⟩
      · by_cases hr : r.replaced = some d
        · exact .inr ⟨d, hr, hq⟩
        · exact absurd rfl (hgone q (by rw [h.current_eq, if_neg hd, if_neg hr, hq]))
  others d hd hchange := by
    by_contra hr
    exact hchange (by rw [h.current_eq, if_neg hd, if_neg hr])

end

end JoinOutcome

/-! ## Generations -/

/-- The generations in the state are numbers that the counter has given out, each of them once. -/
structure Numbered (m : VoiceMaps) : Prop where
  drawn : ∀ c p, m.current c = some p → p.generation ≤ m.nextGeneration
  distinct : ∀ c d p q, m.current c = some p → m.current d = some q →
    p.generation = q.generation → c = d

theorem Numbered.of_kept (h : m.Numbered) (hnext : m'.nextGeneration = m.nextGeneration)
    (hkept : ∀ c p, m'.current c = some p →
      ∃ q, m.current c = some q ∧ q.generation = p.generation) : m'.Numbered where
  drawn c p hp := by
    obtain ⟨q, hq, hgen⟩ := hkept c p hp
    rw [hnext, ← hgen]
    exact h.drawn c q hq
  distinct c d p q hp hq heq := by
    obtain ⟨p', hp', hpgen⟩ := hkept c p hp
    obtain ⟨q', hq', hqgen⟩ := hkept d q hq
    exact h.distinct c d p' q' hp' hq' (by omega)

theorem Numbered.of_removed (h : m.Numbered) (S : Client → Prop) [DecidablePred S]
    (hnext : m'.nextGeneration = m.nextGeneration)
    (hcurrent : ∀ d, m'.current d = if S d then none else m.current d) : m'.Numbered := by
  refine h.of_kept hnext fun c p hp => ?_
  rw [hcurrent] at hp
  split at hp
  · cases hp
  · exact ⟨p, hp, rfl⟩

theorem Numbered.of_new (h : m.Numbered) (hnext : m'.nextGeneration = m.nextGeneration + 1)
    (hnew : ∀ p, m'.current c = some p → p.generation = m.nextGeneration + 1)
    (hkept : ∀ d, d ≠ c → m'.current d = m.current d ∨ m'.current d = none) : m'.Numbered := by
  have hold : ∀ d p, d ≠ c → m'.current d = some p → m.current d = some p := by
    intro d p hd hp
    rcases hkept d hd with hsame | hnone
    · rw [← hsame, hp]
    · simp [hnone] at hp
  refine ⟨fun d p hp => ?_, fun d e p q hp hq heq => ?_⟩
  · by_cases hd : d = c
    · rw [hnext, hnew p (hd ▸ hp)]
    · have := h.drawn d p (hold d p hd hp)
      omega
  · by_cases hd : d = c <;> by_cases he : e = c
    · rw [hd, he]
    · have := h.drawn e q (hold e q he hq)
      have := hnew p (hd ▸ hp)
      omega
    · have := h.drawn d p (hold d p hd hp)
      have := hnew q (he ▸ hq)
      omega
    · exact h.distinct d e p q (hold d p hd hp) (hold e q he hq) heq

theorem JoinOutcome.numbered (ho : JoinOutcome m req m' r) (h : m.Numbered) : m'.Numbered := by
  have hreport := ho.report
  refine h.of_new (c := req.client) ?_ (fun p hp => ?_) fun d hd => ?_
  · cases ho <;> rfl
  · rw [hreport.participant] at hp
    rw [← Option.some.inj hp]
    cases ho <;> rfl
  · by_cases hsame : m'.current d = m.current d
    · exact .inl hsame
    · exact .inr ((hreport.replaced d).mp (hreport.others d hd hsame)).2

/-! ## Call sequences -/

/-- A call of one of the methods. The two bulk removals come with the order in which the map
iteration meets the clients. -/
inductive VoiceCall where
  | join (req : JoinRequest)
  | update (c : Client) (selfMute selfDeaf : Bool) (selfVideo : Option Bool)
  | leave (c : Client)
  | leaveServer (c : Client) (serverID : Int)
  | removeChannel (channelID : Int) (order : List Client)
  | removeServer (serverID : Int) (order : List Client)

/-- The iteration orders list exactly the clients that the maps hold. -/
def VoiceCall.Fits (m : VoiceMaps) : VoiceCall → Prop
  | .removeChannel channelID order => ∀ c, c ∈ order ↔ (m.byChannel.get channelID c).isSome
  | .removeServer serverID order => ∀ c, c ∈ order ↔ (m.current c).any fun p =>
    p.serverID = serverID
  | _ => True

def call (m : VoiceMaps) : VoiceCall → VoiceMaps
  | .join req => (m.join req).1
  | .update c selfMute selfDeaf selfVideo => (m.update c selfMute selfDeaf selfVideo).1
  | .leave c => m.leave c
  | .leaveServer c serverID => m.leaveServer c serverID
  | .removeChannel channelID order => m.removeChannel channelID order
  | .removeServer _ order => m.removeServer order

inductive Reachable : VoiceMaps → Prop where
  | new : Reachable empty
  | call {m : VoiceMaps} {x : VoiceCall} : Reachable m → x.Fits m → Reachable (m.call x)

theorem call_consistent (h : m.Consistent) {x : VoiceCall} (hx : x.Fits m) :
    (m.call x).Consistent := by
  cases x with
  | join req => exact (join_outcome h req).2
  | update c selfMute selfDeaf selfVideo => exact update_consistent h c selfMute selfDeaf selfVideo
  | leave c => exact leave_consistent h c
  | leaveServer c serverID => exact leaveServer_consistent h c serverID
  | removeChannel channelID order => exact removeChannel_consistent h hx
  | removeServer serverID order => exact removeServer_consistent h order

theorem nextGeneration_foldl (f : VoiceMaps → Client → VoiceMaps)
    (hf : ∀ m c, (f m c).nextGeneration = m.nextGeneration) (order : List Client) (m : VoiceMaps) :
    (order.foldl f m).nextGeneration = m.nextGeneration := by
  induction order generalizing m with
  | nil => rfl
  | cons c order ih => rw [List.foldl_cons, ih, hf]

theorem nextGeneration_leave (m : VoiceMaps) (c : Client) :
    (m.leave c).nextGeneration = m.nextGeneration := by
  unfold leave
  split <;> rfl

theorem call_numbered (hm : m.Consistent) (h : m.Numbered) {x : VoiceCall} (hx : x.Fits m) :
    (m.call x).Numbered := by
  cases x with
  | join req => exact (join_outcome hm req).1.numbered h
  | update c selfMute selfDeaf selfVideo =>
    refine h.of_kept ?_ fun d p hp => ?_
    · simp only [call, update]
      split <;> rfl
    · change (m.update c selfMute selfDeaf selfVideo).1.current d = some p at hp
      rw [current_update] at hp
      split at hp
      · next heq =>
        subst heq
        obtain ⟨q, hq, rfl⟩ := Option.map_eq_some_iff.mp hp
        exact ⟨q, hq, rfl⟩
      · exact ⟨p, hp, rfl⟩
  | leave c =>
    exact h.of_removed (· = c) (nextGeneration_leave m c) fun d => current_leave
  | leaveServer c serverID =>
    refine h.of_removed (fun d => d = c ∧ (m.current c).any fun p : VoiceParticipant =>
      p.serverID = serverID) ?_ fun d => current_leaveServer
    simp only [call, leaveServer]
    split
    · rfl
    · split <;> rfl
  | removeChannel channelID order =>
    refine h.of_removed (· ∈ order) (nextGeneration_foldl _ ?_ order m)
      (foldl_forgetIn order (hm.room_of_order hx) hm.own).2.1
    intro m c
    unfold forgetIn
    split <;> rfl
  | removeServer serverID order =>
    exact h.of_removed (· ∈ order) (nextGeneration_foldl _ nextGeneration_leave order m)
      fun d => current_removeServer order

theorem Reachable.invariant (h : m.Reachable) : m.Consistent ∧ m.Numbered := by
  induction h with
  | new => exact ⟨empty_consistent, by simp [empty, current], by simp [empty, current]⟩
  | call _ hx ih => exact ⟨call_consistent ih.1 hx, call_numbered ih.1 ih.2 hx⟩

end VoiceMaps

/-- **The representation invariant of the voice state.** In every state that a sequence of calls
leads to: rooms and connections hold the same participants, each under its own channel; the account
index names exactly the one connection of each account in voice; no room is empty; the generations
are distinct and drawn from the counter; and a join reports the difference it makes. -/
theorem voice_state_invariant {m : VoiceMaps} (h : m.Reachable) :
    (∀ ch c p, m.byChannel.get ch c = some p ↔ m.current c = some p ∧ p.channelID = ch) ∧
      (∀ u c, m.byUser.lookup u = some c ↔ ∃ p, m.current c = some p ∧ p.userID = u) ∧
      (∀ c d p q, m.current c = some p → m.current d = some q → p.userID = q.userID → c = d) ∧
      (∀ ch room, m.byChannel.entries.lookup ch = some room → room.keys ≠ []) ∧
      m.Numbered ∧
      ∀ req, VoiceMaps.JoinReport m (m.join req).1 req.client (m.join req).2 := by
  obtain ⟨hm, hnumbered⟩ := h.invariant
  have huser : ∀ u c, m.byUser.lookup u = some c ↔ ∃ p, m.current c = some p ∧ p.userID = u := by
    intro u c
    rw [hm.userIndex, Option.isSome_iff_exists]
    constructor
    · rintro ⟨⟨p, hp⟩, rfl⟩
      exact ⟨p, hp, (hm.identity c p hp).2⟩
    · rintro ⟨p, hp, rfl⟩
      exact ⟨⟨p, hp⟩, (hm.identity c p hp).2.symm⟩
  refine ⟨hm.channelIndex, huser, fun c d p q hp hq heq => ?_, m.byChannel.nonempty, hnumbered,
    fun req => (VoiceMaps.join_outcome hm req).1.report⟩
  have hc := (huser p.userID c).mpr ⟨p, hp, rfl⟩
  rw [(huser p.userID d).mpr ⟨q, hq, heq.symm⟩] at hc
  exact (Option.some.inj hc).symm

def Sample.inVoice : VoiceMaps :=
  VoiceMaps.empty.call (.join ⟨⟨1, 7, 0⟩, 1, 5, false, false, ""⟩)

theorem Sample.inVoice_reachable : Sample.inVoice.Reachable :=
  .call (x := .join ⟨⟨1, 7, 0⟩, 1, 5, false, false, ""⟩) .new trivial

/-- Connection 2 of the same account then takes its place. -/
theorem voice_state_invariant_takeover : VoiceMaps.JoinReport Sample.inVoice
        (Sample.inVoice.join ⟨⟨2, 7, 0⟩, 1, 5, false, false, ""⟩).1 ⟨2, 7, 0⟩
        (Sample.inVoice.join ⟨⟨2, 7, 0⟩, 1, 5, false, false, ""⟩).2 ∧
      (Sample.inVoice.join ⟨⟨2, 7, 0⟩, 1, 5, false, false, ""⟩).2.replaced = some ⟨1, 7, 0⟩ :=
  ⟨(voice_state_invariant Sample.inVoice_reachable).2.2.2.2.2 ⟨⟨2, 7, 0⟩, 1, 5, false, false, ""⟩,
    by decide⟩

end Voxhold.Hub
