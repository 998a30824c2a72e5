/-
# Voxhold.Lib.Negotiation — offers, answers and work that has to wait

The side of a session description exchange that makes the offers. While one is out, a change of the
tracks or a restart is only noted; the note is taken with the answer, and replayed by a call of its
own after it. Any other call may come between.

A connection has an ICE agent from its first offer on. An offer that restarts the agent is refused
as long as there is none, and the owner of the connection then changes nothing (`Peer.createOffer`).
-/

import Mathlib.Data.Finset.Basic
import Voxhold.Lib.Goroutine

namespace Voxhold.Lib.Negotiation

variable {transceivers : Bool}

open Multiset

/-! ## The peer -/

inductive Signaling where
  | stable
  | haveLocalOffer
deriving DecidableEq, Repr

/-- A peer connection with the notes of its owner. `T` are tracks, `C` candidates, `D` descriptions.
-/
structure Peer (T C D : Type) where
  signaling : Signaling
  remote : Option D
  /-- There is an ICE agent: an offer was made. -/
  agent : Bool
  senders : Finset T
  /-- There is a transceiver. -/
  transceivers : Bool
  /-- The tracks of the last offer. -/
  offered : Finset T
  negotiationPending : Bool
  iceRestartPending : Bool
  pendingCandidates : List C

/-- Why a candidate was not taken. -/
inductive Refusal where
  | tooMany
  | refused
deriving DecidableEq, Repr

namespace Peer

variable {T C D : Type} (p : Peer T C D)
  {desired : Finset T} {force both : Bool}

def new (transceivers : Bool) : Peer T C D :=
  ⟨.stable, none, false, ∅, transceivers, ∅, false, false, []⟩

/-- An offer of the tracks that are sent. It carries everything that was noted. -/
def offer : Peer T C D :=
  { p with signaling := .haveLocalOffer, agent := true, offered := p.senders,
           negotiationPending := false, iceRestartPending := false }

/-- `createOfferLocked`. Without an agent there is nothing to restart: the error of the connection
comes before anything is written. -/
def createOffer (restartICE : Bool) : Peer T C D :=
  if restartICE ∧ ¬ p.agent then p else p.offer

/-- Sends the tracks of `desired`, and offers them if something changed or was noted or has to be
offered. -/
def synchronize [DecidableEq T] (desired : Finset T) (force : Bool) : Peer T C D :=
  let q := { p with senders := desired, transceivers := p.transceivers || decide (desired ≠ ∅) }
  if p.senders = desired ∧ ¬ force ∧ ¬ p.negotiationPending ∧ ¬ p.iceRestartPending then q
  -- While an offer is out the senders change all the same; only the offer waits.
  else if p.signaling ≠ .stable then { q with negotiationPending := true }
  else q.createOffer p.iceRestartPending

/-- A restart, which may note a negotiation beside itself. -/
def restart (both : Bool) : Peer T C D :=
  if p.signaling ≠ .stable then
    { p with iceRestartPending := true, negotiationPending := p.negotiationPending || both }
  else p.createOffer true

def answer (d : D) : Peer T C D :=
  { p with signaling := .stable, remote := some d, pendingCandidates := [] }

/-- A candidate is queued as long as there is no description it could belong to. After that it is
given to the connection, which may refuse it, unless it belongs to another description. -/
def addCandidate (limit : ℕ) (fits : D → C → Bool) (c : C) (refused : Bool) :
    Except Refusal (Peer T C D) :=
  match p.remote, p.signaling with
  | some d, .stable => if fits d c ∧ refused then .error .refused else .ok p
  | _, _ =>
    if limit ≤ p.pendingCandidates.length then .error .tooMany
    else .ok { p with pendingCandidates := p.pendingCandidates ++ [c] }

/-- Nothing is noted. -/
def Settled : Prop :=
  p.negotiationPending = false ∧ p.iceRestartPending = false

/-- Tracks that were not offered are noted; and what waits for an answer came after an offer. -/
structure Covered : Prop where
  offered : p.negotiationPending = false → p.offered = p.senders
  agent : p.signaling ≠ .stable ∨ p.iceRestartPending = true → p.agent = true

variable {p}

theorem covered_offer : p.offer.Covered := ⟨fun _ => rfl, fun _ => rfl⟩

theorem createOffer_of_agent {restartICE : Bool} (h : restartICE = true → p.agent = true) :
    p.createOffer restartICE = p.offer :=
  if_neg fun hnone => hnone.2 (h hnone.1)

/-- What a synchronization leaves. No offer of it is refused: a restart is noted only beside an
agent. -/
theorem synchronize_cases [DecidableEq T] (desired : Finset T) (force : Bool) (h : p.Covered) :
    let q := { p with senders := desired, transceivers := p.transceivers || decide (desired ≠ ∅) }
    (p.synchronize desired force = q ∧ p.senders = desired ∧ p.Settled) ∨
      (p.synchronize desired force = { q with negotiationPending := true } ∧
      p.signaling ≠ .stable) ∨ p.synchronize desired force = q.offer := by
  unfold synchronize
  simp only
  split
  next hsame => exact .inl ⟨rfl, hsame.1, by simpa using hsame.2.2.1, by simpa using hsame.2.2.2⟩
  · split
    next hout => exact .inr (.inl ⟨rfl, hout⟩)
    · exact .inr (.inr (createOffer_of_agent fun hnoted => h.agent (.inr hnoted)))

theorem covered_synchronize [DecidableEq T] (h : p.Covered) :
    (p.synchronize desired force).Covered := by
  rcases synchronize_cases desired force h with ⟨hq, hsame, hsettled⟩ | ⟨hq, -⟩ | hq <;> rw [hq]
  · exact ⟨fun hpending => (h.offered hpending).trans hsame, h.agent⟩
  · exact ⟨nofun, h.agent⟩
  · exact covered_offer

theorem settled_synchronize [DecidableEq T] (h : p.Covered)
    (hstable : (p.synchronize desired force).signaling = .stable) :
    (p.synchronize desired force).Settled := by
  rcases synchronize_cases desired force h with ⟨hq, -, hsettled⟩ | ⟨hq, hout⟩ | hq <;>
    rw [hq] at hstable ⊢
  · exact hsettled
  · exact absurd hstable hout
  · cases hstable

theorem remote_synchronize [DecidableEq T] (h : p.Covered) :
    (p.synchronize desired force).remote = p.remote := by
  rcases synchronize_cases desired force h with ⟨hq, -⟩ | ⟨hq, -⟩ | hq
  all_goals simp [hq, offer]

theorem transceivers_synchronize [DecidableEq T] (h : p.Covered) :
    (p.synchronize desired force).transceivers = (p.transceivers || decide (desired ≠ ∅)) := by
  rcases synchronize_cases desired force h with ⟨hq, -⟩ | ⟨hq, -⟩ | hq
  all_goals simp [hq, offer]

/-- A restart is noted while an offer is out, refused without an agent, and offered otherwise. -/
theorem restart_cases (p : Peer T C D) (both : Bool) : (p.signaling ≠ .stable ∧ p.restart both =
        { p with iceRestartPending := true, negotiationPending := p.negotiationPending || both }) ∨
      p.restart both = p ∨ (p.agent = true ∧ p.restart both = p.offer) := by
  unfold restart createOffer
  split
  next hout => exact .inl ⟨hout, rfl⟩
  · split
    · exact .inr (.inl rfl)
    next hagent => exact .inr (.inr ⟨by simpa using hagent, rfl⟩)

theorem covered_restart (h : p.Covered) : (p.restart both).Covered := by
  rcases restart_cases p both with ⟨hout, hq⟩ | hq | ⟨-, hq⟩ <;> rw [hq]
  · exact ⟨fun hpending => h.offered (Bool.or_eq_false_iff.mp hpending).1,
      fun _ => h.agent (.inl hout)⟩
  · exact h
  · exact covered_offer

/-- A restart that leaves the connection stable was refused. -/
theorem restart_eq_self (hstable : (p.restart both).signaling = .stable) : p.restart both = p := by
  rcases restart_cases p both with ⟨hout, hq⟩ | hq | ⟨-, hq⟩
  · exact absurd (by simpa [hq] using hstable) hout
  · exact hq
  · rw [hq] at hstable
    cases hstable

theorem remote_restart : (p.restart both).remote = p.remote := by
  rcases restart_cases p both with ⟨-, hq⟩ | hq | ⟨-, hq⟩
  all_goals simp [hq, offer]

theorem addCandidate_cases {limit : ℕ} {fits : D → C → Bool} {c : C} {refused : Bool}
    {q : Peer T C D} (h : p.addCandidate limit fits c refused = .ok q) :
    ∃ queue, q = { p with pendingCandidates := queue } := by
  unfold addCandidate at h
  split at h
  · split at h
    · cases h
    · exact ⟨_, (Except.ok.inj h).symm⟩
  · split at h
    · cases h
    · exact ⟨_, (Except.ok.inj h).symm⟩

theorem addCandidate_error {limit : ℕ} {fits : D → C → Bool} {c : C} {refused : Bool}
    {e : Refusal} {d : D} (hremote : p.remote = some d) (hstable : p.signaling = .stable)
    (h : p.addCandidate limit fits c refused = .error e) : fits d c ∧ refused := by
  unfold addCandidate at h
  rw [hremote, hstable] at h
  simp only at h
  split at h
  next hrefused => exact hrefused
  · cases h

end Peer

/-! ## Sessions and calls -/

structure Session (R T C D : Type) where
  room : R
  peer : Peer T C D

/-- What the owner of a session adds. `A` are the changes of what surrounds it, and `X` is what a
synchronization reads that others may write meanwhile. -/
structure Protocol (R T C D A X : Type) where
  limit : ℕ
  fits : D → C → Bool
  /-- An answer that is looked at. -/
  answerable : D → Bool
  /-- A candidate that is looked at. -/
  acceptable : C → Bool
  synchronize : R → X → Bool → Peer T C D → Peer T C D
  restart : Peer T C D → Peer T C D
  /-- The room after a change, and whether the change is followed by a synchronization. -/
  change : A → R → R × Bool

/-- What a goroutine runs between two releases of the lock of the session. A replay has the
candidates it still has to add, each with whether the connection will refuse it. -/
inductive Cmd (C D A : Type) where
  | synchronize (force : Bool)
  | answer (d : D)
  | replay (candidates : List (C × Bool)) (pending : Bool)
  | candidate (c : C)
  | restart
  | change (a : A)
deriving DecidableEq

inductive Call (C D A : Type) where
  | join
  | answer (d : D)
  | candidate (c : C)
  | restart
  | change (a : A)

/-- What is not determined: whether an answer is accepted, which of the candidates the connection
refuses, and what a synchronization reads. -/
structure Choice (X : Type) where
  accepted : Bool
  refused : ℕ → Bool
  reads : X

variable {R T C D A X : Type} (P : Protocol R T C D A X)

def exec (c : Cmd C D A) (x : Choice X) (s : Session R T C D) :
    Option (Session R T C D × List (Instr Unit (Cmd C D A))) :=
  match c with
  | .synchronize force => some (⟨s.room, P.synchronize s.room x.reads force s.peer⟩, [])
  | .answer d =>
    if P.answerable d ∧ s.peer.signaling = .haveLocalOffer ∧ x.accepted then
      -- The notes and the queue are read where the answer is applied; the rest is a replay.
      some (⟨s.room, s.peer.answer d⟩,
        [.run (.replay (s.peer.pendingCandidates.mapIdx fun i c => (c, x.refused i))
          (s.peer.negotiationPending || s.peer.iceRestartPending))])
    else some (s, [])
  | .replay [] pending => some (s, if pending then [.run (.synchronize false)] else [])
  | .replay ((c, refused) :: rest) pending =>
    -- What was queued is acceptable.
    match s.peer.addCandidate P.limit P.fits c refused with
    | .ok q => some (⟨s.room, q⟩, [.run (.replay rest pending)])
    -- The error returns from the call: the candidates behind it and the replay are lost.
    | .error _ => some (s, [])
  | .candidate c =>
    if P.acceptable c then
      match s.peer.addCandidate P.limit P.fits c (x.refused 0) with
      | .ok q => some (⟨s.room, q⟩, [])
      | .error _ => some (s, [])
    else some (s, [])
  | .restart => some (⟨s.room, P.restart s.peer⟩, [])
  | .change a =>
    some (⟨(P.change a s.room).1, s.peer⟩,
      if (P.change a s.room).2 then [.run (.synchronize false)] else [])

def body : Call C D A → List (Instr Unit (Cmd C D A))
  | .join => [.run (.synchronize true)]
  | .answer d => [.run (.answer d)]
  | .candidate c => [.run (.candidate c)]
  | .restart => [.run .restart]
  | .change a => [.run (.change a)]

def machine : Machine (Session R T C D) Unit (Cmd C D A) (Choice X) (Call C D A) where
  exec := exec P
  body := body

/-! ## What every call keeps -/

/-- What a protocol keeps: `good` is an invariant of its peers beside `Peer.Covered`. -/
structure Lawful (good : Peer T C D → Prop) : Prop where
  synchronize : ∀ room reads force p, p.Covered → good p →
    (P.synchronize room reads force p).Covered ∧ good (P.synchronize room reads force p) ∧
      (P.synchronize room reads force p).remote = p.remote ∧
      ((P.synchronize room reads force p).signaling = .stable →
        (P.synchronize room reads force p).Settled)
  restart : ∀ p, p.Covered → good p → (P.restart p).Covered ∧ good (P.restart p) ∧
    (P.restart p).remote = p.remote ∧ ((P.restart p).signaling = .stable → P.restart p = p)
  answer : ∀ p d, good p → good (p.answer d)
  queue : ∀ p queue, good p → good { p with pendingCandidates := queue }

structure Sound (good : Peer T C D → Prop) (p : Peer T C D) : Prop where
  good : good p
  covered : p.Covered

variable {P} {good : Peer T C D → Prop} {s s' : Session R T C D} {c : Cmd C D A} {x : Choice X}
  {new : List (Instr Unit (Cmd C D A))}

namespace Sound

theorem queue {p : Peer T C D} (hP : Lawful P good) (h : Sound good p) (candidates : List C) :
    Sound good { p with pendingCandidates := candidates } :=
  ⟨hP.queue p candidates h.good, h.covered.offered, h.covered.agent⟩

theorem exec (hP : Lawful P good) (h : Sound good s.peer)
    (hexec : Negotiation.exec P c x s = some (s', new)) : Sound good s'.peer := by
  cases c with
  | synchronize force =>
    cases hexec
    obtain ⟨hcovered, hgood, -⟩ := hP.synchronize s.room x.reads force s.peer h.covered h.good
    exact ⟨hgood, hcovered⟩
  | answer d =>
    simp only [Negotiation.exec] at hexec
    split at hexec <;> cases hexec
    · refine ⟨hP.answer s.peer d h.good, h.covered.offered, ?_⟩
      rintro (hout | hnoted)
      · exact absurd rfl hout
      · exact h.covered.agent (.inr hnoted)
    · exact h
  | replay candidates pending =>
    cases candidates with
    | nil =>
      cases hexec
      exact h
    | cons head rest =>
      simp only [Negotiation.exec] at hexec
      split at hexec
      next hadd =>
        cases hexec
        obtain ⟨queue, rfl⟩ := Peer.addCandidate_cases hadd
        exact h.queue hP queue
      · cases hexec
        exact h
  | candidate c =>
    simp only [Negotiation.exec] at hexec
    split at hexec
    · split at hexec
      next hadd =>
        cases hexec
        obtain ⟨queue, rfl⟩ := Peer.addCandidate_cases hadd
        exact h.queue hP queue
      · cases hexec
        exact h
    · cases hexec
      exact h
  | restart =>
    cases hexec
    obtain ⟨hcovered, hgood, -⟩ := hP.restart s.peer h.covered h.good
    exact ⟨hgood, hcovered⟩
  | change a =>
    cases hexec
    exact h

end Sound

theorem sound_new (h : good (Peer.new transceivers)) : Sound good (Peer.new transceivers) :=
  ⟨h, fun _ => rfl, by rintro (hout | hnoted) <;> contradiction⟩

theorem peer_sound {allowed : Call C D A → Prop}
    {guard : Session R T C D → Multiset (Cmd C D A) → Cmd C D A → Prop} {room : R}
    {cfg : Config (Session R T C D) Unit (Cmd C D A)} (hP : Lawful P good)
    (hgood : good (Peer.new transceivers))
    (h : (machine P).Reachable allowed guard ⟨room, Peer.new transceivers⟩ cfg) :
    Sound good cfg.state.peer := by
  refine h.induction (P := fun s _ => Sound good s.peer) (sound_new hgood) ?_ ?_
  · exact fun _ _ _ _ hs => hs
  · intro cfg i c x s new rest R _ hfires _ hs
    exact hs.exec hP hfires.exec

/-! ## No work is lost -/

/-- **The proviso.** A candidate that is queued before a replay and belongs to the description is
not refused. -/
def Guard (P : Protocol R T C D A X) (s : Session R T C D) (_ : Multiset (Cmd C D A)) :
    Cmd C D A → Prop
  | .replay ((c, true) :: _) true =>
    s.peer.signaling = .stable → ∀ d ∈ s.peer.remote, P.fits d c = false
  | _ => True

instance {S : Multiset (Cmd C D A)} (c : Cmd C D A) : Decidable (Guard P s S c) := by
  unfold Guard
  split <;> infer_instance

/-- A call that will offer what is noted. -/
def Resumes : Cmd C D A → Prop
  | .synchronize _ => True
  | .replay _ pending => pending = true
  | _ => False

/-- What holds of a session and the commands its calls still have to run. -/
structure Inv (good : Peer T C D → Prop) (s : Session R T C D) (S : Multiset (Cmd C D A)) :
    Prop where
  sound : Sound good s.peer
  answered : ∀ rest pending, .replay rest pending ∈ S → s.peer.remote.isSome
  resumed : s.peer.signaling = .stable → s.peer.Settled ∨ ∃ c ∈ S, Resumes c

namespace Inv

variable {S R' : Multiset (Cmd C D A)}

theorem resumed_rest (h : Inv good s (c ::ₘ R'))
    (hc : Resumes c → ∃ b ∈ (cmds new : Multiset (Cmd C D A)) + R', Resumes b)
    (hstable : s.peer.signaling = .stable) :
    s.peer.Settled ∨ ∃ b ∈ (cmds new : Multiset (Cmd C D A)) + R', Resumes b := by
  rcases h.resumed hstable with hsettled | ⟨b, hb, hresumes⟩
  · exact .inl hsettled
  · rcases mem_cons.mp hb with rfl | hb
    · exact .inr (hc hresumes)
    · exact .inr ⟨b, mem_add.mpr (.inr hb), hresumes⟩

theorem answered_rest (h : Inv good s (c ::ₘ R'))
    (hnew : (∃ rest pending, .run (.replay rest pending) ∈ new) → s.peer.remote.isSome)
    (rest : List (C × Bool)) (pending : Bool)
    (hmem : .replay rest pending ∈ (cmds new : Multiset (Cmd C D A)) + R') :
    s.peer.remote.isSome := by
  rcases mem_pushed.mp hmem with hmem | hmem
  · exact hnew ⟨rest, pending, hmem⟩
  · exact h.answered rest pending (mem_cons_of_mem hmem)

theorem start (h : Inv good s S) (call : Call C D A) :
    Inv good s ((cmds (body call) : Multiset (Cmd C D A)) + S) where
  sound := h.sound
  answered rest pending hmem := by
    rcases mem_pushed.mp hmem with hmem | hmem
    · cases call <;> simp [body] at hmem
    · exact h.answered rest pending hmem
  resumed hstable := by
    rcases h.resumed hstable with hsettled | ⟨c, hc, hresumes⟩
    · exact .inl hsettled
    · exact .inr ⟨c, mem_add.mpr (.inr hc), hresumes⟩

/-- The queue of candidates is neither read nor written by what the invariant says. -/
theorem queue {candidates : List C} (hP : Lawful P good) (h : Inv good s (c ::ₘ R'))
    (hc : Resumes c → ∃ b ∈ (cmds new : Multiset (Cmd C D A)) + R', Resumes b)
    (hnew : (∃ rest pending, .run (.replay rest pending) ∈ new) → s.peer.remote.isSome) :
    Inv good ⟨s.room, { s.peer with pendingCandidates := candidates }⟩
      ((cmds new : Multiset (Cmd C D A)) + R') where
  sound := h.sound.queue hP candidates
  answered := h.answered_rest hnew
  resumed := h.resumed_rest hc

theorem drop (h : Inv good s (c ::ₘ R')) (hc : s.peer.signaling = .stable → ¬ Resumes c) :
    Inv good s R' where
  sound := h.sound
  answered := fun rest pending hmem => h.answered rest pending (mem_cons_of_mem hmem)
  resumed hstable := by
    rcases h.resumed hstable with hsettled | hresumes
    · exact .inl hsettled
    · exact .inr (exists_mem_rest hresumes (hc hstable))

theorem replay {c : C} {refused pending : Bool} {rest : List (C × Bool)} (hP : Lawful P good)
    (hguard : Guard P s S (.replay ((c, refused) :: rest) pending))
    (h : Inv good s (.replay ((c, refused) :: rest) pending ::ₘ R'))
    (hexec : exec P (.replay ((c, refused) :: rest) pending) x s = some (s', new)) :
    Inv good s' ((cmds new : Multiset (Cmd C D A)) + R') := by
  have hanswered := h.answered _ _ (mem_cons_self _ _)
  simp only [exec] at hexec
  split at hexec
  next q hadd =>
    cases hexec
    obtain ⟨queue, rfl⟩ := Peer.addCandidate_cases hadd
    refine h.queue hP (fun hresumes => ?_) (fun _ => hanswered)
    exact ⟨.replay rest pending, mem_pushed.mpr (.inl (List.mem_singleton_self _)), hresumes⟩
  next hadd =>
    cases hexec
    rw [pushed_nil]
    refine h.drop fun hstable (hpending : pending = true) => ?_
    -- The candidate was refused in a stable state, and behind it stands a replay.
    obtain ⟨d, hd⟩ := Option.isSome_iff_exists.mp hanswered
    obtain ⟨hfits, hrefused⟩ := Peer.addCandidate_error hd hstable hadd
    subst hpending hrefused
    exact absurd hfits (Bool.eq_false_iff.mp (hguard hstable d hd))

theorem exec (hP : Lawful P good) (hguard : Guard P s S c) (h : Inv good s (c ::ₘ R'))
    (hexec : Negotiation.exec P c x s = some (s', new)) :
    Inv good s' ((cmds new : Multiset (Cmd C D A)) + R') := by
  have hsound := h.sound.exec hP hexec
  cases c with
  | synchronize force =>
    cases hexec
    obtain ⟨-, -, hremote, hsettles⟩ :=
      hP.synchronize s.room x.reads force s.peer h.sound.covered h.sound.good
    rw [pushed_nil]
    refine ⟨hsound, fun rest pending hmem => ?_, fun hstable => .inl (hsettles hstable)⟩
    show (P.synchronize s.room x.reads force s.peer).remote.isSome
    rw [hremote]
    exact h.answered rest pending (mem_cons_of_mem hmem)
  | answer d =>
    simp only [Negotiation.exec] at hexec
    split at hexec <;> cases hexec
    · rw [pushed_run]
      refine ⟨hsound, fun _ _ _ => rfl, fun _ => ?_⟩
      cases hpending : (s.peer.negotiationPending || s.peer.iceRestartPending) with
      | true => exact .inr ⟨_, mem_cons_self _ _, rfl⟩
      | false => exact .inl (Bool.or_eq_false_iff.mp hpending)
    · rw [pushed_nil]
      exact h.drop fun _ => id
  | replay candidates pending =>
    cases candidates with
    | nil =>
      cases hexec
      refine ⟨hsound, h.answered_rest ?_, h.resumed_rest ?_⟩
      · cases pending <;> simp
      · intro (hpending : pending = true)
        subst hpending
        exact ⟨.synchronize false, mem_pushed.mpr (.inl (List.mem_singleton_self _)), trivial⟩
    | cons head rest => exact h.replay hP hguard hexec
  | candidate c =>
    simp only [Negotiation.exec] at hexec
    split at hexec
    · split at hexec
      next q hadd =>
        cases hexec
        obtain ⟨queue, rfl⟩ := Peer.addCandidate_cases hadd
        exact h.queue hP (fun hresumes => hresumes.elim) (by simp)
      · cases hexec
        rw [pushed_nil]
        exact h.drop fun _ => id
    · cases hexec
      rw [pushed_nil]
      exact h.drop fun _ => id
  | restart =>
    cases hexec
    obtain ⟨-, -, hremote, hrefused⟩ := hP.restart s.peer h.sound.covered h.sound.good
    rw [pushed_nil]
    refine ⟨hsound, fun rest pending hmem => ?_, fun hstable => ?_⟩
    · show (P.restart s.peer).remote.isSome
      rw [hremote]
      exact h.answered rest pending (mem_cons_of_mem hmem)
    · -- The restart was refused, and somebody else still resumes what was noted before it.
      have hsame : P.restart s.peer = s.peer := hrefused hstable
      show (P.restart s.peer).Settled ∨ _
      rw [hsame]
      exact (h.drop fun _ => id).resumed (hsame ▸ hstable)
  | change a =>
    cases hexec
    refine ⟨hsound, h.answered_rest ?_, h.resumed_rest (fun hresumes => hresumes.elim)⟩
    split <;> simp

end Inv

theorem no_lost_work {room : R}
    {cfg : Config (Session R T C D) Unit (Cmd C D A)} (hP : Lawful P good)
    (hgood : good (Peer.new transceivers))
    (h : (machine P).Reachable (fun _ => True) (Guard P) ⟨room, Peer.new transceivers⟩ cfg)
    (hquiet : cfg.Quiescent) (hstable : cfg.state.peer.signaling = .stable) :
    cfg.state.peer.negotiationPending = false ∧ cfg.state.peer.iceRestartPending = false ∧
      cfg.state.peer.offered = cfg.state.peer.senders := by
  have hinv : Inv good cfg.state cfg.pending := by
    refine h.induction (P := Inv good) ?_ (fun s S call _ hs => hs.start call) ?_
    · exact ⟨sound_new hgood, fun _ _ hmem => absurd hmem (notMem_zero _), fun _ => .inl ⟨rfl, rfl⟩⟩
    · intro cfg i c x s new rest R _ hfires hguard hs
      exact hs.exec hP hguard hfires.exec
  rw [hquiet.pending_eq_zero] at hinv
  rcases hinv.resumed hstable with ⟨hnegotiation, hrestart⟩ | ⟨c, hc, -⟩
  · exact ⟨hnegotiation, hrestart, hinv.sound.covered.offered hnegotiation⟩
  · exact absurd hc (notMem_zero c)

end Voxhold.Lib.Negotiation
