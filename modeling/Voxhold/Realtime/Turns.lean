/-
# Voxhold.Realtime.Turns — the write loop and the turns of the two lanes

The write loop receives the token of `outgoingReady` and then pops once. The media lane goes first,
but not more than eight times in a row while a normal event waits. A place in the normal lane is
kept by what does not yield it to a later event (`Yields`): a replaced event is never popped
(`replaced_not_popped`).
-/

import Voxhold.Lib.Trace
import Voxhold.Realtime.Delivery

namespace Voxhold.Realtime

open Voxhold.Lib List

variable {event x : OutgoingEvent} {n : ℕ}

/-! ## One enqueue, one pop -/

/-- What may lose its place to a later event: what is transient, belongs to a channel's messages or
is replaced. -/
def Yields (x event : OutgoingEvent) : Prop :=
  x.type.isTransient = true ∨ 0 < eventMessageChannel x ∨
    ∃ key, replacementKey x = some key ∧ replacementKey event = some key

theorem mem_take_append_cons {pre post : List OutgoingEvent} {a : OutgoingEvent}
    (hx : x ∈ (pre ++ a :: post).take n) :
    x = a ∨ x ∈ pre.take n ∨ ∃ k, n = pre.length + (k + 1) ∧ x ∈ post.take k := by
  rw [take_append, mem_append] at hx
  rcases hx with hx | hx
  · exact .inr (.inl hx)
  · cases hk : n - pre.length with
    | zero => simp [hk] at hx
    | succ k =>
      rw [hk, take_succ_cons, mem_cons] at hx
      exact hx.imp_right fun hx => .inr ⟨k, by omega, hx⟩

theorem mem_take_filter {l : List OutgoingEvent} {p : OutgoingEvent → Bool}
    (hx : x ∈ l.take n) (hp : p x = true) : x ∈ (l.filter p).take n := by
  have hlen : ((l.take n).filter p).length ≤ n :=
    (length_filter_le ..).trans (length_take_le ..)
  have hsplit := congrArg (List.filter p) (take_append_drop n l)
  rw [filter_append] at hsplit
  rw [← hsplit, take_append, mem_append, take_of_length_le hlen]
  exact .inl (mem_filter.mpr ⟨hx, hp⟩)

theorem Squeezed.mem_take {queue queue' : List OutgoingEvent} (h : Squeezed queue queue')
    (hx : x ∈ queue.take n) : x ∈ queue'.take n ∨ Yields x event := by
  induction h with
  | refl => exact .inl hx
  | @evict pre post queued _ htransient ih =>
    rcases ih with ih | ih
    · rcases mem_take_append_cons ih with rfl | hmem | ⟨k, rfl, hmem⟩
      · exact .inr (.inl htransient)
      · exact .inl (by simp [take_append, hmem])
      · have hmem := take_subset_take_left post k.le_succ hmem
        exact .inl (by simp [take_append, hmem])
    · exact .inr ih
  | @compact pre post delta serverID _ hpos _ ih =>
    rcases ih with ih | ih
    · rcases mem_take_append_cons ih with rfl | hmem | ⟨k, rfl, hmem⟩
      · exact .inr (.inr (.inl hpos))
      · exact .inl (by simp [take_append, hmem])
      · by_cases hchannel : eventMessageChannel x = eventMessageChannel delta
        · exact .inr (.inr (.inl (hchannel ▸ hpos)))
        · have hmem :=
            mem_take_filter (p := (eventMessageChannel · ≠ eventMessageChannel delta)) hmem
            (by simpa using hchannel)
          exact .inl (by simpa [take_append] using .inr (.inr (by simpa using hmem)))
    · exact .inr ih

theorem Outcome.mem_take {resync : Int → Bool}
    {outgoing priority outgoing' priority' : List OutgoingEvent}
    {accepted : Bool} (h : Outcome resync outgoing priority event outgoing' priority' accepted)
    (hx : x ∈ outgoing.take n) : x ∈ outgoing'.take n ∨ Yields x event := by
  cases h with
  | mediaFull | media | stale | absorbed | dropped => exact .inl hx
  | @replaced pre post queued key _ hkey hold hqueue =>
    rw [hqueue] at hx
    rcases mem_take_append_cons hx with rfl | hmem | ⟨k, rfl, hmem⟩
    · exact .inr (.inr (.inr ⟨key, hold, hkey⟩))
    · exact .inl (by simp [take_append, hmem])
    · exact .inl (by simp [take_append, hmem])
  | compacted _ _ hsq | full _ _ hsq => exact hsq.mem_take hx
  | appended _ _ hsq =>
    exact (hsq.mem_take hx).imp_left fun hmem => by simp [take_append, hmem]

theorem Outcome.idle {resync : Int → Bool}
    {outgoing priority outgoing' priority' : List OutgoingEvent}
    (h : Outcome resync outgoing priority event outgoing' priority' false)
    (hidle : outgoing = [] ∧ priority = []) : outgoing' = [] ∧ priority' = [] := by
  cases h with
  | mediaFull => exact hidle
  | full _ _ hsq hlen =>
    have hle := hsq.length_le
    rw [hlen, hidle.1] at hle
    exact absurd hle (by decide)

def Client.Idle (c : Client) : Prop := c.outgoing = [] ∧ c.priority = []

theorem Client.enqueue_turn (c : Client) (event : OutgoingEvent) :
    (c.enqueue event).1.priorityBurst = c.priorityBurst ∧
      ((c.enqueue event).1.outgoingReady = true ∨
        (c.enqueue event).1.outgoingReady = c.outgoingReady ∧ (c.Idle → (c.enqueue event).1.Idle)) ∧
      ∀ n, ∀ x ∈ c.outgoing.take n, x ∈ (c.enqueue event).1.outgoing.take n ∨
        ∃ filtered ∈ (c.filterEvent event).2, Yields x filtered := by
  obtain ⟨legacy, hlegacy⟩ := filterEvent_frame c event
  unfold enqueue
  split
  · exact ⟨rfl, .inr ⟨rfl, id⟩, fun _ _ => .inl⟩
  · cases hfilter : c.filterEvent event with
    | mk c₁ result =>
    rw [hfilter] at hlegacy
    obtain rfl : c₁ = _ := hlegacy
    cases result with
    | none => exact ⟨rfl, .inr ⟨rfl, id⟩, fun _ _ => .inl⟩
    | some filtered =>
      simp only
      cases hlocked : enqueueLocked _ filtered with
      | mk c₂ accepted =>
      obtain ⟨hout, coalesced, resyncs, hframe⟩ := enqueueLocked_cases hlocked
      have hburst : c₂.priorityBurst = c.priorityBurst := by rw [hframe]
      have hready : c₂.outgoingReady = c.outgoingReady := by rw [hframe]
      have hmem n x (hx : x ∈ c.outgoing.take n) := (hout.mem_take hx).imp_right fun h =>
        (⟨filtered, rfl, h⟩ : ∃ y ∈ some filtered, Yields x y)
      cases accepted with
      | true => exact ⟨hburst, .inl rfl, hmem⟩
      | false => exact ⟨hburst, .inr ⟨hready, hout.idle⟩, hmem⟩

theorem Client.popOutgoing_turn (c : Client) :
    (c.popOutgoing.1.outgoingReady = true ∨ c.popOutgoing.1.Idle) ∧
    ((c.popOutgoing.2 = none ∧ c.Idle) ∨
      (∃ event, c.popOutgoing.2 = some event ∧ c.priority = event :: c.popOutgoing.1.priority ∧
        c.popOutgoing.1.outgoing = c.outgoing ∧
        c.popOutgoing.1.priorityBurst = c.priorityBurst + 1 ∧
        (c.priorityBurst < 8 ∨ c.outgoing = [])) ∨
      (∃ event, c.popOutgoing.2 = some event ∧ c.outgoing = event :: c.popOutgoing.1.outgoing ∧
        c.popOutgoing.1.priority = c.priority ∧ c.popOutgoing.1.priorityBurst = 0)) := by
  unfold popOutgoing Idle
  split
  next hmedia =>
    cases hp : c.priority with
    | nil => simp [hp] at hmedia
    | cons event rest =>
      refine ⟨?_, .inr (.inl ⟨event, rfl, rfl, rfl, rfl, hmedia.2.imp_right length_eq_zero_iff.mp⟩)⟩
      rcases Nat.eq_zero_or_pos (c.outgoing.length + rest.length) with hnone | hsome
      · exact .inr (by simpa using hnone)
      · exact .inl (by simp [hsome])
  next hnormal =>
    cases ho : c.outgoing with
    | nil =>
      have hp : c.priority = [] := by simpa [ho] using hnormal
      exact ⟨.inr ⟨rfl, hp⟩, .inl ⟨rfl, rfl, hp⟩⟩
    | cons event rest =>
      refine ⟨?_, .inr (.inr ⟨event, rfl, rfl, rfl, rfl⟩)⟩
      rcases Nat.eq_zero_or_pos (rest.length + c.priority.length) with hnone | hsome
      · exact .inr (by simpa using hnone)
      · exact .inl (by simp [hsome])

/-! ## The write loop -/

inductive QueueOp where
  | enqueue (event : OutgoingEvent)
  | receive
  | pop

/-- A connection with its write loop, which may have received the token and not yet popped. -/
structure Writer where
  client : Client
  popping : Bool

namespace Writer

variable {w : Writer} {ops : List QueueOp} {n : ℕ}

def step (w : Writer) : QueueOp → Writer
  | .enqueue event => { w with client := (w.client.enqueue event).1 }
  | .receive =>
    if w.popping = false ∧ w.client.outgoingReady = true then
      ⟨{ w.client with outgoingReady := false }, true⟩
    else w
  | .pop => if w.popping then ⟨w.client.popOutgoing.1, false⟩ else w

def pops (w : Writer) : QueueOp → Option OutgoingEvent
  | .pop => if w.popping then w.client.popOutgoing.2 else none
  | _ => none

/-- Of a pop, whether it returns an event of the media lane while a normal event is waiting. -/
def passes (w : Writer) : QueueOp → Option Bool
  | .pop =>
    if w.popping then
      some (decide (w.client.outgoing ≠ []) &&
        decide (w.client.popOutgoing.1.priority.length < w.client.priority.length))
    else none
  | _ => none

/-- The token is there if something is queued and the loop is not about to pop. -/
def Awake (w : Writer) : Prop := w.popping = true ∨ w.client.outgoingReady = true ∨ w.client.Idle

theorem awake_step (h : w.Awake) (op : QueueOp) : (w.step op).Awake := by
  cases op with
  | enqueue event =>
    rcases h with h | h
    · exact .inl h
    · rcases (w.client.enqueue_turn event).2.1 with hready | ⟨hready, hidle⟩
      · exact .inr (.inl hready)
      · exact .inr (h.imp hready.trans hidle)
  | receive =>
    simp only [step]
    split
    · exact .inl rfl
    · exact h
  | pop =>
    simp only [step]
    split
    · exact .inr w.client.popOutgoing_turn.1
    · exact h

theorem burst_of_initial {k : ℕ} (h : List.replicate k true <+: logged step passes w ops) :
    k = 0 ∨ w.client.priorityBurst + k ≤ 8 := by
  induction ops generalizing w k with
  | nil => exact .inl (by simpa [logged] using h)
  | cons op ops ih =>
    cases op with
    | enqueue event =>
      have hburst := (w.client.enqueue_turn event).1
      exact (ih h).imp_right fun hle => by simpa [step, hburst] using hle
    | receive =>
      refine (ih h).imp_right fun hle => ?_
      revert hle
      simp only [step]
      split <;> exact id
    | pop =>
      by_cases hpop : w.popping = true
      · have hturn := w.client.popOutgoing_turn.2
        simp only [logged, passes, step, if_pos hpop, Option.toList_some, singleton_append] at h
        cases k with
        | zero => exact .inl rfl
        | succ k =>
          obtain ⟨hpass, hrest⟩ := cons_prefix_cons.mp h
          simp only [Bool.true_eq, Bool.and_eq_true, decide_eq_true_eq] at hpass
          have hnext := ih hrest
          rcases hturn with ⟨-, hidle⟩ | ⟨event, -, -, -, hburst, hmay⟩ | ⟨event, -, -, hsame, -⟩
          · exact absurd hidle.1 hpass.1
          · have hlt := hmay.resolve_right hpass.1
            simp only [hburst] at hnext
            omega
          · exact absurd hpass.2 (by simp [hsame])
      · simp only [logged, passes, step, if_neg hpop] at h
        exact ih h

theorem not_nine_passes : ¬List.replicate 9 true <:+: logged step passes w ops := by
  induction ops generalizing w with
  | nil => simp [logged, List.replicate]
  | cons op ops ih =>
    intro h
    simp only [logged] at h
    cases hpass : w.passes op with
    | none => exact ih (by simpa [hpass] using h)
    | some b =>
      have hhead := @burst_of_initial w (op :: ops) 9
      simp only [logged, hpass, Option.toList_some, singleton_append] at h hhead
      rcases infix_cons_iff.mp h with h | h
      · have := hhead h
        omega
      · exact ih h

/-- The operation does not take `x` out of the place that it has in the normal lane. -/
def Keeps (x : OutgoingEvent) (w : Writer) (op : QueueOp) : Prop :=
  ∀ event, op = .enqueue event → ∀ n, x ∈ w.client.outgoing.take n →
    x ∈ (w.client.enqueue event).1.outgoing.take n

/-- How many successful pops it takes until the first `n` slots of the normal lane are popped. -/
def due (n burst : ℕ) : ℕ := if n = 0 then 0 else 9 * n - min burst 8

theorem pops_or_due {x : OutgoingEvent} {op : QueueOp} (hkeep : Keeps x w op)
    (hx : x ∈ w.client.outgoing.take n) :
    x ∈ w.pops op ∨ ∃ m, x ∈ (w.step op).client.outgoing.take m ∧
      due m (w.step op).client.priorityBurst ≤
        due n w.client.priorityBurst - (w.pops op).toList.length := by
  cases op with
  | enqueue event =>
    have hburst := (w.client.enqueue_turn event).1
    exact .inr ⟨n, hkeep event rfl n hx, by simp [step, pops, hburst]⟩
  | receive =>
    refine .inr ⟨n, ?_⟩
    simp only [step]
    split <;> exact ⟨hx, le_rfl⟩
  | pop =>
    simp only [step, pops]
    split
    · rcases w.client.popOutgoing_turn.2 with
        ⟨-, hempty, -⟩ | ⟨event, hev, -, hsame, hburst, hmay⟩ | ⟨event, hev, hrest, -, hburst⟩
      · simp [hempty] at hx
      · have hlt := hmay.resolve_right fun hempty => by simp [hempty] at hx
        refine .inr ⟨n, by rwa [hsame], ?_⟩
        simp only [due, hev, hburst, Option.toList_some, length_singleton]
        split <;> omega
      · cases n with
        | zero => simp at hx
        | succ n =>
          rw [hrest, take_succ_cons, mem_cons] at hx
          refine hx.imp (fun heq => by rw [hev, heq]; rfl) fun hx => ⟨n, hx, ?_⟩
          simp only [due, hev, hburst, Option.toList_some, length_singleton, if_neg n.succ_ne_zero]
          split <;> omega
    · exact .inr ⟨n, hx, le_rfl⟩

theorem mem_pops {x : OutgoingEvent} (hkeep : Throughout step (Keeps x) w ops)
    (hx : x ∈ w.client.outgoing.take n)
    (hpops : due n w.client.priorityBurst ≤ (logged step pops w ops).length) :
    x ∈ logged step pops w ops := by
  induction ops generalizing w n with
  | nil =>
    cases n with
    | zero => simp at hx
    | succ n =>
      simp only [due, logged, length_nil, if_neg n.succ_ne_zero] at hpops
      omega
  | cons op ops ih =>
    simp only [logged, mem_append, length_append, Option.mem_toList] at hpops ⊢
    refine (pops_or_due hkeep.1 hx).imp_right ?_
    rintro ⟨m, hmem, hdue⟩
    exact ih hkeep.2 hmem (by omega)

/-- Of nine pops in a row that find a normal event waiting, one returns a normal event. A normal
event is among the first `9 * n` popped if it is among the first `n` of its lane and no enqueue
coalesces, evicts or compacts it. A pop returns the head of a lane and fails only when both are
empty, and from an empty queue on there is never an idle write loop without a token while something
is queued. -/
theorem lanes_fair (w : Writer) (ops : List QueueOp) :
    (¬List.replicate 9 true <:+: logged step passes w ops ∧
      (∀ n, ∀ x ∈ w.client.outgoing.take n, Throughout step (Keeps x) w ops →
        9 * n ≤ (logged step pops w ops).length → x ∈ logged step pops w ops) ∧
      ∀ event x, Keeps x w (.enqueue event) ∨ ∃ filtered ∈ (w.client.filterEvent event).2,
      Yields x filtered) ∧
    (match w.client.popOutgoing with
      | (_, none) => w.client.Idle
      | (c, some event) =>
        w.client.priority = event :: c.priority ∧ c.outgoing = w.client.outgoing ∨
          w.client.outgoing = event :: c.outgoing ∧ c.priority = w.client.priority) ∧
    (w.client.Idle → (ops.foldl step w).Awake) := by
  refine ⟨⟨not_nine_passes, fun n x hx hkeep hn => mem_pops hkeep hx (le_trans ?_ hn), ?_⟩, ?_,
    fun hidle => foldl_preserves (fun w op h => awake_step h op) (.inr (.inr hidle))⟩
  · unfold due
    split <;> omega
  · intro event x
    by_cases hyield : ∃ filtered ∈ (w.client.filterEvent event).2, Yields x filtered
    · exact .inr hyield
    · refine .inl fun other hop n hx => ?_
      obtain rfl := QueueOp.enqueue.inj hop
      exact ((w.client.enqueue_turn event).2.2 n x hx).resolve_right hyield
  · cases hpop : w.client.popOutgoing with
    | mk c result =>
    have hturn := w.client.popOutgoing_turn.2
    rw [hpop] at hturn
    rcases hturn with ⟨rfl, hidle⟩ | ⟨event, rfl, hp, ho, -⟩ | ⟨event, rfl, ho, hp, -⟩
    · exact hidle
    · exact .inl ⟨hp, ho⟩
    · exact .inr ⟨ho, hp⟩

namespace Sample

/-- Whether account 7 is online, as the members of server 1 are told. -/
def presence (status : PresenceStatus) : OutgoingEvent where
  encoding := none
  requestID := ""
  type := .presenceUpdated
  data := .presenceUpdated 1 7 status
  wellTyped := ⟨nofun, nofun⟩

/-- A connection leaves a voice channel. -/
def voiceLeft : OutgoingEvent where
  encoding := none
  requestID := ""
  type := .voice .left
  data := .voiceLeft 5 1
  wellTyped := by decide

/-- Nine media events are queued, and that the account is online. -/
def waiting : Writer :=
  (List.replicate 9 (.enqueue voiceLeft)).foldl step
    (step ⟨newClient, false⟩ (.enqueue (presence .online)))

def popAll : ℕ → List QueueOp
  | 0 => []
  | n + 1 => .receive :: .pop :: popAll n

theorem keeps_popAll {x : OutgoingEvent} (w : Writer) (n : ℕ) :
    Throughout step (Keeps x) w (popAll n) := by
  induction n generalizing w with
  | zero => trivial
  | succ n ih =>
    exact ⟨fun _ h => QueueOp.noConfusion h, fun _ h => QueueOp.noConfusion h, ih _⟩

end Sample

/-- Another media event comes, and the normal event is among the nine popped next. -/
theorem lanes_fair_presence : Sample.presence .online ∈ logged step pops Sample.waiting
    (.enqueue Sample.voiceLeft :: Sample.popAll 9) := by
  have hkeeps : Keeps (Sample.presence .online) Sample.waiting (.enqueue Sample.voiceLeft) := by
    rintro event ⟨⟩ n hx
    exact hx
  exact (lanes_fair Sample.waiting (.enqueue Sample.voiceLeft :: Sample.popAll 9)).1.2.1 1 _
    (by decide) ⟨hkeeps, Sample.keeps_popAll _ 9⟩ (by decide +kernel)

/-- The account goes offline instead: nine events are popped, and that it is online is not among
them. -/
theorem replaced_not_popped : let ops := .enqueue (Sample.presence .offline) :: Sample.popAll 9
    Sample.waiting.client.outgoing = [Sample.presence .online] ∧
      (logged step pops Sample.waiting ops).length = 9 ∧
      Sample.presence .online ∉ logged step pops Sample.waiting ops := by
  decide +kernel

end Writer

end Voxhold.Realtime
