/-
# Voxhold.Antiabuse.Limiters — the table of rate limiters

`limiterStore`: a limiter for each key, made at the first use and dropped once idle for `ttl`, by
sweeps that the traffic of all keys triggers. A sweep leaves every level as it is (`levelOf`)
whenever an idle bucket would have refilled in the meantime.
-/

import Mathlib.Algebra.Order.Ring.Rat
import Voxhold.Lib.NestedMap
import Voxhold.Lib.TokenBucket

namespace Voxhold.Antiabuse

open Voxhold.Lib List

/-! ## Configuration -/

/-- The fields of the guard's configuration that its limits are made of; durations in seconds. -/
structure Config where
  httpRequestsPerSecond : ℕ
  httpBurst : ℕ
  httpWritesPerSecond : ℕ
  httpWriteBurst : ℕ
  callSignalsPerSecond : ℕ
  callSignalBurst : ℕ
  authRequestsPerMinute : ℕ
  authBurst : ℕ
  inviteRequestsPerMinute : ℕ
  inviteBurst : ℕ
  loginMaxFailures : ℕ
  loginBlockDuration : ℚ
  webSocketConnectsPerMinute : ℕ
  webSocketConnectBurst : ℕ
  entryTTL : ℚ
  maxRateEntries : ℕ
  ipMultiplier : ℕ

def defaultConfig : Config where
  httpRequestsPerSecond := 25
  httpBurst := 50
  httpWritesPerSecond := 8
  httpWriteBurst := 16
  callSignalsPerSecond := 120
  callSignalBurst := 240
  authRequestsPerMinute := 10
  authBurst := 5
  inviteRequestsPerMinute := 20
  inviteBurst := 10
  loginMaxFailures := 5
  loginBlockDuration := 20 * 60
  webSocketConnectsPerMinute := 10
  webSocketConnectBurst := 5
  entryTTL := 30 * 60
  maxRateEntries := 20000
  ipMultiplier := 4

/-! ## The store -/

structure LimiterEntry where
  limiter : TokenBucket ℚ
  lastSeen : ℚ

structure LimiterStore (Key : Type) [DecidableEq Key] where
  entries : AList fun _ : Key => LimiterEntry
  ttl : ℚ
  maxEntries : ℕ
  operations : UInt64

/-- A call of `allow`: the limit a missing entry is made with, the clock as it is read, and the keys
in the order in which an eviction would meet them. -/
structure Call (Key : Type) where
  key : Key
  limit : Limit ℚ
  now : ℚ
  sample : List Key := []

def evictionSample : ℕ := 16

namespace LimiterStore

variable {Key : Type} [DecidableEq Key]

def new (ttl : ℚ) (maxEntries : ℕ) : LimiterStore Key where
  entries := ∅
  ttl := ttl
  maxEntries := maxEntries
  operations := 0

def full (s : LimiterStore Key) : Bool :=
  s.maxEntries ≤ s.entries.keys.length

def cleanupLocked (s : LimiterStore Key) (now : ℚ) : LimiterStore Key :=
  { s with
    entries := eraseAll s.entries
      (s.entries.keys.filter fun key =>
        (s.entries.lookup key).any fun entry => s.ttl ≤ now - entry.lastSeen) }

/-- The least recently seen of the first entries met, the first of them on a tie. -/
def oldest (s : LimiterStore Key) (sample : List Key) : Option (Key × ℚ) :=
  ((sample.filterMap fun key => (s.entries.lookup key).map fun entry => (key, entry.lastSeen)).take
    evictionSample).foldl
      (fun found (key, seen) =>
        match found with
        | none => some (key, seen)
        | some (key', seen') => if seen < seen' then some (key, seen) else some (key', seen'))
      none

def evictOldestLocked (s : LimiterStore Key) (sample : List Key) : LimiterStore Key :=
  match s.oldest sample with
  | none => s
  | some (key, _) => { s with entries := s.entries.erase key }

/-- The head of `allow`: every 256th operation, and every operation on a full table, sweeps it. -/
def swept (s : LimiterStore Key) (now : ℚ) : LimiterStore Key :=
  let s := { s with operations := s.operations + 1 }
  if s.operations % 256 = 0 ∨ s.full then s.cleanupLocked now else s

/-- The limiter a call is decided by: the one stored under its key, or a new one. -/
def limiterFor (s : LimiterStore Key) (c : Call Key) : TokenBucket ℚ :=
  match s.entries.lookup c.key with
  -- A limiter that is there keeps its own limit, whatever the call brings.
  | some entry => entry.limiter
  | none => TokenBucket.fresh c.limit c.now

/-- The tail of `allow`: the limiter decides, and its entry has been seen now. -/
def serve (s : LimiterStore Key) (c : Call Key) : Bool × LimiterStore Key :=
  (((s.limiterFor c).take c.now).1,
    { s with entries := s.entries.insert c.key ⟨((s.limiterFor c).take c.now).2, c.now⟩ })

def allow (s : LimiterStore Key) (c : Call Key) : Bool × LimiterStore Key :=
  let s := s.swept c.now
  -- If sweeping made no room, a new key takes the place of an old one.
  let s :=
    if (s.entries.lookup c.key).isNone ∧ s.full then s.evictOldestLocked c.sample else s
  s.serve c

/-- The same call on a store that deletes nothing. -/
def allowKept (s : LimiterStore Key) (c : Call Key) : Bool × LimiterStore Key :=
  { s with operations := s.operations + 1 }.serve c

/-! ## Runs -/

def outcomes (s : LimiterStore Key) : List (Call Key) → List (Call Key × Bool)
  | [] => []
  | c :: calls => (c, (s.allow c).1) :: outcomes (s.allow c).2 calls

def outcomesKept (s : LimiterStore Key) : List (Call Key) → List (Call Key × Bool)
  | [] => []
  | c :: calls => (c, (s.allowKept c).1) :: outcomesKept (s.allowKept c).2 calls

def NeverFull (s : LimiterStore Key) : List (Call Key) → Prop
  | [] => True
  | c :: calls => s.full = false ∧ NeverFull (s.allow c).2 calls

instance decidableNeverFull : (s : LimiterStore Key) → (calls : List (Call Key)) →
    Decidable (s.NeverFull calls)
  | _, [] => .isTrue trivial
  | s, c :: calls =>
    have := decidableNeverFull (s.allow c).2 calls
    inferInstanceAs (Decidable (s.full = false ∧ NeverFull (s.allow c).2 calls))

def admissions (k : Key) (log : List (Call Key × Bool)) : List ℚ :=
  log.filterMap fun (c, ok) => if ok ∧ c.key = k then some c.now else none

/-! ## Levels -/

variable {s : LimiterStore Key} {k : Key} {l : Limit ℚ} {t now : ℚ} {c : Call Key}

/-- The tokens of a key; a key without an entry has a full bucket waiting. -/
def levelOf (s : LimiterStore Key) (k : Key) (l : Limit ℚ) (now : ℚ) : ℚ :=
  match s.entries.lookup k with
  | none => l.burst
  | some entry => entry.limiter.level now

/-- **The entry of a key is in order** at a time: it was made with the limit of the key, and used no
later than it was seen. -/
def Keeps (s : LimiterStore Key) (k : Key) (l : Limit ℚ) (t : ℚ) : Prop :=
  ∀ entry, s.entries.lookup k = some entry →
    entry.limiter.limit = l ∧ entry.limiter.last ≤ entry.lastSeen ∧ entry.lastSeen ≤ t

theorem Keeps.mono (h : s.Keeps k l t) (hle : t ≤ now) : s.Keeps k l now := by
  intro entry hentry
  obtain ⟨hlimit, hlast, hseen⟩ := h entry hentry
  exact ⟨hlimit, hlast, hseen.trans hle⟩

theorem levelOf_later (h : s.Keeps k l t) (hle : t ≤ now) :
    s.levelOf k l now = min (l.burst : ℚ) (s.levelOf k l t + l.rate * (now - t)) := by
  unfold levelOf
  cases hentry : s.entries.lookup k with
  | none =>
    have hgain := mul_nonneg l.rate_nonneg (sub_nonneg.mpr hle)
    exact (min_eq_left (le_add_of_nonneg_right hgain)).symm
  | some entry =>
    obtain ⟨rfl, hlast, hseen⟩ := h entry hentry
    exact entry.limiter.level_later (hlast.trans hseen) hle

/-! ## Sweeping -/

theorem lookup_cleanupLocked : (s.cleanupLocked now).entries.lookup k =
      (s.entries.lookup k).filter fun entry => ¬ s.ttl ≤ now - entry.lastSeen := by
  rw [cleanupLocked, lookup_eraseAll]
  cases hentry : s.entries.lookup k with
  | none => simp
  | some entry =>
    have hkey : k ∈ s.entries.keys := by
      rw [← AList.mem_keys, ← AList.lookup_isSome, hentry]
      rfl
    by_cases hold : s.ttl ≤ now - entry.lastSeen
    · rw [if_pos (by simp [hkey, hentry, hold])]
      simp [Option.filter, hold]
    · rw [if_neg (by simp [hentry, hold])]
      simp [Option.filter, hold]

theorem lookup_swept (s : LimiterStore Key) (k : Key) (now : ℚ) :
    (s.swept now).entries.lookup k = s.entries.lookup k ∨
      ∃ entry, s.entries.lookup k = some entry ∧ s.ttl ≤ now - entry.lastSeen ∧
        (s.swept now).entries.lookup k = none := by
  unfold swept
  simp only
  split
  · rw [lookup_cleanupLocked]
    cases hentry : s.entries.lookup k with
    | none => exact .inl rfl
    | some entry =>
      by_cases hold : s.ttl ≤ now - entry.lastSeen
      · exact .inr ⟨entry, rfl, hold, by simp [Option.filter, hold]⟩
      · exact .inl (by simp [Option.filter, hold])
  · exact .inl rfl

theorem Keeps.swept (h : s.Keeps k l t) : (s.swept now).Keeps k l t := by
  intro entry hentry
  rcases lookup_swept s k now with hsame | ⟨_, -, -, hgone⟩
  · exact h entry (hsame ▸ hentry)
  · rw [hgone] at hentry
    cases hentry

theorem levelOf_swept_or_full : (s.swept now).levelOf k l now = s.levelOf k l now ∨
    (s.swept now).levelOf k l now = l.burst := by
  rcases lookup_swept s k now with hsame | ⟨_, -, -, hgone⟩
  · exact .inl (by rw [levelOf, hsame, levelOf])
  · exact .inr (by rw [levelOf, hgone])

theorem levelOf_swept (h : s.Keeps k l t) (hburst : (l.burst : ℚ) ≤ l.rate * s.ttl) :
    (s.swept now).levelOf k l now = s.levelOf k l now := by
  rcases lookup_swept s k now with hsame | ⟨entry, hentry, hold, hgone⟩
  · rw [levelOf, hsame, levelOf]
  · obtain ⟨rfl, hlast, -⟩ := h entry hentry
    have hidle : s.ttl ≤ now - entry.limiter.last := hold.trans (sub_le_sub_left hlast now)
    rw [levelOf, levelOf, hgone, hentry]
    exact (entry.limiter.level_of_idle hidle hburst).symm

/-! ## One call -/

/-- The limit a call would make its entry with is the key's own, unless an entry is there. -/
def MadeWith (s : LimiterStore Key) (c : Call Key) (l : Limit ℚ) : Prop :=
  s.entries.lookup c.key = none → c.limit = l

theorem level_limiterFor (hmade : s.MadeWith c l) :
    (s.limiterFor c).level now = s.levelOf c.key l now := by
  unfold limiterFor levelOf
  cases hentry : s.entries.lookup c.key with
  | none => rw [TokenBucket.level_fresh, hmade hentry]
  | some entry => rfl

theorem serve_fst (hmade : s.MadeWith c l) :
    (s.serve c).1 = decide (1 ≤ s.levelOf c.key l c.now) := by
  rw [serve, TokenBucket.take_fst, level_limiterFor hmade]

theorem levelOf_serve_self (hmade : s.MadeWith c l) : (s.serve c).2.levelOf c.key l c.now =
      if 1 ≤ s.levelOf c.key l c.now then s.levelOf c.key l c.now - 1
      else s.levelOf c.key l c.now := by
  rw [levelOf, serve, AList.lookup_insert]
  simp only
  rw [TokenBucket.level_take, level_limiterFor hmade]

theorem levelOf_serve_of_ne (hne : k ≠ c.key) :
    (s.serve c).2.levelOf k l now = s.levelOf k l now := by
  rw [levelOf, serve, AList.lookup_insert_ne hne, levelOf]

theorem Keeps.serve (h : s.Keeps k l c.now) (hmade : c.key = k → s.MadeWith c l) :
    (s.serve c).2.Keeps k l c.now := by
  intro entry hentry
  by_cases hk : k = c.key
  · subst hk
    rw [LimiterStore.serve, AList.lookup_insert, Option.some_inj] at hentry
    subst hentry
    -- the limiter that decided was in order
    have hfor : (s.limiterFor c).limit = l ∧ (s.limiterFor c).last ≤ c.now := by
      unfold limiterFor
      cases hold : s.entries.lookup c.key with
      | none => exact ⟨hmade rfl hold, le_rfl⟩
      | some entry =>
        obtain ⟨hlimit, hlast, hseen⟩ := h entry hold
        exact ⟨hlimit, hlast.trans hseen⟩
    exact ⟨by simpa using hfor.1, TokenBucket.last_take_le _ hfor.2, le_rfl⟩
  · rw [LimiterStore.serve, AList.lookup_insert_ne hk] at hentry
    exact h entry hentry

theorem full_swept (h : s.full = false) : (s.swept now).full = false := by
  have hlt : s.entries.keys.length < s.maxEntries := by simpa [full] using h
  unfold swept
  simp only
  split
  · have hle := length_keys_eraseAll_le s.entries
      (s.entries.keys.filter fun key =>
        (s.entries.lookup key).any fun entry => s.ttl ≤ now - entry.lastSeen)
    exact decide_eq_false (not_le.mpr (hle.trans_lt hlt))
  · exact h

theorem allow_eq_serve (h : s.full = false) : s.allow c = (s.swept c.now).serve c := by
  simp [allow, full_swept h]

@[simp] theorem ttl_swept : (s.swept now).ttl = s.ttl := by
  unfold swept
  simp only
  split <;> rfl

theorem ttl_allow (h : s.full = false) : (s.allow c).2.ttl = s.ttl := by
  rw [allow_eq_serve h]
  exact ttl_swept

theorem Keeps.allow (h : s.Keeps k l t) (hle : t ≤ c.now) (hroom : s.full = false)
    (hmade : c.key = k → (s.swept c.now).MadeWith c l) : (s.allow c).2.Keeps k l c.now := by
  rw [allow_eq_serve hroom]
  exact (h.swept.mono hle).serve hmade

/-! ## What the admissions of a key add up to -/

/-- The admissions of a key after one more call. -/
def logged (s : LimiterStore Key) (k : Key) (c : Call Key) (log : List ℚ) : List ℚ :=
  if (s.allow c).1 ∧ c.key = k then c.now :: log else log

variable {log : List ℚ}

theorem level_allow {P : List ℚ → ℚ → Prop} (hroom : s.full = false)
    (hmade : c.key = k → (s.swept c.now).MadeWith c l)
    (hswept : P log ((s.swept c.now).levelOf k l c.now))
    (htake : ∀ held, P log held → 1 ≤ held → P (c.now :: log) (held - 1)) :
    P (s.logged k c log) ((s.allow c).2.levelOf k l c.now) := by
  unfold logged
  rw [allow_eq_serve hroom]
  by_cases hk : c.key = k
  · subst hk
    rw [serve_fst (hmade rfl), levelOf_serve_self (hmade rfl)]
    by_cases hone : 1 ≤ (s.swept c.now).levelOf c.key l c.now
    · simp only [hone, decide_true, and_self, if_true]
      exact htake _ hswept hone
    · simp only [hone, decide_false, Bool.false_eq_true, false_and, if_false]
      exact hswept
  · rw [levelOf_serve_of_ne (Ne.symm hk), if_neg fun h => hk h.2]
    exact hswept

theorem spent_allow (hkeeps : s.Keeps k l t) (hspent : Spent l log t (s.levelOf k l t))
    (hle : t ≤ c.now) (hroom : s.full = false) (hburst : (l.burst : ℚ) ≤ l.rate * s.ttl)
    (hmade : c.key = k → (s.swept c.now).MadeWith c l) :
    Spent l (s.logged k c log) c.now ((s.allow c).2.levelOf k l c.now) := by
  refine level_allow (P := fun log held => Spent l log c.now held) hroom hmade ?_
    fun held h hone => h.take hone
  rw [levelOf_swept hkeeps hburst, levelOf_later hkeeps hle]
  exact hspent.wait hle

theorem owed_swept (hkeeps : s.Keeps k l t) (howed : Owed l log t (s.levelOf k l t))
    (hpast : ∀ u ∈ log, u ≤ t) (hle : t ≤ now) :
    Owed l log now ((s.swept now).levelOf k l now) := by
  rcases levelOf_swept_or_full (s := s) (k := k) (l := l) with hsame | hfull
  · rw [hsame, levelOf_later hkeeps hle]
    exact howed.wait hpast hle
  · rw [hfull]
    exact Owed.full

theorem exhausted_of_refused (hkeeps : s.Keeps c.key l t)
    (howed : Owed l log t (s.levelOf c.key l t))
    (hpast : ∀ u ∈ log, u ≤ t) (hle : t ≤ c.now) (hroom : s.full = false)
    (hmade : (s.swept c.now).MadeWith c l) (hrefused : (s.allow c).1 = false) :
    ∃ T, 0 ≤ T ∧ l.burst + l.rate * T - 1 < admitted log (c.now - T) c.now := by
  rw [allow_eq_serve hroom, serve_fst hmade, decide_eq_false_iff_not, not_le] at hrefused
  exact (owed_swept hkeeps howed hpast hle).exhausted hrefused

theorem admissions_le (calls : List (Call Key)) (hkeeps : s.Keeps k l t)
    (hspent : Spent l log t (s.levelOf k l t)) (hsorted : calls.Pairwise fun c d => c.now ≤ d.now)
    (hle : ∀ c ∈ calls, t ≤ c.now) (hlimit : ∀ c ∈ calls, c.key = k → c.limit = l)
    (hroom : s.NeverFull calls) (hburst : (l.burst : ℚ) ≤ l.rate * s.ttl) {a b : ℚ} (hab : a ≤ b) :
    ((admitted log a b + admitted (admissions k (s.outcomes calls)) a b : ℕ) : ℚ) ≤
      l.burst + l.rate * (b - a) := by
  induction calls generalizing s t log with
  | nil => simpa [outcomes, admissions] using hspent.windows a b hab
  | cons c calls ih =>
    obtain ⟨hnow, hsorted⟩ := pairwise_cons.mp hsorted
    obtain ⟨hlec, hle⟩ := forall_mem_cons.mp hle
    obtain ⟨hlimitc, hlimit⟩ := forall_mem_cons.mp hlimit
    have hmade : c.key = k → (s.swept c.now).MadeWith c l := fun hk _ => hlimitc hk
    have hnext := ih (hkeeps.allow hlec hroom.1 hmade)
      (spent_allow hkeeps hspent hlec hroom.1 hburst hmade) hsorted hnow hlimit hroom.2
      (by rwa [ttl_allow hroom.1])
    -- the call's own admission moves from the head of the run to the log
    convert hnext using 2
    unfold logged
    by_cases hown : (s.allow c).1 ∧ c.key = k
    · simp only [outcomes, admissions, filterMap_cons, hown, and_self, if_true, admitted_cons]
      ring
    · simp only [outcomes, admissions, filterMap_cons, hown, if_false]

/-! ## A store that deletes nothing -/

/-- Two stores whose keys have the same levels at a time, each with its entries in order. -/
structure Agree (limit : Key → Limit ℚ) (s kept : LimiterStore Key) (t : ℚ) : Prop where
  level : ∀ k, s.levelOf k (limit k) t = kept.levelOf k (limit k) t
  keeps : ∀ k, s.Keeps k (limit k) t
  keepsKept : ∀ k, kept.Keeps k (limit k) t

theorem Agree.allow {limit : Key → Limit ℚ} {kept : LimiterStore Key} (h : Agree limit s kept t)
    (hle : t ≤ c.now) (hroom : s.full = false)
    (hburst : ∀ k, ((limit k).burst : ℚ) ≤ (limit k).rate * s.ttl)
    (hlimit : c.limit = limit c.key) :
    (s.allow c).1 = (kept.allowKept c).1 ∧ Agree limit (s.allow c).2
    (kept.allowKept c).2 c.now := by
  have hmade : (s.swept c.now).MadeWith c (limit c.key) := fun _ => hlimit
  have hmadeKept : LimiterStore.MadeWith { kept with operations := kept.operations + 1 } c
      (limit c.key) := fun _ => hlimit
  -- levels agree when the call is decided: time has passed for both, and the sweep is not seen
  have hlevel : ∀ k, (s.swept c.now).levelOf k (limit k) c.now =
      LimiterStore.levelOf { kept with operations := kept.operations + 1 } k (limit k) c.now := by
    intro k
    rw [levelOf_swept (h.keeps k) (hburst k), levelOf_later (h.keeps k) hle, h.level k,
      ← levelOf_later (h.keepsKept k) hle]
    rfl
  rw [allow_eq_serve hroom, allowKept]
  refine ⟨?_, ?_, ?_, ?_⟩
  · rw [serve_fst hmade, serve_fst hmadeKept, hlevel]
  · intro k
    by_cases hk : k = c.key
    · subst hk
      rw [levelOf_serve_self hmade, levelOf_serve_self hmadeKept, hlevel]
    · rw [levelOf_serve_of_ne hk, levelOf_serve_of_ne hk, hlevel]
  · exact fun k => ((h.keeps k).swept.mono hle).serve fun hk => hk ▸ hmade
  · exact fun k => ((h.keepsKept k).mono hle : Keeps _ k (limit k) c.now).serve
      fun hk => hk ▸ hmadeKept

theorem Agree.outcomes {limit : Key → Limit ℚ} {kept : LimiterStore Key} (calls : List (Call Key))
    (h : Agree limit s kept t) (hsorted : calls.Pairwise fun c d => c.now ≤ d.now)
    (hle : ∀ c ∈ calls, t ≤ c.now) (hlimit : ∀ c ∈ calls, c.limit = limit c.key)
    (hroom : s.NeverFull calls) (hburst : ∀ k, ((limit k).burst : ℚ) ≤ (limit k).rate * s.ttl) :
    s.outcomes calls = kept.outcomesKept calls := by
  induction calls generalizing s kept t with
  | nil => rfl
  | cons c calls ih =>
    obtain ⟨hnow, hsorted⟩ := pairwise_cons.mp hsorted
    obtain ⟨hlec, -⟩ := forall_mem_cons.mp hle
    obtain ⟨hlimitc, hlimit⟩ := forall_mem_cons.mp hlimit
    obtain ⟨hdecision, hnext⟩ := h.allow hlec hroom.1 hburst hlimitc
    have hrest := ih hnext hsorted hnow hlimit hroom.2 (by rwa [ttl_allow hroom.1])
    rw [LimiterStore.outcomes, LimiterStore.outcomesKept, hdecision, hrest]

/-! ## The run of a new store -/

theorem keeps_new {ttl : ℚ} {maxEntries : ℕ} : (new ttl maxEntries).Keeps k l t := nofun

omit [DecidableEq Key] in
theorem exists_start {calls : List (Call Key)} (hsorted : calls.Pairwise fun c d => c.now ≤ d.now) :
    ∃ t, ∀ c ∈ calls, t ≤ c.now := by
  cases calls with
  | nil => exact ⟨0, nofun⟩
  | cons c calls =>
    exact ⟨c.now, forall_mem_cons.mpr ⟨le_rfl, (pairwise_cons.mp hsorted).1⟩⟩

/-- **Forgetting idle limiters cannot be seen.** Over calls in the order of their clock, each key
always with its own limit, whose bucket an idle time of `ttl` fills, a store that is never full
decides every call as a store that deletes nothing would; so no window admits more than its budget.
-/
theorem forgetting_unobservable (ttl : ℚ) (maxEntries : ℕ) (limit : Key → Limit ℚ)
    (hburst : ∀ k, ((limit k).burst : ℚ) ≤ (limit k).rate * ttl) (calls : List (Call Key))
    (hsorted : calls.Pairwise fun c d => c.now ≤ d.now)
    (hlimit : ∀ c ∈ calls, c.limit = limit c.key) (hroom : (new ttl maxEntries).NeverFull calls) :
    (new ttl maxEntries).outcomes calls = (new ttl maxEntries).outcomesKept calls ∧
      ∀ k a T, 0 ≤ T →
        (admitted (admissions k ((new ttl maxEntries).outcomes calls)) a (a + T) : ℚ) ≤
          (limit k).burst + (limit k).rate * T := by
  obtain ⟨t, hle⟩ := exists_start hsorted
  constructor
  · have hagree : Agree limit (new ttl maxEntries) (new ttl maxEntries) t :=
      ⟨fun _ => rfl, fun _ => keeps_new, fun _ => keeps_new⟩
    exact hagree.outcomes calls hsorted hle hlimit hroom hburst
  · intro k a T hT
    have hspent : Spent (limit k) [] t ((new ttl maxEntries).levelOf k (limit k) t) :=
      Spent.nil le_rfl
    have hwindow := admissions_le calls keeps_new hspent hsorted hle
      (fun c hc hk => hk ▸ hlimit c hc) hroom (hburst k) (le_add_of_nonneg_right hT : a ≤ a + T)
    simpa using hwindow

/-- One visitor comes once; the other's 256th call, much later, sweeps the first one's limiter. -/
def visits : List (Call ℕ) :=
  ⟨1, ⟨25, 50, by norm_num⟩, 0, []⟩ :: replicate 256 ⟨0, ⟨25, 50, by norm_num⟩, 2000, []⟩

theorem visits_unobservable :
    (new 1800 20000).outcomes visits = (new 1800 20000).outcomesKept visits ∧
      ∀ k a T, 0 ≤ T → (admitted (admissions k ((new 1800 20000).outcomes visits)) a (a + T) : ℚ) ≤
          50 + 25 * T :=
  forgetting_unobservable 1800 20000 (fun _ => ⟨25, 50, by norm_num⟩) (fun _ => by norm_num) visits
    (by decide +kernel) (by
      intro c hc
      rcases mem_cons.mp hc with rfl | hc
      · rfl
      · rw [eq_of_mem_replicate hc])
    (by decide +kernel)

end LimiterStore

end Voxhold.Antiabuse
