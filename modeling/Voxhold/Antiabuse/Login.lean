/-
# Voxhold.Antiabuse.Login — guessing a password from one address

A login attempt is counted under its address, and under its address with the name it gives. The
account is looked up by another reading of the name, so several names, each with a counter, reach
one account; and any login that succeeds clears the counter of the address.
-/

import Voxhold.Antiabuse.Limiters
import Voxhold.Lib.Text

namespace Voxhold.Antiabuse

open Voxhold.Lib List

/-! ## The failure table -/

inductive FailureKey where
  | ip (rateKey : String)
  | pair (rateKey identity : String)
deriving DecidableEq

/-- A counter; one that never blocked has no `blockedUntil`. -/
structure FailureEntry where
  failures : ℕ
  blockedUntil : Option ℚ
  lastSeen : ℚ

abbrev Failures := AList fun _ : FailureKey => FailureEntry

namespace FailureEntry

def blocked (e : FailureEntry) (now : ℚ) : Bool :=
  e.blockedUntil.any fun u => now < u

/-- Not seen for `EntryTTL`, and not blocking. -/
def expired (g : Config) (e : FailureEntry) (now : ℚ) : Bool :=
  g.entryTTL ≤ now - e.lastSeen ∧ e.blocked now = false

end FailureEntry

namespace Failures

def crowded (g : Config) (F : Failures) : Bool :=
  g.maxRateEntries ≤ F.keys.length

def cleanupFailuresLocked (g : Config) (F : Failures) (now : ℚ) : Failures :=
  if F.crowded g then
    eraseAll F (F.keys.filter fun key => (F.lookup key).any fun e => e.expired g now)
  else F

/-- The entry to give up among the first ones met: one that does not block before one that does, and
of those the least recently seen. -/
def victim (F : Failures) (now : ℚ) (sample : List FailureKey) : Option FailureKey :=
  (((sample.filterMap fun key => (F.lookup key).map fun e => (key, e)).take evictionSample).foldl
    (fun found (key, e) =>
      match found with
      | none => some (key, e)
      | some (key', e') =>
        if (e'.blocked now ∧ e.blocked now = false) ∨
            (e.blocked now = e'.blocked now ∧ e.lastSeen < e'.lastSeen) then some (key, e)
        else some (key', e'))
    none).map Prod.fst

def evictFailureLocked (F : Failures) (now : ℚ) (sample : List FailureKey) : Failures :=
  match F.victim now sample with
  | none => F
  | some key => F.erase key

/-- The loop of `AllowLogin`: idle counters are dropped on the way, and the first that blocks ends
it with the time left. -/
def allowKeys (g : Config) (now : ℚ) : List FailureKey → Failures → Failures × Option ℚ
  | [], F => (F, none)
  | key :: keys, F =>
    match F.lookup key with
    | none => allowKeys g now keys F
    | some e =>
      if e.expired g now then allowKeys g now keys (F.erase key)
      else if e.blocked now then (F, some (e.blockedUntil.getD now - now))
      else allowKeys g now keys F

def allowLogin (g : Config) (now : ℚ) (keys : List FailureKey) (F : Failures) :
    Failures × Option ℚ :=
  allowKeys g now keys (F.cleanupFailuresLocked g now)

/-- A counter after one more failure; an idle one starts again. -/
def bump (g : Config) (now : ℚ) (entry : Option FailureEntry) : FailureEntry :=
  -- Failures add up across windows: only idling for `EntryTTL` or a login resets them.
  let e := (entry.filter fun e => ¬ e.expired g now).getD ⟨0, none, now⟩
  { failures := e.failures + 1
    blockedUntil :=
      if g.loginMaxFailures ≤ e.failures + 1 then some (now + g.loginBlockDuration)
      else e.blockedUntil
    lastSeen := now }

def recordKey (g : Config) (now : ℚ) (sample : List FailureKey) (F : Failures) (key : FailureKey) :
    Failures :=
  let entry := F.lookup key
  -- Room is made only for a key that is new.
  let F := if entry.isNone ∧ F.crowded g then F.evictFailureLocked now sample else F
  F.insert key (bump g now entry)

def recordLoginFailure (g : Config) (now : ℚ) (sample : List FailureKey) (keys : List FailureKey)
    (F : Failures) : Failures :=
  keys.foldl (recordKey g now sample) (F.cleanupFailuresLocked g now)

def recordLoginSuccess (keys : List FailureKey) (F : Failures) : Failures :=
  eraseAll F keys

end Failures

/-! ## Accounts and attempts -/

/-- The text functions and the password hash of the libraries. -/
structure Primitives where
  toLower : String → String
  nfkc : String → String
  digest : String → String
  compareHashAndPassword : String → String → Bool

structure User where
  id : ℕ
  username : String
  usernameKey : Option String
  passwordHash : String
  deleted : Bool := false
  banned : Bool := false
deriving DecidableEq

/-- An attempt, with the clock as it is read by the three calls and the failures of the store. -/
structure Attempt where
  username : String
  password : String
  allowAt : ℚ
  checkAt : ℚ
  recordAt : ℚ
  findFails : Bool := false
  sessionFails : Bool := false
  sample : List FailureKey := []

inductive LoginResult where
  | usernameRequired
  | passwordRequired
  | findError
  | unknownUser
  | wrongPassword (id : ℕ)
  | sessionError (id : ℕ)
  | loggedIn (id : ℕ)
deriving DecidableEq

/-- The results that are `ErrInvalidCredentials`. -/
def LoginResult.invalidCredentials : LoginResult → Bool
  | .unknownUser | .wrongPassword _ => true
  | _ => false

inductive Answer where
  | tooManyAttempts (retryAfter : ℚ)
  | result (r : LoginResult)
deriving DecidableEq

def Answer.succeeded : Answer → Bool
  | .result (.loggedIn _) => true
  | _ => false

section Login

variable (p : Primitives) (g : Config) (users : List User) (rateKey : String)

def usernameKey (display : String) : String :=
  p.toLower (p.nfkc display)

def findExact (username : String) : Option User :=
  users.find? fun u => u.username = username ∧ u.deleted = false ∧ u.banned = false

/-- The exact name first, then its folded key. -/
def findByUsername (username : String) : Option User :=
  (findExact users username).or
    (users.find? fun u =>
      u.usernameKey = some (usernameKey p username) ∧ u.deleted = false ∧ u.banned = false)

/-- The spelling under which the guard counts a name. -/
def guardSpelling (username : String) : String :=
  p.toLower (trimSpace username)

/-- The name of the counter of that spelling. -/
def identity (username : String) : String :=
  p.digest (guardSpelling p username)

def loginFailureKeys (username : String) : List FailureKey :=
  [.ip rateKey, .pair rateKey (identity p username)]

def serviceLogin (a : Attempt) : LoginResult :=
  if trimSpace a.username = "" then .usernameRequired
  else if a.password = "" then .passwordRequired
  else if a.findFails then .findError
  else
    -- The lookup folds the name further than the guard does.
    match findByUsername p users (trimSpace a.username) with
    | none => .unknownUser
    | some user =>
      if p.compareHashAndPassword user.passwordHash a.password then
        if a.sessionFails then .sessionError user.id else .loggedIn user.id
      else .wrongPassword user.id

/-- What the handler tells the guard once the service has answered. -/
def record (a : Attempt) (F : Failures) (r : LoginResult) : Failures :=
  if r.invalidCredentials then
    F.recordLoginFailure g a.recordAt a.sample (loginFailureKeys p rateKey a.username)
  else
    match r with
    -- Both counters go, the one of the address too.
    | .loggedIn _ => F.recordLoginSuccess (loginFailureKeys p rateKey a.username)
    | _ => F

def login (F : Failures) (a : Attempt) : Failures × Answer :=
  match F.allowLogin g a.allowAt (loginFailureKeys p rateKey a.username) with
  | (F, some wait) => (F, .tooManyAttempts wait)
  | (F, none) => (record p g rateKey a F (serviceLogin p users a), .result (serviceLogin p users a))

def answers (F : Failures) : List Attempt → List (Attempt × Answer)
  | [] => []
  | a :: attempts =>
    (a, (login p g users rateKey F a).2) ::
      answers (login p g users rateKey F a).1 attempts

def tables (F : Failures) (a : Attempt) : List Failures :=
  match F.allowLogin g a.allowAt (loginFailureKeys p rateKey a.username) with
  | (F', some _) => [F, F']
  | (F', none) =>
    if (serviceLogin p users a).invalidCredentials then
      F :: (loginFailureKeys p rateKey a.username).scanl
        (Failures.recordKey g a.recordAt a.sample) F'
    else [F, F']

/-- No attempt of the run meets or leaves a table that has reached `MaxRateEntries`. -/
def NeverCrowded (F : Failures) : List Attempt → Prop
  | [] => True
  | a :: attempts =>
    (∀ T ∈ tables p g users rateKey F a, T.crowded g = false) ∧
      NeverCrowded (login p g users rateKey F a).1 attempts

instance decidableNeverCrowded : (F : Failures) → (attempts : List Attempt) →
    Decidable (NeverCrowded p g users rateKey F attempts)
  | _, [] => .isTrue trivial
  | F, a :: attempts =>
    have := decidableNeverCrowded (login p g users rateKey F a).1 attempts
    inferInstanceAs (Decidable ((∀ T ∈ tables p g users rateKey F a, T.crowded g = false) ∧
      NeverCrowded p g users rateKey (login p g users rateKey F a).1 attempts))

/-- Attempts one after the other, each with its three calls in order. -/
def Consecutive (attempts : List Attempt) : Prop :=
  (∀ a ∈ attempts, a.allowAt ≤ a.checkAt ∧ a.checkAt ≤ a.recordAt) ∧
    attempts.Pairwise fun a b => a.recordAt ≤ b.allowAt
deriving Decidable

end Login

/-! ## What the calls do to one counter -/

namespace Failures

variable {g : Config} {now : ℚ} {keys sample : List FailureKey} {F : Failures} {K : FailureKey}

theorem cleanupFailuresLocked_of_room (h : F.crowded g = false) :
    F.cleanupFailuresLocked g now = F := by
  simp [cleanupFailuresLocked, h]

theorem lookup_allowKeys (keys : List FailureKey) (F : Failures) :
    (allowKeys g now keys F).1.lookup K = F.lookup K ∨
      ∃ e, F.lookup K = some e ∧ e.expired g now := by
  induction keys generalizing F with
  | nil => exact .inl rfl
  | cons key keys ih =>
    unfold allowKeys
    split
    · exact ih F
    · next e he =>
      split
      · next hexpired =>
        by_cases hK : K = key
        · subst hK
          exact .inr ⟨e, he, hexpired⟩
        · have hne : (F.erase key).lookup K = F.lookup K := AList.lookup_erase_ne hK
          have hrest := ih (F.erase key)
          rwa [hne] at hrest
      · split
        · exact .inl rfl
        · exact ih F

theorem not_blocked_of_allowKeys (keys : List FailureKey) (F : Failures)
    (h : (allowKeys g now keys F).2 = none) (hK : K ∈ keys) {e : FailureEntry}
    (he : F.lookup K = some e) : e.blocked now = false := by
  induction keys generalizing F with
  | nil => cases hK
  | cons key keys ih =>
    unfold allowKeys at h
    by_cases hkey : K = key
    · subst hkey
      simp only [he] at h
      split at h
      · next hexpired => exact (of_decide_eq_true hexpired).2
      · split at h
        · cases h
        · next hfree => exact Bool.eq_false_of_not_eq_true hfree
    · have hmem : K ∈ keys := (mem_cons.mp hK).resolve_left hkey
      split at h
      · exact ih F h hmem he
      · split at h
        · exact ih (F.erase key) h hmem ((AList.lookup_erase_ne hkey).trans he)
        · split at h
          · cases h
          · exact ih F h hmem he

theorem lookup_recordKey (h : F.crowded g = false) (key : FailureKey) :
    (recordKey g now sample F key).lookup K =
      if K = key then some (bump g now (F.lookup K)) else F.lookup K := by
  unfold recordKey
  simp only [h, Bool.false_eq_true, and_false, if_false]
  rw [lookup_insert_eq_ite]
  split
  · next hK => rw [hK]
  · rfl

theorem lookup_foldl_recordKey (keys : List FailureKey) (F : Failures) (hnodup : keys.Nodup)
    (hroom : ∀ T ∈ keys.scanl (recordKey g now sample) F, T.crowded g = false) :
    (keys.foldl (recordKey g now sample) F).lookup K =
      if K ∈ keys then some (bump g now (F.lookup K)) else F.lookup K := by
  induction keys generalizing F with
  | nil => rfl
  | cons key keys ih =>
    obtain ⟨hkey, hnodup⟩ := nodup_cons.mp hnodup
    rw [scanl_cons] at hroom
    have hF : F.crowded g = false := hroom F (by simp)
    have hrest := ih (recordKey g now sample F key) hnodup
      fun T hT => hroom T (mem_cons_of_mem _ hT)
    rw [foldl_cons, hrest, lookup_recordKey hF]
    by_cases hK : K = key
    · subst hK
      simp [hkey]
    · simp [hK]

end Failures

/-! ## A counter over a window -/

/-- The password check falls in the window of length `LoginBlockDuration` from `w`. -/
def Attempt.inWindow (g : Config) (w : ℚ) (a : Attempt) : Prop :=
  w ≤ a.checkAt ∧ a.checkAt < w + g.loginBlockDuration
deriving Decidable

/-- **The counter keeps up with the window**: as long as the window lasts, a counter through which
`n` failed checks of it went stands at `n` or more, and blocks to its end once that is
`LoginMaxFailures`. -/
def Counted (g : Config) (w : ℚ) (K : FailureKey) (F : Failures) (n : ℕ) (t : ℚ) : Prop :=
  n = 0 ∨ w + g.loginBlockDuration ≤ t ∨
    w ≤ t ∧ ∃ e, F.lookup K = some e ∧ w ≤ e.lastSeen ∧ n ≤ e.failures ∧
      (g.loginMaxFailures ≤ n → ∃ u ∈ e.blockedUntil, w + g.loginBlockDuration ≤ u)

namespace Counted

variable {p : Primitives} {g : Config} {users : List User} {rateKey : String} {w t now : ℚ}
  {K : FailureKey} {F F' : Failures} {n : ℕ} {keys : List FailureKey}

theorem of_succ (h : Counted g w K F (n + 1) t) : Counted g w K F n t := by
  rcases h with h | h | ⟨hw, e, he, hseen, hn, hblocked⟩
  · cases h
  · exact .inr (.inl h)
  · exact .inr (.inr ⟨hw, e, he, hseen, by omega, fun hmax => hblocked (by omega)⟩)

theorem later (h : Counted g w K F n t) (ht : t ≤ now) (hsame : F'.lookup K = F.lookup K) :
    Counted g w K F' n now := by
  rcases h with h | h | ⟨hw, e, he, hrest⟩
  · exact .inl h
  · exact .inr (.inl (h.trans ht))
  · exact .inr (.inr ⟨hw.trans ht, e, hsame.trans he, hrest⟩)

theorem lt_of_allowed (h : Counted g w K F n t) (ht : t ≤ now)
    (hlt : now < w + g.loginBlockDuration) (hpos : 0 < g.loginMaxFailures)
    (hroom : F.crowded g = false) (hallow : (F.allowLogin g now keys).2 = none) (hK : K ∈ keys) :
    n < g.loginMaxFailures := by
  rw [Failures.allowLogin, Failures.cleanupFailuresLocked_of_room hroom] at hallow
  rcases h with h | h | ⟨-, e, he, -, -, hblocked⟩
  · omega
  · exact absurd (h.trans ht) (not_le.mpr hlt)
  · by_contra hmax
    obtain ⟨u, hu, hlate⟩ := hblocked (not_lt.mp hmax)
    have hfree := Failures.not_blocked_of_allowKeys keys F hallow hK he
    rw [FailureEntry.blocked, Option.mem_def.mp hu, Option.any_some, decide_eq_false_iff_not,
      not_lt] at hfree
    linarith

variable (httl : g.loginBlockDuration ≤ g.entryTTL)
include httl

theorem not_expired {e : FailureEntry} (hseen : w ≤ e.lastSeen)
    (hlt : now < w + g.loginBlockDuration) : e.expired g now = false := by
  refine decide_eq_false fun hexpired => ?_
  have hidle := hexpired.1
  linarith

theorem allow (h : Counted g w K F n t) (keys : List FailureKey) (ht : t ≤ now)
    (hlt : now < w + g.loginBlockDuration) (hroom : F.crowded g = false) :
    Counted g w K (F.allowLogin g now keys).1 n now := by
  rw [Failures.allowLogin, Failures.cleanupFailuresLocked_of_room hroom]
  rcases Failures.lookup_allowKeys (g := g) (K := K) keys F with hsame | ⟨e, he, hexpired⟩
  · exact h.later ht hsame
  · rcases h with h | h | ⟨-, e', he', hseen, -⟩
    · exact .inl h
    · exact absurd (h.trans ht) (not_le.mpr hlt)
    · rw [he, Option.some_inj] at he'
      rw [he', not_expired httl hseen hlt] at hexpired
      cases hexpired

theorem bump (h : Counted g w K F n t) (ht : t ≤ now) (hw : w ≤ now)
    (hlt : now < w + g.loginBlockDuration)
    (hbump : F'.lookup K = some (Failures.bump g now (F.lookup K))) :
    Counted g w K F' (n + 1) now := by
  -- what the counter stood at before is at least what went through it
  have hbase :
    n ≤ (((F.lookup K).filter fun e => ¬ e.expired g now).getD ⟨0, none, now⟩).failures := by
    rcases h with h | h | ⟨-, e, he, hseen, hn, -⟩
    · exact h.le.trans (Nat.zero_le _)
    · exact absurd (h.trans ht) (not_le.mpr hlt)
    · have hkeep := not_expired httl hseen hlt
      simpa [he, Option.filter, hkeep] using hn
  refine .inr (.inr ⟨hw, _, hbump, hw, Nat.succ_le_succ hbase, fun hmax => ?_⟩)
  have hreached := hmax.trans (Nat.succ_le_succ hbase)
  refine ⟨now + g.loginBlockDuration, ?_, by linarith⟩
  simp only [Failures.bump, Option.mem_def]
  exact if_pos hreached

end Counted

/-! ## One attempt -/

section Attempt

variable {p : Primitives} {g : Config} {users : List User} {rateKey : String} {w t : ℚ}
  {K : FailureKey} {F : Failures} {n : ℕ} {a : Attempt} {A : ℕ}
  {F' : Failures} {r : LoginResult}

theorem lookup_record_invalid (hr : r.invalidCredentials)
    (hroom : ∀ T ∈ (loginFailureKeys p rateKey a.username).scanl
      (Failures.recordKey g a.recordAt a.sample) F', T.crowded g = false) :
    (record p g rateKey a F' r).lookup K = if K ∈ loginFailureKeys p rateKey a.username then
        some (Failures.bump g a.recordAt (F'.lookup K)) else F'.lookup K := by
  have hF' : F'.crowded g = false := hroom F' (by simp [loginFailureKeys])
  unfold record
  rw [if_pos hr, Failures.recordLoginFailure, Failures.cleanupFailuresLocked_of_room hF']
  exact Failures.lookup_foldl_recordKey _ _ (by simp [loginFailureKeys]) hroom

theorem lookup_record_valid (hr : r.invalidCredentials = false)
    (hlogin : ∀ id, r = .loggedIn id → K ∉ loginFailureKeys p rateKey a.username) :
    (record p g rateKey a F' r).lookup K = F'.lookup K := by
  cases r with
  | loggedIn id =>
    simp [record, hr, Failures.recordLoginSuccess, lookup_eraseAll, hlogin id rfl]
  | unknownUser | wrongPassword id => cases hr
  | _ => rfl

/-- The attempt is a failed check of the account's password within the window. -/
def failedIn (g : Config) (w : ℚ) (A : ℕ) (x : Attempt × Answer) : Bool :=
  x.1.inWindow g w ∧ x.2 = .result (.wrongPassword A)

/-- The counter sees all of the account's failed checks in the window, and none of its logins clears
it. -/
def Covers (g : Config) (p : Primitives) (rateKey : String) (w : ℚ) (A : ℕ) (K : FailureKey)
    (x : Attempt × Answer) : Prop :=
  x.1.inWindow g w →
    (x.2 = .result (.wrongPassword A) → K ∈ loginFailureKeys p rateKey x.1.username) ∧
    (x.2.succeeded → K ∉ loginFailureKeys p rateKey x.1.username)

theorem Counted.before (h : Counted g w K F n t) (htw : t < w)
    (ht : t < w + g.loginBlockDuration) : n = 0 := by
  rcases h with h | h | ⟨hw, -⟩
  · exact h
  · exact absurd h (not_le.mpr ht)
  · exact absurd hw (not_le.mpr htw)

variable (httl : g.loginBlockDuration ≤ g.entryTTL)
include httl

theorem Counted.record (h : Counted g w K F' n a.allowAt) (hcheck : a.allowAt ≤ a.checkAt)
    (hrecord : a.checkAt ≤ a.recordAt) (hlt : a.recordAt < w + g.loginBlockDuration)
    (hroom : r.invalidCredentials → ∀ T ∈ (loginFailureKeys p rateKey a.username).scanl
      (Failures.recordKey g a.recordAt a.sample) F', T.crowded g = false)
    (hcovers : Covers g p rateKey w A K (a, .result r)) : Counted g w K (record p g rateKey a F' r)
      (if failedIn g w A (a, .result r) then n + 1 else n) a.recordAt := by
  have hle : a.allowAt ≤ a.recordAt := hcheck.trans hrecord
  by_cases hr : r.invalidCredentials
  · have hlookup := lookup_record_invalid (K := K) hr (hroom hr)
    by_cases hK : K ∈ loginFailureKeys p rateKey a.username
    · rw [if_pos hK] at hlookup
      split
      · next hfailed =>
        have hw := (of_decide_eq_true hfailed).1.1.trans hrecord
        exact h.bump httl hle hw hlt hlookup
      -- a failure for another account, or a check just before the window, still counts on the
      -- address
      · rcases le_or_gt w a.recordAt with hw | hw
        · exact (h.bump httl hle hw hlt hlookup).of_succ
        · exact .inl (h.before (hle.trans_lt hw) (hle.trans_lt hlt))
    · rw [if_neg hK] at hlookup
      rw [if_neg fun hfailed => hK ?_]
      · exact h.later hle hlookup
      · obtain ⟨hin, hresult⟩ := of_decide_eq_true hfailed
        exact (hcovers hin).1 hresult
  · rw [Bool.not_eq_true] at hr
    have hnot : ¬ failedIn g w A (a, .result r) := by
      intro hfailed
      have hresult := (of_decide_eq_true hfailed).2
      simp only [Answer.result.injEq] at hresult
      rw [hresult] at hr
      cases hr
    rw [if_neg hnot]
    -- a login through the counter is outside the window, hence before it
    by_cases hclear : ∃ id, r = .loggedIn id ∧ K ∈ loginFailureKeys p rateKey a.username
    · obtain ⟨id, hid, hK⟩ := hclear
      have hout : a.checkAt < w := by
        by_contra hw
        exact (hcovers ⟨not_lt.mp hw, hrecord.trans_lt hlt⟩).2 (hid ▸ rfl) hK
      exact .inl (h.before (hcheck.trans_lt hout) (hle.trans_lt hlt))
    · refine h.later hle (lookup_record_valid hr fun id hid hK => hclear ⟨id, hid, hK⟩)

theorem Counted.login (h : Counted g w K F n t) (hn : n ≤ g.loginMaxFailures)
    (hpos : 0 < g.loginMaxFailures)
    (ht : t ≤ a.allowAt) (hcheck : a.allowAt ≤ a.checkAt) (hrecord : a.checkAt ≤ a.recordAt)
    (hroom : ∀ T ∈ tables p g users rateKey F a, T.crowded g = false)
    (hcovers : Covers g p rateKey w A K (a, (login p g users rateKey F a).2)) :
    (if failedIn g w A (a, (login p g users rateKey F a).2) then n + 1 else n) ≤
    g.loginMaxFailures ∧
      Counted g w K (login p g users rateKey F a).1
        (if failedIn g w A (a, (login p g users rateKey F a).2) then n + 1 else n) a.recordAt := by
  unfold tables at hroom
  unfold Antiabuse.login at hcovers ⊢
  rcases hallow :
    F.allowLogin g a.allowAt (loginFailureKeys p rateKey a.username) with ⟨F', _ | wait⟩
  · simp only [hallow] at hroom hcovers ⊢
    have hF : F.crowded g = false := hroom F (by split <;> exact mem_cons_self)
    constructor
    · split
      · next hfailed =>
        obtain ⟨hin, hresult⟩ := of_decide_eq_true hfailed
        exact h.lt_of_allowed ht (hcheck.trans_lt hin.2) hpos hF (by rw [hallow])
          ((hcovers hin).1 hresult)
      · exact hn
    · rcases le_or_gt (w + g.loginBlockDuration) a.recordAt with hover | hlt
      · exact .inr (.inl hover)
      · have hallowed := h.allow httl (loginFailureKeys p rateKey a.username) ht
          ((hcheck.trans hrecord).trans_lt hlt) hF
        rw [hallow] at hallowed
        refine hallowed.record httl hcheck hrecord hlt (fun hr T hT => hroom T ?_) hcovers
        rw [if_pos hr]
        exact mem_cons_of_mem _ hT
  · simp only [hallow] at hroom ⊢
    rw [if_neg fun hfailed => nomatch (of_decide_eq_true hfailed).2]
    refine ⟨hn, ?_⟩
    rcases le_or_gt (w + g.loginBlockDuration) a.allowAt with hover | hlt
    · exact .inr (.inl (hover.trans (hcheck.trans hrecord)))
    · have hallowed := h.allow httl (loginFailureKeys p rateKey a.username) ht hlt
        (hroom F mem_cons_self)
      rw [hallow] at hallowed
      exact hallowed.later (hcheck.trans hrecord) rfl

theorem countP_failedIn_le (attempts : List Attempt) (hpos : 0 < g.loginMaxFailures)
    (h : Counted g w K F n t) (hn : n ≤ g.loginMaxFailures) (hconsecutive : Consecutive attempts)
    (ht : ∀ a ∈ attempts, t ≤ a.allowAt) (hroom : NeverCrowded p g users rateKey F attempts)
    (hcovers : ∀ x ∈ answers p g users rateKey F attempts, Covers g p rateKey w A K x) :
    n + (answers p g users rateKey F attempts).countP (failedIn g w A) ≤ g.loginMaxFailures := by
  induction attempts generalizing F n t with
  | nil => exact hn
  | cons a attempts ih =>
    obtain ⟨hclock, hpairs⟩ := hconsecutive
    obtain ⟨hafter, hpairs⟩ := pairwise_cons.mp hpairs
    obtain ⟨hclocka, hclock⟩ := forall_mem_cons.mp hclock
    obtain ⟨hcoversa, hcovers⟩ := forall_mem_cons.mp hcovers
    obtain ⟨hn', h'⟩ := h.login httl hn hpos (ht a mem_cons_self) hclocka.1 hclocka.2 hroom.1
      hcoversa
    have hrest := ih h' hn' ⟨hclock, hpairs⟩ hafter hroom.2 hcovers
    rw [answers, countP_cons]
    split at hrest
    · next hfailed => rw [if_pos hfailed]; omega
    · next hfailed => rw [if_neg hfailed]; omega

end Attempt

/-! ## Guesses in a window -/

/-- **Guesses are bounded, counter by counter.** From an empty table that never fills up, over
consecutive attempts from one address: a window of length `LoginBlockDuration` holds at most
`LoginMaxFailures` failed checks of an account's password, if no login at all succeeded in it, or if
all those checks gave a name that the guard counts as one and no login succeeded in it under that
name. -/
theorem guesses_bounded (p : Primitives) (g : Config) (users : List User) (rateKey : String)
    (hpos : 0 < g.loginMaxFailures) (httl : g.loginBlockDuration ≤ g.entryTTL)
    (attempts : List Attempt) (hconsecutive : Consecutive attempts)
    (hroom : NeverCrowded p g users rateKey ∅ attempts) (w : ℚ) (A : ℕ)
    (hcounter : (∀ x ∈ answers p g users rateKey ∅ attempts, x.1.inWindow g w →
        x.2.succeeded = false) ∨
      ∃ name, ∀ x ∈ answers p g users rateKey ∅ attempts, x.1.inWindow g w →
        (x.2 = .result (.wrongPassword A) → identity p x.1.username = name) ∧
        (x.2.succeeded → identity p x.1.username ≠ name)) :
    (answers p g users rateKey ∅ attempts).countP (failedIn g w A) ≤ g.loginMaxFailures := by
  obtain ⟨K, hcovers⟩ : ∃ K, ∀ x ∈ answers p g users rateKey ∅ attempts,
      Covers g p rateKey w A K x := by
    rcases hcounter with hnone | ⟨name, hname⟩
    -- with no login at all the address's counter sees everything; otherwise the name's own does
    · refine ⟨.ip rateKey, fun x hx hin => ⟨fun _ => mem_cons_self, fun hlogin => ?_⟩⟩
      rw [hnone x hx hin] at hlogin
      cases hlogin
    · refine ⟨.pair rateKey name, fun x hx hin => ⟨fun hwrong => ?_, fun hlogin => ?_⟩⟩
      · simp [loginFailureKeys, (hname x hx hin).1 hwrong]
      · simpa [loginFailureKeys] using ((hname x hx hin).2 hlogin).symm
  obtain ⟨t, ht⟩ : ∃ t, ∀ a ∈ attempts, t ≤ a.allowAt := by
    cases attempts with
    | nil => exact ⟨0, fun _ ha => absurd ha not_mem_nil⟩
    | cons a attempts =>
      refine ⟨a.allowAt, forall_mem_cons.mpr ⟨le_rfl, fun b hb => ?_⟩⟩
      have hclock := hconsecutive.1 a mem_cons_self
      exact (hclock.1.trans hclock.2).trans ((pairwise_cons.mp hconsecutive.2).1 b hb)
  have hbound := countP_failedIn_le httl attempts hpos (.inl rfl : Counted g w K ∅ 0 t)
    (Nat.zero_le _) hconsecutive ht hroom hcovers
  rwa [Nat.zero_add] at hbound

/-! ## Two spellings of one name -/

/-- The library functions on the names below: the first letter of the last one is a full-width `a`,
which is its own lower case and folds to the plain one. -/
def plainText : Primitives where
  toLower := id
  nfkc := fun name => if name = "ａlice" then "alice" else name
  digest := id
  compareHashAndPassword := fun hash password => hash = password

def alice : User := ⟨1, "alice", some "alice", "correct horse", false, false⟩
def bob : User := ⟨2, "bob", some "bob", "battery staple", false, false⟩

def attempt (username password : String) (now : ℚ) : Attempt where
  username := username
  password := password
  allowAt := now
  checkAt := now
  recordAt := now

theorem guesses_bounded_at_five : (answers plainText defaultConfig [alice, bob] "203.0.113.7" ∅
      ((List.range 8).map fun i => attempt "alice" "guess" i)).countP
        (failedIn defaultConfig 0 1) ≤ 5 :=
  guesses_bounded plainText defaultConfig [alice, bob] "203.0.113.7" (by decide)
    (by norm_num [defaultConfig]) ((List.range 8).map fun i => attempt "alice" "guess" i)
    (by decide +kernel) (by decide +kernel) 0 1 (.inl (by decide +kernel))

def spellings : List Attempt :=
  [attempt "alice" "guess" 0, attempt "alice" "guess" 1, attempt "alice" "guess" 2,
    attempt "alice" "guess" 3, attempt "bob" "battery staple" 4, attempt "ａlice" "guess" 5,
    attempt "ａlice" "guess" 6]

/-- **Six guesses where five are allowed.** Four under the plain name, a login to another account
that clears the counter of the address, and two under the other spelling, all within seconds. -/
theorem sixth_guess : 0 < defaultConfig.loginMaxFailures ∧
      defaultConfig.loginBlockDuration ≤ defaultConfig.entryTTL ∧ Consecutive spellings ∧
      NeverCrowded plainText defaultConfig [alice, bob] "203.0.113.7" ∅ spellings ∧
      (∀ x ∈ answers plainText defaultConfig [alice, bob] "203.0.113.7" ∅ spellings,
        x.2 ≠ .result (.loggedIn 1)) ∧
      defaultConfig.loginMaxFailures <
        (answers plainText defaultConfig [alice, bob] "203.0.113.7" ∅ spellings).countP
          (failedIn defaultConfig 0 1) := by
  decide +kernel

end Voxhold.Antiabuse
