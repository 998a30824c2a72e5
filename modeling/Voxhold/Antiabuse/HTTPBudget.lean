/-
# Voxhold.Antiabuse.HTTPBudget — the general HTTP limit

`ProtectHTTP` serves a request when all limiters it asks allow it. With a bearer token it asks the
token's limiter and that of the address with an enlarged budget; without, that of the address with
the plain one. Both ask under the same key: **the request that makes the limiter decides for the
other kind**.
-/

import Voxhold.Antiabuse.Limiters

namespace Voxhold.Antiabuse

open Voxhold.Lib List LimiterStore

/-! ## Requests and the limits they meet -/

inductive Method where
  | get | head | options | post | put | delete | other
deriving DecidableEq

/-- The paths the guard tells apart; the call signal carries the number its path is parsed to. -/
inductive Path where
  | conversationCallSignal (id : ℤ)
  | mePassword
  | account
  | login
  | register
  | refresh
  | inviteResolve
  | ws
  | other
deriving DecidableEq

inductive LimiterKey where
  | callSignal (rateIP : String)
  | token (tokenKey : String)
  | all (rateIP : String)
  | write (rateIP : String)
  | auth (rateIP : String)
  | invite (rateIP : String)
  | ws (rateIP : String)
deriving DecidableEq

/-- A request, with the key its address is limited by, the key of its bearer token, and the clock as
it is read when a limiter is asked. -/
structure Request where
  rateIP : String
  bearerKey : Option String
  method : Method
  path : Path
  clock : LimiterKey → ℚ
  sample : List LimiterKey := []

/-- A question to the table, and the seconds a refusal tells the client to wait. -/
structure Check where
  call : Call LimiterKey
  retryAfter : ℕ

def perSecond (requests burst : ℕ) : Limit ℚ :=
  ⟨requests, burst, Nat.cast_nonneg _⟩

def perMinute (requests burst : ℕ) : Limit ℚ :=
  ⟨requests / 60, burst, by positivity⟩

def conversationCallSignal (r : Request) : Bool :=
  match r.method, r.path with
  | .post, .conversationCallSignal id => 0 < id
  | _, _ => false

namespace Request

variable (g : Config) (r : Request)

def check (key : LimiterKey) (limit : Limit ℚ) (retryAfter : ℕ) : Check :=
  ⟨⟨key, limit, r.clock key, r.sample⟩, retryAfter⟩

def ipMultiplier : ℕ :=
  match r.bearerKey with
  | none => 1
  | some _ => max 1 g.ipMultiplier

def tokenChecks : List Check :=
  match r.bearerKey with
  | none => []
  | some tokenKey => [r.check (.token tokenKey) (perSecond g.httpRequestsPerSecond g.httpBurst) 1]

/-- The limit a request brings to the limiter of its address. -/
def generalLimit : Limit ℚ :=
  perSecond (g.httpRequestsPerSecond * r.ipMultiplier g) (g.httpBurst * r.ipMultiplier g)

def writeChecks : List Check :=
  if r.method ≠ .get ∧ r.method ≠ .head ∧ r.method ≠ .options then
    [r.check (.write r.rateIP) (perSecond g.httpWritesPerSecond g.httpWriteBurst) 1]
  else []

def routeChecks : List Check :=
  match r.method, r.path with
  | .put, .mePassword | .delete, .account | .post, .login | .post, .register | .post, .refresh =>
    [r.check (.auth r.rateIP) (perMinute g.authRequestsPerMinute g.authBurst) 6]
  | .post, .inviteResolve =>
    [r.check (.invite r.rateIP) (perMinute g.inviteRequestsPerMinute g.inviteBurst) 3]
  | .get, .ws =>
    [r.check (.ws r.rateIP) (perMinute g.webSocketConnectsPerMinute g.webSocketConnectBurst) 6]
  | _, _ => []

/-- The limiters `ProtectHTTP` asks for a request, in order. -/
def checks : List Check :=
  if conversationCallSignal r then
    -- Call signals have a budget of their own and meet no other limit.
    [r.check (.callSignal r.rateIP) (perSecond g.callSignalsPerSecond g.callSignalBurst) 1]
  else
    -- The key of the address is the same with and without a token.
    r.tokenChecks g ++ r.check (.all r.rateIP) (r.generalLimit g) 1 ::
      (r.writeChecks g ++ r.routeChecks g)

end Request

/-! ## The guard -/

/-- One question put to the table: what was found (a full table; no entry, so that the question made
one) and what was answered. -/
structure Visit where
  request : Request
  check : Check
  full : Bool
  made : Bool
  allowed : Bool

/-- The limiters of the guard, and all questions put to them, the latest first. -/
structure Guard where
  limiters : LimiterStore LimiterKey
  log : List Visit

namespace Guard

def new (g : Config) : Guard :=
  ⟨.new g.entryTTL g.maxRateEntries, []⟩

def visit (st : Guard) (r : Request) (c : Check) : Guard where
  limiters := (st.limiters.allow c.call).2
  log :=
    { request := r
      check := c
      full := st.limiters.full
      made := ((st.limiters.swept c.call.now).entries.lookup c.call.key).isNone
      allowed := (st.limiters.allow c.call).1 } :: st.log

/-- Asks the limiters one after the other; the first refusal ends the request. -/
def serve (st : Guard) (r : Request) : List Check → Guard × Option ℕ
  | [] => (st, none)
  | c :: cs =>
    if (st.limiters.allow c.call).1 then (st.visit r c).serve r cs
    else (st.visit r c, some c.retryAfter)

/-- Handles a request: served (`none`), or refused with the time to wait. -/
def protectHTTP (g : Config) (st : Guard) (r : Request) : Guard × Option ℕ :=
  st.serve r (r.checks g)

def run (g : Config) (requests : List Request) : Guard :=
  requests.foldl (fun st r => (protectHTTP g st r).1) (new g)

theorem run_induction {P : Guard → Prop} {g : Config} (requests : List Request) (hnew : P (new g))
    (hvisit : ∀ st r c, c ∈ r.checks g → P st → P (st.visit r c)) : P (run g requests) := by
  have hserve : ∀ (r : Request) (cs : List Check) (st : Guard), cs ⊆ r.checks g → P st →
      P (st.serve r cs).1 := by
    intro r cs
    induction cs with
    | nil => exact fun st _ hst => hst
    | cons c cs ih =>
      intro st hsub hst
      obtain ⟨hc, hsub⟩ := cons_subset.mp hsub
      unfold serve
      split
      · exact ih _ hsub (hvisit st r c hc hst)
      · exact hvisit st r c hc hst
  unfold run
  generalize new g = st at hnew
  induction requests generalizing st with
  | nil => exact hnew
  | cons r requests ih => exact ih _ (hserve r _ st (List.Subset.refl _) hnew)

end Guard

namespace Visit

def now (v : Visit) : ℚ := v.check.call.now

def general (ip : String) (v : Visit) : Prop :=
  v.check.call.key = .all ip
deriving Decidable

end Visit

def passed (ip : String) (log : List Visit) : List ℚ :=
  (log.filter fun v => v.allowed ∧ v.general ip).map Visit.now

def passedAnonymous (ip : String) (log : List Visit) : List ℚ :=
  (log.filter fun v => v.allowed ∧ v.general ip ∧ v.request.bearerKey = none).map Visit.now

/-! ## What the log says about the table -/

/-- No question met a full table, and the clock did not go back between two of them. -/
structure Orderly (log : List Visit) : Prop where
  room : ∀ v ∈ log, v.full = false
  clock : log.Pairwise fun v w => w.now ≤ v.now

instance (log : List Visit) : Decidable (Orderly log) :=
  decidable_of_iff ((∀ v ∈ log, v.full = false) ∧ log.Pairwise fun v w => w.now ≤ v.now)
    ⟨fun h => ⟨h.1, h.2⟩, fun h => ⟨h.room, h.clock⟩⟩

/-- Whenever the general limiter of the address was made, it was made with this limit. -/
def MadeGeneral (ip : String) (l : Limit ℚ) (log : List Visit) : Prop :=
  ∀ v ∈ log, v.general ip → v.made → v.check.call.limit = l

variable {g : Config} {r : Request} {ip : String} {l : Limit ℚ} {st : Guard}

theorem passed_le {log : List Visit} {t : ℚ} (h : ∀ v ∈ log, v.now ≤ t) :
    ∀ u ∈ passed ip log, u ≤ t := by
  intro u hu
  obtain ⟨v, hv, rfl⟩ := mem_map.mp hu
  exact h v (mem_of_mem_filter hv)

theorem passed_visit (r : Request) (c : Check) :
    passed ip (st.visit r c).log = st.limiters.logged (.all ip) c.call (passed ip st.log) := by
  by_cases hpass : (st.limiters.allow c.call).1 ∧ c.call.key = .all ip
  · simp [passed, Guard.visit, logged, Visit.general, Visit.now, hpass]
  · simp [passed, Guard.visit, logged, Visit.general, hpass]

/-- **The table agrees with the log.** From the last question on, the tokens of an address are
accounted for by the requests that passed. -/
structure Accounts (g : Config) (ip : String) (l : Limit ℚ) (st : Guard) : Prop where
  ttl : st.limiters.ttl = g.entryTTL
  keeps : ∀ t, (∀ v ∈ st.log, v.now ≤ t) → st.limiters.Keeps (.all ip) l t
  owed : ∀ t, (∀ v ∈ st.log, v.now ≤ t) →
    Owed l (passed ip st.log) t (st.limiters.levelOf (.all ip) l t)
  spent : (l.burst : ℚ) ≤ l.rate * g.entryTTL → ∀ t, (∀ v ∈ st.log, v.now ≤ t) →
    Spent l (passed ip st.log) t (st.limiters.levelOf (.all ip) l t)
  refused : ∀ v earlier, v :: earlier <:+ st.log → v.general ip → v.allowed = false →
    ∃ T, 0 ≤ T ∧ l.burst + l.rate * T - 1 < admitted (passed ip earlier) (v.now - T) v.now

theorem Accounts.new : Accounts g ip l (Guard.new g) where
  ttl := rfl
  keeps := fun _ _ => keeps_new
  owed := fun _ _ => Owed.full
  spent := fun _ _ _ => Spent.nil le_rfl
  refused := fun _ _ hsuffix => absurd (suffix_nil.mp hsuffix) (cons_ne_nil _ _)

theorem Accounts.visit (h : Accounts g ip l st) (r : Request) (c : Check)
    (horderly : Orderly (st.visit r c).log) (hmade : MadeGeneral ip l (st.visit r c).log) :
    Accounts g ip l (st.visit r c) := by
  have hroom : st.limiters.full = false := horderly.room _ mem_cons_self
  have hpast : ∀ v ∈ st.log, v.now ≤ c.call.now := (pairwise_cons.mp horderly.clock).1
  have hwith : c.call.key = .all ip → (st.limiters.swept c.call.now).MadeWith c.call l := by
    intro hkey hnone
    exact hmade _ mem_cons_self hkey (by simp [hnone])
  have hkeeps := h.keeps _ hpast
  have hkeeps' := hkeeps.allow le_rfl hroom hwith
  have hall {t : ℚ} (ht : ∀ v ∈ (st.visit r c).log, v.now ≤ t) : c.call.now ≤ t :=
    ht _ mem_cons_self
  refine ⟨(ttl_allow hroom).trans h.ttl, fun t ht => hkeeps'.mono (hall ht), ?_, ?_, ?_⟩
  · intro t ht
    have howed := level_allow (P := fun log held => Owed _ log c.call.now held) hroom hwith
      (owed_swept hkeeps (h.owed _ hpast) (passed_le hpast) le_rfl) fun _ h _ => h.take
    rw [← passed_visit r c] at howed
    have hlater := levelOf_later hkeeps' (hall ht)
    rw [show (st.visit r c).limiters = (st.limiters.allow c.call).2 from rfl, hlater]
    refine howed.wait (passed_le fun v hv => ?_) (hall ht)
    rcases mem_cons.mp hv with rfl | hv
    · exact le_rfl
    · exact hpast v hv
  · intro hburst t ht
    have hspent := spent_allow hkeeps (h.spent hburst _ hpast) le_rfl hroom
      (h.ttl ▸ hburst) hwith
    rw [← passed_visit r c] at hspent
    have hlater := levelOf_later hkeeps' (hall ht)
    rw [show (st.visit r c).limiters = (st.limiters.allow c.call).2 from rfl, hlater]
    exact hspent.wait (hall ht)
  · intro v earlier hsuffix hgeneral hrefused
    rcases suffix_cons_iff.mp hsuffix with heq | hsuffix
    · obtain ⟨rfl, rfl⟩ := cons_eq_cons.mp heq
      have hkey : c.call.key = .all ip := hgeneral
      refine exhausted_of_refused (hkey ▸ hkeeps) ?_ (passed_le hpast) le_rfl hroom
        (hwith hkey) hrefused
      exact hkey ▸ h.owed _ hpast
    · exact h.refused v earlier hsuffix hgeneral hrefused

theorem accounts_run (requests : List Request) (horderly : Orderly (Guard.run g requests).log)
    (hmade : MadeGeneral ip l (Guard.run g requests).log) :
    Accounts g ip l (Guard.run g requests) := by
  have hrun : Orderly (Guard.run g requests).log → MadeGeneral ip l (Guard.run g requests).log →
      Accounts g ip l (Guard.run g requests) := by
    refine Guard.run_induction
      (P := fun st => Orderly st.log → MadeGeneral ip l st.log → Accounts g ip l st) requests
      (fun _ _ => Accounts.new) ?_
    intro st r c _ ih horderly hmade
    have hst := ih ⟨fun v hv => horderly.room v (mem_cons_of_mem _ hv),
      (pairwise_cons.mp horderly.clock).2⟩ fun v hv => hmade v (mem_cons_of_mem _ hv)
    exact hst.visit r c horderly hmade
  exact hrun horderly hmade

/-! ## Which limit an address was given -/

theorem key_ne_of_writeChecks {c : Check} (hc : c ∈ r.writeChecks g ++ r.routeChecks g) :
    c.call.key ≠ .all ip := by
  rcases mem_append.mp hc with hc | hc
  · unfold Request.writeChecks at hc
    split at hc
    · rw [mem_singleton.mp hc]
      exact nofun
    · cases hc
  · unfold Request.routeChecks at hc
    split at hc
    all_goals first
      | (rw [mem_singleton.mp hc]; exact nofun)
      | cases hc

theorem limit_of_general {c : Check} (hc : c ∈ r.checks g)
    (hkey : c.call.key = .all ip) : c.call.limit = r.generalLimit g := by
  unfold Request.checks at hc
  split at hc
  · rw [mem_singleton.mp hc] at hkey
    cases hkey
  · rcases mem_append.mp hc with hc | hc
    · unfold Request.tokenChecks at hc
      split at hc
      · cases hc
      · rw [mem_singleton.mp hc] at hkey
        cases hkey
    · rcases mem_cons.mp hc with rfl | hc
      · rfl
      · exact absurd hkey (key_ne_of_writeChecks hc)

theorem checks_run (requests : List Request) :
    ∀ v ∈ (Guard.run g requests).log, v.check ∈ v.request.checks g := by
  refine Guard.run_induction (P := fun st => ∀ v ∈ st.log, v.check ∈ v.request.checks g) requests
    (fun _ hv => absurd hv not_mem_nil) ?_
  intro st r c hc ih
  exact forall_mem_cons.mpr ⟨hc, ih⟩

/-- The plain budget, and the one scaled for bearers. -/
def plainLimit (g : Config) : Limit ℚ :=
  perSecond g.httpRequestsPerSecond g.httpBurst

def bearerLimit (g : Config) : Limit ℚ :=
  perSecond (g.httpRequestsPerSecond * max 1 g.ipMultiplier) (g.httpBurst * max 1 g.ipMultiplier)

theorem generalLimit_of_anonymous (h : r.bearerKey = none) : r.generalLimit g = plainLimit g := by
  simp [Request.generalLimit, Request.ipMultiplier, plainLimit, h]

theorem generalLimit_of_bearer (h : r.bearerKey ≠ none) : r.generalLimit g = bearerLimit g := by
  obtain ⟨tokenKey, htoken⟩ := Option.ne_none_iff_exists'.mp h
  simp [Request.generalLimit, Request.ipMultiplier, bearerLimit, htoken]

theorem bearerLimit_of_le (h : g.ipMultiplier ≤ 1) : bearerLimit g = plainLimit g := by
  simp [bearerLimit, plainLimit, max_eq_left h]

theorem madeGeneral_of {requests : List Request} {l : Limit ℚ}
    (h : ∀ v ∈ (Guard.run g requests).log, v.general ip → v.made → v.request.generalLimit g = l) :
    MadeGeneral ip l (Guard.run g requests).log := by
  intro v hv hgeneral hmade
  rw [limit_of_general (checks_run requests v hv) hgeneral]
  exact h v hv hgeneral hmade

theorem generalLimit_of_single (h : g.ipMultiplier ≤ 1) : r.generalLimit g = plainLimit g := by
  by_cases hanonymous : r.bearerKey = none
  · exact generalLimit_of_anonymous hanonymous
  · rw [generalLimit_of_bearer hanonymous, bearerLimit_of_le h]

/-! ## The budget of each kind of request -/

theorem admitted_passedAnonymous_le (log : List Visit) (a b : ℚ) :
    admitted (passedAnonymous ip log) a b ≤ admitted (passed ip log) a b := by
  have hsub : (passedAnonymous ip log).Sublist (passed ip log) := by
    refine List.Sublist.map _ (monotone_filter_right _ fun v hv => ?_)
    simp only [decide_eq_true_eq] at hv ⊢
    exact ⟨hv.1, hv.2.1⟩
  exact hsub.countP_le

/-- **The general budget.** Over requests of any address and kind, with the table never full and the
clock not going back: if the limiter of an address is only ever made by anonymous requests, no
window lets more of them pass than the plain budget; if it is only ever made by requests with a
bearer token, such a request is refused by it only after some window admitted the whole scaled
budget. Where the two budgets are the same, it does not matter who makes it. -/
theorem general_budget_of_maker (g : Config) (requests : List Request) (ip : String)
    (horderly : Orderly (Guard.run g requests).log) :
    ((g.httpBurst : ℚ) ≤ g.httpRequestsPerSecond * g.entryTTL →
      (g.ipMultiplier ≤ 1 ∨ ∀ v ∈ (Guard.run g requests).log, v.general ip → v.made →
        v.request.bearerKey = none) → ∀ a T, 0 ≤ T →
        (admitted (passedAnonymous ip (Guard.run g requests).log) a (a + T) : ℚ) ≤
          g.httpBurst + g.httpRequestsPerSecond * T) ∧
    ((g.ipMultiplier ≤ 1 ∨ ∀ v ∈ (Guard.run g requests).log, v.general ip → v.made →
        v.request.bearerKey ≠ none) →
      ∀ v earlier, v :: earlier <:+ (Guard.run g requests).log → v.general ip →
        v.request.bearerKey ≠ none → v.allowed = false →
        ∃ T, 0 ≤ T ∧ g.ipMultiplier * (g.httpBurst + g.httpRequestsPerSecond * T) - 1 <
          admitted (passed ip earlier) (v.now - T) v.now) := by
  constructor
  · intro hburst hmaker a T hT
    have hmade : MadeGeneral ip (plainLimit g) (Guard.run g requests).log := by
      refine madeGeneral_of fun v hv hgeneral hmade => ?_
      rcases hmaker with hsingle | hanonymous
      · exact generalLimit_of_single hsingle
      · exact generalLimit_of_anonymous (hanonymous v hv hgeneral hmade)
    obtain ⟨t, ht⟩ : ∃ t, ∀ v ∈ (Guard.run g requests).log, v.now ≤ t := by
      cases hlog : (Guard.run g requests).log with
      | nil => exact ⟨0, fun _ hv => absurd hv not_mem_nil⟩
      | cons v log =>
        have hclock := horderly.clock
        rw [hlog] at hclock
        exact ⟨v.now, forall_mem_cons.mpr ⟨le_rfl, (pairwise_cons.mp hclock).1⟩⟩
    have hspent := (accounts_run requests horderly hmade).spent hburst t ht
    have hwindow := hspent.windows a (a + T) (le_add_of_nonneg_right hT)
    calc (admitted (passedAnonymous ip (Guard.run g requests).log) a (a + T) : ℚ)
        ≤ admitted (passed ip (Guard.run g requests).log) a (a + T) := by
          exact_mod_cast admitted_passedAnonymous_le _ _ _
      _ ≤ g.httpBurst + g.httpRequestsPerSecond * T := by
        simpa [plainLimit, perSecond] using hwindow
  · intro hmaker v earlier hsuffix hgeneral _ hrefused
    have hmade : MadeGeneral ip (bearerLimit g) (Guard.run g requests).log := by
      refine madeGeneral_of fun v hv hgeneral hmade => ?_
      rcases hmaker with hsingle | hbearer
      · rw [generalLimit_of_single hsingle, bearerLimit_of_le hsingle]
      · exact generalLimit_of_bearer (hbearer v hv hgeneral hmade)
    obtain ⟨T, hT, hcount⟩ :=
      (accounts_run requests horderly hmade).refused v earlier hsuffix hgeneral hrefused
    refine ⟨T, hT, lt_of_le_of_lt ?_ hcount⟩
    have hscale : (g.ipMultiplier : ℚ) ≤ (max 1 g.ipMultiplier : ℕ) := by
      exact_mod_cast le_max_right _ _
    have hbudget : (0 : ℚ) ≤ g.httpBurst + g.httpRequestsPerSecond * T := by positivity
    have hmul := mul_le_mul_of_nonneg_right hscale hbudget
    simp only [bearerLimit, perSecond, Nat.cast_mul]
    linarith

/-! ## Who came first -/

def tight : Config :=
  { defaultConfig with httpRequestsPerSecond := 1, httpBurst := 1, ipMultiplier := 2 }

def asking (bearerKey : Option String) (now : ℚ) : Request where
  rateIP := "203.0.113.7"
  bearerKey := bearerKey
  method := .get
  path := .other
  clock := fun _ => now

theorem exists_last {log : List Verdict} {P : Verdict → Prop} (hP : ∀ v ∈ log.head?, P v)
    (hne : log ≠ []) : ∃ v, v :: log.tail <:+ log ∧ P v := by
  cases log with
  | nil => exact absurd rfl hne
  | cons v earlier => exact ⟨v, suffix_refl _, hP v rfl⟩

/-- Two anonymous requests and one with a bearer; and three with three bearers, of which the last is
refused. -/
theorem plain_and_scaled_budgets : (∀ a T, 0 ≤ T → (admitted (passedAnonymous "203.0.113.7"
        (Guard.run tight [asking none 0, asking none 0, asking (some "t") 3]).log) a (a + T) : ℚ) ≤
          1 + 1 * T) ∧
    ∃ v earlier, v :: earlier <:+
        (Guard.run tight [asking (some "t") 0, asking (some "u") 0, asking (some "v") 0]).log ∧
      v.allowed = false ∧ ∃ T, 0 ≤ T ∧ 2 * (1 + 1 * T) - 1 <
        (admitted (passed "203.0.113.7" earlier) (v.now - T) v.now : ℚ) := by
  constructor
  · have hbudget :=
      (general_budget_of_maker tight [asking none 0, asking none 0, asking (some "t") 3]
      "203.0.113.7" (by decide +kernel)).1 (by norm_num [tight, defaultConfig])
      (.inr (by decide +kernel))
    simpa [tight] using hbudget
  · have hbudget := (general_budget_of_maker tight
      [asking (some "t") 0, asking (some "u") 0, asking (some "v") 0] "203.0.113.7"
      (by decide +kernel)).2 (.inr (by decide +kernel))
    have hlast :
      ∀ v ∈ (Guard.run tight [asking (some "t") 0, asking (some "u") 0,
      asking (some "v") 0]).log.head?,
        v.general "203.0.113.7" ∧ v.request.bearerKey ≠ none ∧ v.allowed = false := by
          decide +kernel
    obtain ⟨v, hsuffix, hgeneral, hbearer, hrefused⟩ := exists_last hlast (by decide +kernel)
    refine ⟨v, _, hsuffix, hrefused, ?_⟩
    simpa [tight] using hbudget v _ hsuffix hgeneral hbearer hrefused

/-- **The first comer sets the budget of the address.** A bearer makes the limiter, and a second
later two anonymous requests pass at once where the plain budget is one; an anonymous request makes
it, and a bearer within its token's budget is refused although no window comes near the scaled
budget. -/
theorem first_comer_sets_budget :
    (Orderly (Guard.run tight [asking (some "t") 0, asking none 1, asking none 1]).log ∧
      1 + 1 * 0 < (admitted (passedAnonymous "203.0.113.7"
        (Guard.run tight [asking (some "t") 0, asking none 1, asking none 1]).log) 1 (1 + 0) : ℚ)) ∧
    Orderly (Guard.run tight [asking none 0, asking (some "t") 0]).log ∧
      ∃ v earlier, v :: earlier <:+ (Guard.run tight [asking none 0, asking (some "t") 0]).log ∧
        v.general "203.0.113.7" ∧ v.request.bearerKey ≠ none ∧ v.allowed = false ∧
        ∀ T, 0 ≤ T → ¬ 2 * (1 + 1 * T) - 1 <
          (admitted (passed "203.0.113.7" earlier) (v.now - T) v.now : ℚ) := by
  refine ⟨⟨by decide +kernel, by decide +kernel⟩, by decide +kernel, ?_⟩
  have hlast : ∀ v ∈ (Guard.run tight [asking none 0, asking (some "t") 0]).log.head?,
      v.general "203.0.113.7" ∧ v.request.bearerKey ≠ none ∧ v.allowed = false := by decide +kernel
  have htail : (passed "203.0.113.7"
      (Guard.run tight [asking none 0, asking (some "t") 0]).log.tail).length = 1 := by
        decide +kernel
  obtain ⟨v, hsuffix, hgeneral, hbearer, hrefused⟩ := exists_last hlast (by decide +kernel)
  refine ⟨v, _, hsuffix, hgeneral, hbearer, hrefused, fun T hT => ?_⟩
  -- the one request that passed fits every window's scaled budget
  have hcast : (admitted (passed "203.0.113.7" (Guard.run tight
      [asking none 0, asking (some "t") 0]).log.tail) (v.now - T) v.now : ℚ) ≤ 1 := by
    exact_mod_cast countP_le_length.trans htail.le
  linarith

end Voxhold.Antiabuse
