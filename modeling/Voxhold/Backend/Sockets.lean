/-
# Voxhold.Backend.Sockets — a revoked session loses its connections

A revocation commits first and goes through the hub second; `connect` registers first and
authenticates again second. So of a registered client whose token is gone one of the two has yet to
come, or the client is being closed (`Covered`); and such a token never comes back (`Dead`).
-/

import Voxhold.Backend.Effects
import Voxhold.Hub.Effects

namespace Voxhold.Backend

open Voxhold.Lib Voxhold.Hub Voxhold.Account Multiset Finset

variable {compare : String → String → Bool} {s s' : State} {t t' : Store} {d : StoreCmd}
  {new rest : List BackendInstr} {R S : Multiset BackendCmd} {c : Client} {k : ℕ}
  {b : BackendCmd}

/-! ## Tokens -/

/-- The token was issued, and no session has it any more. -/
def Dead (t : Store) (k : ℕ) : Prop :=
  k ∈ t.issued ∧ ∀ {id r}, t.db.sessions.get id = some r → r.tokenHash ≠ k

/-- What a step does to tokens: new tokens are new, and revoked ones are gone. -/
structure TokenStep (t t' : Store) (new : List BackendInstr) : Prop where
  issued : t.issued ⊆ t'.issued
  session : ∀ {id r'}, t'.db.sessions.get id = some r' →
    (r'.tokenHash ∉ t.issued ∧ r'.tokenHash ∈ t'.issued) ∨
      ((∃ r, t.db.sessions.get id = some r ∧ r.tokenHash = r'.tokenHash ∧ r.userID = r'.userID) ∧
        (.revoked r'.tokenHash ∈ t'.history → .revoked r'.tokenHash ∈ t.history))
  revoked : ∀ {k}, .revoked k ∈ t'.history → .revoked k ∈ t.history ∨
    ((∃ id r, t.db.sessions.get id = some r ∧ r.tokenHash = k) ∧
      .run (.inr (.revokeSession k)) ∈ new)

namespace TokenStep

theorem of_same (hdb : t'.db = t.db) (hissued : t.issued ⊆ t'.issued)
    (hhistory : ∀ k, .revoked k ∈ t'.history → .revoked k ∈ t.history) : TokenStep t t' new where
  issued := hissued
  session := by
    intro id r' hr'
    rw [hdb] at hr'
    exact .inr ⟨⟨r', hr', rfl, rfl⟩, hhistory _⟩
  revoked := fun hk => .inl (hhistory _ hk)

theorem of_log {e : Event} (hdb : t'.db = t.db) (hissued : t'.issued = t.issued)
    (hhistory : t'.history = t.history ++ [e]) (he : ∀ k, e ≠ .revoked k) : TokenStep t t' new := by
  refine of_same hdb hissued.ge fun k hk => ?_
  rw [hhistory] at hk
  rcases List.mem_append.mp hk with hk | hk
  · exact hk
  · exact absurd (List.mem_singleton.mp hk).symm (he k)

theorem of_created {u n token : ℕ} {expiry : Int} {db' : Database} (hnew : token ∉ t.issued)
    (hsession : t.db.insertSession ⟨u, token, expiry⟩ = some db') (hdb : t'.db = db')
    (hissued : t'.issued = insert token t.issued)
    (hhistory : t'.history = t.history ++ [.created n k]) : TokenStep t t' new where
  issued := hissued ▸ subset_insert _ _
  session := by
    intro id r' hr'
    rw [hdb, (insertSession_eq_some hsession).2.2.1, Table.get_insert] at hr'
    split at hr'
    · cases hr'
      exact .inl ⟨hnew, hissued ▸ mem_insert_self _ _⟩
    · refine .inr ⟨⟨r', hr', rfl, rfl⟩, fun hk => ?_⟩
      simpa [hhistory] using hk
  revoked := by
    intro k' hk
    refine .inl ?_
    simpa [hhistory] using hk

theorem of_performed {call : Call} {now later : Int} (hnew : ∀ tok ∈ newToken call, tok ∉ t.issued)
    (hdb : t'.db = (perform now later t.db call).db)
    (hissued : t'.issued = (newToken call).toFinset ∪ t.issued)
    (hhistory : t'.history = t.history ++ (perform now later t.db call).events) :
    TokenStep t t' (perform now later t.db call).next where
  issued := hissued ▸ subset_union_right
  session := by
    intro id r' hr'
    rw [hdb] at hr'
    rcases (accountEffect_perform now later t.db call).sessions.token hr' with
      hissue | ⟨hold, hkept⟩
    · refine .inl ⟨hnew _ hissue, ?_⟩
      rw [hissued, hissue]
      exact Finset.mem_union_left _ (Finset.mem_singleton_self _)
    · refine .inr ⟨hold, fun hk => ?_⟩
      rw [hhistory] at hk
      exact (List.mem_append.mp hk).resolve_right hkept
  revoked := by
    intro k' hk
    rw [hhistory] at hk
    rcases List.mem_append.mp hk with hk | hk
    · exact .inl hk
    · exact .inr ⟨(accountEffect_perform now later t.db call).sessions.revoked hk,
        revokeSession_mem_next hk⟩

theorem of_effect (heffect : StoreEffect compare s d s' new) : TokenStep s.store s'.store new := by
  cases heffect with
  | created u n token expiry db' hnew hsession => exact of_created hnew hsession rfl rfl rfl
  | performed call now later hnew => exact of_performed hnew rfl rfl rfl
  | uncreated => exact of_same rfl (subset_insert _ _) fun _ hk => hk
  | failed => exact of_same rfl subset_union_right fun _ hk => hk
  | compared | confirmed | unconfirmed | ready | wrote => exact of_log rfl rfl rfl nofun
  | findByUsername | mismatched | verifyPassword | revokeSession | authenticated | unauthenticated
  | connected | unconnected | unregistered | unready | unwritten =>
    exact of_same rfl subset_rfl fun _ hk => hk

theorem of_note {cmd : Hub.Cmd} {h : HubState} : TokenStep t (noteRegistered cmd h t) new := by
  obtain ⟨registered, hnote, -⟩ := noteRegistered_spec cmd h t
  rw [hnote]
  exact of_same rfl subset_rfl fun _ hk => hk

end TokenStep

theorem Dead.step (h : Dead t k) (hstep : TokenStep t t' new) : Dead t' k := by
  refine ⟨hstep.issued h.1, ?_⟩
  rintro id r' hr' rfl
  rcases hstep.session hr' with ⟨hnew, -⟩ | ⟨⟨r, hr, htoken, -⟩, -⟩
  · exact hnew h.1
  · exact h.2 hr htoken

theorem Dead.unauthenticated (h : Dead t k) (now : Int) : t.db.findActiveUserID now k = none := by
  cases hfound : t.db.findActiveUserID now k with
  | none => rfl
  | some u =>
    obtain ⟨id, r, hr, htoken, -⟩ := findActiveUserID_eq_some hfound
    exact absurd htoken (h.2 hr)

/-- Every session has an issued token, and every revoked token is gone. -/
structure Tokens (t : Store) : Prop where
  issued : ∀ {id r}, t.db.sessions.get id = some r → r.tokenHash ∈ t.issued
  revoked : ∀ {k}, .revoked k ∈ t.history → Dead t k

theorem Tokens.init (db : Database) : Tokens (.new db) where
  issued := by
    intro id r hr
    exact List.mem_toFinset.mpr (List.mem_map.mpr ⟨(id, r), Table.mem_toList.mpr hr, rfl⟩)
  revoked := nofun

theorem Tokens.step (h : Tokens t) (hstep : TokenStep t t' new) : Tokens t' where
  issued := by
    intro id r' hr'
    rcases hstep.session hr' with ⟨-, hnew⟩ | ⟨⟨r, hr, htoken, -⟩, -⟩
    · exact hnew
    · exact htoken ▸ hstep.issued (h.issued hr)
  revoked := by
    intro k hk
    rcases hstep.revoked hk with hold | ⟨⟨id, r, hr, rfl⟩, -⟩
    · exact (h.revoked hold).step hstep
    · refine ⟨hstep.issued (h.issued hr), ?_⟩
      intro id' r' hr' heq
      rcases hstep.session hr' with ⟨hnew, -⟩ | ⟨-, hkept⟩
      · exact hnew (heq ▸ h.issued hr)
      · -- it was revoked before, so the session could not have had it
        exact (h.revoked (heq ▸ hkept (heq ▸ hk))).2 hr rfl

/-! ## Registering owes a second authentication -/

/-- A registration in progress is followed by the second authentication of its client. -/
inductive Owes : BackendCmd → BackendCmd → Prop where
  | load (c : Client) : Owes (.inl (.registry (.load c))) (.inr (.confirm c))
  | index (c : Client) : Owes (.inl (.registry (.index c))) (.inr (.confirm c))

theorem owes_of_effect (heffect : StoreEffect compare s d s' new) {a : BackendCmd}
    (ha : .run a ∈ new) (howes : Owes a b) : ∃ u token, d = .newClient u token := by
  cases continues_of_effect heffect ha with
  | load u token => exact ⟨u, token, rfl⟩
  | next _ _ hnext => cases howes <;> cases hnext
  | _ => cases howes

theorem followed_body {op : Hub.Op ⊕ BackendOp} (hop : Started op) :
    Followed Owes ((backend compare).machine.body op) := by
  rw [← List.append_nil ((backend compare).machine.body op)]
  refine Followed.append ?_ trivial
  intro a ha b howes
  exfalso
  cases op with
  | inl op =>
    have ha : .run a ∈ (called op.body : List BackendInstr) := ha
    cases howes with
    | load c => cases op <;> simp_all [called, Op.body, Instr.map, Started]
    | index c => exact absurd (Op.starts (run_inl_mem_called.mp ha)) (by simp [Cmd.Starts])
  | inr op =>
    obtain ⟨d, rfl, -⟩ := BackendOp.opens ha
    cases howes

theorem followed_exec {a : BackendCmd} {x : Input}
    (hexec : (backend compare).machine.exec a x s = some (s', new))
    (howed : ∀ b, Owes a b → .run b ∈ rest) (hrest : Followed Owes rest) :
    Followed Owes (new ++ rest) := by
  cases a with
  | inl a =>
    obtain ⟨is, -, he, -, rfl⟩ := Extension.exec_inl hexec
    refine Followed.append ?_ hrest
    rintro _ hin _ howes
    cases howes with
    | load c =>
      have hfollows := follows_of_exec he (run_inl_mem_called.mp hin)
      cases hfollows
    | index c =>
      have hfollows := follows_of_exec he (run_inl_mem_called.mp hin)
      cases hfollows
      exact howed _ (.load c)
  | inr d =>
    have heffect := storeEffect_of_exec hexec
    by_cases hd : ∃ u token, d = .newClient u token
    · obtain ⟨u, token, rfl⟩ := hd
      cases heffect with
      | connected =>
        refine ⟨?_, ?_, hrest⟩
        · intro b howes
          cases howes
          exact List.mem_cons_of_mem _ List.mem_cons_self
        · intro b howes
          cases howes
      | unconnected => exact hrest
    · refine Followed.append ?_ hrest
      intro a ha b howes
      exact absurd (owes_of_effect heffect ha howes) hd

/-! ## Registered clients whose token is gone -/

/-- What still takes a client with a revoked token out of the hub. -/
def covers (c : Client) : List BackendCmd :=
  [.inr (.revokeSession c.sessionKey), .inr (.confirm c), .inl (.registry (.closeClient c)),
    .inl (.registry (.detach c))]

def Covered (S : Multiset BackendCmd) (c : Client) : Prop :=
  ∃ b ∈ covers c, b ∈ S

theorem Covered.mono {T : Multiset BackendCmd} (h : Covered S c) (hST : S ⊆ T) : Covered T c := by
  obtain ⟨b, hb, hS⟩ := h
  exact ⟨b, hb, hST hS⟩

theorem Covered.of_run (hb : b ∈ covers c) (hnew : .run b ∈ new) : Covered (cmds new + R) c :=
  ⟨b, hb, mem_pushed.mpr (.inl hnew)⟩

theorem Covered.of_rest (hb : b ∈ covers c) (hR : b ∈ R) : Covered (cmds new + R) c :=
  ⟨b, hb, mem_pushed.mpr (.inr hR)⟩

theorem Covered.of_unregister (hnew : ∀ i ∈ (called (Op.body (.unregister c)) : List BackendInstr),
    i ∈ new) : Covered (cmds new + R) c :=
  .of_run (by simp [covers]) (hnew (.run (.inl (.registry (.closeClient c)))) List.mem_cons_self)

structure Sockets (s : State) (S : Multiset BackendCmd) : Prop where
  tokens : Tokens s.store
  registered : ∀ {c}, c ∈ s.inner.registry.clients → c ∈ s.store.registered
  covered : ∀ {c}, c ∈ s.inner.registry.clients → .revoked c.sessionKey ∈ s.store.history →
    Covered S c

theorem Sockets.init (db : Database) (e2eeRequired : Int → Bool) (limits : ViewerLimits) :
    Sockets (initial db e2eeRequired limits) 0 where
  tokens := .init db
  registered := fun hc => absurd hc (notMem_empty _)
  covered := fun hc => absurd hc (notMem_empty _)

section

variable (heffect : StoreEffect compare s d s' new)
include heffect

theorem clients_of_effect : s'.inner.registry.clients = s.inner.registry.clients ∧
    s'.store.registered = s.store.registered := by
  cases heffect <;> exact ⟨rfl, rfl⟩

theorem Sockets.covered_store (h : Sockets s (.inr d ::ₘ R))
    (hc : c ∈ s.inner.registry.clients) (hrevoked : .revoked c.sessionKey ∈ s.store.history) :
    Covered (cmds new + R) c := by
  obtain ⟨b, hb, hmem⟩ := h.covered hc hrevoked
  rcases mem_cons.mp hmem with rfl | hR
  · simp only [covers, List.mem_cons, List.not_mem_nil, or_false, reduceCtorEq, Sum.inr.injEq] at hb
    rcases hb with rfl | rfl
    · -- the revocation finds every registered client of the session
      cases heffect with
      | revokeSession key clients hclients =>
        have hin : c ∈ clients := by
          rw [hclients.mem_iff, NestedMap.mem_keysAt, s.inner.registry.sessionIndex]
          exact ⟨hc, rfl⟩
        exact .of_unregister fun i hi => List.mem_flatMap.mpr ⟨c, hin, hi⟩
    · -- the second authentication fails
      cases heffect with
      | confirmed _ u now _ hauth =>
        rw [(h.tokens.revoked hrevoked).unauthenticated] at hauth
        cases hauth
      | unconfirmed => exact .of_unregister fun i hi => hi
      | unregistered _ hno => exact absurd (h.registered hc) hno
  · exact .of_rest hb hR

theorem Sockets.store (h : Sockets s (.inr d ::ₘ R)) : Sockets s' (cmds new + R) := by
  obtain ⟨hclients, hregistered⟩ := clients_of_effect heffect
  have hstep := TokenStep.of_effect heffect
  refine ⟨h.tokens.step hstep, ?_, ?_⟩
  · intro c hc
    rw [hclients] at hc
    rw [hregistered]
    exact h.registered hc
  · intro c hc hrevoked
    rw [hclients] at hc
    rcases hstep.revoked hrevoked with hold | ⟨-, hpushed⟩
    · exact h.covered_store heffect hc hold
    · exact .of_run (by simp [covers]) hpushed

end

theorem Sockets.hub {a : Hub.Cmd} {x : Choice} {is : List HubInstr}
    (he : s.inner.exec x a = some (s'.inner, is))
    (hstore : s'.store = noteRegistered a s.inner s.store)
    (howed : ∀ c, a = .registry (.index c) → .inr (.confirm c) ∈ R) (h : Sockets s (.inl a ::ₘ R)) :
    Sockets s' ((cmds (called is : List BackendInstr) : Multiset BackendCmd) + R) := by
  obtain ⟨registered, hnote, hregistered, hindex⟩ := noteRegistered_spec a s.inner s.store
  refine ⟨hstore ▸ h.tokens.step (.of_note : TokenStep _ _ []), ?_, ?_⟩
  · intro c hc
    rw [hstore, hnote]
    rcases clients_from_exec he hc with hc | ⟨rfl, hreg, -⟩
    · exact hregistered (h.registered hc)
    · exact hindex c rfl hreg
  · intro c hc hrevoked
    rw [hstore, hnote] at hrevoked
    rcases clients_from_exec he hc with hold | ⟨rfl, -⟩
    · obtain ⟨b, hb, hmem⟩ := h.covered hold hrevoked
      rcases mem_cons.mp hmem with rfl | hR
      · simp only [covers, List.mem_cons, List.not_mem_nil, or_false, reduceCtorEq, Sum.inl.injEq,
          false_or] at hb
        rcases hb with rfl | rfl
        · obtain ⟨-, rfl⟩ := Prod.mk.inj (Option.some.inj he)
          exact .of_run (b := .inl (.registry (.detach c))) (by simp [covers]) (by simp)
        · exact absurd hc (not_mem_clients_of_detach he)
      · exact .of_rest hb hR
    · exact .of_rest (by simp [covers]) (howed c rfl)

/-! ## Writing to a connection -/

/-- Each connection has one second authentication, is written to only after it has succeeded, and it
succeeds only before the token is revoked. -/
structure Writes (t : Store) (S : Multiset BackendCmd) : Prop where
  pending_lt : ∀ {c}, .inr (.confirm c) ∈ S → c.connectionID < t.connections
  again_lt : ∀ {c ok}, .authenticatedAgain c ok ∈ t.history → c.connectionID < t.connections
  pending_once : ∀ c, S.count (.inr (.confirm c)) ≤ 1
  confirmed : ∀ {c ok}, .authenticatedAgain c ok ∈ t.history → .inr (.confirm c) ∉ S
  again_once : ∀ {c ok ok'} {i j : ℕ}, t.history[i]? = some (.authenticatedAgain c ok) →
    t.history[j]? = some (.authenticatedAgain c ok') → i = j
  ready : ∀ {c}, .inr (.ready c) ∈ S → .authenticatedAgain c true ∈ t.history
  serving : ∀ {c}, c ∈ t.serving → .authenticatedAgain c true ∈ t.history
  wrote : ∀ {c}, .wrote c ∈ t.history → .authenticatedAgain c true ∈ t.history
  before : ∀ {c} {i j : ℕ}, t.history[i]? = some (.authenticatedAgain c true) →
    t.history[j]? = some (.revoked c.sessionKey) → i < j

namespace Writes

theorem init (db : Database) : Writes (.new db) 0 where
  pending_lt := nofun
  again_lt := nofun
  pending_once := by simp
  confirmed := nofun
  again_once := nofun
  ready := nofun
  serving := fun hc => absurd hc (notMem_empty _)
  wrote := nofun
  before := nofun

variable {S' : Multiset BackendCmd} {events : List Event}

theorem note (h : Writes t S) (hconnections : t.connections ≤ t'.connections)
    (hhistory : t'.history = t.history ++ events)
    (hagain : ∀ c ok, .authenticatedAgain c ok ∉ events)
    (hwrote : ∀ c, .wrote c ∈ events → .authenticatedAgain c true ∈ t.history)
    (hserving : ∀ c ∈ t'.serving, .authenticatedAgain c true ∈ t.history)
    (hconfirm : ∀ c, .inr (.confirm c) ∈ S' → .inr (.confirm c) ∈ S ∨
      (t.connections ≤ c.connectionID ∧ c.connectionID < t'.connections))
    (honce : ∀ c, S'.count (.inr (.confirm c)) ≤ 1)
    (hready : ∀ c, .inr (.ready c) ∈ S' → .inr (.ready c) ∈ S) : Writes t' S' := by
  have hmem : ∀ {c ok}, .authenticatedAgain c ok ∈ t'.history →
    .authenticatedAgain c ok ∈ t.history := by
    intro c ok hin
    rw [hhistory] at hin
    exact (List.mem_append.mp hin).resolve_right (hagain c ok)
  have hmem' : ∀ {e}, e ∈ t.history → e ∈ t'.history := by
    intro e he
    rw [hhistory]
    exact List.mem_append_left _ he
  have hat : ∀ {c ok} {i : ℕ}, t'.history[i]? = some (.authenticatedAgain c ok) →
      t.history[i]? = some (.authenticatedAgain c ok) := by
    intro c ok i hi
    rw [hhistory] at hi
    exact (getElem?_or_mem hi).resolve_right (hagain c ok)
  constructor
  case pending_lt =>
    intro c hc
    rcases hconfirm c hc with hc | hnew
    · exact (h.pending_lt hc).trans_le hconnections
    · exact hnew.2
  case again_lt => exact fun hin => (h.again_lt (hmem hin)).trans_le hconnections
  case pending_once => exact honce
  case confirmed =>
    intro c ok hin hc
    rcases hconfirm c hc with hc | hnew
    · exact h.confirmed (hmem hin) hc
    · exact absurd (h.again_lt (hmem hin)) hnew.1.not_gt
  case again_once => exact fun hi hj => h.again_once (hat hi) (hat hj)
  case ready => exact fun hc => hmem' (h.ready (hready _ hc))
  case serving => exact fun hc => hmem' (hserving _ hc)
  case wrote =>
    intro c hin
    rw [hhistory] at hin
    rcases List.mem_append.mp hin with hin | hin
    · exact hmem' (h.wrote hin)
    · exact hmem' (hwrote c hin)
  case before =>
    intro c i j hi hj
    have hi := hat hi
    rw [hhistory, List.getElem?_append] at hj
    split at hj
    · exact h.before hi hj
    · next hlt => exact (List.getElem?_eq_some_iff.mp hi).1.trans_le (not_lt.mp hlt)

theorem confirm {ok : Bool} (h : Writes t (.inr (.confirm c) ::ₘ R))
    (hconnections : t'.connections = t.connections) (hserving : t'.serving = t.serving)
    (hhistory : t'.history = t.history ++ [.authenticatedAgain c ok])
    (hlive : ok = true → .revoked c.sessionKey ∉ t.history)
    (hconfirm : ∀ c', S'.count (.inr (.confirm c')) ≤ R.count (.inr (.confirm c')))
    (hready : ∀ c', .inr (.ready c') ∈ S' → .inr (.ready c') ∈ R ∨ (c' = c ∧ ok = true)) :
    Writes t' S' := by
  have hlt : c.connectionID < t.connections := h.pending_lt (by simp)
  have hgone : .inr (.confirm c) ∉ R := by
    intro hR
    have hcount := h.pending_once c
    rw [count_cons_self] at hcount
    have := count_pos.mpr hR
    omega
  have hfirst : ∀ ok', .authenticatedAgain c ok' ∉ t.history :=
    fun ok' hin => h.confirmed hin (by simp)
  have hmem' : ∀ {e}, e ∈ t.history → e ∈ t'.history := by
    intro e he
    rw [hhistory]
    exact List.mem_append_left _ he
  have hmem : ∀ {c' ok'}, .authenticatedAgain c' ok' ∈ t'.history →
      .authenticatedAgain c' ok' ∈ t.history ∨ c' = c := by
    intro c' ok' hin
    rw [hhistory] at hin
    rcases List.mem_append.mp hin with hin | hin
    · exact .inl hin
    · exact .inr (Event.authenticatedAgain.inj (List.mem_singleton.mp hin)).1
  have hat : ∀ {c' ok'} {i : ℕ}, t'.history[i]? = some (.authenticatedAgain c' ok') →
      t.history[i]? = some (.authenticatedAgain c' ok') ∨
      (c' = c ∧ ok' = ok ∧ i = t.history.length) := by
    intro c' ok' i hi
    rw [hhistory, List.getElem?_append] at hi
    split at hi
    · exact .inl hi
    · next hge =>
      obtain ⟨hi0, heq⟩ := List.getElem?_eq_some_iff.mp hi
      simp only [List.length_singleton, List.getElem_singleton, Event.authenticatedAgain.injEq]
        at hi0 heq
      exact .inr ⟨heq.1.symm, heq.2.symm, by omega⟩
  have hpending : ∀ {c'}, .inr (.confirm c') ∈ S' → .inr (.confirm c') ∈ R := by
    intro c' hc
    exact count_pos.mp ((count_pos.mpr hc).trans_le (hconfirm c'))
  have hhere : ok = true → .authenticatedAgain c true ∈ t'.history := by
    intro hok
    rw [hhistory, hok]
    exact List.mem_append_right _ List.mem_cons_self
  constructor
  case pending_lt => exact fun hc => hconnections ▸ h.pending_lt (mem_cons_of_mem (hpending hc))
  case again_lt =>
    intro c' ok' hin
    rw [hconnections]
    rcases hmem hin with hin | rfl
    · exact h.again_lt hin
    · exact hlt
  case pending_once =>
    intro c'
    exact ((hconfirm c').trans (count_le_count_cons _ _ _)).trans (h.pending_once c')
  case confirmed =>
    intro c' ok' hin hc
    rcases hmem hin with hin | rfl
    · exact h.confirmed hin (mem_cons_of_mem (hpending hc))
    · exact hgone (hpending hc)
  case again_once =>
    intro c' ok₁ ok₂ i j hi hj
    rcases hat hi with hi | ⟨rfl, -, rfl⟩
    · rcases hat hj with hj | ⟨rfl, -, -⟩
      · exact h.again_once hi hj
      · exact absurd (List.mem_of_getElem? hi) (hfirst _)
    · rcases hat hj with hj | ⟨-, -, rfl⟩
      · exact absurd (List.mem_of_getElem? hj) (hfirst _)
      · rfl
  case ready =>
    intro c' hc
    rcases hready c' hc with hc | ⟨rfl, hok⟩
    · exact hmem' (h.ready (mem_cons_of_mem hc))
    · exact hhere hok
  case serving => exact fun hc => hmem' (h.serving (hserving ▸ hc))
  case wrote =>
    intro c' hin
    rw [hhistory] at hin
    exact hmem' (h.wrote ((List.mem_append.mp hin).resolve_right (by simp)))
  case before =>
    intro c' i j hi hj
    have hj : t.history[j]? = some (.revoked c'.sessionKey) := by
      rw [hhistory] at hj
      exact (getElem?_or_mem hj).resolve_right (by simp)
    rcases hat hi with hi | ⟨rfl, hok, -⟩
    · exact h.before hi hj
    · exact absurd (List.mem_of_getElem? hj) (hlive hok.symm)

theorem connect (h : Writes t S) (hid : c.connectionID = t.connections)
    (hconnections : t'.connections = t.connections + 1) (hserving : t'.serving = t.serving)
    (hhistory : t'.history = t.history) (hconfirm : ∀ c', S'.count (.inr (.confirm c')) ≤
      S.count (.inr (.confirm c')) + if c' = c then 1 else 0)
    (hready : ∀ c', .inr (.ready c') ∈ S' → .inr (.ready c') ∈ S) : Writes t' S' := by
  have happend : t'.history = t.history ++ [] := by rw [hhistory, List.append_nil]
  refine h.note (hconnections ▸ Nat.le_succ _) happend (by simp) (by simp)
    (fun c hc => h.serving (hserving ▸ hc)) (fun c' hc => ?_) (fun c' => ?_) hready
  · by_cases heq : c' = c
    · exact .inr ⟨by rw [heq, hid], by rw [heq, hid, hconnections]; exact Nat.lt_succ_self _⟩
    · have hle := hconfirm c'
      rw [if_neg heq, Nat.add_zero] at hle
      exact .inl (count_pos.mp ((count_pos.mpr hc).trans_le hle))
  · have hle := hconfirm c'
    split at hle
    · next heq =>
      have hfresh : S.count (.inr (.confirm c')) = 0 := by
        refine count_eq_zero.mpr fun hc => ?_
        exact absurd (h.pending_lt hc) (by rw [heq, hid]; exact lt_irrefl _)
      omega
    · exact hle.trans (h.pending_once c')

/-- No second authentication is pending that was not, and no ready event. -/
structure Fewer (S' S : Multiset BackendCmd) : Prop where
  confirm : ∀ c, S'.count (.inr (.confirm c)) ≤ S.count (.inr (.confirm c))
  ready : ∀ c, .inr (.ready c) ∈ S' → .inr (.ready c) ∈ S

theorem log (h : Writes t S) (hconnections : t'.connections = t.connections)
    (hhistory : t'.history = t.history ++ events)
    (hagain : ∀ c ok, .authenticatedAgain c ok ∉ events)
    (hwrote : ∀ c, .wrote c ∈ events → .authenticatedAgain c true ∈ t.history)
    (hserving : ∀ c ∈ t'.serving, .authenticatedAgain c true ∈ t.history) (hfewer : Fewer S' S) :
    Writes t' S' := by
  refine h.note hconnections.ge hhistory hagain hwrote hserving (fun c hc => .inl ?_)
    (fun c => (hfewer.confirm c).trans (h.pending_once c)) hfewer.ready
  exact count_pos.mp ((count_pos.mpr hc).trans_le (hfewer.confirm c))

theorem same (h : Writes t S) (hconnections : t'.connections = t.connections)
    (hserving : t'.serving = t.serving)
    (hhistory : t'.history = t.history) (hfewer : Fewer S' S) : Writes t' S' := by
  have happend : t'.history = t.history ++ [] := by rw [hhistory, List.append_nil]
  exact h.log hconnections happend (by simp) (by simp)
    (fun c hc => h.serving (hserving ▸ hc)) hfewer

/-- The commands pushed are no second authentication and no ready event. -/
def Quiet (new : List BackendInstr) : Prop :=
  ∀ c, .run (.inr (.confirm c)) ∉ new ∧ .run (.inr (.ready c)) ∉ new

theorem Quiet.called {is : List HubInstr} : Quiet (called is) :=
  fun _ => ⟨run_inr_mem_called, run_inr_mem_called⟩

theorem Quiet.count_le (hquiet : Quiet new) (c : Client) :
    (cmds new + R).count (.inr (.confirm c)) ≤ R.count (.inr (.confirm c)) := by
  have hno : (cmds new : Multiset BackendCmd).count (.inr (.confirm c)) = 0 :=
    count_eq_zero.mpr fun hin => (hquiet c).1 (mem_cmds.mp (mem_coe.mp hin))
  rw [count_add, hno, Nat.zero_add]

theorem Quiet.ready (hquiet : Quiet new) (c : Client)
    (hin : .inr (.ready c) ∈ cmds new + R) : .inr (.ready c) ∈ R :=
  (mem_pushed.mp hin).resolve_left (hquiet c).2

theorem Quiet.fewer {a : BackendCmd} (hquiet : Quiet new) : Fewer (cmds new + R) (a ::ₘ R) where
  confirm := fun c => (hquiet.count_le c).trans (count_le_count_cons _ _ _)
  ready := fun c hin => mem_cons_of_mem (hquiet.ready c hin)

theorem Quiet.of_effect (heffect : StoreEffect compare s d s' new)
    (hconnect : ∀ u token, d ≠ .newClient u token)
    (hconfirm : ∀ c, d ≠ .confirm c) : Quiet new := by
  intro c
  constructor
  · intro hin
    cases continues_of_effect heffect hin with
    | confirm u token => exact hconnect u token rfl
    | next _ _ hnext => cases hnext
  · intro hin
    cases continues_of_effect heffect hin with
    | ready => exact hconfirm c rfl
    | next _ _ hnext => cases hnext

theorem push {a : BackendCmd} (h : Writes t (a ::ₘ R))
    (hconnections : t'.connections = t.connections)
    (hserving : t'.serving = t.serving) (hhistory : t'.history = t.history) (hquiet : Quiet new) :
    Writes t' (cmds new + R) :=
  h.same hconnections hserving hhistory hquiet.fewer

theorem store_other (heffect : StoreEffect compare s d s' new)
    (hconnect : ∀ u token, d ≠ .newClient u token)
    (hconfirm : ∀ c, d ≠ .confirm c) (h : Writes s.store (.inr d ::ₘ R)) :
    Writes s'.store (cmds new + R) := by
  have hquiet := Quiet.of_effect heffect hconnect hconfirm
  cases heffect with
  | compared | created => exact h.log rfl rfl (by simp) (by simp) (fun _ => h.serving) hquiet.fewer
  | performed call now later =>
    have hnoted := (accountEffect_perform now later s.store.db call).noted
    exact h.log rfl rfl (fun _ _ hin => hnoted _ hin) (fun _ hin => absurd (hnoted _ hin) id)
      (fun _ => h.serving) hquiet.fewer
  | ready c =>
    have hagain := h.ready (mem_cons_self _ _)
    refine h.log rfl rfl (by simp) ?_ ?_ hquiet.fewer
    · intro c' hin
      obtain rfl : c' = c := by simpa using hin
      exact hagain
    · intro c' hin
      rcases mem_insert.mp hin with rfl | hin
      · exact hagain
      · exact h.serving hin
  | wrote c hserving =>
    refine h.log rfl rfl (by simp) ?_ (fun _ => h.serving) hquiet.fewer
    intro c' hin
    obtain rfl : c' = c := by simpa using hin
    exact h.serving hserving
  | connected | unconnected => exact absurd rfl (hconnect _ _)
  | confirmed | unconfirmed | unregistered => exact absurd rfl (hconfirm _)
  | findByUsername | mismatched | uncreated | verifyPassword | failed | revokeSession
  | authenticated | unauthenticated | unready | unwritten => exact h.push rfl rfl rfl hquiet

theorem store_connect {u token : ℕ} (heffect : StoreEffect compare s (.newClient u token) s' new)
    (h : Writes s.store (.inr (.newClient u token) ::ₘ R)) : Writes s'.store (cmds new + R) := by
  cases heffect with
  | connected =>
    refine h.connect (c := ⟨s.store.connections, u, token⟩) rfl rfl rfl rfl ?_ ?_
    · intro c'
      rw [cmds_append, ← coe_add, add_assoc]
      refine (Quiet.called.count_le c').trans ?_
      rw [pushed_run, count_cons, count_cons_of_ne (by simp)]
      simp
    · intro c' hin
      rw [cmds_append, ← coe_add, add_assoc] at hin
      simpa using Quiet.called.ready c' hin
  | unconnected => exact h.push rfl rfl rfl (by simp [Quiet])

theorem store_confirm (heffect : StoreEffect compare s (.confirm c) s' new)
    (htokens : Tokens s.store)
    (h : Writes s.store (.inr (.confirm c) ::ₘ R)) : Writes s'.store (cmds new + R) := by
  cases heffect with
  | confirmed _ u now _ hauth =>
    refine h.confirm rfl rfl rfl ?_ ?_ ?_
    · rintro - hrevoked
      rw [(htokens.revoked hrevoked).unauthenticated] at hauth
      cases hauth
    · intro c'
      rw [pushed_run, count_cons_of_ne (by simp)]
    · intro c' hin
      rw [pushed_run] at hin
      rcases mem_cons.mp hin with heq | hin
      · exact .inr ⟨by simpa using heq, rfl⟩
      · exact .inl hin
  | unconfirmed =>
    exact h.confirm rfl rfl rfl nofun Quiet.called.count_le fun c' hin => .inl
      (Quiet.called.ready c' hin)
  | unregistered => exact h.push rfl rfl rfl (by simp [Quiet])

theorem store (heffect : StoreEffect compare s d s' new) (htokens : Tokens s.store)
    (h : Writes s.store (.inr d ::ₘ R)) : Writes s'.store (cmds new + R) := by
  by_cases hconnect : ∃ u token, d = .newClient u token
  · obtain ⟨u, token, rfl⟩ := hconnect
    exact h.store_connect heffect
  by_cases hconfirm : ∃ c, d = .confirm c
  · obtain ⟨c, rfl⟩ := hconfirm
    exact h.store_confirm heffect htokens
  · exact h.store_other heffect (fun u token hd => hconnect ⟨u, token, hd⟩) fun c hd =>
      hconfirm ⟨c, hd⟩

end Writes

/-! ## Runs -/

section Run

variable {db : Database} {e2eeRequired : Int → Bool} {limits : ViewerLimits} {cfg : BackendConfig}
  {guard : State → Multiset BackendCmd → BackendCmd → Prop}

theorem quiet_body (op : Hub.Op ⊕ BackendOp) :
    Writes.Quiet ((backend compare).machine.body op) := by
  cases op with
  | inl op => exact .called
  | inr op =>
    intro c
    constructor
    all_goals
      intro hin
      obtain ⟨d, heq, hopens⟩ := BackendOp.opens hin
      cases heq
      exact hopens

section

variable
  (h : (backend compare).machine.Reachable Started guard (initial db e2eeRequired limits) cfg)
include h

theorem confirm_mem_of_fires {i : ℕ} {a : BackendCmd} {x : Input}
    (hfires : (backend compare).machine.Fires cfg i a x s' new rest R) {b : BackendCmd}
    (howes : Owes a b) : b ∈ R := by
  have hfollowed := h.followed (fun _ => followed_body) (fun _ _ _ _ _ _ => followed_exec) i
  rw [hfires.head] at hfollowed
  exact hfires.mem_of_rest (hfollowed.1 b howes)

theorem sockets_reachable : Sockets cfg.state cfg.pending ∧ Writes cfg.state.store cfg.pending := by
  refine h.induction (P := fun s S => Sockets s S ∧ Writes s.store S)
    ⟨.init db e2eeRequired limits, .init db⟩ ?_ ?_
  · intro s S op _ hinv
    have hquiet : Writes.Quiet ((backend compare).machine.body op) := quiet_body op
    refine ⟨⟨hinv.1.tokens, hinv.1.registered, ?_⟩, hinv.2.same rfl rfl rfl ⟨hquiet.count_le,
      hquiet.ready⟩⟩
    intro c hc hrevoked
    exact (hinv.1.covered hc hrevoked).mono (subset_of_le (le_add_left _ _))
  · intro cfg i a x s' new rest R hcfg hfires _ hinv
    cases a with
    | inl a =>
      obtain ⟨is, -, he, hstore, rfl⟩ := Extension.exec_inl hfires.exec
      refine ⟨hinv.1.hub he hstore ?_, ?_⟩
      · rintro c rfl
        exact confirm_mem_of_fires hcfg hfires (.index c)
      · obtain ⟨registered, hnote, -⟩ := noteRegistered_spec a cfg.state.inner cfg.state.store
        rw [hstore.trans hnote]
        exact hinv.2.push rfl rfl rfl .called
    | inr d =>
      have heffect := storeEffect_of_exec hfires.exec
      exact ⟨hinv.1.store heffect, hinv.2.store heffect hinv.1.tokens⟩

end

/-- **Revoked sessions lose their sockets.** When nothing is in progress, no registered client has
the key of a revoked token; and at all times, a connection that was written to was authenticated
again before its token was revoked. -/
theorem revoked_sessions_lose_sockets
    (h : (backend compare).machine.Reachable Started (fun _ _ _ => True)
    (initial db e2eeRequired limits) cfg) : (cfg.Quiescent → ∀ c ∈ cfg.state.inner.registry.clients,
      .revoked c.sessionKey ∉ cfg.state.store.history) ∧
    (∀ c ok (i j : ℕ), .wrote c ∈ cfg.state.store.history →
      cfg.state.store.history[i]? = some (.authenticatedAgain c ok) →
      cfg.state.store.history[j]? = some (.revoked c.sessionKey) → i < j) := by
  obtain ⟨hsockets, hwrites⟩ := sockets_reachable h
  constructor
  · intro hquiet c hc hrevoked
    obtain ⟨b, -, hb⟩ := hsockets.covered hc hrevoked
    rw [hquiet.pending_eq_zero] at hb
    exact absurd hb (notMem_zero b)
  · intro c ok i j hwrote hagain hrevoked
    obtain ⟨i', hagain'⟩ := List.mem_iff_getElem?.mp (hwrites.wrote hwrote)
    obtain rfl := hwrites.again_once hagain' hagain
    exact hwrites.before hagain' hrevoked

/-- **A token that is gone stays gone.** Once no session has an issued token any more (logout,
rotation, revocation, password change, ban, expiry), it authenticates nobody, whatever is run from
then on. -/
theorem lost_token_refused {allowed cfg'}
    (hleads : (backend compare).machine.Leads allowed guard cfg cfg')
    (hissued : k ∈ cfg.state.store.issued)
    (hgone : cfg.state.store.db.sessionByToken k = none) (now : Int) :
    cfg'.state.store.db.findActiveUserID now k = none := by
  have hdead : Dead cfg.state.store k := by
    refine ⟨hissued, ?_⟩
    rintro id r hr rfl
    rw [sessionByToken_of_get hr] at hgone
    cases hgone
  refine (hleads.stable (P := fun s => Dead s.store k) ?_ hdead).unauthenticated now
  intro a x s s' new he h
  cases a with
  | inl a =>
    obtain ⟨is, -, -, hstore, -⟩ := Extension.exec_inl he
    exact hstore ▸ h.step (.of_note : TokenStep _ _ [])
  | inr d => exact h.step (.of_effect (storeEffect_of_exec he))

end Run

namespace Sample

def client : Client := ⟨0, 1, 202⟩

/-- The owner has logged in and connects, as goroutine 1. -/
def ownerConnects : Moves :=
  ownerCompares ++ steps 0 1 (issue 202) ++ .start (.inr (.connect 202)) :: steps 1 9 (here [])

end Sample

/-- The theorem at a run: the owner connects, is written to, and logs out. -/
theorem revoked_sessions_lose_sockets_logout :
    ∃ cfg, (backend Sample.plain).machine.Reachable Started (fun _ _ _ => True) Sample.start cfg ∧
      .wrote Sample.client ∈ cfg.state.store.history ∧ .revoked 202 ∈ cfg.state.store.history ∧
      (∀ c ∈ cfg.state.inner.registry.clients, .revoked c.sessionKey ∉ cfg.state.store.history) ∧
      (∀ ok (i j : ℕ), cfg.state.store.history[i]? = some (.authenticatedAgain Sample.client ok) →
        cfg.state.store.history[j]? = some (.revoked 202) → i < j) := by
  have hrun : ∃ cfg, (backend Sample.plain).machine.Reachable Started
    (fun _ _ _ => True) Sample.start cfg ∧
      cfg.Quiescent ∧ Event.wrote Sample.client ∈ cfg.state.store.history ∧
      Event.revoked 202 ∈ cfg.state.store.history :=
    Machine.exists_reachable_of_play
      (Sample.ownerConnects ++ .start (.inr (.request (.logout 202))) ::
      Sample.steps 2 8 (Sample.here [Sample.client])) (by decide +kernel)
  obtain ⟨cfg, hreach, hquiet, hwrote, hrevoked⟩ := hrun
  exact ⟨cfg, hreach, hwrote, hrevoked, (revoked_sessions_lose_sockets hreach).1 hquiet,
    fun ok i j => (revoked_sessions_lose_sockets hreach).2 Sample.client ok i j hwrote⟩

/-- The theorem at a run: the owner logs out, and then logs in again and tries to connect with the
lost token. -/
theorem lost_token_refused_logout : ∃ cfg cfg' : BackendConfig,
    (backend Sample.plain).machine.Leads Started (fun _ _ _ => True) cfg cfg' ∧
      (202 ∈ cfg.state.store.issued ∧ cfg'.state.store.db.findActiveUserID 0 203 = some 1 ∧
      cfg'.Quiescent) ∧ ∀ now, cfg'.state.store.db.findActiveUserID now 202 = none := by
  have hrun : ∃ cfg cfg',
      (backend Sample.plain).machine.Reachable Started (fun _ _ _ => True) Sample.start cfg ∧
      (backend Sample.plain).machine.Leads Started (fun _ _ _ => True) cfg cfg' ∧
      202 ∈ cfg.state.store.issued ∧ cfg.state.store.db.sessionByToken 202 = none ∧
      cfg'.state.store.db.findActiveUserID 0 203 = some 1 ∧ cfg'.Quiescent :=
    Machine.exists_leads_of_play
      (Sample.ownerCompares ++ Sample.steps 0 1 (Sample.issue 202) ++ Sample.request 1
      (.logout 202) ++
        Sample.steps 1 1 (Sample.here []))
      (.start (.inr (.login "owner" "owner" "generated")) :: Sample.steps 2 2 {} ++
        Sample.steps 2 1 (Sample.issue 203) ++ .start (.inr (.connect 202)) :: Sample.steps 3 1
        (Sample.here []))
      (by decide +kernel)
  obtain ⟨cfg, cfg', -, hleads, hissued, hgone, hagain, hquiet⟩ := hrun
  exact ⟨cfg, cfg', hleads, ⟨hissued, hagain, hquiet⟩, lost_token_refused hleads hissued hgone⟩

end Voxhold.Backend
