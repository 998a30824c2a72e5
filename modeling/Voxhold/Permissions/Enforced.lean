/-
# Voxhold.Permissions.Enforced — who is in voice may speak, who publishes may stream

Nobody is between check and admission while `RefreshRolePermissions` takes its snapshot: whoever was
admitted before is found by it, whoever is checked later meets the new tables. The invariant says of
every client in voice, publisher and handler that the tables permit it, or who is going to notice.
-/

import Voxhold.Account.Bootstrap
import Voxhold.Permissions.Locks

namespace Voxhold.Permissions

open Voxhold.Lib Voxhold.Hub Multiset

variable {x : Input} {s s' : State} {d : Hub.Cmd} {e : StoreCmd} {new : List PermissionInstr}
  {is : List HubInstr} {R S : Multiset PermissionCmd} {c : Client} {srv u : Int} {bit : ℕ}
  {b : Hub.Cmd} {p : VoiceParticipant} {ref : StreamRef}

/-! ## Permitted, or looked at again -/

/-- A refresh of the server has still to take its snapshot. -/
def Refreshing (S : Multiset PermissionCmd) (srv : Int) : Prop :=
  .inr (.clients srv) ∈ S

def Granted (s : State) (S : Multiset PermissionCmd) (srv u : Int) (bit : ℕ) : Prop :=
  s.store.allowed srv u bit ∨ Refreshing S srv

theorem Granted.hub (hstore : s'.store = s.store) (h : Granted s (.inl d ::ₘ R) srv u bit) :
    Granted s' (cmds new + R) srv u bit := by
  rcases h with hallowed | hrefresh
  · exact .inl (by rwa [hstore])
  · rcases mem_cons.mp hrefresh with heq | hR
    · cases heq
    · exact .inr (mem_add.mpr (.inr hR))

theorem allowed_of_exec (he : Store.exec x s e = some (s', new)) (h : s.store.allowed srv u bit) :
    Granted s' (cmds new + R) srv u bit := by
  cases e with
  | change change =>
    simp only [Store.exec] at he
    split at he
    · next tables hperform =>
      split at he
      · cases he
        by_cases hsrv : srv = change.serverID
        · subst hsrv
          exact .inr (by simp [Refreshing, refreshRolePermissions])
        · refine .inl ?_
          show tables.allowed s.store.now srv u bit = true
          rw [Tables.allowed_of_perform hperform hsrv]
          exact h
      · cases he
        exact .inl h
    · cases he
      exact .inl h
  | tick n =>
    cases he
    have hlater : s.store.now ≤ s.store.now + n := by omega
    exact .inl (Tables.allowed_mono hlater h)
  | clients s =>
    simp only [Store.exec] at he
    split at he
    · cases he
      exact .inl h
    · cases he
  | _ =>
    cases he
    exact .inl h

theorem Granted.store (he : Store.exec x s e = some (s', new)) (hne : e ≠ .clients srv)
    (h : Granted s (.inr e ::ₘ R) srv u bit) : Granted s' (cmds new + R) srv u bit := by
  rcases h with hallowed | hrefresh
  · exact allowed_of_exec he hallowed
  · rcases mem_cons.mp hrefresh with heq | hR
    · exact absurd (Sum.inr.inj heq).symm hne
    · exact .inr (mem_add.mpr (.inr hR))

theorem Granted.push {T : Multiset PermissionCmd} (h : Granted s S srv u bit) :
    Granted s (T + S) srv u bit :=
  h.imp_right fun hS => mem_add.mpr (.inr hS)

/-! ## On the way in -/

/-- What a handler between check and admission has been permitted: the account, the server and the
bit. -/
def admits : Hub.Cmd → Option (Int × Int × ℕ)
  | .media (.request .encryption req) | .media (.request .channelAccessAgain req)
  | .media (.join _ _ req) => some (req.client.userID, req.serverID, voiceBit)
  | .media (.stream _ (.start _) req) => some (req.client.userID, req.serverID, streamBit)
  | _ => none

theorem operating_of_admits {g : Int × Int × ℕ} (hb : admits b = some g) : Operating (.inl b) := by
  unfold admits at hb
  split at hb
  · exact trivial
  · exact trivial
  · exact trivial
  · exact trivial
  · cases hb

theorem admits_of_follows {h : HubState} {g : Int × Int × ℕ} (hfollows : Follows h d b)
    (hb : admits b = some g) : admits d = some g ∨
      ∃ req, d = .media (.request .channelAccess req) ∧
      g = (req.client.userID, req.serverID, voiceBit) := by
  cases hfollows with
  | encryption req => exact .inr ⟨req, rfl, (Option.some.inj hb).symm⟩
  | voice action req | insert action req | recheck action req =>
    cases action with
    | start opts => exact .inl hb
    | watch opts => cases hb
  | _ => first | exact .inl hb | cases hb

theorem allowed_of_channelAccess {req : JoinRequest}
    (hagrees : agrees s.store (.media (.request .channelAccess req)) x)
    (he : s.inner.exec x.hub (.media (.request .channelAccess req)) = some (s'.inner, is))
    (hnew : .run b ∈ is) : s.store.allowed req.serverID req.client.userID voiceBit := by
  obtain ⟨m', hm, -⟩ := exec_media he
  cases hm
  simp only [Media.execRequest] at hnew
  split at hnew
  · next hok => simpa [agrees, hok.1] using hagrees
  · simp at hnew

/-! ## On the way out -/

/-- Some goroutine is going to take the client out of voice in the server, or to see whether it has
to. -/
def LeavingVoice (S : Multiset PermissionCmd) (c : Client) (srv : Int) : Prop :=
  (∃ a ∈ [.inr (.rolePermissions srv c), .inr (.voiceRevoked srv c),
    .inl (.media (.revokeVoice c srv)),
    .inl (.media (.revokeStream c srv)), .inl (.media (.voiceLeaveServer c srv))], a ∈ S) ∨
  Ejecting (innerCmds S) c

/-- Some goroutine is going to take the client out of its stream, or to see whether it has to. -/
def LeavingStream (S : Multiset PermissionCmd) (c : Client) (srv : Int) : Prop :=
  ∃ a ∈ [.inr (.rolePermissions srv c), .inr (.voiceRevoked srv c), .inr (.streamRevoked srv c),
    .inr (.isPublisher srv c), .inl (.media (.revokeVoice c srv)), .inl
      (.media (.revokeStream c srv)),
    .inl (.media (.leaveStream c)), .inl (.registry (.closeClient c)), .inl (.registry (.detach c)),
    .inl (.media (.leaveVoice c))], a ∈ S

theorem LeavingVoice.mono {T : Multiset PermissionCmd} (h : LeavingVoice S c srv) :
    LeavingVoice (T + S) c srv := by
  rcases h with ⟨a, ha, hS⟩ | hej
  · exact .inl ⟨a, ha, mem_add.mpr (.inr hS)⟩
  · refine .inr (hej.mono fun b hb => ?_)
    rw [innerCmds_add]
    exact mem_add.mpr (.inr hb)

theorem LeavingStream.mono {T : Multiset PermissionCmd} (h : LeavingStream S c srv) :
    LeavingStream (T + S) c srv := by
  obtain ⟨a, ha, hS⟩ := h
  exact ⟨a, ha, mem_add.mpr (.inr hS)⟩

theorem LeavingStream.of_leaveStream {T : Multiset PermissionCmd}
    (h : .inl (.media (.leaveStream c)) ∈ S) : LeavingStream (T + S) c srv :=
  ⟨.inl (.media (.leaveStream c)), by simp, mem_add.mpr (.inr h)⟩

theorem revoked_or_allowed (t : Store) (ok : Bool) (srv : Int) (c : Client) :
    let pushed := revoked srv c (if ok then t.tables.permissions t.now srv c.userID else none)
    .run (.inr (.voiceRevoked srv c)) ∈ pushed ∨
      t.allowed srv c.userID voiceBit ∧
        (.run (.inr (.streamRevoked srv c)) ∈ pushed ∨ t.allowed srv c.userID streamBit) := by
  intro pushed
  cases ok with
  | false => exact .inl (by simp [pushed, revoked])
  | true =>
    cases hbits : t.tables.permissions t.now srv c.userID with
    | none => exact .inl (by simp [pushed, revoked, hbits])
    | some bits =>
      by_cases hvoice : bits &&& voiceBit = 0
      · exact .inl (by simp [pushed, revoked, hbits, hvoice])
      · refine .inr ⟨by simp [Store.allowed, Tables.allowed, hbits, hvoice], ?_⟩
        by_cases hstream : bits &&& streamBit = 0
        · exact .inl (by simp [pushed, revoked, hbits, hvoice, hstream])
        · exact .inr (by simp [Store.allowed, Tables.allowed, hbits, hstream])

theorem LeavingVoice.hub (he : s.inner.exec x.hub d = some (s'.inner, is))
    (hp : s'.inner.media.voice.current c = some p) (hold : s.inner.media.voice.current c = some p)
    (hd : d ≠ .media (.voiceLeave c)) (h : LeavingVoice (.inl d ::ₘ R) c p.serverID) :
    LeavingVoice ((cmds (called is : List PermissionInstr) : Multiset PermissionCmd) + R) c
    p.serverID := by
  rcases h with ⟨a, ha, hS⟩ | hej
  · rcases mem_cons.mp hS with rfl | hR
    · simp only [List.mem_cons, Sum.inl.injEq, reduceCtorEq, false_or, List.not_mem_nil,
        or_false] at ha
      obtain rfl | rfl | rfl := ha
      · obtain ⟨m', hm, -⟩ := exec_media he
        cases hm
        refine .inl ⟨.inl (.media (.revokeStream c p.serverID)), by simp, ?_⟩
        simp [hold, inServer, called, Instr.map]
      · obtain ⟨m', hm, -⟩ := exec_media he
        cases hm
        refine .inl ⟨.inl (.media (.voiceLeaveServer c p.serverID)), by simp, ?_⟩
        simp [called, Instr.map]
      · -- `leaveServer` takes the client out
        obtain ⟨m', hm, hinner⟩ := exec_media he
        cases hm
        rw [hinner] at hp
        simp [VoiceState.current_leaveServer, hold] at hp
    · exact .inl ⟨a, ha, mem_add.mpr (.inr hR)⟩
  · rw [innerCmds_cons_inl] at hej
    refine .inr ?_
    rw [innerCmds_add, innerCmds_called]
    exact hej.fire he hd

theorem LeavingVoice.store (he : Store.exec x s e = some (s', new))
    (hold : s.inner.media.voice.current c = some p) (h : LeavingVoice (.inr e ::ₘ R) c p.serverID) :
    s'.store.allowed p.serverID c.userID voiceBit ∨
      LeavingVoice (cmds new + R) c p.serverID := by
  rcases h with ⟨a, ha, hS⟩ | hej
  · rcases mem_cons.mp hS with rfl | hR
    · simp only [List.mem_cons, Sum.inr.injEq, reduceCtorEq, List.not_mem_nil, or_false] at ha
      obtain rfl | rfl := ha
      · cases he
        rcases revoked_or_allowed s.store x.hub.ok p.serverID c with hrevoked | ⟨hallowed, -⟩
        · exact .inr
            (.inl ⟨.inr (.voiceRevoked p.serverID c), by simp, by simpa using .inl hrevoked⟩)
        · exact .inl hallowed
      · cases he
        refine .inr (.inl ⟨.inl (.media (.revokeVoice c p.serverID)), by simp, ?_⟩)
        simp [hold, inServer, called, Instr.map]
    · exact .inr (.inl ⟨a, ha, mem_add.mpr (.inr hR)⟩)
  · rw [innerCmds_cons_inr] at hej
    refine .inr (.inr ?_)
    rw [innerCmds_add]
    exact hej.mono fun b hb => mem_add.mpr (.inr hb)

theorem not_rechecking {T : Multiset Hub.Cmd} (hexcl : Excludes d T)
    (hd : (.mediaTransition c.userID, .exclusive) ∈ d.needs) : ¬Rechecking T c := by
  rintro ⟨b, hb, req, hreq, rfl⟩
  obtain ⟨action, rfl⟩ := rechecking_iff.mp hreq
  exact hexcl _ hb trivial (.mediaTransition req.client.userID) .exclusive (by simp) hd

theorem inVoice_of_stream {h : HubState} {T : Multiset Hub.Cmd} (hstreams : StreamsInVoice h T)
    (hlook : ¬Rechecking T c) (href : h.media.streams.current c = some ref) :
    .media (.leaveStream c) ∈ T ∨
      (∃ p, h.media.voice.current c = some p ∧ p.serverID = ref.serverID) ∧
      .media (.voiceLeave c) ∉ T := by
  rcases hstreams.members c ref href with hre | hleave | ⟨hin, hstay⟩
  · exact absurd hre hlook
  · exact .inl hleave
  · obtain ⟨p, hp, hserver, -⟩ := inChannel_iff.mp hin
    exact .inr ⟨⟨p, hp, hserver⟩, hstay⟩

theorem LeavingStream.hub (he : s.inner.exec x.hub d = some (s'.inner, is))
    (hstreams : StreamsInVoice s.inner (d ::ₘ innerCmds R)) (hexcl : Excludes d (innerCmds R))
    (href : s'.inner.media.streams.current c = some ref)
    (hold : s.inner.media.streams.current c = some ref)
    (h : LeavingStream (.inl d ::ₘ R) c ref.serverID) :
    LeavingStream ((cmds (called is : List PermissionInstr) : Multiset PermissionCmd) + R) c
    ref.serverID := by
  obtain ⟨a, ha, hS⟩ := h
  rcases mem_cons.mp hS with rfl | hR
  · simp only [List.mem_cons, Sum.inl.injEq, reduceCtorEq, false_or, List.not_mem_nil,
      or_false] at ha
    obtain rfl | rfl | rfl | rfl | rfl | rfl := ha
    · -- the revocation of voice takes the stream with it, if it finds the client in voice
      have hlook : ¬Rechecking (.media (.revokeVoice c ref.serverID) ::ₘ innerCmds R) c := by
        rintro ⟨b, hb, req, hreq, hc⟩
        rcases mem_cons.mp hb with rfl | hb
        · cases hreq
        · exact not_rechecking hexcl (by simp) ⟨b, hb, req, hreq, hc⟩
      rcases inVoice_of_stream hstreams hlook hold with hleave | ⟨⟨p, hp, hserver⟩, -⟩
      · exact .of_leaveStream (by simpa using hleave)
      · obtain ⟨m', hm, -⟩ := exec_media he
        cases hm
        refine ⟨.inl (.media (.revokeStream c ref.serverID)), by simp, ?_⟩
        simp [hp, hserver, inServer, called, Instr.map]
    · obtain ⟨m', hm, hinner⟩ := exec_media he
      cases hm
      rw [hinner] at href
      simp [StreamState.current_leave_self] at href
    · rcases stream_of_exec he href with ⟨-, hne, -⟩ | ⟨action, req, heq, -⟩
      · exact absurd rfl hne
      · cases heq
    · obtain ⟨r', hr, -⟩ := exec_registry he
      cases hr
      refine ⟨.inl (.registry (.detach c)), by simp, ?_⟩
      simp [called, Instr.map]
    · obtain ⟨r', hr, -⟩ := exec_registry he
      simp only [Registry.exec] at hr
      split at hr
      · cases hr
        refine ⟨.inl (.media (.leaveVoice c)), by simp, ?_⟩
        simp [called, Instr.map]
      · cases hr
    · rcases stream_of_exec he href with ⟨-, -, hne⟩ | ⟨action, req, heq, -⟩
      · exact absurd rfl hne
      · cases heq
  · exact ⟨a, ha, mem_add.mpr (.inr hR)⟩

theorem LeavingStream.store (he : Store.exec x s e = some (s', new))
    (hstreams : StreamsInVoice s.inner (innerCmds R))
    (hexcl : Excludes (standIn (.inr e)) (innerCmds R)) (hpub : s.inner.media.streams.isPublisher c)
    (hold : s.inner.media.streams.current c = some ref)
    (h : LeavingStream (.inr e ::ₘ R) c ref.serverID) :
    s'.store.allowed ref.serverID c.userID streamBit ∨
      LeavingStream (cmds new + R) c ref.serverID := by
  obtain ⟨a, ha, hS⟩ := h
  rcases mem_cons.mp hS with rfl | hR
  · simp only [List.mem_cons, Sum.inr.injEq, reduceCtorEq, List.not_mem_nil, or_false] at ha
    obtain rfl | rfl | rfl | rfl := ha
    · cases he
      rcases revoked_or_allowed s.store x.hub.ok ref.serverID c with hvoice | ⟨-,
        hstream | hallowed⟩
      · exact .inr ⟨.inr (.voiceRevoked ref.serverID c), by simp, by simpa using .inl hvoice⟩
      · exact .inr ⟨.inr (.streamRevoked ref.serverID c), by simp, by simpa using .inl hstream⟩
      · exact .inl hallowed
    · cases he
      rcases inVoice_of_stream hstreams
        (not_rechecking hexcl (by simp [standIn])) hold with hleave | ⟨⟨p, hp, hserver⟩, -⟩
      · exact .inr (.of_leaveStream (mem_innerCmds.mp hleave))
      · refine .inr ⟨.inl (.media (.revokeVoice c ref.serverID)), by simp, ?_⟩
        simp [hp, hserver, inServer, called, Instr.map]
    · cases he
      rcases inVoice_of_stream hstreams
        (not_rechecking hexcl (by simp [standIn])) hold with hleave | ⟨⟨p, hp, hserver⟩, -⟩
      · exact .inr (.of_leaveStream (mem_innerCmds.mp hleave))
      · refine .inr ⟨.inr (.isPublisher ref.serverID c), by simp, ?_⟩
        simp [hp, hserver, inServer]
    · cases he
      refine .inr ⟨.inl (.media (.leaveStream c)), by simp, ?_⟩
      simp [hpub, called, Instr.map]
  · exact .inr ⟨a, ha, mem_add.mpr (.inr hR)⟩

/-! ## The invariant -/

structure Enforced (s : State) (S : Multiset PermissionCmd) : Prop where
  admitted : ∀ b u srv bit, .inl b ∈ S → admits b = some (u, srv, bit) → Granted s S srv u bit
  participants : ∀ c p, s.inner.media.voice.current c = some p →
    Granted s S p.serverID c.userID voiceBit ∨ LeavingVoice S c p.serverID
  publishers : ∀ c ref, s.inner.media.streams.isPublisher c →
    s.inner.media.streams.current c = some ref →
    Granted s S ref.serverID c.userID streamBit ∨ LeavingStream S c ref.serverID

theorem Enforced.push {T : Multiset PermissionCmd}
    (hT : ∀ b u srv bit, .inl b ∈ T → admits b = some (u, srv, bit) → Granted s (T + S) srv u bit)
    (hinv : Enforced s S) : Enforced s (T + S) where
  admitted b u srv bit hmem hb := by
    rcases mem_add.mp hmem with hnew | hS
    · exact hT b u srv bit hnew hb
    · exact (hinv.admitted b u srv bit hS hb).push
  participants := fun c p hp => (hinv.participants c p hp).imp Granted.push LeavingVoice.mono
  publishers :=
    fun c ref hpub href => (hinv.publishers c ref hpub href).imp Granted.push LeavingStream.mono

theorem Enforced.hub (hagrees : agrees s.store d x)
    (he : s.inner.exec x.hub d = some (s'.inner, is))
    (hstore : s'.store = s.store) (hstreams : StreamsInVoice s.inner (d ::ₘ innerCmds R))
    (hexcl : Excludes d (innerCmds R)) (hinv : Enforced s (.inl d ::ₘ R)) :
    Enforced s' ((cmds (called is : List PermissionInstr) : Multiset PermissionCmd) + R) where
  admitted b u srv bit hmem hb := by
    rcases mem_pushed.mp hmem with hnew | hR
    · have hnew := run_inl_mem_called.mp hnew
      rcases admits_of_follows (follows_of_exec he hnew) hb with hd | ⟨req, rfl, hg⟩
      · exact (hinv.admitted d u srv bit (by simp) hd).hub hstore
      · -- the first check of a join, answered by the tables
        obtain ⟨rfl, rfl, rfl⟩ : u = req.client.userID ∧ srv = req.serverID ∧ bit = voiceBit := by
          simpa using hg
        refine .inl ?_
        rw [hstore]
        exact allowed_of_channelAccess hagrees he hnew
    · exact (hinv.admitted b u srv bit (mem_cons_of_mem hR) hb).hub hstore
  participants c p hp := by
    rcases current_of_exec he hp with ⟨hold, hd⟩ | ⟨caller, req, rfl, rfl, hserver, -⟩
    · rcases hinv.participants c p hold with hgranted | hleaving
      · exact .inl (hgranted.hub hstore)
      · exact .inr (hleaving.hub he hp hold hd)
    · rw [hserver]
      exact .inl ((hinv.admitted _ _ _ _ (mem_cons_self _ _) rfl).hub hstore)
  publishers c ref hpub href := by
    rcases publisher_of_exec he hpub with ⟨hpub', hsame⟩ | ⟨opts, req, rfl, rfl, hserver⟩
    · rw [hsame] at href
      rcases hinv.publishers c ref hpub' href with hgranted | hleaving
      · exact .inl (hgranted.hub hstore)
      · exact .inr (hleaving.hub he hstreams hexcl (hsame.trans href) href)
    · rw [hserver ref href]
      exact .inl ((hinv.admitted _ _ _ _ (mem_cons_self _ _) rfl).hub hstore)

theorem rolePermissions_of_clients (he : Store.exec x s (.clients srv) = some (s', new))
    (hkept : HubKept s.inner (innerCmds R)) (hp : s.inner.media.voice.current c = some p)
    (hsrv : p.serverID = srv) :
    .run (.inr (.rolePermissions srv c)) ∈ new ∨ Ejecting (innerCmds R) c := by
  rcases hkept.registered c p hp with hreg | hej
  · refine .inl ?_
    have hserver : srv ∈ s.inner.registry.servers c := by
      rcases hkept.members.participants c p hp with hs | hgone
      · exact hsrv ▸ hs
      · exact absurd hreg hgone.1
    simp only [Store.exec] at he
    split at he
    · next hperm =>
      cases he
      have hmem : c ∈ x.hub.clients :=
        hperm.mem_iff.mpr ((Registry.mem_clientsForServer _).mpr ⟨hreg, hserver⟩)
      exact List.mem_flatMap.mpr ⟨c, hmem, by simp [refreshClient]⟩
    · cases he
  · exact .inr hej

theorem LeavingStream.of_ejecting {T : Multiset PermissionCmd} (hej : Ejecting (innerCmds S) c)
    (hstay : .media (.voiceLeave c) ∉ innerCmds S) : LeavingStream (T + S) c srv := by
  obtain ⟨b, hb, hS⟩ := hej
  simp only [ejection, List.mem_cons, List.not_mem_nil, or_false] at hb
  have hmem : .inl b ∈ T + S := mem_add.mpr (.inr (mem_innerCmds.mp hS))
  rcases hb with rfl | rfl | rfl | rfl
  · exact ⟨_, by simp, hmem⟩
  · exact ⟨_, by simp, hmem⟩
  · exact ⟨_, by simp, hmem⟩
  · exact absurd hS hstay

theorem LeavingStream.of_clients (he : Store.exec x s (.clients srv) = some (s', new))
    (hkept : HubKept s.inner (innerCmds R)) (hfree : ∀ a, Operating a → a ∉ R)
    (href : s.inner.media.streams.current c = some ref) (hsrv : ref.serverID = srv) :
    LeavingStream (cmds new + R) c srv := by
  have hlook : ¬Rechecking (innerCmds R) c := by
    rintro ⟨b, hb, req, hreq, -⟩
    obtain ⟨action, rfl⟩ := rechecking_iff.mp hreq
    exact hfree (.inl (.media (.stream .recheck action req))) (by trivial) (mem_innerCmds.mp hb)
  rcases inVoice_of_stream hkept.streams hlook href with hleave | ⟨⟨p, hp, hserver⟩, hstay⟩
  · exact .of_leaveStream (mem_innerCmds.mp hleave)
  · rcases rolePermissions_of_clients he hkept hp (hserver.trans hsrv) with hnew | hej
    · exact ⟨.inr (.rolePermissions srv c), by simp, by simpa using .inl hnew⟩
    · exact .of_ejecting hej hstay

theorem LeavingVoice.of_clients (he : Store.exec x s (.clients srv) = some (s', new))
    (hkept : HubKept s.inner (innerCmds R)) (hp : s.inner.media.voice.current c = some p)
    (hsrv : p.serverID = srv) : LeavingVoice (cmds new + R) c srv := by
  rcases rolePermissions_of_clients he hkept hp hsrv with hnew | hej
  · exact .inl ⟨.inr (.rolePermissions srv c), by simp, by simpa using .inl hnew⟩
  · exact LeavingVoice.mono (.inr hej)

theorem allowed_of_checkStreamAccess {opts : StartOptions} {req : StreamRequest} {a : PermissionCmd}
    (he : Store.exec x s (.checkStreamAccess opts req) = some (s', new)) (hnew : .run a ∈ new) :
    s'.store.allowed req.serverID req.client.userID streamBit := by
  cases he
  split at hnew
  · next hok => exact hok.2
  · simp at hnew

theorem Enforced.store (he : Store.exec x s e = some (s', new))
    (hkept : HubKept s.inner (innerCmds R)) (hexcl : Excludes (standIn (.inr e)) (innerCmds R))
    (hfree : ∀ srv, e = .clients srv → ∀ a, Operating a → a ∉ R)
    (hinv : Enforced s (.inr e ::ₘ R)) : Enforced s' (cmds new + R) where
  admitted b u srv bit hmem hb := by
    rcases mem_pushed.mp hmem with hnew | hR
    · cases leads_of_exec he hnew with
      | start opts req =>
        obtain ⟨rfl, rfl, rfl⟩ : req.client.userID = u ∧ req.serverID = srv ∧ streamBit = bit := by
          simpa [admits] using hb
        exact .inl (allowed_of_checkStreamAccess he hnew)
      | _ => cases hb
    · refine (hinv.admitted b u srv bit (mem_cons_of_mem hR) hb).store he fun heq => ?_
      exact hfree srv heq _ (operating_of_admits hb) hR
  participants c p hp := by
    rw [inner_of_exec he] at hp
    by_cases heq : e = .clients p.serverID
    · subst heq
      exact .inr (.of_clients he hkept hp rfl)
    · rcases hinv.participants c p hp with hgranted | hleaving
      · exact .inl (hgranted.store he heq)
      · exact (hleaving.store he hp).imp_left .inl
  publishers c ref hpub href := by
    rw [inner_of_exec he] at hpub href
    by_cases heq : e = .clients ref.serverID
    · subst heq
      exact .inr (.of_clients he hkept (hfree _ rfl) href rfl)
    · rcases hinv.publishers c ref hpub href with hgranted | hleaving
      · exact .inl (hgranted.store he heq)
      · exact (hleaving.store he hkept.streams hexcl hpub href).imp_left .inl

/-! ## Whole runs -/

section Runs

variable {servers : Client → Finset Int} {e2eeRequired : Int → Bool} {limits : ViewerLimits}
  {tables : Tables} {now : Int} {cfg : PermissionConfig}

theorem enforced_reachable
    (hrun : permissions.machine.Reachable Started Timely (initial servers e2eeRequired limits tables
    now) cfg) : Enforced cfg.state cfg.pending := by
  refine hrun.induction (P := Enforced) ?_ ?_ ?_
  · refine ⟨by simp, fun c p hp => ?_, fun c ref _ href => ?_⟩
    · exact absurd hp (by simp [initial, HubState.new])
    · exact absurd href (by simp [initial, HubState.new, StreamState.current_new])
  · intro s S op hop hinv
    refine hinv.push fun b u srv bit hmem hb => ?_
    have hmem := mem_cmds.mp (mem_coe.mp hmem)
    exact absurd hmem (operating_not_mem_body hop (operating_of_admits hb))
  · rintro cfg i (d | e) x s' new rest R hcfg hf - hinv
    · have hkept := hubKept_reachable hcfg
      rw [hf.pending, innerCmds_cons_inl] at hkept
      have hexcl := excludes_of_fires hcfg hf
      obtain ⟨is, hagrees, hexec, hstore, rfl⟩ := Extension.exec_inl hf.exec
      exact hinv.hub hagrees hexec hstore hkept.streams hexcl
    · have hkept := hubKept_reachable hcfg
      rw [hf.pending, innerCmds_cons_inr] at hkept
      refine hinv.store hf.exec hkept (excludes_of_fires hcfg hf) ?_
      rintro srv rfl a ha
      exact operating_not_mem hcfg hf ha

/-- **Permissions are enforced.** In every run of permission changes, joins, streams and leaves in
which no join is late and no recheck falls within a `leaveVoice`, when no operation is in progress
every client in voice has Voice in its server, and every publisher has Stream in the server of its
stream. -/
theorem permissions_enforced
    (hrun : permissions.machine.Reachable Started Timely (initial servers e2eeRequired limits tables
    now) cfg) (hquiet : cfg.Quiescent) : (∀ c p, cfg.state.inner.media.voice.current c = some p →
      cfg.state.store.allowed p.serverID c.userID voiceBit) ∧
    ∀ c ref, cfg.state.inner.media.streams.isPublisher c →
      cfg.state.inner.media.streams.current c = some ref →
      cfg.state.store.allowed ref.serverID c.userID streamBit := by
  have hinv := enforced_reachable hrun
  rw [hquiet.pending_eq_zero] at hinv
  constructor
  · intro c p hp
    rcases hinv.participants c p hp with (hallowed | hrefresh) | ⟨a, -, ha⟩ | hej
    · exact hallowed
    · exact absurd hrefresh (notMem_zero _)
    · exact absurd ha (notMem_zero a)
    · exact absurd hej not_ejecting_zero
  · intro c ref hpub href
    rcases hinv.publishers c ref hpub href with (hallowed | hrefresh) | ⟨a, -, ha⟩
    · exact hallowed
    · exact absurd hrefresh (notMem_zero _)
    · exact absurd ha (notMem_zero a)

end Runs

/-! ## Runs of one publisher -/

namespace Sample

def client : Client := ⟨1, 2, 201⟩

/-- The owner 1 and the members 2 and 3 of server 1, without custom roles. -/
def tables : Tables where
  db := Account.run Account.Sample.instance₁ Account.Sample.members
  roles := Table.empty
  assigned := ∅
  refs := by simp

def start : State := initial (fun _ => {1}) (fun _ => false) ⟨10, 10⟩ tables 0

abbrev Moves := List (Machine.Move Input (Hub.Op ⊕ PermissionOp))

/-- Goroutine `i` takes `n` steps while these clients are connected. -/
def steps (clients : List Client) (i n : ℕ) : Moves :=
  List.replicate n (.step i { hub := { clients := clients, serverIDs := [1] } })

/-- The client of account 2 connects and is about to enter channel 5, as goroutine 1. -/
def joining : Moves :=
  .start (.inl (.register client)) :: steps [client] 0 5 ++
    .start (.inl (.joinVoice ⟨client, 1, 5, false, false, ""⟩)) :: steps [client] 1 11

def entering : Moves := steps [client] 1 9

/-- In voice, it starts a stream and is about to be entered as its publisher, as goroutine 2. -/
def starting : Moves :=
  .start (.inr (.startStream ⟨.p2p, .vp8, false, []⟩ ⟨client, 1, 5⟩)) :: steps [client] 2 6

def publishing : Moves := steps [client] 2 4

def timeout (target : ℕ) (clients : List Client) (i n : ℕ) : Moves :=
  .start (.inr (.change (.setMemberTimeout 1 1 target (some 1000)))) :: steps clients i n

end Sample

/-- The theorem at a run: account 2 publishes while account 3 is put in timeout. -/
theorem permissions_enforced_publisher :
    ∃ cfg, permissions.machine.Reachable Started Timely Sample.start cfg ∧ cfg.Quiescent ∧
      cfg.state.inner.media.streams.isPublisher Sample.client ∧
      (∃ p, cfg.state.inner.media.voice.current Sample.client = some p ∧
        cfg.state.store.allowed p.serverID 2 voiceBit) ∧
      ∃ ref, cfg.state.inner.media.streams.current Sample.client = some ref ∧
        cfg.state.store.allowed ref.serverID 2 streamBit := by
  have hrun : ∃ cfg, permissions.machine.Reachable Started Timely Sample.start cfg ∧ cfg.Quiescent ∧
      cfg.state.inner.media.streams.isPublisher Sample.client ∧
      (cfg.state.inner.media.voice.current Sample.client).isSome ∧
      (cfg.state.inner.media.streams.current Sample.client).isSome :=
    Machine.exists_reachable_of_play (Sample.joining ++ Sample.entering ++ Sample.starting ++
      Sample.publishing ++ Sample.timeout 3 [Sample.client] 3 14) (by decide +kernel)
  obtain ⟨cfg, hreach, hquiet, hpub, hvoice, hstream⟩ := hrun
  obtain ⟨hparticipants, hpublishers⟩ := permissions_enforced hreach hquiet
  obtain ⟨p, hp⟩ := Option.isSome_iff_exists.mp hvoice
  obtain ⟨ref, href⟩ := Option.isSome_iff_exists.mp hstream
  exact ⟨cfg, hreach, hquiet, hpub, ⟨p, hp, hparticipants _ p hp⟩, ref, href,
    hpublishers _ ref hpub href⟩

/-- **A publisher without the permission, and a ghost in voice.** The stream is entered and
rechecked between the two removals of `LeaveVoice`; a timeout of the account finds the client in no
voice channel and leaves its stream alone. And a join that enters its client after `Unregister` is
found by no refresh. -/
theorem publisher_without_permission :
    (∃ cfg, permissions.machine.Reachable Started (fun _ _ _ => True) Sample.start cfg ∧
    cfg.Quiescent ∧
      cfg.state.inner.media.streams.isPublisher Sample.client ∧
      cfg.state.inner.media.streams.current Sample.client = some ⟨1, 5, Sample.client⟩ ∧
      ¬cfg.state.store.allowed 1 2 streamBit) ∧
    ∃ cfg, permissions.machine.Reachable Started (fun _ _ _ => True) Sample.start cfg ∧
    cfg.Quiescent ∧
      (cfg.state.inner.media.voice.current Sample.client).map VoiceParticipant.serverID = some 1 ∧
      ¬cfg.state.store.allowed 1 2 voiceBit := by
  constructor
  · exact Machine.exists_reachable_of_play (Sample.joining ++ Sample.entering ++ Sample.starting ++
      .start (.inl (.leaveVoice Sample.client)) :: Sample.steps [] 3 1 ++ Sample.publishing ++
      Sample.steps [] 3 2 ++ Sample.timeout 2 [Sample.client] 4 15) (by decide +kernel)
  · exact Machine.exists_reachable_of_play (Sample.joining ++
      .start (.inl (.unregister Sample.client)) :: Sample.steps [] 2 6 ++ Sample.entering ++
      Sample.timeout 2 [] 3 7) (by decide +kernel)

end Voxhold.Permissions
