/-
# Voxhold.Permissions.Locks — what the locks and the hub's invariants give around permission changes

`channelAccessMu` is shared by every handler for its whole procedure: while `RefreshRolePermissions`
takes its snapshot, nobody is between the permission check and the admission (`operating_not_mem`).
The media locks and the hub's invariants are those of the hub alone.
-/

import Voxhold.Hub.GhostVoice
import Voxhold.Hub.StreamVoice
import Voxhold.Hub.VoiceMembers
import Voxhold.Permissions.Operations

namespace Voxhold.Permissions

open Voxhold.Lib Voxhold.Hub

variable {x : Input} {s s' : State} {e : StoreCmd} {new rest : List PermissionInstr}
  {R S : Multiset PermissionCmd} {c : Client} {srv : Int}
  {a : PermissionCmd}

/-! ## What the store's commands push -/

theorem inner_of_exec (he : Store.exec x s e = some (s', new)) : s'.inner = s.inner := by
  cases e with
  | change change =>
    simp only [Store.exec] at he
    repeat' split at he
    all_goals
      cases he
      rfl
  | clients srv =>
    simp only [Store.exec] at he
    split at he
    · cases he
      rfl
    · cases he
  | _ =>
    cases he
    rfl

inductive Pushes : StoreCmd → List PermissionInstr → Prop where
  | none (e : StoreCmd) : Pushes e []
  | refresh (change : Change) : Pushes (.change change) (refreshRolePermissions change.serverID)
  | rounds (srv : Int) (clients : List Client) :
      Pushes (.clients srv) (clients.flatMap (refreshClient srv))
  | voiceRevoked (srv : Int) (c : Client) :
      Pushes (.rolePermissions srv c) [.run (.inr (.voiceRevoked srv c))]
  | streamRevoked (srv : Int) (c : Client) :
      Pushes (.rolePermissions srv c) [.run (.inr (.streamRevoked srv c))]
  | revokeVoice (srv : Int) (c : Client) :
      Pushes (.voiceRevoked srv c) (called [.run (.media (.revokeVoice c srv))])
  | isPublisher (srv : Int) (c : Client) :
      Pushes (.streamRevoked srv c) [.run (.inr (.isPublisher srv c))]
  | leaveStream (srv : Int) (c : Client) :
      Pushes (.isPublisher srv c) (called [.run (.media (.leaveStream c))])
  | checkStreamAccess (opts : StartOptions) (req : StreamRequest) :
      Pushes (.checkVoiceAccess opts req) [.run (.inr (.checkStreamAccess opts req))]
  | voiceRefused (opts : StartOptions) (req : StreamRequest) :
      Pushes (.checkVoiceAccess opts req) [.release .channelAccess]
  | start (opts : StartOptions) (req : StreamRequest) :
      Pushes (.checkStreamAccess opts req) (admitStream (.start opts) req)
  | streamRefused (opts : StartOptions) (req : StreamRequest) :
      Pushes (.checkStreamAccess opts req) [.release .channelAccess]
  | watch (opts : WatchOptions) (req : StreamRequest) :
      Pushes (.watchStream opts req) (admitStream (.watch opts) req)
  | watchRefused (opts : WatchOptions) (req : StreamRequest) :
      Pushes (.watchStream opts req) [.release .channelAccess]

theorem pushes_revoked (srv : Int) (c : Client) (bits : Option ℕ) :
    Pushes (.rolePermissions srv c) (revoked srv c bits) := by
  unfold revoked
  repeat' split
  · exact .voiceRevoked srv c
  · exact .voiceRevoked srv c
  · exact .streamRevoked srv c
  · exact .none _

theorem pushes_of_exec (he : Store.exec x s e = some (s', new)) : Pushes e new := by
  cases e with
  | change change =>
    simp only [Store.exec] at he
    repeat' split at he
    all_goals cases he
    · exact .refresh change
    · exact .none _
    · exact .none _
  | clients srv =>
    simp only [Store.exec] at he
    split at he
    · cases he
      exact .rounds srv _
    · cases he
  | rolePermissions srv c =>
    cases he
    exact pushes_revoked srv c _
  | tick n =>
    cases he
    exact .none _
  | _ =>
    cases he
    split
    · constructor
    · constructor

inductive Leads : StoreCmd → PermissionCmd → Prop where
  | clients (change : Change) : Leads (.change change) (.inr (.clients change.serverID))
  | refreshSnapshot (change : Change) :
      Leads (.change change) (.inl (.registry (.refreshSnapshot change.serverID)))
  | rolePermissions (srv : Int) (c : Client) : Leads (.clients srv) (.inr (.rolePermissions srv c))
  | voiceRevoked (srv : Int) (c : Client) :
      Leads (.rolePermissions srv c) (.inr (.voiceRevoked srv c))
  | streamRevoked (srv : Int) (c : Client) :
      Leads (.rolePermissions srv c) (.inr (.streamRevoked srv c))
  | revokeVoice (srv : Int) (c : Client) :
      Leads (.voiceRevoked srv c) (.inl (.media (.revokeVoice c srv)))
  | isPublisher (srv : Int) (c : Client) : Leads (.streamRevoked srv c) (.inr (.isPublisher srv c))
  | leaveStream (srv : Int) (c : Client) :
      Leads (.isPublisher srv c) (.inl (.media (.leaveStream c)))
  | checkStreamAccess (opts : StartOptions) (req : StreamRequest) :
      Leads (.checkVoiceAccess opts req) (.inr (.checkStreamAccess opts req))
  | start (opts : StartOptions) (req : StreamRequest) :
      Leads (.checkStreamAccess opts req) (.inl (.media (.stream .access (.start opts) req)))
  | watch (opts : WatchOptions) (req : StreamRequest) :
      Leads (.watchStream opts req) (.inl (.media (.stream .access (.watch opts) req)))

theorem mem_refreshRolePermissions : .run a ∈ refreshRolePermissions srv ↔
      a = .inr (.clients srv) ∨ a = .inl (.registry (.refreshSnapshot srv)) := by
  simp [refreshRolePermissions, called, Op.body, Instr.map]

theorem Pushes.leads (hp : Pushes e new) (ha : .run a ∈ new) : Leads e a := by
  cases hp with
  | none | voiceRefused | streamRefused | watchRefused => simp at ha
  | refresh change =>
    rcases mem_refreshRolePermissions.mp ha with rfl | rfl
    · exact .clients change
    · exact .refreshSnapshot change
  | rounds srv clients =>
    obtain ⟨c, -, hmem⟩ := List.mem_flatMap.mp ha
    obtain rfl : a = .inr (.rolePermissions srv c) := by simpa [refreshClient] using hmem
    exact .rolePermissions srv c
  | revokeVoice srv c =>
    obtain rfl : a = .inl (.media (.revokeVoice c srv)) := by simpa [called, Instr.map] using ha
    exact .revokeVoice srv c
  | leaveStream srv c =>
    obtain rfl : a = .inl (.media (.leaveStream c)) := by simpa [called, Instr.map] using ha
    exact .leaveStream srv c
  | start opts req =>
    obtain rfl : a = .inl (.media (.stream .access (.start opts) req)) := by
      simpa [admitStream, called, Op.body, Instr.map] using ha
    exact .start opts req
  | watch opts req =>
    obtain rfl : a = .inl (.media (.stream .access (.watch opts) req)) := by
      simpa [admitStream, called, Op.body, Instr.map] using ha
    exact .watch opts req
  | voiceRevoked | streamRevoked | isPublisher | checkStreamAccess =>
    obtain rfl := run_inj ha
    constructor

theorem leads_of_exec (he : Store.exec x s e = some (s', new)) (ha : .run a ∈ new) : Leads e a :=
  (pushes_of_exec he).leads ha

theorem Leads.callable {b : Hub.Cmd} (hl : Leads e (.inl b)) : b.Callable ∧ ¬b.Revokes := by
  cases hl with
  | revokeVoice srv c => exact ⟨.inr ⟨c, srv, rfl⟩, id⟩
  | _ => exact ⟨.inl trivial, id⟩

/-! ## `channelAccessMu` -/

/-- Where `channelAccessMu` is taken for the next command. -/
def takes : PermissionCmd → List (Hub.Lock × Mode)
  | .inl (.media (.request .channelAccess _)) | .inr (.checkVoiceAccess _ _) | .inr
      (.watchStream _ _) =>
    [(.channelAccess, .shared)]
  | .inr (.clients _) => [(.channelAccess, .exclusive)]
  | _ => []

theorem takesEach_refreshRolePermissions (srv : Int) :
    TakesEach takes none (refreshRolePermissions srv) :=
  ⟨by simp [takes], by simp [takes], trivial⟩

theorem takesEach_body (op : Hub.Op ⊕ PermissionOp) :
    TakesEach takes none (permissions.machine.body op) := by
  rcases op with op | op
  · show TakesEach takes none (called op.body)
    cases op with
    | joinVoice req => exact ⟨by simp [takes], trivial⟩
    | _ =>
      refine TakesEach.of_needless fun a ha => ?_
      rcases a with b | e
      · rw [run_inl_mem_called] at ha
        simp [Op.body] at ha
        subst ha
        rfl
      · exact absurd ha run_inr_mem_called
  · show TakesEach takes none op.body
    cases op with
    | refreshRolePermissions srv => exact takesEach_refreshRolePermissions srv
    | startStream opts req | watchStream opts req | change change
    | tick n => exact ⟨by simp [takes], trivial⟩

theorem takesEach_exec (he : permissions.machine.exec a x s = some (s', new)) :
    TakesEach takes none new := by
  rcases a with d | e
  · -- no command of the hub leads to the first check of a join
    obtain ⟨is, -, hexec, -, rfl⟩ := Extension.exec_inl he
    refine TakesEach.of_needless fun a ha => ?_
    rcases a with b | e
    · cases follows_of_exec hexec (run_inl_mem_called.mp ha) <;> rfl
    · exact absurd ha run_inr_mem_called
  · cases pushes_of_exec he with
    | refresh change => exact takesEach_refreshRolePermissions _
    | rounds srv clients =>
      refine TakesEach.of_needless fun a ha => ?_
      cases (Pushes.rounds srv clients).leads ha
      rfl
    | start | watch => exact ⟨by simp [takes], trivial⟩
    | voiceRefused | streamRefused | watchRefused | none => trivial
    | _ => exact ⟨by simp [takes], trivial⟩

/-- The commands of a handler between its first permission check and the hub's admission. -/
def Operating : PermissionCmd → Prop
  | .inl b => b.Operating
  | .inr (.checkStreamAccess _ _) => True
  | .inr _ => False

theorem operating_not_mem_refreshRolePermissions (ha : Operating a) :
    .run a ∉ refreshRolePermissions srv := by
  rw [mem_refreshRolePermissions]
  rintro (rfl | rfl)
  · exact ha
  · exact ha

theorem operating_not_mem_body {op : Hub.Op ⊕ PermissionOp} (hop : Started op)
    (ha : Operating a) : .run a ∉ permissions.machine.body op := by
  intro hmem
  rcases op with op | op
  · rcases a with b | e
    · have hb : .run b ∈ op.body := run_inl_mem_called.mp hmem
      cases op <;> simp [Op.body] at hb <;> subst hb <;> first | exact ha | exact hop
    · exact run_inr_mem_called hmem
  · have hmem : .run a ∈ op.body := hmem
    cases op with
    | refreshRolePermissions srv => exact operating_not_mem_refreshRolePermissions ha hmem
    | _ =>
      simp [PermissionOp.body] at hmem
      subst hmem
      exact ha

theorem foremost_exec (he : permissions.machine.exec a x s = some (s', new)) :
    Foremost Operating new := by
  rcases a with d | e
  · obtain ⟨is, -, hexec, -, rfl⟩ := Extension.exec_inl he
    exact Foremost.map_cmd (foremost_of_exec hexec)
  · cases pushes_of_exec he with
    | rounds srv clients =>
      refine .of_not_mem fun a ha hmem => ?_
      cases (Pushes.rounds srv clients).leads hmem
      exact ha
    | refresh change => exact .of_not_mem fun a ha => operating_not_mem_refreshRolePermissions ha
    | _ => simp [Foremost, admitStream, called, Op.body, Instr.map]

section Runs

variable {guard : State → Multiset PermissionCmd → PermissionCmd → Prop} {init : State}
  {cfg : PermissionConfig} {i : ℕ}

section

variable (hrun : permissions.machine.Reachable Started guard init cfg)
include hrun

theorem holds_takes {a : PermissionCmd}
    (hhead : (cfg.thread i).todo = .run a :: rest) : ∀ r ∈ takes a, r ∈ (cfg.thread i).held :=
  hrun.holds_taken (fun op _ => takesEach_body op) (fun _ _ _ _ _ he => takesEach_exec he) hhead

theorem operating_foremost (i : ℕ) :
    Foremost Operating (cfg.thread i).todo ∧ ∀ a, Operating a → .run a ∈ (cfg.thread i).todo →
      (.channelAccess, .shared) ∈ (cfg.thread i).held := by
  refine hrun.foremost (fun op hop a ha => operating_not_mem_body hop ha)
    (fun _ _ _ _ _ he => foremost_exec he) ?_ i
  intro cfg i a x s' new rest R b hcfg hf hb hnew
  rcases a with d | e
  · obtain ⟨is, -, hexec, -, rfl⟩ := Extension.exec_inl hf.exec
    rcases b with b | e
    · rcases operating_of_follows (follows_of_exec hexec (run_inl_mem_called.mp hnew))
        hb with hd | ⟨req, rfl⟩
      · exact .inl hd
      · exact .inr (holds_takes hcfg hf.head _ (by simp [takes]))
    · exact absurd hnew run_inr_mem_called
  · cases leads_of_exec hf.exec hnew with
    | start => exact .inl trivial
    | checkStreamAccess | watch => exact .inr (holds_takes hcfg hf.head _ (by simp [takes]))
    | _ => exact hb.elim

theorem operating_not_mem
    (hf : permissions.machine.Fires cfg i (.inr (.clients srv)) x s' new rest R) {a : PermissionCmd}
    (ha : Operating a) : a ∉ R :=
  hrun.foremost_excludes (operating_foremost hrun) hf
    (holds_takes hrun hf.head (.channelAccess, .exclusive) (by simp [takes])) ha

end

end Runs

/-! ## The accounts' media locks -/

/-- The store's commands keep to the locks as these commands of the hub do: `RefreshRolePermissions`
holds the account's media lock over the round of a client, and the checks of a stream are the last
commands of their handler. -/
def standIn : PermissionCmd → Hub.Cmd
  | .inl cmd => cmd
  | .inr (.rolePermissions s c) | .inr (.voiceRevoked s c) | .inr (.streamRevoked s c)
  | .inr (.isPublisher s c) => .media (.revokeVoice c s)
  | .inr (.checkVoiceAccess _ req) | .inr (.checkStreamAccess _ req) | .inr (.watchStream _ req) =>
    .media (.request .channelAccess ⟨req.client, req.serverID, req.channelID, false, false, ""⟩)
  | .inr (.change _) | .inr (.clients _) | .inr (.tick _) => .registry .closeHub

theorem permissions_keeps :
    permissions.machine.Keeps (Cmd.needs ∘ standIn) (Cmd.Ends ∘ standIn) fun _ => False := by
  refine Extension.keeps (hubMachine_keeps.mono fun _ => False.elim) (fun _ => rfl) ?_ ?_
    (fun _ _ _ => False.elim) (fun _ => False.elim)
  · intro op
    show Disciplined _ _ [] op.body
    cases op <;>
      simp [PermissionOp.body, refreshRolePermissions, called, Op.body, Instr.map, standIn]
  · intro e x s s' new held rest he hd
    obtain ⟨hneeds, hends, hrest⟩ := hd
    cases pushes_of_exec he with
    | none => exact hrest
    | refresh change =>
      simp [refreshRolePermissions, called, Op.body, Instr.map, standIn, hrest]
    | rounds srv clients =>
      refine Disciplined.flatMap (fun c rest hrest => ?_) clients hrest
      simp [refreshClient, standIn, hrest]
    | voiceRevoked | streamRevoked | revokeVoice | isPublisher =>
      exact ⟨hneeds, by simp [standIn], hrest⟩
    | leaveStream => exact ⟨by simp [standIn], by simp [standIn], hrest⟩
    | checkStreamAccess => exact ⟨by simp [standIn], fun _ => hends trivial, hrest⟩
    | voiceRefused | streamRefused | watchRefused =>
      exact Disciplined.append_of_cmds_eq_nil trivial (hends trivial)
    | start | watch =>
      refine Disciplined.append_of_cmds_eq_nil ?_ (hends trivial)
      simp [admitStream, called, Op.body, Instr.map, standIn]

theorem permissions_solo : permissions.machine.Solo (Sum.elim Cmd.Alone fun _ => False) := by
  refine Extension.solo hubMachine_solo ?_ ?_
  · intro op b hb hmem
    have hmem : .run (.inl b) ∈ op.body := List.mem_of_mem_tail hmem
    cases op with
    | refreshRolePermissions srv =>
      obtain rfl : b = .registry (.refreshSnapshot srv) := by
        simpa using mem_refreshRolePermissions.mp hmem
      exact hb
    | _ => simp [PermissionOp.body] at hmem
  · intro e x s s' new b he hb hmem
    cases leads_of_exec he (List.mem_of_mem_tail hmem) <;> exact hb

section Runs

variable {allowed : Hub.Op ⊕ PermissionOp → Prop}
  {guard : State → Multiset PermissionCmd → PermissionCmd → Prop} {init : State}
  {cfg : PermissionConfig} {i : ℕ}

theorem excludes_of_fires (hrun : permissions.machine.Reachable allowed guard init cfg)
    {a : PermissionCmd} (hf : permissions.machine.Fires cfg i a x s' new rest R) :
    Excludes (standIn a) (innerCmds R) := by
  intro b hb halone l mode hneed hexcl
  have halone : Sum.elim Cmd.Alone (fun _ => False) (Sum.inl b : PermissionCmd) := halone
  exact hrun.solo_excludes permissions_keeps permissions_solo hf hexcl halone hneed
    (mem_innerCmds.mp hb)

/-! ## The hub's invariants -/

theorem callable_of_started {op : Hub.Op ⊕ PermissionOp} (hop : Started op) {b : Hub.Cmd}
    (hb : b ∈ innerCmds (cmds (permissions.machine.body op) : Multiset PermissionCmd)) :
    b.Callable ∧ ¬b.Revokes := by
  rw [mem_innerCmds_cmds] at hb
  rcases op with op | op
  · have hb : .run b ∈ op.body := run_inl_mem_called.mp hb
    refine ⟨Op.callable (by simpa using hb), ?_⟩
    cases op <;> simp [Op.body] at hb <;> subst hb <;> first | exact id | exact fun _ => hop
  · have hb : .run (.inl b) ∈ op.body := hb
    cases op with
    | refreshRolePermissions srv =>
      obtain rfl : b = .registry (.refreshSnapshot srv) := by
        simpa using mem_refreshRolePermissions.mp hb
      exact ⟨.inl trivial, id⟩
    | _ => simp [PermissionOp.body] at hb

/-- Joins enter their client in time, and no recheck of a stream falls between the two removals of a
`leaveVoice`. -/
def Timely (s : State) (S : Multiset PermissionCmd) : PermissionCmd → Prop
  | .inl d => JoinTimely s.inner (innerCmds S) d ∧ RecheckTimely s.inner (innerCmds S) d
  | .inr _ => True

instance (s : State) (S : Multiset PermissionCmd) : DecidablePred (Timely s S)
  | .inl _ => inferInstanceAs (Decidable (_ ∧ _))
  | .inr _ => inferInstanceAs (Decidable True)

/-- What the hub guarantees of voice and streams by itself. -/
structure HubKept (h : HubState) (S : Multiset Hub.Cmd) : Prop where
  registered : VoiceRegistered h S
  streams : StreamsInVoice h S
  life : Lifecycle h S
  members : VoiceMembers h S

theorem HubKept.push {h : HubState} {S T : Multiset Hub.Cmd} (hT : ∀ b ∈ T, b.Callable ∧ ¬b.Revokes)
    (hinv : HubKept h S) : HubKept h (T + S) where
  registered := fun c p hp => (hinv.registered c p hp).imp_right fun hej =>
    hej.mono (Multiset.subset_of_le (Multiset.le_add_left _ _))
  streams := hinv.streams.push (fun b hb => (hT b hb).1) fun _ hmem => (hT _ hmem).2 trivial
  life := hinv.life.push fun b hb => (hT b hb).1
  members := hinv.members.push (fun b hb => (hT b hb).1) fun b hb => (hT b hb).2

theorem hubKept_reachable {servers : Client → Finset Int} {e2eeRequired : Int → Bool}
    {limits : ViewerLimits} {tables : Tables} {now : Int}
    (hrun : permissions.machine.Reachable Started Timely (initial servers e2eeRequired limits tables
    now) cfg) : HubKept cfg.state.inner (innerCmds cfg.pending) := by
  refine Extension.lift (P := HubKept) ?_ ?_ ?_ ?_ hrun
  · refine ⟨fun c p hp => ?_, ?_, ⟨by simp, by simp, by simp, by simp, by simp⟩, ?_⟩
    · exact absurd hp (by simp [initial, HubState.new])
    · refine ⟨by simp, by simp, by simp, by simp, fun c ref href => ?_⟩
      exact absurd href (by simp [initial, HubState.new, StreamState.current_new])
    · refine ⟨by simp, by simp, by simp, fun c p hp => ?_⟩
      exact absurd hp (by simp [initial, HubState.new])
  · exact fun h S op hop hinv => hinv.push fun b hb => callable_of_started hop hb
  · intro cfg i d x s' is rest R hcfg hf hexec hguard hinv
    obtain ⟨hjoin, hrecheck⟩ := hguard
    rw [innerCmds_cons_inl] at hjoin hrecheck
    exact ⟨voiceRegistered_fire hexec hjoin hinv.registered,
      hinv.streams.fire hexec (excludes_of_fires hcfg hf) hrecheck, hinv.life.fire hexec,
      hinv.members.fire hexec hinv.life⟩
  · intro e x s s' new S he hinv
    rw [inner_of_exec he]
    exact hinv.push fun b hb => (leads_of_exec he (mem_innerCmds_cmds.mp hb)).callable

end Runs

end Voxhold.Permissions
