/-
# Voxhold.Calls.RevokedDevices — a revoked device leaves its calls

A device is checked under the account's media lock before a join enters the voice state, and
`RevalidateVoiceE2EE` runs under the same lock AFTER the commit, so no join of the account is past
its check meanwhile. In the direct calls check and row are one transaction, but the sweep after the
commit may FAIL, and nobody repeats it.
-/

import Voxhold.Calls.Operations
import Voxhold.Hub.Discipline

namespace Voxhold.Calls

open Multiset

open Voxhold.Lib Voxhold.Hub Voxhold.E2ee

variable {x : Input} {s s' : State} {t t' : Store} {e : StoreCmd} {new rest : List CallInstr}
  {R : Multiset (Hub.Cmd ⊕ StoreCmd)}

/-! ## What the tables' commands do -/

/-- The devices of the row, if it has one, are active. -/
def CallMember.Active (keys : DeviceKeys) (r : CallMember) : Prop :=
  ∀ deviceID ∈ r.e2eeDeviceID, keys.hasActive r.userID deviceID

inductive StoreEffect (t : Store) : StoreCmd → Store → List CallInstr → Prop where
  | devices (call : E2ee.Call) (keys : DeviceKeys)
      (hothers : ∀ u deviceID, u ≠ call.userID → t.keys.hasActive u deviceID →
        keys.hasActive u deviceID) :
      StoreEffect t (.devices call) { t with keys := keys } (onDevicesChanged call.userID)
  | failed (u : Int) :
      StoreEffect t (.revokeInvalidCallDevices u) t [.run (.inr (.logRevokeError u))]
  | members (e : StoreCmd) (members : CallMembers)
      (hrows : ∀ r ∈ members.rows, r ∈ t.members.rows ∨ r.Active t.keys)
      (hrevoked : ∀ r ∈ members.rows, e = .revokeInvalidCallDevices r.userID → r.Active t.keys) :
      StoreEffect t e { t with members := members } []

theorem active_of_joinCall {a : Answers} {keys : DeviceKeys} {members members' : CallMembers}
    {req : CallJoin} (hjoin : joinCall a keys members req = .ok members') {r : CallMember}
    (hr : r ∈ members'.rows) : r ∈ members.rows ∨ r.Active keys := by
  unfold joinCall at hjoin
  split at hjoin
  · cases hjoin
  split at hjoin
  · cases hjoin
  split at hjoin
  · cases hjoin
  split at hjoin
  · cases hjoin
  split at hjoin
  · cases hjoin
  next hdevice =>
    dsimp only at hjoin
    split at hjoin
    · cases hjoin
    split at hjoin
    · cases hjoin
    split at hjoin
    · cases hjoin
    cases hjoin
    -- whatever row the transaction writes has the device it has checked
    have hnew : ∀ deviceID ∈ nullIfEmpty req.e2eeDeviceID, keys.hasActive req.userID deviceID := by
      intro deviceID hd
      unfold nullIfEmpty at hd
      split at hd
      · cases hd
      · next hne =>
        cases hd
        by_contra hinactive
        exact hdevice ⟨hne, hinactive⟩
    rcases Keyed.mem_insertNew hr with rfl | hr
    · exact .inr hnew
    · rw [Keyed.rows_update] at hr
      obtain ⟨old, hold, rfl⟩ := List.mem_map.mp hr
      split
      · next hsame =>
        have huser : old.userID = req.userID := (of_decide_eq_true hsame).2
        exact .inr (huser ▸ hnew)
      · exact .inl (Keyed.mem_delete.mp hold).1

theorem storeEffect_of_exec (he : Store.exec x s e = some (s', new)) :
    s'.inner = s.inner ∧ StoreEffect s.store e s'.store new := by
  cases e with
  | devices call =>
    simp only [Store.exec] at he
    split at he
    · next keys hcall =>
      cases he
      refine ⟨rfl, .devices call keys fun u deviceID hu hactive => ?_⟩
      rw [DeviceKeys.hasActive, find_exec_of_ne hcall hu]
      exact hactive
    · cases he
      exact ⟨rfl, .members _ s.store.members (fun r hr => .inl hr) fun r hr heq =>
        StoreCmd.noConfusion heq⟩
  | revokeInvalidCallDevices u =>
    simp only [Store.exec] at he
    split at he
    · cases he
      refine ⟨rfl, .members _ _ (fun r hr => .inl (Keyed.mem_delete.mp hr).1) fun r hr heq => ?_⟩
      obtain rfl := StoreCmd.revokeInvalidCallDevices.inj heq
      intro deviceID hd
      have hkept := (Keyed.mem_delete.mp hr).2
      rw [hd] at hkept
      simpa using hkept
    · cases he
      exact ⟨rfl, .failed u⟩
  | logRevokeError u =>
    cases he
    exact ⟨rfl, .members _ s.store.members (fun r hr => .inl hr) fun r hr heq =>
      StoreCmd.noConfusion heq⟩
  | joinCall req =>
    simp only [Store.exec] at he
    split at he
    · next members hjoin =>
      cases he
      exact ⟨rfl, .members _ members (fun r hr => active_of_joinCall hjoin hr) fun r hr heq =>
        StoreCmd.noConfusion heq⟩
    · cases he
      exact ⟨rfl, .members _ s.store.members (fun r hr => .inl hr) fun r hr heq =>
        StoreCmd.noConfusion heq⟩
  | leaveCall conversationID u sessionID =>
    cases he
    refine ⟨rfl, .members _ _ (fun r hr => ?_) fun r hr heq => StoreCmd.noConfusion heq⟩
    unfold leaveCall at hr
    split at hr
    · exact .inl (Keyed.mem_delete.mp hr).1
    · exact .inl hr
  | removeMember u =>
    cases he
    exact ⟨rfl, .members _ _ (fun r hr => .inl (Keyed.mem_delete.mp hr).1) fun r hr heq =>
      StoreCmd.noConfusion heq⟩

/-! ## The locks -/

/-- The tables' commands need no lock, like this one of the hub. -/
def standIn : Hub.Cmd ⊕ StoreCmd → Hub.Cmd :=
  Sum.elim id fun _ => .registry .closeHub

theorem calls_keeps : calls.machine.Keeps (Cmd.needs ∘ standIn) (Cmd.Ends ∘ standIn) entryLock := by
  refine Extension.keeps hubMachine_keeps (fun _ => rfl) ?_ ?_ ?_ ?_
  · intro op
    show Disciplined _ _ [] op.body
    cases op <;> simp [CallOp.body, standIn]
  · rintro e x s ⟨h', t'⟩ new held rest he hd
    obtain ⟨-, -, hrest⟩ := hd
    cases (storeEffect_of_exec he).2 with
    | devices => simpa [onDevicesChanged, called, Op.body, Instr.map, standIn] using hrest
    | failed => simpa [standIn] using hrest
    | members => exact hrest
  · rintro op l m -
    show .acquire l m ∉ op.body.tail
    cases op <;> simp [CallOp.body]
  · rintro e x s ⟨h', t'⟩ new l m he rfl
    cases (storeEffect_of_exec he).2 with
    | devices => simp [onDevicesChanged, called, Op.body, Instr.map]
    | failed | members => simp

theorem calls_solo : calls.machine.Solo (Sum.elim Cmd.PastDevice fun _ => False) := by
  refine Extension.solo hubMachine_solo_pastDevice ?_ ?_
  · intro op b hb
    show .run (.inl b) ∉ op.body.tail
    cases op <;> simp [CallOp.body]
  · rintro e x s ⟨h', t'⟩ new b he hb
    cases (storeEffect_of_exec he).2 with
    | devices =>
      simp [onDevicesChanged, called, Op.body, Instr.map]
      rintro rfl
      simp [Cmd.PastDevice] at hb
    | failed | members => simp

/-- The account's media lock, taken for `RevalidateVoiceE2EE`. -/
def revalidates : Hub.Cmd ⊕ StoreCmd → List (Hub.Lock × Mode)
  | .inl (.media (.revalidate u)) => [(.mediaTransition u, .exclusive)]
  | _ => []

theorem takesEach_body (op : Hub.Op ⊕ CallOp) :
    TakesEach revalidates none (calls.machine.body op) := by
  rcases op with op | op
  · show TakesEach revalidates none (called op.body)
    cases op with
    | revalidateVoiceE2EE u => exact ⟨by simp [revalidates], trivial⟩
    | _ =>
      refine TakesEach.of_needless fun c hc => ?_
      rcases c with c | e
      · rw [run_inl_mem_called] at hc
        simp [Op.body] at hc
        subst hc
        rfl
      · rfl
  · show TakesEach revalidates none op.body
    refine TakesEach.of_needless fun c hc => ?_
    cases op <;> simp [CallOp.body] at hc <;> subst hc <;> rfl

theorem takesEach_exec {a : Hub.Cmd ⊕ StoreCmd} (he : calls.machine.exec a x s = some (s', new)) :
    TakesEach revalidates none new := by
  obtain ⟨h', t'⟩ := s'
  rcases a with d | e
  · -- no command of the hub leads to a revalidation
    obtain ⟨is, -, hexec, -, rfl⟩ := Extension.exec_inl he
    refine TakesEach.of_needless fun c hc => ?_
    rcases c with c | e
    · cases follows_of_exec hexec (run_inl_mem_called.mp hc) <;> rfl
    · rfl
  · cases (storeEffect_of_exec he).2 with
    | devices => exact ⟨by simp [revalidates], by simp [revalidates], trivial⟩
    | failed => exact ⟨by simp [revalidates], trivial⟩
    | members => trivial

variable {allowed : Hub.Op ⊕ CallOp → Prop}
  {guard : State → Multiset (Hub.Cmd ⊕ StoreCmd) → Hub.Cmd ⊕ StoreCmd → Prop} {init : State}
  {cfg : CallConfig} {i : ℕ} {u : Int}

theorem join_not_mem_of_revalidate (hrun : calls.machine.Reachable allowed guard init cfg)
    (hf : calls.machine.Fires cfg i (.inl (.media (.revalidate u))) x s' new rest R)
    {stage : JoinStage} {caller : Caller} {req : JoinRequest} (hstage : stage ≠ .device)
    (hreq : req.client.userID = u) : .inl (.media (.join stage caller req)) ∉ R := by
  have hheld := hrun.holds_taken (fun op _ => takesEach_body op)
    (fun a x s s' new he => takesEach_exec he) hf.head (.mediaTransition u, .exclusive)
    (by simp [revalidates])
  exact hrun.solo_excludes_held calls_keeps calls_solo hf hheld (m := .exclusive) hstage
    (by simp [standIn, hreq])

/-! ## The invariant -/

/-- Some goroutine is going to look at the account's device in voice. -/
def Revalidating (S : Multiset (Hub.Cmd ⊕ StoreCmd)) (u : Int) : Prop :=
  .inl (.media (.revalidate u)) ∈ S

/-- Who is in voice, or about to be, has an active device or is still going to be looked at. -/
structure Checked (h : HubState) (t : Store) (S : Multiset (Hub.Cmd ⊕ StoreCmd)) : Prop where
  joins : ∀ stage caller req, stage ≠ .device → .inl (.media (.join stage caller req)) ∈ S →
    req.e2eeDeviceID ≠ "" →
    t.keys.hasActive req.client.userID req.e2eeDeviceID ∨ Revalidating S req.client.userID
  participants : ∀ c p, h.media.voice.current c = some p → p.e2eeDeviceID ≠ "" →
    t.keys.hasActive c.userID p.e2eeDeviceID ∨ Revalidating S c.userID ∨
      .inl (.media (.revalidateDevice c)) ∈ S ∨ Ejecting (innerCmds S) c

/-- A lease of the user is held with an active device, or the leases are still going to be swept, or
a sweep of them has failed. -/
def Swept (u : Int) (t : Store) (S : Multiset (Hub.Cmd ⊕ StoreCmd)) : Prop :=
  ∀ r ∈ t.members.rows, r.userID = u →
    r.Active t.keys ∨ .inr (.revokeInvalidCallDevices u) ∈ S ∨ .inr (.logRevokeError u) ∈ S

theorem join_not_mem_body {op : Hub.Op ⊕ CallOp} {stage : JoinStage} {caller : Caller}
    {req : JoinRequest} (hstage : stage ≠ .device) :
    .run (.inl (.media (.join stage caller req))) ∉ calls.machine.body op := by
  rcases op with op | op
  · show _ ∉ called op.body
    rw [run_inl_mem_called]
    intro hb
    have hstarts := Op.starts hb
    cases stage with
    | device => exact hstage rfl
    | _ => exact hstarts
  · show _ ∉ op.body
    cases op <;> simp [CallOp.body]

theorem Checked.start {h : HubState} {S : Multiset (Hub.Cmd ⊕ StoreCmd)} (hinv : Checked h t S)
    (op : Hub.Op ⊕ CallOp) :
    Checked h t ((cmds (calls.machine.body op) : Multiset (Hub.Cmd ⊕ StoreCmd)) + S) where
  joins stage caller req hstage hmem hdevice := by
    rcases mem_pushed.mp hmem with hbody | hS
    · exact absurd hbody (join_not_mem_body hstage)
    · exact (hinv.joins stage caller req hstage hS hdevice).imp_right
        fun h => mem_pushed.mpr (.inr h)
  participants c p hp hdevice := by
    rcases hinv.participants c p hp hdevice with hactive | hu | hc | hejecting
    · exact .inl hactive
    · exact .inr (.inl (mem_pushed.mpr (.inr hu)))
    · exact .inr (.inr (.inl (mem_pushed.mpr (.inr hc))))
    · refine .inr (.inr (.inr (hejecting.mono ?_)))
      rw [innerCmds_add]
      exact subset_of_le (le_add_left _ _)

theorem hasActive_of_reports {keys : DeviceKeys} {deviceID : String}
    (h : reports keys true u deviceID) (hdevice : deviceID ≠ "") : keys.hasActive u deviceID := by
  simp [reports, hdevice, DeviceKeys.deviceActive] at h
  exact h.2

section Hub

variable {d : Hub.Cmd} {h h' : HubState} {x : Input} {is : List HubInstr} {c : Client}

section

variable (hinv : Checked h t (.inl d ::ₘ R))
include hinv

theorem joins_hub (hagrees : agrees h t d x)
    (he : h.exec x.hub d = some (h', is)) {stage : JoinStage} {caller : Caller} {req : JoinRequest}
    (hstage : stage ≠ .device) (hpushed : .run (.media (.join stage caller req)) ∈ is)
    (hdevice : req.e2eeDeviceID ≠ "") :
    t.keys.hasActive req.client.userID req.e2eeDeviceID ∨ Revalidating R req.client.userID := by
  have hlater : ∀ {stage'}, stage' ≠ .device → d = .media (.join stage' caller req) →
      t.keys.hasActive req.client.userID req.e2eeDeviceID ∨ Revalidating R req.client.userID := by
    rintro stage' hstage' rfl
    refine (hinv.joins stage' caller req hstage' (by simp) hdevice).imp_right ?_
    intro hu
    simpa [Revalidating] using hu
  cases follows_of_exec he hpushed with
  | device => exact absurd rfl hstage
  | access =>
    obtain ⟨m', hm, -⟩ := exec_media he
    cases hm
    split at hpushed
    · next hok =>
      rcases hok with hnone | hok
      · exact absurd hnone hdevice
      · have hreports : reports t.keys x.hub.ok req.client.userID req.e2eeDeviceID := hagrees
        rw [hok] at hreports
        exact .inl (hasActive_of_reports hreports hdevice)
    · exact absurd hpushed run_not_mem_joinRefused
  | server | done | current | leaveStream | insertSame | insertAfter => exact hlater (by simp) rfl

theorem participants_hub (hagrees : agrees h t d x)
    (he : h.exec x.hub d = some (h', is)) {p : VoiceParticipant}
    (hp : h'.media.voice.current c = some p) (hdevice : p.e2eeDeviceID ≠ "") :
    t.keys.hasActive c.userID p.e2eeDeviceID ∨ Revalidating R c.userID ∨
      (.run (.media (.revalidateDevice c)) ∈ is ∨ .inl (.media (.revalidateDevice c)) ∈ R) ∨
      Ejecting ((cmds is : Multiset Hub.Cmd) + innerCmds R) c := by
  rcases current_of_exec he hp with ⟨hold, hd⟩ | ⟨caller, req, rfl, rfl, -, -, heq⟩
  · rcases hinv.participants c p hold hdevice with hactive | hu | hc | hejecting
    · exact .inl hactive
    · rcases mem_cons.mp hu with heq | hu
      · -- the account has one connection in voice, and it is found
        obtain rfl := Sum.inl.inj heq
        obtain ⟨m', hm, rfl⟩ := exec_media he
        cases hm
        have hfound : h.media.voice.userClient c.userID = some c :=
          (h.media.voice.2.userIndex _ c).mpr ⟨Option.isSome_iff_exists.mpr ⟨_, hold⟩, rfl⟩
        exact .inr (.inr (.inl (.inl (by simp [hfound]))))
      · exact .inr (.inl hu)
    · rcases mem_cons.mp hc with heq | hc
      · obtain rfl := Sum.inl.inj heq
        obtain ⟨m', hm, rfl⟩ := exec_media he
        cases hm
        have hreports : reports t.keys x.hub.ok c.userID p.e2eeDeviceID := by
          simpa [agrees, hold] using hagrees
        cases hok : x.hub.ok with
        | true =>
          rw [hok] at hreports
          exact .inl (hasActive_of_reports hreports hdevice)
        | false => exact .inr (.inr (.inr (Ejecting.of_leaveVoice (by simp [hold, hdevice]))))
      · exact .inr (.inr (.inl (.inr hc)))
    · rw [innerCmds_cons_inl] at hejecting
      exact .inr (.inr (.inr (hejecting.fire he hd)))
  · rw [heq] at hdevice ⊢
    refine (hinv.joins .insert caller req (by simp) (by simp) hdevice).imp_right ?_
    intro hu
    exact .inl (by simpa [Revalidating] using hu)

theorem Checked.hub (hagrees : agrees h t d x) (he : h.exec x.hub d = some (h', is))
    (hexcl : ∀ u, d = .media (.revalidate u) → ∀ stage caller req, stage ≠ .device →
      req.client.userID = u → .inl (.media (.join stage caller req)) ∉ R) :
    Checked h' t ((cmds (called is : List CallInstr) : Multiset (Hub.Cmd ⊕ StoreCmd)) + R) where
  joins stage caller req hstage hmem hdevice := by
    rcases mem_pushed.mp hmem with hpushed | hR
    · refine (joins_hub hinv hagrees he hstage (run_inl_mem_called.mp hpushed) hdevice).imp_right ?_
      exact fun hu => mem_pushed.mpr (.inr hu)
    · refine (hinv.joins stage caller req hstage (mem_cons_of_mem hR) hdevice).imp_right ?_
      intro hu
      rcases mem_cons.mp hu with heq | hu
      · exact absurd hR (hexcl _ (Sum.inl.inj heq).symm stage caller req hstage rfl)
      · exact mem_pushed.mpr (.inr hu)
  participants c p hp hdevice := by
    rcases participants_hub hinv hagrees he hp hdevice with hactive | hu | hc | hejecting
    · exact .inl hactive
    · exact .inr (.inl (mem_pushed.mpr (.inr hu)))
    · exact .inr (.inr (.inl (mem_pushed.mpr (hc.imp_left run_inl_mem_called.mpr))))
    · refine .inr (.inr (.inr ?_))
      rw [innerCmds_add, innerCmds_called]
      exact hejecting

end

end Hub

/-! ## The tables' commands -/

theorem Checked.store {h : HubState} (hinv : Checked h t (.inr e ::ₘ R))
    (heffect : StoreEffect t e t' new) :
    Checked h t' ((cmds new : Multiset (Hub.Cmd ⊕ StoreCmd)) + R) := by
  have hinner :
    ∀ {b}, .inl b ∈ .inr e ::ₘ R → .inl b ∈ (cmds new : Multiset (Hub.Cmd ⊕ StoreCmd)) + R :=
    fun hb => mem_pushed.mpr (.inr (by simpa using hb))
  have hejecting : ∀ {c}, Ejecting (innerCmds (.inr e ::ₘ R)) c →
      Ejecting (innerCmds ((cmds new : Multiset (Hub.Cmd ⊕ StoreCmd)) + R)) c := by
    intro c hc
    rw [innerCmds_cons_inr] at hc
    rw [innerCmds_add]
    exact hc.mono (subset_of_le (le_add_left _ _))
  cases heffect with
  | devices call keys hothers =>
    -- the devices of the call's own user are looked at next
    have hown : ∀ {u deviceID}, t.keys.hasActive u deviceID → keys.hasActive u deviceID ∨
      u = call.userID := by
      intro u deviceID hactive
      by_cases hu : u = call.userID
      · exact .inr hu
      · exact .inl (hothers u deviceID hu hactive)
    have hrevalidate : Revalidating ((cmds (onDevicesChanged call.userID) :
        Multiset (Hub.Cmd ⊕ StoreCmd)) + R) call.userID :=
      mem_pushed.mpr (.inl (by simp [onDevicesChanged, Op.body]))
    constructor
    · intro stage caller req hstage hmem hdevice
      have hR : .inl (.media (.join stage caller req)) ∈ R :=
        (mem_pushed.mp hmem).resolve_left (by simp [onDevicesChanged, Op.body])
      rcases hinv.joins stage caller req hstage (mem_cons_of_mem hR) hdevice with hactive | hu
      · refine (hown hactive).imp_right fun hu => ?_
        rw [hu]
        exact hrevalidate
      · exact .inr (hinner hu)
    · intro c p hp hdevice
      rcases hinv.participants c p hp hdevice with hactive | hu | hc | hc
      · refine (hown hactive).imp_right fun hu => .inl ?_
        rw [hu]
        exact hrevalidate
      · exact .inr (.inl (hinner hu))
      · exact .inr (.inr (.inl (hinner hc)))
      · exact .inr (.inr (.inr (hejecting hc)))
  | failed | members =>
    constructor
    · intro stage caller req hstage hmem hdevice
      have hR : .inl (.media (.join stage caller req)) ∈ R := by simpa using hmem
      exact (hinv.joins stage caller req hstage (mem_cons_of_mem hR) hdevice).imp_right hinner
    · intro c p hp hdevice
      rcases hinv.participants c p hp hdevice with hactive | hu | hc | hc
      · exact .inl hactive
      · exact .inr (.inl (hinner hu))
      · exact .inr (.inr (.inl (hinner hc)))
      · exact .inr (.inr (.inr (hejecting hc)))

theorem Swept.mono {S S' : Multiset (Hub.Cmd ⊕ StoreCmd)} (hinv : Swept u t S)
    (hsub : ∀ e, .inr e ∈ S → .inr e ∈ S') : Swept u t S' :=
  fun r hr hu => (hinv r hr hu).imp_right (Or.imp (hsub _) (hsub _))

theorem Swept.store (hinv : Swept u t (.inr e ::ₘ R)) (heffect : StoreEffect t e t' new)
    (hlogged : e ≠ .logRevokeError u) :
    Swept u t' ((cmds new : Multiset (Hub.Cmd ⊕ StoreCmd)) + R) := by
  intro r hr hu
  cases heffect with
  | devices call keys hothers =>
    by_cases hown : u = call.userID
    · exact .inr (.inl (mem_pushed.mpr (.inl (by simp [onDevicesChanged, hown]))))
    · rcases hinv r hr hu with hactive | hsweep | hlog
      · exact .inl fun deviceID hd => hothers r.userID deviceID (hu ▸ hown) (hactive deviceID hd)
      · exact .inr (.inl (mem_pushed.mpr (.inr (by simpa using hsweep))))
      · exact .inr (.inr (mem_pushed.mpr (.inr (by simpa using hlog))))
  | failed v =>
    rcases hinv r hr hu with hactive | hsweep | hlog
    · exact .inl hactive
    · rcases mem_cons.mp hsweep with heq | hR
      · cases heq
        exact .inr (.inr (by simp))
      · exact .inr (.inl (mem_pushed.mpr (.inr hR)))
    · exact .inr (.inr (mem_pushed.mpr (.inr (by simpa using hlog))))
  | members _ members hrows hrevoked =>
    rw [pushed_nil]
    rcases hrows r hr with hold | hactive
    · rcases hinv r hold hu with hactive | hsweep | hlog
      · exact .inl hactive
      · rcases mem_cons.mp hsweep with heq | hR
        · exact .inl (hrevoked r hr (hu ▸ (Sum.inr.inj heq).symm))
        · exact .inr (.inl hR)
      · rcases mem_cons.mp hlog with heq | hR
        · exact absurd (Sum.inr.inj heq).symm hlogged
        · exact .inr (.inr hR)
    · exact .inl hactive

/-! ## Whole runs -/

section Runs

variable {servers : Client → Finset Int} {e2eeRequired : Int → Bool} {limits : ViewerLimits}
  {keys : DeviceKeys} {members : CallMembers}

theorem checked_reachable
    (hrun : calls.machine.Reachable allowed guard (initial servers e2eeRequired limits keys members)
    cfg) : Checked cfg.state.inner cfg.state.store cfg.pending := by
  refine hrun.induction (P := fun s S => Checked s.inner s.store S) ?_ ?_ ?_
  · refine ⟨fun _ _ _ _ hmem => absurd hmem (notMem_zero _), fun c p hp => ?_⟩
    have hnone : (initial servers e2eeRequired limits keys members).inner.media.voice.current c =
      none := rfl
    simp [hnone] at hp
  · exact fun s S op _ hinv => hinv.start op
  · rintro cfg i (d | e) x s' new rest R hcfg hf - hinv
    · obtain ⟨is, hagrees, hexec, hstore, rfl⟩ := Extension.exec_inl hf.exec
      rw [show s'.store = cfg.state.store from hstore]
      refine hinv.hub hagrees hexec ?_
      rintro u rfl stage caller req hstage hreq
      exact join_not_mem_of_revalidate hcfg hf hstage hreq
    · obtain ⟨hinner, heffect⟩ := storeEffect_of_exec (x := x) hf.exec
      rw [hinner]
      exact hinv.store heffect

theorem swept_reachable (hmembers : ∀ r ∈ members.rows, r.Active keys)
    (hsweeps : ∀ s S, ¬guard s S (.inr (.logRevokeError u)))
    (hrun : calls.machine.Reachable allowed guard (initial servers e2eeRequired limits keys members)
    cfg) : Swept u cfg.state.store cfg.pending := by
  refine hrun.induction (P := fun s S => Swept u s.store S)
    (fun r hr _ => .inl (hmembers r hr)) ?_ ?_
  · exact fun s S op _ hinv => hinv.mono fun e he => mem_pushed.mpr (.inr he)
  · rintro cfg i (d | e) x s' new rest R - hf hguard hinv
    · obtain ⟨is, -, -, hstore, rfl⟩ := Extension.exec_inl hf.exec
      rw [show s'.store = cfg.state.store from hstore]
      exact hinv.mono fun e he => mem_pushed.mpr (.inr (by simpa using he))
    · refine hinv.store (storeEffect_of_exec (x := x) hf.exec).2 ?_
      rintro rfl
      exact hsweeps _ _ hguard

/-- **Revoked devices leave live calls.** Over tables whose calls are made with active devices, when
no operation is in progress every voice participant that has a device has one that is active, and so
has every member of a direct call in runs in which no sweep of the member's leases fails. -/
theorem revoked_devices_leave_calls (hmembers : ∀ r ∈ members.rows, r.Active keys)
    (hrun : calls.machine.Reachable (fun _ => True) guard
      (initial servers e2eeRequired limits keys members) cfg) (hquiet : cfg.Quiescent) :
    (∀ c p, cfg.state.inner.media.voice.current c = some p → p.e2eeDeviceID ≠ "" →
      cfg.state.store.keys.hasActive c.userID p.e2eeDeviceID) ∧
    ∀ u, (∀ s S, ¬guard s S (.inr (.logRevokeError u))) →
      ∀ r ∈ cfg.state.store.members.rows, r.userID = u → ∀ deviceID ∈ r.e2eeDeviceID,
        cfg.state.store.keys.hasActive u deviceID := by
  refine ⟨fun c p hp hdevice => ?_, fun u hsweeps r hr hu => ?_⟩
  · have hinv := checked_reachable hrun
    rw [hquiet.pending_eq_zero] at hinv
    rcases hinv.participants c p hp hdevice with hactive | hrevalidate | hc | hejecting
    · exact hactive
    · exact absurd hrevalidate (notMem_zero _)
    · exact absurd hc (notMem_zero _)
    · exact absurd hejecting not_ejecting_zero
  · have hinv := swept_reachable hmembers hsweeps hrun
    rw [hquiet.pending_eq_zero] at hinv
    rw [← hu]
    exact (hinv r hr hu).resolve_right (by simp)

end Runs

/-- The theorem at a run: both devices are revoked while the account is in voice with the laptop and
in a direct call with the phone. -/
theorem revoked_devices_leave_calls_both :
    ∃ cfg, calls.machine.Reachable (fun _ => True) (fun _ _ c => c ≠ .inr (.logRevokeError 7))
        Sample.start cfg ∧ cfg.Quiescent ∧
      (¬cfg.state.store.keys.hasActive 7 Sample.laptop ∧
      ¬cfg.state.store.keys.hasActive 7 Sample.phone) ∧
      (∀ c p, cfg.state.inner.media.voice.current c = some p → p.e2eeDeviceID ≠ "" →
        cfg.state.store.keys.hasActive c.userID p.e2eeDeviceID) ∧
      ∀ r ∈ cfg.state.store.members.rows, r.userID = 7 → ∀ deviceID ∈ r.e2eeDeviceID,
        cfg.state.store.keys.hasActive 7 deviceID := by
  have hrun :
    ∃ cfg, calls.machine.Reachable (fun _ => True) (fun _ _ c => c ≠ .inr (.logRevokeError 7))
      Sample.start cfg ∧ cfg.Quiescent ∧ ¬cfg.state.store.keys.hasActive 7 Sample.laptop ∧
        ¬cfg.state.store.keys.hasActive 7 Sample.phone :=
    Machine.exists_reachable_of_play (Sample.joining ++
      .start (.inr (.devices (.revoke 7 Sample.laptop))) :: Sample.steps 3 9 false ++
      .start (.inr (.devices (.revoke 7 Sample.phone))) :: Sample.steps 4 5 false)
      (by decide +kernel)
  obtain ⟨cfg, hreach, hquiet, hrevoked⟩ := hrun
  have hcalls := revoked_devices_leave_calls (fun r hr => absurd hr List.not_mem_nil) hreach hquiet
  exact ⟨cfg, hreach, hquiet, hrevoked, hcalls.1, hcalls.2 7 fun _ _ h => h rfl⟩

/-- The phone is revoked, the sweep of its direct call fails, and nothing is left to be done. -/
theorem revoked_device_kept :
    ∃ cfg, calls.machine.Reachable (fun _ => True) (fun _ _ _ => True) Sample.start cfg ∧
    cfg.Quiescent ∧
      cfg.state.store.members.rows.map CallMember.e2eeDeviceID = [some Sample.phone] ∧
      ¬cfg.state.store.keys.hasActive 7 Sample.phone :=
  Machine.exists_reachable_of_play (Sample.joining ++
    .start (.inr (.devices (.revoke 7 Sample.phone))) :: Sample.steps 3 5 true ++
    [.step 3 { answers := { completes := false } }, .step 3 {}]) (by decide +kernel)

end Voxhold.Calls
