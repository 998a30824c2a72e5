/-
# Voxhold.Hub.Discipline — which locks the hub's commands rely on

The hub's lock discipline. `channelAccessMu` is the entry lock: `Register` and `AddUserToServer`
share it, revocations hold it exclusively. An account's `mediaTransitions` lock is held by joins,
starts, watches and the voice part of `RevokeUserFromServer`; `leaveVoice` holds none.
-/

import Voxhold.Hub.Effects

namespace Voxhold.Hub

open Voxhold.Lib Disciplined Media

/-! ## The discipline -/

def RegistryCmd.needs : RegistryCmd → List (Lock × Mode)
  | .load _ | .index _ | .registerPresence _ | .addUserSnapshot _ _ | .addServer _ _ =>
    [(.channelAccess, .shared)]
  | .revokeUserSnapshot _ _ | .revokeServerSnapshot _ | .removeClientServer _ _ false
  | .deletePresence _ => [(.channelAccess, .exclusive)]
  | _ => []

def MediaCmd.needs : MediaCmd → List (Lock × Mode)
  | .revokeVoice c _ | .revokeStream c _ | .voiceLeaveServer c _ =>
    [(.mediaTransition c.userID, .exclusive)]
  | .join _ _ req | .stream _ _ req => [(.mediaTransition req.client.userID, .exclusive)]
  | _ => []

/-- The locks that are held whenever the command runs. -/
def Cmd.needs : Cmd → List (Lock × Mode)
  | .registry cmd | .media cmd => cmd.needs

/-- The steps of what a client asks for (a join up to its media session, a stream): they are the
last commands their goroutine has to run. -/
def MediaCmd.Requested : MediaCmd → Prop
  | .request _ _ | .join _ _ _ | .sfu _ _ | .stream _ _ _ => True
  | _ => False

def Cmd.Ends : Cmd → Prop
  | .registry _ => False
  | .media cmd => cmd.Requested

def entryLock (l : Lock) : Prop :=
  l = .channelAccess

attribute [simp] RegistryCmd.needs MediaCmd.needs Cmd.needs MediaCmd.Requested Cmd.Ends

/-- The commands that run under an account's media lock and are never queued behind another. -/
def Cmd.Alone : Cmd → Prop
  | .media (.join .insert _ _) | .media (.stream .recheck _ _) | .media (.voiceLeaveServer _ _) =>
    True
  | _ => False

section Steps

variable {x : Choice} {r r' : Registry} {m m' : Media} {new rest : List HubInstr}
  {held : List (Lock × Mode)}
  {caller : Caller} {mode : Mode} {d b : Cmd} {h h' : HubState}

abbrev Held (held : List (Lock × Mode)) (is : List HubInstr) : Prop :=
  Disciplined Cmd.needs Cmd.Ends held is

/-- The instructions keep to the discipline before `rest`, and the entry lock is not among what they
acquire. -/
def KeepsHeld (held : List (Lock × Mode)) (new rest : List HubInstr) : Prop :=
  Held held (new ++ rest) ∧ ∀ mode, .acquire .channelAccess mode ∉ new

theorem KeepsHeld.last (hnew : KeepsHeld held new []) (hrest : cmds rest = []) :
    KeepsHeld held new rest :=
  ⟨append_of_cmds_eq_nil (new.append_nil ▸ hnew.1) hrest, hnew.2⟩

theorem held_reloadChannelAccess (clients : List Client) (hrest : Held held rest) :
    Held held (reloadChannelAccess x clients ++ rest) :=
  map (by simp) (by simp) clients hrest

theorem held_eachClient {round : Client → List HubInstr}
    (hround : ∀ c rest, Held held rest → Held held (round c ++ rest)) (clients : List Client)
    (hrest : Held held rest) : Held held (eachClient x clients round ++ rest) := by
  refine flatMap (fun c rest hrest => ?_) clients hrest
  split
  · exact ⟨by simp, by simp, hrest⟩
  · exact hround c rest hrest

theorem acquire_not_mem_eachClient {l : Lock} {round : Client → List HubInstr}
    (hround : ∀ c, .acquire l mode ∉ round c) (clients : List Client) :
    .acquire l mode ∉ eachClient x clients round := by
  intro hmem
  obtain ⟨c, -, hi | hi⟩ := mem_eachClient hmem
  · simp at hi
  · exact hround c hi

theorem Registry.exec_held {cmd : RegistryCmd} (he : r.exec x cmd = some (r', new))
    (hd : Held held (.run (.registry cmd) :: rest)) : KeepsHeld held new rest := by
  obtain ⟨hneeds, -, hrest⟩ := hd
  cases Registry.exec_step he with
  | revokeUser u s =>
    have hlock : (.channelAccess, .exclusive) ∈ held := hneeds _ (by simp)
    refine ⟨?_, by simp [reloadChannelAccess, acquire_not_mem_eachClient, revokeUserRound]⟩
    rw [List.append_assoc]
    refine held_reloadChannelAccess _ (held_eachClient (fun c rest h => ?_) _ hrest)
    simp [revokeUserRound, hlock, h]
  | revokeServer s =>
    have hlock : (.channelAccess, .exclusive) ∈ held := hneeds _ (by simp)
    refine ⟨?_, by simp [reloadChannelAccess, acquire_not_mem_eachClient, revokeServerRound]⟩
    rw [List.append_assoc, List.append_assoc]
    refine held_reloadChannelAccess _
      (held_eachClient (fun c rest h => ?_) _ (by simp [hlock, hrest]))
    simp [revokeServerRound, hlock, h]
  | refresh s =>
    refine ⟨?_, by simp [reloadChannelAccess, acquire_not_mem_eachClient, refreshRound]⟩
    rw [List.append_assoc]
    refine held_reloadChannelAccess _ (held_eachClient (fun c rest h => ?_) _ hrest)
    simp [refreshRound, h]
  | addUser u s =>
    have hlock : (.channelAccess, .shared) ∈ held := hneeds _ (by simp)
    exact ⟨map (by simp [hlock]) (by simp) _ hrest, by simp⟩
  | unregister | closeHub => exact ⟨map (by simp) (by simp) _ hrest, by simp⟩
  -- at most two commands, which need what the present one needs
  | _ => simp_all [KeepsHeld]

theorem keepsHeld_joinRefused {c : Client} : KeepsHeld held (joinRefused caller c) [] := by
  cases caller <;> simp [KeepsHeld, joinRefused, handlerReturns]

theorem Media.execJoin_held {stage : JoinStage} {req : JoinRequest}
    (hlock : (.mediaTransition req.client.userID, .exclusive) ∈ held) :
    KeepsHeld held (m.execJoin x r caller req stage).2 [] := by
  have hnext : ∀ next, KeepsHeld held [.run (.media (.join next caller req))] [] := by
    intro next
    simp [KeepsHeld, hlock]
  cases stage with
  | insert =>
    cases hrep : m.voice.replaced req <;> cases caller <;>
      simp [KeepsHeld, execJoin, hrep, dismissReplaced, joinAdmitted]
  | leaveStream => exact hnext .insert
  | _ =>
    simp only [execJoin]
    split
    all_goals first
      | exact hnext _
      | exact keepsHeld_joinRefused

theorem Media.exec_held {cmd : MediaCmd} (he : m.exec x r cmd = some (m', new))
    (hd : Held held (.run (.media cmd) :: rest)) : KeepsHeld held new rest := by
  obtain ⟨hneeds, hends, hrest⟩ := hd
  cases cmd with
  | request stage req =>
    -- no command of its goroutine follows the request, so what it releases nobody relies on
    refine .last ?_ (hends trivial)
    cases he
    cases stage <;> simp only [execRequest] <;> split <;>
      simp [KeepsHeld, handlerReturns]
  | join stage caller req =>
    refine .last ?_ (hends trivial)
    obtain rfl : (m.execJoin x r caller req stage).2 = new := by rw [Option.some.inj he]
    exact execJoin_held (hneeds _ (by simp))
  | sfu stage req =>
    refine .last ?_ (hends trivial)
    obtain rfl : (m.execSfu x req stage).2 = new := by rw [Option.some.inj he]
    cases stage <;> simp only [execSfu]
    case unanswered => simp [KeepsHeld, handlerReturns]
    case leave => simp [KeepsHeld]
    all_goals split <;> simp [KeepsHeld, handlerReturns]
  | stream stage action req =>
    refine .last ?_ (hends trivial)
    obtain rfl : (m.execStream x r action req stage).2 = new := by rw [Option.some.inj he]
    have hlock : (.mediaTransition req.client.userID, .exclusive) ∈ held := hneeds _ (by simp)
    cases stage <;> simp only [execStream]
    case recheck => simp [KeepsHeld]
    all_goals split <;> simp [KeepsHeld, hlock]
  | removeServer s =>
    simp only [exec] at he
    split at he
    · cases he
      refine ⟨flatMap (fun c rest hrest => ?_) _ hrest, by simp⟩
      simp [hrest]
    · cases he
  | stopStreamForChannel ch | resetVoiceChannel ch =>
    simp only [exec] at he
    split at he
    · cases he
      exact ⟨map (by simp) (by simp) _ hrest, by simp⟩
    · cases he
  | revalidate u =>
    cases he
    split <;> simp [KeepsHeld, hrest]
  | _ =>
    -- at most one command, under the same account's lock or none
    simp only [exec] at he
    repeat' split at he
    all_goals
      cases he
      simp_all [KeepsHeld]

/-! ## Commands that run alone -/

theorem alone_not_mem_tail (he : h.exec x d = some (h', new))
    (hb : b.Alone) : .run b ∉ new.tail := by
  intro htail
  have hfollows := follows_of_exec he (List.mem_of_mem_tail htail)
  -- the commands that push one of these push it on its own
  unfold Cmd.Alone at hb
  split at hb
  · next caller req =>
    cases hfollows with
    | insertSame =>
      obtain ⟨m', hm, -⟩ := exec_media he
      cases hm
      split at htail <;> simp at htail
    | insertAfter =>
      obtain ⟨m', hm, -⟩ := exec_media he
      cases hm
      simp at htail
  · next action req =>
    cases hfollows with
    | recheck =>
      obtain ⟨m', hm, -⟩ := exec_media he
      simp only [exec, execStream] at hm
      split at hm
      all_goals
        cases hm
        simp at htail
  · next c s =>
    cases hfollows with
    | notInServer =>
      obtain ⟨m', hm, -⟩ := exec_media he
      cases hm
      split at htail <;> simp at htail
    | voiceLeaveServer =>
      obtain ⟨m', hm, -⟩ := exec_media he
      cases hm
      simp at htail
  · exact hb

/-- The stages of `JoinVoiceWithDevice` after the device check. -/
def Cmd.PastDevice : Cmd → Prop
  | .media (.join stage _ _) => stage ≠ .device
  | _ => False

theorem Media.run_not_mem_tail_execJoin {stage : JoinStage} {req : JoinRequest}
    (hstage : stage ≠ .insert) : .run b ∉ (m.execJoin x r caller req stage).2.tail := by
  cases stage with
  | insert => exact absurd rfl hstage
  | leaveStream => simp [execJoin]
  | _ =>
    simp only [execJoin]
    split
    all_goals first
      | simp
      | exact fun hb => run_not_mem_joinRefused (List.mem_of_mem_tail hb)

theorem pastDevice_not_mem_tail (he : h.exec x d = some (h', new))
    (hb : b.PastDevice) : .run b ∉ new.tail := by
  intro htail
  have hfollows := follows_of_exec he (List.mem_of_mem_tail htail)
  unfold Cmd.PastDevice at hb
  split at hb
  · obtain ⟨stage, caller, req, rfl, hstage⟩ :
        ∃ stage caller req, d = .media (.join stage caller req) ∧ stage ≠ .insert := by
      cases hfollows with
      | device => exact absurd rfl hb
      | access | server | done | current | leaveStream | insertSame | insertAfter =>
        exact ⟨_, _, _, rfl, by simp⟩
    obtain ⟨m', hm, -⟩ := exec_media he
    obtain rfl : (h.media.execJoin x h.registry caller req stage).2 = new := by
      rw [Option.some.inj hm]
    exact run_not_mem_tail_execJoin hstage htail
  · exact hb

/-! ## Channel operations -/

/-- The commands of a join from its first check of the channel on, and those of a stream: with
`LockChannelOperation` around them, the handler shares `channelAccessMu` until the last of them has
run. -/
def Cmd.Operating : Cmd → Prop
  | .media (.request .encryption _) | .media (.request .channelAccessAgain _) | .media (.join _ _ _)
  | .media (.stream _ _ _) => True
  | _ => False

theorem operating_of_follows (hfollows : Follows h d b) (hb : b.Operating) :
    d.Operating ∨ ∃ req, d = .media (.request .channelAccess req) := by
  cases hfollows with
  | encryption => exact .inr ⟨_, rfl⟩
  | channelAccessAgain | device | access | server | done | current | leaveStream | insertSame
  | insertAfter | voice | insert | recheck => exact .inl trivial
  | _ => exact hb.elim

theorem foremost_of_exec (he : h.exec x d = some (h', new)) : Foremost Cmd.Operating new := by
  by_cases hd : d.Operating ∨ ∃ req, d = .media (.request .channelAccess req)
  · cases d with
    | registry cmd => rcases hd with hd | ⟨req, hd⟩ <;> cases hd
    | media cmd =>
      obtain ⟨m', hm, rfl⟩ := exec_media he
      cases cmd with
      | request stage req =>
        cases hm
        cases stage <;> simp only [execRequest] <;> split <;> simp [Foremost, handlerReturns]
      | join stage caller req =>
        obtain rfl : (h.media.execJoin x h.registry caller req stage).2 = new := by
          rw [Option.some.inj hm]
        by_cases hstage : stage = .insert
        · subst hstage
          refine .of_not_mem fun b hb hmem => ?_
          cases follows_of_exec he hmem <;> exact hb
        · exact .of_tail fun b _ => run_not_mem_tail_execJoin hstage
      | stream stage action req =>
        obtain rfl : (h.media.execStream x h.registry action req stage).2 = new := by
          rw [Option.some.inj hm]
        cases stage <;> simp only [execStream] <;> (try split) <;> simp [Foremost]
      | _ => rcases hd with hd | ⟨req, hd⟩ <;> cases hd
  · refine .of_not_mem fun b hb hmem => hd ?_
    exact operating_of_follows (follows_of_exec he hmem) hb

end Steps

theorem hubMachine_keeps : hubMachine.Keeps Cmd.needs Cmd.Ends entryLock where
  body op := by
    show Held [] op.body
    cases op <;> simp [Op.body]
  exec := by
    intro c x h h' new held rest he hd
    cases c with
    | registry cmd =>
      obtain ⟨r', hr, -⟩ := exec_registry he
      exact (Registry.exec_held hr hd).1
    | media cmd =>
      obtain ⟨m', hm, -⟩ := exec_media he
      exact (exec_held hm hd).1
  bodyEntry := by
    rintro op l mode rfl
    show .acquire .channelAccess mode ∉ op.body.tail
    cases op <;> simp [Op.body]
  execEntry := by
    rintro c x h h' new l mode he rfl
    -- with the locks it needs held, the command runs alone
    have halone : Held c.needs [.run c] := ⟨fun _ => id, fun _ => rfl, trivial⟩
    cases c with
    | registry cmd =>
      obtain ⟨r', hr, -⟩ := exec_registry he
      exact (Registry.exec_held hr halone).2 mode
    | media cmd =>
      obtain ⟨m', hm, -⟩ := exec_media he
      exact (exec_held hm halone).2 mode

theorem hubMachine_solo : hubMachine.Solo Cmd.Alone where
  body op b hb := by
    show .run b ∉ op.body.tail
    cases op <;> simp [Op.body] <;> rintro rfl <;> simp [Cmd.Alone] at hb
  exec := fun he hb => alone_not_mem_tail he hb

theorem hubMachine_solo_pastDevice : hubMachine.Solo Cmd.PastDevice where
  body op b hb := by
    show .run b ∉ op.body.tail
    cases op <;> simp [Op.body] <;> rintro rfl <;> simp [Cmd.PastDevice] at hb
  exec := fun he hb => pastDevice_not_mem_tail he hb

end Voxhold.Hub
