/-
# Voxhold.Hub.VoiceMembers — who is in voice has the server

A join checks that its client has the server. Where no revocation runs, whoever is in voice in a
server has it, or is unregistered for good (`VoiceMembers`).
-/

import Voxhold.Hub.Membership

namespace Voxhold.Hub

open Voxhold.Lib

variable {x : Choice} {c : Client} {d : Cmd} {h h' : HubState} {new : List HubInstr}
  {R S : Multiset Cmd} {s : Int}

/-- The first commands of `RevokeUserFromServer` and `RevokeServer`. -/
def Cmd.Revokes : Cmd → Prop
  | .registry (.revokeUserSnapshot _ _) | .registry (.revokeServerSnapshot _) => True
  | _ => False

/-- The stages of a join after the check of the server. -/
def JoinStage.PastServer : JoinStage → Prop
  | .done | .current | .leaveStream | .insert => True
  | _ => False

/-- The client has the server, or will not be registered again. -/
def HasOrGone (h : HubState) (c : Client) (s : Int) : Prop :=
  s ∈ h.registry.servers c ∨ Gone h c

structure VoiceMembers (h : HubState) (S : Multiset Cmd) : Prop where
  kept : ∀ b ∈ S, ¬b.Revokes
  removing : ∀ c s, .registry (.removeClientServer c s false) ∉ S
  joins : ∀ stage caller req, stage.PastServer → .media (.join stage caller req) ∈ S →
    HasOrGone h req.client req.serverID
  participants : ∀ c p, h.media.voice.current c = some p → HasOrGone h c p.serverID

section

variable (he : h.exec x d = some (h', new))
include he

theorem HasOrGone.fire (hlife : Lifecycle h (d ::ₘ R))
    (hinv : VoiceMembers h (d ::ₘ R)) (hc : HasOrGone h c s) : HasOrGone h' c s := by
  rcases hc with hs | hgone
  · rcases servers_of_exec he hs with hs | ⟨announce, rfl⟩
    · exact .inl hs
    · cases announce with
      | true => exact .inr ((hlife.announcing c s (by simp)).of_exec he)
      | false => exact absurd (by simp) (hinv.removing c s)
  · exact .inr (hgone.of_exec he)

theorem VoiceMembers.joins_fire (hlife : Lifecycle h (d ::ₘ R))
    (hinv : VoiceMembers h (d ::ₘ R)) {stage : JoinStage} {caller : Caller} {req : JoinRequest}
    (hstage : stage.PastServer) (hmem : .media (.join stage caller req) ∈ cmds new + R) :
    HasOrGone h' req.client req.serverID := by
  rcases mem_pushed.mp hmem with hnew | hR
  · cases follows_of_exec he hnew with
    | device | access | server => exact hstage.elim
    | done =>
      -- the check of the server
      obtain ⟨m', hm, rfl⟩ := exec_media he
      cases hm
      split at hnew
      · next hok => exact .inl hok.2.2
      · exact absurd hnew run_not_mem_joinRefused
    | current | leaveStream | insertSame | insertAfter =>
      exact (hinv.joins _ caller req (by trivial) (Multiset.mem_cons_self _ _)).fire he hlife hinv
  · exact (hinv.joins stage caller req hstage (Multiset.mem_cons_of_mem hR)).fire he hlife hinv

theorem VoiceMembers.fire (hlife : Lifecycle h (d ::ₘ R))
    (hinv : VoiceMembers h (d ::ₘ R)) : VoiceMembers h' (cmds new + R) where
  kept b hb hrevokes := by
    rcases mem_pushed.mp hb with hnew | hR
    · cases follows_of_exec he hnew <;> exact hrevokes
    · exact hinv.kept b (Multiset.mem_cons_of_mem hR) hrevokes
  removing c s hmem := by
    rcases mem_pushed.mp hmem with hnew | hR
    · cases follows_of_exec he hnew with
      | revokeUser | revokeServer => exact hinv.kept _ (Multiset.mem_cons_self _ _) trivial
    · exact hinv.removing c s (Multiset.mem_cons_of_mem hR)
  joins _ _ _ hstage hmem := hinv.joins_fire he hlife hstage hmem
  participants c p hp := by
    rcases current_of_exec he hp with ⟨hold, -⟩ | ⟨caller, req, rfl, rfl, hserver, -⟩
    · exact (hinv.participants c p hold).fire he hlife hinv
    · rw [hserver]
      exact (hinv.joins .insert caller req trivial (by simp)).fire he hlife hinv

end

theorem VoiceMembers.push {T : Multiset Cmd} (hT : ∀ b ∈ T, b.Callable)
    (hkept : ∀ b ∈ T, ¬b.Revokes) (hinv : VoiceMembers h S) : VoiceMembers h (T + S) where
  kept b hb := by
    rcases Multiset.mem_add.mp hb with hnew | hS
    · exact hkept b hnew
    · exact hinv.kept b hS
  removing c s hmem :=
    hinv.removing c s (mem_of_called hT hmem (by simp [Cmd.Callable, Cmd.Starts]))
  joins stage caller req hstage hmem := by
    refine hinv.joins stage caller req hstage (mem_of_called hT hmem ?_)
    cases stage with
    | device => exact hstage.elim
    | _ => simp [Cmd.Callable, Cmd.Starts]
  participants := hinv.participants

end Voxhold.Hub
