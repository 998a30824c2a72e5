/-
# Voxhold.Hub.VoiceState — who is in which voice channel

`realtime.voiceState`: participants by channel, by connection and by account. `VoiceMaps` and its
methods are the code; they keep the maps `Consistent`, with AT MOST ONE connection of an account in
voice, and `VoiceState` is the type of consistent maps.
-/

import Mathlib.Data.List.AList
import Voxhold.Hub.Registry

namespace Voxhold.Hub

open Voxhold.Lib Option

structure VoiceParticipant where
  generation : Nat
  connectionID : Nat
  userID : Int
  serverID : Int
  channelID : Int
  selfMute : Bool
  selfDeaf : Bool
  selfVideo : Bool
  e2eeDeviceID : String
deriving DecidableEq, Repr

/-- The arguments of a join. An empty device id is a join without end-to-end encryption. -/
structure JoinRequest where
  client : Client
  serverID : Int
  channelID : Int
  selfMute : Bool
  selfDeaf : Bool
  e2eeDeviceID : String
deriving DecidableEq, Repr

structure VoiceJoinResult where
  participant : VoiceParticipant
  previous : Option VoiceParticipant
  replaced : Option Client
  joined : Bool
  updated : Bool

structure VoiceMaps where
  nextGeneration : Nat
  byChannel : NestedMap Int Client VoiceParticipant
  byClient : AList fun _ : Client => VoiceParticipant
  byUser : AList fun _ : Int => Client

/-- Where a participant is, and with which device: what a join in place leaves alone. -/
def VoiceParticipant.place (p : VoiceParticipant) : Int × Int × String :=
  (p.serverID, p.channelID, p.e2eeDeviceID)

namespace VoiceMaps

variable (m : VoiceMaps)
  {ch : Int} {order : List Client}

def empty : VoiceMaps :=
  ⟨0, NestedMap.empty, ∅, ∅⟩

def current (c : Client) : Option VoiceParticipant :=
  m.byClient.lookup c

def userClient (userID : Int) : Option Client :=
  m.byUser.lookup userID

def channelClients (channelID : Int) : List Client :=
  m.byChannel.keysAt channelID

def serverClients (serverID : Int) : List Client :=
  m.byClient.keys.filter fun c => (m.current c).any fun p => p.serverID = serverID

def removeLocked (c : Client) (p : VoiceParticipant) : VoiceMaps :=
  { m with
    byClient := m.byClient.erase c
    byUser := if m.byUser.lookup p.userID = some c then m.byUser.erase p.userID else m.byUser
    byChannel := m.byChannel.drop p.channelID c }

def leave (c : Client) : VoiceMaps :=
  match m.current c with
  | none => m
  | some p => m.removeLocked c p

def leaveServer (c : Client) (serverID : Int) : VoiceMaps :=
  match m.current c with
  | none => m
  | some p => if p.serverID = serverID then m.removeLocked c p else m

/-- `removeServer`, for the clients of the server in the order the map iteration meets them. -/
def removeServer (order : List Client) : VoiceMaps :=
  order.foldl leave m

/-- The loop of `removeChannel`: a client of the room leaves the other two maps. -/
def forgetClient (c : Client) (p : VoiceParticipant) : VoiceMaps :=
  { m with
    byClient := m.byClient.erase c
    byUser := if m.byUser.lookup p.userID = some c then m.byUser.erase p.userID else m.byUser }

/-- One round of that loop. -/
def forgetIn (channelID : Int) (m : VoiceMaps) (c : Client) : VoiceMaps :=
  match m.byChannel.get channelID c with
  | none => m
  | some p => m.forgetClient c p

/-- `removeChannel`, for the clients of the room in the order the map iteration meets them. The room
itself goes in one piece. -/
def removeChannel (channelID : Int) (order : List Client) : VoiceMaps :=
  let m := order.foldl (forgetIn channelID) m
  { m with byChannel := m.byChannel.dropAll channelID }

/-- The new participant takes its place in the three maps. -/
def insertParticipant (c : Client) (p : VoiceParticipant) : VoiceMaps :=
  { m with
    byChannel := m.byChannel.put p.channelID c p
    byClient := m.byClient.insert c p
    byUser := m.byUser.insert c.userID c }

/-- The account's other connection, which a join of `c` replaces. -/
def replacedBy (c : Client) : Option (Client × VoiceParticipant) :=
  match m.byUser.lookup c.userID with
  | none => none
  | some d => if d = c then none else (m.current d).map fun p => (d, p)

/-- The second half of `join`: the account's other connection leaves, the client enters. -/
def enter (c : Client) (p : VoiceParticipant) (previous : Option VoiceParticipant) :
    VoiceMaps × VoiceJoinResult :=
  match m.replacedBy c with
  | none => (m.insertParticipant c p, ⟨p, previous, none, true, false⟩)
  | some (d, q) => ((m.removeLocked d q).insertParticipant c p, ⟨p, some q, some d, true, false⟩)

/-- A join into the channel and with the device the client already has changes the flags in place.
-/
def updateInPlace (c : Client) (p : VoiceParticipant) : VoiceMaps :=
  { m with
    byClient := m.byClient.insert c p
    byChannel := m.byChannel.put p.channelID c p }

/-- `update`: the new maps, the participant as it is now, and whether a flag changed. The video flag
is a variadic argument of the source; `none` is its absence. -/
def update (c : Client) (selfMute selfDeaf : Bool) (selfVideo : Option Bool) :
    VoiceMaps × Option (VoiceParticipant × Bool) :=
  match m.current c with
  | none => (m, none)
  | some p =>
    let changed := p.selfMute != selfMute || p.selfDeaf != selfDeaf ||
      selfVideo.any fun video => p.selfVideo != video
    let p := { p with
      selfMute := selfMute, selfDeaf := selfDeaf, selfVideo := selfVideo.getD p.selfVideo }
    (m.updateInPlace c p, some (p, changed))

def newParticipant (req : JoinRequest) : VoiceParticipant where
  generation := m.nextGeneration + 1
  connectionID := req.client.connectionID
  userID := req.client.userID
  serverID := req.serverID
  channelID := req.channelID
  selfMute := req.selfMute
  selfDeaf := req.selfDeaf
  selfVideo := false
  e2eeDeviceID := req.e2eeDeviceID

def join (req : JoinRequest) : VoiceMaps × VoiceJoinResult :=
  let p := m.newParticipant req
  let m := { m with nextGeneration := m.nextGeneration + 1 }
  match m.current req.client with
  | none => m.enter req.client p none
  | some previous =>
    if previous.serverID = req.serverID ∧ previous.channelID = req.channelID ∧
        previous.e2eeDeviceID = req.e2eeDeviceID then
      let p := { p with selfVideo := previous.selfVideo }
      (m.updateInPlace req.client p,
        ⟨p, none, none, false,
          previous.selfMute != req.selfMute || previous.selfDeaf != req.selfDeaf⟩)
    else (m.removeLocked req.client previous).enter req.client p (some previous)

/-! ## Consistency -/

/-- The three maps agree, and each participant describes its connection. -/
structure Consistent (m : VoiceMaps) : Prop where
  channelIndex : ∀ ch c p, m.byChannel.get ch c = some p ↔ m.current c = some p ∧ p.channelID = ch
  userIndex : ∀ u c, m.byUser.lookup u = some c ↔ (m.current c).isSome ∧ c.userID = u
  identity : ∀ c p, m.current c = some p → p.connectionID = c.connectionID ∧ p.userID = c.userID

theorem empty_consistent : empty.Consistent where
  channelIndex := by simp [empty, current]
  userIndex := by simp [empty, current]
  identity := by simp [empty, current]

variable {m} {c c' : Client} {p : VoiceParticipant}

theorem Consistent.own (h : m.Consistent) (u : Int) (d : Client) (hd : m.byUser.lookup u = some d) :
    d.userID = u :=
  ((h.userIndex u d).mp hd).2

theorem Consistent.room_of_order (h : m.Consistent)
    (horder : ∀ d, d ∈ order ↔ (m.byChannel.get ch d).isSome) :
    ∀ d ∈ order, ∃ p, m.byChannel.get ch d = some p ∧ p.userID = d.userID := by
  intro d hd
  obtain ⟨p, hp⟩ := isSome_iff_exists.mp ((horder d).mp hd)
  exact ⟨p, hp, (h.identity d p ((h.channelIndex _ _ _).mp hp).1).2⟩

@[simp] theorem current_removeLocked :
    (m.removeLocked c p).current c' = if c' = c then none else m.current c' := by
  by_cases h : c' = c
  · subst h
    simp [removeLocked, current]
  · simp [removeLocked, current, h]

@[simp] theorem current_insertParticipant :
    (m.insertParticipant c p).current c' = if c' = c then some p else m.current c' := by
  by_cases h : c' = c
  · subst h
    simp [insertParticipant, current]
  · simp [insertParticipant, current, h]

@[simp] theorem current_updateInPlace :
    (m.updateInPlace c p).current c' = if c' = c then some p else m.current c' := by
  by_cases h : c' = c
  · subst h
    simp [updateInPlace, current]
  · simp [updateInPlace, current, h]

theorem byUser_removeLocked (h : m.Consistent) (hc : m.current c = some p) (u : Int) :
    (m.removeLocked c p).byUser.lookup u = if u = c.userID then none else m.byUser.lookup u := by
  have huser : p.userID = c.userID := (h.identity c p hc).2
  have hown : m.byUser.lookup p.userID = some c := (h.userIndex _ _).mpr ⟨by simp [hc], huser.symm⟩
  rw [← huser]
  by_cases hu : u = p.userID
  · subst hu
    simp [removeLocked, hown]
  · simp [removeLocked, hown, hu]

theorem Consistent.without {m' : VoiceMaps} (h : m.Consistent) (S : Client → Prop) [DecidablePred S]
    (hcurrent : ∀ d, m'.current d = if S d then none else m.current d)
    (huser : ∀ u, m'.byUser.lookup u = (m.byUser.lookup u).filter fun d => ¬ S d)
    (hchannel : ∀ ch d, m'.byChannel.get ch d = if S d then none else m.byChannel.get ch d) :
    m'.Consistent where
  channelIndex ch d p := by
    rw [hchannel, hcurrent]
    split
    · simp
    · exact h.channelIndex ch d p
  userIndex u d := by
    rw [huser, hcurrent, filter_eq_some_iff, h.userIndex]
    by_cases hd : S d <;> simp [hd]
  identity d p hp := by
    rw [hcurrent] at hp
    split at hp
    · cases hp
    · exact h.identity d p hp

theorem removeLocked_consistent (h : m.Consistent) (hc : m.current c = some p) :
    (m.removeLocked c p).Consistent := by
  refine h.without (· = c) (fun d => current_removeLocked) (fun u => ?_) fun ch d => ?_
  · rw [byUser_removeLocked h hc]
    split
    · next hu =>
      -- the account has no second connection in voice
      rw [hu, (h.userIndex c.userID c).mpr ⟨by simp [hc], rfl⟩]
      simp [Option.filter]
    · next hu =>
      cases hlookup : m.byUser.lookup u with
      | none => rfl
      | some d =>
        have hne : d ≠ c := by
          rintro rfl
          exact hu ((h.userIndex u d).mp hlookup).2.symm
        simp [Option.filter, hne]
  · show (m.byChannel.drop p.channelID c).get ch d = _
    rw [NestedMap.get_drop]
    by_cases hd : d = c
    · subst hd
      simp only [and_true, if_true, ite_eq_left_iff]
      intro hch
      -- the client's only room entry is the one that was dropped
      refine eq_none_iff_forall_ne_some.mpr fun q hget => hch ?_
      obtain ⟨hcur, hq⟩ := (h.channelIndex ch d q).mp hget
      rw [hc] at hcur
      rw [Option.some.inj hcur, hq]
    · simp [hd]

theorem current_leave : (m.leave c).current c' = if c' = c then none else m.current c' := by
  unfold leave
  split
  · next hnone =>
    split
    · next heq => rw [heq, hnone]
    · rfl
  · exact current_removeLocked

theorem leave_consistent (h : m.Consistent) (c : Client) : (m.leave c).Consistent := by
  unfold leave
  split
  · exact h
  · next hc => exact removeLocked_consistent h hc

theorem current_leaveServer {s : Int} : (m.leaveServer c s).current c' =
    if c' = c ∧ (m.current c).any (fun p => p.serverID = s) then none else m.current c' := by
  unfold leaveServer
  split
  · next hnone => simp [hnone]
  · next p hsome =>
    split
    · next hs => simp [hsome, hs]
    · next hs => simp [hsome, hs]

theorem leaveServer_consistent (h : m.Consistent) (c : Client) (s : Int) :
    (m.leaveServer c s).Consistent := by
  unfold leaveServer
  split
  · exact h
  · next hc =>
    split
    · exact removeLocked_consistent h hc
    · exact h

theorem current_removeServer (order : List Client) :
    (m.removeServer order).current c = if c ∈ order then none else m.current c := by
  unfold removeServer
  induction order generalizing m with
  | nil => simp
  | cons d order ih =>
    rw [List.foldl_cons, ih, current_leave]
    by_cases hc : c = d <;> by_cases hmem : c ∈ order <;> simp [hc, hmem]

theorem removeServer_consistent (h : m.Consistent) (order : List Client) :
    (m.removeServer order).Consistent := by
  unfold removeServer
  induction order generalizing m with
  | nil => exact h
  | cons d order ih => exact ih (leave_consistent h d)

@[simp] theorem byChannel_forgetIn (ch : Int) : (m.forgetIn ch c).byChannel = m.byChannel := by
  unfold forgetIn
  split <;> rfl

theorem current_forgetIn (hc : (m.byChannel.get ch c).isSome) :
    (m.forgetIn ch c).current c' = if c' = c then none else m.current c' := by
  unfold forgetIn
  split
  · next hnone => simp [hnone] at hc
  · by_cases h : c' = c
    · subst h
      simp [forgetClient, current]
    · simp [forgetClient, current, h]

theorem byUser_forgetIn {p : VoiceParticipant} (hc : m.byChannel.get ch c = some p)
    (hp : p.userID = c.userID) (hown : ∀ u d, m.byUser.lookup u = some d → d.userID = u) (u : Int) :
    (m.forgetIn ch c).byUser.lookup u = (m.byUser.lookup u).filter fun d => ¬ d = c := by
  have hkeep : ∀ d, d ≠ c → (some d).filter (fun d => ¬ d = c) = some d := fun d hne =>
    filter_some_pos (by simpa using hne)
  simp only [forgetIn, hc, forgetClient]
  rw [hp]
  by_cases hu : u = c.userID
  · subst hu
    split
    · next hlookup => rw [hlookup, filter_some_neg (by simp), AList.lookup_erase]
    · next hlookup =>
      cases hd : m.byUser.lookup c.userID with
      | none => rfl
      | some d => exact (hkeep d fun heq => hlookup (heq ▸ hd)).symm
  · have hother : (m.byUser.lookup u).filter (fun d => ¬ d = c) = m.byUser.lookup u := by
      cases hd : m.byUser.lookup u with
      | none => rfl
      | some d =>
        refine hkeep d ?_
        rintro rfl
        exact hu (hown u d hd).symm
    rw [hother]
    split
    · exact AList.lookup_erase_ne hu
    · rfl

theorem foldl_forgetIn (order : List Client)
    (hroom : ∀ d ∈ order, ∃ p, m.byChannel.get ch d = some p ∧ p.userID = d.userID)
    (hown : ∀ u d, m.byUser.lookup u = some d → d.userID = u) :
    (order.foldl (forgetIn ch) m).byChannel = m.byChannel ∧
      (∀ d, (order.foldl (forgetIn ch) m).current d = if d ∈ order then none else m.current d) ∧
      ∀ u, (order.foldl (forgetIn ch) m).byUser.lookup u =
        (m.byUser.lookup u).filter fun d => ¬ d ∈ order := by
  induction order generalizing m with
  | nil =>
    refine ⟨rfl, by simp, fun u => ?_⟩
    show m.byUser.lookup u = _
    cases m.byUser.lookup u with
    | none => rfl
    | some d => exact (filter_some_pos (by simp)).symm
  | cons c order ih =>
    obtain ⟨⟨p, hp, hpuser⟩, hroom⟩ := List.forall_mem_cons.mp hroom
    have huser := byUser_forgetIn hp hpuser hown
    obtain ⟨hchannel, hcurrent, hlookup⟩ := ih (m := m.forgetIn ch c) (by simpa using hroom) (by
      intro u d hd
      rw [huser, filter_eq_some_iff] at hd
      exact hown u d hd.1)
    refine ⟨hchannel.trans (byChannel_forgetIn ch), fun d => ?_, fun u => ?_⟩
    · rw [List.foldl_cons, hcurrent, current_forgetIn (by simp [hp])]
      by_cases hd : d = c <;> by_cases hmem : d ∈ order <;> simp [hd, hmem]
    · rw [List.foldl_cons, hlookup, huser, filter_filter]
      congr 1
      funext d
      by_cases hd : d = c <;> by_cases hmem : d ∈ order <;> simp [hd, hmem]

section

variable (h : m.Consistent)
include h

theorem removeChannel_consistent (horder : ∀ d, d ∈ order ↔ (m.byChannel.get ch d).isSome) :
    (m.removeChannel ch order).Consistent := by
  obtain ⟨hchannel, hcurrent, huser⟩ := foldl_forgetIn order (h.room_of_order horder) h.own
  refine h.without (· ∈ order) hcurrent huser fun ch' d => ?_
  show ((order.foldl (forgetIn ch) m).byChannel.dropAll ch).get ch' d = _
  rw [hchannel, NestedMap.get_dropAll]
  by_cases hch : ch' = ch
  · subst hch
    by_cases hd : d ∈ order
    · simp [hd]
    · have hnone : m.byChannel.get ch' d = none := by
        simpa [horder] using hd
      simp [hd, hnone]
  · simp only [hch, if_false]
    split
    · next hd =>
      -- a client of the removed room has no entry in another one
      obtain ⟨p, hp⟩ := isSome_iff_exists.mp ((horder d).mp hd)
      by_contra hsome
      obtain ⟨q, hq⟩ := ne_none_iff_exists'.mp hsome
      obtain ⟨hcur, rfl⟩ := (h.channelIndex _ _ _).mp hp
      obtain ⟨hcur', rfl⟩ := (h.channelIndex _ _ _).mp hq
      rw [hcur] at hcur'
      exact hch (by rw [Option.some.inj hcur'])
    · rfl

theorem replacedBy_some {q : VoiceParticipant} {d : Client}
    (hr : m.replacedBy c = some (d, q)) : d ≠ c ∧ m.current d = some q ∧ d.userID = c.userID := by
  unfold replacedBy at hr
  split at hr
  · simp at hr
  · next e hlookup =>
    split at hr
    · simp at hr
    · next hne =>
      obtain ⟨q', hq', heq⟩ := map_eq_some_iff.mp hr
      cases heq
      exact ⟨hne, hq', ((h.userIndex _ _).mp hlookup).2⟩

theorem replacedBy_none (hc : m.current c = none)
    (hr : m.replacedBy c = none) : m.byUser.lookup c.userID = none := by
  unfold replacedBy at hr
  split at hr
  · next hnone => exact hnone
  · next d hlookup =>
    have hd := ((h.userIndex _ _).mp hlookup).1
    split at hr
    · next heq => simp [heq, hc] at hd
    · rw [map_eq_none_iff] at hr
      simp [hr] at hd

theorem Consistent.put {m' : VoiceMaps} (hp : p.connectionID = c.connectionID ∧ p.userID = c.userID)
    (hold : ∀ q, m.current c = some q → q.channelID = p.channelID)
    (hchannel : m'.byChannel = m.byChannel.put p.channelID c p)
    (hcurrent : ∀ d, m'.current d = if d = c then some p else m.current d)
    (huser : ∀ u d, m'.byUser.lookup u = some d ↔ (m'.current d).isSome ∧ d.userID = u) :
    m'.Consistent where
  channelIndex ch d q := by
    rw [hcurrent, hchannel, NestedMap.get_put]
    by_cases hd : d = c
    · subst hd
      by_cases hch : ch = p.channelID
      · subst hch
        simp only [and_self, ↓reduceIte, Option.some.injEq]
        exact ⟨fun heq => ⟨heq, by rw [heq]⟩, fun heq => heq.1⟩
      · have hnone : m.byChannel.get ch d ≠ some q := by
          intro hget
          obtain ⟨hcur, rfl⟩ := (h.channelIndex ch d q).mp hget
          exact hch (hold q hcur)
        simp only [hch, false_and, ↓reduceIte, hnone, Option.some.injEq, false_iff, not_and]
        rintro rfl
        exact Ne.symm hch
    · simp [hd, h.channelIndex]
  userIndex := huser
  identity d q hq := by
    rw [hcurrent] at hq
    split at hq
    · next heq =>
      subst heq
      rw [← Option.some.inj hq]
      exact hp
    · exact h.identity d q hq

theorem insertParticipant_consistent (hc : m.current c = none)
    (hu : m.byUser.lookup c.userID = none)
    (hp : p.connectionID = c.connectionID ∧ p.userID = c.userID) :
    (m.insertParticipant c p).Consistent := by
  refine h.put hp (by simp [hc]) rfl (fun d => current_insertParticipant) fun u d => ?_
  rw [current_insertParticipant]
  show (m.byUser.insert c.userID c).lookup u = some d ↔ _
  by_cases huc : u = c.userID
  · subst huc
    rw [AList.lookup_insert]
    by_cases hd : d = c
    · simp [hd]
    · -- another connection of the account would be in the index
      have hout : ¬((m.current d).isSome ∧ d.userID = c.userID) := by
        rw [← h.userIndex, hu]
        simp
      simp only [hd, ↓reduceIte, hout, iff_false, Option.some.injEq]
      exact Ne.symm hd
  · rw [AList.lookup_insert_ne huc, h.userIndex]
    by_cases hd : d = c
    · subst hd
      simp [Ne.symm huc]
    · simp [hd]

theorem updateInPlace_consistent {q : VoiceParticipant}
    (hc : m.current c = some q) (hq : q.channelID = p.channelID)
    (hp : p.connectionID = c.connectionID ∧ p.userID = c.userID) :
    (m.updateInPlace c p).Consistent := by
  refine h.put hp (fun q' hq' => ?_) rfl (fun d => current_updateInPlace) fun u d => ?_
  · rw [mem_unique hq' hc, hq]
  · rw [current_updateInPlace]
    show m.byUser.lookup u = some d ↔ _
    rw [h.userIndex]
    by_cases hd : d = c
    · subst hd
      simp [hc]
    · simp [hd]

end

theorem current_update (c : Client) (selfMute selfDeaf : Bool) (selfVideo : Option Bool)
    (d : Client) :
    (m.update c selfMute selfDeaf selfVideo).1.current d = if d = c then (m.current c).map fun p =>
      { p with
        selfMute := selfMute, selfDeaf := selfDeaf, selfVideo := selfVideo.getD p.selfVideo }
      else m.current d := by
  unfold update
  split
  · next hnone =>
    split
    · next heq => simp [heq, hnone]
    · rfl
  · next p hp => simp [hp]

theorem update_consistent (h : m.Consistent) (c : Client) (selfMute selfDeaf : Bool)
    (selfVideo : Option Bool) : (m.update c selfMute selfDeaf selfVideo).1.Consistent := by
  unfold update
  split
  · exact h
  · next p hp => exact updateInPlace_consistent h hp rfl (h.identity c p hp)

theorem Consistent.nextGeneration (h : m.Consistent) (n : Nat) :
    ({ m with nextGeneration := n } : VoiceMaps).Consistent :=
  ⟨h.channelIndex, h.userIndex, h.identity⟩

/-! ## What a join can do -/

variable {m' : VoiceMaps} {req : JoinRequest} {r : VoiceJoinResult}

/-- The maps once the join has drawn its generation. -/
def drawn (m : VoiceMaps) : VoiceMaps :=
  { m with nextGeneration := m.nextGeneration + 1 }

/-- **All that `join` can do**, with the result it reports. -/
inductive JoinOutcome (m : VoiceMaps) (req : JoinRequest) : VoiceMaps → VoiceJoinResult → Prop where
  | refresh {q : VoiceParticipant} : m.current req.client = some q →
      q.place = (m.newParticipant req).place →
      JoinOutcome m req
        (m.drawn.updateInPlace req.client { m.newParticipant req with selfVideo := q.selfVideo })
        ⟨{ m.newParticipant req with selfVideo := q.selfVideo }, none, none, false,
          q.selfMute != req.selfMute || q.selfDeaf != req.selfDeaf⟩
  | moved {q : VoiceParticipant} : m.current req.client = some q →
      q.place ≠ (m.newParticipant req).place →
      JoinOutcome m req
        ((m.drawn.removeLocked req.client q).insertParticipant req.client (m.newParticipant req))
        ⟨m.newParticipant req, some q, none, true, false⟩
  | takeover {d : Client} {q : VoiceParticipant} : m.current req.client = none →
      d ≠ req.client → m.current d = some q →
      JoinOutcome m req
        ((m.drawn.removeLocked d q).insertParticipant req.client (m.newParticipant req))
        ⟨m.newParticipant req, some q, some d, true, false⟩
  | fresh : m.current req.client = none →
      JoinOutcome m req (m.drawn.insertParticipant req.client (m.newParticipant req))
        ⟨m.newParticipant req, none, none, true, false⟩

theorem place_eq_iff {q : VoiceParticipant} : q.place = (m.newParticipant req).place ↔
      q.serverID = req.serverID ∧ q.channelID = req.channelID ∧
        q.e2eeDeviceID = req.e2eeDeviceID := by
  simp [VoiceParticipant.place, newParticipant]

theorem join_outcome (h : m.Consistent) (req : JoinRequest) :
    JoinOutcome m req (m.join req).1 (m.join req).2 ∧ (m.join req).1.Consistent := by
  have hdrawn : m.drawn.Consistent := h.nextGeneration _
  have hcurrent : ({ m with nextGeneration := m.nextGeneration + 1 } : VoiceMaps).current
      req.client = m.current req.client := rfl
  cases hc : m.current req.client with
  | none =>
    have hjoin : m.join req = m.drawn.enter req.client (m.newParticipant req) none := by
      simp only [join, hcurrent, hc]
      rfl
    rw [hjoin]
    cases hr : m.drawn.replacedBy req.client with
    | none =>
      simp only [enter, hr]
      exact ⟨.fresh hc, insertParticipant_consistent hdrawn hc (replacedBy_none hdrawn hc hr)
        ⟨rfl, rfl⟩⟩
    | some pair =>
      obtain ⟨hne, hd, huser⟩ := replacedBy_some hdrawn hr
      simp only [enter, hr]
      refine ⟨.takeover hc hne hd,
        insertParticipant_consistent (removeLocked_consistent hdrawn hd) ?_ ?_ ⟨rfl, rfl⟩⟩
      · rw [current_removeLocked, if_neg hne.symm]
        exact hc
      · rw [byUser_removeLocked hdrawn hd, if_pos huser.symm]
  | some q =>
    by_cases hsame : q.place = (m.newParticipant req).place
    · simp only [join, hcurrent, hc, if_pos (place_eq_iff.mp hsame)]
      exact ⟨.refresh hc hsame,
        updateInPlace_consistent hdrawn hc (place_eq_iff.mp hsame).2.1 ⟨rfl, rfl⟩⟩
    · have hr : (m.drawn.removeLocked req.client q).replacedBy req.client = none := by
        unfold replacedBy
        rw [byUser_removeLocked hdrawn hc, if_pos rfl]
      have hjoin : m.join req = (m.drawn.removeLocked req.client q).enter req.client
          (m.newParticipant req) (some q) := by
        simp only [join, hcurrent, hc, if_neg fun hplace => hsame (place_eq_iff.mpr hplace)]
        rfl
      rw [hjoin]
      simp only [enter, hr]
      refine ⟨.moved hc hsame,
        insertParticipant_consistent (removeLocked_consistent hdrawn hc) (by simp) ?_ ⟨rfl, rfl⟩⟩
      rw [byUser_removeLocked hdrawn hc, if_pos rfl]

@[simp] theorem current_drawn : m.drawn.current = m.current := rfl

theorem JoinOutcome.current_eq (h : JoinOutcome m req m' r) (d : Client) :
    m'.current d = if d = req.client then some r.participant
      else if r.replaced = some d then none else m.current d := by
  cases h with
  | refresh | moved | fresh => by_cases hd : d = req.client <;> simp [hd]
  | @takeover e q _ hne _ =>
    by_cases hd : d = req.client
    · simp [hd]
    · simp [hd, eq_comm]

theorem JoinOutcome.place_eq (h : JoinOutcome m req m' r) :
    r.participant.place = (m.newParticipant req).place := by
  cases h <;> rfl

end VoiceMaps

/-! ## The type of consistent voice maps -/

/-- `voiceState` as the hub uses it. -/
def VoiceState := { m : VoiceMaps // m.Consistent }

namespace VoiceState

variable (v : VoiceState)

def new : VoiceState :=
  ⟨VoiceMaps.empty, VoiceMaps.empty_consistent⟩

def current (c : Client) : Option VoiceParticipant :=
  v.1.current c

def userClient (userID : Int) : Option Client :=
  v.1.userClient userID

def channelClients (channelID : Int) : List Client :=
  v.1.channelClients channelID

def serverClients (serverID : Int) : List Client :=
  v.1.serverClients serverID

def leave (c : Client) : VoiceState :=
  ⟨v.1.leave c, VoiceMaps.leave_consistent v.2 c⟩

def leaveServer (c : Client) (serverID : Int) : VoiceState :=
  ⟨v.1.leaveServer c serverID, VoiceMaps.leaveServer_consistent v.2 c serverID⟩

def removeServer (order : List Client) : VoiceState :=
  ⟨v.1.removeServer order, VoiceMaps.removeServer_consistent v.2 order⟩

def join (req : JoinRequest) : VoiceState :=
  ⟨(v.1.join req).1, (VoiceMaps.join_outcome v.2 req).2⟩

/-- The account's other connection that a join takes out of voice. -/
def replaced (req : JoinRequest) : Option Client :=
  (v.1.join req).2.replaced

variable {v} {c d : Client} {req : JoinRequest}

@[simp] theorem current_new : new.current c = none := rfl

theorem current_leave : (v.leave c).current d = if d = c then none else v.current d :=
  VoiceMaps.current_leave

theorem current_leaveServer {s : Int} : (v.leaveServer c s).current d =
    if d = c ∧ (v.current c).any (fun p => p.serverID = s) then none else v.current d :=
  VoiceMaps.current_leaveServer

theorem current_removeServer (order : List Client) :
    (v.removeServer order).current c = if c ∈ order then none else v.current c :=
  VoiceMaps.current_removeServer order

theorem current_join (v : VoiceState) (req : JoinRequest) :
    ∃ p, p.serverID = req.serverID ∧ p.channelID = req.channelID ∧
      p.e2eeDeviceID = req.e2eeDeviceID ∧
      ∀ d, (v.join req).current d = if d = req.client then some p
        else if v.replaced req = some d then none else v.current d := by
  have hjoin := (VoiceMaps.join_outcome v.2 req).1
  obtain ⟨hserver, hchannel, hdevice⟩ := VoiceMaps.place_eq_iff.mp hjoin.place_eq
  exact ⟨_, hserver, hchannel, hdevice, hjoin.current_eq⟩

theorem mem_channelClients {ch : Int} :
    c ∈ v.channelClients ch ↔ ∃ p, v.current c = some p ∧ p.channelID = ch := by
  show c ∈ v.1.byChannel.keysAt ch ↔ _
  rw [NestedMap.mem_keysAt, isSome_iff_exists]
  simp only [v.2.channelIndex]
  rfl

end VoiceState

end Voxhold.Hub
