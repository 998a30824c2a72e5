/-
# Voxhold.Hub.PresenceCount — the presence counters count the registered connections

A connection is counted and discounted apart from the critical section that changes `Hub.clients`.
The ghost `K s` is the set of the connections counted on the server `s` (`Counted`): the counters
are its cardinalities, and between operations it is the set of registered connections.
-/

import Mathlib.Data.Finset.Card
import Voxhold.Hub.Membership

namespace Voxhold.Hub

open Voxhold.Lib Finset Presence

/-! ## Counting -/

def tally (K : Finset Client) (userID : Int) : Nat :=
  (K.filter fun c => c.userID = userID).card

theorem tally_insert {K : Finset Client} {c : Client} (hc : c ∉ K) (u : Int) :
    tally (insert c K) u = if u = c.userID then tally K u + 1 else tally K u := by
  unfold tally
  rw [filter_insert]
  by_cases hu : c.userID = u
  · rw [if_pos hu, if_pos hu.symm, card_insert_of_notMem (by simp [hc])]
  · rw [if_neg hu, if_neg (Ne.symm hu)]

theorem tally_erase {K : Finset Client} {c : Client} (hc : c ∈ K) (u : Int) :
    tally (K.erase c) u = if u = c.userID then tally K u - 1 else tally K u := by
  unfold tally
  rw [filter_erase]
  by_cases hu : u = c.userID
  · rw [if_pos hu, card_erase_of_mem (by simp [hc, hu])]
  · rw [if_neg hu, erase_eq_of_notMem (by simp [Ne.symm hu])]

theorem Presence.some_succ_entryOf (n : Nat) :
    some ((Presence.entryOf n).getD 0 + 1) = Presence.entryOf (n + 1) := by
  unfold entryOf
  split <;> simp_all

/-! ## The counted connections -/

/-- `K s` are the connections counted on the server `s`. `uncounted c` says that a
`registerPresence` of `c` is pending, `leaving c s` that the connection `c` is going to be
discounted on `s`. -/
structure Counted (r : Registry) (uncounted : Client → Prop) (leaving : Client → Int → Prop)
    (K : Int → Finset Client) : Prop where
  counts : ∀ s u, r.presence.get s u = entryOf (tally (K s) u)
  member : ∀ c s, c ∈ K s → s ∈ r.servers c
  registered : ∀ c s, c ∈ r.clients → s ∈ r.servers c → c ∈ K s ∨ uncounted c
  fresh : ∀ c s, c ∈ r.clients → uncounted c → c ∉ K s
  detached : ∀ c s, c ∉ r.clients → c ∈ K s → leaving c s ∧ c ∈ r.done
  owed : ∀ c s, c ∉ r.clients → leaving c s → s ∈ r.servers c → c ∈ K s

namespace Counted

variable {r r' : Registry} {uncounted uncounted' : Client → Prop}
  {leaving leaving' : Client → Int → Prop} {K : Int → Finset Client} {c : Client} {s : Int}
  {ids : List Int}

section

variable (hinv : Counted r uncounted leaving K)
include hinv

theorem same (hclients : r'.clients = r.clients)
    (hdone : r.done ⊆ r'.done) (hservers : r'.servers = r.servers)
    (hpresence : r'.presence = r.presence)
    (huncounted : ∀ c ∈ r.clients, uncounted' c ↔ uncounted c)
    (hleave : ∀ c s, c ∉ r.clients → s ∈ r.servers c → (leaving' c s ↔ leaving c s)) :
    Counted r' uncounted' leaving' K where
  counts := hpresence ▸ hinv.counts
  member := hservers ▸ hinv.member
  registered c s hc hs := by
    rw [hclients] at hc
    rw [huncounted c hc]
    exact hinv.registered c s hc (hservers ▸ hs)
  fresh c s hc hun := by
    rw [hclients] at hc
    exact hinv.fresh c s hc ((huncounted c hc).mp hun)
  detached c s hc hK := by
    rw [hclients] at hc
    obtain ⟨hl, hd⟩ := hinv.detached c s hc hK
    exact ⟨(hleave c s hc (hinv.member c s hK)).mpr hl, hdone hd⟩
  owed c s hc hl hs := by
    rw [hclients] at hc
    rw [hservers] at hs
    exact hinv.owed c s hc ((hleave c s hc hs).mp hl) hs

theorem congr (huncounted : ∀ c ∈ r.clients, uncounted' c ↔ uncounted c)
    (hleave : ∀ c s, s ∈ r.servers c → (leaving' c s ↔ leaving c s)) :
    Counted r uncounted' leaving' K :=
  hinv.same rfl (Finset.Subset.refl _) rfl rfl huncounted fun c s _ => hleave c s

theorem index (hids : Lists ids (r.servers c)) (hreg : r.Registrable c) :
    Counted (r.indexClient c ids hids) (fun c' => uncounted c' ∨ c' = c) leaving K where
  __ := hinv
  registered c' s hc' hs := by
    rcases mem_insert.mp hc' with rfl | hc'
    · exact .inr (.inr rfl)
    · exact (hinv.registered c' s hc' hs).imp_right .inl
  fresh c' s hc' hun hK := by
    by_cases hmem : c' ∈ r.clients
    · rcases hun with hun | rfl
      · exact hinv.fresh c' s hmem hun hK
      · exact hreg.2.2.2 hmem
    · -- a counted connection that is not registered is closed, so it is not the new one
      rcases mem_insert.mp hc' with rfl | hc'
      · exact hreg.2.2.1 (hinv.detached c' s hmem hK).2
      · exact hmem hc'
  detached c' s hc' := hinv.detached c' s fun h => hc' (mem_insert_of_mem h)
  owed c' s hc' := hinv.owed c' s fun h => hc' (mem_insert_of_mem h)

end

/-- The counted connections after `registerPresence`. -/
def withClient (K : Int → Finset Client) (servers : Finset Int) (c : Client) (s : Int) :
    Finset Client :=
  if s ∈ servers then insert c (K s) else K s

theorem mem_withClient {servers : Finset Int} {c' : Client} :
    c' ∈ withClient K servers c s ↔ c' = c ∧ s ∈ servers ∨ c' ∈ K s := by
  unfold withClient
  split
  · next hs => simp [hs]
  · next hs => simp [hs]

section

variable (hinv : Counted r uncounted leaving K)
include hinv

/-- A registered connection is counted on some of its servers, perhaps new ones, and so on all of
them. -/
theorem more (hids : ids.Nodup) (hc : c ∈ r.clients) (hfresh : ∀ s ∈ ids, c ∉ K s)
    (hall : ∀ s ∈ r.servers c, s ∈ ids ∨ c ∈ K s) (hclients : r'.clients = r.clients)
    (hdone : r'.done = r.done)
    (hservers : ∀ c' s, s ∈ r'.servers c' ↔ c' = c ∧ s ∈ ids ∨ s ∈ r.servers c')
    (hpresence : r'.presence = ids.foldl (fun p s => p.incrementPresence s c.userID) r.presence) :
    Counted r' (fun c' => uncounted c' ∧ c' ≠ c) leaving (withClient K ids.toFinset c) := by
  have hmem : ∀ {c' s}, c' ∈ withClient K ids.toFinset c s ↔ c' = c ∧ s ∈ ids ∨ c' ∈ K s := by
    simp [mem_withClient]
  refine ⟨fun s u => ?_, fun c' s hK => ?_, fun c' s hc' hs => ?_, fun c' s hc' hun hK => ?_,
    fun c' s hc' hK => ?_, fun c' s hc' hl hs => ?_⟩
  · simp only [hpresence, get_foldl_incrementPresence hids, hinv.counts, withClient,
      List.mem_toFinset]
    by_cases hs : s ∈ ids
    · rw [if_pos hs, tally_insert (hfresh s hs)]
      by_cases hu : u = c.userID
      · subst hu
        simp only [hs, and_self, if_true]
        exact some_succ_entryOf _
      · simp [hu]
    · simp [hs]
  · exact (hservers c' s).mpr ((hmem.mp hK).imp_right (hinv.member c' s))
  · rw [hmem]
    by_cases hcc : c' = c
    · subst hcc
      rcases (hservers c' s).mp hs with hnew | hs
      · exact .inl (.inl hnew)
      · exact .inl ((hall s hs).imp_left fun hid => ⟨rfl, hid⟩)
    · have hs := ((hservers c' s).mp hs).resolve_left fun hnew => hcc hnew.1
      exact (hinv.registered c' s (hclients ▸ hc') hs).imp .inr fun hun => ⟨hun, hcc⟩
  · rcases hmem.mp hK with hnew | hK
    · exact hun.2 hnew.1
    · exact hinv.fresh c' s (hclients ▸ hc') hun.1 hK
  all_goals rw [hclients] at hc'
  · rw [hdone]
    rcases hmem.mp hK with hnew | hK
    · exact absurd (hnew.1 ▸ hc) hc'
    · exact hinv.detached c' s hc' hK
  · have hs := ((hservers c' s).mp hs).resolve_left fun hnew => hc' (hnew.1 ▸ hc)
    exact hmem.mpr (.inr (hinv.owed c' s hc' hl hs))

theorem count (hids : Lists ids (r.servers c)) (hc : c ∈ r.clients) (hun : uncounted c) :
    Counted (r.registerPresence c ids) (fun c' => uncounted c' ∧ c' ≠ c) leaving
      (withClient K ids.toFinset c) := by
  refine hinv.more hids.nodup hc (fun s _ => hinv.fresh c s hc hun)
    (fun s hs => .inl (hids.mem_iff.mpr hs)) rfl rfl (fun c' s => (or_iff_right_of_imp ?_).symm) rfl
  rintro ⟨rfl, hs⟩
  exact hids.mem_iff.mp hs

theorem addServer (hc : c ∈ r.clients) (hs : s ∉ r.servers c) (hun : ¬uncounted c) :
    Counted (r.addServer c s hc) (fun c' => uncounted c' ∧ c' ≠ c) leaving
      (withClient K [s].toFinset c) := by
  refine hinv.more (List.nodup_singleton s) hc ?_
    (fun s' hs' => .inr ((hinv.registered c s' hc hs').resolve_right hun)) rfl rfl
    (fun c' s' => ?_) rfl
  · simpa using fun hK => hs (hinv.member c s hK)
  · rw [r.mem_servers_addServer hc, List.mem_singleton]

theorem detach (hids : Lists ids (r.servers c)) (hdone : c ∈ r.done)
    (hK : ∀ s ∈ r.servers c, c ∈ K s) :
    Counted (r.detach c ids hids) uncounted (fun c' s => leaving c' s ∨ c' = c) K where
  __ := hinv
  registered c' s hc' := hinv.registered c' s (mem_of_mem_erase hc')
  fresh c' s hc' := hinv.fresh c' s (mem_of_mem_erase hc')
  detached c' s hc' hK' := by
    by_cases hcc : c' = c
    · exact ⟨.inr hcc, hcc ▸ hdone⟩
    · obtain ⟨hl, hd⟩ := hinv.detached c' s (fun h => hc' (mem_erase.mpr ⟨hcc, h⟩)) hK'
      exact ⟨.inl hl, hd⟩
  owed c' s hc' hl hs := by
    by_cases hcc : c' = c
    · subst hcc
      exact hK s hs
    · exact hinv.owed c' s (fun h => hc' (mem_erase.mpr ⟨hcc, h⟩)) (hl.resolve_right hcc) hs

theorem remove (hK : c ∈ K s) :
    Counted (r.removeServer c s) uncounted leaving (Function.update K s ((K s).erase c)) := by
  have hmem : ∀ c' s', c' ∈ Function.update K s ((K s).erase c) s' ↔
      ¬(c' = c ∧ s' = s) ∧ c' ∈ K s' := by
    intro c' s'
    by_cases hss : s' = s <;> simp [hss]
  have hservers c' s' := r.mem_servers_removeServer (c := c) (d := c') (s := s) (t := s')
  refine ⟨fun s' u => ?_, fun c' s' hK' => ?_, fun c' s' hc' hs' => ?_, fun c' s' hc' hun hK' => ?_,
    fun c' s' hc' hK' => ?_, fun c' s' hc' hl hs' => ?_⟩
  · show (r.presence.decrementPresence s c.userID).get s' u = _
    rw [get_decrementPresence (hinv.counts s c.userID), hinv.counts]
    by_cases hss : s' = s
    · subst hss
      rw [Function.update_self, tally_erase hK]
      by_cases hu : u = c.userID <;> simp [hu]
    · simp [hss]
  · obtain ⟨hne, hK'⟩ := (hmem c' s').mp hK'
    exact (hservers c' s').mpr ⟨hne, hinv.member c' s' hK'⟩
  · obtain ⟨hne, hs'⟩ := (hservers c' s').mp hs'
    rw [hmem]
    exact (hinv.registered c' s' hc' hs').imp_left fun hK' => ⟨hne, hK'⟩
  · exact hinv.fresh c' s' hc' hun ((hmem c' s').mp hK').2
  · exact hinv.detached c' s' hc' ((hmem c' s').mp hK').2
  · obtain ⟨hne, hs'⟩ := (hservers c' s').mp hs'
    exact (hmem c' s').mpr ⟨hne, hinv.owed c' s' hc' hl hs'⟩

theorem deletePresence (hempty : ∀ c, s ∈ r.servers c → c ∉ r.clients ∧ ¬leaving c s) :
    Counted (r.deletePresence s) uncounted leaving (Function.update K s ∅) := by
  have hmem : ∀ c' s', c' ∈ Function.update K s ∅ s' ↔ s' ≠ s ∧ c' ∈ K s' := by
    intro c' s'
    by_cases hss : s' = s <;> simp [hss]
  refine ⟨fun s' u => ?_, fun c' s' hK' => ?_, fun c' s' hc' hs' => ?_,
    fun c' s' hc' hun' hK' => ?_, fun c' s' hc' hK' => ?_, fun c' s' hc' hl hs' => ?_⟩
  · show (r.presence.dropAll s).get s' u = _
    by_cases hss : s' = s
    · subst hss
      simp [tally, entryOf]
    · simp [hss, hinv.counts]
  · exact hinv.member c' s' ((hmem c' s').mp hK').2
  · rw [hmem]
    refine (hinv.registered c' s' hc' hs').imp_left fun hK' => ⟨?_, hK'⟩
    rintro rfl
    exact (hempty c' hs').1 hc'
  · exact hinv.fresh c' s' hc' hun' ((hmem c' s').mp hK').2
  · exact hinv.detached c' s' hc' ((hmem c' s').mp hK').2
  · refine (hmem c' s').mpr ⟨?_, hinv.owed c' s' hc' hl hs'⟩
    rintro rfl
    exact (hempty c' hs').2 hl

end

end Counted

/-! ## The condition -/

/-- The connection that a command is going to discount on the server. -/
def Cmd.leaver (s : Int) : Cmd → Option Client
  | .registry (.unregisterPresence c) => some c
  | .registry (.removeClientServer c s' _) => if s' = s then some c else none
  | _ => none

def Uncounted (S : Multiset Cmd) (c : Client) : Prop :=
  .registry (.registerPresence c) ∈ S
deriving Decidable

def Leaving (S : Multiset Cmd) (c : Client) (s : Int) : Prop :=
  ∃ b ∈ S, b.leaver s = some c

instance (S : Multiset Cmd) (c : Client) (s : Int) : Decidable (Leaving S c s) :=
  Multiset.decidableExistsMultiset

/-- The membership that `AddUserToServer` adds with this command. -/
def Cmd.addition : Cmd → Option (Client × Int)
  | .registry (.addServer c s) => some (c, s)
  | _ => none

def Cmd.detaches : Cmd → Option Client
  | .registry (.detach c) => some c
  | _ => none

def Cmd.deletes : Cmd → Option Int
  | .registry (.deletePresence s) => some s
  | _ => none

/-- Counting keeps step with membership:

* a registered connection gets a new server when its `registerPresence` is not pending;
* a connection is detached when it is counted on its servers, because its `registerPresence` has
  run, or when an earlier `Unregister` of it has still to discount it there;
* the counters of a server are deleted when no detached connection has still to leave it. -/
def PresenceTimely (h : HubState) (S : Multiset Cmd) (d : Cmd) : Prop :=
  (∀ p ∈ d.addition, p.1 ∈ h.registry.clients → p.2 ∉ h.registry.servers p.1 → ¬Uncounted S p.1) ∧
  (∀ c ∈ d.detaches, ∀ s ∈ h.registry.servers c,
    c ∈ h.registry.clients ∧ ¬Uncounted S c ∨ c ∉ h.registry.clients ∧ Leaving S c s) ∧
  (∀ s ∈ d.deletes, ∀ b ∈ S, ∀ c ∈ b.leaver s, c ∉ h.registry.clients → s ∉ h.registry.servers c)
deriving Decidable

/-! ## One step -/

section Steps

variable {x : Choice} {d : Cmd} {h h' : HubState} {new : List HubInstr} {R : Multiset Cmd}
  {c : Client} {s : Int} {K : Int → Finset Client}

/-- The invariant: the connections `K` are the counted ones, given the pending commands. -/
abbrev CountedNow (h : HubState) (S : Multiset Cmd) (K : Int → Finset Client) : Prop :=
  Counted h.registry (Uncounted S) (Leaving S) K

theorem uncounted_cons : Uncounted (d ::ₘ R) c ↔
    d = .registry (.registerPresence c) ∨ Uncounted R c := by
  simp [Uncounted, eq_comm]

theorem uncounted_push : Uncounted (cmds new + R) c ↔
    .run (.registry (.registerPresence c)) ∈ new ∨ Uncounted R c := by
  simp [Uncounted]

theorem leaving_cons : Leaving (d ::ₘ R) c s ↔ d.leaver s = some c ∨ Leaving R c s := by
  simp [Leaving]

theorem leaving_push : Leaving (cmds new + R) c s ↔
    (∃ b, .run b ∈ new ∧ b.leaver s = some c) ∨ Leaving R c s := by
  simp only [Leaving, Multiset.mem_add, Multiset.mem_coe, mem_cmds]
  constructor
  · rintro ⟨b, hb | hb, hl⟩
    · exact .inl ⟨b, hb, hl⟩
    · exact .inr ⟨b, hb, hl⟩
  · rintro (⟨b, hb, hl⟩ | ⟨b, hb, hl⟩)
    · exact ⟨b, .inl hb, hl⟩
    · exact ⟨b, .inr hb, hl⟩

theorem leaver_of_exec {b : Cmd} (he : h.exec x d = some (h', new)) (hb : .run b ∈ new)
    (hl : b.leaver s = some c) :
    d = .registry (.detach c) ∨ d.leaver s = some c ∨ c ∈ h.registry.clients := by
  unfold Cmd.leaver at hl
  split at hl
  · cases hl
    cases follows_of_exec he hb with
    | unregisterPresence => exact .inl rfl
  · next c' s' announce =>
    obtain ⟨rfl, rfl⟩ : s' = s ∧ c' = c := by simpa using hl
    cases follows_of_exec he hb with
    | unregisterServer => exact .inr (.inl rfl)
    | revokeUser _ _ _ hc | revokeServer _ _ hc => exact .inr (.inr hc)
  · simp at hl

theorem CountedNow.same (he : h.exec x d = some (h', new)) (hinv : CountedNow h (d ::ₘ R) K)
    (hsame : SameMembers h.registry h'.registry ∨ ∃ c, h'.registry = h.registry.closeClient c)
    (hcount : ∀ c ∈ h.registry.clients, d ≠ .registry (.registerPresence c))
    (hdetach : ∀ c, d ≠ .registry (.detach c))
    (hleft : ∀ c s, c ∉ h.registry.clients → s ∈ h.registry.servers c → d.leaver s = some c →
      Leaving (cmds new + R) c s) : CountedNow h' (cmds new + R) K := by
  have hfields : h'.registry.clients = h.registry.clients ∧ h.registry.done ⊆ h'.registry.done ∧
      h'.registry.servers = h.registry.servers ∧ h'.registry.presence = h.registry.presence := by
    rcases hsame with hsame | ⟨c, hclose⟩
    · exact ⟨hsame.clients, hsame.done ▸ Finset.Subset.refl _, hsame.servers, hsame.presence⟩
    · rw [hclose]
      exact ⟨rfl, subset_insert _ _, rfl, rfl⟩
  obtain ⟨hclients, hdone, hservers, hpresence⟩ := hfields
  refine Counted.same hinv hclients hdone hservers hpresence (fun c hc => ?_) fun c s hc hs => ?_
  · rw [uncounted_push, uncounted_cons, or_iff_right, or_iff_right (hcount c hc)]
    -- only connections that are not registered get a `registerPresence`
    intro hnew
    cases follows_of_exec he hnew with
    | registerPresence _ hreg => exact hreg.2.2.2 hc
  · constructor
    · intro hl
      rw [leaving_cons]
      rcases leaving_push.mp hl with ⟨b, hb, hbl⟩ | hR
      · rcases leaver_of_exec he hb hbl with hd | hd | hc'
        · exact absurd hd (hdetach c)
        · exact .inl hd
        · exact absurd hc' hc
      · exact .inr hR
    · intro hl
      rcases leaving_cons.mp hl with hd | hR
      · exact hleft c s hc hs hd
      · exact leaving_push.mpr (.inr hR)

theorem CountedNow.of_reads {cmd : RegistryCmd} (he : h.exec x (.registry cmd) = some (h', new))
    (hcmd : cmd.Reads) (hinv : CountedNow h (.registry cmd ::ₘ R) K)
    (hsame : SameMembers h.registry h'.registry ∨ ∃ c, h'.registry = h.registry.closeClient c) :
    CountedNow h' (cmds new + R) K := by
  refine hinv.same he hsame ?_ ?_ ?_
  · rintro c - heq
    obtain rfl := Cmd.registry.inj heq
    exact hcmd
  · rintro c heq
    obtain rfl := Cmd.registry.inj heq
    exact hcmd
  · intro c s _ _ hl
    cases cmd <;> simp [Cmd.leaver, RegistryCmd.Reads] at hl hcmd

theorem CountedNow.mem_of_remove {announce : Bool}
    (hinv : CountedNow h (.registry (.removeClientServer c s announce) ::ₘ R) K)
    (hlife : Lifecycle h (.registry (.removeClientServer c s announce) ::ₘ R))
    (hlock : announce = false → ¬Uncounted R c) (hs : s ∈ h.registry.servers c) : c ∈ K s := by
  by_cases hc : c ∈ h.registry.clients
  · rcases hinv.registered c s hc hs with hK | hun
    · exact hK
    · have hunR : Uncounted R c := (uncounted_cons.mp hun).resolve_left (by simp)
      cases announce with
      | false => exact absurd hunR (hlock rfl)
      | true => exact absurd hc (hlife.announcing c s (by simp)).1
  · exact hinv.owed c s hc (leaving_cons.mpr (.inl (by simp [Cmd.leaver]))) hs

theorem CountedNow.registry_fire {cmd : RegistryCmd}
    (he : h.exec x (.registry cmd) = some (h', new))
    (hguard : PresenceTimely h (.registry cmd ::ₘ R) (.registry cmd))
    (hlife : Lifecycle h (.registry cmd ::ₘ R))
    (hlock : ∀ c s, cmd = .removeClientServer c s false → ¬Uncounted R c)
    (hempty : ∀ s, cmd = .deletePresence s → ∀ c ∈ h.registry.clients, s ∉ h.registry.servers c)
    (hinv : CountedNow h (.registry cmd ::ₘ R) K) : ∃ K, CountedNow h' (cmds new + R) K := by
  obtain ⟨haddition, hdetaches, hdeletes⟩ := hguard
  obtain ⟨r', hr, rfl⟩ := exec_registry he
  cases Registry.exec_change hr with
  | reads _ _ _ hcmd hsame => exact ⟨K, hinv.of_reads he hcmd (.inl hsame)⟩
  | close _ c₀ _ hcmd => exact ⟨K, hinv.of_reads he hcmd (.inr ⟨c₀, rfl⟩)⟩
  | index c₀ ids hids hreg =>
    refine ⟨K, (Counted.index hinv hids hreg).congr (fun c _ => ?_) fun c s _ => ?_⟩
    · rw [uncounted_push, uncounted_cons, or_comm]
      simp
    · rw [leaving_push, leaving_cons]
      simp [Cmd.leaver]
  | count c₀ ids hids hc =>
    -- this was the only `registerPresence` of the client, so the client is counted from now on
    have honce : ¬Uncounted R c₀ := by
      intro hmem
      have hcount := hlife.once c₀
      rw [Multiset.count_cons_self] at hcount
      have hpos := Multiset.count_pos.mpr hmem
      omega
    refine ⟨_, (Counted.count hinv hids hc (uncounted_cons.mpr (.inl rfl))).congr (fun c _ => ?_)
      fun c s _ => ?_⟩
    · rw [uncounted_push, uncounted_cons]
      by_cases hcc : c = c₀
      · subst hcc
        simp [honce]
      · simp [hcc, Ne.symm hcc]
    · rw [leaving_push, leaving_cons]
      simp [Cmd.leaver]
  | countGone c₀ hc =>
    -- the client has been unregistered in between and is not counted at all
    refine ⟨K, hinv.same he (.inl (.refl _)) ?_ (by simp) ?_⟩
    · rintro c hc' heq
      obtain rfl : c₀ = c := by simpa using heq
      exact hc hc'
    · simp [Cmd.leaver]
  | detach c₀ ids hids =>
    -- the client leaves the registry with every server counted; the decrements are owed
    have hK : ∀ s ∈ h.registry.servers c₀, c₀ ∈ K s := by
      intro s hs
      rcases hdetaches c₀ rfl s hs with ⟨hc, hun⟩ | ⟨hc, hl⟩
      · exact (hinv.registered c₀ s hc hs).resolve_right hun
      · exact hinv.owed c₀ s hc hl hs
    refine ⟨K, (Counted.detach hinv hids (hlife.detaching c₀ (by simp)) hK).congr
      (fun c _ => ?_) fun c s _ => ?_⟩
    · rw [uncounted_push, uncounted_cons]
      simp
    · rw [leaving_push, leaving_cons, or_comm]
      simp [Cmd.leaver, eq_comm]
  | unregister c₀ ids hids =>
    -- one `removeClientServer` per server takes over what the client owes
    refine ⟨K, hinv.same he (.inl (.refl _)) (by simp) (by simp) ?_⟩
    intro c s _ hs hl
    obtain rfl : c₀ = c := by simpa [Cmd.leaver] using hl
    refine leaving_push.mpr
      (.inl ⟨.registry (.removeClientServer c₀ s true), ?_, by simp [Cmd.leaver]⟩)
    exact List.mem_map.mpr ⟨s, hids.mem_iff.mpr hs, rfl⟩
  | remove c₀ s₀ announce hs =>
    have hK : c₀ ∈ K s₀ := hinv.mem_of_remove hlife (fun ha => hlock c₀ s₀ (ha ▸ rfl)) hs
    refine ⟨_, (Counted.remove hinv hK).congr (fun c _ => ?_) fun c s hs => ?_⟩
    · rw [uncounted_push, uncounted_cons]
      simp
    · rw [leaving_push, leaving_cons]
      have hother : (Cmd.registry (.removeClientServer c₀ s₀ announce)).leaver s ≠ some c := by
        intro hl
        obtain ⟨rfl, rfl⟩ : s₀ = s ∧ c₀ = c := by simpa [Cmd.leaver] using hl
        exact ((Registry.mem_servers_removeServer _).mp hs).1 ⟨rfl, rfl⟩
      simp [hother]
  | removeAbsent c₀ s₀ announce hs =>
    -- a revocation has been here before, and it has decremented the counter
    refine ⟨K, hinv.same he (.inl (.refl _)) (by simp) (by simp) ?_⟩
    intro c s _ hs' hl
    obtain ⟨rfl, rfl⟩ : s₀ = s ∧ c₀ = c := by simpa [Cmd.leaver] using hl
    exact absurd hs' hs
  | addServer c₀ s₀ hc hs =>
    have hun := haddition (c₀, s₀) rfl hc hs
    refine ⟨_, (Counted.addServer hinv hc hs hun).congr (fun c _ => ?_) fun c s _ => ?_⟩
    · rw [uncounted_push, uncounted_cons]
      by_cases hcc : c = c₀
      · subst hcc
        have hR : ¬Uncounted R c := fun hR => hun (uncounted_cons.mpr (.inr hR))
        simp [hR]
      · simp [hcc]
    · rw [leaving_push, leaving_cons]
      simp [Cmd.leaver]
  | deletePresence s₀ =>
    refine ⟨_, (Counted.deletePresence hinv fun c hs => ?_).congr (fun c _ => ?_) fun c s _ => ?_⟩
    · have hc : c ∉ h.registry.clients := fun hc => hempty s₀ rfl c hc hs
      refine ⟨hc, ?_⟩
      rintro ⟨b, hb, hl⟩
      exact hdeletes s₀ rfl b hb c hl hc hs
    · rw [uncounted_push, uncounted_cons]
      simp
    · rw [leaving_push, leaving_cons]
      simp [Cmd.leaver]

theorem CountedNow.media_fire {cmd : MediaCmd} (he : h.exec x (.media cmd) = some (h', new))
    (hinv : CountedNow h (.media cmd ::ₘ R) K) : CountedNow h' (cmds new + R) K := by
  refine hinv.same he (.inl ?_) (by simp) (by simp) (by simp [Cmd.leaver])
  obtain ⟨m', -, rfl⟩ := exec_media he
  exact .refl _

end Steps

/-! ## Whole runs -/

theorem CountedNow.start {h : HubState} {S : Multiset Cmd} {K : Int → Finset Client} {op : Op}
    (hinv : CountedNow h S K) : CountedNow h (cmds op.body + S) K := by
  refine Counted.same hinv rfl (Finset.Subset.refl _) rfl rfl (fun c _ => ?_) fun c s _ _ => ?_
  · rw [uncounted_push, or_iff_right]
    exact fun hnew => Op.starts hnew
  · rw [leaving_push, or_iff_right]
    rintro ⟨b, hb, hl⟩
    cases op <;> simp [Op.body] at hb <;> subst hb <;> simp [Cmd.leaver] at hl

theorem CountedNow.new (servers : Client → Finset Int) (e2eeRequired : Int → Bool)
    (limits : ViewerLimits) :
    CountedNow (HubState.new servers e2eeRequired limits) 0 fun _ => ∅ where
  counts s u := by simp [HubState.new, Registry.new, tally, entryOf]
  member := by simp
  registered := by simp [HubState.new, Registry.new]
  fresh := by simp
  detached := by simp
  owed := by simp [Leaving]

variable {servers : Client → Finset Int} {e2eeRequired : Int → Bool} {limits : ViewerLimits}
  {cfg : HubConfig}

theorem countedNow_of_reachable {allowed : Op → Prop}
    (hrun : hubMachine.Reachable allowed PresenceTimely
      (HubState.new servers e2eeRequired limits) cfg) :
    ∃ K, CountedNow cfg.state cfg.pending K := by
  refine hrun.induction (P := fun h S => ∃ K, CountedNow h S K) ⟨_, .new _ _ _⟩ ?_ ?_
  · rintro h S op - ⟨K, hinv⟩
    exact ⟨K, hinv.start⟩
  · rintro cfg i d x h' new rest R hcfg hf hguard ⟨K, hinv⟩
    cases d with
    | media cmd => exact ⟨K, hinv.media_fire hf.exec⟩
    | registry cmd =>
      refine hinv.registry_fire hf.exec hguard (hf.pending ▸ lifecycle_of_reachable hcfg) ?_ ?_
      · -- the revocation holds `channelAccessMu`, which a pending `registerPresence` shares
        rintro c s rfl hun
        have hmem : .registry (.registerPresence c) ∈ cfg.pending :=
          hf.pending ▸ Multiset.mem_cons_of_mem hun
        have hmode : Mode.exclusive = .shared :=
          mode_eq_of_channelAccess hcfg hf (by simp) hmem (by simp) fun op hop => Op.starts hop
        simp at hmode
      · rintro s rfl c hc
        exact server_emptied hcfg hf hc

/-- **Presence counting is exact.** In every run in which counting keeps step with membership, when
no operation is in progress a counter is the number of registered connections of the account that
have the server, no entry standing for zero, and `onlineUserIDs` lists the accounts that have one,
each once and in ascending order. -/
theorem presence_exact (hrun : hubMachine.Reachable (fun _ => True) PresenceTimely
      (HubState.new servers e2eeRequired limits) cfg) (hquiet : cfg.Quiescent) (s u : Int) :
    cfg.state.registry.presence.get s u = Presence.entryOf
      (cfg.state.registry.clients.filter fun c =>
        c.userID = u ∧ s ∈ cfg.state.registry.servers c).card ∧
    (u ∈ cfg.state.registry.presence.onlineUserIDs s ↔
      ∃ c ∈ cfg.state.registry.clients, c.userID = u ∧ s ∈ cfg.state.registry.servers c) ∧
    (cfg.state.registry.presence.onlineUserIDs s).Pairwise (· < ·) := by
  obtain ⟨K, hinv⟩ := countedNow_of_reachable hrun
  rw [hquiet.pending_eq_zero] at hinv
  -- with nothing pending, the counted connections are the registered ones
  have hK : (K s).filter (fun c => c.userID = u) = cfg.state.registry.clients.filter fun c =>
      c.userID = u ∧ s ∈ cfg.state.registry.servers c := by
    ext c
    simp only [mem_filter]
    constructor
    · rintro ⟨hc, hu⟩
      refine ⟨?_, hu, hinv.member c s hc⟩
      by_contra hgone
      obtain ⟨⟨b, hb, -⟩, -⟩ := hinv.detached c s hgone hc
      exact absurd hb (Multiset.notMem_zero b)
    · rintro ⟨hc, hu, hs⟩
      exact ⟨(hinv.registered c s hc hs).resolve_right (Multiset.notMem_zero _), hu⟩
  have hcount := hinv.counts s u
  unfold tally at hcount
  rw [hK] at hcount
  refine ⟨hcount, ?_, onlineUserIDs_sorted _ s⟩
  rw [mem_onlineUserIDs hcount, card_pos]
  simp [Finset.Nonempty]

/-! ## Two runs of one connection -/

namespace Sample

def emptyHub : HubState :=
  HubState.new (fun _ => ∅) (fun _ => false) ⟨10, 10⟩

def indexed : Schedule :=
  .start (.register client) :: goroutine 0 3 {}

def added : Schedule :=
  .start (.addUserToServer 7 1) :: goroutine 1 5 { here with clients := [client] }

/-- The connection is counted on its servers, and `Register` ends. -/
def counted (serverIDs : List Int) : Schedule :=
  goroutine 0 2 { here with serverIDs := serverIDs }

end Sample

open Sample in
/-- A connection that registers and is added to a server afterwards. -/
theorem presence_exact_added :
    ∃ cfg, hubMachine.Reachable (fun _ => True) PresenceTimely emptyHub cfg ∧ cfg.Quiescent ∧
      (client ∈ cfg.state.registry.clients ∧ 1 ∈ cfg.state.registry.servers client) ∧
      7 ∈ cfg.state.registry.presence.onlineUserIDs 1 := by
  obtain ⟨cfg, hrun, hquiet, hc, hs⟩ : ∃ cfg,
      hubMachine.Reachable (fun _ => True) PresenceTimely emptyHub cfg ∧ cfg.Quiescent ∧
        client ∈ cfg.state.registry.clients ∧ 1 ∈ cfg.state.registry.servers client :=
    Machine.exists_reachable_of_play (indexed ++ counted [] ++ added) (by decide +kernel)
  exact ⟨cfg, hrun, hquiet, ⟨hc, hs⟩, (presence_exact hrun hquiet 1 7).2.1.mpr ⟨client, hc,
    rfl, hs⟩⟩

open Sample in
/-- **The connection counted twice.** `AddUserToServer` comes between the two steps of `Register`:
the counter is 2 with one registered connection. -/
theorem connection_counted_twice :
    ∃ cfg, hubMachine.Reachable (fun _ => True) (fun _ _ _ => True) emptyHub cfg ∧ cfg.Quiescent ∧
      cfg.state.registry.presence.get 1 7 = some 2 ∧
      (cfg.state.registry.clients.filter fun c =>
        c.userID = 7 ∧ 1 ∈ cfg.state.registry.servers c).card = 1 :=
  Machine.exists_reachable_of_play (indexed ++ added ++ counted [1]) (by decide +kernel)

end Voxhold.Hub
