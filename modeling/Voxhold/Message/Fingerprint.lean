/-
# Voxhold.Message.Fingerprint — what the fingerprint of a send tells apart

`requestHash` encodes a request step by step. The steps before the poll have one of five shapes
(`Shape`), and the kind of the request keeps the plain text apart from the others
(`Shape.encode_injective`).
-/

import Voxhold.Message.Operations

namespace Voxhold.Message

open Voxhold.Lib Json Option ForwardInput

/-! ## The parts of an encoding -/

theorem text_injective : Function.Injective text := fun _ _ h =>
  String.toList_injective (str.inj h)

theorem number_injective : Function.Injective number := fun _ _ h =>
  Int.ofNat.inj (num.inj h)

theorem option_injective {α : Type} {g : Option α → Json} (hnone : ∀ a, g (some a) ≠ g none)
    (hsome : Function.Injective fun a => g (some a)) : Function.Injective g := by
  rintro (_ | a) (_ | b) h
  · rfl
  · exact absurd h.symm (hnone b)
  · exact absurd h (hnone a)
  · rw [hsome h]

theorem optional_injective : Function.Injective optional :=
  option_injective nofun number_injective

theorem texts_injective : Function.Injective texts := fun _ _ h =>
  text_injective.list_map (arr.inj h)

theorem PollInput.json_injective : Function.Injective PollInput.json := by
  intro p q h
  obtain ⟨question, options, multiple, anonymous, closesAt⟩ := p
  obtain ⟨question', options', multiple', anonymous', closesAt'⟩ := q
  simp only [PollInput.json, obj.injEq, List.cons.injEq, Prod.mk.injEq, true_and, and_true,
    bool.injEq, num.injEq] at h
  obtain ⟨hquestion, hoptions, rfl, rfl, rfl⟩ := h
  rw [text_injective hquestion, texts_injective hoptions]

/-! ## Forward sources -/

inductive ForwardSource where
  | conversation (conversation message : ℕ)
  | channel (server channel message : ℕ)
deriving DecidableEq

/-- A conversation, if one is named, is the source whatever else is. -/
def ForwardInput.source (f : ForwardInput) : ForwardSource :=
  if 0 < f.sourceConversationID then .conversation f.sourceConversationID f.sourceMessageID
  else .channel f.sourceServerID f.sourceChannelID f.sourceMessageID

def ForwardSource.json : ForwardSource → Json
  | .conversation c m => .arr [text "conversation", number c, number m]
  | .channel s c m => .arr [number s, number c, number m]

theorem ForwardInput.json_eq (f : ForwardInput) : f.json = f.source.json := by
  unfold json source
  split <;> rfl

theorem ForwardSource.json_injective : Function.Injective ForwardSource.json := by
  intro s s' h
  cases s with
  | conversation c m =>
    cases s' with
    | conversation c' m' =>
      simp only [ForwardSource.json, arr.injEq, List.cons.injEq, and_true, true_and] at h
      rw [number_injective h.1, number_injective h.2]
    | channel s' c' m' =>
      simp [ForwardSource.json, text, number] at h
  | channel s c m =>
    cases s' with
    | conversation c' m' =>
      simp [ForwardSource.json, text, number] at h
    | channel s' c' m' =>
      simp only [ForwardSource.json, arr.injEq, List.cons.injEq, and_true] at h
      rw [number_injective h.1, number_injective h.2.1, number_injective h.2.2]

theorem ForwardSource.json_ne_pair (s : ForwardSource) (a b : Json) : s.json ≠ .arr [a, b] := by
  cases s <;> simp [ForwardSource.json]

/-! ## Shapes -/

/-- What a request is, apart from its poll. -/
inductive Shape where
  | plain (content : String)
  | reply (content : String) (target : ℕ)
  | thread (content : String) (target : Option ℕ) (root : ℕ)
  | attached (content : String) (target root : Option ℕ) (ids : List String)
  | forwarded (source : ForwardSource) (ids : List String)
deriving DecidableEq

namespace Shape

/-- The value that is written for a shape; the plain text is hashed as it is. -/
def json : Shape → Option Json
  | .plain _ => none
  | .reply content target => some (.arr [text content, number target])
  | .thread content target root => some (.obj [("content".toList, text content),
      ("reply".toList, optional target), ("root".toList, number root),
        ("type".toList, text "thread")])
  | .attached content target root ids => some (.obj [("content".toList, text content),
      ("ids".toList, texts ids), ("reply".toList, optional target), ("root".toList, optional root),
      ("type".toList, text "attachment")])
  | .forwarded source ids =>
    if ids = [] then some source.json else some (.arr [text source.json.marshal, texts ids])

def kind : Shape → RequestKind
  | .plain _ => .message
  | .reply _ _ | .thread _ _ _ | .attached _ _ _ _ => .reply
  | .forwarded _ _ => .forward

def source : Shape → String
  | .plain content => content
  | s => (s.json.map Json.marshal).getD ""

def encode (s : Shape) : RequestKind × String :=
  (s.kind, s.source)

variable {s s' : Shape}

theorem json_injective {j : Json} (hkind : s.kind = s'.kind) (h : s.json = some j)
    (h' : s'.json = some j) : s = s' := by
  match s, s' with
  | .plain _, _ => cases h
  | _, .plain _ => cases h'
  | .reply content target, .reply content' target' =>
    have heq := some.inj (h.trans h'.symm)
    simp only [arr.injEq, List.cons.injEq, and_true] at heq
    rw [text_injective heq.1, number_injective heq.2]
  | .thread content target root, .thread content' target' root' =>
    have heq := some.inj (h.trans h'.symm)
    simp only [obj.injEq, List.cons.injEq, Prod.mk.injEq, true_and, and_true] at heq
    rw [text_injective heq.1, optional_injective heq.2.1, number_injective heq.2.2]
  | .attached content target root ids, .attached content' target' root' ids' =>
    have heq := some.inj (h.trans h'.symm)
    simp only [obj.injEq, List.cons.injEq, Prod.mk.injEq, true_and, and_true] at heq
    rw [text_injective heq.1, texts_injective heq.2.1, optional_injective heq.2.2.1,
      optional_injective heq.2.2.2]
  | .forwarded source ids, .forwarded source' ids' =>
    have heq := h.trans h'.symm
    simp only [json] at heq
    split at heq
    next hids =>
      split at heq
      next hids' => rw [ForwardSource.json_injective (some.inj heq), hids, hids']
      · exact absurd (some.inj heq) (source.json_ne_pair _ _)
    · split at heq
      · exact absurd (some.inj heq).symm (source'.json_ne_pair _ _)
      · simp only [some.injEq, arr.injEq, List.cons.injEq, and_true] at heq
        rw [ForwardSource.json_injective (marshal_injective (text_injective heq.1)),
          texts_injective heq.2]
  | .reply _ _, .thread _ _ _ | .reply _ _, .attached _ _ _ _ | .thread _ _ _, .reply _ _
  | .attached _ _ _ _, .reply _ _ =>
    have heq := h.trans h'.symm
    cases heq
  | .thread _ _ _, .attached _ _ _ _ | .attached _ _ _ _, .thread _ _ _ =>
    have heq := h.trans h'.symm
    simp [json] at heq
  | .reply _ _, .forwarded _ _ | .thread _ _ _, .forwarded _ _ | .attached _ _ _ _, .forwarded _ _
  | .forwarded _ _, .reply _ _ | .forwarded _ _, .thread _ _ _ | .forwarded _ _,
      .attached _ _ _ _ =>
    cases hkind

theorem json_eq_none_iff : s.json = none ↔ s.kind = .message := by
  cases s with
  | forwarded source ids =>
    simp only [json, kind]
    split <;> simp
  | plain | reply | thread | attached => simp [json, kind]

theorem source_of_json {j : Json} (h : s.json = some j) : s.source = j.marshal := by
  cases s with
  | plain content => cases h
  | reply | thread | attached | forwarded =>
    rw [source, h]
    · rfl
    · simp

theorem source_injective (hkind : s.kind = s'.kind) (h : s.source = s'.source) : s = s' := by
  cases hjson : s.json with
  | none =>
    have hjson' : s'.json = none := json_eq_none_iff.mpr (hkind ▸ json_eq_none_iff.mp hjson)
    match s, s' with
    | .plain content, .plain content' => exact congrArg Shape.plain h
    | .plain _, .reply _ _ | .plain _, .thread _ _ _ | .plain _, .attached _ _ _ _
    | .plain _, .forwarded _ _ => cases hkind
    | .reply _ _, _ | .thread _ _ _, _ | .attached _ _ _ _, _ => cases hjson
    | .forwarded _ _, _ => cases json_eq_none_iff.mp hjson
  | some j =>
    cases hjson' : s'.json with
    | none =>
      rw [json_eq_none_iff.mpr (hkind ▸ json_eq_none_iff.mp hjson')] at hjson
      cases hjson
    | some j' =>
      rw [source_of_json hjson, source_of_json hjson'] at h
      rw [← marshal_injective h] at hjson'
      exact json_injective hkind hjson hjson'

theorem encode_injective : Function.Injective encode := fun _ _ h =>
  source_injective (congrArg Prod.fst h) (congrArg Prod.snd h)

theorem encode_ne_poll (s : Shape) (source : String) (p : PollInput) :
    s.encode ≠ (.reply, (Json.arr [text source, p.json]).marshal) := by
  intro h
  have hkind : s.kind = .reply := congrArg Prod.fst h
  have hsource : s.source = _ := congrArg Prod.snd h
  cases s with
  | plain | forwarded => cases hkind
  | reply content target =>
    have hjson := marshal_injective ((source_of_json rfl).symm.trans hsource)
    simp [PollInput.json, number] at hjson
  | thread content target root | attached content target root ids =>
    have hjson := marshal_injective ((source_of_json rfl).symm.trans hsource)
    cases hjson

end Shape

/-! ## Requests -/

/-- The text, the reply target, the thread, the attachments and the source of a shape. -/
def Shape.parts : Shape → String × Option ℕ × Option ℕ × List String × Option ForwardSource
  | .plain content => (content, none, none, [], none)
  | .reply content target => (content, some target, none, [], none)
  | .thread content target root => (content, target, some root, [], none)
  | .attached content target root ids => (content, target, root, ids, none)
  | .forwarded source ids => ("", none, none, ids, some source)

def CreateInput.shape (input : CreateInput) : Option ForwardInput → Shape
  | some f => .forwarded f.source input.attachmentIDs
  | none =>
    if input.attachmentIDs ≠ [] then
      .attached input.content input.replyToMessageID input.threadRootID input.attachmentIDs
    else match input.threadRootID, input.replyToMessageID with
      | some root, target => .thread input.content target root
      | none, some target => .reply input.content target
      | none, none => .plain input.content

/-- A forward as `Service.Forward` makes it: besides the source it carries attachments only. -/
def FromService (input : CreateInput) (forward : Option ForwardInput) : Prop :=
  forward.isSome → input.content = "" ∧ input.replyToMessageID = none ∧ input.threadRootID = none ∧
    input.poll = none

/-- Two requests that agree in everything the author chose. -/
structure SameRequest (input input' : CreateInput) (forward forward' : Option ForwardInput) :
    Prop where
  content : input.content = input'.content
  reply : input.replyToMessageID = input'.replyToMessageID
  root : input.threadRootID = input'.threadRootID
  attachments : input.attachmentIDs = input'.attachmentIDs
  poll : input.poll = input'.poll
  source : forward.map source = forward'.map source

/-- Two requests with a poll, one of them a plain text that reads like the encoding of the other. -/
def Mistaken (s s' : Shape) (poll poll' : Option PollInput) : Prop :=
  poll.isSome ∧ poll'.isSome ∧ s.source = s'.source ∧ (s.json.isNone ≠ s'.json.isNone)

section Requests

variable {input input' : CreateInput} {forward forward' : Option ForwardInput}

section

variable (h : FromService input forward)
include h

theorem requestSource_eq :
    requestSource input forward = pollSource input (input.shape forward).encode := by
  unfold requestSource
  congr 1
  cases forward with
  | some f =>
    obtain ⟨-, -, hroot, -⟩ := h rfl
    simp only [attachmentSource, threadSource, hroot, baseSource, CreateInput.shape, Shape.encode,
      Shape.kind, Shape.source, Shape.json, f.json_eq, reduceCtorEq, and_false, if_false]
    split <;> rfl
  | none =>
    by_cases hids : input.attachmentIDs = []
    · simp only [attachmentSource, threadSource, baseSource, CreateInput.shape, hids, ne_eq,
        not_true_eq_false, false_and, if_false]
      cases input.threadRootID with
      | some root => rfl
      | none => cases input.replyToMessageID <;> rfl
    · simp only [attachmentSource, CreateInput.shape, ne_eq, hids, not_false_eq_true, and_self,
        if_true]
      rfl

theorem parts_shape : (input.shape forward).parts =
    (input.content, input.replyToMessageID, input.threadRootID, input.attachmentIDs,
      forward.map ForwardInput.source) := by
  cases forward with
  | some f =>
    obtain ⟨hcontent, hreply, hroot, -⟩ := h rfl
    rw [hcontent, hreply, hroot]
    rfl
  | none =>
    unfold CreateInput.shape
    by_cases hids : input.attachmentIDs = []
    · rw [if_neg (not_not_intro hids), hids]
      cases input.threadRootID with
      | some root => rfl
      | none => cases input.replyToMessageID <;> rfl
    · rw [if_pos hids]
      rfl

theorem sameRequest_of_shape (h' : FromService input' forward')
    (hshape : input.shape forward = input'.shape forward') (hpoll : input.poll = input'.poll) :
    SameRequest input input' forward forward' := by
  have hparts := congrArg Shape.parts hshape
  rw [parts_shape h, parts_shape h'] at hparts
  simp only [Prod.mk.injEq] at hparts
  obtain ⟨hcontent, hreply, hroot, hids, hsource⟩ := hparts
  exact ⟨hcontent, hreply, hroot, hids, hpoll, hsource⟩

theorem kind_ne_forward (hpoll : input.poll.isSome) : (input.shape forward).kind ≠ .forward := by
  cases forward with
  | some f =>
    rw [(h rfl).2.2.2] at hpoll
    cases hpoll
  | none =>
    simp only [CreateInput.shape]
    split
    · simp [Shape.kind]
    · split <;> simp [Shape.kind]

theorem shape_eq_of_polls (h' : FromService input' forward')
    (hpoll : input.poll.isSome) (hpoll' : input'.poll.isSome)
    (hmistaken : ¬ Mistaken (input.shape forward) (input'.shape forward') input.poll input'.poll)
    (hsource : (input.shape forward).source = (input'.shape forward').source) :
    input.shape forward = input'.shape forward' := by
  -- the poll's wrapper drops the kind of what it wraps, so only the text is left to tell them apart
  have hnone : (input.shape forward).json.isNone = (input'.shape forward').json.isNone := by
    by_contra hne
    exact hmistaken ⟨hpoll, hpoll', hsource, hne⟩
  have hmessage : (input.shape forward).kind = .message ↔
    (input'.shape forward').kind = .message := by
    rw [← Shape.json_eq_none_iff, ← Shape.json_eq_none_iff, ← isNone_iff_eq_none,
      ← isNone_iff_eq_none, hnone]
  have hforward := kind_ne_forward h hpoll
  have hforward' := kind_ne_forward h' hpoll'
  refine Shape.source_injective ?_ hsource
  cases hkind : (input.shape forward).kind <;> cases hkind' : (input'.shape forward').kind <;>
    simp_all

theorem requestSource_injective (h' : FromService input' forward')
    (hmistaken : ¬ Mistaken (input.shape forward) (input'.shape forward') input.poll input'.poll)
    (heq : requestSource input forward = requestSource input' forward') :
    SameRequest input input' forward forward' := by
  rw [requestSource_eq h, requestSource_eq h'] at heq
  cases hpoll : input.poll with
  | none =>
    cases hpoll' : input'.poll with
    | none =>
      simp only [pollSource, hpoll, hpoll'] at heq
      exact sameRequest_of_shape h h' (Shape.encode_injective heq) (hpoll.trans hpoll'.symm)
    | some p' =>
      simp only [pollSource, hpoll, hpoll'] at heq
      exact absurd heq (Shape.encode_ne_poll _ _ _)
  | some p =>
    cases hpoll' : input'.poll with
    | none =>
      simp only [pollSource, hpoll, hpoll'] at heq
      exact absurd heq.symm (Shape.encode_ne_poll _ _ _)
    | some p' =>
      simp only [pollSource, hpoll, hpoll'] at heq
      have hjson := marshal_injective (congrArg Prod.snd heq)
      simp only [arr.injEq, List.cons.injEq, and_true] at hjson
      refine sameRequest_of_shape h h' ?_ ?_
      · exact shape_eq_of_polls h h' (hpoll ▸ rfl) (hpoll' ▸ rfl) hmistaken (text_injective hjson.1)
      · rw [hpoll, hpoll', PollInput.json_injective hjson.2]

end

theorem requestSource_congr (h : SameRequest input input' forward forward') :
    requestSource input forward = requestSource input' forward' := by
  have hjson : forward.map json = forward'.map json := by
    have hsource := congrArg (Option.map ForwardSource.json) h.source
    simpa only [map_map, Function.comp_def, ← json_eq] using hsource
  have hnone : forward = none ↔ forward' = none := by
    rw [← map_eq_none_iff (f := json), hjson, map_eq_none_iff]
  have hbase : baseSource input forward = baseSource input' forward' := by
    cases forward with
    | none =>
      rw [hnone.mp rfl]
      simp only [baseSource, h.content, h.reply]
    | some f =>
      obtain ⟨f', rfl, hf⟩ := map_eq_some_iff.mp hjson.symm
      simp only [baseSource, h.attachments, hf]
  simp only [requestSource, pollSource, attachmentSource, threadSource, h.content, h.reply, h.root,
    h.attachments, h.poll, hbase, hnone]

end Requests

end Voxhold.Message
