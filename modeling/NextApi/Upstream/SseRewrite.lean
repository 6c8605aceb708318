import Mathlib.Data.List.Forall2
import NextApi.Json.Compact
import NextApi.Protocol.SseFrames

/-!
# Events with the gateway's model

The data of every event of an upstream is read, the model in it is set to the gateway's, and the
event is written again. A document names its model at its top, in its `message` or in its
`response`; data that is no document is passed on as it is.

What a client reads is what the upstream sent, with the model set, if and only if the type of no
document breaks its line and goes on with lines of data (`roundTrips_iff`): the type is written as
the name of the event, in front of the data.
-/

set_option autoImplicit false

namespace NextApi.Upstream

open Json

/-- The marker of the end, between white space. -/
def IsDone (data : String) : Prop := Text.trim data.toList = "[DONE]".toList

instance (data : String) : Decidable (IsDone data) := inferInstanceAs (Decidable (_ = _))

section Rewriting

variable [SerdeJson]

/-- `contains_key` and `insert`. -/
def setModelField (m : Map) (model : String) : Map :=
  if (Map.get? m "model").isSome then Map.insert m "model" (.str model) else m

/-- The model in an object that is a member. -/
def setInnerModel (m : Map) (model key : String) : Map :=
  match Map.get? m key with
  | some (.obj inner) => Map.insert m key (.obj (setModelField inner model))
  | _ => m

/-- The document with the gateway's model. -/
def setModels (model : String) : Value → Value
  | .obj m => .obj (["message", "response"].foldl (fun m key ↦ setInnerModel m model key)
      (setModelField m model))
  | v => v

def rewriteSsePayload (data model : String) : List Char :=
  if IsDone data then Sse.encodeTypedEvent data
  else
    match SerdeJson.ofText data with
    | .ok v =>
      Sse.encodeTypedEventWithType (SerdeJson.toText (setModels model v))
        (((setModels model v).get? "type").bind Value.asStr)
    | .error _ => Sse.encodeTypedEvent data

end Rewriting

/-! ### What a client is to read -/

/-- The field is set where there is one, and all others stay. -/
structure SetsField (model : String) (m w : Map) : Prop where
  field : Map.get? w "model" = (Map.get? m "model").map fun _ ↦ .str model
  others : ∀ key, key ≠ "model" → Map.get? w key = Map.get? m key

/-- A document with the model set, at its top and in its message and response. -/
structure SetsModels (model : String) (m w : Map) : Prop where
  top : Map.get? w "model" = (Map.get? m "model").map fun _ ↦ .str model
  inner : ∀ key ∈ ["message", "response"], ∀ v, Map.get? m key = some (.obj v) →
    ∃ v', Map.get? w key = some (.obj v') ∧ SetsField model v v'
  others : ∀ key, key ≠ "model" →
    (key ∈ ["message", "response"] → ∀ v, Map.get? m key ≠ some (.obj v)) →
    Map.get? w key = Map.get? m key

/-- Values that are no objects stay. -/
def WithModels (model : String) : Value → Value → Prop
  | .obj m, w => ∃ m', w = .obj m' ∧ SetsModels model m m'
  | v, w => w = v

section Reading

variable [SerdeJson]

/-- The text of a document, which is read back as it, up to the last digits of doubles. -/
def ReadsAs (text : String) (v : Value) : Prop :=
  ∃ w, SerdeJson.ofText text = .ok w ∧ w.canonical = v.canonical

/-- What comes of a payload: the text of the document with the models set, or the payload itself.
The marker of the end is no document, and the package reads none of more than 127 nested arrays and
objects. -/
def Rewritten (model payload result : String) : Prop :=
  if IsDone payload then result = payload
  else
    match SerdeJson.ofText payload with
    | .ok v => ∃ w, WithModels model v w ∧ result = SerdeJson.toText w ∧
        (v.depth ≤ 127 → ReadsAs result w)
    | .error _ => result = payload

/-- Payloads that are written as events are read back, and with the models set where they are
rewritten, however the bytes are cut into chunks. -/
structure RoundTrips (model : String) (payloads : List String) : Prop where
  encoded : ∀ chunks : List (List UInt8),
    chunks.flatten = Text.encodeUtf8 (payloads.flatMap Sse.encodeTypedEvent) →
    Sse.SseParser.collect {} chunks = (payloads.map String.toList, {})
  rewritten : ∀ chunks : List (List UInt8),
    chunks.flatten = Text.encodeUtf8 (payloads.flatMap (rewriteSsePayload · model)) →
    ∃ results : List String, Sse.SseParser.collect {} chunks = (results.map String.toList, {}) ∧
      List.Forall₂ (Rewritten model) payloads results

/-- The type in a payload that is a document. -/
def typeName (payload : String) : Option String :=
  (SerdeJson.ofText payload).toOption.bind fun v ↦ v["type"].asStr

end Reading

/-! ### The models that are set -/

theorem setsField_setModelField (m : Map) (model : String) :
    SetsField model m (setModelField m model) := by
  rw [setModelField]
  split
  · rename_i hsome
    obtain ⟨v, hv⟩ := Option.isSome_iff_exists.1 hsome
    refine ⟨?_, fun key hkey ↦ ?_⟩
    · rw [Map.get?_insert, if_pos rfl, hv, Option.map_some]
    · rw [Map.get?_insert, if_neg (Ne.symm hkey)]
  · rename_i hnone
    refine ⟨?_, fun key _ ↦ rfl⟩
    rw [Option.not_isSome_iff_eq_none.1 hnone, Option.map_none]

theorem get?_setInnerModel_of_ne (m : Map) (model : String) {key other : String}
    (h : key ≠ other) : Map.get? (setInnerModel m model key) other = Map.get? m other := by
  rw [setInnerModel]
  split
  · rw [Map.get?_insert, if_neg h]
  · rfl

theorem get?_setInnerModel_of_obj {m inner : Map} (model : String) {key : String}
    (h : Map.get? m key = some (.obj inner)) :
    Map.get? (setInnerModel m model key) key = some (.obj (setModelField inner model)) := by
  rw [setInnerModel, h]
  exact (Map.get?_insert _ _ _ _).trans (if_pos rfl)

theorem setInnerModel_of_not_obj {m : Map} (model : String) {key : String}
    (h : ∀ inner, Map.get? m key ≠ some (.obj inner)) : setInnerModel m model key = m := by
  rw [setInnerModel]
  split
  · rename_i inner hget
    exact absurd hget (h inner)
  · rfl

/-- The models in the members, one after another. -/
theorem setsModels_foldl (m : Map) (model : String) :
    SetsModels model m (["message", "response"].foldl (fun m key ↦ setInnerModel m model key)
      (setModelField m model)) := by
  have hfield := setsField_setModelField m model
  rw [List.foldl_cons, List.foldl_cons, List.foldl_nil]
  generalize hm : setModelField m model = m' at hfield
  have hkeys : ∀ key ∈ ["message", "response"], key = "message" ∨ key = "response" := by simp
  constructor
  case top =>
    rw [get?_setInnerModel_of_ne _ _ (by decide), get?_setInnerModel_of_ne _ _ (by decide)]
    exact hfield.field
  case inner =>
    intro key hkey v hv
    refine ⟨_, ?_, setsField_setModelField v model⟩
    rcases hkeys key hkey with rfl | rfl
    · rw [get?_setInnerModel_of_ne _ _ (by decide)]
      exact get?_setInnerModel_of_obj model ((hfield.others _ (by decide)).trans hv)
    · refine get?_setInnerModel_of_obj model ?_
      rw [get?_setInnerModel_of_ne _ _ (by decide)]
      exact (hfield.others _ (by decide)).trans hv
  case others =>
    intro key hkey hobj
    have hget := hfield.others key hkey
    have hkeep (m : Map) (inner : String) (hinner : inner ∈ ["message", "response"])
        (h : Map.get? m key = Map.get? m' key) :
        Map.get? (setInnerModel m model inner) key = Map.get? m' key := by
      by_cases heq : inner = key
      · rw [setInnerModel_of_not_obj model, h]
        rw [heq, h, hget]
        exact fun v ↦ hobj (heq ▸ hinner) v
      · rw [get?_setInnerModel_of_ne _ _ heq, h]
    rw [hkeep _ "response" (by simp) (hkeep _ "message" (by simp) rfl), hget]

theorem withModels_setModels (model : String) (v : Value) :
    WithModels model v (setModels model v) := by
  cases v with
  | obj m => exact ⟨_, rfl, setsModels_foldl m model⟩
  | _ => rfl

/-- The type is not touched. -/
theorem get?_setModels_type (model : String) (v : Value) :
    (setModels model v).get? "type" = v.get? "type" := by
  cases v with
  | obj m => exact (setsModels_foldl m model).others "type" (by decide) (by simp)
  | _ => rfl

/-! ### Depth -/

theorem depthMembers_insert_le (m : Map) (key : String) (v : Value) :
    Value.depthMembers (Map.insert m key v) ≤ max v.depth (Value.depthMembers m) := by
  induction m with
  | nil => rfl
  | cons member rest ih =>
    obtain ⟨name, w⟩ := member
    rw [Map.insert]
    split
    · simp only [Value.depthMembers]
      omega
    · split
      · simp only [Value.depthMembers]
        omega
      · simp only [Value.depthMembers]
        omega

theorem depth_le_of_get? {m : Map} {key : String} {v : Value} (h : Map.get? m key = some v) :
    v.depth ≤ Value.depthMembers m := by
  induction m with
  | nil => exact absurd h (by simp)
  | cons member rest ih =>
    obtain ⟨name, w⟩ := member
    rw [Map.get?_cons] at h
    rw [Value.depthMembers]
    split at h
    · rw [← Option.some.inj h]
      exact le_max_left _ _
    · exact (ih h).trans (le_max_right _ _)

theorem depthMembers_setModelField_le (m : Map) (model : String) :
    Value.depthMembers (setModelField m model) ≤ Value.depthMembers m := by
  rw [setModelField]
  split
  · refine (depthMembers_insert_le _ _ _).trans (max_le ?_ le_rfl)
    exact Nat.zero_le _
  · exact le_rfl

theorem depthMembers_setInnerModel_le (m : Map) (model key : String) :
    Value.depthMembers (setInnerModel m model key) ≤ Value.depthMembers m := by
  rw [setInnerModel]
  split
  · rename_i inner hget
    refine (depthMembers_insert_le _ _ _).trans (max_le ?_ le_rfl)
    have hinner := depth_le_of_get? hget
    rw [Value.depth] at hinner ⊢
    exact (Nat.succ_le_succ (depthMembers_setModelField_le inner model)).trans hinner
  · exact le_rfl

/-- Setting the models nests nothing deeper. -/
theorem depth_setModels_le (model : String) (v : Value) : (setModels model v).depth ≤ v.depth := by
  cases v with
  | obj m =>
    refine Nat.succ_le_succ ((depthMembers_setInnerModel_le _ _ _).trans ?_)
    exact (depthMembers_setInnerModel_le _ _ _).trans (depthMembers_setModelField_le m model)
  | _ => exact le_rfl

/-! ### Events that are written and read -/

/-- Parts that are never empty are single ones when they are as many as there are owners. -/
theorem flatMap_eq_map_iff {α β : Type} {f : α → List β} {g : α → β}
    (h : ∀ a, f a ≠ []) (as : List α) : as.flatMap f = as.map g ↔ ∀ a ∈ as, f a = [g a] := by
  have hlength (as : List α) : as.length ≤ (as.flatMap f).length := by
    induction as with
    | nil => exact le_rfl
    | cons a rest ih =>
      have hpos := List.length_pos_iff.2 (h a)
      rw [List.flatMap_cons, List.length_append, List.length_cons]
      omega
  induction as with
  | nil => simp
  | cons a rest ih =>
    obtain ⟨b, more, hb⟩ := List.exists_cons_of_ne_nil (h a)
    rw [List.flatMap_cons, List.map_cons, List.forall_mem_cons, hb, List.cons_append,
      List.cons.injEq, List.cons.injEq]
    constructor
    · intro ⟨hfirst, hrest⟩
      have hcount := congrArg List.length hrest
      have hle := hlength rest
      rw [List.length_append, List.length_map] at hcount
      have hmore : more = [] := List.length_eq_zero_iff.1 (by omega)
      rw [hmore, List.nil_append] at hrest
      exact ⟨⟨hfirst, hmore⟩, ih.1 hrest⟩
    · intro ⟨⟨hfirst, hmore⟩, hrest⟩
      rw [hmore, List.nil_append]
      exact ⟨hfirst, ih.2 hrest⟩

section Events

variable [SerdeJson]

/-- The type of no document breaks its line and goes on with lines of data. -/
def CleanType (payload : String) : Prop := ∀ name ∈ typeName payload, Sse.CleanName name

/-- The data that is written for a payload. -/
def rewrittenText (model payload : String) : String :=
  if IsDone payload then payload
  else
    match SerdeJson.ofText payload with
    | .ok v => SerdeJson.toText (setModels model v)
    | .error _ => payload

theorem encodeTypedEvent_eq (payload : String) :
    Sse.encodeTypedEvent payload = Sse.encodeTypedEventWithType payload (typeName payload) := rfl

theorem rewriteSsePayload_eq (payload model : String) :
    rewriteSsePayload payload model =
      Sse.encodeTypedEventWithType (rewrittenText model payload) (typeName payload) := by
  rw [rewriteSsePayload, encodeTypedEvent_eq, rewrittenText]
  by_cases hdone : IsDone payload
  · rw [if_pos hdone, if_pos hdone]
  · rw [if_neg hdone, if_neg hdone]
    cases htext : SerdeJson.ofText payload with
    | error e => rfl
    | ok v =>
      have htype : typeName payload = (v.get? "type").bind Value.asStr := by
        rw [typeName, htext]
        show v["type"].asStr = _
        rw [Value.getElem_eq]
        cases v.get? "type" <;> rfl
      rw [htype, ← get?_setModels_type model v]

variable [LawfulSerdeJson]

theorem framed_toText (v : Value) : Sse.Framed (SerdeJson.toText v).toList := by
  have hline := LawfulSerdeJson.toText_oneLine v
  have hfeed : '\n' ∉ (SerdeJson.toText v).toList := fun h ↦ hline _ h (by decide)
  intro line hmem
  rw [List.splitOn_eq_singleton hfeed, List.mem_singleton] at hmem
  rw [hmem]
  exact fun hlast ↦ hline _ (List.mem_of_getLast? hlast) (by decide)

theorem framed_rewrittenText (model : String) {payload : String}
    (h : Sse.Framed payload.toList) : Sse.Framed (rewrittenText model payload).toList := by
  rw [rewrittenText]
  split
  · exact h
  · split
    · exact framed_toText _
    · exact h

theorem rewritten_rewrittenText (model payload : String) :
    Rewritten model payload (rewrittenText model payload) := by
  rw [Rewritten, rewrittenText]
  split
  · rfl
  · split
    · rename_i v _
      exact ⟨_, withModels_setModels model v, rfl, fun hdepth ↦
        LawfulSerdeJson.ofText_toText _ ((depth_setModels_le model v).trans hdepth)⟩
    · rfl

omit [LawfulSerdeJson] in
/-- The events of payloads are read one by one. -/
theorem collect_written (data : String → String) {payloads : List String}
    (h : ∀ p ∈ payloads, Sse.Framed (data p).toList) {chunks : List (List UInt8)}
    (hchunks : chunks.flatten = Text.encodeUtf8
      (payloads.flatMap fun p ↦ Sse.encodeTypedEventWithType (data p) (typeName p))) :
    Sse.SseParser.collect {} chunks =
      (payloads.flatMap fun p ↦ Sse.eventData (data p) (typeName p), {}) := by
  have hevents (f : String × Option String → List Char) :
      (payloads.map fun p ↦ (data p, typeName p)).flatMap f =
        payloads.flatMap fun p ↦ f (data p, typeName p) := by
    rw [List.flatMap_map]
  rw [← hevents fun e ↦ Sse.encodeTypedEventWithType e.1 e.2] at hchunks
  rw [Sse.collect_events (fun e he ↦ ?_) hchunks, List.flatMap_map]
  obtain ⟨p, hp, rfl⟩ := List.mem_map.1 he
  exact h p hp

omit [LawfulSerdeJson] in
/-- They are read as the payloads when no type has lines of data of its own. -/
theorem eventData_eq_iff (data : String → String) (payloads : List String) :
    (payloads.flatMap fun p ↦ Sse.eventData (data p) (typeName p)) =
      payloads.map (fun p ↦ (data p).toList) ↔ ∀ p ∈ payloads, CleanType p := by
  rw [flatMap_eq_map_iff fun p ↦ Sse.eventData_ne_nil _ _]
  exact forall₂_congr fun p _ ↦ Sse.eventData_eq_singleton_iff _ _

theorem roundTrips_of_cleanType (model : String) {payloads : List String}
    (h : ∀ p ∈ payloads, Sse.Framed p.toList) (hclean : ∀ p ∈ payloads, CleanType p) :
    RoundTrips model payloads := by
  constructor
  case encoded =>
    intro chunks hchunks
    refine (collect_written id h hchunks).trans ?_
    rw [(eventData_eq_iff id payloads).2 hclean]
    rfl
  case rewritten =>
    intro chunks hchunks
    refine ⟨payloads.map (rewrittenText model), ?_, ?_⟩
    · have hwritten : payloads.flatMap (rewriteSsePayload · model) = payloads.flatMap fun p ↦
          Sse.encodeTypedEventWithType (rewrittenText model p) (typeName p) :=
        List.flatMap_congr fun p _ ↦ rewriteSsePayload_eq p model
      rw [hwritten] at hchunks
      rw [collect_written _ (fun p hp ↦ framed_rewrittenText model (h p hp)) hchunks,
        (eventData_eq_iff _ payloads).2 hclean, List.map_map]
      rfl
    · rw [List.forall₂_map_right_iff]
      exact List.forall₂_same.2 fun p _ ↦ rewritten_rewrittenText model p

/-- Payloads are read back as they were written, and with the models set where they were rewritten,
if and only if no type goes on with lines of data. -/
theorem roundTrips_iff (model : String) (payloads : List String)
    (h : ∀ p ∈ payloads, Sse.Framed p.toList) :
    RoundTrips model payloads ↔ ∀ p ∈ payloads, CleanType p := by
  refine ⟨fun hround ↦ ?_, roundTrips_of_cleanType model h⟩
  have hcollect := hround.encoded [Text.encodeUtf8 _] List.flatten_singleton
  have hread := collect_written id h (List.flatten_singleton (l := Text.encodeUtf8 _))
  exact (eventData_eq_iff id payloads).1 (Prod.mk.inj (hread.symm.trans hcollect)).1

/-- What a client is sent of an upstream's stream. -/
def ssePassthroughStream (model : String) (chunks : List (List UInt8)) : List Char :=
  (Sse.SseParser.collect {} chunks).1.flatMap fun data ↦
    rewriteSsePayload (String.ofList data) model

/-- A client reads the events of the upstream, with the models set. -/
theorem rewritten_ssePassthroughStream (model : String) {upstream chunks : List (List UInt8)}
    (hended : Sse.lineText (Sse.unended upstream.flatten) ≠ "data".toList)
    (hclean : ∀ data ∈ Sse.payloads upstream.flatten, CleanType (String.ofList data))
    (hchunks : chunks.flatten = Text.encodeUtf8 (ssePassthroughStream model upstream)) :
    ∃ results : List String, Sse.SseParser.collect {} chunks = (results.map String.toList, {}) ∧
      List.Forall₂ (Rewritten model) ((Sse.payloads upstream.flatten).map String.ofList)
        results := by
  have hparsed := Sse.collect_of_ended hended upstream rfl
  rw [ssePassthroughStream, hparsed] at hchunks
  refine (roundTrips_of_cleanType model ?_ ?_).rewritten chunks ?_
  · intro p hp
    obtain ⟨data, hdata, rfl⟩ := List.mem_map.1 hp
    rw [String.toList_ofList]
    exact Sse.framed_of_mem_payloads hdata
  · exact List.forall_mem_map.2 hclean
  · rw [hchunks, List.flatMap_map]

end Events

/-! ### A few payloads -/

local instance framesCodec : SerdeJson := Compact.codec

local instance framesCodec_lawful : LawfulSerdeJson := Compact.codec_lawful

/-- The start of a message, a text of two lines and the marker of the end. -/
def messagePayloads : List String :=
  ["\x7b\"type\":\"message_start\",\"message\":\x7b\"model\":\"m\"\x7d\x7d", "a\n\nb", "[DONE]"]

theorem roundTrips_messagePayloads : RoundTrips "g" messagePayloads := by
  refine (roundTrips_iff "g" messagePayloads ?_).2 ?_
  · unfold Sse.Framed
    decide +kernel
  · unfold CleanType Sse.CleanName
    decide +kernel

def messageChunks : List (List UInt8) :=
  messagePayloads.map fun p ↦ Text.encodeUtf8 (Sse.encodeTypedEvent p)

theorem rewritten_messageChunks : ∃ results : List String,
    Sse.SseParser.collect {} [Text.encodeUtf8 (ssePassthroughStream "g" messageChunks)] =
      (results.map String.toList, {}) ∧ List.Forall₂ (Rewritten "g") messagePayloads results := by
  have hread : (Sse.payloads messageChunks.flatten).map String.ofList = messagePayloads := by
    decide +kernel
  have hclean : ∀ data ∈ Sse.payloads messageChunks.flatten, CleanType (String.ofList data) := by
    unfold CleanType Sse.CleanName
    decide +kernel
  rw [← hread]
  exact rewritten_ssePassthroughStream "g" (by decide +kernel) hclean List.flatten_singleton

/-- A payload with a type that goes on with a line of data. -/
def brokenPayload : String := "\x7b\"type\":\"a\\ndata: b\"\x7d"

theorem not_roundTrips_brokenPayload :
    Sse.Framed brokenPayload.toList ∧ ¬ RoundTrips "g" [brokenPayload] := by
  refine ⟨by unfold Sse.Framed; decide +kernel, fun h ↦ ?_⟩
  have hread := h.encoded [Text.encodeUtf8 (Sse.encodeTypedEvent brokenPayload)] (by simp)
  exact absurd hread (by decide +kernel)

end NextApi.Upstream
