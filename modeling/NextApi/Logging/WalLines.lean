import NextApi.Json.Reread
import NextApi.Logging.WalRuns

/-!
# Events and their lines

The checksum of a line is taken over the text of the event, and the reader takes it over the text
of what it has read: an event comes back only if its documents are printed, read and printed again
as they were. `Reprints` says when they are: none is `null`, which is read as an absent option,
none is nested more than 125 levels deep, for the line is an object around the event and has 127,
and every double is read as itself. These are the events whose lines decode (`lineKept_iff`).
-/

set_option autoImplicit false

namespace NextApi.Logging

open Json Text

/-- The members of an event that are any documents. -/
def LogEvent.documents (ev : LogEvent) : List (String × Option Value) :=
  [("usage_raw", ev.usageRaw), ("debug_payload", ev.debugPayload), ("price_used", ev.priceUsed),
    ("fx_snapshot", ev.fxSnapshot), ("request_headers", ev.requestHeaders)]

/-- A signed integer has this width. -/
def FitsInt (bits : ℕ) (i : ℤ) : Prop := -2 ^ (bits - 1) ≤ i ∧ i < 2 ^ (bits - 1)

/-- What the fields of an event can hold, and their texts can be read: integers have 32 or 64 bits,
the members of objects are in order, and a time, an id and a decimal are what is written for
them. -/
structure LogEvent.Held [FieldText] (ev : LogEvent) : Prop where
  time : FieldText.parseTime (FieldText.formatTime ev.ts) = some ev.ts
  ids : ∀ field ∈ [ev.keyId, ev.upstreamId], ∀ id, field = some id →
    FieldText.parseUuid (FieldText.formatUuid id) = some id
  decimals : ∀ field ∈ [ev.videoSeconds, ev.costCny, ev.costUsd], ∀ d, field = some d →
    FieldText.parseDecimal (FieldText.formatDecimal d) = some d
  status : FitsInt 32 ev.status
  retryCount : FitsInt 32 ev.retryCount
  times : ∀ field ∈ [ev.latencyMs, ev.ttfbMs], ∀ i, field = some i → FitsInt 32 i
  counts : ∀ field ∈ [ev.promptTokens, ev.completionTokens, ev.cacheWriteTokens,
    ev.cacheReadTokens, ev.images], ∀ i, field = some i → FitsInt 64 i
  normal : ∀ field ∈ ev.documents, ∀ v, field.2 = some v → v.Normal

/-- An object of a number and a document is printed without white space. -/
class LineText [SerdeJson] : Prop where
  toText_line (n : ℕ) {v : Value} (hv : v.Normal) :
    SerdeJson.toText (.obj [("crc", .ofNat n), ("event", v)]) =
      "\x7b\"crc\":" ++ toString n ++ ",\"event\":" ++ SerdeJson.toText v ++ "\x7d"

/-! ### The members of an event -/

/-- No array, no object and no double. -/
def Scalar : Value → Prop
  | .float _ | .arr _ | .obj _ => False
  | _ => True

theorem Scalar.normal {v : Value} (h : Scalar v) : v.Normal := by
  cases v <;> trivial

theorem Scalar.depth_eq {v : Value} (h : Scalar v) : v.depth = 0 := by
  cases v <;> first | rfl | exact absurd h id

theorem Scalar.mapFloats_eq {v : Value} (h : Scalar v) (f : Dyadic → Dyadic) :
    v.mapFloats f = v := by
  cases v <;> first | rfl | exact absurd h id

theorem scalar_optionToValue {α : Type} (toValue : α → Value) (h : ∀ a, Scalar (toValue a))
    (o : Option α) : Scalar (optionToValue toValue o) := by
  cases o with
  | none => trivial
  | some a => exact h a

theorem get?_of_members {members : Map} {key : String} {w : Value}
    (h : Map.get? members key = some w) : (Value.object members).get? key = some w :=
  (Value.get?_object members key).trans h

section Members

variable [FieldText]

/-- A member of an event is a scalar or one of its documents. -/
theorem toValue_eq_obj (ev : LogEvent) :
    ∃ members, ev.toValue = .obj members ∧ Map.Sorted members ∧ ∀ member ∈ members,
      Scalar member.2 ∨ ∃ field ∈ ev.documents, field.2 = some member.2 := by
  have text (o : Option String) : Scalar (optionToValue .str o) :=
    scalar_optionToValue .str (fun _ ↦ trivial) o
  have int (o : Option ℤ) : Scalar (optionToValue .int o) :=
    scalar_optionToValue .int (fun _ ↦ trivial) o
  have uuid (o : Option Uuid) : Scalar (optionToValue uuidToValue o) :=
    scalar_optionToValue uuidToValue (fun _ ↦ trivial) o
  have decimal (o : Option ℚ) : Scalar (optionToValue decimalToValue o) :=
    scalar_optionToValue decimalToValue (fun _ ↦ trivial) o
  have document (i : ℕ) {name : String} {o : Option Value}
      (hfield : ev.documents[i]? = some (name, o)) : Scalar (optionToValue id o) ∨
        ∃ field ∈ ev.documents, field.2 = some (optionToValue id o) := by
    cases o with
    | none => exact .inl trivial
    | some v => exact .inr ⟨_, List.mem_of_getElem? hfield, rfl⟩
  refine ⟨_, rfl, Map.sorted_ofList _, fun member hmember ↦ ?_⟩
  obtain ⟨other, hother, heq⟩ := Map.mem_of_mem_ofList hmember
  rw [heq]
  clear heq
  revert other
  simp only [List.forall_mem_cons]
  exact ⟨.inl trivial, .inl trivial, .inl (uuid _), .inl trivial, .inl (text _), .inl (text _),
    .inl (uuid _), .inl trivial, .inl trivial, .inl trivial, .inl trivial, .inl trivial,
    .inl (text _), .inl (int _), .inl (int _), .inl (int _), .inl (int _), .inl (int _),
    .inl (text _), .inl (decimal _), .inl (text _), .inl (text _), .inl (int _), .inl trivial,
    .inl (int _), .inl trivial, document 0 rfl, document 1 rfl, .inl (decimal _),
    .inl (decimal _), .inl (text _), document 2 rfl, document 3 rfl, document 4 rfl,
    fun _ h ↦ absurd h List.not_mem_nil⟩

theorem get?_toValue (ev : LogEvent) :
    ∀ field ∈ ev.documents, ev.toValue.get? field.1 = some (optionToValue id field.2) := by
  rw [LogEvent.documents]
  simp only [List.forall_mem_cons]
  exact ⟨get?_of_members rfl, get?_of_members rfl, get?_of_members rfl, get?_of_members rfl,
    get?_of_members rfl,
    fun _ h ↦ absurd h List.not_mem_nil⟩

omit [FieldText] in
theorem of_bind {α β : Type} {o : Option α} {f : α → Option β} {b : β} (h : o >>= f = some b) :
    ∃ a, o = some a ∧ f a = some b := Option.bind_eq_some_iff.1 h

/-- The documents of an event that was read are its members. -/
theorem document_of_ofValue {v : Value} {ev : LogEvent} (h : LogEvent.ofValue v = some ev) :
    ∀ field ∈ ev.documents, optional some v field.1 = some field.2 := by
  rw [LogEvent.ofValue] at h
  iterate 27 obtain ⟨_, -, h⟩ := of_bind h
  obtain ⟨_, husage, h⟩ := of_bind h
  obtain ⟨_, hdebug, h⟩ := of_bind h
  iterate 3 obtain ⟨_, -, h⟩ := of_bind h
  obtain ⟨_, hprice, h⟩ := of_bind h
  obtain ⟨_, hsnapshot, h⟩ := of_bind h
  obtain ⟨_, hheaders, h⟩ := of_bind h
  rw [← Option.some.inj h, LogEvent.documents]
  simp only [List.forall_mem_cons]
  exact ⟨husage, hdebug, hprice, hsnapshot, hheaders, fun _ h ↦ absurd h List.not_mem_nil⟩

omit [FieldText] in
theorem bind_of_eq {α β : Type} {o : Option α} {a : α} {f : α → Option β} {r : Option β}
    (h : o = some a) (hrest : f a = r) : o >>= f = r := by
  rw [h]
  exact hrest

omit [FieldText] in
theorem bind_required {α β : Type} {read : Value → Option α} {v w : Value} {field : String} {a : α}
    {f : α → Option β} {r : Option β} (hget : v.get? field = some w) (hread : read w = some a)
    (hrest : f a = r) : required read v field >>= f = r := by
  refine bind_of_eq ?_ hrest
  rw [required, hget, Option.bind_some, hread]

omit [FieldText] in
theorem bind_optional {α β : Type} {read : Value → Option α} {toValue : α → Value} {v : Value}
    {field : String} {o : Option α} {f : Option α → Option β} {r : Option β}
    (hget : v.get? field = some (optionToValue toValue o))
    (hread : ∀ a, o = some a → toValue a ≠ .null ∧ read (toValue a) = some a)
    (hrest : f o = r) : optional read v field >>= f = r := by
  refine bind_of_eq ?_ hrest
  cases o with
  | none => rw [optional, hget, optionToValue]
  | some a =>
    obtain ⟨hne, hread⟩ := hread a rfl
    rw [optional, hget, optionToValue]
    split
    · next heq => exact absurd heq (nomatch ·)
    · next heq => exact absurd (Option.some.inj heq) hne
    · next heq => rw [← Option.some.inj heq, hread, Option.map_some]

omit [FieldText] in
theorem readInt_int {bits : ℕ} {i : ℤ} (h : FitsInt bits i) : readInt bits (.int i) = some i :=
  if_pos h

/-- An event is read from its JSON form, unless a document of it is `null`. -/
theorem ofValue_toValue {ev : LogEvent} (h : ev.Held)
    (hnull : ∀ field ∈ ev.documents, field.2 ≠ some .null) :
    LogEvent.ofValue ev.toValue = some ev := by
  have text (o : Option String) (s : String) (_ : o = some s) :
      Value.str s ≠ .null ∧ Value.asStr (.str s) = some s := ⟨nofun, rfl⟩
  have uuid (i : ℕ) {o : Option Uuid} (ho : [ev.keyId, ev.upstreamId][i]? = some o) (id : Uuid)
      (hid : o = some id) : uuidToValue id ≠ .null ∧ readUuid (uuidToValue id) = some id :=
    ⟨nofun, h.ids o (List.mem_of_getElem? ho) id hid⟩
  have decimal (i : ℕ) {o : Option ℚ}
      (ho : [ev.videoSeconds, ev.costCny, ev.costUsd][i]? = some o) (d : ℚ) (hd : o = some d) :
      decimalToValue d ≠ .null ∧ readDecimal (decimalToValue d) = some d :=
    ⟨nofun, h.decimals o (List.mem_of_getElem? ho) d hd⟩
  have time (i : ℕ) {o : Option ℤ} (ho : [ev.latencyMs, ev.ttfbMs][i]? = some o) (n : ℤ)
      (hn : o = some n) : Value.int n ≠ .null ∧ readInt 32 (.int n) = some n :=
    ⟨nofun, readInt_int (h.times o (List.mem_of_getElem? ho) n hn)⟩
  have count (i : ℕ) {o : Option ℤ} (ho : [ev.promptTokens, ev.completionTokens,
      ev.cacheWriteTokens, ev.cacheReadTokens, ev.images][i]? = some o) (n : ℤ)
      (hn : o = some n) : Value.int n ≠ .null ∧ readInt 64 (.int n) = some n :=
    ⟨nofun, readInt_int (h.counts o (List.mem_of_getElem? ho) n hn)⟩
  have document (i : ℕ) {name : String} {o : Option Value}
      (ho : ev.documents[i]? = some (name, o)) (v : Value) (hv : o = some v) :
      id v ≠ .null ∧ some (id v) = some v :=
    ⟨fun heq ↦ hnull _ (List.mem_of_getElem? ho) (hv.trans (congrArg some heq)), rfl⟩
  rw [LogEvent.ofValue]
  refine bind_of_eq (rfl : guard (ev.toValue.isObject = true) = some ()) ?_
  refine bind_required (get?_of_members rfl) rfl ?_
  refine bind_required (get?_of_members rfl) h.time ?_
  refine bind_optional (get?_of_members rfl) (uuid 0 rfl) ?_
  refine bind_required (get?_of_members rfl) rfl ?_
  refine bind_optional (get?_of_members rfl) (text _) ?_
  refine bind_optional (get?_of_members rfl) (text _) ?_
  refine bind_optional (get?_of_members rfl) (uuid 1 rfl) ?_
  refine bind_required (get?_of_members rfl) rfl ?_
  refine bind_required (get?_of_members rfl) rfl ?_
  refine bind_required (get?_of_members rfl) rfl ?_
  refine bind_required (get?_of_members rfl) rfl ?_
  refine bind_required (get?_of_members rfl) (readInt_int h.status) ?_
  refine bind_optional (get?_of_members rfl) (text _) ?_
  refine bind_optional (get?_of_members rfl) (count 0 rfl) ?_
  refine bind_optional (get?_of_members rfl) (count 1 rfl) ?_
  refine bind_optional (get?_of_members rfl) (count 2 rfl) ?_
  refine bind_optional (get?_of_members rfl) (count 3 rfl) ?_
  refine bind_optional (get?_of_members rfl) (count 4 rfl) ?_
  refine bind_optional (get?_of_members rfl) (text _) ?_
  refine bind_optional (get?_of_members rfl) (decimal 0 rfl) ?_
  refine bind_optional (get?_of_members rfl) (text _) ?_
  refine bind_optional (get?_of_members rfl) (text _) ?_
  refine bind_optional (get?_of_members rfl) (time 0 rfl) ?_
  refine bind_required (get?_of_members rfl) (readInt_int h.retryCount) ?_
  refine bind_optional (get?_of_members rfl) (time 1 rfl) ?_
  refine bind_required (get?_of_members rfl) rfl ?_
  refine bind_optional (get?_of_members rfl) (document 0 rfl) ?_
  refine bind_optional (get?_of_members rfl) (document 1 rfl) ?_
  refine bind_optional (get?_of_members rfl) (decimal 1 rfl) ?_
  refine bind_optional (get?_of_members rfl) (decimal 2 rfl) ?_
  refine bind_optional (get?_of_members rfl) (text _) ?_
  refine bind_optional (get?_of_members rfl) (document 2 rfl) ?_
  refine bind_optional (get?_of_members rfl) (document 3 rfl) ?_
  refine bind_optional (get?_of_members rfl) (document 4 rfl) ?_
  rfl

theorem normal_toValue {ev : LogEvent} (h : ev.Held) : ev.toValue.Normal := by
  obtain ⟨members, hobj, hsorted, hmembers⟩ := toValue_eq_obj ev
  rw [hobj]
  refine ⟨hsorted, Value.normalMembers_iff.2 fun member hmember ↦ ?_⟩
  rcases hmembers member hmember with hscalar | ⟨field, hfield, hv⟩
  · exact hscalar.normal
  · exact h.normal field hfield _ hv

theorem depth_toValue_le {ev : LogEvent} {n : ℕ}
    (h : ∀ field ∈ ev.documents, ∀ v, field.2 = some v → v.depth ≤ n) :
    ev.toValue.depth ≤ n + 1 := by
  obtain ⟨members, hobj, -, hmembers⟩ := toValue_eq_obj ev
  rw [hobj]
  refine Nat.succ_le_succ (Value.depthMembers_le_iff.2 fun member hmember ↦ ?_)
  rcases hmembers member hmember with hscalar | ⟨field, hfield, hv⟩
  · rw [hscalar.depth_eq]
    exact Nat.zero_le n
  · exact h field hfield _ hv

theorem mapFloats_toValue {ev : LogEvent} {f : Dyadic → Dyadic}
    (h : ∀ field ∈ ev.documents, ∀ v, field.2 = some v → ∀ x, (Value.float x).Part v → f x = x) :
    ev.toValue.mapFloats f = ev.toValue := by
  obtain ⟨members, hobj, -, hmembers⟩ := toValue_eq_obj ev
  rw [hobj]
  refine (Value.mapFloats_eq_self_iff f _).2 fun x hx ↦ ?_
  rcases hx with _ | _ | ⟨hmember, hx⟩
  rcases hmembers _ hmember with hscalar | ⟨field, hfield, hv⟩
  · exact (Value.mapFloats_eq_self_iff f _).1 (hscalar.mapFloats_eq f) x hx
  · exact h field hfield _ hv x hx

end Members

/-! ### Reading a line -/

section Reading

variable [SerdeJson] [RereadingSerdeJson] [LineText] [FieldText] [Crc32]

open RereadingSerdeJson (reread)

/-- A document of an event is printed as it was when its line has been read. -/
structure Reprints (v : Value) : Prop where
  ne_null : v ≠ .null
  shallow : v.depth ≤ 125
  floats : ∀ x, (Value.float x).Part v → reread x = x

/-- The line of an event is one line, it is read as the event, and so no file that the event was
written to is read without it. -/
structure LineKept (ev : LogEvent) : Prop where
  decodes : decodeLine (encodeLine ev) = some ev
  oneLine : ∀ c ∈ (encodeLine ev).toList, c ≠ '\n' ∧ c ≠ '\r'
  replayed : ∀ events, ev ∈ events → ev ∈ decodeText (batchText events)

omit [SerdeJson] [RereadingSerdeJson] [LineText] [FieldText] [Crc32] in
theorem normal_line {v : Value} (h : v.Normal) (crc : ℕ) :
    (Value.obj [("crc", .ofNat crc), ("event", v)]).Normal ∧
      (Value.obj [("crc", .ofNat crc), ("event", v)]).depth = v.depth + 1 := by
  have hkeys : Map.Sorted [("crc", .ofNat crc), ("event", v)] :=
    Map.sorted_cons.2 ⟨fun key hkey ↦ by
      rw [List.mem_singleton.1 hkey]
      show ("crc" : String) < "event"
      decide, Map.sorted_cons.2 ⟨fun _ hkey ↦ absurd hkey List.not_mem_nil, Map.sorted_nil⟩⟩
  refine ⟨⟨hkeys, trivial, h, trivial⟩, ?_⟩
  show max 0 (max v.depth 0) + 1 = _
  rw [Nat.max_zero, Nat.zero_max]

/-- A line is read as the event with its doubles read again, if the checksum is still right. -/
theorem decodeLine_encodeLine {ev : LogEvent} (hnormal : ev.toValue.Normal)
    (hdepth : ev.toValue.depth ≤ 126) :
    decodeLine (encodeLine ev) =
      if textCrc (SerdeJson.toText (ev.toValue.mapFloats reread)) ≠
        textCrc (SerdeJson.toText ev.toValue) then none
      else LogEvent.ofValue (ev.toValue.mapFloats reread) := by
  obtain ⟨hline, hlineDepth⟩ := normal_line hnormal
    (textCrc (SerdeJson.toText ev.toValue)).toNat
  have hread := RereadingSerdeJson.ofText_toText hline (by omega)
  rw [LineText.toText_line _ hnormal] at hread
  unfold decodeLine
  rw [show SerdeJson.ofText (encodeLine ev) = _ from hread]
  have hcrc : UInt32.ofNat (textCrc (SerdeJson.toText ev.toValue)).toNat =
      textCrc (SerdeJson.toText ev.toValue) := UInt32.ofNat_toNat
  show (if textCrc (SerdeJson.toText (ev.toValue.mapFloats reread)) ≠
    UInt32.ofNat (textCrc (SerdeJson.toText ev.toValue)).toNat then none else _) = _
  rw [hcrc]

theorem decodeLine_deep {ev : LogEvent} (hnormal : ev.toValue.Normal)
    (hdepth : 126 < ev.toValue.depth) : decodeLine (encodeLine ev) = none := by
  obtain ⟨hline, hlineDepth⟩ := normal_line hnormal
    (textCrc (SerdeJson.toText ev.toValue)).toNat
  obtain ⟨e, hread⟩ := RereadingSerdeJson.ofText_deep hline (by omega)
  rw [LineText.toText_line _ hnormal] at hread
  unfold decodeLine
  rw [show SerdeJson.ofText (encodeLine ev) = _ from hread]

omit [SerdeJson] [RereadingSerdeJson] [LineText] [FieldText] [Crc32] in
/-- A document that was read as itself is not `null`. -/
theorem of_optional_some {v w u : Value} {field : String} (hget : v.get? field = some w)
    (h : optional some v field = some (some u)) : w = u ∧ u ≠ .null := by
  rw [optional, hget] at h
  split at h
  · next heq => exact absurd heq (nomatch ·)
  · exact absurd h (nomatch ·)
  · next hne heq =>
    obtain rfl := Option.some.inj heq
    obtain rfl : _ = u := Option.some.inj (Option.some.inj h)
    exact ⟨rfl, fun hnull ↦ hne hnull⟩

/-- The documents of an event whose line decodes. -/
theorem reprints_of_decodes {ev : LogEvent} (h : ev.Held)
    (hdecodes : decodeLine (encodeLine ev) = some ev) :
    ∀ field ∈ ev.documents, ∀ v, field.2 = some v → Reprints v := by
  have hnormal := normal_toValue h
  have hdepth : ev.toValue.depth ≤ 126 := by
    by_contra hdeep
    rw [decodeLine_deep hnormal (Nat.lt_of_not_le hdeep)] at hdecodes
    exact nomatch hdecodes
  rw [decodeLine_encodeLine hnormal hdepth] at hdecodes
  have hread : LogEvent.ofValue (ev.toValue.mapFloats reread) = some ev := by
    split at hdecodes
    · exact nomatch hdecodes
    · exact hdecodes
  rintro field hfield v hv
  have hget := get?_toValue ev field hfield
  rw [hv, optionToValue, id] at hget
  have hmember : (ev.toValue.mapFloats reread).get? field.1 = some (v.mapFloats reread) := by
    rw [Value.get?_mapFloats, hget, Option.map_some]
  have hback := document_of_ofValue hread field hfield
  rw [hv] at hback
  obtain ⟨hsame, hne⟩ := of_optional_some hmember hback
  have hlevel := Value.depth_lt_of_get? hget
  exact ⟨hne, by omega, (Value.mapFloats_eq_self_iff reread v).1 hsame⟩

theorem decodes_of_reprints {ev : LogEvent} (h : ev.Held)
    (hreprints : ∀ field ∈ ev.documents, ∀ v, field.2 = some v → Reprints v) :
    decodeLine (encodeLine ev) = some ev := by
  have hdepth : ev.toValue.depth ≤ 126 :=
    depth_toValue_le fun field hfield v hv ↦ (hreprints field hfield v hv).shallow
  have hfloats : ev.toValue.mapFloats reread = ev.toValue :=
    mapFloats_toValue fun field hfield v hv ↦ (hreprints field hfield v hv).floats
  rw [decodeLine_encodeLine (normal_toValue h) hdepth, hfloats, if_neg fun hne ↦ hne rfl]
  exact ofValue_toValue h fun field hfield hv ↦ (hreprints field hfield .null hv).ne_null rfl

/-- The events that are kept are those whose documents are printed again as they were. -/
theorem lineKept_iff [LawfulSerdeJson] {ev : LogEvent} (h : ev.Held) :
    LineKept ev ↔ ∀ field ∈ ev.documents, ∀ v, field.2 = some v → Reprints v := by
  constructor
  · exact fun hkept ↦ reprints_of_decodes h hkept.decodes
  · intro hreprints
    have hdecodes := decodes_of_reprints h hreprints
    refine ⟨hdecodes, fun c hc ↦ ?_, fun events hmem ↦ ?_⟩
    · have hclean := clean_encodeLine ev c hc
      constructor
      · rintro rfl
        exact hclean (by decide)
      · rintro rfl
        exact hclean (by decide)
    · induction events with
      | nil => exact absurd hmem List.not_mem_nil
      | cons first rest ih =>
        rw [batchText, List.flatMap_cons, decodeText_line, List.mem_append]
        rcases List.mem_cons.1 hmem with rfl | hmem
        · exact .inl (Option.mem_toList.2 hdecodes)
        · exact .inr (ih hmem)

end Reading

/-! ### A temperature that is lost -/

section Concrete

/-- Ten elevenths, and the next double. -/
def tenElevenths : Dyadic := .ofIntWithPrec 8188362958855447 53

def tenEleventhsUp : Dyadic := .ofIntWithPrec 8188362958855448 53

/-- The parser divides 9090909090909091 by a power of ten; that integer is no double. -/
local instance lineCodec : SerdeJson :=
  Compact.rereadingCodec fun x ↦ if x = tenElevenths then tenEleventhsUp else x

local instance lineReread : RereadingSerdeJson := Compact.rereading _

local instance lineLawful : LawfulSerdeJson := Compact.rereadingCodec_lawful _

local instance lineText : LineText := ⟨fun n _ hv ↦ compact_line n (Value.normalize_of_normal _ hv)⟩

local instance lineCrc : Crc32 := ⟨crc32⟩

local instance lineFields : FieldText := instFieldText

/-- A request with a temperature. -/
def temperatureEvent (temperature : Dyadic) : LogEvent :=
  { eventAt 3 with
    usageRaw := some (.object
      [("params", .object [("temperature", .float temperature)]), ("usage", .null)]) }

theorem eq_of_document {temperature : Dyadic} {field : String × Option Value}
    (h : field ∈ (temperatureEvent temperature).documents) {v : Value} (hv : field.2 = some v) :
    v = .obj [("params", .obj [("temperature", .float temperature)]), ("usage", .null)] := by
  rw [LogEvent.documents] at h
  rcases List.mem_cons.1 h with rfl | h
  · exact (Option.some.inj hv).symm
  · simp only [List.mem_cons, List.not_mem_nil, or_false] at h
    rcases h with rfl | rfl | rfl | rfl <;> exact nomatch hv

theorem held_temperatureEvent (temperature : Dyadic) : (temperatureEvent temperature).Held where
  time := by
    show FieldText.parseTime (FieldText.formatTime 3000000000) = some 3000000000
    decide +kernel
  ids := by
    rintro field hfield id rfl
    exact absurd hfield (by simp [temperatureEvent, eventAt])
  decimals := by
    rintro field hfield d rfl
    exact absurd hfield (by simp [temperatureEvent, eventAt])
  status := by
    show (-2 ^ 31 : ℤ) ≤ 200 ∧ (200 : ℤ) < 2 ^ 31
    decide
  retryCount := by
    show (-2 ^ 31 : ℤ) ≤ 0 ∧ (0 : ℤ) < 2 ^ 31
    decide
  times := by
    rintro field hfield i rfl
    obtain rfl : i = 42 := by simpa [temperatureEvent, eventAt] using hfield
    show (-2 ^ 31 : ℤ) ≤ 42 ∧ (42 : ℤ) < 2 ^ 31
    decide
  counts := by
    rintro field hfield i rfl
    have hi : i = 10 ∨ i = 5 := by simpa [temperatureEvent, eventAt] using hfield
    show (-2 ^ 63 : ℤ) ≤ i ∧ i < (2 ^ 63 : ℤ)
    omega
  normal field hfield v hv := by
    obtain rfl := eq_of_document hfield hv
    have houter : ["params", "usage"].Pairwise (· < ·) := by decide
    have hinner : ["temperature"].Pairwise (· < ·) := List.pairwise_singleton _ _
    exact ⟨houter, ⟨hinner, trivial, trivial⟩, trivial, trivial⟩

theorem lineKept_half : LineKept (temperatureEvent (.ofIntWithPrec 1 1)) := by
  refine (lineKept_iff (held_temperatureEvent _)).2 fun field hfield v hv ↦ ?_
  obtain rfl := eq_of_document hfield hv
  refine ⟨nofun, by decide, (Value.mapFloats_eq_self_iff _ _).1 ?_⟩
  decide +kernel

theorem not_lineKept_tenElevenths : ¬ LineKept (temperatureEvent tenElevenths) := by
  intro hkept
  have hreprints := reprints_of_decodes (held_temperatureEvent tenElevenths) hkept.decodes
    _ List.mem_cons_self _ rfl
  have hsame := hreprints.floats tenElevenths
    (.member (List.mem_cons_self) (.member List.mem_cons_self (.whole _)))
  exact absurd hsame (by decide +kernel)

end Concrete

end NextApi.Logging
