import NextApi.Protocol.SseParser
import NextApi.Upstream.Usage

/-!
# Scanning the events that are sent

An event that is sent is the printed form of an object, on a line of its own behind `data: `, after
a line with its type. Scanning those lines finds the document, up to what printing does not keep,
and so sets what the object sets (`lastly_lines_encodeTypedEvent`). A type with a line feed in it
would start lines of its own.
-/

set_option autoImplicit false

namespace NextApi.Upstream

open Json Ir Text Stream.Register

/-! ### Counts of a document that was printed and read -/

theorem token_canonical (v : Value) : token v.canonical = token v := by
  rw [token, Value.asI64_canonical, Value.asU64_canonical, token]

theorem bind_token_canonical (v : Option Value) :
    (v.map Value.canonical).bind token = v.bind token := by
  cases v with
  | none => rfl
  | some v => exact token_canonical v

theorem bind_get?_canonical (v : Option Value) (key : String) :
    ((v.map Value.canonical).bind fun u ↦ u.get? key) =
      (v.bind fun u ↦ u.get? key).map Value.canonical := by
  cases v with
  | none => rfl
  | some v => exact Value.get?_canonical v key

theorem countAt_canonical (usage : Option Value) (key : String) :
    countAt (usage.map Value.canonical) key = countAt usage key := by
  rw [countAt, bind_get?_canonical, bind_token_canonical, countAt]

theorem countIn_canonical (usage : Option Value) (details key : String) :
    countIn (usage.map Value.canonical) details key = countIn usage details key := by
  rw [countIn, bind_get?_canonical, bind_get?_canonical, bind_token_canonical, countIn]

theorem count_extractJsonUsage_canonical (p : Protocol) (n : Count) (v : Value) :
    (extractJsonUsage p v.canonical).count n = (extractJsonUsage p v).count n := by
  cases p <;> cases n <;>
    simp only [extractJsonUsage, Usage.count, Value.get?_canonical, countAt_canonical,
      countIn_canonical]

theorem reported_canonical (p : Protocol) (v : Value) :
    (extractJsonUsage p v.canonical).reported = (extractJsonUsage p v).reported := by
  have hprompt := count_extractJsonUsage_canonical p .prompt v
  have hcompletion := count_extractJsonUsage_canonical p .completion v
  have hread := count_extractJsonUsage_canonical p .cacheRead v
  simp only [Usage.count] at hprompt hcompletion hread
  rw [Usage.reported, hprompt, hcompletion, hread, Usage.reported]

theorem bind_asStr_canonical (v : Option Value) :
    (v.map Value.canonical).bind Value.asStr = v.bind Value.asStr := by
  cases v with
  | none => rfl
  | some v => exact Value.asStr_canonical v

theorem startSets_canonical (n : Count) (usage : Value) :
    startSets n usage.canonical = startSets n usage := by
  cases n <;> simp only [startSets, ← countAt_canonical (some usage), Option.map_some]

theorem eventSets_canonical (p : Protocol) (n : Count) (v : Value) :
    eventSets p n v.canonical = eventSets p n v := by
  have htype : eventType v.canonical = eventType v := by
    rw [eventType, Value.get?_canonical, bind_asStr_canonical, eventType]
  cases p with
  | openaiChat =>
    simp only [eventSets, Value.get?_canonical, Option.isSome_map, reported_canonical,
      count_extractJsonUsage_canonical]
  | openaiResponses =>
    simp only [eventSets, Value.get?_canonical, bind_asStr_canonical, Option.map_map]
    congr 2
    funext resp
    exact count_extractJsonUsage_canonical .openaiResponses n resp
  | anthropic =>
    simp only [eventSets, htype, Value.get?_canonical, bind_get?_canonical, countAt_canonical]
    cases (v.get? "message").bind fun m ↦ m.get? "usage" with
    | none => rfl
    | some usage => simp only [Option.map_some, Option.bind_some, startSets_canonical]
  | gemini =>
    simp only [eventSets, Value.get?_canonical, Option.isSome_map,
      count_extractJsonUsage_canonical]

/-- An object that is sent as the lines of one event. -/
def Sendable (v : Value) : Prop :=
  v.isObject = true ∧ v.depth ≤ 127 ∧ '\n' ∉ (eventType v).toList

instance (v : Value) : Decidable (Sendable v) :=
  inferInstanceAs (Decidable (_ ∧ _ ∧ _))

theorem Sendable.exists_obj {v : Value} (h : Sendable v) : ∃ m, v = .obj m := by
  cases v with
  | obj m => exact ⟨m, rfl⟩
  | _ => exact absurd h.1 Bool.false_ne_true

/-! ### The lines of an event -/

/-- A text that begins with no whitespace keeps its first character. -/
theorem exists_trim_cons {c : Char} (rest : List Char) (h : isWhitespace c = false) :
    ∃ more, trim (c :: rest) = c :: more := by
  have hfront : (c :: rest).dropWhile isWhitespace = c :: rest :=
    List.dropWhile_cons_of_neg (Bool.eq_false_iff.1 h)
  rw [trim, hfront, List.reverse_cons, List.dropWhile_append]
  split
  · exact ⟨[], by rw [List.dropWhile_cons_of_neg (Bool.eq_false_iff.1 h)]; rfl⟩
  · exact ⟨_, by rw [List.reverse_append]; rfl⟩

/-- The line of an event's type, whatever it ends with, begins as it does. -/
theorem exists_lines_cons {c : Char} {rest : List Char} (hc : c ≠ '\n' ∧ c ≠ '\r')
    (h : '\n' ∉ rest) : ∃ more, lines (c :: rest ++ ['\n']) = [c :: more] := by
  have hline : '\n' ∉ c :: rest := fun hmem ↦
    (List.mem_cons.1 hmem).elim (fun heq ↦ hc.1 heq.symm) h
  rw [lines, splitInclusive_line hline, List.map_singleton, stripEnding,
    if_pos List.getLast?_concat, List.dropLast_concat]
  split
  · rename_i hlast
    cases rest with
    | nil => exact absurd (Option.some.inj hlast) hc.2
    | cons d rest => exact ⟨(d :: rest).dropLast, rfl⟩
  · exact ⟨rest, rfl⟩

section Lines

variable [SerdeJson]

/-- A line that begins with another letter is not the document of an event. -/
theorem parseSseData_of_head {c : Char} (rest : List Char) (hspace : isWhitespace c = false)
    (hc : c ≠ 'd') : parseSseData (c :: rest) = none := by
  obtain ⟨more, hmore⟩ := exists_trim_cons rest hspace
  have hprefix : "data:".toList.isPrefixOf? (c :: more) = none := by
    have hlist : "data:".toList = ['d', 'a', 't', 'a', ':'] := by decide
    rw [hlist, List.isPrefixOf?, if_neg fun h ↦ hc (beq_iff_eq.1 h).symm]
  rw [parseSseData, hmore, hprefix]
  rfl

theorem parseSseData_nil : parseSseData [] = none := by
  have hlist : "data:".toList = ['d', 'a', 't', 'a', ':'] := by decide
  rw [parseSseData, hlist]
  rfl

variable [LawfulSerdeJson]

/-- A data line is read as the printed document is. -/
theorem parseSseData_toText (m : Map) :
    parseSseData ("data: ".toList ++ (SerdeJson.toText (.obj m)).toList) =
      (SerdeJson.ofText (SerdeJson.toText (.obj m))).toOption := by
  obtain ⟨inner, hinner⟩ := LawfulSerdeJson.toText_object m
  have hlast : ∀ front : List Char,
      (front ++ (SerdeJson.toText (.obj m)).toList).getLast? = some '\x7d' := by
    intro front
    rw [hinner, ← List.cons_append, ← List.append_assoc, List.getLast?_concat]
  have hline : trim ("data: ".toList ++ (SerdeJson.toText (.obj m)).toList) =
      "data: ".toList ++ (SerdeJson.toText (.obj m)).toList := by
    refine trim_of_ends (fun c hc ↦ ?_) fun c hc ↦ ?_
    · rw [← Option.some.inj hc]
      decide
    · rw [hlast, Option.mem_some] at hc
      rw [← hc]
      decide
  have hdata : trim (' ' :: (SerdeJson.toText (.obj m)).toList) =
      (SerdeJson.toText (.obj m)).toList := by
    have hspace : trim (' ' :: (SerdeJson.toText (.obj m)).toList) =
        trim (SerdeJson.toText (.obj m)).toList := by
      rw [trim, List.dropWhile_cons_of_pos (by decide), trim]
    rw [hspace]
    refine trim_of_ends (fun c hc ↦ ?_) fun c hc ↦ ?_
    · rw [hinner] at hc
      rw [← Option.some.inj hc]
      decide
    · have hend := hlast []
      rw [List.nil_append] at hend
      rw [hend, Option.mem_some] at hc
      rw [← hc]
      decide
  have hprefix : "data:".toList.isPrefixOf? ("data: ".toList ++
      (SerdeJson.toText (.obj m)).toList) = some (' ' :: (SerdeJson.toText (.obj m)).toList) := by
    have hlist : "data:".toList = ['d', 'a', 't', 'a', ':'] := by decide
    have hlist' : "data: ".toList = ['d', 'a', 't', 'a', ':', ' '] := by decide
    rw [hlist, hlist']
    rfl
  have hne : ¬ ((SerdeJson.toText (.obj m)).toList = "[DONE]".toList ∨
      (SerdeJson.toText (.obj m)).toList = []) := by
    rw [hinner]
    rintro (h | h)
    · have hlist : "[DONE]".toList = ['[', 'D', 'O', 'N', 'E', ']'] := by decide
      rw [hlist, List.cons.injEq] at h
      exact absurd h.1 (by decide)
    · exact absurd h (List.cons_ne_nil _ _)
  rw [parseSseData, hline, hprefix, Option.bind_some]
  show (if _ then _ else _) = _
  rw [hdata, if_neg hne, String.ofList_toList]

/-- The type of an event that was printed. -/
theorem encodeTypedEvent_toText (m : Map) (h : (Value.obj m).depth ≤ 127) :
    Sse.encodeTypedEvent (SerdeJson.toText (.obj m)) =
      Sse.encodeTypedEventWithType (SerdeJson.toText (.obj m))
        (((Value.obj m).get? "type").bind Value.asStr) := by
  obtain ⟨w, hw, hcanonical⟩ := LawfulSerdeJson.ofText_toText (Value.obj m) h
  have htype : (w.get? "type").bind Value.asStr =
      ((Value.obj m).get? "type").bind Value.asStr := by
    rw [← bind_asStr_canonical, ← Value.get?_canonical, hcanonical, Value.get?_canonical,
      bind_asStr_canonical]
  rw [Sse.encodeTypedEvent, hw, ← htype]
  congr 1
  show w["type"].asStr = _
  rw [Value.getElem_eq]
  cases w.get? "type" <;> rfl

/-- A printed document is one line. -/
theorem encodeEvent_toText (v : Value) :
    Sse.encodeEvent (SerdeJson.toText v) =
      "data: ".toList ++ (SerdeJson.toText v).toList ++ ['\n'] ++ ['\n'] := by
  have hsplit : (SerdeJson.toText v).toList.splitOn '\n' = [(SerdeJson.toText v).toList] := by
    refine List.splitOnP_eq_singleton fun c hc ↦ ?_
    have hclean := LawfulSerdeJson.toText_oneLine v c hc
    rw [beq_eq_false_iff_ne]
    rintro rfl
    exact hclean (by decide)
  rw [Sse.encodeEvent, hsplit, List.flatMap_singleton]

/-- The lines of an event without a type: its document, and an empty line. -/
theorem lines_encodeEvent_toText (m : Map) :
    lines (Sse.encodeEvent (SerdeJson.toText (.obj m))) =
      ["data: ".toList ++ (SerdeJson.toText (.obj m)).toList, []] := by
  obtain ⟨inner, hinner⟩ := LawfulSerdeJson.toText_object m
  have hline : '\n' ∉ "data: ".toList ++ (SerdeJson.toText (.obj m)).toList := by
    rw [List.mem_append]
    rintro (hmem | hmem)
    · exact absurd hmem (by decide)
    · exact LawfulSerdeJson.toText_oneLine _ _ hmem (by decide)
  have hlast : ("data: ".toList ++ (SerdeJson.toText (.obj m)).toList).getLast? ≠ some '\r' := by
    rw [hinner, ← List.cons_append, ← List.append_assoc, List.getLast?_concat]
    decide
  have hempty : lines ['\n'] = [[]] := by decide
  rw [encodeEvent_toText, lines_append _ (endsLine_line _), lines_line hline hlast, hempty]
  rfl

/-- An event sets what its object sets. -/
theorem lastly_lines_encodeEvent (p : Protocol) (n : Count) (m : Map)
    (h : (Value.obj m).depth ≤ 127) :
    lastly (lineSets p n) (lines (Sse.encodeEvent (SerdeJson.toText (.obj m)))) =
      eventSets p n (.obj m) := by
  obtain ⟨w, hw, hcanonical⟩ := LawfulSerdeJson.ofText_toText (Value.obj m) h
  rw [lines_encodeEvent_toText, lastly_cons, lastly_cons, lastly_nil, lineSets, lineSets,
    parseSseData_nil, parseSseData_toText, hw]
  show eventSets p n w = eventSets p n (.obj m)
  rw [← eventSets_canonical, hcanonical, eventSets_canonical]

/-- An event sets what its object sets, also behind the line of its type. -/
theorem lastly_lines_encodeTypedEvent (p : Protocol) (n : Count) {v : Value} (hv : Sendable v) :
    lastly (lineSets p n) (lines (Sse.encodeTypedEvent (SerdeJson.toText v))) =
      eventSets p n v := by
  obtain ⟨m, rfl⟩ := hv.exists_obj
  obtain ⟨-, h, htype⟩ := hv
  rw [encodeTypedEvent_toText m h, Sse.encodeTypedEventWithType]
  split
  · rename_i name hname
    have hsome : ((Value.obj m).get? "type").bind Value.asStr = some name :=
      (Option.filter_eq_some_iff.1 hname).1
    have hline : '\n' ∉ "vent: ".toList ++ name.toList := by
      rw [List.mem_append]
      rintro (hmem | hmem)
      · exact absurd hmem (by decide)
      · rw [eventType, hsome] at htype
        exact htype hmem
    obtain ⟨more, hmore⟩ := exists_lines_cons (c := 'e') (by decide) hline
    have hevent : "event: ".toList ++ name.toList ++ ['\n'] =
        'e' :: ("vent: ".toList ++ name.toList) ++ ['\n'] := by
      have hlist : "event: ".toList = 'e' :: "vent: ".toList := by decide
      rw [hlist]
      rfl
    have hsets : lineSets p n ('e' :: more) = none := by
      rw [lineSets, parseSseData_of_head more (by decide) (by decide)]
      rfl
    rw [lines_append _ (endsLine_line _), lastly_append, lastly_lines_encodeEvent p n m h, hevent,
      hmore, lastly_cons, lastly_nil, hsets, Option.or_none, Option.or_none]
  · exact lastly_lines_encodeEvent p n m h

/-- Scanning the events of a stream is scanning their objects. -/
theorem lastly_lines_events (p : Protocol) (n : Count) {events : List Value}
    (h : ∀ v ∈ events, Sendable v) :
    lastly (lineSets p n)
        (lines (events.flatMap fun v ↦ Sse.encodeTypedEvent (SerdeJson.toText v))) =
      lastly (eventSets p n) events := by
  induction events with
  | nil => rfl
  | cons v rest ih =>
    rw [List.flatMap_cons, lines_append _ (Sse.endsLine_encodeTypedEvent _), lastly_append,
      lastly_cons, lastly_lines_encodeTypedEvent p n (h v List.mem_cons_self),
      ih fun w hw ↦ h w (List.mem_cons_of_mem _ hw)]

end Lines

end NextApi.Upstream
