import NextApi.Text.Cut
import NextApi.Protocol.SseParser
import NextApi.Text.Joined

/-!
# Reading events that were written

An event is written as whole lines, so events one after another are read one by one
(`collect_events`). The lines of the data give the data back. The name of the event comes before
them, as the event's type in the data has it: a line feed in it ends the line, and what follows is a
line of the stream like any other. The event is read as its data if and only if no line of the name
but the first is a data line (`eventData_eq_singleton_iff`).
-/

set_option autoImplicit false

namespace NextApi.Sse

open Json
open Text (mem_of_mem_splitOnP not_mem_of_mem_splitOn)

/-! ### Lines -/

/-- Lines, each with a line feed. -/
def unlines (lines : List (List Char)) : List Char := lines.flatMap fun line ↦ line ++ ['\n']

theorem unlines_append (lines more : List (List Char)) :
    unlines (lines ++ more) = unlines lines ++ unlines more := List.flatMap_append

theorem unlines_eq {lines : List (List Char)} (h : lines ≠ []) :
    unlines lines = ['\n'].intercalate lines ++ ['\n'] := by
  induction lines with
  | nil => exact absurd rfl h
  | cons line rest ih =>
    cases rest with
    | nil => simp [unlines]
    | cons next rest =>
      rw [unlines, List.flatMap_cons, ← unlines, ih (List.cons_ne_nil _ _),
        List.intercalate_cons_cons]
      simp

/-- A text that is split at its line feeds. -/
theorem unlines_splitOn (text : List Char) : unlines (text.splitOn '\n') = text ++ ['\n'] := by
  rw [unlines_eq (List.splitOn_ne_nil _ _), List.intercalate_splitOn]

/-- A text without line feeds has no byte `10`. -/
theorem ten_not_mem_encodeUtf8 {text : List Char} (h : '\n' ∉ text) :
    10 ∉ Text.encodeUtf8 text := by
  intro hten
  obtain ⟨ch, hch, hten⟩ := List.mem_flatMap.1 hten
  obtain ⟨first, more, hbytes, -, hmore⟩ := Text.utf8EncodeChar_eq_cons ch
  rw [hbytes] at hten
  rcases List.mem_cons.1 hten with hfirst | hten
  · -- a character that begins with the byte of the line feed is the line feed
    have hdecode := Text.decodeChar_encode ch []
    rw [hbytes, ← hfirst] at hdecode
    have hfeed : Text.decodeChar (10 :: (more ++ [])) = some '\n' :=
      Text.decodeChar_encode '\n' (more ++ [])
    rw [List.cons_append, hfeed] at hdecode
    exact h (Option.some.inj hdecode ▸ hch)
  · exact absurd (hmore 10 hten) (by decide)

theorem split_unlines {lines : List (List Char)} (h : ∀ line ∈ lines, '\n' ∉ line) :
    Split [] (Text.encodeUtf8 (unlines lines))
      (lines.map fun line ↦ Text.encodeUtf8 line ++ [10]) := by
  induction lines with
  | nil => exact .last List.not_mem_nil
  | cons line rest ih =>
    have hbytes : Text.encodeUtf8 (unlines (line :: rest)) =
        Text.encodeUtf8 line ++ 10 :: Text.encodeUtf8 (unlines rest) := by
      rw [unlines, List.flatMap_cons, Text.encodeUtf8_append, Text.encodeUtf8_append, ← unlines,
        List.append_assoc]
      rfl
    rw [hbytes]
    exact .line (ten_not_mem_encodeUtf8 (h line List.mem_cons_self))
      (ih fun other hother ↦ h other (List.mem_cons_of_mem _ hother))

theorem trimEnd_concat (line : List Char) : trimEnd (line ++ ['\n']) = trimEnd line :=
  List.rdropWhile_concat_pos _ _ _ rfl

/-- Whole lines are read one by one, however they are cut into chunks. -/
theorem collect_unlines {lines : List (List Char)} (h : ∀ line ∈ lines, '\n' ∉ line)
    {chunks : List (List UInt8)} (hchunks : chunks.flatten = Text.encodeUtf8 (unlines lines)) :
    SseParser.collect {} chunks =
      (((lines.map trimEnd).foldl Pending.readLine ⟨[], []⟩).flush.out, {}) := by
  have hsplit := split_unlines h
  have hended : lineText (unended (Text.encodeUtf8 (unlines lines))) ≠ "data".toList := by
    rw [hsplit.unended_eq]
    decide +kernel
  have htext (line : List Char) : lineText (Text.encodeUtf8 line ++ [10]) = trimEnd line := by
    rw [← trimEnd_concat, lineText]
    have hfeed : Text.encodeUtf8 line ++ [10] = Text.encodeUtf8 (line ++ ['\n']) :=
      (Text.encodeUtf8_append line ['\n']).symm
    rw [hfeed, Text.lossy_encodeUtf8]
  rw [collect_of_ended hended chunks hchunks, payloads_eq hsplit]
  rw [List.isEmpty_nil, if_pos rfl, readLines, readLines, List.map_map, List.map_nil,
    List.foldl_nil, ← flush_out]
  congr 4
  exact List.map_congr_left fun line _ ↦ htext line

/-! ### The lines of an event -/

/-- The lines of the event's name. -/
def nameLines : Option String → List (List Char)
  | none => []
  | some name => (name.toList.splitOn '\n').modifyHead ("event: ".toList ++ ·)

/-- The lines of an event. -/
def eventLines (data : String) (event : Option String) : List (List Char) :=
  nameLines (event.filter fun name ↦ decide (name ≠ "")) ++
    (data.toList.splitOn '\n').map ("data: ".toList ++ ·) ++ [[]]

theorem encodeEvent_eq (data : String) :
    encodeEvent data = unlines ((data.toList.splitOn '\n').map ("data: ".toList ++ ·) ++ [[]]) := by
  rw [unlines_append, encodeEvent, unlines, List.flatMap_map]
  rfl

theorem encodeTypedEventWithType_eq (data : String) (event : Option String) :
    encodeTypedEventWithType data event = unlines (eventLines data event) := by
  rw [encodeTypedEventWithType, eventLines, List.append_assoc, unlines_append, ← encodeEvent_eq]
  cases event.filter fun name ↦ decide (name ≠ "") with
  | none => rfl
  | some name =>
    obtain ⟨first, rest, hsplit⟩ := List.exists_cons_of_ne_nil
      (List.splitOn_ne_nil '\n' name.toList)
    have hname : "event: ".toList ++ name.toList ++ ['\n'] = unlines (nameLines (some name)) := by
      rw [List.append_assoc, ← unlines_splitOn, nameLines, hsplit, List.modifyHead_cons, unlines,
        unlines, List.flatMap_cons, List.flatMap_cons, List.append_assoc, List.append_assoc,
        List.append_assoc]
    show "event: ".toList ++ name.toList ++ ['\n'] ++ _ = _
    rw [hname]

/-- No line feed is within a line. -/
theorem not_mem_of_mem_eventLines {data : String} {event : Option String} {line : List Char}
    (h : line ∈ eventLines data event) : '\n' ∉ line := by
  have happend {start line : List Char} (hstart : '\n' ∉ start) (hline : '\n' ∉ line) :
      '\n' ∉ start ++ line := by
    rw [List.mem_append, not_or]
    exact ⟨hstart, hline⟩
  simp only [eventLines, List.mem_append, List.mem_singleton, List.mem_map] at h
  rcases h with (h | ⟨line', hline', rfl⟩) | rfl
  · rw [nameLines.eq_def] at h
    split at h
    · exact absurd h List.not_mem_nil
    · rename_i name _
      obtain ⟨first, rest, hsplit⟩ := List.exists_cons_of_ne_nil
        (List.splitOn_ne_nil '\n' name.toList)
      have hlines : ∀ line ∈ name.toList.splitOn '\n', '\n' ∉ line :=
        fun line ↦ not_mem_of_mem_splitOn
      rw [hsplit] at h hlines
      rcases List.mem_cons.1 h with rfl | h
      · exact happend (by decide) (hlines first List.mem_cons_self)
      · exact hlines line (List.mem_cons_of_mem _ h)
  · exact happend (by decide) (not_mem_of_mem_splitOn hline')
  · exact List.not_mem_nil

/-! ### Lines that were written -/

/-- No line of the data ends with a carriage return: the parser cuts them off. -/
def Framed (data : List Char) : Prop := ∀ line ∈ data.splitOn '\n', line.getLast? ≠ some '\r'

/-- No line of the name but the first is a data line. -/
def CleanName (name : String) : Prop :=
  ∀ line ∈ (name.toList.splitOn '\n').tail, dataOf (trimEnd line) = none

/-- A line that begins with another character keeps it. -/
theorem exists_trimEnd_cons {ch : Char} (h : (ch == '\n' || ch == '\r') = false)
    (rest : List Char) : ∃ rest', trimEnd (ch :: rest) = ch :: rest' := by
  induction rest using List.reverseRecOn with
  | nil => exact ⟨[], by rw [trimEnd, List.rdropWhile_singleton, h]; rfl⟩
  | append_singleton rest last ih =>
    rw [← List.cons_append, trimEnd, List.rdropWhile_concat]
    split
    · exact ih
    · exact ⟨rest ++ [last], rfl⟩

theorem dataOf_trimEnd_event (rest : List Char) :
    dataOf (trimEnd ("event: ".toList ++ rest)) = none := by
  have hlist : "event: ".toList ++ rest = 'e' :: ("vent: ".toList ++ rest) := by
    have hevent : "event: ".toList = 'e' :: "vent: ".toList := by decide
    rw [hevent, List.cons_append]
  obtain ⟨rest', hrest⟩ := @exists_trimEnd_cons 'e' (by decide) ("vent: ".toList ++ rest)
  rw [hlist, hrest, dataOf, dataField]
  simp

theorem dataOf_trimEnd_nameLines (event : Option String) :
    (∀ line ∈ nameLines event, dataOf (trimEnd line) = none) ↔ ∀ name ∈ event, CleanName name := by
  cases event with
  | none => simp [nameLines]
  | some name =>
    obtain ⟨first, rest, hsplit⟩ := List.exists_cons_of_ne_nil
      (List.splitOn_ne_nil '\n' name.toList)
    rw [nameLines, hsplit, List.modifyHead_cons, List.forall_mem_cons,
      and_iff_right (dataOf_trimEnd_event first)]
    simp [CleanName, hsplit]

/-- A line of the data comes back as it was written. -/
theorem trimEnd_dataLine {line : List Char} (hfeed : '\n' ∉ line)
    (hreturn : line.getLast? ≠ some '\r') :
    trimEnd ("data: ".toList ++ line) = "data: ".toList ++ line := by
  rcases List.eq_nil_or_concat' line with rfl | ⟨front, last, rfl⟩
  · decide
  · have hlast : ¬ (last == '\n' || last == '\r') = true := by
      rw [Bool.or_eq_true, beq_iff_eq, beq_iff_eq, not_or]
      rw [List.mem_append, not_or, List.mem_singleton] at hfeed
      rw [List.getLast?_concat] at hreturn
      exact ⟨Ne.symm hfeed.2, fun heq ↦ hreturn (congrArg some heq)⟩
    rw [← List.append_assoc]
    exact List.rdropWhile_concat_neg _ _ _ hlast

theorem dataOf_dataLine (line : List Char) : dataOf ("data: ".toList ++ line) = some line := by
  have hlist : "data: ".toList = ['d', 'a', 't', 'a', ':', ' '] := by decide
  rw [hlist, dataOf, dataField]
  simp

/-! ### Reading one event -/

/-- Something has been read. -/
def Pending.Started (st : Pending) : Prop := st.dataLines ≠ [] ∨ st.out ≠ []

theorem Pending.Started.readLine {st : Pending} (h : st.Started) (line : List Char) :
    (st.readLine line).Started := by
  rw [Pending.readLine]
  split
  · rw [Pending.flush]
    split
    · exact h
    · exact Or.inr (by simp)
  · cases dataField line with
    | some rest => exact Or.inl (by simp)
    | none =>
      show (if _ then _ else st).Started
      split
      · exact Or.inl (by simp)
      · exact h

/-- Lines without data leave nothing. -/
theorem foldl_readLine_eq_nil_iff (lines : List (List Char)) :
    lines.foldl Pending.readLine ⟨[], []⟩ = ⟨[], []⟩ ↔ ∀ line ∈ lines, dataOf line = none := by
  have hstarted (lines : List (List Char)) (st : Pending) (h : st.Started) :
      (lines.foldl Pending.readLine st).Started := by
    induction lines generalizing st with
    | nil => exact h
    | cons line rest ih => exact ih _ (h.readLine line)
  induction lines with
  | nil => simp
  | cons line rest ih =>
    rw [List.foldl_cons, List.forall_mem_cons]
    by_cases hline : line = []
    · rw [hline, readLine_blank]
      exact ih.trans (and_iff_right rfl).symm
    · cases hdata : dataOf line with
      | none =>
        rw [readLine_of_other hline hdata, and_iff_right rfl]
        exact ih
      | some x =>
        refine iff_of_false (fun h ↦ ?_) (by simp)
        rw [readLine_of_data hline hdata, List.nil_append] at h
        have hnot := hstarted rest ⟨[x], []⟩ (Or.inl (List.cons_ne_nil x []))
        rw [h] at hnot
        exact hnot.elim (absurd rfl) (absurd rfl)

/-- What the lines of the name leave. -/
def readName (event : Option String) : Pending :=
  ((nameLines (event.filter fun name ↦ decide (name ≠ ""))).map trimEnd).foldl
    Pending.readLine ⟨[], []⟩

/-- What is read of an event: the lines of the name come first. -/
def eventData (data : String) (event : Option String) : List (List Char) :=
  (readName event).out ++ [join ((readName event).dataLines ++ data.toList.splitOn '\n')]

/-- Lines of data are collected. -/
theorem foldl_readLine_dataLines (lines : List (List Char)) (st : Pending) :
    (lines.map ("data: ".toList ++ ·)).foldl Pending.readLine st =
      { st with dataLines := st.dataLines ++ lines } := by
  induction lines generalizing st with
  | nil => rw [List.append_nil]; rfl
  | cons line rest ih =>
    rw [List.map_cons, List.foldl_cons,
      readLine_of_data (by simp) (dataOf_dataLine line), ih, List.append_assoc,
      List.singleton_append]

/-- The lines of an event give its data, and nothing is left. -/
theorem foldl_readLine_eventLines {data : String} (hdata : Framed data.toList)
    (event : Option String) (out : List (List Char)) :
    ((eventLines data event).map trimEnd).foldl Pending.readLine ⟨[], out⟩ =
      ⟨[], out ++ eventData data event⟩ := by
  have hlines : ((data.toList.splitOn '\n').map ("data: ".toList ++ ·)).map trimEnd =
      (data.toList.splitOn '\n').map ("data: ".toList ++ ·) := by
    rw [List.map_map]
    exact List.map_congr_left fun line hline ↦
      trimEnd_dataLine (not_mem_of_mem_splitOn hline) (hdata line hline)
  have hname : ((nameLines (event.filter fun name ↦ decide (name ≠ ""))).map trimEnd).foldl
      Pending.readLine ⟨[], out⟩ = ⟨(readName event).dataLines, out ++ (readName event).out⟩ :=
    foldl_readLine_out _ ⟨[], out⟩
  rw [eventLines, List.map_append, List.map_append, List.foldl_append, List.foldl_append, hlines,
    hname, foldl_readLine_dataLines]
  show Pending.flush _ = _
  rw [Pending.flush, if_neg (by simp), eventData, List.append_assoc]

theorem length_join_append {dataLines more : List (List Char)} (h : dataLines ≠ [])
    (hmore : more ≠ []) : (join more).length < (join (dataLines ++ more)).length := by
  induction dataLines with
  | nil => exact absurd rfl h
  | cons line rest ih =>
    obtain ⟨next, others, hnext⟩ := List.exists_cons_of_ne_nil
      (List.append_ne_nil_of_right_ne_nil rest hmore)
    have hle : (join more).length ≤ (join (rest ++ more)).length := by
      by_cases hrest : rest = []
      · rw [hrest, List.nil_append]
      · exact (ih hrest).le
    have hjoin : join (line :: (rest ++ more)) = line ++ ['\n'] ++ join (rest ++ more) := by
      rw [join, join, hnext, List.intercalate_cons_cons]
    rw [List.cons_append, hjoin, List.length_append, List.length_append, List.length_singleton]
    omega

/-- An event is read as its data unless its name has data lines of its own. -/
theorem eventData_eq_singleton_iff (data : String) (event : Option String) :
    eventData data event = [data.toList] ↔ ∀ name ∈ event, CleanName name := by
  have hclean : (∀ name ∈ event, CleanName name) ↔ readName event = ⟨[], []⟩ := by
    rw [readName, foldl_readLine_eq_nil_iff, List.forall_mem_map, dataOf_trimEnd_nameLines]
    refine forall_congr' fun name ↦ ?_
    rw [Option.mem_def, Option.mem_def, Option.filter_eq_some_iff, decide_eq_true_iff]
    constructor
    · exact fun h hname ↦ h hname.1
    · intro h hname
      by_cases hempty : name = ""
      · rw [hempty]
        exact fun line hline ↦ absurd hline (by simp)
      · exact h ⟨hname, hempty⟩
  have hjoin : join (data.toList.splitOn '\n') = data.toList := List.intercalate_splitOn _
  rw [hclean]
  constructor
  · intro h
    cases hname : readName event with
    | mk dataLines out =>
      rw [eventData, hname, List.append_eq_singleton_iff] at h
      rcases h with ⟨rfl, hdata⟩ | ⟨-, hnil⟩
      · by_cases hlines : dataLines = []
        · rw [hlines]
        · have hlonger := length_join_append hlines (List.splitOn_ne_nil '\n' data.toList)
          rw [hjoin, (List.cons.inj hdata).1] at hlonger
          exact absurd hlonger (lt_irrefl _)
      · exact absurd hnil (List.cons_ne_nil _ _)
  · intro h
    rw [eventData, h, List.nil_append, List.nil_append, hjoin]

theorem eventData_ne_nil (data : String) (event : Option String) : eventData data event ≠ [] :=
  List.append_ne_nil_of_right_ne_nil _ (List.cons_ne_nil _ _)

/-- Events one after another are read one by one, however they are cut into chunks. -/
theorem collect_events {events : List (String × Option String)}
    (h : ∀ e ∈ events, Framed e.1.toList) {chunks : List (List UInt8)}
    (hchunks : chunks.flatten =
      Text.encodeUtf8 (events.flatMap fun e ↦ encodeTypedEventWithType e.1 e.2)) :
    SseParser.collect {} chunks = (events.flatMap fun e ↦ eventData e.1 e.2, {}) := by
  have htext : (events.flatMap fun e ↦ encodeTypedEventWithType e.1 e.2) =
      unlines (events.flatMap fun e ↦ eventLines e.1 e.2) := by
    rw [unlines, List.flatMap_assoc]
    exact List.flatMap_congr fun e _ ↦ encodeTypedEventWithType_eq e.1 e.2
  have hfeed : ∀ line ∈ events.flatMap fun e ↦ eventLines e.1 e.2, '\n' ∉ line := by
    intro line hline
    obtain ⟨e, -, hline⟩ := List.mem_flatMap.1 hline
    exact not_mem_of_mem_eventLines hline
  have hread (out : List (List Char)) :
      ((events.flatMap fun e ↦ eventLines e.1 e.2).map trimEnd).foldl Pending.readLine ⟨[], out⟩ =
        ⟨[], out ++ events.flatMap fun e ↦ eventData e.1 e.2⟩ := by
    clear hchunks htext hfeed
    induction events generalizing out with
    | nil => exact congrArg (Pending.mk []) (List.append_nil out).symm
    | cons e rest ih =>
      rw [List.flatMap_cons, List.map_append, List.foldl_append,
        foldl_readLine_eventLines (h e List.mem_cons_self),
        ih fun e' he' ↦ h e' (List.mem_cons_of_mem _ he'), List.flatMap_cons, List.append_assoc]
  rw [collect_unlines hfeed (hchunks.trans (congrArg _ htext)), hread, List.nil_append]
  rfl

/-! ### What the parser gives -/

/-- Bytes without a line feed have none in their text. -/
theorem not_mem_lossy {bytes : List UInt8} (h : 10 ∉ bytes) : '\n' ∉ Text.lossy bytes := by
  induction hn : bytes.length using Nat.strongRecOn generalizing bytes with
  | ind n ih =>
    cases bytes with
    | nil => simp
    | cons first rest =>
      rw [Text.lossy_eq_cons (List.cons_ne_nil _ _), List.mem_cons, not_or]
      constructor
      · rw [Text.pieceChar]
        intro hfeed
        cases hdecode : Text.decodeChar (first :: rest) with
        | none =>
          rw [hdecode] at hfeed
          exact absurd hfeed (by decide)
        | some ch =>
          rw [hdecode, Option.getD_some] at hfeed
          obtain ⟨more, hmore⟩ := Text.exists_of_decodeChar hdecode
          rw [hmore, ← hfeed] at h
          exact h (List.mem_append_left more (by decide))
      · refine ih _ ?_ (fun hten ↦ h (List.mem_of_mem_drop hten)) rfl
        have hpos := Text.pieceLength_pos (first :: rest)
        rw [List.length_drop, ← hn, List.length_cons]
        omega

/-- A line feed is a character of its own. -/
theorem lossy_concat_feed (body : List UInt8) :
    Text.lossy (body ++ [10]) = Text.lossy body ++ ['\n'] := by
  have hbyte : (body ++ [10])[body.length]? = some 10 := by simp
  have hboundary : Text.Boundary (body ++ [10]) body.length := .of_byte hbyte (by decide)
  have hfeed : Text.lossy [10] = ['\n'] := by decide +kernel
  rw [hboundary.lossy_append, List.take_left, List.drop_left, hfeed]

theorem Split.mem_lines {rest buf line : List UInt8} {lines : List (List UInt8)}
    (h : Split rest buf lines) (hline : line ∈ lines) :
    ∃ body, 10 ∉ body ∧ line = body ++ [10] := by
  induction h with
  | last => exact absurd hline List.not_mem_nil
  | line hbody _ ih =>
    rcases List.mem_cons.1 hline with rfl | hline
    · exact ⟨_, hbody, rfl⟩
    · exact ih hline

theorem Split.not_mem_rest {rest buf : List UInt8} {lines : List (List UInt8)}
    (h : Split rest buf lines) : 10 ∉ rest := by
  induction h with
  | last hrest => exact hrest
  | line _ _ ih => exact ih

/-- The text of a line is that of its bytes before the line feed. -/
theorem lineText_of_mem_rawLines {bytes line : List UInt8} (h : line ∈ rawLines bytes) :
    ∃ body, 10 ∉ body ∧ lineText line = trimEnd (Text.lossy body) := by
  obtain ⟨rest, lines, hsplit⟩ := exists_split bytes
  rw [hsplit.rawLines_eq] at h
  rcases List.mem_append.1 h with h | h
  · obtain ⟨body, hbody, rfl⟩ := hsplit.mem_lines h
    refine ⟨body, hbody, ?_⟩
    rw [lineText, lossy_concat_feed, trimEnd_concat]
  · split at h
    · exact absurd h List.not_mem_nil
    · rw [List.mem_singleton.1 h]
      exact ⟨rest, hsplit.not_mem_rest, rfl⟩

/-- A line of data has no line feed, and no carriage return at its end. -/
theorem dataOf_lineText {bytes line : List UInt8} (h : line ∈ rawLines bytes) {x : List Char}
    (hx : dataOf (lineText line) = some x) : '\n' ∉ x ∧ x.getLast? ≠ some '\r' := by
  obtain ⟨body, hbody, htext⟩ := lineText_of_mem_rawLines h
  have hsuffix : x = [] ∨ x <:+ lineText line := by
    rw [dataOf, Option.or_eq_some_iff] at hx
    rcases hx with hx | ⟨-, hx⟩
    · rw [dataField] at hx
      split at hx
      · have hdrop := Option.some.inj hx
        split at hdrop
        · rw [← hdrop, List.drop_drop]
          exact Or.inr (List.drop_suffix _ _)
        · rw [← hdrop]
          exact Or.inr (List.drop_suffix _ _)
      · exact absurd hx (by simp)
    · split at hx
      · exact Or.inl (Option.some.inj hx).symm
      · exact absurd hx (by simp)
  rcases hsuffix with rfl | ⟨start, hstart⟩
  · exact ⟨List.not_mem_nil, by simp⟩
  · rw [htext] at hstart
    constructor
    · intro hfeed
      have hmem : '\n' ∈ trimEnd (Text.lossy body) := hstart ▸ List.mem_append_right start hfeed
      exact not_mem_lossy hbody ((List.rdropWhile_prefix _ _).mem hmem)
    · intro hlast
      have hend : (trimEnd (Text.lossy body)).getLast? = some '\r' := by
        rw [← hstart, List.getLast?_append, hlast, Option.some_or]
      have hne : trimEnd (Text.lossy body) ≠ [] := by
        intro hnil
        rw [hnil] at hend
        exact absurd hend (by simp)
      have hreturn : (trimEnd (Text.lossy body)).getLast hne = '\r' :=
        Option.some.inj ((List.getLast?_eq_some_getLast hne).symm.trans hend)
      have hnot : ¬ ((trimEnd (Text.lossy body)).getLast hne == '\n' ||
          (trimEnd (Text.lossy body)).getLast hne == '\r') = true :=
        List.rdropWhile_last_not _ _ hne
      rw [hreturn] at hnot
      exact hnot rfl

/-- The data of an event has no carriage return at the end of a line. -/
theorem framed_of_mem_payloads {bytes : List UInt8} {data : List Char}
    (h : data ∈ payloads bytes) : Framed data := by
  rw [payloads, groupEvents, List.mem_map] at h
  obtain ⟨group, hgroup, rfl⟩ := h
  obtain ⟨hgroup, hne⟩ := List.mem_filter.1 hgroup
  obtain ⟨lines, hlines, rfl⟩ := List.mem_map.1 hgroup
  have hdata : ∀ x ∈ lines.filterMap dataOf, '\n' ∉ x ∧ x.getLast? ≠ some '\r' := by
    intro x hx
    obtain ⟨text, htext, hx⟩ := List.mem_filterMap.1 hx
    obtain ⟨line, hline, rfl⟩ := List.mem_map.1 (mem_of_mem_splitOnP hlines htext)
    exact dataOf_lineText hline hx
  have hsplit : (join (lines.filterMap dataOf)).splitOn '\n' = lines.filterMap dataOf :=
    List.splitOn_intercalate _ (fun x hx ↦ (hdata x hx).1) (by simpa using hne)
  rw [Framed, hsplit]
  exact fun x hx ↦ (hdata x hx).2

end NextApi.Sse
