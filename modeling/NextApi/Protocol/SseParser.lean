import Mathlib.Data.List.DropRight
import NextApi.Json.Codec
import NextApi.Stream.Framing
import NextApi.Text.Lines

/-!
# Server-sent events

An event is written as the lines of its data, each after `data: `, and an empty line. When the data
is a JSON object with a `type`, a line with that type comes before them.

The parser takes the bytes of a stream in chunks and gives the data of every event: it keeps the
bytes of a line that has not ended yet and the data lines of the event that is going on. A blank
line ends an event, and so does the end of the stream.

As a whole the stream is a list of lines, and its events are the groups of data lines between blank
ones (`payloads`). How the bytes are cut into chunks never matters (`collect_eq`). The parser gives
the events of the whole unless the stream stops within a last line `data` (`parses_iff`), a field
without a colon that only `feed` knows.
-/

set_option autoImplicit false

namespace NextApi.Sse

open Json

/-- The data of an event, line by line, and the empty line that ends it. -/
def encodeEvent (data : String) : List Char :=
  ((data.toList.splitOn '\n').flatMap fun line ↦ "data: ".toList ++ line ++ ['\n']) ++ ['\n']

def encodeTypedEventWithType (data : String) (event : Option String) : List Char :=
  match event.filter fun name ↦ decide (name ≠ "") with
  | some name => "event: ".toList ++ name.toList ++ ['\n'] ++ encodeEvent data
  | none => encodeEvent data

variable [SerdeJson]

/-- An event with the type of its data. -/
def encodeTypedEvent (data : String) : List Char :=
  encodeTypedEventWithType data
    ((SerdeJson.ofText data).toOption.bind fun v ↦ v["type"].asStr)

omit [SerdeJson] in
theorem endsLine_encodeTypedEventWithType (data : String) (event : Option String) :
    Text.EndsLine (encodeTypedEventWithType data event) := by
  rw [encodeTypedEventWithType]
  split
  · rw [encodeEvent, ← List.append_assoc]
    exact Text.endsLine_line _
  · exact Text.endsLine_line _

/-- An event ends a line. -/
theorem endsLine_encodeTypedEvent (data : String) : Text.EndsLine (encodeTypedEvent data) :=
  endsLine_encodeTypedEventWithType data _

end NextApi.Sse

namespace NextApi.Sse

/-! ### The parser -/

/-- `trim_end_matches(['\n', '\r'])`. -/
def trimEnd (line : List Char) : List Char := line.rdropWhile fun ch ↦ ch == '\n' || ch == '\r'

/-- The text of a line, without its ending. -/
def lineText (bytes : List UInt8) : List Char := trimEnd (Text.lossy bytes)

/-- What comes after `data:`, without one space. -/
def dataField (line : List Char) : Option (List Char) :=
  if "data:".toList.isPrefixOf line then
    let rest := line.drop 5
    some (if [' '].isPrefixOf rest then rest.drop 1 else rest)
  else none

/-- The data lines of an event as one text. -/
def join (dataLines : List (List Char)) : List Char := ['\n'].intercalate dataLines

structure SseParser where
  buf : List UInt8 := []
  dataLines : List (List Char) := []
  deriving DecidableEq

/-- The events that are complete, and the data lines of the one that is going on. -/
structure Pending where
  dataLines : List (List Char)
  out : List (List Char) := []

/-- The event is over; without data lines it is none. -/
def Pending.flush (st : Pending) : Pending :=
  if st.dataLines.isEmpty then st else ⟨[], st.out ++ [join st.dataLines]⟩

/-- One line of `feed`. -/
def Pending.readLine (st : Pending) (line : List Char) : Pending :=
  if line.isEmpty then st.flush
  else
    match dataField line with
    | some rest => { st with dataLines := st.dataLines ++ [rest] }
    | none => if line = "data".toList then { st with dataLines := st.dataLines ++ [[]] } else st

/-- The loop of `feed`: the cursor moves over whole lines. -/
def feedLoop (buf : List UInt8) (cursor : ℕ) (st : Pending) : ℕ × Pending :=
  match h : (buf.drop cursor).findIdx? (· == 10) with
  | none => (cursor, st)
  | some rel =>
    feedLoop buf (cursor + rel + 1) (st.readLine (lineText ((buf.drop cursor).take (rel + 1))))
termination_by buf.length - cursor
decreasing_by
  have hlt := (List.findIdx?_eq_some_iff_getElem.1 h).1
  rw [List.length_drop] at hlt
  omega

def SseParser.feed (p : SseParser) (bytes : List UInt8) : List (List Char) × SseParser :=
  let buf := p.buf ++ bytes
  let (cursor, st) := feedLoop buf 0 ⟨p.dataLines, []⟩
  (st.out, ⟨buf.drop cursor, st.dataLines⟩)

def SseParser.finish (p : SseParser) : List (List Char) × SseParser :=
  let st : Pending := ⟨p.dataLines, []⟩
  let st :=
    if p.buf.isEmpty then st
    else
      match dataField (lineText p.buf) with
      | some rest => { st with dataLines := st.dataLines ++ [rest] }
      | none => st
  (st.flush.out, ⟨[], st.flush.dataLines⟩)

/-- All chunks of a stream, one after another. -/
def SseParser.feeds (p : SseParser) : List (List UInt8) → List (List Char) × SseParser
  | [] => ([], p)
  | chunk :: chunks =>
    ((p.feed chunk).1 ++ ((p.feed chunk).2.feeds chunks).1, ((p.feed chunk).2.feeds chunks).2)

/-- The data of a whole stream, and the parser after it. -/
def SseParser.collect (p : SseParser) (chunks : List (List UInt8)) : List (List Char) × SseParser :=
  ((p.feeds chunks).1 ++ (p.feeds chunks).2.finish.1, (p.feeds chunks).2.finish.2)

/-! ### The events of a whole stream -/

/-- The lines of a stream, each with its ending; the last one may have none. -/
def rawLines : List UInt8 → List (List UInt8)
  | [] => []
  | b :: rest =>
    if b = 10 then [b] :: rawLines rest
    else
      match rawLines rest with
      | [] => [[b]]
      | line :: lines => (b :: line) :: lines

/-- The value of a data line; a field without a colon is empty. -/
def dataOf (line : List Char) : Option (List Char) :=
  (dataField line).or (if line = "data".toList then some [] else none)

/-- The data of the events: the groups of data lines between blank lines. -/
def groupEvents (lines : List (List Char)) : List (List Char) :=
  (((lines.splitOnP List.isEmpty).map (List.filterMap dataOf)).filter fun group ↦
    !group.isEmpty).map join

/-- The data of the events of a whole stream. -/
def payloads (bytes : List UInt8) : List (List Char) := groupEvents ((rawLines bytes).map lineText)

example : payloads "data: a\ndata:b\r\n\r\n: c\ndata\n".toUTF8.toList =
    ["a\nb".toList, []] := by
  decide +kernel

/-! ### Whole lines -/

/-- Takes a line off the front, with its ending. -/
def nextLine (buf : List UInt8) : Option (List UInt8 × List UInt8) :=
  (buf.findIdx? (· == 10)).map fun rel ↦ (buf.take (rel + 1), buf.drop (rel + 1))

theorem nextLine_eq_some {buf line rest : List UInt8} :
    nextLine buf = some (line, rest) ↔
      ∃ body, 10 ∉ body ∧ line = body ++ [10] ∧ buf = body ++ 10 :: rest := by
  rw [nextLine, Option.map_eq_some_iff]
  constructor
  · rintro ⟨rel, hrel, h⟩
    obtain ⟨rfl, rfl⟩ := Prod.mk.inj h
    obtain ⟨hlt, hbyte, hbefore⟩ := List.findIdx?_eq_some_iff_getElem.1 hrel
    have hten : buf[rel] = 10 := eq_of_beq hbyte
    refine ⟨buf.take rel, ?_, ?_, ?_⟩
    · intro hmem
      obtain ⟨i, hi, hget⟩ := List.mem_take_iff_getElem.1 hmem
      have hne := hbefore i (by omega)
      simp [hget] at hne
    · rw [List.take_add_one, List.getElem?_eq_getElem hlt, hten]
      rfl
    · rw [← hten, ← List.drop_eq_getElem_cons hlt, List.take_append_drop]
  · rintro ⟨body, hbody, rfl, rfl⟩
    have hnone : body.findIdx? (· == 10) = none :=
      List.findIdx?_eq_none_iff.2 fun b hb ↦ beq_eq_false_iff_ne.2 (ne_of_mem_of_not_mem hb hbody)
    refine ⟨body.length, ?_, ?_⟩
    · rw [List.findIdx?_append, hnone, List.findIdx?_cons]
      simp
    · rw [List.take_length_add_append, List.drop_length_add_append]
      rfl

theorem nextLine_eq_none {buf : List UInt8} : nextLine buf = none ↔ 10 ∉ buf := by
  rw [nextLine, Option.map_eq_none_iff, List.findIdx?_eq_none_iff]
  constructor
  · intro h hmem
    simpa using h 10 hmem
  · exact fun h b hb ↦ beq_eq_false_iff_ne.2 (ne_of_mem_of_not_mem hb h)

/-- The lines of the input. -/
def lineReader : Framing.Reader UInt8 (List UInt8) Empty where
  next buf := .ok (nextLine buf)
  shrinks h := by
    obtain ⟨body, -, -, rfl⟩ := nextLine_eq_some.1 (Except.ok.inj h)
    simp
    omega
  item_append more h := by
    obtain ⟨body, hbody, rfl, rfl⟩ := nextLine_eq_some.1 (Except.ok.inj h)
    exact congrArg Except.ok (nextLine_eq_some.2 ⟨body, hbody, rfl, by simp⟩)
  error_append _ h := nomatch h

/-- The whole lines of the input, and what comes after them. -/
inductive Split (rest : List UInt8) : List UInt8 → List (List UInt8) → Prop where
  | last : 10 ∉ rest → Split rest rest []
  | line {body more : List UInt8} {lines : List (List UInt8)} : 10 ∉ body →
      Split rest more lines → Split rest (body ++ 10 :: more) ((body ++ [10]) :: lines)

theorem Split.split_eq {rest buf : List UInt8} {lines : List (List UInt8)}
    (h : Split rest buf lines) : lineReader.split buf = (lines, .ok rest) := by
  induction h with
  | last hrest =>
    exact Framing.Reader.split_of_none (congrArg Except.ok (nextLine_eq_none.2 hrest))
  | @line body more lines hbody _ ih =>
    have hnext : nextLine (body ++ 10 :: more) = some (body ++ [10], more) :=
      nextLine_eq_some.2 ⟨body, hbody, rfl, rfl⟩
    rw [Framing.Reader.split_of_some (congrArg Except.ok hnext), ih]

theorem exists_split (buf : List UInt8) : ∃ rest lines, Split rest buf lines := by
  induction hn : buf.length using Nat.strongRecOn generalizing buf with
  | ind n ih =>
    cases hnext : nextLine buf with
    | none => exact ⟨buf, [], .last (nextLine_eq_none.1 hnext)⟩
    | some item =>
      obtain ⟨line, more⟩ := item
      obtain ⟨body, hbody, rfl, rfl⟩ := nextLine_eq_some.1 hnext
      obtain ⟨rest, lines, hmore⟩ := ih more.length (by simp at hn; omega) more rfl
      exact ⟨rest, _, .line hbody hmore⟩

theorem split_iff {rest buf : List UInt8} {lines : List (List UInt8)} :
    Split rest buf lines ↔ lineReader.split buf = (lines, .ok rest) := by
  refine ⟨Split.split_eq, fun h ↦ ?_⟩
  obtain ⟨rest', lines', hsplit⟩ := exists_split buf
  obtain ⟨rfl, hrest⟩ := Prod.mk.inj (hsplit.split_eq.symm.trans h)
  exact Except.ok.inj hrest ▸ hsplit

theorem Split.rawLines_eq {rest buf : List UInt8} {lines : List (List UInt8)}
    (h : Split rest buf lines) :
    rawLines buf = lines ++ if rest.isEmpty then [] else [rest] := by
  have hline (body more : List UInt8) (hbody : 10 ∉ body) :
      rawLines (body ++ 10 :: more) = (body ++ [10]) :: rawLines more := by
    induction body with
    | nil => rfl
    | cons b body ih =>
      rw [List.cons_append, rawLines, if_neg (List.ne_of_not_mem_cons hbody).symm,
        ih (List.not_mem_of_not_mem_cons hbody)]
      rfl
  have hlast (bytes : List UInt8) (hbytes : 10 ∉ bytes) :
      rawLines bytes = if bytes.isEmpty then [] else [bytes] := by
    induction bytes with
    | nil => rfl
    | cons b bytes ih =>
      rw [rawLines, if_neg (List.ne_of_not_mem_cons hbytes).symm,
        ih (List.not_mem_of_not_mem_cons hbytes)]
      cases bytes <;> rfl
  induction h with
  | last hrest => exact hlast rest hrest
  | line hbody _ ih => rw [hline _ _ hbody, ih, List.cons_append]

/-- What comes after the last line feed. -/
def unended (bytes : List UInt8) : List UInt8 := bytes.rtakeWhile (· != 10)

theorem Split.unended_eq {rest buf : List UInt8} {lines : List (List UInt8)}
    (h : Split rest buf lines) : unended buf = rest := by
  induction h with
  | last hrest =>
    exact List.rtakeWhile_eq_self_iff.2 fun b hb ↦ bne_iff_ne.2 (ne_of_mem_of_not_mem hb hrest)
  | @line body more lines _ _ ih =>
    rw [← ih, unended, unended, List.rtakeWhile, List.rtakeWhile, List.reverse_append,
      List.reverse_cons, List.append_assoc, List.takeWhile_append]
    split
    · rename_i hall
      rw [List.cons_append, List.takeWhile_cons_of_neg (by simp), List.append_nil,
        (List.takeWhile_prefix _).eq_of_length hall]
    · rfl

/-! ### The loop over lines -/

/-- The lines of a stream, one after another. -/
def readLines (st : Pending) (lines : List (List UInt8)) : Pending :=
  (lines.map lineText).foldl Pending.readLine st

theorem feedLoop_eq {rest buf : List UInt8} {lines : List (List UInt8)} (cursor : ℕ)
    (st : Pending) (h : Split rest (buf.drop cursor) lines) :
    ∃ cursor', feedLoop buf cursor st = (cursor', readLines st lines) ∧ buf.drop cursor' = rest := by
  generalize hinput : buf.drop cursor = input at h
  induction h generalizing cursor st with
  | last hrest =>
    have hnone : (buf.drop cursor).findIdx? (· == 10) = none := by
      rw [hinput]
      exact Option.map_eq_none_iff.1 (nextLine_eq_none.2 hrest)
    refine ⟨cursor, ?_, hinput⟩
    rw [feedLoop]
    split
    · rfl
    · rename_i rel hrel
      rw [hnone] at hrel
      cases hrel
  | @line body more lines hbody _ ih =>
    obtain ⟨rel, hrel, hitem⟩ := Option.map_eq_some_iff.1
      (nextLine_eq_some.2 ⟨body, hbody, rfl, rfl⟩ : nextLine (body ++ 10 :: more) = _)
    obtain ⟨htake, hdrop⟩ := Prod.mk.inj hitem
    rw [← hinput] at hrel htake hdrop
    rw [feedLoop]
    split
    · rename_i hnone
      rw [hnone] at hrel
      cases hrel
    · rename_i rel' hrel'
      obtain rfl : rel = rel' := Option.some.inj (hrel.symm.trans hrel')
      rw [htake]
      refine ih _ _ ?_
      rw [← hdrop, List.drop_drop, Nat.add_assoc]

theorem feed_eq {rest : List UInt8} {lines : List (List UInt8)} {p : SseParser}
    {bytes : List UInt8} (h : Split rest (p.buf ++ bytes) lines) :
    p.feed bytes = ((readLines ⟨p.dataLines, []⟩ lines).out,
      ⟨rest, (readLines ⟨p.dataLines, []⟩ lines).dataLines⟩) := by
  obtain ⟨cursor, hloop, hdrop⟩ := feedLoop_eq 0 ⟨p.dataLines, []⟩ h
  rw [SseParser.feed, hloop]
  exact Prod.ext rfl (congrArg (SseParser.mk · _) hdrop)

/-! ### Chunks -/

/-- The events that are complete already play no part in what follows. -/
theorem readLine_out (st : Pending) (line : List Char) :
    st.readLine line = ⟨(Pending.readLine ⟨st.dataLines, []⟩ line).dataLines,
      st.out ++ (Pending.readLine ⟨st.dataLines, []⟩ line).out⟩ := by
  obtain ⟨dataLines, out⟩ := st
  simp only [Pending.readLine, Pending.flush]
  split
  · cases dataLines <;> simp
  · cases dataField line with
    | some rest => simp
    | none =>
      dsimp only
      split <;> simp

theorem foldl_readLine_out (lines : List (List Char)) (st : Pending) :
    lines.foldl Pending.readLine st =
      ⟨(lines.foldl Pending.readLine ⟨st.dataLines, []⟩).dataLines,
        st.out ++ (lines.foldl Pending.readLine ⟨st.dataLines, []⟩).out⟩ := by
  induction lines generalizing st with
  | nil => simp
  | cons line lines ih =>
    rw [List.foldl_cons, List.foldl_cons, ih (st.readLine line), ih (Pending.readLine ⟨_, _⟩ line),
      readLine_out st line, List.append_assoc]

theorem readLines_append (dataLines : List (List Char)) (lines more : List (List UInt8)) :
    readLines ⟨dataLines, []⟩ (lines ++ more) =
      ⟨(readLines ⟨(readLines ⟨dataLines, []⟩ lines).dataLines, []⟩ more).dataLines,
        (readLines ⟨dataLines, []⟩ lines).out ++
          (readLines ⟨(readLines ⟨dataLines, []⟩ lines).dataLines, []⟩ more).out⟩ := by
  rw [readLines, List.map_append, List.foldl_append, foldl_readLine_out]
  rfl

/-- The lines that come in chunks are read as they would be in one. -/
theorem feeds_eq {rest : List UInt8} {lines : List (List UInt8)} {p : SseParser}
    {chunks : List (List UInt8)} (h : lineReader.feedAll p.buf chunks = .ok (lines, rest)) :
    p.feeds chunks = ((readLines ⟨p.dataLines, []⟩ lines).out,
      ⟨rest, (readLines ⟨p.dataLines, []⟩ lines).dataLines⟩) := by
  induction chunks generalizing p lines with
  | nil =>
    obtain ⟨rfl, rfl⟩ := Prod.mk.inj (Except.ok.inj h)
    rfl
  | cons chunk chunks ih =>
    obtain ⟨first, buf, more, hsplit, hfed, rfl⟩ := Framing.Reader.feedAll_cons_eq_ok.1 h
    rw [SseParser.feeds, feed_eq (split_iff.2 hsplit), ih hfed, readLines_append]

theorem feeds_flatten {rest : List UInt8} {lines : List (List UInt8)} {chunks : List (List UInt8)}
    (h : Split rest chunks.flatten lines) :
    SseParser.feeds {} chunks =
      ((readLines ⟨[], []⟩ lines).out, ⟨rest, (readLines ⟨[], []⟩ lines).dataLines⟩) :=
  feeds_eq (Framing.Reader.feedAll_eq_ok (by rfl) |>.2 h.split_eq)

/-- The cuts between the chunks do not matter. -/
theorem collect_eq {chunks chunks' : List (List UInt8)} (h : chunks.flatten = chunks'.flatten) :
    SseParser.collect {} chunks = SseParser.collect {} chunks' := by
  obtain ⟨rest, lines, hsplit⟩ := exists_split chunks.flatten
  rw [SseParser.collect, SseParser.collect, feeds_flatten hsplit, feeds_flatten (h ▸ hsplit)]

theorem finish_state (p : SseParser) : p.finish.2 = {} := by
  have hflush (st : Pending) : st.flush.dataLines = [] := by
    rw [Pending.flush]
    split
    · exact List.isEmpty_iff.1 ‹_›
    · rfl
  exact congrArg (SseParser.mk [] ·) (hflush _)

/-! ### Events -/

theorem readLine_blank (st : Pending) : st.readLine [] = st.flush := rfl

theorem readLine_of_data {line x : List Char} (hline : line ≠ []) (h : dataOf line = some x)
    (st : Pending) : st.readLine line = { st with dataLines := st.dataLines ++ [x] } := by
  rw [Pending.readLine, if_neg (by simpa using hline)]
  rw [dataOf] at h
  cases hfield : dataField line with
  | some rest =>
    rw [hfield, Option.some_or] at h
    rw [Option.some.inj h]
  | none =>
    rw [hfield, Option.none_or] at h
    split at h
    · rename_i hdata
      rw [← Option.some.inj h]
      exact if_pos hdata
    · exact nomatch h

theorem readLine_of_other {line : List Char} (hline : line ≠ []) (h : dataOf line = none)
    (st : Pending) : st.readLine line = st := by
  rw [Pending.readLine, if_neg (by simpa using hline)]
  obtain ⟨hfield, hdata⟩ := Option.or_eq_none_iff.1 h
  rw [hfield]
  exact if_neg fun heq ↦ by rw [if_pos heq] at hdata; exact nomatch hdata

/-- The groups of data lines, when some lines of the first group are known. -/
def groupsFrom (dataLines : List (List Char)) (lines : List (List Char)) : List (List Char) :=
  ((((lines.splitOnP List.isEmpty).map (List.filterMap dataOf)).modifyHead (dataLines ++ ·)).filter
    fun group ↦ !group.isEmpty).map join

theorem groupsFrom_nil (lines : List (List Char)) : groupsFrom [] lines = groupEvents lines := by
  rw [groupsFrom, groupEvents]
  congr 2
  cases (lines.splitOnP List.isEmpty).map (List.filterMap dataOf) <;> rfl

/-- Reading lines until the end gives the groups of data lines. -/
theorem flush_foldl_readLine (st : Pending) (lines : List (List Char)) :
    (lines.foldl Pending.readLine st).flush.out = st.out ++ groupsFrom st.dataLines lines := by
  induction lines generalizing st with
  | nil =>
    obtain ⟨dataLines, out⟩ := st
    cases dataLines <;> simp [groupsFrom, Pending.flush]
  | cons line lines ih =>
    obtain ⟨group, groups, hgroups⟩ := List.exists_cons_of_ne_nil
      (List.splitOnP_ne_nil List.isEmpty lines)
    rw [List.foldl_cons, ih, groupsFrom, groupsFrom, List.splitOnP_cons_eq_if_modifyHead, hgroups]
    by_cases hline : line = []
    · obtain ⟨dataLines, out⟩ := st
      rw [hline, readLine_blank]
      cases dataLines <;> simp [Pending.flush]
    · rw [if_neg (by simpa using hline)]
      cases hdata : dataOf line with
      | some x =>
        rw [readLine_of_data hline hdata]
        simp [List.filterMap_cons_some hdata]
      | none =>
        rw [readLine_of_other hline hdata]
        simp [List.filterMap_cons_none hdata]

/-! ### The whole stream -/

/-- The end of the stream ends an event, after a last line that has no ending. -/
theorem finish_out {p : SseParser} (h : lineText p.buf ≠ "data".toList) :
    p.finish.1 =
      (readLines ⟨p.dataLines, []⟩ (if p.buf.isEmpty then [] else [p.buf])).flush.out := by
  rw [SseParser.finish]
  by_cases hbuf : p.buf.isEmpty
  · rw [if_pos hbuf, if_pos hbuf]
    rfl
  · rw [if_neg hbuf, if_neg hbuf]
    show _ = (Pending.readLine ⟨p.dataLines, []⟩ (lineText p.buf)).flush.out
    by_cases hline : lineText p.buf = []
    · rw [hline, readLine_blank]
      cases p.dataLines <;> rfl
    · have hdata : dataOf (lineText p.buf) = dataField (lineText p.buf) := by
        rw [dataOf, if_neg h, Option.or_none]
      cases hfield : dataField (lineText p.buf) with
      | some x => rw [readLine_of_data hline (hdata.trans hfield)]
      | none => rw [readLine_of_other hline (hdata.trans hfield)]

theorem flush_out (st : Pending) :
    st.flush.out = st.out ++ (Pending.flush ⟨st.dataLines, []⟩).out := by
  obtain ⟨dataLines, out⟩ := st
  cases dataLines <;> simp [Pending.flush]

theorem payloads_eq {rest bytes : List UInt8} {lines : List (List UInt8)}
    (h : Split rest bytes lines) :
    payloads bytes = (readLines ⟨[], []⟩ lines).out ++
      (readLines ⟨(readLines ⟨[], []⟩ lines).dataLines, []⟩
        (if rest.isEmpty then [] else [rest])).flush.out := by
  have hall := flush_foldl_readLine ⟨[], []⟩ ((rawLines bytes).map lineText)
  rw [List.nil_append, groupsFrom_nil] at hall
  rw [payloads, ← hall]
  show (readLines ⟨[], []⟩ (rawLines bytes)).flush.out = _
  rw [h.rawLines_eq, readLines_append, flush_out, List.append_assoc, ← flush_out]

theorem join_concat_nil {dataLines : List (List Char)} (h : dataLines ≠ []) :
    join (dataLines ++ [[]]) = join dataLines ++ ['\n'] := by
  induction dataLines with
  | nil => exact absurd rfl h
  | cons line dataLines ih =>
    cases dataLines with
    | nil => simp [join, List.intercalate]
    | cons next dataLines =>
      have hrest := ih (List.cons_ne_nil _ _)
      simp only [join, List.intercalate, List.cons_append, List.intersperse_cons_cons,
        List.flatten_cons, List.append_assoc] at hrest ⊢
      rw [hrest]

/-- A last line `data` without an ending is lost. -/
theorem finish_out_ne {p : SseParser} (h : lineText p.buf = "data".toList) :
    p.finish.1 ≠
      (readLines ⟨p.dataLines, []⟩ (if p.buf.isEmpty then [] else [p.buf])).flush.out := by
  have hbuf : ¬ p.buf.isEmpty := by
    intro hempty
    rw [List.isEmpty_iff.1 hempty] at h
    exact absurd h (by decide +kernel)
  have hread (st : Pending) :
      readLines st [p.buf] = { st with dataLines := st.dataLines ++ [[]] } :=
    readLine_of_data (x := []) (h ▸ List.cons_ne_nil _ _) (by rw [h]; rfl) st
  rw [SseParser.finish, if_neg hbuf, if_neg hbuf, hread, h]
  cases hlines : p.dataLines with
  | nil => decide
  | cons line dataLines =>
    show [join (line :: dataLines)] ≠ [join (line :: dataLines ++ [[]])]
    rw [join_concat_nil (List.cons_ne_nil _ _)]
    simp

/-- What the parser owes for a stream: the events of the whole however it is cut into chunks, and
nothing left behind. -/
def Parses (bytes : List UInt8) : Prop :=
  ∀ chunks : List (List UInt8), chunks.flatten = bytes →
    SseParser.collect {} chunks = (payloads bytes, {})

/-- What is collected of a stream is the data of its events, unless the end of the stream adds
something else. -/
theorem collect_eq_payloads_iff {rest bytes : List UInt8} {lines : List (List UInt8)}
    (hsplit : Split rest bytes lines) {chunks : List (List UInt8)} (h : chunks.flatten = bytes) :
    SseParser.collect {} chunks = (payloads bytes, {}) ↔
      (SseParser.finish ⟨rest, (readLines ⟨[], []⟩ lines).dataLines⟩).1 =
        (readLines ⟨(readLines ⟨[], []⟩ lines).dataLines, []⟩
          (if rest.isEmpty then [] else [rest])).flush.out := by
  rw [SseParser.collect, feeds_flatten (h ▸ hsplit), payloads_eq hsplit, Prod.mk.injEq,
    List.append_cancel_left_eq]
  exact and_iff_left (finish_state _)

/-- A stream that does not stop within a line `data` is read as the data of its events. -/
theorem collect_of_ended {bytes : List UInt8} (h : lineText (unended bytes) ≠ "data".toList) :
    Parses bytes := by
  obtain ⟨rest, lines, hsplit⟩ := exists_split bytes
  rw [hsplit.unended_eq] at h
  exact fun chunks hchunks ↦ (collect_eq_payloads_iff hsplit hchunks).2 (finish_out h)

/-- Two ways to cut a stream give the same; it is the data of its events, unless the stream stops
within a line `data`. -/
theorem parses_iff (bytes : List UInt8) :
    (∀ chunks chunks' : List (List UInt8), chunks.flatten = bytes → chunks'.flatten = bytes →
      SseParser.collect {} chunks = SseParser.collect {} chunks' ∧
        (SseParser.collect {} chunks).2 = {}) ∧
    (Parses bytes ↔ lineText (unended bytes) ≠ "data".toList) := by
  refine ⟨fun chunks chunks' h h' ↦ ⟨collect_eq (h.trans h'.symm), finish_state _⟩, ?_,
    collect_of_ended⟩
  intro h hdata
  obtain ⟨rest, lines, hsplit⟩ := exists_split bytes
  rw [hsplit.unended_eq] at hdata
  exact finish_out_ne hdata ((collect_eq_payloads_iff hsplit (by simp)).1 (h [bytes] (by simp)))

/-- A stream that stops within a line `data` loses it. -/
theorem not_parses_unendedData : ¬ ∀ bytes : List UInt8, Parses bytes := by
  intro h
  have hlost : SseParser.collect {} ["data: a\ndata".toUTF8.toList] =
      (payloads "data: a\ndata".toUTF8.toList, {}) := h _ _ (by simp)
  exact absurd hlost (by decide +kernel)

end NextApi.Sse
