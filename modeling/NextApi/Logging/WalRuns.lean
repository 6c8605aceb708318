import NextApi.Json.Compact
import NextApi.Logging.Wal

/-!
# Runs of the write-ahead log

A run is a sequence of appends, each of which may stop after any number of bytes. `Journal` adds to
the writer's state what it reported: the events of every file whose append returned well. The log
is `Intact` when every file can be read and holds those events in order.

An append that stops in the middle of a line leaves the file without a line ending, and the next
append continues that line: its first event is lost. One that stops inside a character makes the
whole file unreadable. `Clean` excludes both, and lines that do not decode on their own: a run of
clean appends keeps the log intact (`intact_of_cleanRun`).
-/

set_option autoImplicit false

namespace NextApi.Logging

open Json Text

/-- One call of the writer, with the time it is made at and how it ends. -/
structure AppendCall where
  events : List LogEvent
  nanos : ℕ := 0
  outcome : WriteOutcome := .written

/-- The writer and, for every file, the events that were reported as written to it. -/
structure Journal where
  wal : WalWriter
  acked : WalPath → List LogEvent := fun _ ↦ []

section Runs

variable [SerdeJson] [FieldText] [Crc32]

/-- The bytes of a batch. -/
def batchBytes (events : List LogEvent) : List UInt8 := encodeUtf8 (batchText events)

/-- The file that a call writes to. -/
def AppendCall.path (call : AppendCall) (w : WalWriter) : WalPath :=
  w.appendPath (batchBytes call.events).length call.nanos

/-- One append. -/
def Journal.step (j : Journal) (call : AppendCall) : Journal :=
  let (wal, ok) := j.wal.append call.events call.nanos call.outcome
  { wal := wal
    acked := fun path ↦
      if ok ∧ path = call.path j.wal then j.acked path ++ call.events else j.acked path }

/-- A run from a writer without files. -/
def Journal.run (maxBytes : ℕ) (calls : List AppendCall) : Journal :=
  calls.foldl Journal.step { wal := { maxBytes := maxBytes } }

/-- Every file can be read, and holds in order the events that were reported as written to it. -/
def Intact (j : Journal) : Prop :=
  ∀ path, ∃ events, decodeFile (j.wal.contents path) = some events ∧
    (j.acked path).Sublist events

/-- The file starts a line: it is empty or its last byte is a line feed. -/
def AtLineStart (bytes : List UInt8) : Prop := bytes = [] ∨ bytes.getLast? = some 10

/-- The event's own line is read as the event. -/
def LineDecodes (ev : LogEvent) : Prop := decodeLine (encodeLine ev) = some ev

/-- The append writes lines that decode to a file that starts a line, and when it stops early, it
does not stop inside a character. -/
structure Clean (w : WalWriter) (call : AppendCall) : Prop where
  lines : ∀ ev ∈ call.events, LineDecodes ev
  lineStart : call.events ≠ [] → AtLineStart (w.contents (call.path w))
  whole : ∀ bytes, call.outcome = .failedAfter bytes →
    (decodeUtf8 ((batchBytes call.events).take bytes)).isSome

/-! ### What one append does -/

/-- What a write that ends so leaves of its data. -/
def WriteOutcome.cut (data : List UInt8) : WriteOutcome → List UInt8
  | .written => data
  | .noDirectory => []
  | .failedAfter bytes => data.take bytes

/-- The bytes that an append adds to its file. -/
def AppendCall.added (call : AppendCall) : List UInt8 := call.outcome.cut (batchBytes call.events)

omit [SerdeJson] [FieldText] [Crc32] in
theorem contents_writeAll (w : WalWriter) (path : WalPath) (data : List UInt8)
    (outcome : WriteOutcome) (other : WalPath) :
    (w.writeAll path data outcome).1.contents other =
      if other = path then w.contents other ++ outcome.cut data else w.contents other := by
  by_cases h : other = path
  · subst h
    rw [if_pos rfl]
    cases outcome <;> simp [WalWriter.writeAll, WalWriter.contents, WriteOutcome.cut]
  · rw [if_neg h]
    cases outcome <;> simp [WalWriter.writeAll, WalWriter.contents, Ne.symm h]

/-- An append adds its bytes to the end of one file and leaves the others; it is reported as done
when it wrote everything, or had nothing to write. -/
theorem append_spec (w : WalWriter) (call : AppendCall) :
    (∀ path, (w.append call.events call.nanos call.outcome).1.contents path =
      if path = call.path w then w.contents path ++ call.added else w.contents path) ∧
    ((w.append call.events call.nanos call.outcome).2 = true ↔
      call.events = [] ∨ call.outcome = .written) := by
  obtain ⟨events, nanos, outcome⟩ := call
  dsimp only
  unfold WalWriter.append
  split
  · rename_i hempty
    obtain rfl : events = [] := List.isEmpty_iff.1 hempty
    refine ⟨fun path ↦ ?_, by simp⟩
    have hadded : AppendCall.added ⟨[], nanos, outcome⟩ = [] := by
      cases outcome <;> simp [AppendCall.added, WriteOutcome.cut, batchBytes, batchText]
    rw [hadded, List.append_nil, ite_self]
  · rename_i hne
    have hevents : events ≠ [] := fun h ↦ hne (by rw [h]; rfl)
    dsimp only
    split
    · rename_i hout
      subst hout
      exact ⟨fun path ↦ by simp [AppendCall.added, WriteOutcome.cut], by simp [hevents]⟩
    · rename_i hout
      have hdone (target : WalWriter) (path : WalPath) :
          (target.writeAll path (encodeUtf8 (batchText events)) outcome).2 = true ↔
            outcome = .written := by
        cases outcome <;> simp [WalWriter.writeAll]
      split
      · rename_i path hnew hcur
        have hpath : AppendCall.path ⟨events, nanos, outcome⟩ w = path := by
          simp [AppendCall.path, WalWriter.appendPath, batchBytes, hnew, hcur]
        rw [hpath]
        refine ⟨fun other ↦ ?_, (hdone w path).trans (by simp [hevents])⟩
        have hcontents := contents_writeAll w path (encodeUtf8 (batchText events)) outcome other
        dsimp only
        split <;> exact hcontents
      · rename_i hnot
        have hpath : AppendCall.path ⟨events, nanos, outcome⟩ w = ⟨nanos, w.seq + 1⟩ := by
          unfold AppendCall.path WalWriter.appendPath
          dsimp only [batchBytes]
          split
          · rename_i path hnew hcur
            exact absurd hcur (hnot path hnew)
          · rfl
        rw [hpath]
        refine ⟨fun other ↦ ?_, (hdone _ _).trans (by simp [hevents])⟩
        have hcontents := contents_writeAll { w with seq := w.seq + 1 } ⟨nanos, w.seq + 1⟩
          (encodeUtf8 (batchText events)) outcome other
        dsimp only
        split <;> exact hcontents

/-- One append, seen from a file: the bytes that it adds and the events that it reports. -/
theorem step_spec (j : Journal) (call : AppendCall) (path : WalPath) :
    ((j.step call).wal.contents path = j.wal.contents path ∧
      (j.step call).acked path = j.acked path) ∨
    (path = call.path j.wal ∧ call.events ≠ [] ∧
      (j.step call).wal.contents path = j.wal.contents path ++ call.added ∧
      (j.step call).acked path =
        j.acked path ++ if call.outcome = .written then call.events else []) := by
  obtain ⟨hcontents, hok⟩ := append_spec j.wal call
  have hwal : (j.step call).wal = (j.wal.append call.events call.nanos call.outcome).1 := rfl
  have hacked : (j.step call).acked path =
      if (j.wal.append call.events call.nanos call.outcome).2 ∧ path = call.path j.wal then
        j.acked path ++ call.events else j.acked path := rfl
  simp only [hok] at hacked
  rw [hwal, hacked, hcontents path]
  by_cases hpath : path = call.path j.wal
  · by_cases hevents : call.events = []
    · refine Or.inl ⟨?_, ?_⟩
      · have hadded : call.added = [] := by
          rw [AppendCall.added, hevents]
          cases call.outcome <;> simp [WriteOutcome.cut, batchBytes, batchText]
        rw [hadded, List.append_nil, ite_self]
      · rw [hevents, List.append_nil, ite_self]
    · refine Or.inr ⟨hpath, hevents, if_pos hpath, ?_⟩
      by_cases hout : call.outcome = .written <;> simp [hpath, hevents, hout]
  · exact Or.inl ⟨if_neg hpath, if_neg fun h ↦ hpath h.2⟩

/-! ### Lines that are appended -/

/-- The checksum and the event are printed without control characters. -/
theorem clean_encodeLine [LawfulSerdeJson] (ev : LogEvent) :
    ∀ c ∈ (encodeLine ev).toList, ¬ c.toNat < 32 := by
  have hcrc (n : ℕ) : ∀ c ∈ (toString n).toList, ¬ c.toNat < 32 := by
    intro c hc
    rw [Nat.toString_eq_ofList_toDigits, String.toList_ofList] at hc
    exact Compact.clean_toDigits n c hc
  have hevent := LawfulSerdeJson.toText_oneLine ev.toValue
  intro c hc
  rw [encodeLine] at hc
  simp only [String.toList_append, List.mem_append] at hc
  rcases hc with ((((hc | hc) | hc) | hc) | hc)
  · exact Compact.clean_of_all rfl c hc
  · exact hcrc _ c hc
  · exact Compact.clean_of_all rfl c hc
  · exact hevent c hc
  · exact Compact.clean_of_all rfl c hc

theorem decodeText_append {s : List Char} (t : List Char) (h : EndsLine s) :
    decodeText (s ++ t) = decodeText s ++ decodeText t := by
  rw [decodeText, lines_append t h, List.filterMap_append, decodeText, decodeText]

/-- A line of the log is read for what it is, whatever follows. -/
theorem decodeText_line [LawfulSerdeJson] (ev : LogEvent) (s : List Char) :
    decodeText ((encodeLine ev).toList ++ ['\n'] ++ s) =
      (decodeLine (encodeLine ev)).toList ++ decodeText s := by
  have hclean := clean_encodeLine ev
  have hline : lines ((encodeLine ev).toList ++ ['\n']) = [(encodeLine ev).toList] := by
    refine lines_line (fun hmem ↦ hclean _ hmem (by decide)) fun hlast ↦ ?_
    exact hclean _ (List.mem_of_getLast? hlast) (by decide)
  rw [decodeText_append s (endsLine_line _), decodeText, hline]
  cases hdecode : decodeLine (encodeLine ev) <;> simp [String.ofList_toList, hdecode]

/-- A batch is read as its lines. -/
theorem decodeText_batchText [LawfulSerdeJson] {events : List LogEvent}
    (h : ∀ ev ∈ events, LineDecodes ev) : decodeText (batchText events) = events := by
  induction events with
  | nil => rfl
  | cons ev rest ih =>
    have hdecode : decodeLine (encodeLine ev) = some ev := h ev List.mem_cons_self
    rw [batchText, List.flatMap_cons, decodeText_line, hdecode]
    exact congrArg (ev :: ·) (ih fun e he ↦ h e (List.mem_cons_of_mem _ he))

/-! ### Runs -/

/-- Every file is the encoding of a text that holds the reported events in order. -/
def Holds (j : Journal) : Prop :=
  ∀ path, ∃ text, j.wal.contents path = encodeUtf8 text ∧
    (j.acked path).Sublist (decodeText text)

theorem Holds.intact {j : Journal} (h : Holds j) : Intact j := by
  intro path
  obtain ⟨text, hbytes, hsub⟩ := h path
  exact ⟨decodeText text, by rw [hbytes, decodeFile, decodeUtf8_encodeUtf8, Option.map_some], hsub⟩

theorem holds_init (maxBytes : ℕ) : Holds { wal := { maxBytes := maxBytes } } := by
  intro path
  exact ⟨[], by simp [WalWriter.contents], List.nil_sublist _⟩

/-- A clean append keeps the invariant at every file. -/
theorem holds_step_at [LawfulSerdeJson] {j : Journal} {call : AppendCall} {path : WalPath}
    (h : ∃ text, j.wal.contents path = encodeUtf8 text ∧ (j.acked path).Sublist (decodeText text))
    (hclean : Clean j.wal call) :
    ∃ text, (j.step call).wal.contents path = encodeUtf8 text ∧
      ((j.step call).acked path).Sublist (decodeText text) := by
  obtain ⟨text, hbytes, hsub⟩ := h
  rcases step_spec j call path with ⟨hcontents, hacked⟩ | ⟨hpath, hevents, hcontents, hacked⟩
  · exact ⟨text, by rw [hcontents, hbytes], by rw [hacked]; exact hsub⟩
  · have hstart : EndsLine text := by
      refine endsLine_of_bytes ?_
      rw [← hbytes, hpath]
      exact hclean.lineStart hevents
    -- what is written is a text, and the reported events are read from it
    obtain ⟨more, hmore, hreads⟩ : ∃ more, call.added = encodeUtf8 more ∧
        (if call.outcome = .written then call.events else []).Sublist (decodeText more) := by
      rw [AppendCall.added]
      cases hout : call.outcome with
      | written =>
        refine ⟨batchText call.events, rfl, ?_⟩
        rw [if_pos rfl, decodeText_batchText hclean.lines]
      | noDirectory => exact ⟨[], rfl, List.nil_sublist _⟩
      | failedAfter bytes =>
        obtain ⟨more, hmore⟩ := Option.isSome_iff_exists.1 (hclean.whole bytes hout)
        exact ⟨more, (encodeUtf8_of_decodeUtf8 hmore).symm, List.nil_sublist _⟩
    refine ⟨text ++ more, by rw [hcontents, hbytes, hmore, encodeUtf8_append], ?_⟩
    rw [hacked, decodeText_append more hstart]
    exact hsub.append hreads

/-- A clean append keeps the invariant. -/
theorem holds_step [LawfulSerdeJson] {j : Journal} {call : AppendCall} (h : Holds j)
    (hclean : Clean j.wal call) : Holds (j.step call) :=
  fun path ↦ holds_step_at (h path) hclean

/-- Every append of the run is clean in the state that it finds. -/
def CleanRun (j : Journal) : List AppendCall → Prop
  | [] => True
  | call :: rest => Clean j.wal call ∧ CleanRun (j.step call) rest

theorem holds_run [LawfulSerdeJson] {j : Journal} {calls : List AppendCall} (h : Holds j)
    (hclean : CleanRun j calls) : Holds (calls.foldl Journal.step j) := by
  induction calls generalizing j with
  | nil => exact h
  | cons call rest ih =>
    rw [List.foldl_cons]
    exact ih (holds_step h hclean.1) hclean.2

/-- A run of clean appends keeps the log intact. -/
theorem intact_of_cleanRun [LawfulSerdeJson] (maxBytes : ℕ) (calls : List AppendCall)
    (h : CleanRun { wal := { maxBytes := maxBytes } } calls) :
    Intact (Journal.run maxBytes calls) :=
  (holds_run (holds_init maxBytes) h).intact

/-! ### A retry -/

theorem batchText_singleton (ev : LogEvent) :
    batchText [ev] = (encodeLine ev).toList ++ ['\n'] :=
  List.append_nil _

theorem atLineStart_batch (ev : LogEvent) : AtLineStart (encodeUtf8 (batchText [ev])) := by
  refine Or.inr ?_
  rw [batchText_singleton, encodeUtf8_append, List.getLast?_append]
  rfl

/-- An event that is appended, and appended again after a failure that wrote nothing. -/
def retried (ev : LogEvent) (bytes : ℕ) : List AppendCall :=
  [{ events := [ev] }, { events := [ev], outcome := .failedAfter bytes }, { events := [ev] }]

/-- The only file of such a run. -/
def onlyFile : WalPath := ⟨0, 1⟩

/-- A journal whose active file is the only one, without a limit. -/
structure Active (j : Journal) (bytes : List UInt8) (events : List LogEvent) : Prop where
  maxBytes : j.wal.maxBytes = 0
  curPath : j.wal.curPath = some onlyFile
  contents : j.wal.contents onlyFile = bytes
  acked : j.acked onlyFile = events

theorem active_first (ev : LogEvent) :
    Active (Journal.step { wal := { maxBytes := 0 } } { events := [ev] }) (batchBytes [ev])
      [ev] := by
  have happend : WalWriter.append { maxBytes := 0 } [ev] 0 .written =
      ({ maxBytes := 0, files := Table.insert ∅ onlyFile (batchBytes [ev]),
         curPath := some onlyFile, curSize := (batchBytes [ev]).length, seq := 1 }, true) := by
    simp [WalWriter.append, WalWriter.needNew, WalWriter.writeAll, WalWriter.contents, batchBytes,
      onlyFile]
  constructor
  · rw [Journal.step, happend]
  · rw [Journal.step, happend]
  · rw [Journal.step, happend]
    simp [WalWriter.contents]
  · rw [Journal.step, happend]
    simp [AppendCall.path, WalWriter.appendPath, WalWriter.needNew, onlyFile]

/-- Without a limit every further append goes to the active file. -/
theorem Active.step {j : Journal} {bytes : List UInt8} {events : List LogEvent}
    (h : Active j bytes events) (call : AppendCall) (hne : call.events ≠ []) :
    call.path j.wal = onlyFile ∧ Active (j.step call) (bytes ++ call.added)
      (events ++ if call.outcome = .written then call.events else []) := by
  have hnew (n : ℕ) : j.wal.needNew n = false := by
    rw [WalWriter.needNew, h.curPath]
    simp [shouldRoll, h.maxBytes]
  have hpath : call.path j.wal = onlyFile := by
    simp [AppendCall.path, WalWriter.appendPath, hnew, h.curPath]
  have hframe : (j.step call).wal.maxBytes = 0 ∧ (j.step call).wal.curPath = some onlyFile := by
    show (j.wal.append call.events call.nanos call.outcome).1.maxBytes = 0 ∧
      (j.wal.append call.events call.nanos call.outcome).1.curPath = some onlyFile
    unfold WalWriter.append
    split
    · exact ⟨h.maxBytes, h.curPath⟩
    · dsimp only
      split
      · exact ⟨h.maxBytes, h.curPath⟩
      · simp only [hnew, h.curPath]
        cases call.outcome <;> exact ⟨h.maxBytes, h.curPath⟩
  obtain ⟨hcontents, hok⟩ := append_spec j.wal call
  have hacked : (j.step call).acked onlyFile =
      if (j.wal.append call.events call.nanos call.outcome).2 ∧ onlyFile = call.path j.wal then
        j.acked onlyFile ++ call.events else j.acked onlyFile := rfl
  refine ⟨hpath, hframe.1, hframe.2, ?_, ?_⟩
  · exact (hcontents onlyFile).trans (by rw [if_pos hpath.symm, h.contents])
  · simp only [hok, hpath, hne, false_or, and_true, h.acked] at hacked
    rw [hacked]
    split <;> simp

theorem cleanRun_retried {ev : LogEvent} (h : LineDecodes ev) :
    CleanRun { wal := { maxBytes := 0 } } (retried ev 0) := by
  have hlines : ∀ e ∈ [ev], LineDecodes e := fun e he ↦ List.mem_singleton.1 he ▸ h
  have hsecond : CleanRun (Journal.step { wal := { maxBytes := 0 } } { events := [ev] })
      [{ events := [ev], outcome := .failedAfter 0 }, { events := [ev] }] := by
    obtain ⟨hpath, hthird⟩ := (active_first ev).step
      { events := [ev], outcome := .failedAfter 0 } (List.cons_ne_nil _ _)
    obtain ⟨hpath', -⟩ := hthird.step { events := [ev] } (List.cons_ne_nil _ _)
    refine ⟨⟨hlines, fun _ ↦ ?_, fun bytes hout ↦ ?_⟩, ⟨hlines, fun _ ↦ ?_, fun bytes hout ↦ ?_⟩,
      trivial⟩
    · rw [hpath, (active_first ev).contents]
      exact atLineStart_batch ev
    · rw [← WriteOutcome.failedAfter.inj hout, List.take_zero, ← encodeUtf8_nil,
        decodeUtf8_encodeUtf8]
      rfl
    · rw [hpath', hthird.contents, AppendCall.added, WriteOutcome.cut, List.take_zero,
        List.append_nil]
      exact atLineStart_batch ev
    · exact absurd hout WriteOutcome.noConfusion
  refine ⟨⟨hlines, fun _ ↦ Or.inl ?_, fun bytes hout ↦ ?_⟩, hsecond⟩
  · simp [WalWriter.contents]
  · exact absurd hout WriteOutcome.noConfusion

/-- The first byte of a line. -/
theorem take_one_batch (ev : LogEvent) :
    (encodeUtf8 (batchText [ev])).take 1 = encodeUtf8 ['\x7b'] := by
  rw [batchText_singleton, encodeLine]
  simp only [String.toList_append, List.append_assoc]
  rfl

end Runs

/-! ### Two runs -/

section Concrete

/-- One bit of the checksum. -/
def crcBit (crc : UInt32) : UInt32 :=
  if crc &&& 1 = 1 then (crc >>> 1) ^^^ 0xEDB88320 else crc >>> 1

/-- The CRC-32 of the IEEE standard. -/
def crc32 (bytes : List UInt8) : UInt32 :=
  bytes.foldl (fun crc b ↦ Nat.repeat crcBit 8 (crc ^^^ b.toUInt32)) 0xFFFFFFFF ^^^ 0xFFFFFFFF

example : crc32 [49, 50, 51, 52, 53, 54, 55, 56, 57] = 0xCBF43926 := by decide +kernel

local instance : SerdeJson := Compact.codec

local instance : LawfulSerdeJson := Compact.codec_lawful

local instance : Crc32 := ⟨crc32⟩

/-- The two members of a line are in order. -/
theorem normalize_line {n : ℕ} {v : Value} (h : v.normalize = v) :
    (Value.obj [("crc", .ofNat n), ("event", v)]).normalize =
      .obj [("crc", .ofNat n), ("event", v)] := by
  have hsorted : Map.Sorted [("crc", .ofNat n), ("event", v)] :=
    Map.sorted_cons.2 ⟨by
      intro key hkey
      rw [List.mem_singleton.1 hkey]
      show ("crc" : String) < "event"
      decide, Map.sorted_cons.2 ⟨by simp [Map.keys], Map.sorted_nil⟩⟩
  show Value.obj (Map.ofList [("crc", .ofNat n), ("event", v.normalize)]) = _
  rw [h, Map.ofList_of_sorted hsorted]

/-- The text of an object of a number and a document. -/
theorem compact_line (n : ℕ) {v : Value} (h : v.normalize = v) :
    Compact.codec.toText (.obj [("crc", .ofNat n), ("event", v)]) =
      "\x7b\"crc\":" ++ toString n ++ ",\"event\":" ++ Compact.codec.toText v ++ "\x7d" := by
  have hnat : Compact.printInt (n : ℤ) = (toString n).toList := by
    rw [Compact.printInt, if_neg (by omega), Int.natAbs_natCast, Nat.toString_eq_ofList_toDigits,
      String.toList_ofList]
  have hcrc : Compact.printString "crc" = "\"crc\"".toList := by decide +kernel
  have hevent : Compact.printString "event" = "\"event\"".toList := by decide +kernel
  have hprint : (Compact.codec.toText v).toList = Compact.print v :=
    String.toList_ofList.trans (congrArg Compact.print h)
  have htext : Compact.print (Value.normalize (.obj [("crc", .ofNat n), ("event", v)])) =
      "\x7b\"crc\":".toList ++ (toString n).toList ++ ",\"event\":".toList ++
        Compact.print v ++ "\x7d".toList := by
    rw [normalize_line h]
    simp only [Compact.print, Compact.printMembers, Value.ofNat, hcrc, hevent, hnat,
      List.append_assoc]
    simp
  show String.ofList _ = _
  rw [← String.toList_inj, String.toList_ofList, htext]
  simp only [String.toList_append, hprint]

/-- With the compact codec the line of an event is the text of an object of two members. -/
theorem encodeLine_compact [FieldText] {ev : LogEvent} (h : ev.toValue.normalize = ev.toValue) :
    encodeLine ev = Compact.codec.toText
      (.obj [("crc", .ofNat (textCrc (SerdeJson.toText ev.toValue)).toNat),
        ("event", ev.toValue)]) :=
  (compact_line _ h).symm

/-- An event that its JSON form gives back has a line that decodes. -/
theorem lineDecodes_compact [FieldText] {ev : LogEvent}
    (hnormal : ev.toValue.normalize = ev.toValue) (h : LogEvent.ofValue ev.toValue = some ev) :
    LineDecodes ev := by
  have htext := Compact.ofText_toText (.obj
    [("crc", .ofNat (textCrc (SerdeJson.toText ev.toValue)).toNat), ("event", ev.toValue)])
  rw [← encodeLine_compact hnormal, normalize_line hnormal] at htext
  have hcrc : textCrc (SerdeJson.toText ev.toValue) =
      UInt32.ofNat (textCrc (SerdeJson.toText ev.toValue)).toNat := UInt32.ofNat_toNat.symm
  show decodeLine (encodeLine ev) = some ev
  unfold decodeLine
  rw [htext]
  simp [← hcrc, h]

/-- The text forms of the first ten seconds; the events below have no ids and no decimals. -/
local instance : FieldText where
  formatTime t := "1970-01-01T00:00:0" ++ toString (t / 10 ^ 9) ++ "Z"
  parseTime text := (text.toList.getLast?.bind fun _ ↦ text.toList.dropLast.getLast?).map
    fun c ↦ (c.toNat - 48 : ℕ) * 10 ^ 9
  formatUuid _ := ""
  parseUuid _ := none
  formatDecimal _ := ""
  parseDecimal _ := none

theorem lineDecodes_eventAt : LineDecodes (eventAt 3) := by
  have hnormal : (eventAt 3).toValue.normalize = (eventAt 3).toValue := by decide +kernel
  have hback : LogEvent.ofValue (eventAt 3).toValue = some (eventAt 3) := by decide +kernel
  exact lineDecodes_compact hnormal hback

section AnyEvent

variable [FieldText]

/-- A line that starts with two braces is none. -/
theorem decodeLine_torn (ev : LogEvent) :
    decodeLine (String.ofList ('\x7b' :: (encodeLine ev).toList)) = none := by
  obtain ⟨rest, hrest⟩ : ∃ rest, (encodeLine ev).toList = '\x7b' :: rest := by
    rw [encodeLine]
    simp only [String.toList_append, List.append_assoc]
    exact ⟨_, rfl⟩
  have hread : Compact.read ('\x7b' :: '\x7b' :: rest) = .error "expected value" := rfl
  have htext : SerdeJson.ofText (String.ofList ('\x7b' :: (encodeLine ev).toList)) =
      .error "expected value" := by
    rw [hrest]
    show Compact.read (String.ofList _).toList = _
    rw [String.toList_ofList, hread]
  rw [decodeLine, htext]

/-- A batch behind a brace that was left behind. -/
theorem decodeText_torn (ev : LogEvent) : decodeText ('\x7b' :: batchText [ev]) = [] := by
  have hclean := clean_encodeLine ev
  have hline : lines ('\x7b' :: (encodeLine ev).toList ++ ['\n']) =
      ['\x7b' :: (encodeLine ev).toList] := by
    refine lines_line (fun hmem ↦ ?_) fun hlast ↦ ?_
    · rcases List.mem_cons.1 hmem with h | hmem
      · exact absurd h (by decide)
      · exact hclean _ hmem (by decide)
    · rcases List.mem_cons.1 (List.mem_of_getLast? hlast) with h | hmem
      · exact absurd h (by decide)
      · exact hclean _ hmem (by decide)
  rw [decodeText, batchText_singleton, ← List.cons_append, hline,
    List.filterMap_cons, decodeLine_torn, List.filterMap_nil]

theorem torn_not_intact {ev : LogEvent} (h : LineDecodes ev) :
    ¬ Intact (Journal.run 0 (retried ev 1)) := by
  obtain ⟨-, hsecond⟩ := (active_first ev).step
    { events := [ev], outcome := .failedAfter 1 } (List.cons_ne_nil _ _)
  obtain ⟨-, hthird⟩ := hsecond.step { events := [ev] } (List.cons_ne_nil _ _)
  intro hintact
  obtain ⟨events, hdecode, hsub⟩ := hintact onlyFile
  have hbytes : (Journal.run 0 (retried ev 1)).wal.contents onlyFile =
      encodeUtf8 (batchText [ev] ++ '\x7b' :: batchText [ev]) := by
    refine hthird.contents.trans ?_
    show batchBytes [ev] ++ (batchBytes [ev]).take 1 ++ batchBytes [ev] = _
    rw [batchBytes, take_one_batch, ← encodeUtf8_append, ← encodeUtf8_append, List.append_assoc]
    rfl
  have hends : EndsLine (batchText [ev]) := by
    rw [batchText_singleton]
    exact endsLine_line _
  have hone : ∀ e ∈ [ev], LineDecodes e := fun e he ↦ List.mem_singleton.1 he ▸ h
  rw [hbytes, decodeFile, decodeUtf8_encodeUtf8, Option.map_some, decodeText_append _ hends,
    decodeText_batchText hone, decodeText_torn] at hdecode
  have hacked : (Journal.run 0 (retried ev 1)).acked onlyFile = [ev, ev] := hthird.acked
  have hlength := hsub.length_le
  rw [hacked, ← Option.some.inj hdecode] at hlength
  exact absurd hlength (by simp)

end AnyEvent

/-- A failed append that wrote nothing loses nothing. -/
theorem intact_retried : Intact (Journal.run 0 (retried (eventAt 3) 0)) :=
  intact_of_cleanRun 0 _ (cleanRun_retried lineDecodes_eventAt)

/-- A failed append that wrote one byte loses the next one, which is reported as done. -/
theorem not_intact_torn : ¬ Intact (Journal.run 0 (retried (eventAt 3) 1)) :=
  torn_not_intact lineDecodes_eventAt

end Concrete

end NextApi.Logging
