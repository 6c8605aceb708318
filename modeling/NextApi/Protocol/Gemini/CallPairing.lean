import Mathlib.Data.List.Basic
import NextApi.Json.Compact
import NextApi.Protocol.Gemini.Request

/-!
# Function responses and their calls

A request is `WellPaired` when no two calls have the same id, and every result has the id of the
oldest call of its function that is not answered yet, and of no other call before it.

The ids that wait under a name are those of the unanswered calls of that function (`Waiting`), so a
result finds its call whenever there is one. The numbers of the calls start over in every content:
a request is well paired exactly when no function is called at the same position in two contents,
and every response finds a call (`wellPaired_iff`).
-/

set_option autoImplicit false

namespace NextApi.Gemini

open Json Ir

/-! ### Ids -/

/-- What stands before the first occurrence of a character, and after it. -/
theorem append_cons_inj {c : Char} {x y a b : List Char} (hx : c ∉ x) (hy : c ∉ y)
    (h : x ++ c :: a = y ++ c :: b) : x = y ∧ a = b := by
  induction x generalizing y with
  | nil =>
    cases y with
    | nil => exact ⟨rfl, (List.cons.inj h).2⟩
    | cons d y => exact absurd ((List.cons.inj h).1 ▸ List.mem_cons_self) hy
  | cons d x ih =>
    cases y with
    | nil => exact absurd ((List.cons.inj h).1 ▸ List.mem_cons_self) hx
    | cons e y =>
      obtain ⟨hde, hrest⟩ := List.cons.inj h
      obtain ⟨hxy, hab⟩ := ih (fun hmem ↦ hx (List.mem_cons_of_mem _ hmem))
        (fun hmem ↦ hy (List.mem_cons_of_mem _ hmem)) hrest
      exact ⟨by rw [hde, hxy], hab⟩

/-- The digits after the last underscore tell the number of a call. -/
theorem callId_injective {name name' : String} {seq seq' : UInt32}
    (h : callId name seq = callId name' seq') : name = name' ∧ seq = seq' := by
  have hdigits (n : ℕ) : '_' ∉ (Nat.toDigits 10 n).reverse := by
    intro hmem
    have hdigit := Nat.isDigit_of_mem_toDigits (by decide : 0 < 10) (by decide)
      (List.mem_reverse.1 hmem)
    exact absurd hdigit (by decide)
  have hchars := congrArg (fun s ↦ s.toList.reverse) h
  simp only [callId, String.toList_append, Nat.toString_eq_ofList_toDigits, String.toList_ofList,
    List.reverse_append, List.append_assoc] at hchars
  obtain ⟨hseq, hname⟩ := append_cons_inj (hdigits seq.toNat) (hdigits seq'.toNat) hchars
  constructor
  · exact String.toList_injective (List.reverse_injective hname)
  · have hnat := congrArg (fun digits ↦ Nat.ofDigitChars 10 digits 0)
      (List.reverse_injective hseq)
    simp only [Nat.ofDigitChars_ten_toDigits] at hnat
    exact UInt32.toNat.inj hnat

/-! ### Pairing -/

/-- Every result has the id of the oldest unanswered call of its function, and that id belongs to
no other call seen before it. -/
def Paired (seen pending : List IrToolCall) : List IrMessage → Prop
  | [] => True
  | m :: rest =>
    if m.role = .tool then
      (∃ call, (pending.find? fun call ↦ some call.name = m.name) = some call ∧
        m.toolCallId = some call.id ∧ (seen.map IrToolCall.id).count call.id = 1) ∧
      Paired seen (pending.eraseP fun call ↦ some call.name = m.name) rest
    else Paired (seen ++ m.toolCalls) (pending ++ m.toolCalls) rest

/-- No two calls have the same id, and every result is paired with its own. -/
def WellPaired (messages : List IrMessage) : Prop :=
  ((messages.flatMap IrMessage.toolCalls).map IrToolCall.id).Nodup ∧ Paired [] [] messages

/-! ### What a request calls and answers -/

/-- The function that a part calls. -/
def calledName (p : Value) : Option String :=
  if p["text"].asStr = none ∧ p.get? "inlineData" = none ∧ p.get? "fileData" = none then
    (p.get? "functionCall").map fun fc ↦ fc["name"].strOrEmpty
  else none

/-- The function that a part has a response of. -/
def respondedName (p : Value) : Option String :=
  if p["text"].asStr = none ∧ p.get? "inlineData" = none ∧ p.get? "fileData" = none ∧
      p.get? "functionCall" = none then
    (p.get? "functionResponse").map fun fr ↦ fr["name"].strOrEmpty
  else none

def partsOf (c : Value) : List Value := ((c.get? "parts").bind Value.asArray).getD []

def contentsOf (v : Value) : List Value := ((v.get? "contents").bind Value.asArray).getD []

/-- The calls of a content: the function and the number of the call. -/
def callKeys (c : Value) : List (String × UInt32) :=
  ((partsOf c).filterMap calledName).zipIdx.map fun call ↦ (call.1, UInt32.ofNat call.2)

/-- Every response finds an open call of its function. -/
def Answerable (unanswered : List String) : List String → Prop
  | [] => True
  | name :: rest => name ∈ unanswered ∧ Answerable (unanswered.erase name) rest

def decidableAnswerable :
    (unanswered names : List String) → Decidable (Answerable unanswered names)
  | _, [] => .isTrue trivial
  | unanswered, name :: rest =>
    let _ := decidableAnswerable (unanswered.erase name) rest
    inferInstanceAs (Decidable (name ∈ unanswered ∧ Answerable (unanswered.erase name) rest))

instance (unanswered names : List String) : Decidable (Answerable unanswered names) :=
  decidableAnswerable unanswered names

/-- Every response of the contents finds an open call, in its own content or in one before. -/
def AllAnswerable (unanswered : List String) : List Value → Prop
  | [] => True
  | c :: rest =>
    let unanswered := unanswered ++ (callKeys c).map Prod.fst
    let responses := (partsOf c).filterMap respondedName
    Answerable unanswered responses ∧ AllAnswerable (unanswered.diff responses) rest

/-! ### Queues of ids -/

section Queues

variable {α : Type} {p q : α → Bool}

theorem filter_eraseP_self (l : List α) : (l.eraseP p).filter p = (l.filter p).tail := by
  induction l with
  | nil => rfl
  | cons a l ih =>
    by_cases h : p a = true
    · rw [List.eraseP_cons_of_pos h, List.filter_cons_of_pos h, List.tail_cons]
    · rw [List.eraseP_cons_of_neg h, List.filter_cons_of_neg h, List.filter_cons_of_neg h, ih]

theorem filter_eraseP_of_ne (h : ∀ a, p a = true → q a ≠ true) (l : List α) :
    (l.eraseP p).filter q = l.filter q := by
  induction l with
  | nil => rfl
  | cons a l ih =>
    by_cases hp : p a = true
    · rw [List.eraseP_cons_of_pos hp, List.filter_cons_of_neg (h a hp)]
    · rw [List.eraseP_cons_of_neg hp, List.filter_cons, List.filter_cons, ih]

theorem map_eraseP [DecidableEq α] {β : Type} (f : β → α) (a : α) (l : List β) :
    (l.eraseP fun b ↦ f b = a).map f = (l.map f).erase a := by
  induction l with
  | nil => rfl
  | cons b l ih =>
    by_cases h : f b = a
    · rw [List.eraseP_cons_of_pos (by simpa using h), List.map_cons, h, List.erase_cons_head]
    · rw [List.eraseP_cons_of_neg (by simpa using h), List.map_cons, List.map_cons, ih,
        List.erase_cons_tail (by simpa using h)]

end Queues

/-- The ids that wait are those of the unanswered calls. -/
def Waiting (callIds : CallIds) (pending : List IrToolCall) : Prop :=
  ∀ name, (callIds.lookup name).getD [] =
    (pending.filter fun call ↦ call.name = name).map IrToolCall.id

theorem waiting_empty : Waiting ∅ [] := by
  intro name
  rw [Table.lookup_empty]
  rfl

theorem Waiting.push {callIds : CallIds} {pending : List IrToolCall} (h : Waiting callIds pending)
    (call : IrToolCall) : Waiting (pushCall callIds call.name call.id) (pending ++ [call]) := by
  intro name
  rw [pushCall, Table.lookup_insert, List.filter_append, List.map_append, ← h name]
  by_cases hname : call.name = name
  · rw [if_pos hname, hname]
    simp [hname]
  · rw [if_neg hname]
    simp [hname]

/-- The first id of the queue is that of the oldest unanswered call. -/
theorem Waiting.pop {callIds : CallIds} {pending : List IrToolCall} (h : Waiting callIds pending)
    (name : String) :
    (popCall callIds name).1 = (pending.find? fun call ↦ call.name = name).map IrToolCall.id ∧
      Waiting (popCall callIds name).2 (pending.eraseP fun call ↦ call.name = name) := by
  have hqueue := h name
  rw [← List.head?_filter, popCall]
  cases hfilter : pending.filter fun call ↦ call.name = name with
  | nil =>
    rw [hfilter, List.map_nil] at hqueue
    have hnone : ∀ call ∈ pending, ¬ decide (call.name = name) = true := by
      intro call hcall
      exact List.filter_eq_nil_iff.1 hfilter call hcall
    rw [List.eraseP_of_forall_not hnone]
    cases hlookup : callIds.lookup name with
    | none => exact ⟨rfl, h⟩
    | some ids =>
      rw [hlookup, Option.getD_some] at hqueue
      subst hqueue
      exact ⟨rfl, h⟩
  | cons call rest =>
    rw [hfilter, List.map_cons] at hqueue
    cases hlookup : callIds.lookup name with
    | none =>
      rw [hlookup] at hqueue
      exact absurd hqueue (by simp)
    | some ids =>
      rw [hlookup, Option.getD_some] at hqueue
      subst hqueue
      refine ⟨rfl, fun other ↦ ?_⟩
      show (Table.lookup (Table.insert _ _ _) _).getD [] = _
      rw [Table.lookup_insert]
      by_cases hother : name = other
      · subst hother
        rw [if_pos rfl, filter_eraseP_self, hfilter]
        rfl
      · rw [if_neg hother, h other, filter_eraseP_of_ne]
        intro call hcall
        rw [decide_eq_true_eq] at hcall
        rw [hcall]
        simpa using hother

/-! ### Reading parts -/

/-- Nothing about calls and responses changes. -/
structure KeepsCalls (acc acc' : PartsAcc) : Prop where
  toolCalls : acc'.toolCalls = acc.toolCalls
  functionResponses : acc'.functionResponses = acc.functionResponses
  fcSeq : acc'.fcSeq = acc.fcSeq
  callIds : acc'.callIds = acc.callIds

theorem keepsCalls_parseInlineData (acc : PartsAcc) (id : Value) :
    KeepsCalls acc (parseInlineData acc id) := by
  rw [parseInlineData]
  split <;> exact ⟨rfl, rfl, rfl, rfl⟩

/-- A part calls, answers, or does neither. -/
theorem parsePart_cases [SerdeJson] (acc : PartsAcc) (p : Value) :
    (∃ fc, parsePart acc p = parseFunctionCall acc fc ∧
      calledName p = some fc["name"].strOrEmpty ∧ respondedName p = none) ∨
    (∃ fr, parsePart acc p = parseFunctionResponse acc fr ∧ calledName p = none ∧
      respondedName p = some fr["name"].strOrEmpty) ∨
    (KeepsCalls acc (parsePart acc p) ∧ calledName p = none ∧ respondedName p = none) := by
  by_cases hobject : p.isObject = true
  · cases htext : p["text"].asStr with
    | some t =>
      refine Or.inr (Or.inr ⟨?_, ?_, ?_⟩)
      · rw [parsePart, if_pos hobject, htext]
        dsimp only
        split <;> exact ⟨rfl, rfl, rfl, rfl⟩
      · rw [calledName, htext, if_neg (by simp)]
      · rw [respondedName, htext, if_neg (by simp)]
    | none =>
      rw [parsePart, if_pos hobject, htext, calledName, respondedName, htext]
      cases hinline : p.get? "inlineData" with
      | some id =>
        exact Or.inr (Or.inr ⟨keepsCalls_parseInlineData acc id, if_neg (by simp),
          if_neg (by simp)⟩)
      | none =>
        cases hfile : p.get? "fileData" with
        | some fd =>
          exact Or.inr (Or.inr ⟨⟨rfl, rfl, rfl, rfl⟩, if_neg (by simp), if_neg (by simp)⟩)
        | none =>
          cases hcall : p.get? "functionCall" with
          | some fc => exact Or.inl ⟨fc, rfl, if_pos ⟨rfl, rfl, rfl⟩, if_neg (by simp)⟩
          | none =>
            cases hresponse : p.get? "functionResponse" with
            | some fr =>
              exact Or.inr (Or.inl ⟨fr, rfl, if_pos ⟨rfl, rfl, rfl⟩, if_pos ⟨rfl, rfl, rfl, rfl⟩⟩)
            | none =>
              exact Or.inr (Or.inr ⟨⟨rfl, rfl, rfl, rfl⟩, if_pos ⟨rfl, rfl, rfl⟩,
                if_pos ⟨rfl, rfl, rfl, rfl⟩⟩)
  · refine Or.inr (Or.inr ?_)
    rw [parsePart, if_neg hobject]
    cases p with
    | obj m => exact absurd rfl hobject
    | _ => exact ⟨⟨rfl, rfl, rfl, rfl⟩, rfl, rfl⟩

/-- The calls of a list of functions, numbered from `k` on. -/
def keysFrom (k : ℕ) (names : List String) : List (String × UInt32) :=
  (names.zipIdx k).map fun call ↦ (call.1, UInt32.ofNat call.2)

/-- The function and the id of a call. -/
def labels (calls : List IrToolCall) : List (String × String) :=
  calls.map fun call ↦ (call.name, call.id)

/-- The parts of a content add their calls, with ids by their numbers, and the responses. -/
theorem parseParts [SerdeJson] (parts : List Value) (acc : PartsAcc) {k : ℕ}
    {pending : List IrToolCall} (hseq : acc.fcSeq = UInt32.ofNat k)
    (hwait : Waiting acc.callIds pending) :
    ∃ calls, (parts.foldl parsePart acc).toolCalls = acc.toolCalls ++ calls ∧
      labels calls = (keysFrom k (parts.filterMap calledName)).map
        (fun key ↦ (key.1, callId key.1 key.2)) ∧
      Waiting (parts.foldl parsePart acc).callIds (pending ++ calls) ∧
      (parts.foldl parsePart acc).functionResponses.map Prod.fst =
        acc.functionResponses.map Prod.fst ++ parts.filterMap respondedName := by
  induction parts generalizing acc k pending with
  | nil => exact ⟨[], by simp, rfl, by simpa using hwait, by simp⟩
  | cons p rest ih =>
    rw [List.foldl_cons]
    obtain ⟨fc, hstep, hcalled, hresponded⟩ | ⟨fr, hstep, hcalled, hresponded⟩ |
      ⟨hkeeps, hcalled, hresponded⟩ := parsePart_cases acc p
    · have hnext : (parseFunctionCall acc fc).fcSeq = UInt32.ofNat (k + 1) := by
        rw [UInt32.ofNat_add, ← hseq]
        rfl
      let call : IrToolCall :=
        { id := callId fc["name"].strOrEmpty acc.fcSeq
          name := fc["name"].strOrEmpty
          arguments := argsToString fc["args"] }
      obtain ⟨calls, htool, hlabels, hwait, hresponses⟩ := ih _ hnext (hwait.push call)
      rw [hstep]
      refine ⟨call :: calls, ?_, ?_, ?_, ?_⟩
      · rw [htool]
        exact List.append_assoc _ _ _
      · rw [List.filterMap_cons_some hcalled, labels, List.map_cons, keysFrom, List.zipIdx_cons,
          List.map_cons, List.map_cons, ← hseq]
        exact congrArg (List.cons _) hlabels
      · rw [List.append_assoc] at hwait
        exact hwait
      · rw [hresponses, List.filterMap_cons_none hresponded]
        rfl
    · obtain ⟨calls, htool, hlabels, hwait, hresponses⟩ :=
        ih (parseFunctionResponse acc fr) (k := k) hseq hwait
      rw [hstep]
      refine ⟨calls, htool, ?_, hwait, ?_⟩
      · rw [List.filterMap_cons_none hcalled, hlabels]
      · rw [hresponses, List.filterMap_cons_some hresponded]
        show (acc.functionResponses ++ [_]).map Prod.fst ++ _ = _
        rw [List.map_append, List.append_assoc]
        rfl
    · obtain ⟨calls, htool, hlabels, hwait, hresponses⟩ := ih _ (k := k) (hkeeps.fcSeq.trans hseq)
        (hkeeps.callIds ▸ hwait)
      refine ⟨calls, ?_, ?_, hwait, ?_⟩
      · rw [htool, hkeeps.toolCalls]
      · rw [List.filterMap_cons_none hcalled, hlabels]
      · rw [hresponses, hkeeps.functionResponses, List.filterMap_cons_none hresponded]

/-! ### Results -/

/-- The unanswered calls after responses of these functions. -/
def afterResponses (pending : List IrToolCall) (names : List String) : List IrToolCall :=
  names.foldl (fun pending name ↦ pending.eraseP fun call ↦ call.name = name) pending

theorem map_afterResponses (pending : List IrToolCall) (names : List String) :
    (afterResponses pending names).map IrToolCall.name =
      (pending.map IrToolCall.name).diff names := by
  induction names generalizing pending with
  | nil => rfl
  | cons name rest ih =>
    rw [List.diff_cons, ← map_eraseP]
    exact ih _

theorem afterResponses_subset (pending : List IrToolCall) (names : List String) :
    afterResponses pending names ⊆ pending := by
  induction names generalizing pending with
  | nil => exact List.Subset.refl _
  | cons name rest ih => exact List.Subset.trans (ih _) List.eraseP_subset

/-- Each result is paired when each response finds a call, and not otherwise. -/
theorem paired_responses (responses : List (String × String)) (acc : ContentsAcc)
    {pending : List IrToolCall} (hwait : Waiting acc.callIds pending) :
    ∃ results, (responses.foldl pushResponse acc).messages = acc.messages ++ results ∧
      results.flatMap IrMessage.toolCalls = [] ∧
      Waiting (responses.foldl pushResponse acc).callIds
        (afterResponses pending (responses.map Prod.fst)) ∧
      ∀ seen rest,
        (Paired seen pending (results ++ rest) →
          Answerable (pending.map IrToolCall.name) (responses.map Prod.fst) ∧
            Paired seen (afterResponses pending (responses.map Prod.fst)) rest) ∧
        ((seen.map IrToolCall.id).Nodup → pending ⊆ seen →
          Answerable (pending.map IrToolCall.name) (responses.map Prod.fst) →
            Paired seen (afterResponses pending (responses.map Prod.fst)) rest →
              Paired seen pending (results ++ rest)) := by
  induction responses generalizing acc pending with
  | nil =>
    exact ⟨[], by simp, rfl, hwait, fun seen rest ↦ ⟨fun h ↦ ⟨trivial, h⟩, fun _ _ _ h ↦ h⟩⟩
  | cons response responses ih =>
    obtain ⟨name, text⟩ := response
    obtain ⟨hpaired, hpopped⟩ := hwait.pop name
    obtain ⟨results, hmessages, hcalls, hwait', hrest⟩ :=
      ih (pushResponse acc (name, text)) hpopped
    refine ⟨responseMessage name text (popCall acc.callIds name).1 :: results, ?_, ?_, hwait', ?_⟩
    · rw [List.foldl_cons, hmessages]
      exact List.append_assoc _ _ _
    · rw [List.flatMap_cons, hcalls]
      rfl
    · intro seen rest
      obtain ⟨hfrom, hto⟩ := hrest seen rest
      have hfind : (pending.find? fun call ↦ some call.name = some name) =
          pending.find? fun call ↦ call.name = name := by simp
      have herase : (pending.eraseP fun call ↦ some call.name = some name) =
          pending.eraseP fun call ↦ call.name = name := by simp
      have hstep : Paired seen pending
            (responseMessage name text (popCall acc.callIds name).1 :: (results ++ rest)) ↔
          (∃ call, (pending.find? fun call ↦ call.name = name) = some call ∧
            some ((popCall acc.callIds name).1.getD name) = some call.id ∧
            (seen.map IrToolCall.id).count call.id = 1) ∧
          Paired seen (pending.eraseP fun call ↦ call.name = name) (results ++ rest) := by
        rw [Paired, if_pos (by rfl)]
        show (∃ call, (pending.find? fun call ↦ some call.name = some name) = some call ∧ _) ∧
          Paired seen (pending.eraseP fun call ↦ some call.name = some name) _ ↔ _
        rw [hfind, herase]
        rfl
      rw [List.cons_append, hstep, List.map_cons, Answerable, ← map_eraseP]
      constructor
      · rintro ⟨⟨call, hcall, -, -⟩, hpair⟩
        obtain ⟨hanswer, hpair⟩ := hfrom hpair
        refine ⟨⟨?_, hanswer⟩, hpair⟩
        have hname := List.find?_some hcall
        rw [decide_eq_true_eq] at hname
        rw [← hname]
        exact List.mem_map_of_mem (List.mem_of_find?_eq_some hcall)
      · rintro hnodup hsubset ⟨hmem, hanswer⟩ hpair
        refine ⟨?_, hto hnodup ?_ hanswer hpair⟩
        · obtain ⟨waiting, hwaiting, hname⟩ := List.mem_map.1 hmem
          cases hcall : pending.find? fun call ↦ call.name = name with
          | none =>
            have := List.find?_eq_none.1 hcall waiting hwaiting
            exact absurd hname (by simpa using this)
          | some call =>
            refine ⟨call, rfl, ?_, ?_⟩
            · rw [hpaired, hcall]
              rfl
            · exact List.count_eq_one_of_mem hnodup
                (List.mem_map_of_mem (hsubset (List.mem_of_find?_eq_some hcall)))
        · exact List.Subset.trans List.eraseP_subset hsubset

/-! ### Contents -/

/-- The functions and ids of the calls of a content. -/
def callLabels (c : Value) : List (String × String) :=
  (callKeys c).map fun key ↦ (key.1, callId key.1 key.2)

theorem parseRole_ne_tool (role : Option String) : (parseRole role).1 ≠ .tool := by
  rw [parseRole.eq_def]
  split <;> exact IrRole.noConfusion

/-- The message of a content without its responses, unless it would be empty. -/
def mainMessages (role : IrRole) (read : PartsAcc) : List IrMessage :=
  let main := mainMessage role read
  if main.content.isSome || !main.toolCalls.isEmpty || main.reasoningContent.isSome then [main]
  else []

theorem toolCalls_mainMessages (role : IrRole) (read : PartsAcc) :
    (mainMessages role read).flatMap IrMessage.toolCalls = read.toolCalls := by
  rw [mainMessages]
  split
  · exact List.append_nil _
  · next hempty =>
    simp only [Bool.or_eq_true, not_or, Bool.not_eq_true', Bool.not_eq_false,
      List.isEmpty_iff] at hempty
    exact hempty.1.2.symm

/-- A message that is no result only adds its calls. -/
theorem paired_mainMessages {role : IrRole} (h : role ≠ .tool) (read : PartsAcc)
    (seen pending : List IrToolCall) (rest : List IrMessage) :
    Paired seen pending (mainMessages role read ++ rest) ↔
      Paired (seen ++ read.toolCalls) (pending ++ read.toolCalls) rest := by
  have hcalls := toolCalls_mainMessages role read
  rw [mainMessages] at hcalls ⊢
  split at hcalls
  · next hmain =>
    have hmember : (mainMessage role read).role ≠ .tool := h
    rw [if_pos hmain, List.singleton_append, Paired, if_neg hmember]
    rfl
  · next hempty =>
    rw [if_neg hempty, ← hcalls]
    simp

theorem parseContent_ok [SerdeJson] {acc acc' : ContentsAcc} {content : Value}
    (h : parseContent acc content = .ok acc') :
    ∃ role ctx, role = (parseRole content["role"].asStr).1 ∧
      let read := (partsOf content).foldl parsePart { callIds := acc.callIds, ctx := ctx }
      acc' = read.functionResponses.foldl pushResponse
        { messages := acc.messages ++ mainMessages role read
          callIds := read.callIds
          ctx := read.ctx } := by
  rw [parseContent] at h
  by_cases hobject : content.isObject = true
  · rw [if_pos hobject] at h
    refine ⟨(parseRole content["role"].asStr).1, acc.ctx ++ (parseRole content["role"].asStr).2, rfl, ?_⟩
    have hmain (role : IrRole) (read : PartsAcc) :
        (if (mainMessage role read).content.isSome || !(mainMessage role read).toolCalls.isEmpty ||
            (mainMessage role read).reasoningContent.isSome then
          acc.messages ++ [mainMessage role read] else acc.messages) =
        acc.messages ++ mainMessages role read := by
      rw [mainMessages]
      split
      · rfl
      · exact (List.append_nil _).symm
    rw [← Except.ok.inj h]
    dsimp only
    rw [hmain]
    rfl
  · rw [if_neg hobject] at h
    exact absurd h (by simp)

theorem parseContent_paired [SerdeJson] {acc acc' : ContentsAcc} {c : Value}
    (h : parseContent acc c = .ok acc') {pending : List IrToolCall}
    (hwait : Waiting acc.callIds pending) :
    ∃ added, acc'.messages = acc.messages ++ added ∧
      labels (added.flatMap IrMessage.toolCalls) = callLabels c ∧
      let seenCalls := added.flatMap IrMessage.toolCalls
      let responses := (partsOf c).filterMap respondedName
      let pending' := afterResponses (pending ++ seenCalls) responses
      Waiting acc'.callIds pending' ∧
      ∀ seen rest,
        (Paired seen pending (added ++ rest) →
          Answerable ((pending ++ seenCalls).map IrToolCall.name) responses ∧
            Paired (seen ++ seenCalls) pending' rest) ∧
        (((seen ++ seenCalls).map IrToolCall.id).Nodup → pending ⊆ seen →
          Answerable ((pending ++ seenCalls).map IrToolCall.name) responses →
            Paired (seen ++ seenCalls) pending' rest → Paired seen pending (added ++ rest)) := by
  obtain ⟨role, ctx, hread, hacc⟩ := parseContent_ok h
  have hrole : role ≠ .tool := hread ▸ parseRole_ne_tool _
  dsimp only at hacc
  obtain ⟨calls, htool, hlabels, hwaiting, hnames⟩ :=
    parseParts (partsOf c) { callIds := acc.callIds, ctx := ctx } (k := 0) rfl hwait
  generalize (partsOf c).foldl parsePart { callIds := acc.callIds, ctx := ctx } = read at *
  rw [List.nil_append] at htool
  rw [List.map_nil, List.nil_append] at hnames
  let mid : ContentsAcc :=
    { messages := acc.messages ++ mainMessages role read, callIds := read.callIds, ctx := read.ctx }
  obtain ⟨results, hmessages, hnone, hwait', hrest⟩ :=
    paired_responses read.functionResponses mid hwaiting
  have hcalls : (mainMessages role read ++ results).flatMap IrMessage.toolCalls = calls := by
    rw [List.flatMap_append, hnone, toolCalls_mainMessages, htool, List.append_nil]
  rw [hnames] at hwait' hrest
  refine ⟨mainMessages role read ++ results, ?_, ?_, ?_⟩
  · rw [hacc, hmessages, List.append_assoc]
  · rw [hcalls, hlabels]
    rfl
  · dsimp only
    rw [hcalls]
    refine ⟨hacc ▸ hwait', fun seen rest ↦ ?_⟩
    obtain ⟨hfrom, hto⟩ := hrest (seen ++ calls) rest
    rw [List.append_assoc, paired_mainMessages hrole, htool]
    refine ⟨hfrom, fun hnodup hsubset ↦ hto hnodup ?_⟩
    exact List.append_subset.2 ⟨List.Subset.trans hsubset (List.subset_append_left _ _),
      List.subset_append_right _ _⟩

theorem parseContents_paired [SerdeJson] (contents : List Value) {acc acc' : ContentsAcc}
    (h : contents.foldlM parseContent acc = .ok acc') {pending : List IrToolCall}
    (hwait : Waiting acc.callIds pending) :
    ∃ added, acc'.messages = acc.messages ++ added ∧
      labels (added.flatMap IrMessage.toolCalls) = contents.flatMap callLabels ∧
      ∀ seen, (Paired seen pending added → AllAnswerable (pending.map IrToolCall.name) contents) ∧
        (((seen ++ added.flatMap IrMessage.toolCalls).map IrToolCall.id).Nodup → pending ⊆ seen →
          AllAnswerable (pending.map IrToolCall.name) contents → Paired seen pending added) := by
  induction contents generalizing acc pending with
  | nil =>
    obtain rfl : acc = acc' := by
      rw [List.foldlM_nil] at h
      exact Except.ok.inj h
    exact ⟨[], by simp, rfl, fun seen ↦ ⟨fun _ ↦ trivial, fun _ _ _ ↦ trivial⟩⟩
  | cons c contents ih =>
    rw [List.foldlM_cons] at h
    cases hstep : parseContent acc c with
    | error e =>
      rw [hstep] at h
      exact absurd h (by simp [bind, Except.bind])
    | ok mid =>
      rw [hstep] at h
      obtain ⟨first, hfirst, hlabels, hwait', hpaired⟩ := parseContent_paired hstep hwait
      obtain ⟨others, hothers, hlabels', hrest⟩ := ih h hwait'
      have hcalled : (callKeys c).map Prod.fst =
          (first.flatMap IrMessage.toolCalls).map IrToolCall.name := by
        have := congrArg (List.map Prod.fst) hlabels
        rw [labels, callLabels, List.map_map, List.map_map] at this
        exact this.symm
      refine ⟨first ++ others, ?_, ?_, fun seen ↦ ?_⟩
      · rw [hothers, hfirst, List.append_assoc]
      · rw [List.flatMap_append, List.flatMap_cons, ← hlabels, ← hlabels', labels, labels, labels,
          List.map_append]
      · obtain ⟨hfrom, hto⟩ := hpaired seen others
        obtain ⟨hfrom', hto'⟩ := hrest (seen ++ first.flatMap IrMessage.toolCalls)
        rw [AllAnswerable, hcalled, ← List.map_append, ← map_afterResponses]
        constructor
        · intro h
          obtain ⟨hanswer, hpair⟩ := hfrom h
          exact ⟨hanswer, hfrom' hpair⟩
        · rintro hnodup hsubset ⟨hanswer, hall⟩
          rw [List.flatMap_append, ← List.append_assoc] at hnodup
          refine hto ?_ hsubset hanswer (hto' hnodup ?_ hall)
          · rw [List.map_append] at hnodup
            exact hnodup.of_append_left
          · refine List.Subset.trans (afterResponses_subset _ _) ?_
            exact List.append_subset.2 ⟨List.Subset.trans hsubset (List.subset_append_left _ _),
      List.subset_append_right _ _⟩

/-! ### The theorem -/

theorem parseContents_eq [SerdeJson] {v : Value} {acc read : ContentsAcc}
    (h : parseContents acc (v.get? "contents") = .ok read) :
    (contentsOf v).foldlM parseContent acc = .ok read := by
  rw [contentsOf]
  cases hcontents : v.get? "contents" with
  | none =>
    rw [hcontents] at h
    exact h
  | some contents =>
    rw [hcontents, parseContents] at h
    cases harray : contents.asArray with
    | none =>
      rw [harray] at h
      exact absurd h (by simp)
    | some items =>
      rw [harray] at h
      rw [Option.bind_some, harray]
      exact h

theorem messages_readGenerationConfig (v : Value) (req : IrRequest) :
    (readGenerationConfig v req).1.messages = req.messages := by
  rw [readGenerationConfig]
  cases v.get? "generationConfig" with
  | none => rfl
  | some gc =>
    dsimp only
    rw [parseGenerationConfig]
    split <;> rfl

theorem requestToIr_ok [SerdeJson] {v : Value} {req : IrRequest} {ctx : ConvCtx}
    (h : requestToIr v = .ok (req, ctx)) :
    ∃ systemCtx read,
      (contentsOf v).foldlM parseContent { messages := (systemMessages v).1, ctx := systemCtx } =
        .ok read ∧ req.messages = read.messages := by
  cases v with
  | obj m =>
    let start : ContentsAcc := ⟨(systemMessages (.obj m)).1, ∅, (systemMessages (.obj m)).2⟩
    cases hread : parseContents start ((Value.obj m).get? "contents") with
    | error e =>
      simp only [requestToIr, Value.asObject, start, hread] at h
      exact absurd h (by simp [bind, Except.bind])
    | ok read =>
      refine ⟨(systemMessages (.obj m)).2, read, parseContents_eq hread, ?_⟩
      simp only [requestToIr, Value.asObject, start, hread] at h
      cases htools : readTools (.obj m) with
      | error e =>
        rw [htools] at h
        exact absurd h (by simp [bind, Except.bind])
      | ok tools =>
        rw [htools] at h
        rw [← (Prod.mk.inj (Except.ok.inj h)).1]
        exact messages_readGenerationConfig _ _
  | _ => exact absurd h (by simp [requestToIr, Value.asObject])

theorem systemMessages_noCalls (v : Value) :
    (systemMessages v).1.flatMap IrMessage.toolCalls = [] ∧
      ∀ rest, Paired [] [] ((systemMessages v).1 ++ rest) ↔ Paired [] [] rest := by
  have hcases : (systemMessages v).1 = [] ∨
      ∃ text, (systemMessages v).1 = [{ role := .system, content := some (.text text) }] := by
    rw [systemMessages]
    cases v.get? "systemInstruction" with
    | none => exact Or.inl rfl
    | some si =>
      have hmessage (text : String) :
          (if text = "" then [] else
            [({ role := .system, content := some (.text text) } : IrMessage)]) = [] ∨
          ∃ text', (if text = "" then [] else
            [({ role := .system, content := some (.text text) } : IrMessage)]) =
              [{ role := .system, content := some (.text text') }] := by
        split
        · exact Or.inl rfl
        · exact Or.inr ⟨text, rfl⟩
      cases si.get? "parts" with
      | none => exact hmessage _
      | some parts => exact hmessage _
  rcases hcases with hnone | ⟨text, hsystem⟩
  · rw [hnone]
    exact ⟨rfl, fun rest ↦ Iff.rfl⟩
  · rw [hsystem]
    refine ⟨rfl, fun rest ↦ ?_⟩
    rw [List.singleton_append, Paired, if_neg IrRole.noConfusion]
    rfl

/-- The ids tell the functions and the positions of the calls. -/
theorem nodup_ids_iff (contents : List Value) :
    ((contents.flatMap callLabels).map Prod.snd).Nodup ↔ (contents.flatMap callKeys).Nodup := by
  have hids : (contents.flatMap callLabels).map Prod.snd =
      (contents.flatMap callKeys).map fun key ↦ callId key.1 key.2 := by
    rw [List.map_flatMap, List.map_flatMap]
    refine List.flatMap_congr fun c _ ↦ ?_
    rw [callLabels, List.map_map]
    rfl
  rw [hids]
  refine List.nodup_map_iff fun key key' h ↦ ?_
  obtain ⟨hname, hseq⟩ := callId_injective h
  exact Prod.ext hname hseq

/-- A request is well paired exactly when no function is called at the same position in two of its
contents, and every response finds an open call. -/
theorem wellPaired_iff [SerdeJson] (v : Value) (req : IrRequest) (ctx : ConvCtx)
    (h : requestToIr v = .ok (req, ctx)) :
    WellPaired req.messages ↔
      ((contentsOf v).flatMap callKeys).Nodup ∧ AllAnswerable [] (contentsOf v) := by
  obtain ⟨systemCtx, read, hread, hmessages⟩ := requestToIr_ok h
  obtain ⟨hnone, hsystem⟩ := systemMessages_noCalls v
  obtain ⟨added, hadded, hlabels, hpaired⟩ := parseContents_paired (contentsOf v) hread waiting_empty
  obtain ⟨hfrom, hto⟩ := hpaired []
  have hids : (added.flatMap IrMessage.toolCalls).map IrToolCall.id =
      ((contentsOf v).flatMap callLabels).map Prod.snd := by
    rw [← hlabels, labels, List.map_map]
    rfl
  rw [WellPaired, hmessages, hadded, hsystem, List.flatMap_append, hnone, List.nil_append, hids,
    nodup_ids_iff]
  refine and_congr_right fun hnodup ↦ ⟨hfrom, hto ?_ (List.nil_subset _)⟩
  rw [List.nil_append, hids, nodup_ids_iff]
  exact hnodup

section Codec

local instance : SerdeJson := Compact.codec

/-- A content of the model that calls these functions. -/
def callsContent (names : List String) : Value :=
  .object [("role", .str "model"), ("parts", .arr (names.map fun name ↦
    .object [("functionCall", .object [("name", .str name)])]))]

/-- A content of the user with responses of these functions. -/
def responsesContent (names : List String) : Value :=
  .object [("role", .str "user"), ("parts", .arr (names.map fun name ↦
    .object [("functionResponse", .object [("name", .str name), ("response", .object [])])]))]

/-- The model asks for the time and twice for the weather, and later for the time again, at another
position. -/
def askTwice : Value :=
  .object [("contents", .arr [callsContent ["time", "weather", "weather"],
    responsesContent ["weather", "time", "weather"], callsContent ["weather", "time"],
    responsesContent ["time"]])]

theorem wellPaired_askTwice :
    ∃ req ctx, requestToIr askTwice = .ok (req, ctx) ∧ WellPaired req.messages := by
  have hkeys : ((contentsOf askTwice).flatMap callKeys).Nodup := by decide +kernel
  have hanswer : AllAnswerable [] (contentsOf askTwice) := by
    refine ⟨?_, ?_, ?_, ?_, trivial⟩ <;> decide +kernel
  refine ⟨_, _, rfl, ?_⟩
  exact (wellPaired_iff askTwice _ _ rfl).2 ⟨hkeys, hanswer⟩

/-- The model asks for the weather in two turns. -/
def askAgain : Value :=
  .object [("contents", .arr [callsContent ["weather"], responsesContent ["weather"],
    callsContent ["weather"], responsesContent ["weather"]])]

/-- Both calls get the same id. -/
theorem not_wellPaired_askAgain :
    ∃ req ctx, requestToIr askAgain = .ok (req, ctx) ∧
      (req.messages.flatMap IrMessage.toolCalls).map IrToolCall.id = ["weather_0", "weather_0"] ∧
      ¬ WellPaired req.messages := by
  have hids (messages : List IrMessage)
      (h : (messages.flatMap IrMessage.toolCalls).map IrToolCall.id = ["weather_0", "weather_0"]) :
      ¬ WellPaired messages := by
    intro hpaired
    rw [WellPaired, h] at hpaired
    exact absurd hpaired.1 (by decide)
  refine ⟨_, _, rfl, ?_, hids _ ?_⟩ <;> decide +kernel

end Codec

end NextApi.Gemini
