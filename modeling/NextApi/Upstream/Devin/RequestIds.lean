import NextApi.Json.Compact
import NextApi.Upstream.Devin.Request

/-!
# The ids of a session

The ids of a request are drawn from its whole input, which is another one in every turn: what the
printer prints for a longer list is another text (`sessionSeed_ne_of_extension`). So a request and
one that goes on with the conversation have the same ids only by a collision of the hash
(`collides_of_sameIds`). Conversations that differ in any message have different seeds.
-/

set_option autoImplicit false

namespace NextApi.Devin

open Json

/-! ### Ids of bytes -/

theorem hexDigits_injective {s t : List UInt8} (h : hexDigits s = hexDigits t) : s = t := by
  induction s generalizing t with
  | nil =>
    cases t with
    | nil => rfl
    | cons b t => exact nomatch h
  | cons b s ih =>
    cases t with
    | nil => exact nomatch h
    | cons d t =>
      rw [hexDigits, hexDigits, List.flatMap_cons, List.flatMap_cons, List.cons_append,
        List.cons_append, List.cons_append, List.cons_append, List.nil_append, List.nil_append,
        List.cons.injEq, List.cons.injEq] at h
      obtain ⟨hhigh, hlow, hrest⟩ := h
      have hdigit (b : UInt8) : b.toNat / 16 < 16 ∧ b.toNat % 16 < 16 := by
        have hb := b.toNat_lt
        omega
      have hhigh' := congrArg Compact.digitVal hhigh
      have hlow' := congrArg Compact.digitVal hlow
      rw [Compact.digitVal_digitChar (hdigit b).1, Compact.digitVal_digitChar (hdigit d).1]
        at hhigh'
      rw [Compact.digitVal_digitChar (hdigit b).2, Compact.digitVal_digitChar (hdigit d).2]
        at hlow'
      have hbyte : b = d := UInt8.toNat_inj.1 (by omega)
      rw [hbyte, ih hrest]

theorem not_dash_of_mem_hexDigits {bytes : List UInt8} {ch : Char} (h : ch ∈ hexDigits bytes) :
    ch ≠ '-' := by
  obtain ⟨b, -, hch⟩ := List.mem_flatMap.1 h
  have hdigit (n : ℕ) (hn : n < 16) : Nat.digitChar n ≠ '-' := by
    revert n
    decide
  have hb := b.toNat_lt
  rcases List.mem_cons.1 hch with rfl | hch
  · exact hdigit _ (by omega)
  · rw [List.mem_singleton.1 hch]
    exact hdigit _ (by omega)

section Ids

variable [Sha256]

/-- Without its dashes an id is the digits of its bytes. -/
theorem filter_detUuid (seed : String) :
    (detUuid seed).toList.filter (fun ch ↦ decide (ch ≠ '-')) = hexDigits (idBytes seed) := by
  rw [detUuid, String.toList_ofList]
  generalize hhex : hexDigits (idBytes seed) = hex
  have hkeep (part : List Char) (h : part.Sublist hex) :
      part.filter (fun ch ↦ decide (ch ≠ '-')) = part :=
    List.filter_eq_self.2 fun ch hch ↦
      decide_eq_true (not_dash_of_mem_hexDigits (hhex ▸ h.subset hch))
  have htake (n m : ℕ) : ((hex.drop n).take m).Sublist hex :=
    (List.take_sublist _ _).trans (List.drop_sublist _ _)
  have hdash : ['-'].filter (fun ch ↦ decide (ch ≠ '-')) = [] := by decide
  simp only [List.filter_append, hkeep _ (htake _ _), hkeep _ (List.take_sublist _ _),
    hkeep _ (List.drop_sublist _ _), hdash, List.append_nil]
  have hjoin (n m : ℕ) (rest : List Char) (hrest : rest = hex.drop (n + m)) :
      (hex.drop n).take m ++ rest = hex.drop n := by
    rw [hrest, ← List.drop_drop, List.take_append_drop]
  rw [List.append_assoc, List.append_assoc, List.append_assoc, hjoin 16 4 _ rfl, hjoin 12 4 _ rfl,
    hjoin 8 4 _ rfl, List.take_append_drop]

/-- An id shows all its bytes. -/
theorem detUuid_eq_iff {s t : String} : detUuid s = detUuid t ↔ idBytes s = idBytes t := by
  constructor
  · intro h
    refine hexDigits_injective ?_
    rw [← filter_detUuid, h, filter_detUuid]
  · intro h
    rw [detUuid, detUuid, h]

end Ids

/-! ### Seeds -/

/-- Documents that are printed alike are alike but for the order of their members. -/
class PrintsApart [SerdeJson] : Prop where
  normalize_of_toText {v w : Value} : SerdeJson.toText v = SerdeJson.toText w →
    v.normalize = w.normalize

section Seeds

variable [SerdeJson] [PrintsApart]

/-- Seeds for one model are as different as the inputs. -/
theorem normalize_of_sessionSeed {body₁ body₂ v w : Value} {modelUid : String}
    (h₁ : body₁.get? "input" = some v) (h₂ : body₂.get? "input" = some w)
    (h : sessionSeed body₁ modelUid = sessionSeed body₂ modelUid) : v.normalize = w.normalize := by
  rw [sessionSeed, sessionSeed, h₁, h₂, Option.getD_some, Option.getD_some] at h
  have happend (text : String) :
      (modelUid ++ ":" ++ text).toList = (modelUid ++ ":").toList ++ text.toList :=
    String.toList_append
  have hlist := congrArg String.toList h
  rw [happend, happend, List.append_cancel_left_eq] at hlist
  exact PrintsApart.normalize_of_toText (String.toList_injective hlist)

omit [SerdeJson] [PrintsApart] in
theorem length_normalizeItems (items : List Value) :
    (Value.normalizeItems items).length = items.length := by
  induction items with
  | nil => rfl
  | cons v rest ih => rw [Value.normalizeItems, List.length_cons, List.length_cons, ih]

/-- A longer conversation has another seed. -/
theorem sessionSeed_ne_of_extension {body₁ body₂ : Value} {items ext : List Value}
    (h₁ : body₁.get? "input" = some (.arr items))
    (h₂ : body₂.get? "input" = some (.arr (items ++ ext))) (hext : ext ≠ []) (modelUid : String) :
    sessionSeed body₁ modelUid ≠ sessionSeed body₂ modelUid := by
  intro h
  have hitems := Value.arr.inj (normalize_of_sessionSeed h₁ h₂ h)
  have hlength := congrArg List.length hitems
  rw [length_normalizeItems, length_normalizeItems, List.length_append] at hlength
  exact hext (List.length_eq_zero_iff.1 (by omega))

end Seeds

/-! ### The ids of a request -/

/-- Fields of other numbers are passed over. -/
theorem Fields.get?_append {front back : Fields} {number : ℕ}
    (h : ∀ field ∈ front, field.1 ≠ number) :
    Fields.get? (front ++ back) number = Fields.get? back number := by
  have hnone : front.find? (fun field ↦ decide (field.1 = number)) = none :=
    List.find?_eq_none.2 fun field hfield ↦ by simpa using h field hfield
  rw [Fields.get?, List.find?_append, hnone, Option.none_or, Fields.get?]

/-- A field of the message in a field. -/
def Fields.at? (fields : Fields) (number inner : ℕ) : Option Wire :=
  match fields.get? number with
  | some (.msg sub) => Fields.get? sub inner
  | _ => none

/-- Two requests with the same ids: of the trajectory, of the execution, of the session and of every
message at the same place with the same content. -/
structure SameIds (r₁ r₂ : Fields) : Prop where
  trajectory : r₁.at? 15 1 = r₂.at? 15 1
  execution : r₁.get? 16 = r₂.get? 16
  codename : r₁.get? 28 = r₂.get? 28
  messages : ∀ (i : ℕ) (m₁ m₂ : Fields), (r₁.getAll 3)[i]? = some (.msg m₁) →
    (r₂.getAll 3)[i]? = some (.msg m₂) → m₁.tail = m₂.tail → m₁.get? 1 = m₂.get? 1

section Requests

variable [SerdeJson] [Sha256] [CliPrompt]

/-- A list of items always makes a request, and its trajectory is drawn from the seed. -/
theorem exists_request (env : Environment) (fingerprint : String) {body : Value}
    {items : List Value} (h : body.get? "input" = some (.arr items)) (modelUid token : String)
    (opts : RequestOptions) :
    ∃ r, buildChatRequestEx env fingerprint body modelUid token opts = .ok r ∧
      r.at? 15 1 = some (.str (detUuid (sessionSeed body modelUid ++ ":traj"))) := by
  rw [buildChatRequestEx, h, Option.getD_some, inputToMessages]
  refine ⟨_, rfl, ?_⟩
  rw [Fields.at?, Fields.get?_append]
  · rfl
  · intro field hfield
    simp only [List.mem_append, List.mem_map, List.mem_cons, List.not_mem_nil, or_false] at hfield
    rcases hfield with (((rfl | rfl) | ⟨_, _, rfl⟩) | (rfl | rfl)) | ⟨_, _, rfl⟩
    all_goals exact of_decide_eq_true rfl

/-- A request that goes on with a conversation has the ids of the shorter one only by a collision of
the hash: the texts that the ids of their trajectories are drawn from are different. -/
theorem collides_of_sameIds [PrintsApart] {body₁ body₂ : Value} {items ext : List Value}
    (h₁ : body₁.get? "input" = some (.arr items))
    (h₂ : body₂.get? "input" = some (.arr (items ++ ext))) (hext : ext ≠ [])
    (env₁ env₂ : Environment) (fingerprint₁ fingerprint₂ modelUid token₁ token₂ : String)
    (opts : RequestOptions) :
    ∃ r₁ r₂, buildChatRequestEx env₁ fingerprint₁ body₁ modelUid token₁ opts = .ok r₁ ∧
      buildChatRequestEx env₂ fingerprint₂ body₂ modelUid token₂ opts = .ok r₂ ∧
      sessionSeed body₁ modelUid ++ ":traj" ≠ sessionSeed body₂ modelUid ++ ":traj" ∧
      (SameIds r₁ r₂ → idBytes (sessionSeed body₁ modelUid ++ ":traj") =
        idBytes (sessionSeed body₂ modelUid ++ ":traj")) := by
  obtain ⟨r₁, hr₁, htraj₁⟩ := exists_request env₁ fingerprint₁ h₁ modelUid token₁ opts
  obtain ⟨r₂, hr₂, htraj₂⟩ := exists_request env₂ fingerprint₂ h₂ modelUid token₂ opts
  refine ⟨r₁, r₂, hr₁, hr₂, fun htext ↦ ?_, fun hsame ↦ ?_⟩
  · have hlist := congrArg String.toList htext
    rw [String.toList_append, String.toList_append, List.append_cancel_right_eq] at hlist
    exact sessionSeed_ne_of_extension h₁ h₂ hext modelUid (String.toList_injective hlist)
  · have hid := hsame.trajectory
    rw [htraj₁, htraj₂] at hid
    exact detUuid_eq_iff.1 (Wire.str.inj (Option.some.inj hid))

end Requests

/-! ### A conversation -/

local instance sessionCodec : SerdeJson := Compact.codec

local instance sessionCodec_apart : PrintsApart where
  normalize_of_toText {v w} h := by
    have hread := congrArg Compact.codec.ofText h
    rw [Compact.ofText_toText, Compact.ofText_toText] at hread
    exact Except.ok.inj hread

local instance noHeadPrompt : CliPrompt := ⟨[]⟩

def firstSeed : String := "m:[\x7b\"content\":\"hi\",\"role\":\"user\"\x7d]"

def secondSeed : String :=
  "m:[\x7b\"content\":\"hi\",\"role\":\"user\"\x7d," ++
    "\x7b\"content\":\"yo\",\"role\":\"assistant\"\x7d]"

/-- The digests of the texts that the two turns below are drawn from. -/
def turnDigests : List (String × Vector UInt8 32) :=
  [ (firstSeed,
      #v[66, 31, 25, 147, 220, 137, 184, 189, 14, 76, 144, 40, 3, 69, 122, 135, 142, 144, 99, 128,
        138, 65, 1, 36, 181, 120, 65, 248, 37, 27, 130, 108]),
    (firstSeed ++ ":traj",
      #v[102, 245, 87, 204, 118, 120, 130, 178, 244, 249, 89, 49, 192, 90, 249, 48, 45, 201, 55,
        240, 203, 223, 47, 104, 68, 138, 202, 189, 120, 167, 115, 234]),
    (firstSeed ++ ":exec",
      #v[191, 99, 154, 54, 223, 68, 214, 111, 33, 34, 128, 223, 134, 222, 192, 66, 214, 142, 239,
        10, 208, 41, 93, 219, 231, 195, 17, 54, 68, 165, 191, 113]),
    (firstSeed ++ ":msg:0",
      #v[95, 146, 145, 53, 157, 88, 180, 65, 116, 198, 131, 144, 74, 100, 163, 120, 237, 161, 127,
        224, 57, 26, 126, 83, 146, 67, 247, 46, 187, 23, 139, 88]),
    (secondSeed,
      #v[67, 26, 10, 108, 139, 164, 107, 184, 111, 221, 28, 20, 53, 51, 6, 79, 87, 219, 36, 151,
        139, 74, 38, 192, 163, 233, 95, 31, 86, 29, 108, 110]),
    (secondSeed ++ ":traj",
      #v[202, 0, 44, 245, 244, 138, 230, 171, 147, 179, 219, 91, 178, 113, 189, 195, 154, 80, 226,
        224, 83, 154, 125, 45, 207, 152, 112, 89, 170, 167, 49, 205]),
    (secondSeed ++ ":exec",
      #v[208, 69, 138, 226, 52, 181, 180, 254, 166, 106, 62, 47, 89, 202, 147, 159, 97, 213, 16,
        193, 56, 63, 161, 241, 56, 118, 42, 51, 97, 155, 62, 113]),
    (secondSeed ++ ":msg:0",
      #v[145, 37, 192, 2, 122, 61, 24, 207, 45, 3, 188, 83, 80, 162, 206, 120, 42, 49, 221, 119,
        87, 147, 238, 191, 81, 101, 157, 236, 27, 61, 19, 240]),
    (secondSeed ++ ":msg:1",
      #v[71, 173, 104, 97, 99, 21, 208, 211, 151, 142, 41, 147, 211, 202, 176, 245, 254, 40, 175,
        204, 180, 26, 160, 61, 22, 124, 155, 60, 227, 245, 140, 224])]

local instance turnHash : Sha256 where
  digest text := ((turnDigests.find? fun entry ↦ decide (entry.1 = text)).map Prod.snd).getD
    (Vector.replicate 32 0)

/-- A first turn. -/
def firstItem : Value := .object [("role", .str "user"), ("content", .str "hi")]

/-- The answer to it, which the next turn has as well. -/
def answerItem : Value := .object [("role", .str "assistant"), ("content", .str "yo")]

def turnBody (items : List Value) : Value := .object [("input", .arr items)]

def quietOptions : RequestOptions := { cliEmulation := false, systemInfo := .off }

def someEnvironment : Environment := ⟨"linux", "", "", "", "", "", "", ""⟩

theorem collides_of_sameIds_turns :
    ∃ r₁ r₂, buildChatRequestEx someEnvironment "" (turnBody [firstItem]) "m" "" quietOptions =
        .ok r₁ ∧
      buildChatRequestEx someEnvironment "" (turnBody [firstItem, answerItem]) "m" "" quietOptions =
        .ok r₂ ∧
      sessionSeed (turnBody [firstItem]) "m" ++ ":traj" ≠
        sessionSeed (turnBody [firstItem, answerItem]) "m" ++ ":traj" ∧
      (SameIds r₁ r₂ → idBytes (sessionSeed (turnBody [firstItem]) "m" ++ ":traj") =
        idBytes (sessionSeed (turnBody [firstItem, answerItem]) "m" ++ ":traj")) :=
  collides_of_sameIds
    (show (turnBody [firstItem]).get? "input" = some (.arr [firstItem]) from rfl)
    (show (turnBody [firstItem, answerItem]).get? "input" =
      some (.arr ([firstItem] ++ [answerItem])) from rfl)
    (List.cons_ne_nil _ _) someEnvironment someEnvironment "" "" "m" "" "" quietOptions

/-- The ids of the second turn are other ones. -/
theorem not_sameIds_turns :
    ∃ r₁ r₂, buildChatRequestEx someEnvironment "" (turnBody [firstItem]) "m" "" quietOptions =
        .ok r₁ ∧
      buildChatRequestEx someEnvironment "" (turnBody [firstItem, answerItem]) "m" "" quietOptions =
        .ok r₂ ∧ ¬ SameIds r₁ r₂ := by
  obtain ⟨r₁, h₁, htraj₁⟩ := exists_request someEnvironment ""
    (show (turnBody [firstItem]).get? "input" = some (.arr [firstItem]) from rfl)
    "m" "" quietOptions
  obtain ⟨r₂, h₂, htraj₂⟩ := exists_request someEnvironment ""
    (show (turnBody [firstItem, answerItem]).get? "input" =
      some (.arr [firstItem, answerItem]) from rfl) "m" "" quietOptions
  refine ⟨r₁, r₂, h₁, h₂, fun h ↦ ?_⟩
  have hid := h.trajectory
  rw [htraj₁, htraj₂] at hid
  exact absurd (Wire.str.inj (Option.some.inj hid)) (by decide +kernel)

end NextApi.Devin
