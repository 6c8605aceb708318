import NextApi.Error
import NextApi.Protocol.Adapter
import NextApi.Upstream.Usage

/-!
# The two readers of a usage object

The adapters read a usage object into the representation (`Protocol.parseUsage`), as counts that
are `u64`; the usage that is billed is read from the same object by a reader of its own
(`extractJsonUsage`), as counts that are `i64`. `fits_iff` says which objects the two read alike, a
count that is missing being zero: those without negative counts and without counts from `2 ^ 63`
on. In two places more is needed. The adapter of Anthropic also knows other names for the counts,
and the sum of two counts of Gemini has to be in range.

`bodyAgrees_iff` is the same for whole responses.
-/

set_option autoImplicit false

namespace NextApi.Upstream

open Json Ir

/-! ### One count -/

/-- What a count that may be missing is charged as. -/
def charged (count : Option ℤ) : ℤ := count.getD 0

/-- What the adapters read a count as. -/
def natAt (v : Option Value) : ℕ := (v.bind Value.asU64).getD 0

/-- The value is no integer from `2 ^ 63` on. -/
def Below : Option Value → Prop
  | some (.int i) => i < 2 ^ 63
  | _ => True

/-- The value is no negative integer and none from `2 ^ 63` on. -/
def Plain : Option Value → Prop
  | some (.int i) => 0 ≤ i ∧ i < 2 ^ 63
  | _ => True

instance (v : Option Value) : Decidable (Below v) := by
  unfold Below
  split <;> infer_instance

instance (v : Option Value) : Decidable (Plain v) := by
  unfold Plain
  split <;> infer_instance

theorem asU64_getElem (u : Value) (key : String) : u[key].asU64 = (u.get? key).bind Value.asU64 := by
  rw [Value.getElem_eq]
  cases u.get? key <;> rfl

theorem getD_asU64_getElem (u : Value) (key : String) :
    u[key].asU64.getD 0 = natAt (u.get? key) := by
  rw [asU64_getElem, natAt]

theorem token_of_lt {i : ℤ} (h : i < 2 ^ 63) : token (.int i) = some i := by
  have hi64 : (Value.int i).asI64 = some i := if_pos h
  rw [token, hi64, Option.some_or]

/-- An integer from `2 ^ 63` on does not fit. -/
theorem exists_token_of_le {i : ℤ} (h : 2 ^ 63 ≤ i) :
    ∃ t, token (.int i) = some t ∧ t < 2 ^ 63 := by
  have hi64 : (Value.int i).asI64 = none := if_neg (by omega)
  have hu64 : (Value.int i).asU64 = some i.toNat := if_pos (by omega)
  refine ⟨Int.bmod i.toNat (2 ^ 64), ?_, ?_⟩
  · rw [token, hi64, hu64, Option.none_or, Option.map_some]
  · have hlt := @Int.bmod_lt i.toNat (2 ^ 64) (by decide)
    omega

theorem natAt_int (i : ℤ) : natAt (some (.int i)) = i.toNat := by
  rw [natAt, Option.bind_some, Value.asU64]
  split
  · rfl
  · rw [Option.getD_none]
    omega

/-- A value that is no integer is no count to either reader. -/
theorem readings_of_not_int {v : Option Value} (h : ∀ i, v ≠ some (.int i)) :
    v.bind token = none ∧ natAt v = 0 := by
  cases v with
  | none => exact ⟨rfl, rfl⟩
  | some v =>
    cases v with
    | int i => exact absurd rfl (h i)
    | _ => exact ⟨rfl, rfl⟩

theorem plain_of_not_int {v : Option Value} (h : ∀ i, v ≠ some (.int i)) : Plain v := by
  unfold Plain
  split
  · exact absurd rfl (h _)
  · trivial

theorem below_of_not_int {v : Option Value} (h : ∀ i, v ≠ some (.int i)) : Below v := by
  unfold Below
  split
  · exact absurd rfl (h _)
  · trivial

/-- A count is plain, or it is negative, or too large for one of the readers. -/
theorem token_cases (v : Option Value) :
    (Plain v ∧ charged (v.bind token) = natAt v ∧ natAt v < 2 ^ 63) ∨
      (¬ Plain v ∧ charged (v.bind token) < 0 ∧ natAt v = 0) ∨
        (¬ Plain v ∧ charged (v.bind token) < 2 ^ 63 ∧ 2 ^ 63 ≤ natAt v) := by
  by_cases h : ∃ i, v = some (.int i)
  · obtain ⟨i, rfl⟩ := h
    rw [natAt_int, Option.bind_some, Plain]
    rcases Int.lt_or_le i (2 ^ 63) with hlt | hge
    · rw [token_of_lt hlt, charged, Option.getD_some]
      omega
    · obtain ⟨t, ht, hlt⟩ := exists_token_of_le hge
      rw [ht, charged, Option.getD_some]
      omega
  · rw [not_exists] at h
    obtain ⟨htoken, hnat⟩ := readings_of_not_int h
    rw [htoken, hnat]
    exact Or.inl ⟨plain_of_not_int h, rfl, by decide⟩

/-- The two readings of a count agree just when it is plain. -/
theorem charged_token_iff (v : Option Value) : charged (v.bind token) = natAt v ↔ Plain v := by
  rcases token_cases v with ⟨hplain, heq, -⟩ | ⟨hnot, hneg, hzero⟩ | ⟨hnot, hlt, hge⟩
  · exact iff_of_true heq hplain
  · exact iff_of_false (by omega) hnot
  · exact iff_of_false (by omega) hnot

/-- The input without the cached tokens is read alike just when it is below the bound: a negative
one is none for both readers. -/
theorem charged_uncachedPrompt_iff (prompt cached : Option Value) (h : Plain cached) :
    charged (uncachedPrompt (prompt.bind token) (cached.bind token)) =
      ((natAt prompt - natAt cached : ℕ) : ℤ) ↔ Below prompt := by
  have hcached : (cached.bind token).getD 0 = natAt cached := (charged_token_iff cached).2 h
  have hsmall : natAt cached < 2 ^ 63 := by
    rcases token_cases cached with ⟨-, -, hsmall⟩ | ⟨hnot, -⟩ | ⟨hnot, -⟩
    · exact hsmall
    · exact absurd h hnot
    · exact absurd h hnot
  rw [uncachedPrompt, hcached]
  by_cases hint : ∃ i, prompt = some (.int i)
  · obtain ⟨i, rfl⟩ := hint
    rw [natAt_int, Option.bind_some, Below]
    rcases Int.lt_or_le i (2 ^ 63) with hlt | hge
    · rw [token_of_lt hlt, Option.map_some, charged, Option.getD_some, saturateI64]
      omega
    · obtain ⟨t, ht, hlt⟩ := exists_token_of_le hge
      rw [ht, Option.map_some, charged, Option.getD_some, saturateI64]
      omega
  · rw [not_exists] at hint
    obtain ⟨htoken, hnat⟩ := readings_of_not_int hint
    rw [htoken, hnat]
    refine ⟨fun _ ↦ below_of_not_int hint, fun _ ↦ ?_⟩
    rw [Nat.zero_sub]
    rfl

/-! ### A usage object -/

/-- A count of the representation. -/
def irCount (u : IrUsage) : Count → ℕ
  | .prompt => u.promptTokens
  | .completion => u.completionTokens
  | .cacheWrite => u.cacheWriteTokens.getD 0
  | .cacheRead => u.cacheReadTokens.getD 0

/-- A count of what a stream or a response reported, if it did. -/
def irCharged (usage : Option IrUsage) (n : Count) : ℤ := ((usage.map (irCount · n)).getD 0 : ℕ)

/-- The member that the usage stands in. -/
def usageKey : Protocol → String
  | .gemini => "usageMetadata"
  | _ => "usage"

/-- The value of a member in a member. -/
def memberIn (u : Value) (details key : String) : Option Value :=
  (u.get? details).bind fun d ↦ d.get? key

/-- A count that is plain, and whose other name has no count where it has none. -/
def PlainUnder (u : Value) (key other : String) : Prop :=
  Plain (u.get? key) ∧ (((u.get? key).bind Value.asU64).isNone → natAt (u.get? other) = 0)

/-- The counts of a usage object are read alike. -/
def Fits (p : Protocol) (u : Value) : Prop :=
  match p with
  | .openaiChat =>
    Plain (memberIn u "prompt_tokens_details" "cached_tokens") ∧
      Plain (u.get? "completion_tokens") ∧ Below (u.get? "prompt_tokens")
  | .openaiResponses =>
    Plain (memberIn u "input_tokens_details" "cached_tokens") ∧
      Plain (u.get? "output_tokens") ∧ Below (u.get? "input_tokens")
  | .anthropic =>
    PlainUnder u "input_tokens" "prompt_tokens" ∧
      PlainUnder u "output_tokens" "completion_tokens" ∧
        PlainUnder u "cache_creation_input_tokens" "cache_creation_tokens" ∧
          PlainUnder u "cache_read_input_tokens" "cache_read_tokens"
  | .gemini =>
    Plain (u.get? "cachedContentTokenCount") ∧ Below (u.get? "promptTokenCount") ∧
      (Plain (u.get? "candidatesTokenCount") ∧ Plain (u.get? "thoughtsTokenCount")) ∧
        natAt (u.get? "candidatesTokenCount") + natAt (u.get? "thoughtsTokenCount") < 2 ^ 63

theorem forall_count {P : Count → Prop} :
    (∀ n, P n) ↔ P .prompt ∧ P .completion ∧ P .cacheWrite ∧ P .cacheRead :=
  ⟨fun h ↦ ⟨h _, h _, h _, h _⟩, fun h n ↦ by cases n <;> simp [h]⟩

/-- A count with a second name. -/
theorem charged_token_or_iff (u : Value) (key other : String) :
    charged ((u.get? key).bind token) =
        ((((u.get? key).bind Value.asU64).or ((u.get? other).bind Value.asU64)).getD 0 : ℕ) ↔
      PlainUnder u key other := by
  rw [PlainUnder]
  cases hkey : (u.get? key).bind Value.asU64 with
  | some c =>
    have hnat : natAt (u.get? key) = c := by
      rw [natAt, hkey, Option.getD_some]
    rw [Option.some_or, Option.getD_some, ← hnat, charged_token_iff]
    simp
  | none =>
    have hnat : natAt (u.get? key) = 0 := by
      rw [natAt, hkey, Option.getD_none]
    have hplain := charged_token_iff (u.get? key)
    rw [hnat] at hplain
    rw [Option.none_or, ← natAt, ← hplain]
    simp only [Option.isNone_none, true_implies]
    -- a count that is no `u64` is negative, or none
    have hle : charged ((u.get? key).bind token) ≤ 0 := by
      rcases token_cases (u.get? key) with ⟨-, heq, -⟩ | ⟨-, hneg, -⟩ | ⟨-, -, hge⟩
      · rw [heq, hnat]
        exact Int.le_refl 0
      · exact Int.le_of_lt hneg
      · omega
    omega

/-- The sum of two counts. -/
theorem charged_sum_iff (c t : Option Value) :
    charged (if (c.bind token).isNone && (t.bind token).isNone then none
        else some (saturateI64 ((c.bind token).getD 0 + (t.bind token).getD 0))) =
        addU64 (natAt c) (natAt t) ↔
      (Plain c ∧ Plain t) ∧ natAt c + natAt t < 2 ^ 63 := by
  have hsum : charged (if (c.bind token).isNone && (t.bind token).isNone then none
      else some (saturateI64 ((c.bind token).getD 0 + (t.bind token).getD 0))) =
        saturateI64 (charged (c.bind token) + charged (t.bind token)) := by
    cases c.bind token <;> cases t.bind token <;> rfl
  rw [hsum, saturateI64, addU64]
  rcases token_cases c with ⟨hc, hc'⟩ | ⟨hc, hc'⟩ | ⟨hc, hc'⟩ <;>
    rcases token_cases t with ⟨ht, ht'⟩ | ⟨ht, ht'⟩ | ⟨ht, ht'⟩ <;>
      simp only [hc, ht, and_self, and_true, true_and, and_false, false_and, iff_false] <;> omega

theorem bind_getElem_asU64 (u : Value) (details key : String) :
    ((u.get? details).bind fun d ↦ d[key].asU64) = (memberIn u details key).bind Value.asU64 := by
  rw [memberIn]
  cases u.get? details with
  | none => rfl
  | some d => exact asU64_getElem d key

theorem bind_asObject_asU64 (u : Value) (details key : String) :
    (((u.get? details).bind Value.asObject).bind fun d ↦ Map.get? d key).bind Value.asU64 =
      (memberIn u details key).bind Value.asU64 := by
  rw [memberIn]
  cases u.get? details with
  | none => rfl
  | some d => cases d <;> rfl

/-- The counts of a usage whose input count includes the cached tokens, and that knows no cache
writes. -/
theorem charged_inclusive_iff (prompt completion cached : Option Value) :
    (charged (uncachedPrompt (prompt.bind token) (cached.bind token)) =
        ((natAt prompt - natAt cached : ℕ) : ℤ) ∧
      charged (completion.bind token) = natAt completion ∧
      charged none = ((0 : ℕ) : ℤ) ∧ charged (cached.bind token) = natAt cached) ↔
      Plain cached ∧ Plain completion ∧ Below prompt := by
  rw [charged_token_iff, charged_token_iff]
  constructor
  · rintro ⟨hprompt, hcompletion, -, hcached⟩
    exact ⟨hcached, hcompletion, (charged_uncachedPrompt_iff prompt cached hcached).1 hprompt⟩
  · rintro ⟨hcached, hcompletion, hprompt⟩
    exact ⟨(charged_uncachedPrompt_iff prompt cached hcached).2 hprompt, hcompletion, rfl, hcached⟩

/-- The two readers of a usage object agree just when its counts fit. -/
theorem fits_iff (p : Protocol) {v u : Value} (h : v.get? (usageKey p) = some u) :
    (∀ n, charged ((extractJsonUsage p v).count n) = irCount (p.parseUsage u) n) ↔ Fits p u := by
  rw [forall_count]
  cases p with
  | openaiChat =>
    have hv : v.get? "usage" = some u := h
    have hir : irCount (Protocol.parseUsage .openaiChat u) =
        irCount { promptTokens := natAt (u.get? "prompt_tokens") -
                    natAt (memberIn u "prompt_tokens_details" "cached_tokens")
                  completionTokens := natAt (u.get? "completion_tokens")
                  cacheReadTokens :=
                    (memberIn u "prompt_tokens_details" "cached_tokens").bind Value.asU64 } := by
      funext n
      cases n <;>
        simp only [irCount, Protocol.parseUsage, Chat.parseUsage, getD_asU64_getElem,
          bind_getElem_asU64, natAt]
    rw [hir, Fits, ← charged_inclusive_iff]
    simp only [extractJsonUsage, Usage.count, hv, countAt, countIn, Option.bind_some, irCount,
      memberIn, natAt, Option.getD_none]
  | openaiResponses =>
    have hv : v.get? "usage" = some u := h
    have hir : irCount (Protocol.parseUsage .openaiResponses u) =
        irCount { promptTokens := natAt (u.get? "input_tokens") -
                    natAt (memberIn u "input_tokens_details" "cached_tokens")
                  completionTokens := natAt (u.get? "output_tokens")
                  cacheReadTokens :=
                    (memberIn u "input_tokens_details" "cached_tokens").bind Value.asU64 } := by
      funext n
      cases n <;>
        simp only [irCount, Protocol.parseUsage, Responses.parseUsage, getD_asU64_getElem,
          bind_asObject_asU64, natAt]
    rw [hir, Fits, ← charged_inclusive_iff]
    simp only [extractJsonUsage, Usage.count, hv, countAt, countIn, Option.bind_some, irCount,
      memberIn, natAt, Option.getD_none]
  | anthropic =>
    have hv : v.get? "usage" = some u := h
    rw [Fits, ← charged_token_or_iff, ← charged_token_or_iff, ← charged_token_or_iff,
      ← charged_token_or_iff]
    simp only [extractJsonUsage, Usage.count, hv, countAt, Option.bind_some, irCount,
      Protocol.parseUsage, Anthropic.parseUsage, asU64_getElem]
  | gemini =>
    have hv : v.get? "usageMetadata" = some u := h
    have hprompt := charged_uncachedPrompt_iff (u.get? "promptTokenCount")
      (u.get? "cachedContentTokenCount")
    have hread := charged_token_iff (u.get? "cachedContentTokenCount")
    simp only [Usage.count, extractJsonUsage, hv, countAt, Option.bind_some, irCount,
      Protocol.parseUsage, Gemini.parseUsageMetadata, getD_asU64_getElem]
    rw [charged_sum_iff, Fits]
    rw [hread]
    constructor
    · rintro ⟨hp, hsum, -, hcached⟩
      exact ⟨hcached, (hprompt hcached).1 hp, hsum⟩
    · rintro ⟨hcached, hp, hsum⟩
      exact ⟨(hprompt hcached).2 hp, hsum, rfl, hcached⟩

/-! ### Whole responses -/

/-- The two readers of a response charge the same for it, if the adapter accepts it. -/
def BodyAgrees [SerdeJson] (p : Protocol) (v : Value) : Prop :=
  ∀ ir ctx, responseToIr p v = .ok (ir, ctx) →
    ∀ n, charged ((extractJsonUsage p v).count n) = irCharged ir.usage n

/-- The usage of an accepted response is its usage object, as the adapter reads it. -/
theorem usage_responseToIr [SerdeJson] {p : Protocol} {v : Value} {read : IrResponse × ConvCtx}
    (h : responseToIr p v = .ok read) :
    read.1.usage = (v.get? (usageKey p)).map p.parseUsage := by
  cases v with
  | obj obj =>
    cases p with
    | openaiChat =>
      obtain ⟨⟨choices, choicesCtx⟩, -, hir⟩ := bind_eq_ok.1 h
      rw [← Except.ok.inj hir]
      rfl
    | openaiResponses =>
      rw [← Except.ok.inj h]
      rfl
    | anthropic =>
      rw [responseToIr, Anthropic.responseToIr] at h
      dsimp only [Value.asObject] at h
      split at h <;>
        (rw [← Except.ok.inj h]
         rfl)
    | gemini =>
      obtain ⟨candidates, -, hir⟩ := bind_eq_ok.1 h
      rw [← Except.ok.inj hir]
      rfl
  | _ => cases p <;> exact nomatch h

/-- A response without a usage object is charged nothing. -/
theorem count_extractJsonUsage_of_none (p : Protocol) {v : Value} (h : v.get? (usageKey p) = none)
    (n : Count) : (extractJsonUsage p v).count n = none := by
  cases p <;> cases n <;> simp only [usageKey] at h <;>
    simp only [extractJsonUsage, Usage.count, h, countAt, countIn, Option.bind_none,
      uncachedPrompt, Option.map_none, Option.isNone_none, Bool.and_self, if_true]

/-- The two readers of a response agree just when the counts of its usage object fit. -/
theorem bodyAgrees_iff [SerdeJson] (p : Protocol) (v : Value) :
    BodyAgrees p v ↔
      ((∃ ir ctx, responseToIr p v = .ok (ir, ctx)) →
        ∀ u, v.get? (usageKey p) = some u → Fits p u) := by
  constructor
  · rintro h ⟨ir, ctx, hir⟩ u hu
    refine (fits_iff p hu).1 fun n ↦ ?_
    have husage : ir.usage = (v.get? (usageKey p)).map p.parseUsage := usage_responseToIr hir
    rw [h ir ctx hir n, husage, hu]
    rfl
  · intro h ir ctx hir n
    have husage : ir.usage = (v.get? (usageKey p)).map p.parseUsage := usage_responseToIr hir
    rw [husage]
    cases hu : v.get? (usageKey p) with
    | none =>
      rw [count_extractJsonUsage_of_none p hu]
      rfl
    | some u => exact (fits_iff p hu).2 (h ⟨ir, ctx, hir⟩ u hu) n

end NextApi.Upstream
