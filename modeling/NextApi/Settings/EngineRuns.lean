import NextApi.Json.Compact
import NextApi.Settings.Engine

/-!
# Runs of the settings engine

The configuration file is loaded again whenever it changes, and the administrator saves settings.
Both write their rows one by one, then read the configuration of the file and the rows of the user
interface, and store what they make of them. Nothing makes one of them wait for another one, so that
what is stored may have been read before a row of another operation was written.

Once no operation is in progress, every hot key has the value that was put through the user
interface last, or else that of the file loaded last, in a run where nothing is stored while all
operations in progress hold something outdated (`precedence_of_upToDate`).
-/

set_option autoImplicit false

namespace NextApi.Settings

open Json
open Admin.Upstreams (Cipher)

/-! ### Operations -/

/-- What an operation does next. -/
inductive Phase
  /-- `on_file_reload` updates the rows of these entries, and then takes over the file. -/
  | updating (file : HotConfig) (todo : List (String × Value))
  /-- The update has affected no row. -/
  | inserting (file : HotConfig) (entry : String × Value) (todo : List (String × Value))
  /-- `put` saves these settings. -/
  | saving (todo : List ValidatedSetting)
  /-- Everything is written. -/
  | merging
  /-- `merge_effective` has the configuration of the file. -/
  | selecting (yaml : HotConfig)
  /-- `merge_effective` has the rows as well. -/
  | storing (yaml : HotConfig) (rows : List (String × Value))

/-- The table, what is in memory, and the operations in progress. -/
structure Engine where
  table : SettingsTable
  yamlHot : HotConfig
  effective : HotConfig
  running : List Phase := []

inductive Action
  /-- The process starts, and nothing else is in progress. -/
  | startUp (cfg : ConfigFile)
  /-- A reload of the file begins. -/
  | reload (file : HotConfig)
  /-- Settings are saved: the checks are made, and the statements begin. -/
  | put (updates : List (String × Value))
  /-- The next statement of an operation in progress. -/
  | advance (n : ℕ)

namespace Engine

/-- `init`. -/
def init (cipher : Cipher) (cfg : ConfigFile) (t : SettingsTable) : Engine where
  table := initTable cipher cfg t
  yamlHot := cfg.hot
  effective := mergeEffective cfg.hot (initTable cipher cfg t).uiRows

theorem table_init (cipher : Cipher) (cfg : ConfigFile) (t : SettingsTable) :
    (init cipher cfg t).table = initTable cipher cfg t := by
  rw [init]

/-- The operation goes on with another phase. -/
def become (s : Engine) (n : ℕ) (phase : Phase) : Engine :=
  { s with running := s.running.set n phase }

def perform (cipher : Cipher) (s : Engine) (n : ℕ) : Phase → Engine
  | .updating file [] => { s with yamlHot := file }.become n .merging
  | .updating file (entry :: todo) =>
    match s.table.updateFile? entry.1 entry.2 with
    | some table => { s with table }.become n (.updating file todo)
    | none => s.become n (.inserting file entry todo)
  | .inserting file entry todo =>
    { s with table := s.table.insertMissing entry.1 { value := entry.2, source := .file } }.become n
      (.updating file todo)
  | .saving [] => s.become n (.selecting s.yamlHot)
  | .saving (setting :: todo) =>
    { s with table := s.table.save cipher setting }.become n (.saving todo)
  | .merging => s.become n (.selecting s.yamlHot)
  | .selecting yaml => s.become n (.storing yaml s.table.uiRows)
  | .storing yaml rows =>
    { s with effective := mergeEffective yaml rows, running := s.running.eraseIdx n }

/-- The value of a hot key that the next statement of an operation puts in the table. -/
def puts (key : HotKey) : Phase → Option Value
  | .saving (setting :: _) => if setting.key = key.name then some setting.value else none
  | _ => none

/-- The file that an operation takes over next. -/
def loads : Phase → Option HotConfig
  | .updating file [] => some file
  | _ => none

/-- The value of a hot key that an action puts through the user interface. -/
def putAt (key : HotKey) (s : Engine) : Action → Option Value
  | .startUp _ => none
  | .reload _ => none
  | .put _ => none
  | .advance n => s.running[n]?.bind (puts key)

/-- The file that an action loads. -/
def loadedBy (s : Engine) : Action → Option HotConfig
  | .startUp cfg => some cfg.hot
  | .reload _ => none
  | .put _ => none
  | .advance n => s.running[n]?.bind loads

/-! ### Statements -/

section Statements

variable (cipher : Cipher)

/-- A hot key is no secret, so its value is stored as it is. -/
theorem stored_of_hot {setting : ValidatedSetting} {key : HotKey} (h : setting.key = key.name) :
    setting.stored cipher = setting.value := by
  have hsecret : keyIsSecret setting.key = false := by
    rw [keyIsSecret, decide_eq_false_iff_not]
    intro hkey
    have hhot := key.isHot
    rw [← h, hkey] at hhot
    exact absurd hhot (by decide)
  rw [ValidatedSetting.stored]
  split
  · next s heq => rw [sealSecretValue, hsecret, Bool.false_and, if_neg Bool.false_ne_true, heq]
  · rfl

/-- A statement changes a value of the user interface only by putting it. -/
theorem uiValue?_perform (s : Engine) (n : ℕ) (phase : Phase) (key : HotKey) :
    (s.perform cipher n phase).table.uiValue? key.name =
      (puts key phase).or (s.table.uiValue? key.name) := by
  match phase with
  | .updating file [] => rfl
  | .updating file (entry :: todo) =>
    rw [perform]
    split
    · next table htable => exact SettingsTable.uiValue?_updateFile htable key.name
    · rfl
  | .inserting file entry todo => exact SettingsTable.uiValue?_insertMissing s.table rfl key.name
  | .saving [] => rfl
  | .saving (setting :: todo) =>
    show (s.table.save cipher setting).uiValue? key.name = _
    rw [uiValue?_save, puts]
    by_cases hkey : setting.key = key.name
    · rw [if_pos hkey, if_pos hkey, Option.some_or, stored_of_hot cipher hkey]
    · rw [if_neg hkey, if_neg hkey, Option.none_or]
  | .merging => rfl
  | .selecting yaml => rfl
  | .storing yaml rows => rfl

/-- A statement changes the configuration of the file only by loading it. -/
theorem yamlHot_perform (s : Engine) (n : ℕ) (phase : Phase) :
    some (s.perform cipher n phase).yamlHot = (loads phase).or (some s.yamlHot) := by
  match phase with
  | .updating file [] => rfl
  | .updating file (entry :: todo) =>
    rw [perform]
    split
    · rfl
    · rfl
  | .inserting file entry todo => rfl
  | .saving [] => rfl
  | .saving (setting :: todo) => rfl
  | .merging => rfl
  | .selecting yaml => rfl
  | .storing yaml rows => rfl

end Statements

/-! ### What is outdated -/

/-- What is in use is what the file and the table give. -/
def Settled (s : Engine) : Prop :=
  ∀ key : HotKey, s.effective.value key =
    ((s.table.uiValue? key.name).filter key.fits).getD (s.yamlHot.value key)

/-- What an operation has read so far is still what is there. -/
def UpToDate (s : Engine) : Phase → Prop
  | .selecting yaml => yaml = s.yamlHot
  | .storing yaml rows => yaml = s.yamlHot ∧ rows.Perm s.table.uiRows
  | _ => True

/-- An operation in progress is up to date. -/
def SomeUpToDate (s : Engine) : Prop := ∃ phase ∈ s.running, s.UpToDate phase

/-- Nothing is stored while all operations in progress are outdated, the one that stores among
them. -/
def StoresUpToDate (s : Engine) : Action → Prop
  | .advance n => ∀ yaml rows, s.running[n]? = some (.storing yaml rows) → s.SomeUpToDate
  | _ => True

/-- What is in use is right, or an operation in progress will make it right. -/
def Inv (s : Engine) : Prop := s.Settled ∨ s.SomeUpToDate

theorem settled_of_merge {s : Engine} {rows : List (String × Value)}
    (heffective : s.effective = mergeEffective s.yamlHot rows) (hrows : rows.Perm s.table.uiRows) :
    s.Settled := by
  intro key
  rw [heffective, value_mergeEffective s.yamlHot hrows]

theorem inv_init (cipher : Cipher) (cfg : ConfigFile) (t : SettingsTable) :
    (init cipher cfg t).Inv := by
  refine Or.inl (settled_of_merge ?_ (List.Perm.refl _))
  rw [init]

/-- An operation that has just begun is up to date. -/
theorem someUpToDate_begin {s : Engine} {phase : Phase} (h : s.UpToDate phase) :
    SomeUpToDate { s with running := s.running ++ [phase] } := by
  refine ⟨phase, List.mem_append_right _ (List.mem_singleton_self phase), ?_⟩
  cases phase <;> exact h

/-- An operation that goes on and is up to date. -/
theorem someUpToDate_become {s : Engine} {n : ℕ} {phase : Phase} (hn : n < s.running.length)
    (h : s.UpToDate phase) : (s.become n phase).SomeUpToDate := by
  refine ⟨phase, List.mem_set hn phase, ?_⟩
  cases phase <;> exact h

/-- What another operation has read stays what is there, when an operation only reads. -/
theorem inv_become {s : Engine} (hs : s.Inv) {n : ℕ} {phase next : Phase}
    (hphase : s.running[n]? = some phase) (hnext : s.UpToDate phase → s.UpToDate next) :
    (s.become n next).Inv := by
  have hn : n < s.running.length := (List.getElem?_eq_some_iff.1 hphase).1
  rcases hs with hsettled | ⟨other, hmem, hother⟩
  · exact Or.inl hsettled
  · refine Or.inr ?_
    obtain ⟨m, hm⟩ := List.mem_iff_getElem?.1 hmem
    by_cases hnm : n = m
    · subst hnm
      rw [hphase] at hm
      exact someUpToDate_become hn (hnext (Option.some.inj hm ▸ hother))
    · refine ⟨other, List.mem_iff_getElem?.2 ⟨m, ?_⟩, ?_⟩
      · rw [become, List.getElem?_set_ne hnm, hm]
      · cases other <;> exact hother

theorem inv_perform (cipher : Cipher) {s : Engine} (hs : s.Inv) {n : ℕ} {phase : Phase}
    (hphase : s.running[n]? = some phase) (hok : s.StoresUpToDate (.advance n)) :
    (s.perform cipher n phase).Inv := by
  have hn : n < s.running.length := (List.getElem?_eq_some_iff.1 hphase).1
  match phase with
  | .updating file [] => exact Or.inr (someUpToDate_become hn trivial)
  | .updating file (entry :: todo) =>
    rw [perform]
    split
    · exact Or.inr (someUpToDate_become hn trivial)
    · exact Or.inr (someUpToDate_become hn trivial)
  | .inserting file entry todo => exact Or.inr (someUpToDate_become hn trivial)
  | .saving [] => exact Or.inr (someUpToDate_become hn rfl)
  | .saving (setting :: todo) => exact Or.inr (someUpToDate_become hn trivial)
  | .merging => exact Or.inr (someUpToDate_become hn rfl)
  | .selecting yaml => exact inv_become hs hphase fun hyaml ↦ ⟨hyaml, .refl _⟩
  | .storing yaml rows =>
    obtain ⟨other, hmem, hother⟩ := hok yaml rows hphase
    obtain ⟨m, hm⟩ := List.mem_iff_getElem?.1 hmem
    by_cases hmn : m = n
    · subst hmn
      rw [hphase] at hm
      obtain ⟨rfl, hrows⟩ : s.UpToDate (.storing yaml rows) := Option.some.inj hm ▸ hother
      exact Or.inl (settled_of_merge rfl hrows)
    · refine Or.inr ⟨other, List.mem_eraseIdx_iff_getElem?.2 ⟨m, hmn, hm⟩, ?_⟩
      cases other <;> exact hother

/-! ### Operations that wait -/

/-- Nothing begins while an operation is in progress. -/
def Waits (s : Engine) : Action → Prop
  | .startUp _ => True
  | .reload _ => s.running = []
  | .put _ => s.running = []
  | .advance _ => True

/-- At most one operation is in progress, and it is up to date. -/
def Alone (s : Engine) : Prop :=
  s.running = [] ∨ ∃ phase, s.running = [phase] ∧ s.UpToDate phase

theorem storesUpToDate_of_alone {s : Engine} (h : s.Alone) (a : Action) : s.StoresUpToDate a := by
  cases a with
  | startUp cfg => trivial
  | reload file => trivial
  | put updates => trivial
  | advance n =>
    intro yaml rows hphase
    rcases h with hidle | ⟨phase, hrunning, hphase'⟩
    · rw [hidle] at hphase
      exact absurd hphase (by simp)
    · exact ⟨phase, by rw [hrunning]; exact List.mem_singleton_self phase, hphase'⟩

theorem alone_perform (cipher : Cipher) {s : Engine} {phase : Phase} (hrunning : s.running = [phase])
    (h : s.UpToDate phase) : (s.perform cipher 0 phase).Alone := by
  have hbecome : ∀ {t : Engine} {next : Phase}, t.running = [phase] → t.UpToDate next →
      (t.become 0 next).Alone := by
    intro t next ht hnext
    refine Or.inr ⟨next, by rw [become, ht]; rfl, ?_⟩
    cases next <;> exact hnext
  match phase with
  | .updating file [] => exact hbecome hrunning trivial
  | .updating file (entry :: todo) =>
    rw [perform]
    split
    · exact hbecome hrunning trivial
    · exact hbecome hrunning trivial
  | .inserting file entry todo => exact hbecome hrunning trivial
  | .saving [] => exact hbecome hrunning rfl
  | .saving (setting :: todo) => exact hbecome hrunning trivial
  | .merging => exact hbecome hrunning rfl
  | .selecting yaml => exact hbecome hrunning ⟨h, .refl _⟩
  | .storing yaml rows =>
    refine Or.inl ?_
    rw [perform, hrunning]
    rfl

/-! ### Runs -/

section Runs

variable [SerdeJson] (cipher : Cipher)

def step (s : Engine) : Action → Engine
  | .startUp cfg => init cipher cfg s.table
  | .reload file => { s with running := s.running ++ [.updating file file.hotFlat] }
  | .put updates =>
    match validateUpdates cipher updates with
    | .ok validated => { s with running := s.running ++ [.saving validated] }
    | .error _ => s
  | .advance n =>
    match s.running[n]? with
    | some phase => s.perform cipher n phase
    | none => s

def run (s : Engine) (actions : List Action) : Engine := Transition.run (step cipher) s actions

/-- The value that was put through the user interface last, in the run or before it. -/
def lastPut (s : Engine) (key : HotKey) (actions : List Action) : Option Value :=
  Transition.latest (step cipher) (putAt key) (s.table.uiValue? key.name) s actions

/-- The file that was loaded last. -/
def lastLoaded (s : Engine) (actions : List Action) : HotConfig :=
  (Transition.latest (step cipher) loadedBy (some s.yamlHot) s actions).getD s.yamlHot

/-- When no operation is in progress after the run, every hot key has the value put last, if that
fits, and else the value of the file loaded last. -/
def Precedence (s : Engine) (actions : List Action) : Prop :=
  (s.run cipher actions).running = [] → ∀ key : HotKey,
    (s.run cipher actions).effective.value key =
      ((s.lastPut cipher key actions).filter key.fits).getD
        ((s.lastLoaded cipher actions).value key)

theorem uiValue?_step (s : Engine) (a : Action) (key : HotKey) :
    (s.step cipher a).table.uiValue? key.name =
      (putAt key s a).or (s.table.uiValue? key.name) := by
  cases a with
  | startUp cfg => rw [putAt, Option.none_or, step, table_init, uiValue?_initTable]
  | reload file => rw [putAt, Option.none_or, step]
  | put updates =>
    rw [putAt, Option.none_or, step]
    split
    · rfl
    · rfl
  | advance n =>
    rw [step, putAt]
    cases s.running[n]? with
    | some phase => exact uiValue?_perform cipher s n phase key
    | none => rfl

theorem yamlHot_step (s : Engine) (a : Action) :
    some (s.step cipher a).yamlHot = (loadedBy s a).or (some s.yamlHot) := by
  cases a with
  | startUp cfg => rfl
  | reload file => rfl
  | put updates =>
    rw [step]
    split
    · rfl
    · rfl
  | advance n =>
    rw [step, loadedBy]
    cases s.running[n]? with
    | some phase => exact yamlHot_perform cipher s n phase
    | none => rfl

/-- The rows of the user interface are what was put last. -/
theorem lastPut_eq (s : Engine) (key : HotKey) (actions : List Action) :
    s.lastPut cipher key actions = (s.run cipher actions).table.uiValue? key.name :=
  Transition.latest_eq (f := fun s : Engine ↦ s.table.uiValue? key.name)
    (fun s a ↦ uiValue?_step cipher s a key) s actions

theorem lastLoaded_eq (s : Engine) (actions : List Action) :
    s.lastLoaded cipher actions = (s.run cipher actions).yamlHot := by
  have h := Transition.latest_eq (f := fun s ↦ some s.yamlHot) (yamlHot_step cipher) s actions
  rw [lastLoaded, h]
  rfl

theorem inv_step {s : Engine} (hs : s.Inv) {a : Action} (hok : s.StoresUpToDate a) :
    (s.step cipher a).Inv := by
  cases a with
  | startUp cfg => exact inv_init cipher cfg s.table
  | reload file => exact Or.inr (someUpToDate_begin trivial)
  | put updates =>
    rw [step]
    split
    · exact Or.inr (someUpToDate_begin trivial)
    · exact hs
  | advance n =>
    rw [step]
    split
    · next phase hphase => exact inv_perform cipher hs hphase hok
    · exact hs

/-- Once nothing is in progress, what is in use is settled. -/
theorem precedence_of_inv {s : Engine} {actions : List Action}
    (h : (s.run cipher actions).Inv) : s.Precedence cipher actions := by
  intro hidle key
  rw [lastPut_eq, lastLoaded_eq]
  rcases h with hsettled | ⟨phase, hmem, -⟩
  · exact hsettled key
  · rw [hidle] at hmem
    exact absurd hmem List.not_mem_nil

/-- From any start, the values in use take precedence as they should in every state of a run in
which nothing outdated is stored for good. -/
theorem precedence_of_upToDate (cfg : ConfigFile) (t : SettingsTable) (actions : List Action)
    (h : Transition.EachStep (step cipher) StoresUpToDate (init cipher cfg t) actions) :
    ∀ before, before <+: actions → (init cipher cfg t).Precedence cipher before := by
  intro before hprefix
  refine precedence_of_inv cipher ?_
  exact Transition.history_of_eachStep (P := fun _ s ↦ s.Inv) h (inv_init cipher cfg t)
    (fun _ _ hok hs ↦ inv_step cipher hs hok) before hprefix

/-! ### Runs of operations that wait -/

theorem alone_step {s : Engine} (h : s.Alone) {a : Action} (hwaits : s.Waits a) :
    (s.step cipher a).Alone := by
  cases a with
  | startUp cfg => exact Or.inl (by rw [step, init])
  | reload file =>
    have hidle : s.running = [] := hwaits
    exact Or.inr ⟨.updating file file.hotFlat, by rw [step, hidle, List.nil_append], trivial⟩
  | put updates =>
    have hidle : s.running = [] := hwaits
    rw [step]
    split
    · next validated _ => exact Or.inr ⟨.saving validated, by rw [hidle, List.nil_append], trivial⟩
    · exact h
  | advance n =>
    rw [step]
    rcases h with hidle | ⟨phase, hrunning, hphase⟩
    · rw [hidle]
      exact Or.inl hidle
    · rw [hrunning]
      cases n with
      | zero => exact alone_perform cipher hrunning hphase
      | succ n => exact Or.inr ⟨phase, hrunning, hphase⟩

/-- Operations that wait for each other store nothing outdated. -/
theorem eachStep_of_waits {s : Engine} (hs : s.Alone) {actions : List Action}
    (h : Transition.EachStep (step cipher) Waits s actions) :
    Transition.EachStep (step cipher) StoresUpToDate s actions := by
  induction actions generalizing s with
  | nil => exact Transition.eachStep_nil
  | cons a rest ih =>
    obtain ⟨hwaits, hrest⟩ := Transition.eachStep_cons.1 h
    exact Transition.eachStep_cons.2
      ⟨storesUpToDate_of_alone hs a, ih (alone_step cipher hs hwaits) hrest⟩

end Runs

/-! ### Runs on fixed inputs -/

section Fixed

local instance settingsCodec : SerdeJson := Compact.codec

/-- A process without a secret key. -/
def noCipher : Cipher where
  available := false
  encrypt _ := .error "NEXTAPI_SECRET_KEY 未设置，无法加密敏感字段"
  parseAuthJson _ := .error "NEXTAPI_SECRET_KEY 未设置，无法加密敏感字段"

/-- A file with zeros, empty texts and flags that are off. -/
def blankFile : ConfigFile where
  hot := ⟨fun key ↦ key.fieldType.blank, fun key ↦ key.fieldType.fits_blank⟩

/-- One flag is put, and the operation ends. -/
theorem precedence_onePut :
    (init noCipher blankFile ∅).Precedence noCipher
      [.put [("gateway.log_async", .bool true)], .advance 0, .advance 0, .advance 0, .advance 0] := by
  refine precedence_of_upToDate noCipher blankFile ∅ _ (eachStep_of_waits noCipher (Or.inl rfl) ?_)
    _ (List.prefix_refl _)
  refine Transition.eachStep_cons.2 ⟨rfl, Transition.eachStep_cons.2 ⟨trivial, ?_⟩⟩
  refine Transition.eachStep_cons.2 ⟨trivial, Transition.eachStep_cons.2 ⟨trivial, ?_⟩⟩
  exact Transition.eachStep_cons.2 ⟨trivial, Transition.eachStep_nil⟩

/-- Two flags are put at the same time. The first operation has read the rows before the second one
writes its own, and stores what it makes of them after it. -/
def lateStore : List Action :=
  [.put [("gateway.log_async", .bool true)], .put [("gateway.sticky_routing", .bool true)],
    .advance 0, .advance 0, .advance 0, .advance 1, .advance 1, .advance 1, .advance 1, .advance 0]

def stickyRouting : HotKey := ⟨"gateway.sticky_routing", by decide +kernel⟩

/-- The setting of a flag that is on. -/
def flagOn (key : String) : ValidatedSetting := ⟨key, .bool true, false, false⟩

/-- The table after the first flag is written. -/
def firstSaved : SettingsTable :=
  (initTable noCipher blankFile ∅).save noCipher (flagOn "gateway.log_async")

/-- What is in use at the end comes from the rows before the second flag was written. -/
theorem run_lateStore : (init noCipher blankFile ∅).run noCipher lateStore =
    { table := firstSaved.save noCipher (flagOn "gateway.sticky_routing")
      yamlHot := blankFile.hot
      effective := mergeEffective blankFile.hot firstSaved.uiRows
      running := [] } := by
  have hfirst : validateUpdates noCipher [("gateway.log_async", .bool true)] =
      .ok [flagOn "gateway.log_async"] := by decide +kernel
  have hsecond : validateUpdates noCipher [("gateway.sticky_routing", .bool true)] =
      .ok [flagOn "gateway.sticky_routing"] := by decide +kernel
  simp [run, lateStore, step, hfirst, hsecond, init, perform, become, firstSaved]

theorem effective_mk (t : SettingsTable) (yaml effective : HotConfig) (running : List Phase) :
    (⟨t, yaml, effective, running⟩ : Engine).effective = effective := rfl

theorem not_precedence_lateStore :
    ¬ (init noCipher blankFile ∅).Precedence noCipher lateStore := by
  intro h
  have hput : (flagOn "gateway.sticky_routing").key = stickyRouting.name := rfl
  have hother : ¬ (flagOn "gateway.log_async").key = stickyRouting.name := by decide +kernel
  have hfits : stickyRouting.fits (.bool true) = true := by decide +kernel
  have hlast : (init noCipher blankFile ∅).lastPut noCipher stickyRouting lateStore =
      some (.bool true) := by
    rw [lastPut_eq, run_lateStore, uiValue?_save, if_pos hput]
    rfl
  have hused : ((init noCipher blankFile ∅).run noCipher lateStore).effective.value
      stickyRouting = .bool false := by
    rw [run_lateStore, effective_mk, value_mergeEffective blankFile.hot (.refl _), firstSaved,
      uiValue?_save, if_neg hother, uiValue?_initTable]
    decide +kernel
  have hvalue := h (by rw [run_lateStore]) stickyRouting
  rw [hlast, hused, Option.filter_some, if_pos hfits, Option.getD_some] at hvalue
  exact absurd hvalue (by decide)

end Fixed

end Engine

end NextApi.Settings
