import NextApi.Admin.Routes

/-!
# Aliases and routes over runs

No alias leads to another one, and no alias has the name of a literal route (`Db.Sound`). An alias
that is made or changed is checked against the aliases and the routes there are, and a replacement
of the routes against the aliases. What is not checked is whether the new name is the model of
another alias, and whether a route made for a model of an upstream has the name of an alias.

`sound_run_iff` says that this is all: a run is sound in all its states when none of its operations
does one of the two.
-/

set_option autoImplicit false

namespace NextApi.Admin

/-! ### What the operations change -/

/-- A route without its id. -/
def RouteRow.content (r : RouteRow) : RouteRow := { r with id := 0 }

namespace Db

theorem insertRoute_ok {db db' : Db} {row : RouteRow} (h : db.insertRoute row = .ok db') :
    db' = { db with routes := db.routes ++ [{ row with id := db.nextId }], nextId := db.nextId + 1 } := by
  unfold insertRoute at h
  split at h
  · exact absurd h (by simp)
  · split at h
    · exact absurd h (by simp)
    · exact (Except.ok.inj h).symm

/-- Inserting routes adds rows with their content, and changes no other table. -/
theorem insertRoutes_ok {db db' : Db} {rows : List RouteRow} (h : db.insertRoutes rows = .ok db') :
    db'.upstreams = db.upstreams ∧ db'.aliases = db.aliases ∧
      ∃ added, db'.routes = db.routes ++ added ∧
        added.map RouteRow.content = rows.map RouteRow.content := by
  induction rows generalizing db with
  | nil =>
    rw [insertRoutes] at h
    rw [← Except.ok.inj h]
    exact ⟨rfl, rfl, [], (List.append_nil _).symm, rfl⟩
  | cons row rest ih =>
    rw [insertRoutes, bind_eq_ok] at h
    obtain ⟨next, hrow, hrest⟩ := h
    obtain ⟨hupstreams, haliases, added, hroutes, hadded⟩ := ih hrest
    rw [insertRoute_ok hrow] at hupstreams haliases hroutes
    refine ⟨hupstreams, haliases, { row with id := db.nextId } :: added, ?_, ?_⟩
    · rw [hroutes, List.append_assoc, List.singleton_append]
    · rw [List.map_cons, List.map_cons, hadded]
      rfl

/-- The patterns of inserted routes. -/
theorem mem_pattern_of_content {added rows : List RouteRow}
    (h : added.map RouteRow.content = rows.map RouteRow.content) {p : String} :
    (∃ r ∈ added, r.modelPattern = p) ↔ ∃ r ∈ rows, r.modelPattern = p := by
  have hpattern : ∀ l : List RouteRow, (∃ r ∈ l, r.modelPattern = p) ↔
      p ∈ (l.map RouteRow.content).map RouteRow.modelPattern := by
    intro l
    rw [List.map_map, List.mem_map]
    rfl
  rw [hpattern, hpattern, h]

end Db

theorem validateFields_ok {aliasName model : String} {names : String × String}
    (h : validateFields aliasName model = .ok names) :
    names.1 = trim aliasName ∧ names.2 = trim model ∧ names.1 ≠ names.2 := by
  unfold validateFields at h
  dsimp only at h
  split at h
  · exact absurd h (by simp)
  split at h
  · exact absurd h (by simp)
  split at h
  · exact absurd h (by simp)
  split at h
  · exact absurd h (by simp)
  split at h
  · exact absurd h (by simp)
  · next hne =>
    rw [← Except.ok.inj h]
    exact ⟨rfl, rfl, hne⟩

namespace Db

theorem checkConflicts_ok {db : Db} {aliasName model : String} {excludeId : Option ℕ}
    (h : db.checkConflicts aliasName model excludeId = .ok ()) :
    (∀ r ∈ db.routes, isLiteral r.modelPattern = true → r.modelPattern ≠ aliasName) ∧
      ∀ a ∈ db.aliases, some a.id ≠ excludeId → a.aliasName ≠ model := by
  unfold checkConflicts at h
  split at h
  · exact absurd h (by simp)
  split at h
  · exact absurd h (by simp)
  · next hroutes haliases =>
    constructor
    · intro r hr hliteral heq
      refine hroutes (List.any_eq_true.2 ⟨r, hr, ?_⟩)
      rw [hliteral, Bool.and_true, decide_eq_true_iff]
      exact heq
    · intro a ha hid heq
      exact haliases (List.any_eq_true.2 ⟨a, ha, decide_eq_true ⟨heq, hid⟩⟩)

theorem checkAlias_ok {db : Db} {input : AliasIn} {excludeId : Option ℕ} {names : String × String}
    (h : db.checkAlias input excludeId = .ok names) :
    names.1 = trim input.aliasName ∧ names.1 ≠ names.2 ∧
      (∀ r ∈ db.routes, isLiteral r.modelPattern = true → r.modelPattern ≠ names.1) ∧
      ∀ a ∈ db.aliases, some a.id ≠ excludeId → a.aliasName ≠ names.2 := by
  rw [checkAlias, bind_eq_ok] at h
  obtain ⟨names', hvalid, h⟩ := h
  obtain ⟨_, hconflicts, heq⟩ := map_eq_ok.1 h
  rw [← heq]
  obtain ⟨hname, -, hne⟩ := validateFields_ok hvalid
  exact ⟨hname, hne, checkConflicts_ok hconflicts⟩

/-! ### Soundness -/

/-- No alias leads to an alias, and no alias has the name of a literal route. -/
structure Sound (db : Db) : Prop where
  unchained : ∀ a ∈ db.aliases, ∀ b ∈ db.aliases, a.model ≠ b.aliasName
  unshadowed : ∀ a ∈ db.aliases, ∀ r ∈ db.routes, isLiteral r.modelPattern = true →
    r.modelPattern ≠ a.aliasName

/-- What an operation is not checked for: a new name of an alias is not the model of another, and a
route for a model of an upstream, which has no route yet, has not the name of an alias. -/
def Clean (db : Db) : Operation → Prop
  | .createAlias input => ∀ a ∈ db.aliases, a.model ≠ trim input.aliasName
  | .updateAlias id input => ∀ a ∈ db.aliases, a.id ≠ id → a.model ≠ trim input.aliasName
  | .addManualRoutes _ models => ∀ m ∈ models, db.hasRoute m = false → isLiteral m = true →
      ∀ a ∈ db.aliases, m ≠ a.aliasName
  | .syncAuto upId fetched => ∀ up, db.upstreams.find? (fun u ↦ decide (u.id = upId)) = some up →
      ∀ m ∈ db.missing up fetched, isLiteral m = true → ∀ a ∈ db.aliases, m ≠ a.aliasName
  | .deleteAlias _ | .replaceRoutes _ => True

theorem sound_createAlias_iff {db db' : Db} (hdb : db.Sound) {input : AliasIn}
    (h : db.createAlias input = .ok db') : db'.Sound ↔ db.Clean (.createAlias input) := by
  rw [createAlias, bind_eq_ok] at h
  obtain ⟨names, hnames, h⟩ := h
  obtain ⟨hname, hne, hroutes, haliases⟩ := checkAlias_ok hnames
  split at h
  · exact absurd h (by simp)
  · rw [Clean, ← hname, ← Except.ok.inj h]
    have hmem : ∀ a, a ∈ db.aliases ++ [⟨db.nextId, names.1, names.2, input.enabled.getD true⟩] ↔
        a ∈ db.aliases ∨ a = ⟨db.nextId, names.1, names.2, input.enabled.getD true⟩ := by
      intro a
      rw [List.mem_append, List.mem_singleton]
    constructor
    · intro hsound a ha
      exact hsound.unchained a ((hmem a).2 (Or.inl ha)) _ ((hmem _).2 (Or.inr rfl))
    · intro hclean
      constructor
      · intro a ha b hb
        rcases (hmem a).1 ha with ha | rfl
        · rcases (hmem b).1 hb with hb | rfl
          · exact hdb.unchained a ha b hb
          · exact hclean a ha
        · rcases (hmem b).1 hb with hb | rfl
          · exact (haliases b hb (Option.some_ne_none _)).symm
          · exact hne.symm
      · intro a ha r hr hliteral
        rcases (hmem a).1 ha with ha | rfl
        · exact hdb.unshadowed a ha r hr hliteral
        · exact hroutes r hr hliteral

theorem sound_updateAlias_iff {db db' : Db} (hdb : db.Sound) {id : ℕ} {input : AliasIn}
    (h : db.updateAlias id input = .ok db') : db'.Sound ↔ db.Clean (.updateAlias id input) := by
  rw [updateAlias, bind_eq_ok] at h
  obtain ⟨names, hnames, h⟩ := h
  obtain ⟨hname, hne, hroutes, haliases⟩ := checkAlias_ok hnames
  split at h
  · exact absurd h (by simp)
  split at h
  · next hexists =>
    obtain ⟨old, hold, hid⟩ := List.any_eq_true.1 hexists
    rw [Clean, ← hname, ← Except.ok.inj h]
    have hmem : ∀ a, a ∈ db.aliases.map (fun a ↦
          if a.id = id then ⟨id, names.1, names.2, input.enabled.getD true⟩ else a) ↔
        (a ∈ db.aliases ∧ a.id ≠ id) ∨ a = ⟨id, names.1, names.2, input.enabled.getD true⟩ := by
      intro a
      rw [List.mem_map]
      constructor
      · intro ⟨b, hb, heq⟩
        split at heq
        · exact Or.inr heq.symm
        · next hne => exact Or.inl (heq ▸ ⟨hb, hne⟩)
      · intro ha
        rcases ha with ⟨ha, hne⟩ | rfl
        · exact ⟨a, ha, if_neg hne⟩
        · exact ⟨old, hold, if_pos (of_decide_eq_true hid)⟩
    constructor
    · intro hsound a ha haid
      exact hsound.unchained a ((hmem a).2 (Or.inl ⟨ha, haid⟩)) _ ((hmem _).2 (Or.inr rfl))
    · intro hclean
      constructor
      · intro a ha b hb
        rcases (hmem a).1 ha with ⟨ha, haid⟩ | rfl
        · rcases (hmem b).1 hb with ⟨hb, -⟩ | rfl
          · exact hdb.unchained a ha b hb
          · exact hclean a ha haid
        · rcases (hmem b).1 hb with ⟨hb, hbid⟩ | rfl
          · exact (haliases b hb fun heq ↦ hbid (Option.some.inj heq)).symm
          · exact hne.symm
      · intro a ha r hr hliteral
        rcases (hmem a).1 ha with ⟨ha, -⟩ | rfl
        · exact hdb.unshadowed a ha r hr hliteral
        · exact hroutes r hr hliteral
  · exact absurd h (by simp)

/-- Routes are inserted. -/
theorem sound_insertRoutes_iff {db db' : Db} {routes : List RouteRow} {rows : List RouteRow}
    (hunchained : ∀ a ∈ db.aliases, ∀ b ∈ db.aliases, a.model ≠ b.aliasName)
    (hunshadowed : ∀ a ∈ db.aliases, ∀ r ∈ routes, isLiteral r.modelPattern = true →
      r.modelPattern ≠ a.aliasName)
    (h : insertRoutes { db with routes := routes } rows = .ok db') :
    db'.Sound ↔ ∀ r ∈ rows, isLiteral r.modelPattern = true →
      ∀ a ∈ db.aliases, r.modelPattern ≠ a.aliasName := by
  obtain ⟨-, haliases, added, hroutes, hcontent⟩ := insertRoutes_ok h
  constructor
  · intro hsound r hr hliteral a ha
    obtain ⟨r', hr', heq⟩ := (mem_pattern_of_content hcontent).2 ⟨r, hr, rfl⟩
    have := hsound.unshadowed a (haliases.symm ▸ ha) r'
      (by rw [hroutes]; exact List.mem_append_right _ hr')
    rw [heq] at this
    exact this hliteral
  · intro hclean
    constructor
    · rw [haliases]
      exact hunchained
    · intro a ha r hr hliteral
      rw [haliases] at ha
      rw [hroutes, List.mem_append] at hr
      rcases hr with hr | hr
      · exact hunshadowed a ha r hr hliteral
      · obtain ⟨r', hr', heq⟩ := (mem_pattern_of_content hcontent).1 ⟨r, hr, rfl⟩
        rw [← heq] at hliteral ⊢
        exact hclean r' hr' hliteral a ha

/-- An operation that succeeds keeps the tables sound when it does nothing that it is not checked
for, and only then. -/
theorem sound_exec_iff {db db' : Db} (hdb : db.Sound) {op : Operation}
    (h : db.exec op = .ok db') : db'.Sound ↔ db.Clean op := by
  cases op with
  | createAlias input => exact sound_createAlias_iff hdb h
  | updateAlias id input => exact sound_updateAlias_iff hdb h
  | deleteAlias id =>
    rw [exec, deleteAlias] at h
    split at h
    · rw [← Except.ok.inj h]
      refine iff_of_true ⟨?_, ?_⟩ trivial
      · intro a ha b hb
        exact hdb.unchained a (List.mem_of_mem_filter ha) b (List.mem_of_mem_filter hb)
      · intro a ha
        exact hdb.unshadowed a (List.mem_of_mem_filter ha)
    · exact absurd h (by simp)
  | replaceRoutes routes =>
    rw [exec, replaceRoutes] at h
    split at h
    · exact absurd h (by simp)
    obtain ⟨-, -, h⟩ := bind_eq_ok.1 h
    split at h
    · exact absurd h (by simp)
    split at h
    · exact absurd h (by simp)
    · next hhit =>
      rw [sound_insertRoutes_iff hdb.unchained (fun _ _ r hr ↦ absurd hr List.not_mem_nil) h]
      refine iff_of_true ?_ trivial
      intro r hr hliteral a ha heq
      obtain ⟨item, hitem, rfl⟩ := List.mem_map.1 hr
      refine List.find?_eq_none.1 hhit a.aliasName (List.mem_map_of_mem ha) ?_
      rw [List.contains_iff_mem, ← heq]
      exact List.mem_filter.2 ⟨List.mem_map_of_mem hitem, hliteral⟩
  | addManualRoutes upId models =>
    rw [exec, addManualRoutes] at h
    split at h
    · exact absurd h (by simp)
    split at h
    · exact absurd h (by simp)
    split at h
    · exact absurd h (by simp)
    · rw [sound_insertRoutes_iff hdb.unchained hdb.unshadowed h]
      constructor
      · intro hrows m hm hnone hliteral a ha
        exact hrows _ (List.mem_map_of_mem (List.mem_filter.2 ⟨hm, by rw [hnone]; rfl⟩)) hliteral a ha
      · intro hclean r hr hliteral a ha
        obtain ⟨m, hm, rfl⟩ := List.mem_map.1 hr
        obtain ⟨hm, hnone⟩ := List.mem_filter.1 hm
        exact hclean m hm (Bool.not_eq_true' _ ▸ hnone) hliteral a ha
  | syncAuto upId fetched =>
    rw [exec, syncAuto] at h
    split at h
    · exact absurd h (by simp)
    · next up hup =>
      obtain ⟨next, hnext, heq⟩ := map_eq_ok.1 h
      have hsame : db'.Sound ↔ next.Sound := by
        rw [← heq]
        exact ⟨fun ⟨h, h'⟩ ↦ ⟨h, h'⟩, fun ⟨h, h'⟩ ↦ ⟨h, h'⟩⟩
      rw [hsame, sound_insertRoutes_iff hdb.unchained
        (fun a ha r hr ↦ hdb.unshadowed a ha r (List.mem_of_mem_filter hr)) hnext]
      constructor
      · intro hrows up' hup' m hm hliteral a ha
        rw [hup] at hup'
        rw [← Option.some.inj hup'] at hm
        exact hrows _ (List.mem_map_of_mem hm) hliteral a ha
      · intro hclean r hr hliteral a ha
        obtain ⟨m, hm, rfl⟩ := List.mem_map.1 hr
        exact hclean up hup m hm hliteral a ha

/-! ### Runs -/

/-- An operation that succeeds does nothing that it is not checked for. -/
def CleanStep (db : Db) (op : Operation) : Prop := (∃ db', db.exec op = .ok db') → db.Clean op

theorem sound_step_iff {db : Db} (hdb : db.Sound) (op : Operation) :
    (db.step op).Sound ↔ db.CleanStep op := by
  rw [step, CleanStep]
  cases hexec : db.exec op with
  | error e =>
    refine iff_of_true hdb ?_
    intro ⟨db', h⟩
    exact absurd h (by simp)
  | ok db' =>
    rw [sound_exec_iff hdb hexec]
    exact ⟨fun h _ ↦ h, fun h ↦ h ⟨db', rfl⟩⟩

/-- Tables without aliases and routes. -/
def start (upstreams : List UpstreamCols) : Db where
  upstreams := upstreams

theorem sound_start (upstreams : List UpstreamCols) : (start upstreams).Sound where
  unchained _ ha := absurd ha List.not_mem_nil
  unshadowed _ ha := absurd ha List.not_mem_nil

/-- The tables are sound in every state of a run. -/
def SoundRun (db : Db) (ops : List Operation) : Prop :=
  ∀ before after, ops = before ++ after → (db.run before).Sound

/-- No operation of a run does anything that it is not checked for. -/
def CleanRun (db : Db) (ops : List Operation) : Prop :=
  ∀ before op after, ops = before ++ op :: after → (db.run before).CleanStep op

/-- From the empty tables, a run keeps them sound when its operations that succeed never take the
model of an alias as a name for another, nor route a model that is the name of an alias. -/
theorem sound_run_iff (upstreams : List UpstreamCols) (ops : List Operation) :
    (start upstreams).SoundRun ops ↔ (start upstreams).CleanRun ops :=
  Transition.forall_run_iff_eachStep (sound_start upstreams)
    (fun _ op hbefore ↦ sound_step_iff hbefore op) ops


end Db

/-- In sound tables, what an alias leads to is not an alias: looking a second time changes
nothing. -/
theorem resolveAlias_resolved {db : Db} (hdb : db.Sound) {model target entry : String}
    (h : resolveAlias db.aliases model = (target, some entry)) :
    resolveAlias db.aliases target = (target, none) := by
  unfold resolveAlias at h
  split at h
  · next a hfind =>
    split at h
    · have htarget : a.model = target := (Prod.mk.inj h).1
      have hnone : db.aliases.find? (fun b ↦ decide (b.aliasName = target)) = none := by
        rw [List.find?_eq_none]
        intro b hb heq
        exact hdb.unchained a (List.mem_of_find?_eq_some hfind) b hb
          (htarget.trans (of_decide_eq_true heq).symm)
      rw [resolveAlias, hnone]
    · exact absurd (Prod.mk.inj h).2.symm (Option.some_ne_none entry)
  · exact absurd (Prod.mk.inj h).2.symm (Option.some_ne_none entry)

/-! ### An alias of an alias -/

/-- An alias for the model that an alias was made for before is refused, but the other order is
not. -/
theorem not_sound_aliasOfAlias :
    ¬ (Db.start []).SoundRun
      [.createAlias ⟨"fast", "gpt-4o", none⟩, .createAlias ⟨"gpt-4o", "gpt-4o-mini", none⟩] := by
  intro h
  have hsound := (h _ [] (List.append_nil _).symm).unchained
  exact absurd hsound (by decide +kernel)

end NextApi.Admin
