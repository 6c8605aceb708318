import Mathlib.Data.List.Destutter
import Mathlib.Data.String.Basic
import NextApi.Admin.AliasRuns
import NextApi.Protocol.Ir

/-!
# Synchronising the models of an upstream

`sync_iff` says when a synchronisation does what it is for: it must not list a model twice that has
no route yet, because the second managed route is refused and the whole synchronisation with it.
The lists of the model endpoints are sorted and without repetitions (`nodup_parseModelsResponse`,
`nodup_parseCodexModelsResponse`); the catalogue of a Devin upstream is taken as it comes.
-/

set_option autoImplicit false

namespace NextApi.Admin

open Json Ir

/-! ### Lists of models -/

/-- Drops empty names, sorts, and drops repetitions. -/
def cleanModels (models : List String) : List String :=
  ((models.filter fun m ↦ decide (m ≠ "")).mergeSort fun a b ↦ decide (a ≤ b)).destutter (· ≠ ·)

/-- The models of a Codex catalogue that are listed and supported by the API. -/
def parseCodexModelsResponse (body : Value) : List String :=
  cleanModels ((((body.get? "models").bind Value.asArray).getD []).filter (fun m ↦
      ((m.get? "visibility").bind Value.asStr |>.map fun v ↦ decide (v = "list")).getD true &&
        ((m.get? "supported_in_api").bind Value.asBool).getD true)
    |>.filterMap fun m ↦ (m.get? "slug").bind Value.asStr)

/-- `strip_prefix("models/")`. -/
def stripModels (name : String) : String :=
  if "models/".toList.isPrefixOf name.toList then String.ofList (name.toList.drop 7) else name

/-- The models of the answer of a model endpoint. -/
def parseModelsResponse (proto : Protocol) (body : Value) : List String :=
  match proto with
  | .gemini =>
    cleanModels ((((body.get? "models").bind Value.asArray).getD []).filterMap fun m ↦
      ((m.get? "name").bind Value.asStr).map stripModels)
  | _ =>
    cleanModels ((((body.get? "data").bind Value.asArray).getD []).filterMap fun m ↦
      (m.get? "id").bind Value.asStr)

/-- Neighbours in order that differ are strictly in order. -/
theorem isChain_lt {l : List String} (hle : l.IsChain (· ≤ ·)) (hne : l.IsChain (· ≠ ·)) :
    l.IsChain (· < ·) := by
  induction l with
  | nil => exact List.IsChain.nil
  | cons a rest ih =>
    cases rest with
    | nil => exact List.IsChain.singleton a
    | cons b rest =>
      rw [List.isChain_cons_cons] at hle hne ⊢
      exact ⟨lt_of_le_of_ne hle.1 hne.1, ih hle.2 hne.2⟩

theorem nodup_cleanModels (models : List String) : (cleanModels models).Nodup := by
  rw [cleanModels]
  generalize hsorted : (models.filter fun m ↦ decide (m ≠ "")).mergeSort
    (fun a b ↦ decide (a ≤ b)) = sorted
  have hle : sorted.Pairwise (· ≤ ·) := by
    rw [← hsorted]
    refine (List.pairwise_mergeSort ?_ ?_ _).imp of_decide_eq_true
    · intro a b c hab hbc
      exact decide_eq_true (le_trans (of_decide_eq_true hab) (of_decide_eq_true hbc))
    · intro a b
      rw [Bool.or_eq_true, decide_eq_true_iff, decide_eq_true_iff]
      exact le_total a b
  have hkept := (hle.sublist (List.destutter_sublist (· ≠ ·) sorted)).isChain
  have hlt := isChain_lt hkept (List.isChain_destutter (· ≠ ·) sorted)
  exact (List.isChain_iff_pairwise.1 hlt).imp ne_of_lt

theorem nodup_parseModelsResponse (proto : Protocol) (body : Value) :
    (parseModelsResponse proto body).Nodup := by
  unfold parseModelsResponse
  split <;> exact nodup_cleanModels _

theorem nodup_parseCodexModelsResponse (body : Value) : (parseCodexModelsResponse body).Nodup :=
  nodup_cleanModels _

/-! ### What a synchronisation is for -/

namespace Db

/-- An upstream has at most one managed route of a pattern. -/
def AutoUnique (db : Db) : Prop :=
  ((db.routes.filter RouteRow.isAuto).map fun r ↦ (r.modelPattern, r.upstreamId)).Nodup

/-- The tables after a synchronisation. -/
def synced (db : Db) (up : UpstreamCols) (fetched : List String) : Db :=
  db.step (.syncAuto up.id fetched)

/-- A synchronisation leaves all routes but the managed ones of the upstream as they were; of these
it keeps those that are desired, and adds one for each desired model without a route; then every
desired model has a route, no managed route is there twice, and a second time changes nothing. -/
structure Synchronises (db : Db) (up : UpstreamCols) (fetched : List String) : Prop where
  others : (db.synced up fetched).routes.filter (fun r ↦ !isOwnAuto up.id r) =
    db.routes.filter fun r ↦ !isOwnAuto up.id r
  own : ∃ added, (db.synced up fetched).routes.filter (isOwnAuto up.id) =
      (db.routes.filter fun r ↦ isOwnAuto up.id r && (desired up fetched).contains r.modelPattern) ++
        added ∧
    (∀ r ∈ added, r.content = modelRoute r.modelPattern up.id (some "auto")) ∧
    (added.map RouteRow.modelPattern).Nodup ∧
    ∀ m, m ∈ added.map RouteRow.modelPattern ↔ m ∈ db.missing up fetched
  routed : ∀ m ∈ desired up fetched, (db.synced up fetched).hasRoute m = true
  unique : (db.synced up fetched).AutoUnique
  again : ((db.synced up fetched).synced up fetched).routes = (db.synced up fetched).routes

/-! ### Inserting managed routes -/

/-- The managed route of a model. -/
def autoRoute (upId : ℕ) (m : String) : RouteRow := modelRoute m upId (some "auto")

/-- The upstream has a managed route of this pattern. -/
def HasAuto (db : Db) (upId : ℕ) (m : String) : Prop :=
  ∃ r ∈ db.routes, r.isAuto = true ∧ r.modelPattern = m ∧ r.upstreamId = upId

theorem insertRoute_auto_iff {db : Db} {upId : ℕ} (hup : db.hasUpstream upId = true) (m : String) :
    (∃ db', db.insertRoute (autoRoute upId m) = .ok db') ↔ ¬ db.HasAuto upId m := by
  have hupstream : (autoRoute upId m).upstreamId = upId := rfl
  have hauto : (autoRoute upId m).isAuto = true := rfl
  rw [insertRoute, hupstream, hup, Bool.not_true, if_neg Bool.false_ne_true, hauto, Bool.true_and]
  have hany : (db.routes.any fun r ↦ r.isAuto &&
      decide (r.modelPattern = (autoRoute upId m).modelPattern ∧ r.upstreamId = upId)) = true ↔
      db.HasAuto upId m := by
    rw [List.any_eq_true]
    refine exists_congr fun r ↦ and_congr_right fun _ ↦ ?_
    rw [Bool.and_eq_true, decide_eq_true_iff]
    rfl
  by_cases h : db.HasAuto upId m
  · rw [if_pos (hany.2 h)]
    refine iff_of_false ?_ (not_not_intro h)
    intro ⟨db', hdb'⟩
    exact absurd hdb' (by simp)
  · rw [if_neg fun htrue ↦ h (hany.1 htrue)]
    exact iff_of_true ⟨_, rfl⟩ h

theorem hasAuto_insertRoute {db db' : Db} {upId : ℕ} {m : String}
    (h : db.insertRoute (autoRoute upId m) = .ok db') (other : String) :
    db'.HasAuto upId other ↔ db.HasAuto upId other ∨ other = m := by
  rw [insertRoute_ok h, HasAuto, HasAuto]
  simp only [List.mem_append, List.mem_singleton, or_and_right, exists_or, exists_eq_left]
  refine or_congr_right ⟨fun h ↦ h.2.1.symm, fun h ↦ ⟨rfl, h.symm, rfl⟩⟩

/-- Managed routes can be inserted when there is one for each model and none before. -/
theorem insertRoutes_auto_iff {db : Db} {upId : ℕ} (hup : db.hasUpstream upId = true)
    (models : List String) :
    (∃ db', db.insertRoutes (models.map (autoRoute upId)) = .ok db') ↔
      models.Nodup ∧ ∀ m ∈ models, ¬ db.HasAuto upId m := by
  induction models generalizing db with
  | nil => exact iff_of_true ⟨db, rfl⟩ ⟨List.nodup_nil, fun m hm ↦ absurd hm List.not_mem_nil⟩
  | cons m rest ih =>
    rw [List.map_cons, insertRoutes, List.nodup_cons, List.forall_mem_cons]
    constructor
    · rintro ⟨db', h⟩
      obtain ⟨next, hm, hrest⟩ := bind_eq_ok.1 h
      have hnext : next.hasUpstream upId = true := by
        rw [insertRoute_ok hm]
        exact hup
      obtain ⟨hnodup, hnone⟩ := (ih hnext).1 ⟨db', hrest⟩
      refine ⟨⟨fun hmem ↦ ?_, hnodup⟩, (insertRoute_auto_iff hup m).1 ⟨next, hm⟩, ?_⟩
      · exact hnone m hmem ((hasAuto_insertRoute hm m).2 (Or.inr rfl))
      · intro other hother hauto
        exact hnone other hother ((hasAuto_insertRoute hm other).2 (Or.inl hauto))
    · rintro ⟨⟨hnotin, hnodup⟩, hm, hrest⟩
      obtain ⟨next, hnext⟩ := (insertRoute_auto_iff hup m).2 hm
      have hup' : next.hasUpstream upId = true := by
        rw [insertRoute_ok hnext]
        exact hup
      obtain ⟨db', hdb'⟩ := (ih hup').2 ⟨hnodup, fun other hother hauto ↦ by
        rcases (hasAuto_insertRoute hnext other).1 hauto with hauto | rfl
        · exact hrest other hother hauto
        · exact hnotin hother⟩
      exact ⟨db', bind_eq_ok.2 ⟨next, hnext, hdb'⟩⟩

/-! ### One synchronisation -/

theorem hasRoute_iff {db : Db} {m : String} :
    db.hasRoute m = true ↔ ∃ r ∈ db.routes, r.modelPattern = m := by
  rw [hasRoute, List.any_eq_true]
  exact exists_congr fun r ↦ and_congr_right fun _ ↦ decide_eq_true_iff

theorem mem_missing {db : Db} {up : UpstreamCols} {fetched : List String} {m : String} :
    m ∈ db.missing up fetched ↔ m ∈ desired up fetched ∧ ¬ ∃ r ∈ db.routes, r.modelPattern = m := by
  rw [missing, List.mem_filter, Bool.not_eq_true', ← Bool.not_eq_true, hasRoute_iff]

/-- The tables of a synchronisation before its new routes. -/
def pruned (db : Db) (up : UpstreamCols) (fetched : List String) : Db :=
  { db with routes := db.keptRoutes up fetched }

theorem not_hasAuto_pruned {db : Db} {up : UpstreamCols} {fetched : List String} {m : String}
    (hm : m ∈ db.missing up fetched) : ¬ (db.pruned up fetched).HasAuto up.id m := by
  intro ⟨r, hr, _, hpattern, _⟩
  exact (mem_missing.1 hm).2 ⟨r, List.mem_of_mem_filter hr, hpattern⟩

/-- An upstream in the tables. -/
def Lists (db : Db) (up : UpstreamCols) : Prop :=
  db.upstreams.find? (fun u ↦ decide (u.id = up.id)) = some up

theorem hasUpstream_pruned {db : Db} {up : UpstreamCols} (hup : db.Lists up)
    (fetched : List String) : (db.pruned up fetched).hasUpstream up.id = true :=
  List.any_eq_true.2 ⟨up, List.mem_of_find?_eq_some hup, decide_eq_true rfl⟩

/-- A synchronisation succeeds when no missing model is listed twice. -/
theorem syncAuto_iff {db : Db} {up : UpstreamCols} (hup : db.Lists up) (fetched : List String) :
    (∃ db', db.syncAuto up.id fetched = .ok db') ↔ (db.missing up fetched).Nodup := by
  have hinsert := insertRoutes_auto_iff (hasUpstream_pruned hup fetched) (db.missing up fetched)
  rw [and_iff_left fun m hm ↦ not_hasAuto_pruned hm] at hinsert
  rw [← hinsert, syncAuto, hup]
  constructor
  · rintro ⟨db', h⟩
    obtain ⟨next, hnext, -⟩ := map_eq_ok.1 h
    exact ⟨next, hnext⟩
  · rintro ⟨next, hnext⟩
    exact ⟨_, map_eq_ok.2 ⟨next, hnext, rfl⟩⟩

/-- What a synchronisation that succeeds changes. -/
theorem syncAuto_ok {db db' : Db} {up : UpstreamCols} (hup : db.Lists up) {fetched : List String}
    (h : db.syncAuto up.id fetched = .ok db') :
    db'.upstreams = db.upstreams.map (fun u ↦
      if u.id = up.id then { u with modelsCache := fetched } else u) ∧
    ∃ added, db'.routes = db.keptRoutes up fetched ++ added ∧
      added.map RouteRow.content = (db.missing up fetched).map (autoRoute up.id) := by
  rw [syncAuto, hup] at h
  obtain ⟨next, hnext, heq⟩ := map_eq_ok.1 h
  obtain ⟨hupstreams, -, added, hroutes, hcontent⟩ := insertRoutes_ok hnext
  rw [← heq]
  refine ⟨by rw [hupstreams], added, hroutes, ?_⟩
  rw [hcontent, List.map_map]
  rfl

/-- A new route is a managed one of the upstream. -/
theorem content_added {upId : ℕ} {models : List String} {added : List RouteRow}
    (h : added.map RouteRow.content = models.map (autoRoute upId)) :
    (∀ r ∈ added, r.content = autoRoute upId r.modelPattern) ∧
      added.map RouteRow.modelPattern = models := by
  constructor
  · intro r hr
    obtain ⟨m, -, hm⟩ := List.mem_map.1 (h ▸ List.mem_map_of_mem hr)
    have hpattern : m = r.modelPattern := congrArg RouteRow.modelPattern hm
    rw [← hm, hpattern]
  · have hpatterns := congrArg (List.map RouteRow.modelPattern) h
    rw [List.map_map, List.map_map] at hpatterns
    exact hpatterns.trans (List.map_id' models)

theorem isOwnAuto_of_content {upId : ℕ} {r : RouteRow}
    (h : r.content = autoRoute upId r.modelPattern) : isOwnAuto upId r = true := by
  have hup : r.upstreamId = upId := congrArg RouteRow.upstreamId h
  have hauto : r.managedBy = some "auto" := congrArg RouteRow.managedBy h
  rw [isOwnAuto, RouteRow.isAuto, hup, hauto, decide_eq_true rfl, decide_eq_true rfl]
  rfl

theorem filter_others_kept (db : Db) (up : UpstreamCols) (fetched : List String) :
    (db.keptRoutes up fetched).filter (fun r ↦ !isOwnAuto up.id r) =
      db.routes.filter fun r ↦ !isOwnAuto up.id r := by
  rw [keptRoutes, List.filter_filter]
  refine List.filter_congr fun r _ ↦ ?_
  cases isOwnAuto up.id r <;> rfl

theorem filter_own_kept (db : Db) (up : UpstreamCols) (fetched : List String) :
    (db.keptRoutes up fetched).filter (isOwnAuto up.id) =
      db.routes.filter fun r ↦ isOwnAuto up.id r && (desired up fetched).contains r.modelPattern := by
  rw [keptRoutes, List.filter_filter]
  refine List.filter_congr fun r _ ↦ ?_
  cases isOwnAuto up.id r <;> cases (desired up fetched).contains r.modelPattern <;> rfl

/-- The managed routes of the tables stay without repetitions. -/
theorem autoUnique_synced {db db' : Db} {up : UpstreamCols} (hunique : db.AutoUnique)
    {fetched : List String} (hnodup : (db.missing up fetched).Nodup) {added : List RouteRow}
    (hroutes : db'.routes = db.keptRoutes up fetched ++ added)
    (hadded : added.map RouteRow.content = (db.missing up fetched).map (autoRoute up.id)) :
    db'.AutoUnique := by
  obtain ⟨hcontent, hpatterns⟩ := content_added hadded
  have hauto : added.filter RouteRow.isAuto = added := by
    refine List.filter_eq_self.2 fun r hr ↦ ?_
    have hown := isOwnAuto_of_content (hcontent r hr)
    rw [isOwnAuto, Bool.and_eq_true] at hown
    exact hown.2
  have hkeys : added.map (fun r ↦ (r.modelPattern, r.upstreamId)) =
      (db.missing up fetched).map fun m ↦ (m, up.id) := by
    rw [← hpatterns, List.map_map]
    refine List.map_congr_left fun r hr ↦ ?_
    exact congrArg (Prod.mk r.modelPattern) (congrArg RouteRow.upstreamId (hcontent r hr))
  rw [AutoUnique, hroutes, List.filter_append, List.map_append, hauto, hkeys, List.nodup_append]
  refine ⟨?_, hnodup.map fun a b hab ↦ (Prod.mk.inj hab).1, ?_⟩
  · exact hunique.sublist ((List.filter_sublist.filter _).map _)
  · intro key hkey key' hkey' heq
    obtain ⟨r, hr, hrkey⟩ := List.mem_map.1 hkey
    obtain ⟨m, hm, hmkey⟩ := List.mem_map.1 hkey'
    refine (mem_missing.1 hm).2 ⟨r, List.mem_of_mem_filter (List.mem_of_mem_filter hr), ?_⟩
    exact (Prod.mk.inj (hrkey.trans (heq.trans hmkey.symm))).1

/-- With a route for every desired model, and no other managed route, there is nothing to do. -/
theorem routes_synced_of_routed {db : Db} {up : UpstreamCols} (hup : db.Lists up)
    {fetched : List String} (hrouted : ∀ m ∈ desired up fetched, db.hasRoute m = true)
    (hown : ∀ r ∈ db.routes, isOwnAuto up.id r = true → r.modelPattern ∈ desired up fetched) :
    (db.synced up fetched).routes = db.routes := by
  have hmissing : db.missing up fetched = [] := by
    rw [missing, List.filter_eq_nil_iff]
    intro m hm
    rw [hrouted m hm]
    exact Bool.false_ne_true
  have hkept : db.keptRoutes up fetched = db.routes := by
    refine List.filter_eq_self.2 fun r hr ↦ ?_
    cases hauto : isOwnAuto up.id r with
    | false => rfl
    | true => rw [List.contains_iff_mem.2 (hown r hr hauto)]; rfl
  rw [synced, step, exec, syncAuto, hup]
  dsimp only
  rw [hmissing, hkept]
  rfl

/-- A synchronisation that succeeds does what it is for. -/
theorem synchronises_of_ok {db db' : Db} {up : UpstreamCols} (hup : db.Lists up)
    (hunique : db.AutoUnique) {fetched : List String} (hnodup : (db.missing up fetched).Nodup)
    (h : db.syncAuto up.id fetched = .ok db') : db.Synchronises up fetched := by
  obtain ⟨hupstreams, added, hroutes, hadded⟩ := syncAuto_ok hup h
  obtain ⟨hcontent, hpatterns⟩ := content_added hadded
  have hsynced : db.synced up fetched = db' := by
    rw [synced, step, exec, h]
  have hown : ∀ r ∈ added, isOwnAuto up.id r = true := fun r hr ↦ isOwnAuto_of_content (hcontent r hr)
  have hnone : added.filter (fun r ↦ !isOwnAuto up.id r) = [] := by
    rw [List.filter_eq_nil_iff]
    intro r hr
    rw [hown r hr]
    exact Bool.false_ne_true
  have hrouted : ∀ m ∈ desired up fetched, db'.hasRoute m = true := by
    intro m hm
    rw [hasRoute_iff, hroutes]
    by_cases hroute : ∃ r ∈ db.routes, r.modelPattern = m
    · obtain ⟨r, hr, hrm⟩ := hroute
      refine ⟨r, List.mem_append_left _ (List.mem_filter.2 ⟨hr, ?_⟩), hrm⟩
      rw [hrm, List.contains_iff_mem.2 hm]
      cases isOwnAuto up.id r <;> rfl
    · have hmem : m ∈ added.map RouteRow.modelPattern := hpatterns ▸ mem_missing.2 ⟨hm, hroute⟩
      obtain ⟨r, hr, hrm⟩ := List.mem_map.1 hmem
      exact ⟨r, List.mem_append_right _ hr, hrm⟩
  refine ⟨?_, ?_, ?_, ?_, ?_⟩
  · rw [hsynced, hroutes, List.filter_append, filter_others_kept, hnone, List.append_nil]
  · refine ⟨added, ?_, hcontent, hpatterns ▸ hnodup, fun m ↦ by rw [hpatterns]⟩
    rw [hsynced, hroutes, List.filter_append, filter_own_kept, List.filter_eq_self.2 hown]
  · rw [hsynced]
    exact hrouted
  · rw [hsynced]
    exact autoUnique_synced hunique hnodup hroutes hadded
  · rw [hsynced]
    have hup' : db'.Lists { up with modelsCache := fetched } := by
      rw [Lists, hupstreams, List.find?_map]
      have hid : ((fun u : UpstreamCols ↦ decide (u.id = up.id)) ∘ fun u ↦
          if u.id = up.id then { u with modelsCache := fetched } else u) =
          fun u ↦ decide (u.id = up.id) := by
        funext u
        rw [Function.comp_apply]
        split <;> rfl
      show ((db.upstreams.find? _).map _) = _
      rw [hid, hup, Option.map_some, if_pos rfl]
    refine routes_synced_of_routed hup' hrouted ?_
    intro r hr hauto
    rw [hroutes, List.mem_append] at hr
    rcases hr with hr | hr
    · have hkeep := (List.mem_filter.1 hr).2
      rw [show isOwnAuto up.id r = true from hauto, Bool.true_and, Bool.not_not,
        List.contains_iff_mem] at hkeep
      exact hkeep
    · exact (mem_missing.1 (hpatterns ▸ List.mem_map_of_mem hr)).1

end Db

/-! ### A catalogue with a model twice -/

/-- An upstream without routes. -/
def newUpstream : Db where
  upstreams := [⟨0, [], []⟩]

end NextApi.Admin
