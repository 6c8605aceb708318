import Mathlib.Data.Int.Basic
import NextApi.Error
import NextApi.Stream.Run
import NextApi.Text.Lines

/-!
# Routes and aliases

A route sends the requests for a model to an upstream; its pattern is the name of the model, or has
wildcards. An alias is another name for a model, which is looked up once before the routes are.

The administrator makes, changes and deletes aliases, replaces the whole route table, and adds
routes for models of an upstream. An upstream can also be synchronised: the models that it lists,
less the excluded ones, get managed routes, and managed routes of models that it no longer lists are
deleted. Routes that the administrator made, and routes of other upstreams, are left alone.

Every operation is one transaction here, and an operation that fails leaves the tables as they
were. The tables have unique aliases, and for an upstream at most one managed route of a pattern.
Ids are numbers in the order of insertion. The snapshot that some operations look up an upstream in
is taken to be the table.
-/

set_option autoImplicit false

namespace NextApi.Admin

/-- `trim`. -/
def trim (s : String) : String := String.ofList (Text.trim s.toList)

/-- A pattern without wildcards. -/
def isLiteral (pattern : String) : Bool := !pattern.toList.contains '*'

/-! ### Tables -/

structure AliasRow where
  id : ℕ
  aliasName : String
  model : String
  enabled : Bool
  deriving DecidableEq, Inhabited

structure RouteRow where
  id : ℕ
  modelPattern : String
  upstreamId : ℕ
  overrideModel : Option String := none
  priority : ℤ := 10
  weight : ℤ := 1
  enabled : Bool := true
  retries : ℤ := 2
  retryStatusCodes : List ℤ := [429, 500, 502, 503, 504]
  lockUpstream : Bool := false
  sortOrder : ℤ := 0
  managedBy : Option String := none
  deriving DecidableEq, Inhabited

/-- A route that the synchronisation manages. -/
def RouteRow.isAuto (r : RouteRow) : Bool := decide (r.managedBy = some "auto")

/-- What the synchronisation reads and writes of an upstream. -/
structure UpstreamCols where
  id : ℕ
  modelExclude : List String
  modelsCache : List String := []
  deriving DecidableEq, Inhabited

structure Db where
  upstreams : List UpstreamCols
  routes : List RouteRow := []
  aliases : List AliasRow := []
  nextId : ℕ := 0
  deriving DecidableEq, Inhabited

namespace Db

def hasUpstream (db : Db) (id : ℕ) : Bool := db.upstreams.any fun u ↦ decide (u.id = id)

def hasRoute (db : Db) (pattern : String) : Bool :=
  db.routes.any fun r ↦ decide (r.modelPattern = pattern)

/-- Inserts a route, unless there is no such upstream or the route is the second managed one of its
pattern there. -/
def insertRoute (db : Db) (row : RouteRow) : Except ApiError Db :=
  if !db.hasUpstream row.upstreamId then .error (.internal "foreign key violation")
  else if row.isAuto && db.routes.any fun r ↦ r.isAuto &&
      decide (r.modelPattern = row.modelPattern ∧ r.upstreamId = row.upstreamId) then
    .error (.internal "unique violation")
  else .ok { db with routes := db.routes ++ [{ row with id := db.nextId }], nextId := db.nextId + 1 }

def insertRoutes (db : Db) : List RouteRow → Except ApiError Db
  | [] => .ok db
  | row :: rest => (db.insertRoute row).bind fun db ↦ insertRoutes db rest

/-! ### Aliases -/

end Db

structure AliasIn where
  aliasName : String
  model : String
  enabled : Option Bool := none
  deriving Inhabited

/-- Checks the names of an alias and of its model, and trims them. -/
def validateFields (aliasName model : String) : Except ApiError (String × String) :=
  let aliasName := trim aliasName
  let model := trim model
  if aliasName = "" ∨ aliasName.length > 255 then .error (.badRequest "alias 不能为空且不能超过 255 字符")
  else if model = "" ∨ model.length > 255 then
    .error (.badRequest "model 不能为空且不能超过 255 字符")
  else if !(aliasName.toList.head?.any Char.isAlphanum &&
      aliasName.toList.all fun c ↦ c.isAlphanum || ['.', '_', ':', '/', '-'].contains c) then
    .error (.badRequest "alias 须以字母或数字开头，只能包含字母、数字与 . _ : / -")
  else if aliasName.toList.contains '*' then .error (.badRequest "alias 不能包含通配符 *")
  else if aliasName = model then .error (.badRequest "alias 与 model 相同则别名无意义")
  else .ok (aliasName, model)

namespace Db

/-- An alias is no literal pattern of a route, and its model is not another alias. -/
def checkConflicts (db : Db) (aliasName model : String) (excludeId : Option ℕ) : Except ApiError Unit :=
  if db.routes.any fun r ↦ decide (r.modelPattern = aliasName) && isLiteral r.modelPattern then
    .error (.conflict ("alias `" ++ aliasName ++ "` 与现有路由 model_pattern 冲突"))
  else if db.aliases.any fun a ↦ decide (a.aliasName = model ∧ some a.id ≠ excludeId) then
    .error (.conflict ("model `" ++ model ++ "` 是另一别名，不支持链式别名"))
  else .ok ()

/-- The checks of a new alias or of a change, on the trimmed names. -/
def checkAlias (db : Db) (input : AliasIn) (excludeId : Option ℕ) :
    Except ApiError (String × String) :=
  (validateFields input.aliasName input.model).bind fun names ↦
    (db.checkConflicts names.1 names.2 excludeId).map fun _ ↦ names

def createAlias (db : Db) (input : AliasIn) : Except ApiError Db :=
  (db.checkAlias input none).bind fun names ↦
    if db.aliases.any fun a ↦ decide (a.aliasName = names.1) then
      .error (.conflict ("alias `" ++ names.1 ++ "` 已存在"))
    else
      .ok { db with
        aliases := db.aliases ++ [⟨db.nextId, names.1, names.2, input.enabled.getD true⟩]
        nextId := db.nextId + 1 }

def updateAlias (db : Db) (id : ℕ) (input : AliasIn) : Except ApiError Db :=
  (db.checkAlias input (some id)).bind fun names ↦
    if db.aliases.any fun a ↦ decide (a.aliasName = names.1 ∧ a.id ≠ id) then
      .error (.conflict ("alias `" ++ names.1 ++ "` 已存在"))
    else if db.aliases.any fun a ↦ decide (a.id = id) then
      .ok { db with
        aliases := db.aliases.map fun a ↦
          if a.id = id then ⟨id, names.1, names.2, input.enabled.getD true⟩ else a }
    else .error .notFound

def deleteAlias (db : Db) (id : ℕ) : Except ApiError Db :=
  if db.aliases.any fun a ↦ decide (a.id = id) then
    .ok { db with aliases := db.aliases.filter fun a ↦ decide (a.id ≠ id) }
  else .error .notFound

end Db

/-- The model that a request is for: an alias that is enabled is followed once. -/
def resolveAlias (aliases : List AliasRow) (model : String) : String × Option String :=
  match aliases.find? fun a ↦ decide (a.aliasName = model) with
  | some a => if a.enabled && decide (trim a.model ≠ "") then (a.model, some model) else (model, none)
  | none => (model, none)

/-! ### Routes -/

structure RouteItem where
  modelPattern : String
  upstreamId : ℕ
  overrideModel : Option String := none
  priority : Option ℤ := none
  weight : Option ℤ := none
  enabled : Option Bool := none
  retries : Option ℤ := none
  retryStatusCodes : Option (List ℤ) := none
  lockUpstream : Option Bool := none
  sortOrder : Option ℤ := none
  managedBy : Option String := none
  deriving Inhabited

namespace RouteItem

/-- The checks of one route of a replacement. -/
def validate (r : RouteItem) : Except ApiError Unit :=
  if r.weight.getD 1 ≤ 0 then
    .error (.badRequest ("model_pattern `" ++ r.modelPattern ++ "` 的 weight 必须 > 0"))
  else if r.managedBy.any fun mb ↦ decide (mb ≠ "auto") then
    .error (.badRequest ("model_pattern `" ++ r.modelPattern ++ "` 的 managed_by 仅允许 'auto'"))
  else if trim r.modelPattern = "" then .error (.badRequest "model_pattern 不能为空")
  else if r.modelPattern.length > 255 then .error (.badRequest "model_pattern 不能超过 255 字符")
  else if r.overrideModel.any fun m ↦ decide (trim m = "") then
    .error (.badRequest "override_model 不能为空字符串")
  else if r.overrideModel.any fun m ↦ decide (m.length > 255) then
    .error (.badRequest "override_model 不能超过 255 字符")
  else if (r.retryStatusCodes.getD []).length > 20 then
    .error (.badRequest "retry_status_codes 最多 20 个状态码")
  else .ok ()

/-- The row of a route, with the defaults of what is absent. -/
def toRow (r : RouteItem) : RouteRow where
  id := 0
  modelPattern := r.modelPattern
  upstreamId := r.upstreamId
  overrideModel := r.overrideModel
  priority := r.priority.getD 10
  weight := r.weight.getD 1
  enabled := r.enabled.getD true
  retries := r.retries.getD 2
  retryStatusCodes := r.retryStatusCodes.getD [429, 500, 502, 503, 504]
  lockUpstream := r.lockUpstream.getD false
  sortOrder := r.sortOrder.getD 0
  managedBy := r.managedBy

end RouteItem

namespace Db

/-- The first literal pattern that is an alias. -/
def aliasHit (db : Db) (patterns : List String) : Option String :=
  (db.aliases.map AliasRow.aliasName).find? fun a ↦ patterns.contains a

def replaceRoutes (db : Db) (routes : List RouteItem) : Except ApiError Db :=
  if routes.length > 5000 then .error (.badRequest "路由总数不能超过 5000")
  else
    (routes.forM RouteItem.validate).bind fun _ ↦
      if !(routes.all fun r ↦ db.hasUpstream r.upstreamId) then
        .error (.badRequest "存在无效的 upstream_id")
      else
        match db.aliasHit ((routes.map RouteItem.modelPattern).filter isLiteral) with
        | some a => .error (.conflict ("model_pattern `" ++ a ++ "` 与现有模型别名冲突"))
        | none => Db.insertRoutes { db with routes := [] } (routes.map RouteItem.toRow)

/-- A route as the synchronisation and the list of an upstream's models make it. -/
def modelRoute (pattern : String) (upstreamId : ℕ) (managedBy : Option String) : RouteRow where
  id := 0
  modelPattern := pattern
  upstreamId := upstreamId
  managedBy := managedBy

/-- Adds routes for models of an upstream, except for those that have a route. -/
def addManualRoutes (db : Db) (upId : ℕ) (models : List String) : Except ApiError Db :=
  if !db.hasUpstream upId then .error .notFound
  else if models = [] ∨ models.length > 1000 then .error (.badRequest "models 数量须为 1..=1000")
  else if models.any fun m ↦ decide (m = "" ∨ m.utf8ByteSize > 200) then
    .error (.badRequest "模型名长度须为 1..=200")
  else db.insertRoutes ((models.filter fun m ↦ !db.hasRoute m).map fun m ↦ modelRoute m upId none)

/-- The models that an upstream should have routes for. -/
def desired (up : UpstreamCols) (fetched : List String) : List String :=
  fetched.filter fun m ↦ !up.modelExclude.contains m

/-- A managed route of the upstream. -/
def isOwnAuto (upId : ℕ) (r : RouteRow) : Bool := decide (r.upstreamId = upId) && r.isAuto

/-- The desired models without a route of this upstream or of another. -/
def missing (db : Db) (up : UpstreamCols) (fetched : List String) : List String :=
  (desired up fetched).filter fun m ↦ !db.hasRoute m

/-- The routes that a synchronisation keeps: all but the managed ones of the upstream that are not
desired any more. -/
def keptRoutes (db : Db) (up : UpstreamCols) (fetched : List String) : List RouteRow :=
  db.routes.filter fun r ↦ !(isOwnAuto up.id r && !(desired up fetched).contains r.modelPattern)

/-- Synchronises an upstream with the models that it lists. -/
def syncAuto (db : Db) (upId : ℕ) (fetched : List String) : Except ApiError Db :=
  match db.upstreams.find? fun u ↦ decide (u.id = upId) with
  | none => .error .notFound
  | some up =>
    (Db.insertRoutes { db with routes := db.keptRoutes up fetched }
      ((db.missing up fetched).map fun m ↦ modelRoute m upId (some "auto"))).map fun db' ↦
        { db' with
          upstreams := db'.upstreams.map fun u ↦
            if u.id = upId then { u with modelsCache := fetched } else u }

end Db

/-! ### Runs -/

inductive Operation where
  | createAlias (input : AliasIn)
  | updateAlias (id : ℕ) (input : AliasIn)
  | deleteAlias (id : ℕ)
  | replaceRoutes (routes : List RouteItem)
  | addManualRoutes (upId : ℕ) (models : List String)
  | syncAuto (upId : ℕ) (fetched : List String)

namespace Db

def exec (db : Db) : Operation → Except ApiError Db
  | .createAlias input => db.createAlias input
  | .updateAlias id input => db.updateAlias id input
  | .deleteAlias id => db.deleteAlias id
  | .replaceRoutes routes => db.replaceRoutes routes
  | .addManualRoutes upId models => db.addManualRoutes upId models
  | .syncAuto upId fetched => db.syncAuto upId fetched

/-- After an operation, which leaves the tables as they were when it fails. -/
def step (db : Db) (op : Operation) : Db :=
  match db.exec op with
  | .ok db => db
  | .error _ => db

def run (db : Db) (ops : List Operation) : Db := Transition.run step db ops

end Db

end NextApi.Admin
