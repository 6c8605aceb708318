import NextApi.Cache.Snapshot
import NextApi.Stream.Mirror

/-!
# Reloads of the snapshot

Whoever changes one of the tables reloads the snapshot before it returns: it reads the five tables,
one after another, and puts the snapshot of what it has read in the place of the last one
(`reloadOrder`, `snapshot`). Reloads do not wait for one another, so that a slow one may bring back
what a fast one has replaced: rows that are no longer there, and with them keys that have been
deleted, disabled or rotated.

`consistentRun_of_timely` is the positive side. If no table is put in place that was read before a
change of it which has returned, then the snapshot is that of the database once all writers have
returned, and a key that was taken away is refused from the return of its writer on.
-/

set_option autoImplicit false

namespace NextApi.Cache

open Mirror

/-! ### Changes of the keys -/

namespace KeyTable

/-- Changes rows, but not their ids. -/
def mapRows (t : KeyTable) (f : ApiKeyRow → ApiKeyRow) (hid : ∀ k, (f k).id = k.id)
    (hhashes : ((t.rows.map f).map ApiKeyRow.keyHash).Nodup) : KeyTable where
  rows := t.rows.map f
  ids := by
    rw [List.map_map, show ApiKeyRow.id ∘ f = ApiKeyRow.id from funext hid]
    exact t.ids
  hashes := hhashes

/-- `DELETE FROM api_keys WHERE id = …`. -/
def delete (t : KeyTable) (id : Uuid) : KeyTable where
  rows := t.rows.filter fun k ↦ decide (k.id ≠ id)
  ids := t.ids.sublist (List.filter_sublist.map _)
  hashes := t.hashes.sublist (List.filter_sublist.map _)

/-- The row of a key after an update with new values. -/
def updated (id : Uuid) (values k : ApiKeyRow) : ApiKeyRow :=
  if k.id = id then
    { values with
      id := k.id, keyHash := k.keyHash, shown := k.shown, createdAt := k.createdAt
      lastUsedAt := k.lastUsedAt }
  else k

theorem updated_id (id : Uuid) (values k : ApiKeyRow) : (updated id values k).id = k.id := by
  rw [updated]
  split
  · rfl
  · rfl

theorem updated_keyHash (id : Uuid) (values k : ApiKeyRow) :
    (updated id values k).keyHash = k.keyHash := by
  rw [updated]
  split
  · rfl
  · rfl

/-- Sets all columns of a key but its id, its hash and its times. -/
def update (t : KeyTable) (id : Uuid) (values : ApiKeyRow) : KeyTable :=
  t.mapRows (updated id values) (updated_id id values) (by
    rw [List.map_map, show ApiKeyRow.keyHash ∘ updated id values = ApiKeyRow.keyHash from
      funext (updated_keyHash id values)]
    exact t.hashes)

/-- The row of a key after a new one has taken its place. -/
def rotated (id : Uuid) (hash shown : String) (k : ApiKeyRow) : ApiKeyRow :=
  if k.id = id then { k with keyHash := hash, shown := shown } else k

theorem rotated_id (id : Uuid) (hash shown : String) (k : ApiKeyRow) :
    (rotated id hash shown k).id = k.id := by
  rw [rotated]
  split
  · rfl
  · rfl

/-- A new hash is on one row at most. -/
theorem nodup_rotated {rows : List ApiKeyRow} (hids : (rows.map ApiKeyRow.id).Nodup)
    (hhashes : (rows.map ApiKeyRow.keyHash).Nodup) {hash : String}
    (hnew : hash ∉ rows.map ApiKeyRow.keyHash) (id : Uuid) (shown : String) :
    ((rows.map (rotated id hash shown)).map ApiKeyRow.keyHash).Nodup := by
  have hne : ∀ k ∈ rows, k.keyHash ≠ hash := fun k hk heq ↦
    hnew (heq ▸ List.mem_map_of_mem hk)
  rw [List.map_map, List.Nodup, List.pairwise_map]
  rw [List.Nodup, List.pairwise_map] at hids hhashes
  refine (hids.and hhashes).imp_of_mem ?_
  intro a b ha hb ⟨hid, hhash⟩
  rw [Function.comp_apply, Function.comp_apply, rotated, rotated]
  split
  · next haid =>
    split
    · next hbid => exact absurd (haid.trans hbid.symm) hid
    · exact (hne b hb).symm
  · split
    · exact hne a ha
    · exact hhash

/-- Gives a key a new hash, unless another key has it. -/
def rotate (t : KeyTable) (id : Uuid) (hash shown : String) : KeyTable :=
  if hnew : hash ∉ t.rows.map ApiKeyRow.keyHash then
    t.mapRows (rotated id hash shown) (rotated_id id hash shown)
      (nodup_rotated t.ids t.hashes hnew id shown)
  else t

theorem rows_rotate {t : KeyTable} {hash : String} (hnew : hash ∉ t.rows.map ApiKeyRow.keyHash)
    (id : Uuid) (shown : String) :
    (t.rotate id hash shown).rows = t.rows.map (rotated id hash shown) := by
  unfold rotate
  rw [dif_pos hnew]
  rfl

/-- The row with a hash. -/
theorem eq_of_keyHash {t : KeyTable} {a b : ApiKeyRow} (ha : a ∈ t.rows) (hb : b ∈ t.rows)
    (h : a.keyHash = b.keyHash) : a = b :=
  List.inj_on_of_nodup_map t.hashes ha hb h

end KeyTable

/-- A change of the keys alone. -/
def keyChange (f : KeyTable → KeyTable) : Change Rows where
  touched := [.apiKeys]
  value db := Function.update db .apiKeys (f (db .apiKeys))

def deleteKey (id : Uuid) : Change Rows := keyChange fun t ↦ t.delete id

def updateKey (id : Uuid) (values : ApiKeyRow) : Change Rows := keyChange fun t ↦ t.update id values

def rotateKey (id : Uuid) (hash shown : String) : Change Rows :=
  keyChange fun t ↦ t.rotate id hash shown

theorem apply_keyChange (f : KeyTable → KeyTable) (db : Db) :
    (keyChange f).apply db .apiKeys = f (db .apiKeys) := by
  rw [Change.apply, if_pos (by exact List.mem_singleton_self _)]
  exact Function.update_self TableName.apiKeys _ db

/-- A change takes the key with a hash away: the key is deleted, disabled or rotated. -/
inductive Revokes (t : KeyTable) : Change Rows → String → Prop
  | delete {k : ApiKeyRow} : k ∈ t.rows → Revokes t (deleteKey k.id) k.keyHash
  | disable {k values : ApiKeyRow} : k ∈ t.rows → values.enabled = false →
      Revokes t (updateKey k.id values) k.keyHash
  | rotate {k : ApiKeyRow} {hash shown : String} : k ∈ t.rows →
      hash ∉ t.rows.map ApiKeyRow.keyHash → Revokes t (rotateKey k.id hash shown) k.keyHash

theorem Revokes.touched {t : KeyTable} {c : Change Rows} {hash : String} (h : Revokes t c hash) :
    TableName.apiKeys ∈ c.touched := by
  cases h with
  | delete _ => exact List.mem_singleton_self _
  | disable _ _ => exact List.mem_singleton_self _
  | rotate _ _ => exact List.mem_singleton_self _

/-- No enabled row has the hash of a key that was taken away. -/
theorem Revokes.revoked {db : Db} {c : Change Rows} {hash : String}
    (h : Revokes (db .apiKeys) c hash) : KeyTable.Revoked (c.apply db .apiKeys) hash := by
  cases h with
  | delete hk =>
    rw [deleteKey, apply_keyChange]
    intro row hrow hhash
    obtain ⟨hmem, hid⟩ := List.mem_filter.1 hrow
    exact absurd (congrArg ApiKeyRow.id (KeyTable.eq_of_keyHash hmem hk hhash))
      (of_decide_eq_true hid)
  | @disable k values hk hoff =>
    rw [updateKey, apply_keyChange]
    intro row hrow hhash
    obtain ⟨old, hold, rfl⟩ := List.mem_map.1 hrow
    rw [KeyTable.updated_keyHash] at hhash
    rw [KeyTable.eq_of_keyHash hold hk hhash, KeyTable.updated, if_pos rfl]
    exact hoff
  | @rotate k new shown hk hnew =>
    rw [rotateKey, apply_keyChange]
    intro row hrow hhash
    rw [KeyTable.rows_rotate hnew] at hrow
    obtain ⟨old, hold, rfl⟩ := List.mem_map.1 hrow
    rw [KeyTable.rotated] at hhash
    split at hhash
    · dsimp only at hhash
      rw [hhash] at hnew
      exact absurd (List.mem_map_of_mem hk) hnew
    · next hid => exact absurd (congrArg ApiKeyRow.id (KeyTable.eq_of_keyHash hold hk hhash)) hid

/-! ### Writers and the snapshot -/

/-- The order in which a reload reads the tables. -/
def reloadOrder : List TableName :=
  [.apiKeys, .upstreams, .modelRoutes, .modelAliases, .proxyConfigs]

theorem mem_reloadOrder (t : TableName) : t ∈ reloadOrder := by
  cases t with
  | _ => decide

/-- The snapshot that requests read. -/
def snapshot [Crypto] (s : State Rows) : Snapshot := Snapshot.build fun t ↦ (s.copy t).2

/-- Once all writers have returned, the snapshot is that of the database. -/
def Converged [Crypto] (s : State Rows) : Prop :=
  (∀ w x, s.writers.lookup w = some x → x.returned = true) →
    snapshot s = Snapshot.build s.store

/-- Once a writer that takes a key away has returned, no request with the key is let in, unless a
later change has enabled a row with its hash. -/
def Effective [Crypto] (hashKey : String → String) (s : State Rows) : Prop :=
  ∀ w x rawKey, s.writers.lookup w = some x → x.returned = true →
    Revokes (s.versions x.base .apiKeys) x.change (hashKey rawKey) →
    (∀ n, x.base + 1 < n → n ≤ s.latest →
      KeyTable.Revoked (s.versions n .apiKeys) (hashKey rawKey)) →
    ∀ now headers, extractApiKey headers .openaiChat = some rawKey →
      authenticateGatewayKey hashKey now (snapshot s) headers = .error unauthorized

/-- A server that starts with the snapshot of the database, and the writers' actions. -/
def ConsistentRun [Crypto] (hashKey : String → String) (db : Db)
    (actions : List (Action Rows)) : Prop :=
  ∀ before after, actions = before ++ after →
    Converged ((State.start db).run reloadOrder before) ∧
      Effective hashKey ((State.start db).run reloadOrder before)

/-- Over a run in which no table is put in place that was read before a change of it which has
returned, the snapshot is that of the database once all writers have returned, and a key that was
taken away is refused. -/
theorem consistentRun_of_timely [Crypto] (hashKey : String → String) (db : Db)
    (actions : List (Action Rows)) (htimely : (State.start db).TimelyRun reloadOrder actions) :
    ConsistentRun hashKey db actions := by
  have hfreshRun := (State.fresh_run_iff mem_reloadOrder db actions).2 htimely
  intro before after hactions
  have hfresh := hfreshRun before after hactions
  have hinv : ((State.start db).run reloadOrder before).Inv reloadOrder :=
    State.inv_run (State.inv_start db) before
  constructor
  · intro hreturned
    rw [snapshot]
    exact congrArg Snapshot.build (funext (State.copy_eq_store hinv hfresh hreturned))
  · intro w x rawKey hx hreturned hrevokes hsince now headers hkey
    refine authenticateGatewayKey_of_revoked hkey ?_ now
    refine State.copy_since hinv hfresh hx hreturned hrevokes.touched
      (P := fun t : KeyTable ↦ t.Revoked (hashKey rawKey)) ?_
    intro n hbase hn
    by_cases hnext : n = x.base + 1
    · rw [hnext, (hinv.changed hx).2]
      exact hrevokes.revoked
    · exact hsince n (by omega) hn

/-! ### A quick and a slow reload -/

/-- A table with one key. -/
def oneKey (hash : String) : KeyTable where
  rows := [{ id := 1, keyHash := hash }]
  ids := List.nodup_singleton _
  hashes := List.nodup_singleton _

/-- A database with one key. -/
def oneKeyDb (hash : String) : Db
  | .apiKeys => oneKey hash
  | .upstreams | .modelRoutes | .modelAliases | .proxyConfigs => []

/-- A new alias. -/
def addAlias (row : ModelAliasRow) : Change Rows where
  touched := [.modelAliases]
  value db
    | .modelAliases => List.append (db .modelAliases) [row]
    | .apiKeys => db .apiKeys
    | .upstreams => db .upstreams
    | .modelRoutes => db .modelRoutes
    | .proxyConfigs => db .proxyConfigs

/-- A reload from its first read to its last one. -/
def reads (w : ℕ) : List (Action Rows) := List.replicate 5 (.read w)

/-- While an alias is made, and all tables have been read for it, a key is deleted. -/
def slowReload : List (Action Rows) :=
  [.commit 0 (addAlias ⟨7, "fast", "gpt-4o", true, 0, 0⟩)] ++ reads 0 ++
    [.commit 1 (deleteKey 1)] ++ reads 1 ++ [.swap 1, .swap 0]

/-- A deletion that waits until the alias is there. -/
def quickReload : List (Action Rows) :=
  [.commit 0 (addAlias ⟨7, "fast", "gpt-4o", true, 0, 0⟩)] ++ reads 0 ++ [.swap 0] ++
    [.commit 1 (deleteKey 1)] ++ reads 1 ++ [.swap 1]

theorem timelyRun_quickReload (db : Db) : (State.start db).TimelyRun reloadOrder quickReload := by
  simp [quickReload, reads, List.replicate, State.timelyRun_cons, State.timelyRun_nil,
    State.Timely, State.step, State.start, State.commit, State.read, State.swap, State.store,
    reloadOrder, addAlias, Change.apply]
  constructor
  · intro v y hy hreturned
    by_cases hv : 0 = v
    · simp [hv] at hy
      rw [← hy] at hreturned
      exact absurd hreturned Bool.false_ne_true
    · simp [hv] at hy
  · intro v y hy hreturned i hi n value hread
    by_cases hv : 0 = v
    · simp [← hv] at hy
      rw [← hy]
      rw [← hy] at hi
      obtain rfl := List.mem_singleton.1 hi
      simp at hread
      show 0 < n
      omega
    · by_cases hv' : 1 = v
      · simp [← hv'] at hy
        rw [← hy] at hreturned
        exact absurd hreturned Bool.false_ne_true
      · simp [hv, hv'] at hy

/-- No column of the database is encrypted. -/
@[reducible] def noCrypto : Crypto where
  decrypt _ := none
  readOauth _ := none

/-- A deletion that waits for the other writer. -/
theorem consistentRun_quickReload :
    @ConsistentRun noCrypto
      (fun key ↦ if key = "sk-old" then
        "d3e64608f5182a4408eef248830800d9f4b82167cb91b4b193ac488aa1235fc9" else key)
      (oneKeyDb "d3e64608f5182a4408eef248830800d9f4b82167cb91b4b193ac488aa1235fc9") quickReload :=
  @consistentRun_of_timely noCrypto _ _ quickReload (timelyRun_quickReload _)

/-- The state at the end: the writer of the deletion has returned, and the copy has the keys there
were before. -/
theorem slowReload_end (db : Db) :
    (∃ x, ((State.start db).run reloadOrder slowReload).writers.lookup 1 = some x ∧
      x.returned = true ∧ x.base = 1 ∧ x.change = deleteKey 1) ∧
    ((State.start db).run reloadOrder slowReload).latest = 2 ∧
    ((State.start db).run reloadOrder slowReload).versions 1 .apiKeys = db .apiKeys ∧
    (((State.start db).run reloadOrder slowReload).copy .apiKeys).2 = db .apiKeys := by
  simp [slowReload, reads, List.replicate, State.run, State.step, State.start, State.commit,
    State.read, State.swap, State.store, reloadOrder, addAlias, Change.apply]

/-- The deleted key is let in after the deletion has returned. -/
theorem not_consistentRun_slowReload :
    ¬ ∃ (_ : Crypto) (hashKey : String → String),
      ConsistentRun hashKey (oneKeyDb (hashKey "sk-old")) slowReload := by
  rintro ⟨crypto, hashKey, h⟩
  have heffective := (h slowReload [] (List.append_nil _).symm).2
  obtain ⟨⟨x, hx, hreturned, hbase, hchange⟩, hlatest, hversion, hcopy⟩ :=
    slowReload_end (oneKeyDb (hashKey "sk-old"))
  have hkey : extractApiKey (fun name ↦ if name = "authorization" then some "Bearer sk-old" else none)
      .openaiChat = some "sk-old" := by decide +kernel
  have hrefused := heffective 1 x "sk-old" hx hreturned
    (by
      rw [hbase, hchange, hversion]
      exact Revokes.delete (k := { id := 1, keyHash := hashKey "sk-old" })
        (List.mem_singleton_self _))
    (by
      intro n hlt hle
      rw [hbase] at hlt
      omega)
    0 _ hkey
  have hfound : (snapshot ((State.start (oneKeyDb (hashKey "sk-old"))).run reloadOrder
      slowReload)).apiKeys.lookup (hashKey "sk-old") =
      some { id := 1, keyHash := hashKey "sk-old" } := by
    rw [snapshot, Snapshot.build]
    dsimp only
    rw [hcopy]
    exact (Table.lookup_insert _ _ _ _).trans (if_pos rfl)
  rw [authenticateGatewayKey, hkey] at hrefused
  dsimp only at hrefused
  rw [hfound] at hrefused
  cases hrefused

end NextApi.Cache
