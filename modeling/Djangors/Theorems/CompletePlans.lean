import Djangors.Lib.Lists
import Djangors.Theorems.Planners
import Djangors.Theorems.SnapshotPlan

/-! # What a plan creates, and in which order

Both planners list the models by a depth-first search over all their relations, also those to the model itself and the
many-to-many ones, which are no columns; and both tell models apart by the names of their structs. -/

namespace Djangors.Migrations
open Db Orm Relation

/-- The columns of the table that an operation creates, if it creates that one. -/
def Operation.creates (table : String) : Operation → Option (List ColumnDef)
  | .createTable name columns _ => if name = table then some columns else none
  | _ => none

/-- The columns of every `CREATE TABLE` of a table. -/
def creations (ops : List Operation) (table : String) : List (List ColumnDef) := ops.filterMap (·.creates table)

/-- The columns of a model's table, each with whether it is the primary key. -/
def columnKeys (m : ModelMeta) : List (String × Bool) :=
  m.fields.map (fun f => (f.columnName, f.primaryKey)) ++
    (m.relations.filter (·.kind != .manyToMany)).map fun r => (r.fieldName, false)

/-- The table of a model is created once, with the model's columns, and after every other table that its foreign keys
    refer to. -/
def Creates (ops : List Operation) (m : ModelMeta) : Prop :=
  ∃ before columns checks after, ops = before ++ .createTable m.tableName columns checks :: after ∧
    creations before m.tableName = [] ∧ creations after m.tableName = [] ∧
    columns.map (fun c => (c.name, c.primaryKey)) = columnKeys m ∧
    ∀ c ∈ columns, ∀ ref, c.references = some ref → ref.table = m.tableName ∨ creations before ref.table ≠ []

/-- Registered models: every relation is to one of them, structs of one app have different names, tables have different
    names, every model has a primary key, and every field of characters a length. -/
structure AppModels extends Inventory where
  registered : ∀ m ∈ models, ∀ r ∈ m.relations, target r.target ∈ models
  structs : (models.map fun m => (m.appLabel, m.structName)).Nodup
  tables : (models.map (·.tableName)).Nodup
  keys : ∀ m ∈ models, m.primaryKey?.isSome
  lengths : ∀ m ∈ models, ∀ f ∈ m.fields, f.kind ∈ [FieldKind.char, .email, .url, .slug] → f.maxLength ≠ none

instance : Coe AppModels Inventory := ⟨AppModels.toInventory⟩

/-- The foreign keys and one-to-one relations between different models lead nowhere back. -/
def ColumnsAcyclic (inv : Inventory) : Prop :=
  ∀ m ∈ inv.models, ¬TransGen (fun a b => (∃ r ∈ a.relations, r.kind ≠ .manyToMany ∧ inv.target r.target = b) ∧ b ≠ a) m m

/-- The outcome that a planner owes: a plan that creates every table, or the error that the models are cyclic, exactly
    when they are. -/
def Planned (inv : Inventory) : Except MigrationError (List Operation) → Prop
  | .ok ops => ColumnsAcyclic inv ∧ ∀ m ∈ inv.models, Creates ops m
  | .error (.cyclicDependency _) => ¬ColumnsAcyclic inv
  | .error _ => False

/-- Structs have different names, no relation of any kind leads back to its model, and no join table has the name of a
    model's table. -/
structure Orderable (inv : Inventory) : Prop where
  structs : (inv.models.map (·.structName)).Nodup
  acyclic : ∀ m ∈ inv.models, ¬TransGen (fun a b => ∃ r ∈ a.relations, inv.target r.target = b) m m
  joins : ∀ m ∈ inv.models, ∀ r ∈ m.relations, r.kind = .manyToMany → ∀ other ∈ inv.models,
    other.tableName ≠ m2mThroughTable m r

/-! ### The operations of a model -/

section Creations
variable {ops ops' : List Operation} {table : String}

@[simp] theorem creations_append : creations (ops ++ ops') table = creations ops table ++ creations ops' table :=
  List.filterMap_append ..

theorem creations_eq_nil : creations ops table = [] ↔ ∀ op ∈ ops, op.creates table = none := by
  simp [creations, List.filterMap_eq_nil_iff]

theorem creations_flatten_eq_nil {parts : List (List Operation)} (h : ∀ part ∈ parts, creations part table = []) :
    creations parts.flatten table = [] := by
  rw [creations_eq_nil]
  intro op hop
  rcases List.mem_flatten.mp hop with ⟨part, hpart, hop⟩
  exact creations_eq_nil.mp (h part hpart) op hop

theorem creates_createTable (columns : List ColumnDef) (checks : List String) :
    (Operation.createTable table columns checks).creates table = some columns := if_pos rfl

theorem creations_ne_nil {columns : List ColumnDef} {checks : List String}
    (h : .createTable table columns checks ∈ ops) : creations ops table ≠ [] := by
  intro hnil
  have := creations_eq_nil.mp hnil _ h
  rw [creates_createTable] at this
  cases this

end Creations

/-- The columns of a model's table, and what follows its creation: indexes and the join tables of its many-to-many
    relations. -/
structure Block (target : String → ModelMeta) (m : ModelMeta) (columns : List ColumnDef) (rest : List Operation) : Prop where
  keyed : columns.map (fun c => (c.name, c.primaryKey)) = columnKeys m
  refers : ∀ c ∈ columns, ∀ ref, c.references = some ref → ∃ r ∈ m.relations, ref.table = (target r.target).tableName
  joined : ∀ op ∈ rest, ∀ table cols, op.creates table = some cols →
    (∃ r ∈ m.relations, r.kind = .manyToMany ∧ table = m2mThroughTable m r) ∧ ∀ c ∈ cols, c.primaryKey = false
  joins : ∀ r ∈ m.relations, r.kind = .manyToMany → creations rest (m2mThroughTable m r) ≠ []

/-- A list of operations is that of a model. -/
def Plans (target : String → ModelMeta) (m : ModelMeta) (ops : List Operation) : Prop :=
  ∃ columns checks rest, ops = .createTable m.tableName columns checks :: rest ∧ Block target m columns rest

section Model
variable {inv : Inventory} {d : Dialect} {m : ModelMeta} {ops : List Operation}

/-- The `CREATE TABLE` of a join table has no primary key. -/
def Joins (m : ModelMeta) (r : RelationMeta) (op : Operation) : Prop :=
  ∃ columns checks, op = .createTable (m2mThroughTable m r) columns checks ∧ ∀ c ∈ columns, c.primaryKey = false

theorem block {target : String → ModelMeta} {fields relations : List ColumnDef} {indexes joins : List Operation}
    (hfields : fields.map (fun c => (c.name, c.primaryKey)) = m.fields.map fun f => (f.columnName, f.primaryKey))
    (hplain : ∀ c ∈ fields, c.references = none)
    (hrelations : relations.map (fun c => (c.name, c.primaryKey)) =
      (m.relations.filter (·.kind != .manyToMany)).map fun r => (r.fieldName, false))
    (hrefers : ∀ c ∈ relations, ∀ ref, c.references = some ref →
      ∃ r ∈ m.relations, ref.table = (target r.target).tableName)
    (hindexes : ∀ op ∈ indexes, ∀ table, op.creates table = none)
    (hjoined : ∀ op ∈ joins, ∃ r ∈ m.relations, r.kind = .manyToMany ∧ Joins m r op)
    (hjoins : ∀ r ∈ m.relations, r.kind = .manyToMany → ∃ op ∈ joins, Joins m r op) :
    Block target m (fields ++ relations) (indexes ++ joins) where
  keyed := by rw [List.map_append, hfields, hrelations, columnKeys]
  refers c hc ref href := by
    rcases List.mem_append.mp hc with hc | hc
    · rw [hplain c hc] at href
      cases href
    · exact hrefers c hc ref href
  joined op hop table cols hcreates := by
    rcases List.mem_append.mp hop with hop | hop
    · rw [hindexes op hop table] at hcreates
      cases hcreates
    · rcases hjoined op hop with ⟨r, hr, hkind, columns, checks, rfl, hkeys⟩
      rcases Option.ite_none_right_eq_some.mp hcreates with ⟨rfl, ⟨⟩⟩
      exact ⟨⟨r, hr, hkind, rfl⟩, hkeys⟩
  joins r hr hkind := by
    rcases hjoins r hr hkind with ⟨op, hop, columns, checks, rfl, _⟩
    exact creations_ne_nil (List.mem_append_right _ hop)

theorem relationColumn_ok {r : RelationMeta} {c : ColumnDef} (h : relationColumn inv d r = .ok c) :
    (c.name, c.primaryKey) = (r.fieldName, false) ∧ ∀ ref, c.references = some ref →
      ref.table = (inv.target r.target).tableName := by
  unfold relationColumn at h
  dsimp only at h
  split at h
  · cases h
  · obtain ⟨sqlType, _, h⟩ := Except.bind_eq_ok.mp h
    cases h
    refine ⟨rfl, ?_⟩
    rintro ref ⟨⟩
    rfl

theorem plans_modelOperations [CaseMap] (h : modelOperations inv d m = .ok ops) : Plans inv.target m ops := by
  obtain ⟨fields, relations, joins, hfields, hrelations, hjoins, rfl⟩ := modelOperations_ok h
  have field : ∀ f c, fieldColumn d f = .ok c → (c.name, c.primaryKey) = (f.columnName, f.primaryKey) ∧ c.references = none := by
    intro f c hc
    obtain ⟨sqlType, _, hc⟩ := Except.bind_eq_ok.mp hc
    cases hc
    exact ⟨rfl, rfl⟩
  have join : ∀ r op, joinTable inv d m r = .ok op → Joins m r op := by
    intro r op hop
    obtain ⟨_, _, _, _, _, _, _, _, rfl⟩ := joinTable_ok hop
    exact ⟨_, _, rfl, by simp [joinColumn]⟩
  refine ⟨_, _, _, rfl, block ?_ ?_ ?_ ?_ ?_ ?_ ?_⟩
  · exact Except.map_mapM hfields fun f _ c hc => (field f c hc).1
  · intro c hc
    obtain ⟨f, _, hf⟩ := Except.exists_of_mem_mapM hfields hc
    exact (field f c hf).2
  · exact Except.map_mapM hrelations fun r _ c hc => (relationColumn_ok hc).1
  · intro c hc ref href
    obtain ⟨r, hr, hc⟩ := Except.exists_of_mem_mapM hrelations hc
    exact ⟨r, List.mem_of_mem_filter hr, (relationColumn_ok hc).2 ref href⟩
  · intro op hop table
    obtain ⟨i, _, rfl⟩ := List.mem_map.mp hop
    rfl
  · intro op hop
    obtain ⟨r, hr, hop⟩ := Except.exists_of_mem_mapM hjoins hop
    rw [List.mem_filter, beq_iff_eq] at hr
    exact ⟨r, hr.1, hr.2, join r op hop⟩
  · intro r hr hkind
    obtain ⟨op, hmem, hop⟩ := Except.exists_mapM_of_mem hjoins (List.mem_filter.mpr ⟨hr, beq_iff_eq.mpr hkind⟩)
    exact ⟨op, hmem, join r op hop⟩

theorem plans_snapshot [CaseMap] (named : Named inv) (hm : m ∈ inv.models)
    (h : Snapshot.modelOperations (Snapshot.byName (registeredModelsSnapshot inv)) d (m.snapshot inv.target) = .ok ops) :
    Plans inv.target m ops := by
  obtain ⟨fields, relations, joins, hfields, hrelations, hjoins, rfl⟩ := snapshotOperations_ok h
  have field : ∀ f c, Snapshot.fieldColumn d f = .ok c →
      (c.name, c.primaryKey) = (f.columnName, f.primaryKey) ∧ c.references = none := by
    intro f c hc
    obtain ⟨_, _, rfl⟩ := snapshotField_ok hc
    exact ⟨rfl, rfl⟩
  have relation : ∀ r ∈ m.relations, ∀ c, Snapshot.relationColumn (Snapshot.byName (registeredModelsSnapshot inv)) d
      (r.snapshot inv.target) = .ok c → (c.name, c.primaryKey) = (r.fieldName, false) ∧
        ∀ ref, c.references = some ref → ref.table = (inv.target r.target).tableName := by
    intro r hr c hc
    obtain ⟨target, _, _, htarget, _, _, rfl⟩ := snapshotRelation_ok hc
    obtain rfl := Option.some_inj.mp ((byName_target named hm hr).symm.trans htarget)
    refine ⟨rfl, ?_⟩
    rintro ref ⟨⟩
    rfl
  have join : ∀ r op, Snapshot.joinTable (Snapshot.byName (registeredModelsSnapshot inv)) d (m.snapshot inv.target)
      (r.snapshot inv.target) = .ok op → Joins m r op := by
    intro r op hop
    obtain ⟨_, _, _, _, _, _, _, _, _, _, rfl⟩ := snapshotJoin_ok hop
    exact ⟨_, _, rfl, by simp [joinColumn]⟩
  rw [show (m.snapshot inv.target).relations = m.relations.map (·.snapshot inv.target) from rfl, List.filter_map,
    List.mapM_map] at hrelations hjoins
  rw [show (m.snapshot inv.target).fields = m.fields.map (·.snapshot) from rfl, List.mapM_map] at hfields
  refine ⟨_, _, _, rfl, block ?_ ?_ ?_ ?_ ?_ ?_ ?_⟩
  · exact Except.map_mapM hfields fun f _ c hc => (field f.snapshot c hc).1
  · intro c hc
    obtain ⟨f, _, hf⟩ := Except.exists_of_mem_mapM hfields hc
    exact (field f.snapshot c hf).2
  · exact Except.map_mapM hrelations fun r hr c hc => (relation r (List.mem_of_mem_filter hr) c hc).1
  · intro c hc ref href
    obtain ⟨r, hr, hc⟩ := Except.exists_of_mem_mapM hrelations hc
    have hr := List.mem_of_mem_filter hr
    exact ⟨r, hr, (relation r hr c hc).2 ref href⟩
  · intro op hop table
    obtain ⟨i, _, rfl⟩ := List.mem_map.mp hop
    rfl
  · intro op hop
    obtain ⟨r, hr, hop⟩ := Except.exists_of_mem_mapM hjoins hop
    rw [List.mem_filter] at hr
    exact ⟨r, hr.1, beq_iff_eq.mp hr.2, join r op hop⟩
  · intro r hr hkind
    obtain ⟨op, hmem, hop⟩ := Except.exists_mapM_of_mem hjoins (List.mem_filter.mpr ⟨hr, beq_iff_eq.mpr hkind⟩)
    exact ⟨op, hmem, join r op hop⟩

/-! ### Models that can be planned -/

theorem AppModels.typeable (app : AppModels) (d : Dialect) : Typeable app d where
  registered := app.registered
  typed m hm f hf _ hkind := app.lengths m hm f hf hkind
  targetKeys m hm r hr := app.keys _ (app.registered m hm r hr)
  sourceKeys m hm _ _ _ := app.keys m hm

/-- A snapshot of the models is found for each name of a struct, and it has a primary key with a type. -/
theorem byName_isSome (app : AppModels) (d : Dialect) (hm : m ∈ app.models) :
    ∃ target pk, Snapshot.byName (registeredModelsSnapshot app) m.structName = some target ∧ target.primaryKey? = some pk ∧
      ∃ t, sqlTypeFor pk.kind pk.maxLength false pk.name d = .ok t := by
  have found : (Snapshot.byName (registeredModelsSnapshot app) m.structName).isSome := by
    rw [Snapshot.byName, List.find?_isSome]
    exact ⟨m.snapshot app.target, List.mem_reverse.mpr (List.mem_map_of_mem hm), beq_self_eq_true _⟩
  obtain ⟨target, htarget⟩ := Option.isSome_iff_exists.mp found
  obtain ⟨other, hother, rfl⟩ := List.mem_map.mp (byName_mem htarget).1
  obtain ⟨pk, hpk⟩ := Option.isSome_iff_exists.mp (app.keys other hother)
  refine ⟨_, pk.snapshot, htarget, ?_, ?_⟩
  · rw [ModelMeta.snapshot_primaryKey?, hpk]
    rfl
  · exact sqlTypeFor_ok_iff.mpr ((app.typeable d).typed other hother pk (List.mem_of_find?_eq_some hpk))

theorem snapshotOperations_isOk [CaseMap] (app : AppModels) (d : Dialect) (hm : m ∈ app.models) :
    ∃ ops, Snapshot.modelOperations (Snapshot.byName (registeredModelsSnapshot app)) d (m.snapshot app.target) = .ok ops := by
  have target : ∀ r ∈ m.relations, ∃ target pk, Snapshot.byName (registeredModelsSnapshot app)
      (app.target r.target).structName = some target ∧ target.primaryKey? = some pk ∧
        ∃ t, sqlTypeFor pk.kind pk.maxLength false pk.name d = .ok t :=
    fun r hr => byName_isSome app d (app.registered m hm r hr)
  have hfields : ∃ fields, (m.snapshot app.target).fields.mapM (Snapshot.fieldColumn d) = .ok fields := by
    refine Except.mapM_isOk.mpr fun f' hf' => ?_
    obtain ⟨f, hf, rfl⟩ := List.mem_map.mp hf'
    exact fieldColumn_ok.mpr ((app.typeable d).typed m hm f hf)
  have hrelations : ∃ relations, ((m.snapshot app.target).relations.filter (·.kind != .manyToMany)).mapM
      (Snapshot.relationColumn (Snapshot.byName (registeredModelsSnapshot app)) d) = .ok relations := by
    refine Except.mapM_isOk.mpr fun r' hr' => ?_
    obtain ⟨r, hr, rfl⟩ := List.mem_map.mp (List.mem_of_mem_filter hr')
    obtain ⟨_, _, htarget, hpk, t, ht⟩ := target r hr
    simp only [Snapshot.relationColumn, RelationMeta.snapshot, htarget, hpk]
    exact ⟨_, Except.bind_eq_ok.mpr ⟨t, ht, rfl⟩⟩
  have hjoins : ∃ joins, ((m.snapshot app.target).relations.filter (·.kind == .manyToMany)).mapM
      (Snapshot.joinTable (Snapshot.byName (registeredModelsSnapshot app)) d (m.snapshot app.target)) = .ok joins := by
    refine Except.mapM_isOk.mpr fun r' hr' => ?_
    obtain ⟨r, hr, rfl⟩ := List.mem_map.mp (List.mem_of_mem_filter hr')
    obtain ⟨_, _, htarget, hpk, t, ht⟩ := target r hr
    obtain ⟨sourcePk, hsource⟩ := Option.isSome_iff_exists.mp (app.keys m hm)
    obtain ⟨t', ht'⟩ := (@sqlTypeFor_ok_iff d _ _ false sourcePk.name).mpr
      ((app.typeable d).typed m hm sourcePk (List.mem_of_find?_eq_some hsource))
    have hkey : (m.snapshot app.target).primaryKey? = some sourcePk.snapshot := by
      rw [ModelMeta.snapshot_primaryKey?, hsource]
      rfl
    simp only [Snapshot.joinTable, RelationMeta.snapshot, htarget, hpk, hkey]
    exact ⟨_, Except.bind_eq_ok.mpr ⟨t', ht', Except.bind_eq_ok.mpr ⟨t, ht, rfl⟩⟩⟩
  obtain ⟨fields, hfields⟩ := hfields
  obtain ⟨relations, hrelations⟩ := hrelations
  obtain ⟨joins, hjoins⟩ := hjoins
  exact ⟨_, Except.bind_eq_ok.mpr ⟨fields, hfields, Except.bind_eq_ok.mpr ⟨relations, hrelations,
    Except.bind_eq_ok.mpr ⟨joins, hjoins, rfl⟩⟩⟩⟩

/-- The snapshots of the models have a plan. -/
theorem snapshotPlan_isOk [CaseMap] (app : AppModels) (d : Dialect) :
    ∃ ops, buildCreatePlanFromSnapshots (registeredModelsSnapshot app) d = .ok ops := by
  obtain ⟨added, adds⟩ := Dfs.visitAll_adds (·.structName) targets_closed ((registeredModelsSnapshot app).length + 1)
    (fun _ h => h) ⟨[], []⟩
  obtain ⟨operations, hoperations⟩ := Except.mapM_isOk.mpr fun s (hs : s ∈ Snapshot.ordered (registeredModelsSnapshot app)) => by
    rw [Snapshot.ordered, adds.order] at hs
    obtain ⟨m, hm, rfl⟩ := List.mem_map.mp (adds.mem s hs)
    exact snapshotOperations_isOk app d hm
  exact ⟨_, Except.bind_eq_ok.mpr ⟨operations, hoperations, rfl⟩⟩

end Model

/-! ### Plans of blocks -/

section Blocks
variable {inv : Inventory} {order : List ModelMeta} {parts : List (List Operation)} {m : ModelMeta}

/-- A block of another model does not create the table of a model. -/
theorem creations_plans_eq_nil {other : ModelMeta} {ops : List Operation} (h : Plans inv.target other ops)
    (hother : other ∈ inv.models) (hm : m ∈ inv.models) (hne : other.tableName ≠ m.tableName)
    (joins : ∀ m ∈ inv.models, ∀ r ∈ m.relations, r.kind = .manyToMany → ∀ other ∈ inv.models,
      other.tableName ≠ m2mThroughTable m r) : creations ops m.tableName = [] := by
  rcases h with ⟨columns, checks, rest, rfl, block⟩
  rw [creations_eq_nil, List.forall_mem_cons]
  refine ⟨if_neg hne, fun op hop => ?_⟩
  by_contra hsome
  rcases Option.ne_none_iff_exists'.mp hsome with ⟨cols, hcols⟩
  rcases (block.joined op hop _ _ hcols).1 with ⟨r, hr, hkind, htable⟩
  exact joins other hother r hr hkind m hm htable

theorem exists_split (blocks : List.Forall₂ (Plans inv.target) order parts) (hm : m ∈ order) :
    ∃ before block after before' after', order = before ++ m :: after ∧ parts = before' ++ block :: after' ∧
      List.Forall₂ (Plans inv.target) before before' ∧ Plans inv.target m block ∧
        List.Forall₂ (Plans inv.target) after after' := by
  induction blocks with
  | nil => cases hm
  | @cons other block order parts hblock hrest ih =>
    rcases List.mem_cons.mp hm with rfl | hm
    · exact ⟨[], block, order, [], parts, rfl, rfl, .nil, hblock, hrest⟩
    · rcases ih hm with ⟨before, own, after, before', after', rfl, rfl, hbefore, hown, hafter⟩
      exact ⟨other :: before, own, after, block :: before', after', rfl, rfl, .cons hblock hbefore, hown, hafter⟩

/-- The table of a listed model is created by its block. -/
theorem creations_ne_nil_of_mem (blocks : List.Forall₂ (Plans inv.target) order parts) (hm : m ∈ order) :
    creations parts.flatten m.tableName ≠ [] := by
  rcases exists_split blocks hm with ⟨_, _, _, before', after', _, rfl, _, ⟨columns, checks, rest, rfl, _⟩, _⟩
  exact @creations_ne_nil _ _ columns checks (by simp)

/-- Blocks in a sorted order create every table. -/
theorem creates_of_blocks (named : Named inv) (tables : (inv.models.map (·.tableName)).Nodup)
    (joins : ∀ m ∈ inv.models, ∀ r ∈ m.relations, r.kind = .manyToMany → ∀ other ∈ inv.models,
      other.tableName ≠ m2mThroughTable m r)
    (perm : order.Perm inv.models) (sorted : Dfs.Sorted (·.structName) (dependencies inv) order)
    (blocks : List.Forall₂ (Plans inv.target) order parts) (hm : m ∈ inv.models) : Creates parts.flatten m := by
  rcases exists_split blocks (perm.mem_iff.mpr hm) with
    ⟨before, _, after, before', after', rfl, rfl, hbefore, ⟨columns, checks, rest, rfl, block⟩, hafter⟩
  have models : ∀ other ∈ before ++ m :: after, other ∈ inv.models := fun other h => perm.mem_iff.mp h
  have tables : ((before ++ m :: after).map (·.tableName)).Nodup := (perm.map _).nodup_iff.mpr tables
  rw [List.map_append, List.map_cons, List.nodup_append, List.nodup_cons] at tables
  have others : ∀ other ∈ before ++ after, other.tableName ≠ m.tableName := by
    intro other hother heq
    rcases List.mem_append.mp hother with h | h
    · exact tables.2.2 _ (List.mem_map_of_mem h) _ (List.mem_cons_self ..) heq
    · exact tables.2.1.1 (heq ▸ List.mem_map_of_mem h)
  have none_of : ∀ part ∈ before' ++ after', creations part m.tableName = [] := by
    intro part hpart
    have : ∃ other ∈ before ++ after, Plans inv.target other part :=
      (List.rel_append hbefore hafter).exists_of_mem_right hpart
    rcases this with ⟨other, hother, hplans⟩
    have hmodel : other ∈ inv.models := by
      refine models other ?_
      rcases List.mem_append.mp hother with h | h <;> simp [h]
    exact creations_plans_eq_nil hplans hmodel hm (others other hother) joins
  refine ⟨before'.flatten, columns, checks, rest ++ after'.flatten, by simp, ?_, ?_, block.keyed, ?_⟩
  · exact creations_flatten_eq_nil fun part hpart => none_of part (List.mem_append_left _ hpart)
  · rw [creations_append, creations_flatten_eq_nil fun part hpart => none_of part (List.mem_append_right _ hpart),
      List.append_nil, creations_eq_nil]
    intro op hop
    by_contra hsome
    rcases Option.ne_none_iff_exists'.mp hsome with ⟨cols, hcols⟩
    rcases (block.joined op hop _ _ hcols).1 with ⟨r, hr, hkind, htable⟩
    exact joins m hm r hr hkind m hm htable
  · intro c hc ref href
    rcases block.refers c hc ref href with ⟨r, hr, htable⟩
    -- the target of the relation is listed before the model
    have hlisted := sorted before m after rfl _ ((mem_dependencies named hm).mpr ⟨r, hr, rfl⟩)
    rcases List.mem_map.mp hlisted with ⟨target, htarget, hname⟩
    have htarget' : target = inv.target r.target := List.inj_on_of_nodup_map named.structs
      (models target (List.mem_append_left _ htarget)) (named.registered m hm r hr) hname
    rw [htable, ← htarget']
    exact .inr (creations_ne_nil_of_mem hbefore htarget)

end Blocks

/-! ### Both planners -/

/-- What `dfs` enters leads nowhere back when no relation does. -/
theorem dependencies_acyclic {inv : Inventory} (named : Named inv)
    (acyclic : ∀ m ∈ inv.models, ¬TransGen (fun a b => ∃ r ∈ a.relations, inv.target r.target = b) m m) :
    ∀ m ∈ inv.models, ¬TransGen (fun a b => b ∈ dependencies inv a) m m := by
  intro m hm hcycle
  refine acyclic m hm (TransGen.mono (fun a b hab => ?_) _ _ (Dfs.transGen_closed (dependencies_closed inv) hm hcycle).2)
  exact (mem_dependencies named hab.1).mp hab.2

theorem relations_acyclic {inv : Inventory} (named : Named inv)
    (acyclic : ∀ m ∈ inv.models, ¬TransGen (fun a b => b ∈ dependencies inv a) m m) :
    ∀ m ∈ inv.models, ¬TransGen (fun a b => ∃ r ∈ a.relations, inv.target r.target = b) m m := by
  intro m hm hcycle
  have closed : Dfs.Closed (fun a => a.relations.map fun r => inv.target r.target) inv.models := by
    intro a ha b hb
    rcases List.mem_map.mp hb with ⟨r, hr, rfl⟩
    exact named.registered a ha r hr
  have hcycle : TransGen (fun a b => b ∈ a.relations.map fun r => inv.target r.target) m m :=
    TransGen.mono (fun a b hab => List.mem_map.mpr hab) _ _ hcycle
  refine acyclic m hm (TransGen.mono (fun a b hab => ?_) _ _ (Dfs.transGen_closed closed hm hcycle).2)
  exact (mem_dependencies named hab.1).mpr (List.mem_map.mp hab.2)

section Planned
variable [CaseMap] {app : AppModels} {d : Dialect}

theorem planned_of_orderable (orderable : Orderable app) :
    Planned app (buildCreateAllPlan app d) ∧ Planned app (buildCreatePlanFromSnapshots (registeredModelsSnapshot app) d) := by
  have named : Named app := ⟨orderable.structs, app.registered⟩
  obtain ⟨g, hg, horder⟩ := Dfs.searchAll_ok (dependencies_closed app) orderable.structs
    (dependencies_acyclic named orderable.acyclic) (app.models.length + 1)
  have sorted := Dfs.searchAll_sorted (dependencies_closed app) (by omega) hg
  have perm : g.order.Perm app.models :=
    horder ▸ Dfs.visitAll_perm (dependencies_closed app) orderable.structs app.models.length
  have columns : ColumnsAcyclic app := fun m hm hcycle => orderable.acyclic m hm
    (TransGen.mono (fun a b hab => hab.1.imp fun r hr => ⟨hr.1, hr.2.2⟩) _ _ hcycle)
  have creates : ∀ parts, List.Forall₂ (Plans app.target) g.order parts → ∀ m ∈ app.models, Creates parts.flatten m :=
    fun parts blocks m hm => creates_of_blocks named app.tables orderable.joins perm sorted blocks hm
  constructor
  · obtain ⟨operations, hoperations⟩ := Except.mapM_isOk.mpr fun m hm =>
      modelOperations_isOk (app.typeable d) (perm.mem_iff.mp hm)
    have hordered : orderedModels app = .ok g.order := by simp only [orderedModels, hg]
    have hplan : buildCreateAllPlan app d = .ok operations.flatten :=
      Except.bind_eq_ok.mpr ⟨g.order, hordered, Except.bind_eq_ok.mpr ⟨operations, hoperations, rfl⟩⟩
    rw [hplan]
    exact ⟨columns, creates _ ((Except.mapM_eq_ok.mp hoperations).imp fun _ _ h => plans_modelOperations h)⟩
  · obtain ⟨ops, hops⟩ := snapshotPlan_isOk app d
    obtain ⟨operations, hoperations, rfl⟩ := snapshotPlan_ok hops
    rw [hops]
    rw [ordered_snapshot named, ← horder, List.mapM_map] at hoperations
    exact ⟨columns, creates _ ((Except.mapM_eq_ok.mp hoperations).of_mem fun m hm _ h =>
      plans_snapshot named (perm.mem_iff.mp hm) h)⟩

omit [CaseMap] in
theorem creations_of_creates {ops : List Operation} {m : ModelMeta} (h : Creates ops m) :
    ∃ columns, creations ops m.tableName = [columns] ∧ columns.map (fun c => (c.name, c.primaryKey)) = columnKeys m := by
  rcases h with ⟨before, columns, checks, after, rfl, hbefore, hafter, hkeys, _⟩
  refine ⟨columns, ?_, hkeys⟩
  rw [creations_append, hbefore, List.nil_append, creations, List.filterMap_cons_some (creates_createTable columns checks),
    ← creations, hafter]

omit [CaseMap] in
theorem exists_key {m : ModelMeta} (hm : m ∈ app.models) {columns : List ColumnDef}
    (h : columns.map (fun c => (c.name, c.primaryKey)) = columnKeys m) : ¬∀ c ∈ columns, c.primaryKey = false := by
  intro hnone
  rcases Option.isSome_iff_exists.mp (app.keys m hm) with ⟨pk, hpk⟩
  have hkey : pk.primaryKey = true := List.find?_some hpk
  have hmem : (pk.columnName, pk.primaryKey) ∈ columns.map fun c => (c.name, c.primaryKey) := by
    rw [h, columnKeys]
    exact List.mem_append_left _ (List.mem_map_of_mem (List.mem_of_find?_eq_some hpk))
  rcases List.mem_map.mp hmem with ⟨c, hc, heq⟩
  have hprimary : c.primaryKey = pk.primaryKey := congrArg Prod.snd heq
  rw [hnone c hc, hkey] at hprimary
  cases hprimary

omit [CaseMap] in
/-- The table of a created model is created by no join table. -/
theorem not_joined {ops rest : List Operation} {m other : ModelMeta} {columns : List ColumnDef} (hm : m ∈ app.models)
    (creates : Creates ops m) (block : Block app.target other columns rest) (hsub : ∀ op ∈ rest, op ∈ ops) :
    creations rest m.tableName = [] := by
  rcases creations_of_creates creates with ⟨cols, hcols, hkeys⟩
  rw [creations_eq_nil]
  intro op hop
  by_contra hsome
  rcases Option.ne_none_iff_exists'.mp hsome with ⟨joined, hjoined⟩
  have hmem : joined ∈ creations ops m.tableName := List.mem_filterMap.mpr ⟨op, hsub op hop, hjoined⟩
  rw [hcols, List.mem_singleton] at hmem
  exact exists_key hm hkeys (hmem ▸ (block.joined op hop _ _ hjoined).2)

/-- What a plan for the registered models is made of. -/
theorem createAllPlan_ok {inv : Inventory} {ops : List Operation} (h : buildCreateAllPlan inv d = .ok ops) :
    ∃ g parts, Dfs.searchAll (·.structName) (dependencies inv) (inv.models.length + 1) inv.models ⟨[], [], []⟩ = .ok g ∧
      List.Forall₂ (Plans inv.target) g.order parts ∧ ops = parts.flatten := by
  obtain ⟨order, horder, h⟩ := Except.bind_eq_ok.mp h
  obtain ⟨operations, hoperations, h⟩ := Except.bind_eq_ok.mp h
  cases h
  unfold orderedModels at horder
  split at horder
  · rename_i g hg
    cases horder
    exact ⟨g, operations, hg, (Except.mapM_eq_ok.mp hoperations).imp fun _ _ h => plans_modelOperations h, rfl⟩
  · cases horder

/-- A plan that creates every table shows that the models can be ordered. -/
theorem orderable_of_creates {ops : List Operation} (h : buildCreateAllPlan app d = .ok ops)
    (creates : ∀ m ∈ app.models, Creates ops m) : Orderable app := by
  obtain ⟨g, parts, hg, blocks, rfl⟩ := createAllPlan_ok h
  obtain ⟨added, adds⟩ := Dfs.visitAll_adds (·.structName) (dependencies_closed app) (app.models.length + 1)
    (fun _ h => h) ⟨[], []⟩
  have horder : added = g.order := adds.order.symm.trans (Dfs.searchAll_agrees hg).order
  subst horder
  have within : ∀ part ∈ parts, ∀ op ∈ part, op ∈ parts.flatten :=
    fun part hpart op hop => List.mem_flatten.mpr ⟨part, hpart, hop⟩
  -- the table of a model is created by the block of that model
  have listed : ∀ m ∈ app.models, m ∈ g.order := by
    intro m hm
    obtain ⟨before, columns, checks, after, hsplit, _⟩ := creates m hm
    have hop : Operation.createTable m.tableName columns checks ∈ parts.flatten := by simp [hsplit]
    rcases List.mem_flatten.mp hop with ⟨part, hpart, hop⟩
    rcases blocks.exists_of_mem_right hpart with ⟨other, hother, cols, checks', rest, rfl, block⟩
    rcases List.mem_cons.mp hop with heq | hop
    · have htable : m.tableName = other.tableName := (Operation.createTable.inj heq).1
      rwa [List.inj_on_of_nodup_map app.tables hm (adds.mem other hother) htable]
    · have := creations_eq_nil.mp (not_joined hm (creates m hm) block fun op hop =>
        within _ hpart op (List.mem_cons_of_mem _ hop)) _ hop
      rw [creates_createTable] at this
      cases this
  have structs : (app.models.map (·.structName)).Nodup := by
    refine List.Nodup.map_on (fun a ha b hb heq => ?_) app.tables.of_map
    exact List.inj_on_of_nodup_map adds.nodup (listed a ha) (listed b hb) heq
  have named : Named app := ⟨structs, app.registered⟩
  refine ⟨structs, relations_acyclic named ?_, ?_⟩
  · refine (Dfs.searchAll_sorted (dependencies_closed app) (by omega) hg).acyclic (dependencies_closed app) structs ?_
    exact (List.perm_ext_iff_of_nodup adds.nodup.of_map structs.of_map).mpr fun m => ⟨adds.mem m, listed m⟩
  · intro m hm r hr hkind other hother htable
    rcases exists_split blocks (listed m hm) with ⟨_, _, _, _, _, _, rfl, _, ⟨columns, checks, rest, rfl, block⟩, _⟩
    refine block.joins r hr hkind ?_
    rw [← htable]
    exact not_joined hother (creates other hother) block fun op hop => by simp [hop]

end Planned

/-- Both planners do what they owe exactly for the models that can be ordered. -/
theorem planners_planned_iff [CaseMap] (app : AppModels) (d : Dialect) :
    Planned app (buildCreateAllPlan app d) ∧
      Planned app (buildCreatePlanFromSnapshots (registeredModelsSnapshot app) d) ↔ Orderable app := by
  refine ⟨?_, planned_of_orderable⟩
  rintro ⟨registered, snapshots⟩
  obtain ⟨ops', hops'⟩ := snapshotPlan_isOk app d
  rw [hops'] at snapshots
  cases hplan : buildCreateAllPlan app d with
  | ok ops =>
    rw [hplan] at registered
    exact orderable_of_creates hplan registered.2
  | error e =>
    -- the plan for the snapshots shows that the models have no cycle
    rw [hplan] at registered
    cases e with
    | cyclicDependency models => exact absurd snapshots.1 registered
    | _ => exact registered.elim

/-! ### A category with a parent -/

def categories : AppModels where
  models := [categoryMeta]
  target := findModel [categoryMeta]
  registered := by decide
  structs := by decide
  tables := by decide
  keys := by decide
  lengths := by decide

/-- A category refers to itself, and its only cycle is that; no planner owes an error. -/
theorem categories_unplanned :
    ¬∀ (app : AppModels) (d : Dialect), @Planned app (@buildCreateAllPlan CaseMap.ascii app d) ∧
      @Planned app (@buildCreatePlanFromSnapshots CaseMap.ascii (registeredModelsSnapshot app) d) := by
  let caseMap : CaseMap := .ascii
  intro planned
  have registered := (planned categories .postgres).1
  have acyclic : ColumnsAcyclic categories := by
    intro m hm hcycle
    obtain rfl : m = categoryMeta := List.mem_singleton.mp hm
    rcases TransGen.head'_iff.mp hcycle with ⟨b, ⟨⟨r, hr, _, rfl⟩, hne⟩, _⟩
    obtain rfl := List.mem_singleton.mp hr
    exact hne rfl
  cases hplan : buildCreateAllPlan (categories : Inventory) .postgres with
  | ok ops =>
    rw [hplan] at registered
    have orderable := @orderable_of_creates _ categories _ _ hplan registered.2
    exact orderable.acyclic categoryMeta (List.mem_singleton_self _) (.single ⟨_, List.mem_singleton_self _, rfl⟩)
  | error e =>
    rw [hplan] at registered
    cases e with
    | cyclicDependency models => exact registered acyclic
    | _ => exact registered.elim

end Djangors.Migrations
