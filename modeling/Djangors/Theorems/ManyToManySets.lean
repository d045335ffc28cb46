import Djangors.Lib.Links
import Djangors.Orm.Related
import Djangors.Theorems.CompletePlans
import Djangors.Theorems.WriteScope

/-! # Many-to-many relations as sets

The planners give a join table no key over its pairs, so `ON CONFLICT DO NOTHING` has nothing to conflict with. On SQLite
the plan for the registered models makes a key of a column that refers to a generated one. -/

namespace Djangors.Orm
open Db Migrations Sql Links

inductive Planner where
  | registered
  | snapshots
deriving DecidableEq, Repr

/-- The operation for the join table of a relation in `build_create_all_plan` and in
    `build_create_plan_from_snapshots`. -/
def Planner.joinTable [CaseMap] (inv : Inventory) (d : Dialect) (m : ModelMeta) (r : RelationMeta) :
    Planner → Except MigrationError Operation
  | .registered => Migrations.joinTable inv d m r
  | .snapshots => Snapshot.joinTable (Snapshot.byName (registeredModelsSnapshot inv)) d (m.snapshot inv.target)
      (r.snapshot inv.target)

/-- The column of a join table that refers to a primary key is a key itself. -/
def Planner.keyed (planner : Planner) (d : Dialect) (pk : FieldMeta) : Bool :=
  planner == .registered && d == .sqlite && isSerial pk.kind pk.auto

/-- A many-to-many field of a registered model. -/
structure ManyToMany (inv : Inventory) where
  source : ModelMeta
  fieldName : String
  relation : RelationMeta
  listed : source ∈ inv.models
  found : source.relations.find? (fun r => r.fieldName == fieldName && r.kind == .manyToMany) = some relation

namespace ManyToMany
variable {inv : Inventory} (L : ManyToMany inv)

def related : ModelMeta := inv.target L.relation.target

def table : String := m2mThroughTable L.source L.relation

abbrev sourceCol [CaseMap] : String := CaseMap.toLowercase L.source.structName ++ "_id"

abbrev targetCol [CaseMap] : String := CaseMap.toLowercase L.related.structName ++ "_id"

/-- The model whose table the join table refers to: snapshots are told apart by the names of their structs. -/
def referred : Planner → ModelMeta
  | .registered => L.related
  | .snapshots => (byStruct inv.models L.related.structName).getD L.related

end ManyToMany

/-- A row of a model's table has the primary key. -/
def hasPk (db : Tables Cell) (m : ModelMeta) (pk : Int) : Bool :=
  m.primaryKey?.any fun f => (db m.tableName).any fun row => row.lookup f.columnName == some (.i64 pk)

section Calls
variable [CaseMap] {inv : Inventory} (S : Server) (schema : Ddl.Schema) (L : ManyToMany inv) (db : Tables Cell)

def call : Op Int Int → Except OrmError (Tables Cell)
  | .add p => m2mAdd schema db inv.target L.source L.related L.fieldName p.1 p.2
  | .remove p => m2mRemove schema db inv.target L.source L.related L.fieldName p.1 p.2

def calls (ops : List (Op Int Int)) : Except OrmError (Tables Cell) := ops.foldlM (call schema L) db

/-- After the calls, `m2m_related` gives for every source each related instance once, those whose last call added
    them. -/
def ShowsLinks {ι : Type} (fromRow : Row Cell → Except OrmError ι) (key : ι → Int) (ops : List (Op Int Int)) : Prop :=
  ∃ after, calls schema L db ops = .ok after ∧ ∀ sourcePk, ∃ found,
    m2mRelated schema after inv.target L.source L.related L.fieldName S fromRow sourcePk = .ok found ∧
      (found.map key).Nodup ∧ ∀ pk, pk ∈ found.map key ↔ Linked ops (sourcePk, pk)

end Calls

/-- The tables of the models are there with their primary keys, and that of the relation is not. -/
structure Migrated (inv : Inventory) (d : Dialect) (schema : Ddl.Schema) (table : String) : Prop where
  keys : ∀ m ∈ inv.models, ∀ pk, m.primaryKey? = some pk →
    ∃ c, Migrations.fieldColumn d pk = .ok c ∧ schema.column? m.tableName pk.columnName = some c.column
  fresh : table ∉ schema

/-- The instances of a model's rows, by their primary keys. -/
structure ReadsInstances {ι : Type} (rows : List (Row Cell)) (pkColumn : String) (fromRow : Row Cell → Except OrmError ι)
    (key : ι → Int) : Prop where
  reads : ∀ row ∈ rows, ∃ item, fromRow row = .ok item ∧ ∀ pk, row.lookup pkColumn = some (.i64 pk) → key item = pk
  distinct : (rows.map (·.lookup pkColumn)).Nodup

/-- The keys of the join table, and the pairs that its foreign keys accept. -/
def ManyToMany.links {inv : Inventory} (L : ManyToMany inv) (planner : Planner) (d : Dialect) (db : Tables Cell) :
    Links.Table Int Int where
  leftKey := L.source.primaryKey?.any (planner.keyed d)
  rightKey := (L.referred planner).primaryKey?.any (planner.keyed d)
  accepts p := hasPk db (L.referred planner) p.2

/-- The two columns have different names, no more than one of them is a key, and every pair can be added where it is. -/
structure SetLike [CaseMap] {inv : Inventory} (L : ManyToMany inv) (planner : Planner) (d : Dialect) (db : Tables Cell)
    (ops : List (Op Int Int)) : Prop where
  names : CaseMap.toLowercase L.source.structName ≠ CaseMap.toLowercase L.related.structName
  keys : ¬((L.links planner d db).leftKey = true ∧ (L.links planner d db).rightKey = true)
  added : ∀ before p after, ops = before ++ .add p :: after → (L.links planner d db).Addable before p

/-! ### The planned table -/

/-- The column of a join table that refers to the primary key of a model. -/
def JoinColumn (planner : Planner) (d : Dialect) (m : ModelMeta) (c : ColumnDef) : Prop :=
  ∃ pk type, m.primaryKey? = some pk ∧
    sqlTypeFor pk.kind pk.maxLength (planner == .registered && pk.auto) pk.name d = .ok type ∧
    c = joinColumn c.name type m.tableName pk.columnName

section Planned
variable {app : AppModels} {d : Dialect} {planner : Planner} {L : ManyToMany app} {op : Operation} {db : Tables Cell}

theorem through_eq [CaseMap] :
    through app.target L.source L.related L.fieldName = .ok ⟨L.table, L.sourceCol, L.targetCol⟩ := by
  simp [through, L.found, ManyToMany.related, ManyToMany.table]

theorem referred_mem : L.referred planner ∈ app.models := by
  have hrelated : L.related ∈ app.models := app.registered _ L.listed _ (List.mem_of_find?_eq_some L.found)
  cases planner with
  | registered => exact hrelated
  | snapshots =>
    rw [ManyToMany.referred]
    cases h : byStruct app.models L.related.structName with
    | none => exact hrelated
    | some m => exact List.mem_reverse.mp (List.mem_of_find?_eq_some h)

/-- The snapshot found by name is that of the model found by name. -/
theorem byName_related : Snapshot.byName (registeredModelsSnapshot app) L.related.structName =
    some ((L.referred .snapshots).snapshot app.target) ∧ (L.referred .snapshots).structName = L.related.structName := by
  have hrelated : L.related ∈ app.models := app.registered _ L.listed _ (List.mem_of_find?_eq_some L.found)
  have hbyName : Snapshot.byName (registeredModelsSnapshot app) L.related.structName =
      (byStruct app.models L.related.structName).map (·.snapshot app.target) := by
    rw [Snapshot.byName, registeredModelsSnapshot, ← List.map_reverse, List.find?_map]
    rfl
  rw [hbyName, ManyToMany.referred]
  cases h : byStruct app.models L.related.structName with
  | none => exact absurd (beq_self_eq_true _) (List.find?_eq_none.mp h _ (List.mem_reverse.mpr hrelated))
  | some m =>
    rw [byStruct] at h
    have hstruct := List.find?_some h
    exact ⟨rfl, beq_iff_eq.mp hstruct⟩

/-- Either planner gives the join table a column for each side. -/
theorem planned_columns [CaseMap] (hop : planner.joinTable app d L.source L.relation = .ok op) :
    ∃ sourceColumn targetColumn, op = .createTable L.table [sourceColumn, targetColumn] [] ∧
      sourceColumn.name = L.sourceCol ∧ targetColumn.name = L.targetCol ∧
      JoinColumn planner d L.source sourceColumn ∧ JoinColumn planner d (L.referred planner) targetColumn := by
  cases planner with
  | registered =>
    obtain ⟨sourcePk, targetPk, sourceType, targetType, hsource, htarget, hs, ht, rfl⟩ := joinTable_ok hop
    exact ⟨_, _, rfl, rfl, rfl, ⟨sourcePk, sourceType, hsource, hs, rfl⟩, ⟨targetPk, targetType, htarget, ht, rfl⟩⟩
  | snapshots =>
    obtain ⟨target, sourcePk, targetPk, sourceType, targetType, hname, hsource, htarget, hs, ht, rfl⟩ := snapshotJoin_ok hop
    obtain ⟨hreferred, hstruct⟩ := byName_related (L := L)
    obtain rfl := Option.some_inj.mp (hreferred.symm.trans hname)
    rw [ModelMeta.snapshot_primaryKey?] at hsource htarget
    obtain ⟨source, hsourcePk, rfl⟩ := Option.map_eq_some_iff.mp hsource
    obtain ⟨related, hrelatedPk, rfl⟩ := Option.map_eq_some_iff.mp htarget
    refine ⟨_, _, rfl, rfl, ?_, ⟨source, sourceType, hsourcePk, hs, rfl⟩, ⟨related, targetType, hrelatedPk, ht, rfl⟩⟩
    exact congrArg (CaseMap.toLowercase · ++ "_id") hstruct

/-- The server makes a key of the column where the type says so. -/
theorem JoinColumn.column {m : ModelMeta} {c : ColumnDef} (h : JoinColumn planner d m c) :
    c.column.primaryKey = m.primaryKey?.any (planner.keyed d) ∧ c.column.unique = false ∧
      ∃ pk, m.primaryKey? = some pk ∧ c.column.references = some ⟨m.tableName, pk.columnName, "CASCADE"⟩ := by
  obtain ⟨pk, type, hpk, htype, hc⟩ := h
  have hkey : contains type "PRIMARY KEY" = planner.keyed d pk := by
    rw [key_of_sqlTypeFor htype, Planner.keyed]
    cases planner with
    | registered => rfl
    | snapshots => cases d <;> rfl
  rw [hc, hpk]
  simp only [joinColumn, ColumnDef.column, hkey]
  exact ⟨by simp, by simp, pk, rfl, rfl⟩

/-- Its foreign key has the type of the key it refers to. -/
theorem JoinColumn.fits {m : ModelMeta} {c : ColumnDef} {schema : Ddl.Schema} (h : JoinColumn planner d m c)
    (hkey : ∀ pk, m.primaryKey? = some pk →
      ∃ k, Migrations.fieldColumn d pk = .ok k ∧ schema.column? m.tableName pk.columnName = some k.column) :
    schema.fits c.column = true := by
  obtain ⟨pk, type, hpk, htype, hc⟩ := h
  have hprimary : pk.primaryKey = true := List.find?_some hpk
  obtain ⟨k, hk, hcolumn⟩ := hkey pk hpk
  obtain ⟨keyType, hkeyType, hk⟩ := Except.bind_eq_ok.mp hk
  cases hk
  rw [hc, Ddl.Schema.fits]
  simp only [joinColumn, ColumnDef.column, hcolumn]
  simp [hprimary, type_of_sqlTypeFor htype hkeyType]

/-- The schema after the server has run the operation. -/
def createdSchema (casts mentions : String → String → Bool) (d : Dialect) (schema : Ddl.Schema) (op : Operation) : Ddl.Schema :=
  ((serverRules casts mentions d).exec schema op.statement).getD schema

/-- What the table of a relation is created as. -/
structure Created [CaseMap] (L : ManyToMany app) (planner : Planner) (d : Dialect) (schema schema' : Ddl.Schema)
    (columns : Ddl.Columns) (sourceColumn targetColumn : Ddl.Column) : Prop where
  table : schema'.columns? L.table = some columns
  others : ∀ t, t ≠ L.table → schema'.columns? t = schema.columns? t
  names : CaseMap.toLowercase L.source.structName ≠ CaseMap.toLowercase L.related.structName
  source : columns.lookup L.sourceCol = some sourceColumn
  target : columns.lookup L.targetCol = some targetColumn
  sourceKey : (sourceColumn.primaryKey || sourceColumn.unique) = L.source.primaryKey?.any (planner.keyed d)
  targetKey : (targetColumn.primaryKey || targetColumn.unique) = (L.referred planner).primaryKey?.any (planner.keyed d)
  sourceRef : ∃ pk, L.source.primaryKey? = some pk ∧ sourceColumn.references = some ⟨L.source.tableName, pk.columnName, "CASCADE"⟩
  targetRef : ∃ pk, (L.referred planner).primaryKey? = some pk ∧
    targetColumn.references = some ⟨(L.referred planner).tableName, pk.columnName, "CASCADE"⟩

theorem Migrated.table_ne {schema : Ddl.Schema} (migrated : Migrated app d schema L.table) {m : ModelMeta} (hm : m ∈ app.models) :
    m.tableName ≠ L.table := by
  intro heq
  obtain ⟨pk, hpk⟩ := Option.isSome_iff_exists.mp (app.keys m hm)
  obtain ⟨_, _, hcolumn⟩ := migrated.keys m hm pk hpk
  obtain ⟨_, _, hlookup, _⟩ := Ddl.column?_eq_some.mp hcolumn
  exact migrated.fresh (heq ▸ Finmap.mem_of_lookup_eq_some hlookup)

theorem id_names {a b : String} : a ++ "_id" = b ++ "_id" ↔ a = b := by
  rw [← String.toList_inj, String.toList_append, String.toList_append, List.append_cancel_right_eq, String.toList_inj]

section Created
variable (casts mentions : String → String → Bool) {schema : Ddl.Schema} (db)

/-- The server creates the table unless its columns have one name or both are keys. -/
theorem exec_iff {sourceColumn targetColumn : ColumnDef} {schema' : Ddl.Schema}
    (hsource : JoinColumn planner d L.source sourceColumn) (htarget : JoinColumn planner d (L.referred planner) targetColumn)
    (migrated : Migrated app d schema L.table) :
    (serverRules casts mentions d).exec schema (Operation.createTable L.table [sourceColumn, targetColumn] []).statement =
        some schema' ↔
      schema' = schema.insert L.table (.table [sourceColumn.entry, targetColumn.entry].toFinmap []) ∧
        sourceColumn.name ≠ targetColumn.name ∧
          ¬((L.links planner d db).leftKey = true ∧ (L.links planner d db).rightKey = true) := by
  have hkeys : (([sourceColumn.entry, targetColumn.entry] : List Ddl.Entry).filter (·.2.primaryKey)).length ≤ 1 ↔
      ¬((L.links planner d db).leftKey = true ∧ (L.links planner d db).rightKey = true) := by
    rw [ManyToMany.links, ← hsource.column.1, ← htarget.column.1]
    simp only [ColumnDef.entry, List.filter_cons, List.filter_nil]
    cases sourceColumn.column.primaryKey <;> cases targetColumn.column.primaryKey <;> simp
  have hfits {m : ModelMeta} {c : ColumnDef} (hm : m ∈ app.models) (h : JoinColumn planner d m c) :
      Ddl.Schema.fits (schema.insert L.table (.table [sourceColumn.entry, targetColumn.entry].toFinmap [])) c.column = true := by
    refine h.fits fun pk hpk => ?_
    obtain ⟨k, hk, hkey⟩ := migrated.keys m hm pk hpk
    obtain ⟨columns, checks, hlookup, hcolumn⟩ := Ddl.column?_eq_some.mp hkey
    refine ⟨k, hk, Ddl.column?_eq_some.mpr ⟨columns, checks, ?_, hcolumn⟩⟩
    rw [Finmap.lookup_insert_of_ne _ (migrated.table_ne hm), hlookup]
  refine (Ddl.exec_createTable migrated.fresh).trans ?_
  constructor
  · rintro ⟨rfl, hnames, hlength, -⟩
    exact ⟨rfl, by simpa [ColumnDef.entry] using hnames, hkeys.mp hlength⟩
  · rintro ⟨rfl, hnames, hboth⟩
    refine ⟨rfl, by simpa [ColumnDef.entry] using hnames, hkeys.mpr hboth, fun _ c hc => ?_⟩
    rcases List.mem_cons.mp hc with rfl | hc
    · exact hfits L.listed hsource
    · obtain rfl := List.mem_singleton.mp hc
      exact hfits referred_mem htarget

theorem createdSchema_created [CaseMap] (hop : planner.joinTable app d L.source L.relation = .ok op)
    (migrated : Migrated app d schema L.table)
    (hnames : CaseMap.toLowercase L.source.structName ≠ CaseMap.toLowercase L.related.structName)
    (hkeys : ¬((L.links planner d db).leftKey = true ∧ (L.links planner d db).rightKey = true)) :
    ∃ columns sourceColumn targetColumn,
      Created L planner d schema (createdSchema casts mentions d schema op) columns sourceColumn targetColumn := by
  obtain ⟨sourceColumn, targetColumn, rfl, hsourceName, htargetName, hsource, htarget⟩ := planned_columns hop
  obtain ⟨hsourceKey, hsourceUnique, hsourceRef⟩ := hsource.column
  obtain ⟨htargetKey, htargetUnique, htargetRef⟩ := htarget.column
  have hne : sourceColumn.name ≠ targetColumn.name := by
    rw [hsourceName, htargetName]
    exact mt id_names.mp hnames
  have hexec := (exec_iff db casts mentions hsource htarget migrated).mpr ⟨rfl, hne, hkeys⟩
  have hdistinct : ([sourceColumn.entry, targetColumn.entry] : List Ddl.Entry).NodupKeys := by
    simpa [List.NodupKeys, List.keys, ColumnDef.entry] using hne
  rw [createdSchema, hexec, Option.getD_some]
  refine ⟨([sourceColumn.entry, targetColumn.entry] : List Ddl.Entry).toFinmap, sourceColumn.column, targetColumn.column,
    ?_, ?_, hnames, ?_, ?_, ?_, ?_, hsourceRef, htargetRef⟩
  · exact Ddl.columns?_eq_some.mpr ⟨_, Finmap.lookup_insert _⟩
  · intro t ht
    rw [Ddl.Schema.columns?, Ddl.Schema.columns?, Finmap.lookup_insert_of_ne _ ht]
  · rw [← hsourceName]
    exact (Finmap.lookup_toFinmap_eq_some hdistinct).mpr (List.mem_cons_self ..)
  · rw [← htargetName]
    exact (Finmap.lookup_toFinmap_eq_some hdistinct).mpr (List.mem_cons_of_mem _ (List.mem_cons_self ..))
  · rw [hsourceKey, hsourceUnique, Bool.or_false]
  · rw [htargetKey, htargetUnique, Bool.or_false]

theorem createdSchema_refused [CaseMap] (hop : planner.joinTable app d L.source L.relation = .ok op)
    (migrated : Migrated app d schema L.table)
    (h : CaseMap.toLowercase L.source.structName = CaseMap.toLowercase L.related.structName ∨
      (L.links planner d db).leftKey = true ∧ (L.links planner d db).rightKey = true) :
    (createdSchema casts mentions d schema op).columns? L.table = none := by
  obtain ⟨sourceColumn, targetColumn, rfl, hsourceName, htargetName, hsource, htarget⟩ := planned_columns hop
  have hexec : (serverRules casts mentions d).exec schema
      (Operation.createTable L.table [sourceColumn, targetColumn] []).statement = none := by
    refine Option.eq_none_iff_forall_ne_some.mpr fun schema' hschema' => ?_
    obtain ⟨-, hne, hkeys⟩ := (exec_iff db casts mentions hsource htarget migrated).mp hschema'
    rcases h with h | h
    · rw [hsourceName, htargetName] at hne
      exact hne (id_names.mpr h)
    · exact hkeys h
  rw [createdSchema, hexec, Option.getD_none, Ddl.Schema.columns?, Finmap.lookup_eq_none.mpr migrated.fresh]

end Created

/-! ### Calls -/

/-- The row of a link. -/
def linkRow [CaseMap] (L : ManyToMany app) (p : Int × Int) : Row Cell :=
  [(L.sourceCol, .i64 p.1), (L.targetCol, .i64 p.2)]

/-- The tables with the links in the join table. -/
def withLinks [CaseMap] (L : ManyToMany app) (db : Tables Cell) (links : List (Int × Int)) : Tables Cell :=
  Function.update db L.table (links.map (linkRow L))

section Calls
variable [CaseMap] {schema schema' : Ddl.Schema} {columns : Ddl.Columns} {sourceColumn targetColumn : Ddl.Column}
  (created : Created L planner d schema schema' columns sourceColumn targetColumn)
  (migrated : Migrated app d schema L.table) {links : List (Int × Int)} {p : Int × Int}
include created

theorem column_ne : L.sourceCol ≠ L.targetCol :=
  mt id_names.mp created.names

theorem lookup_target : (linkRow L p).lookup L.targetCol = some (.i64 p.2) := by
  rw [linkRow, List.lookup_cons, beq_false_of_ne (column_ne created).symm, List.lookup_cons_self]

omit created in
theorem lookup_source : (linkRow L p).lookup L.sourceCol = some (.i64 p.1) :=
  List.lookup_cons_self

theorem namedColumns_links : namedColumns schema' L.table [L.sourceCol, L.targetCol] = .ok columns := by
  simp [namedColumns, created.table, created.source, created.target]

/-- The columns that are keys conflict as the sides of the pairs do. -/
theorem conflicts_links : conflicts columns (links.map (linkRow L)) (linkRow L p) = (L.links planner d db).conflicts links p := by
  have hsource : (links.map (linkRow L)).any (fun row => row.lookup L.sourceCol == some (.i64 p.1)) =
      links.any (·.1 == p.1) := by
    rw [List.any_map]
    congr 1
    funext q
    simp [lookup_source]
  have htarget : (links.map (linkRow L)).any (fun row => row.lookup L.targetCol == some (.i64 p.2)) =
      links.any (·.2 == p.2) := by
    rw [List.any_map]
    congr 1
    funext q
    simp [lookup_target created]
  rw [conflicts, linkRow]
  simp only [List.any_cons, List.any_nil, created.source, created.target, created.sourceKey, created.targetKey, hsource,
    htarget, Bool.or_false]
  rfl

theorem remove_links {result : Tables Cell} :
    call schema' L (withLinks L db links) (.remove p) = .ok result ↔
      ∃ links', (L.links planner d db).step links (.remove p) = some links' ∧ result = withLinks L db links' := by
  have hrows : withLinks L db links L.table = links.map (linkRow L) := Function.update_self ..
  have hcall : call schema' L (withLinks L db links) (.remove p) = .ok (withLinks L db (links.filter (· != p))) := by
    have hkept : (links.map (linkRow L)).filter (fun link =>
        !(link.lookup L.sourceCol == some (.i64 p.1) && link.lookup L.targetCol == some (.i64 p.2))) =
          (links.filter (· != p)).map (linkRow L) := by
      rw [List.filter_map]
      congr 2
      funext q
      simp only [Function.comp_apply, lookup_source, lookup_target created]
      rw [Bool.eq_iff_iff]
      simp [Prod.ext_iff, imp_iff_not_or]
    refine Except.bind_eq_ok.mpr ⟨_, through_eq, Except.bind_eq_ok.mpr ⟨columns, namedColumns_links created, ?_⟩⟩
    refine congrArg Except.ok ?_
    rw [hrows, hkept, withLinks, withLinks, Function.update_idem]
  rw [hcall, Links.Table.step]
  simp [eq_comm]

include migrated

/-- The foreign keys accept what has rows on both sides. -/
theorem refersToRows_links (hp : hasPk db L.source p.1 = true) :
    refersToRows columns (withLinks L db links) (linkRow L p) = (L.links planner d db).accepts p := by
  obtain ⟨sourcePk, hsourcePk, hsourceRef⟩ := created.sourceRef
  obtain ⟨targetPk, htargetPk, htargetRef⟩ := created.targetRef
  have other {m : ModelMeta} (hm : m ∈ app.models) : withLinks L db links m.tableName = db m.tableName :=
    Function.update_of_ne (migrated.table_ne hm) _ _
  have hsource : (db L.source.tableName).any (fun row => row.lookup sourcePk.columnName == some (.i64 p.1)) = true := by
    rw [hasPk, hsourcePk] at hp
    exact hp
  simp [refersToRows, linkRow, created.source, created.target, hsourceRef, htargetRef, other L.listed, other referred_mem,
    hsource, ManyToMany.links, hasPk, htargetPk]

/-- An addition does to the join table what it does to the links. -/
theorem add_links (hp : hasPk db L.source p.1 = true) {result : Tables Cell} :
    call schema' L (withLinks L db links) (.add p) = .ok result ↔
      ∃ links', (L.links planner d db).step links (.add p) = some links' ∧ result = withLinks L db links' := by
  have hrows : withLinks L db links L.table = links.map (linkRow L) := Function.update_self ..
  have happend : Function.update (withLinks L db links) L.table (links.map (linkRow L) ++ [linkRow L p]) =
      withLinks L db (links ++ [p]) := by
    rw [withLinks, withLinks, Function.update_idem, List.map_append]
    rfl
  have hcall : call schema' L (withLinks L db links) (.add p) =
      if (L.links planner d db).conflicts links p then .ok (withLinks L db links)
      else if (L.links planner d db).accepts p then .ok (withLinks L db (links ++ [p])) else .error foreignKeyFails := by
    rw [call, m2mAdd, through_eq]
    change insertOrIgnore schema' (withLinks L db links) L.table (linkRow L p) = _
    have hcolumns : namedColumns schema' L.table ((linkRow L p).map (·.1)) = .ok columns := namedColumns_links created
    rw [insertOrIgnore, hcolumns, ← happend, ← conflicts_links created, ← refersToRows_links created migrated hp, ← hrows]
    rfl
  rw [hcall, Links.Table.step]
  split
  · simp [eq_comm]
  · split
    · simp [eq_comm]
    · simp

/-- A sequence of calls does to the join table what the operations do to the links. -/
theorem calls_links {ops : List (Op Int Int)} (hops : ∀ op ∈ ops, hasPk db L.source op.pair.1 = true) {result : Tables Cell} :
    calls schema' L (withLinks L db links) ops = .ok result ↔
      ∃ links', ops.foldlM (L.links planner d db).step links = some links' ∧ result = withLinks L db links' := by
  induction ops generalizing links with
  | nil => simp [calls, pure, Except.pure, eq_comm]
  | cons op ops ih =>
    have ih (links) := @ih links fun op hop => hops op (List.mem_cons_of_mem _ hop)
    have hcall {next : Tables Cell} : call schema' L (withLinks L db links) op = .ok next ↔
        ∃ links', (L.links planner d db).step links op = some links' ∧ next = withLinks L db links' := by
      cases op with
      | add p => exact add_links created migrated (hops _ (List.mem_cons_self ..))
      | remove p => exact remove_links created
    rw [calls, List.foldlM_cons, List.foldlM_cons, Except.bind_eq_ok]
    constructor
    · rintro ⟨next, hnext, hrest⟩
      obtain ⟨links', hstep, rfl⟩ := hcall.mp hnext
      obtain ⟨final, hfinal, rfl⟩ := (ih links').mp hrest
      exact ⟨final, Option.bind_eq_some_iff.mpr ⟨links', hstep, hfinal⟩, rfl⟩
    · rintro ⟨final, hfinal, rfl⟩
      obtain ⟨links', hstep, hrest⟩ := Option.bind_eq_some_iff.mp hfinal
      exact ⟨_, hcall.mpr ⟨links', hstep, rfl⟩, (ih links').mpr ⟨final, hrest, rfl⟩⟩

end Calls

/-! ### The related rows -/

/-- Rows of distinct keys, each repeated as its key says. -/
theorem countP_joined {κ ρ : Type} [BEq κ] [LawfulBEq κ] {key : ρ → κ} {times : κ → Nat} {rows : List ρ}
    (distinct : (rows.map key).Nodup) (k : κ) :
    (rows.flatMap fun row => List.replicate (times (key row)) row).countP (key · == k) =
      if k ∈ rows.map key then times k else 0 := by
  induction rows with
  | nil => rfl
  | cons row rows ih =>
    obtain ⟨hnew, distinct⟩ := List.nodup_cons.mp distinct
    rw [List.flatMap_cons, List.countP_append, ih distinct, List.countP_replicate, List.map_cons]
    by_cases h : key row = k
    · subst h
      simp [hnew]
    · have hmem : k ∈ key row :: rows.map key ↔ k ∈ rows.map key := by
        rw [List.mem_cons, or_iff_right (Ne.symm h)]
      simp [h, if_congr hmem rfl rfl]

theorem related_columns {schema schema' : Ddl.Schema} (migrated : Migrated app d schema L.table) {pk : FieldMeta}
    (hpk : L.related.primaryKey? = some pk) (others : ∀ t, t ≠ L.table → schema'.columns? t = schema.columns? t) :
    ∃ columns, namedColumns schema' L.related.tableName [pk.columnName] = .ok columns := by
  have hrelated : L.related ∈ app.models := @referred_mem app .registered L
  obtain ⟨c, _, hcolumn⟩ := migrated.keys _ hrelated pk hpk
  obtain ⟨columns, checks, hlookup, hcolumn⟩ := Ddl.column?_eq_some.mp hcolumn
  have hcolumns : schema'.columns? L.related.tableName = some columns := by
    rw [others _ (migrated.table_ne hrelated)]
    exact Ddl.columns?_eq_some.mpr ⟨checks, hlookup⟩
  exact ⟨columns, by simp [namedColumns, hcolumns, hcolumn]⟩

section Related
variable [CaseMap] {schema schema' : Ddl.Schema} {columns : Ddl.Columns} {sourceColumn targetColumn : Ddl.Column}
  (created : Created L planner d schema schema' columns sourceColumn targetColumn)
  (migrated : Migrated app d schema L.table) {ι : Type} {S : Server} {fromRow : Row Cell → Except OrmError ι} {key : ι → Int}
  (readable : ∀ pk, L.related.primaryKey? = some pk → ReadsInstances (db L.related.tableName) pk.columnName fromRow key)
include created migrated readable

/-- A related instance is found as often as there are links to it. -/
theorem related_links {links : List (Int × Int)} (hlinks : ∀ p ∈ links, hasPk db L.related p.2 = true) (sourcePk : Int) :
    ∃ found, m2mRelated schema' (withLinks L db links) app.target L.source L.related L.fieldName S fromRow sourcePk = .ok found ∧
      ∀ pk, (found.map key).count pk = links.count (sourcePk, pk) := by
  have hrelated : L.related ∈ app.models := @referred_mem app .registered L
  obtain ⟨pk, hpk⟩ := Option.isSome_iff_exists.mp (app.keys _ hrelated)
  obtain ⟨reads, distinct⟩ := readable pk hpk
  obtain ⟨relatedColumns, hrelatedColumns⟩ := related_columns migrated hpk created.others
  let times (cell : Option Cell) : Nat := links.countP fun q => some (Cell.i64 q.2) == cell && q.1 == sourcePk
  let joined := (db L.related.tableName).flatMap fun row => List.replicate (times (row.lookup pk.columnName)) row
  have hjoined : joinedRows (withLinks L db links) L.related ⟨L.table, L.sourceCol, L.targetCol⟩ pk.columnName sourcePk =
      joined := by
    rw [joinedRows, withLinks, Function.update_self, Function.update_of_ne (migrated.table_ne hrelated)]
    refine congrArg (List.flatMap · _) (funext fun row => ?_)
    rw [List.filter_map, List.map_map, Function.comp_def, List.map_const', ← List.countP_eq_length_filter]
    refine congrArg (List.replicate · row) (List.countP_congr fun q _ => ?_)
    simp only [Function.comp_apply, lookup_source, lookup_target created]
    simp
  have key_of_mem : ∀ row ∈ joined, row ∈ db L.related.tableName ∧ ∃ n, row.lookup pk.columnName = some (.i64 n) := by
    intro row hrow
    obtain ⟨other, hother, hrow⟩ := List.mem_flatMap.mp hrow
    obtain ⟨hpos, rfl⟩ := List.mem_replicate.mp hrow
    obtain ⟨q, _, hq⟩ := List.countP_pos_iff.mp (Nat.pos_of_ne_zero hpos)
    rw [Bool.and_eq_true, beq_iff_eq] at hq
    exact ⟨hother, q.2, hq.1.symm⟩
  have hperm := S.arrange_perm [] joined
  obtain ⟨found, hfound⟩ := Except.mapM_isOk.mpr fun row (hrow : row ∈ S.arrange [] joined) =>
    (reads row (key_of_mem row (hperm.mem_iff.mp hrow)).1).imp fun _ h => h.1
  refine ⟨found, ?_, fun n => ?_⟩
  · refine Except.bind_eq_ok.mpr ⟨_, through_eq, ?_⟩
    rw [hpk]
    refine Except.bind_eq_ok.mpr ⟨_, hrelatedColumns, Except.bind_eq_ok.mpr ⟨columns, ?_, ?_⟩⟩
    · simp [namedColumns, created.table, created.source, created.target]
    · rw [hjoined]
      exact hfound
  · -- the key of an instance is the key of its row
    let keyOf (row : Row Cell) : Bool := row.lookup pk.columnName == some (.i64 n)
    have hkeys : (found.map fun item => key item == n) = (S.arrange [] joined).map keyOf := by
      refine Except.map_mapM hfound fun row hrow item hitem => ?_
      obtain ⟨hmem, m, hm⟩ := key_of_mem row (hperm.mem_iff.mp hrow)
      obtain ⟨item', hitem', hkey⟩ := reads row hmem
      obtain rfl := Except.ok.inj (hitem.symm.trans hitem')
      simp [keyOf, hm, hkey m hm]
    have hcount : (found.map key).count n = joined.countP keyOf := by
      rw [List.count, List.countP_map, ← hperm.countP_eq]
      have h := congrArg (List.countP id) hkeys
      rw [List.countP_map, List.countP_map] at h
      exact h
    have htimes : times (some (.i64 n)) = links.count (sourcePk, n) :=
      List.countP_congr fun q _ => by simp [Prod.ext_iff, and_comm]
    have hrows : joined.countP keyOf = if some (Cell.i64 n) ∈ (db L.related.tableName).map (·.lookup pk.columnName) then
        times (some (.i64 n)) else 0 := countP_joined distinct (some (.i64 n))
    rw [hcount, hrows, htimes]
    split
    · rfl
    · rename_i hno
      refine (List.count_eq_zero.mpr fun hmem => hno ?_).symm
      have hrow := hlinks _ hmem
      rw [hasPk, hpk, Option.any_some, List.any_eq_true] at hrow
      obtain ⟨row, hrow, hlookup⟩ := hrow
      exact List.mem_map.mpr ⟨row, hrow, beq_iff_eq.mp hlookup⟩

/-- What the calls leave shows the links exactly when the operations leave the set of them. -/
theorem showsLinks_iff {ops : List (Op Int Int)} (empty : db L.table = [])
    (existing : ∀ op ∈ ops, hasPk db L.source op.pair.1 = true ∧ hasPk db L.related op.pair.2 = true) :
    ShowsLinks S schema' L db fromRow key ops ↔ (L.links planner d db).Sound ops := by
  have hdb : withLinks L db [] = db := by rw [withLinks, List.map_nil, ← empty, Function.update_eq_self]
  have hcalls {after : Tables Cell} : calls schema' L db ops = .ok after ↔
      ∃ links, (L.links planner d db).run ops = some links ∧ after = withLinks L db links := by
    have h := @calls_links app d planner L db _ _ _ _ _ _ created migrated [] ops (fun op hop => (existing op hop).1) after
    rwa [hdb] at h
  have related {links : List (Int × Int)} (hrun : (L.links planner d db).run ops = some links) (sourcePk : Int) :=
    related_links (S := S) created migrated readable (fun p hp => by
      obtain ⟨op, hop, rfl⟩ := Links.Table.mem_of_run hrun hp
      exact (existing op hop).2) sourcePk
  constructor
  · rintro ⟨after, hafter, shows⟩
    obtain ⟨links, hrun, rfl⟩ := hcalls.mp hafter
    have count (p : Int × Int) : links.count p ≤ 1 ∧ (0 < links.count p ↔ Linked ops p) := by
      obtain ⟨found, hfound, hnodup, hmem⟩ := shows p.1
      obtain ⟨found', hfound', hcount⟩ := related hrun p.1
      obtain rfl := Except.ok.inj (hfound.symm.trans hfound')
      have hcount : (found.map key).count p.2 = links.count p := hcount p.2
      rw [← hcount, List.count_pos_iff]
      exact ⟨List.nodup_iff_count_le_one.mp hnodup p.2, hmem p.2⟩
    refine ⟨links, hrun, List.nodup_iff_count_le_one.mpr fun p => (count p).1, fun p => ?_⟩
    rw [← List.count_pos_iff]
    exact (count p).2
  · rintro ⟨links, hrun, hnodup, hmem⟩
    refine ⟨_, hcalls.mpr ⟨links, hrun, rfl⟩, fun sourcePk => ?_⟩
    obtain ⟨found, hfound, hcount⟩ := related hrun sourcePk
    refine ⟨found, hfound, List.nodup_iff_count_le_one.mpr fun pk => ?_, fun pk => ?_⟩
    · rw [hcount]
      exact List.nodup_iff_count_le_one.mp hnodup _
    · rw [← List.count_pos_iff, hcount, List.count_pos_iff]
      exact hmem _

end Related

end Planned

/-- On the join table of either planner, the links behave as a set up to every point of a sequence of calls exactly when
    the table can be created and every pair can be added where it is. -/
theorem links_set_iff [CaseMap] {ι : Type} {app : AppModels} (planner : Planner) (S : Server)
    (casts mentions : String → String → Bool) (schema : Ddl.Schema) (L : ManyToMany app) (db : Tables Cell)
    (fromRow : Row Cell → Except OrmError ι) (key : ι → Int) (op : Operation)
    (planned : planner.joinTable app S.dialect L.source L.relation = .ok op)
    (migrated : Migrated app S.dialect schema L.table) (empty : db L.table = [])
    (readable : ∀ pk, L.related.primaryKey? = some pk → ReadsInstances (db L.related.tableName) pk.columnName fromRow key)
    (ops : List (Op Int Int))
    (existing : ∀ op ∈ ops, hasPk db L.source op.pair.1 = true ∧ hasPk db L.related op.pair.2 = true) :
    (∀ before, before <+: ops →
      ShowsLinks S (createdSchema casts mentions S.dialect schema op) L db fromRow key before) ↔
      SetLike L planner S.dialect db ops := by
  by_cases h : CaseMap.toLowercase L.source.structName ≠ CaseMap.toLowercase L.related.structName ∧
      ¬((L.links planner S.dialect db).leftKey = true ∧ (L.links planner S.dialect db).rightKey = true)
  · obtain ⟨hnames, hkeys⟩ := h
    obtain ⟨columns, sourceColumn, targetColumn, created⟩ :=
      createdSchema_created db casts mentions planned migrated hnames hkeys
    have hshows : (∀ before, before <+: ops →
        ShowsLinks S (createdSchema casts mentions S.dialect schema op) L db fromRow key before) ↔
        ∀ before, before <+: ops → (L.links planner S.dialect db).Sound before :=
      forall_congr' fun before => imp_congr_right fun hbefore =>
        showsLinks_iff created migrated readable empty fun op hop => existing op (hbefore.subset hop)
    rw [hshows, Links.Table.sound_prefixes_iff]
    exact ⟨fun added => ⟨hnames, hkeys, added⟩, SetLike.added⟩
  · constructor
    · -- without the table `m2m_related` fails
      intro shows
      have refused := createdSchema_refused db casts mentions planned migrated
        (by rwa [not_and_or, not_not, not_not] at h)
      obtain ⟨after, _, related⟩ := shows [] (List.nil_prefix ..)
      obtain ⟨found, hfound, _⟩ := related 0
      obtain ⟨t, ht, hfound⟩ := Except.bind_eq_ok.mp hfound
      obtain rfl := Except.ok.inj (through_eq.symm.trans ht)
      split at hfound
      · cases hfound
      · obtain ⟨_, _, hfound⟩ := Except.bind_eq_ok.mp hfound
        obtain ⟨_, hcolumns, _⟩ := Except.bind_eq_ok.mp hfound
        rw [namedColumns, refused] at hcolumns
        cases hcolumns
    · rintro ⟨hnames, hkeys, _⟩
      exact absurd ⟨hnames, hkeys⟩ h

/-! ### Posts with tags -/

def tagMeta : ModelMeta := { structName := "Tag", appLabel := "blog", tableName := "blog_tag", fields := [idField] }

def taggedMeta : ModelMeta := { structName := "Post", appLabel := "blog", tableName := "blog_post", fields := [idField],
                                relations := [⟨"tags", .manyToMany, "Tag", .cascade, none⟩] }

def tagging : AppModels where
  models := [tagMeta, taggedMeta]
  target := fun _ => tagMeta
  registered := by decide
  structs := by decide
  tables := by decide
  keys := by decide
  lengths := by decide

def tags : ManyToMany (tagging : Inventory) where
  source := taggedMeta
  fieldName := "tags"
  relation := ⟨"tags", .manyToMany, "Tag", .cascade, none⟩
  listed := List.mem_cons_of_mem _ (List.mem_singleton_self _)
  found := rfl

/-- The tables of the models, without the join table. -/
def taggingSchema : Ddl.Schema :=
  let keyed : Ddl.Relation :=
    .table (Finmap.singleton "id" { type := "BIGINT", generated := true, notNull := true, primaryKey := true }) []
  (Finmap.singleton "blog_tag" keyed).insert "blog_post" keyed

/-- A post and a tag. -/
def taggingRows : Tables Cell := fun t => if t = "blog_tag" ∨ t = "blog_post" then [[("id", .i64 1)]] else []

def readId (row : Row Cell) : Except OrmError Int :=
  match row.lookup "id" with
  | some (.i64 id) => .ok id
  | _ => .error (columnMissing)

theorem tagging_migrated : Migrated tagging .postgres taggingSchema tags.table where
  keys := by
    intro m hm pk hpk
    rcases List.mem_cons.mp hm with rfl | hm
    · cases hpk
      exact ⟨_, rfl, by decide⟩
    · obtain rfl := List.mem_singleton.mp hm
      cases hpk
      exact ⟨_, rfl, by decide⟩
  fresh := by decide

theorem tagging_readable : ∀ pk, tags.related.primaryKey? = some pk →
    ReadsInstances (taggingRows tags.related.tableName) pk.columnName readId id := by
  rintro _ ⟨⟩
  refine ⟨fun row hrow => ?_, by decide⟩
  obtain rfl := List.mem_singleton.mp hrow
  exact ⟨1, rfl, by rintro _ ⟨⟩; rfl⟩

theorem tags_planned : ∃ op, @Planner.joinTable .ascii tagging .postgres tags.source tags.relation .registered = .ok op :=
  ⟨_, rfl⟩

/-- A tag that is added, removed and added again is there once. -/
theorem tag_added_again : ∃ op, @ShowsLinks .ascii _ plainServer
    (createdSchema (fun _ _ => true) (fun _ _ => false) .postgres taggingSchema op) tags taggingRows _ readId id
    [.add (1, 1), .remove (1, 1), .add (1, 1)] := by
  let caseMap : CaseMap := .ascii
  obtain ⟨op, planned⟩ := tags_planned
  refine ⟨op, (links_set_iff .registered plainServer _ _ taggingSchema tags taggingRows readId id op planned tagging_migrated
    rfl tagging_readable _ (by decide)).mpr ⟨by decide, by decide, ?_⟩ _ (List.prefix_refl _)⟩
  intro before p after h
  rcases before with _ | ⟨_, _ | ⟨_, _ | ⟨_, before⟩⟩⟩
  all_goals
    simp only [List.nil_append, List.cons_append, List.cons.injEq, reduceCtorEq, false_and, and_false, Op.add.injEq] at h
  · obtain ⟨rfl, rfl⟩ := h
    refine ⟨⟨?_, fun h => absurd h (by decide)⟩, fun _ => by decide⟩
    rintro (⟨⟨⟩, _⟩ | ⟨⟨⟩, _⟩)
  · obtain ⟨rfl, rfl, rfl, rfl⟩ := h
    refine ⟨⟨?_, fun h => absurd h (by decide)⟩, fun _ => by decide⟩
    rintro (⟨⟨⟩, _⟩ | ⟨⟨⟩, _⟩)
  · simp at h

/-- A tag that is added twice is there twice. -/
theorem tag_added_twice :
    ¬∀ (app : AppModels) (planner : Planner) (S : Server) (casts mentions : String → String → Bool) (schema : Ddl.Schema)
      (L : ManyToMany app) (db : Tables Cell) (fromRow : Row Cell → Except OrmError Int) (key : Int → Int) (op : Operation)
      (ops : List (Op Int Int)), @Planner.joinTable .ascii app S.dialect L.source L.relation planner = .ok op →
      Migrated app S.dialect schema L.table → db L.table = [] →
      (∀ pk, L.related.primaryKey? = some pk → ReadsInstances (db L.related.tableName) pk.columnName fromRow key) →
      (∀ op ∈ ops, hasPk db L.source op.pair.1 = true ∧ hasPk db L.related op.pair.2 = true) →
      @ShowsLinks .ascii _ S (createdSchema casts mentions S.dialect schema op) L db _ fromRow key ops := by
  let caseMap : CaseMap := .ascii
  intro h
  obtain ⟨op, planned⟩ := tags_planned
  have existing : ∀ op ∈ ([.add (1, 1), .add (1, 1)] : List (Op Int Int)),
      hasPk taggingRows tags.source op.pair.1 = true ∧ hasPk taggingRows tags.related op.pair.2 = true := by decide
  have shows := h tagging .registered plainServer (fun _ _ => true) (fun _ _ => false) taggingSchema tags taggingRows readId id
    op _ planned tagging_migrated rfl tagging_readable existing
  obtain ⟨_, _, _, created⟩ := createdSchema_created taggingRows (fun _ _ => true) (fun _ _ => false)
    planned tagging_migrated (by decide) (by decide)
  obtain ⟨links, hrun, hnodup, _⟩ := (showsLinks_iff created tagging_migrated tagging_readable rfl existing).mp shows
  obtain rfl : [(1, 1), (1, 1)] = links := Option.some_inj.mp hrun
  exact absurd hnodup (by decide)

end Djangors.Orm
