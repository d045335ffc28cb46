import Djangors.Orm.Meta

/-! # Registered models and their snapshots

The registry of models of a program and `registered_models_snapshot` (`djangors-orm/src/meta.rs`), the
form in which the models are handed to the `dj` process. -/

namespace Djangors.Orm

/-- The models of an `inventory`. A relation holds a function to its target's metadata; `target` is that
    function, by the text that stands for it in the relation. -/
structure Inventory where
  models : List ModelMeta
  target : String → ModelMeta

/-- Registered models with structs of different names. A relation names the struct of its target. -/
structure Registry extends Inventory where
  structs : (models.map (·.structName)).Nodup
  registered : ∀ m ∈ models, ∀ r ∈ m.relations, target r.target ∈ models ∧ (target r.target).structName = r.target

instance : Coe Registry Inventory := ⟨Registry.toInventory⟩

/-- `m2m_through_table` -/
def m2mThroughTable (source : ModelMeta) (relation : RelationMeta) : String :=
  source.tableName ++ "_" ++ relation.fieldName

inductive SnapshotDefault where
  | i64 (v : Int)
  | f64 (v : F64)
  | text (v : String)
  | bool (v : Bool)
  | none
deriving DecidableEq, Repr

structure FieldSnapshot where
  name : String
  columnName : String
  kind : FieldKind
  nullable : Bool := false
  primaryKey : Bool := false
  auto : Bool := false
  unique : Bool := false
  dbIndex : Bool := false
  default : SnapshotDefault := .none
  maxLength : Option Nat := .none
deriving DecidableEq, Repr

structure RelationSnapshot where
  fieldName : String
  kind : RelationKind
  targetStruct : String
  onDelete : OnDelete := .cascade
  relatedName : Option String := none
deriving DecidableEq, Repr

structure IndexSnapshot where
  name : String
  fields : List String
deriving DecidableEq, Repr

/-- Model metadata that can pass from one process to another. -/
structure ModelSnapshot where
  structName : String
  appLabel : String
  tableName : String
  fields : List FieldSnapshot
  relations : List RelationSnapshot := []
  uniqueTogether : List (List String) := []
  ordering : List String := []
  indexes : List IndexSnapshot := []
deriving DecidableEq, Repr

/-- `fields.iter().find(|f| f.primary_key)` -/
def ModelSnapshot.primaryKey? (m : ModelSnapshot) : Option FieldSnapshot := m.fields.find? (·.primaryKey)

def DefaultValue.snapshot : DefaultValue → SnapshotDefault
  | .i64 v => .i64 v
  | .f64 v => .f64 v
  | .text v => .text v
  | .bool v => .bool v
  | .none => .none

/-- The choices of a field have no place in its snapshot. -/
def FieldMeta.snapshot (f : FieldMeta) : FieldSnapshot where
  name := f.name
  columnName := f.columnName
  kind := f.kind
  nullable := f.nullable
  primaryKey := f.primaryKey
  auto := f.auto
  unique := f.unique
  dbIndex := f.dbIndex
  default := f.default.snapshot
  maxLength := f.maxLength

def RelationMeta.snapshot (target : String → ModelMeta) (r : RelationMeta) : RelationSnapshot where
  fieldName := r.fieldName
  kind := r.kind
  targetStruct := (target r.target).structName
  onDelete := r.onDelete
  relatedName := r.relatedName

def IndexMeta.snapshot (i : IndexMeta) : IndexSnapshot := ⟨i.name, i.fields⟩

def ModelMeta.snapshot (target : String → ModelMeta) (m : ModelMeta) : ModelSnapshot where
  structName := m.structName
  appLabel := m.appLabel
  tableName := m.tableName
  fields := m.fields.map (·.snapshot)
  relations := m.relations.map (·.snapshot target)
  uniqueTogether := m.uniqueTogether
  ordering := m.ordering
  indexes := m.indexes.map (·.snapshot)

/-- `registered_models_snapshot` -/
def registeredModelsSnapshot (inv : Inventory) : List ModelSnapshot := inv.models.map (·.snapshot inv.target)

/-- The first primary key of a snapshot is that of the model. -/
theorem ModelMeta.snapshot_primaryKey? (target : String → ModelMeta) (m : ModelMeta) :
    (m.snapshot target).primaryKey? = m.primaryKey?.map (·.snapshot) := by
  simp only [ModelSnapshot.primaryKey?, ModelMeta.snapshot, List.find?_map, ModelMeta.primaryKey?]
  rfl

end Djangors.Orm
