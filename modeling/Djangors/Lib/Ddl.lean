import Djangors.Lib.Finmap

/-! # Schemas and the statements that change them

The schema of a database is a finite map from names to tables and indexes, which share one namespace.
A server may differ from another in its `Rules`. Statements are run on the schema alone: the tables hold
no rows. -/

namespace Ddl

/-- `REFERENCES "table"("column") ON DELETE …` -/
structure Reference where
  table : String
  column : String
  onDelete : String
deriving DecidableEq, Repr

structure Column where
  type : String
  generated : Bool := false
  notNull : Bool := false
  primaryKey : Bool := false
  unique : Bool := false
  default : Option String := none
  references : Option Reference := none
deriving DecidableEq, Repr

abbrev Columns := Finmap fun _ : String => Column

/-- A column with its name. -/
abbrev Entry := Σ _ : String, Column

inductive Relation where
  | table (columns : Columns) (checks : List String)
  | index (table : String) (columns : List String)
deriving DecidableEq

abbrev Schema := Finmap fun _ : String => Relation

inductive Statement where
  | createTable (name : String) (columns : List Entry) (checks : List String)
  | addColumn (table column : String) (definition : Column)
  | dropColumn (table column : String)
  | alterType (table column type : String) (generated : Bool)
  | renameColumn (table old new : String)
  | dropTable (table : String)
  | createIndex (name table : String) (columns : List String)
  | dropIndex (name : String)
deriving DecidableEq, Repr

/-- Whether the target of a foreign key has to be there when the key is declared, whether a table that
    another one references cannot be dropped, whether `ALTER TABLE` may add and drop columns that are
    keys, unique, indexed or foreign keys, which types can be cast to which, and whether a `CHECK`
    constraint reads a column. -/
structure Rules where
  checksTargets : Bool
  restrictsDrops : Bool
  altersKeys : Bool
  casts : String → String → Bool
  mentions : String → String → Bool

namespace Relation

def columns : Relation → Columns
  | .table cols _ => cols
  | .index .. => ∅

/-- The relation is an index on table `t`. -/
def isOn (t : String) : Relation → Bool
  | .table .. => false
  | .index u _ => u == t

/-- The relation is an index on column `c` of table `t`. -/
def covers (t c : String) : Relation → Bool
  | .table .. => false
  | .index u cs => u == t && cs.contains c

/-- The relation after a column of table `t` has got another name. -/
def renamed (t old new : String) : Relation → Relation
  | .table cols checks =>
    .table (cols.mapVal fun _ c =>
      { c with references := c.references.map fun r =>
          if r.table = t ∧ r.column = old then { r with column := new } else r }) checks
  | .index u cs => .index u (if u = t then cs.map fun c => if c = old then new else c else cs)

end Relation

namespace Schema

/-- The columns of the table of that name. -/
def columns? (s : Schema) (t : String) : Option Columns :=
  match s.lookup t with
  | some (.table cols _) => some cols
  | _ => none

/-- Column `c` of table `t`. -/
def column? (s : Schema) (t c : String) : Option Column := (s.columns? t).bind (·.lookup c)

/-- Some column `c` of a table `t` has a foreign key `r` with `p t c r`. -/
def SomeReference (s : Schema) (p : String → String → Column → Reference → Bool) : Prop :=
  ∃ e ∈ s.entries, ∃ f ∈ e.2.columns.entries, f.2.references.any (p e.1 f.1 f.2) = true

instance (s : Schema) (p : String → String → Column → Reference → Bool) : Decidable (s.SomeReference p) :=
  @Multiset.decidableExistsMultiset _ s.entries _ fun _ => Multiset.decidableExistsMultiset

/-- A foreign key of the column, if it has one, refers to a key of the same type. (Postgres also accepts
    some pairs of different types.) -/
def fits (s : Schema) (c : Column) : Bool :=
  match c.references with
  | none => true
  | some r =>
    match s.column? r.table r.column with
    | none => false
    | some k => (k.primaryKey || k.unique) && k.type == c.type

end Schema

namespace Rules
variable (R : Rules)

/-- Runs a statement; `none` when the server refuses it. A `CREATE` of a name that is taken does nothing
    (`IF NOT EXISTS`), and so does a `DROP INDEX` of a name that is not (`IF EXISTS`). -/
def exec (s : Schema) : Statement → Option Schema
  | .createTable name cols checks =>
    if name ∈ s then some s
    else
      let s' : Schema := s.insert name (.table cols.toFinmap checks)
      if (cols.map (·.1)).Nodup ∧ (cols.filter (·.2.primaryKey)).length ≤ 1 ∧
          (R.checksTargets = true → ∀ c ∈ cols, s'.fits c.2 = true)
      then some s' else none
  | .addColumn t c col =>
    match s.lookup t with
    | some (.table cols checks) =>
      if c ∉ cols ∧ (col.primaryKey = true → ∀ e ∈ cols.entries, e.2.primaryKey = false) ∧
          (R.altersKeys = true ∨ (col.primaryKey || col.unique) = false) ∧ (R.checksTargets = true → s.fits col = true)
      then some (s.insert t (.table (cols.insert c col) checks)) else none
    | _ => none
  | .dropColumn t c =>
    match s.lookup t with
    | some (.table cols checks) =>
      match cols.lookup c with
      | none => none
      | some col =>
        if ¬ s.SomeReference (fun u d _ r => (u != t || d != c) && r.table == t && r.column == c) ∧
            (R.altersKeys = true ∨ (col.primaryKey || col.unique || col.references.isSome) = false ∧
              ∀ e ∈ s.entries, e.2.covers t c = false)
        then some ((s.insert t (.table (cols.erase c) (checks.filter fun k => !R.mentions k c))).filter
          fun e => !e.2.covers t c)
        else none
    | _ => none
  | .alterType t c type generated =>
    match s.lookup t with
    | some (.table cols checks) =>
      match cols.lookup c with
      | none => none
      | some col =>
        if generated = false ∧ R.casts col.type type = true ∧
            ¬ s.SomeReference (fun _ _ col r => r.table == t && r.column == c && col.type != type) ∧
            (R.checksTargets = true → s.fits { col with type } = true)
        then some (s.insert t (.table (cols.insert c { col with type }) checks)) else none
    | _ => none
  | .renameColumn t old new =>
    match s.lookup t with
    | some (.table cols checks) =>
      match cols.lookup old with
      | none => none
      | some col =>
        if new ∈ cols then none
        else some ((s.insert t (.table ((cols.erase old).insert new col) checks)).mapVal fun _ r => r.renamed t old new)
    | _ => none
  | .dropTable t =>
    match s.lookup t with
    | some (.table ..) =>
      if R.restrictsDrops = true → ¬ s.SomeReference (fun u _ _ r => u != t && r.table == t)
      then some ((s.erase t).filter fun e => !e.2.isOn t) else none
    | _ => none
  | .createIndex i t cs =>
    match s.columns? t with
    | some cols => if ∀ c ∈ cs, c ∈ cols then some (if i ∈ s then s else s.insert i (.index t cs)) else none
    | none => none
  | .dropIndex i =>
    match s.lookup i with
    | none => some s
    | some (.index ..) => some (s.erase i)
    | some (.table ..) => none

/-- Runs statements one after the other. -/
def run (s : Schema) (l : List Statement) : Option Schema := l.foldlM R.exec s

end Rules

/-- The statement that takes a statement back, if there is one. -/
def Statement.undo : Statement → Option Statement
  | .createTable name _ _ => some (.dropTable name)
  | .addColumn t c _ => some (.dropColumn t c)
  | .renameColumn t old new => some (.renameColumn t new old)
  | .createIndex i _ _ => some (.dropIndex i)
  | .dropColumn .. | .alterType .. | .dropTable .. | .dropIndex .. => none

/-- The relation a `CREATE` makes. -/
def Statement.creates : Statement → Option (Σ _ : String, Relation)
  | .createTable name cols checks => some ⟨name, .table cols.toFinmap checks⟩
  | .createIndex i t cs => some ⟨i, .index t cs⟩
  | _ => none

/-- The relations that a list of statements creates. -/
def created (l : List Statement) : List (Σ _ : String, Relation) := l.filterMap Statement.creates

end Ddl
