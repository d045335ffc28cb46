import Djangors.Lib.Lists
import Djangors.Orm.Related
import Djangors.Theorems.Meaning
import Djangors.Theorems.Projections
import Djangors.Theorems.Terminals
import Mathlib.Data.List.Perm.Basic

/-! # Batch loading and loading one by one

`select_related` and `prefetch_related` ask for all related rows at once and join in memory. What they give for a row
or a parent is what a search for its own key finds. -/

namespace Djangors.Orm
open Db Sql

/-- A foreign key of a child to a parent, which is named by an identifier. -/
structure ForeignKey (target : String → ModelMeta) (child parent : ModelMeta) where
  relation : RelationMeta
  pk : FieldMeta
  found : child.relation? relation.fieldName = some relation
  column : relation.kind ≠ .manyToMany
  leads : target relation.target = parent
  keyed : parent.primaryKey? = some pk
  ident : ' ' ∉ relation.fieldName.toList

/-- The server compares integers by their values and nothing with NULL. -/
structure ComparesIntegers (I : Interp SqlOp Cell) : Prop where
  equal_i64 : ∀ a b, I.equal (.i64 a) (.i64 b) = some (a == b)
  equal_null : ∀ c, I.equal .null c = none

section Loading
variable {target : String → ModelMeta} {child parent : ModelMeta} (fk : ForeignKey target child parent)

/-- The rows of the two tables: children have all their columns, parents have different integers for keys, and what
    refers to one is an integer or NULL. -/
structure Stored (db : Tables Cell) : Prop where
  columns : ∀ row ∈ db child.tableName, ∀ c ∈ child.columns, (row.lookup c).isSome
  refs : ∀ row ∈ db child.tableName, ∀ c, row.lookup fk.relation.fieldName = some c → c = .null ∨ ∃ n, c = .i64 n
  keys : ∀ row ∈ db parent.tableName, ∃ n, row.lookup fk.pk.columnName = some (.i64 n)
  distinct : ((db parent.tableName).map (·.lookup fk.pk.columnName)).Nodup

/-- The code of the child reads its own columns, and keeps the foreign key. -/
structure ReadsChild {ι : Type} (code : ModelCode ι) : Prop where
  extra : ∀ row c, code.fromRow ((fkAlias, c) :: row) = code.fromRow row
  keeps : ∀ row item id, code.fromRow row = .ok item → row.lookup fk.relation.fieldName = some (.i64 id) →
    i64Value (code.fieldValues item) fk.relation.fieldName = some id

section Each
variable {ι κ : Type} (S : Server) (db : Tables Cell) (childCode : ModelCode ι) (parentCode : ModelCode κ)

/-- The instance whose primary key is the foreign key of a row, if there is one. -/
def parentOf (row : Row Cell) : Except OrmError (Option κ) :=
  match (db parent.tableName).find? fun r => r.lookup fk.pk.columnName == row.lookup fk.relation.fieldName with
  | none => .ok none
  | some r => (parentCode.fromRow r).map some

/-- The rows of `all`, each with its own parent. -/
def eachRelated [Fmt] (inTransaction : Bool) (qs : QuerySet child) : Except OrmError (List (ι × Option κ)) := do
  qs.checkForUpdate S.dialect inTransaction
  let rows ← S.fetch db (qs.select S.dialect)
  rows.mapM fun row => do
    let item ← childCode.fromRow row
    let related ← parentOf fk db parentCode row
    return (item, related)

/-- The instances whose foreign key is a primary key. -/
def childrenOf (id : Int) : Except OrmError (List ι) :=
  ((db child.tableName).filter (·.lookup fk.relation.fieldName == some (.i64 id))).mapM childCode.fromRow

/-- `prefetch_related` succeeds when the children of every parent can be read, and gives each parent its children and
    nothing else. -/
def LoadsChildren (parents : List κ) (relatedName : String) : Prop :=
  let parentIds := parents.filterMap fun p => i64Value (parentCode.fieldValues p) fk.pk.name
  let loaded := prefetchRelated S db target parent child parentCode childCode parents relatedName
  ((∃ grouped, loaded = .ok grouped) ↔ ∀ id ∈ parentIds, ∃ children, childrenOf fk db childCode id = .ok children) ∧
    ∀ grouped, loaded = .ok grouped → ∀ id,
      (id ∈ parentIds → ∃ children, childrenOf fk db childCode id = .ok children ∧ ((grouped id).getD []).Perm children) ∧
        (id ∉ parentIds → grouped id = none)

end Each

/-! ### Queries -/

/-- Whether a text has the keyword between blanks. -/
def hasWhere (cs : List Char) : Bool := cs.tails.any (" WHERE ".toList.isPrefixOf ·)

theorem hasWhere_cons (c : Char) (cs : List Char) :
    hasWhere (c :: cs) = (" WHERE ".toList.isPrefixOf (c :: cs) || hasWhere cs) := rfl

theorem hasWhere_append {w cs : List Char} (h : ' ' ∉ w) : hasWhere (w ++ cs) = hasWhere cs := by
  induction w with
  | nil => rfl
  | cons c w ih =>
    rw [List.mem_cons, not_or] at h
    rw [List.cons_append, hasWhere_cons, ih h.2]
    simp [List.isPrefixOf_cons_cons, h.1]

/-- Another word between blanks can be left out. -/
theorem hasWhere_word {w cs : List Char} (h : ' ' ∉ w) (hw : w ≠ "WHERE".toList) :
    hasWhere (' ' :: (w ++ ' ' :: cs)) = hasWhere (' ' :: cs) := by
  have hhead : " WHERE ".toList.isPrefixOf (' ' :: (w ++ ' ' :: cs)) = false := by
    rw [Bool.eq_false_iff]
    intro hprefix
    obtain ⟨rest, heq⟩ := List.isPrefixOf_iff_prefix.mp hprefix
    have heq : "WHERE".toList ++ ' ' :: rest = w ++ ' ' :: cs := by simpa using heq
    have hblank : ∀ c ∈ w, decide (c ≠ ' ') = true := fun c hc => decide_eq_true fun hc' => h (hc' ▸ hc)
    have hspan := congrArg (List.takeWhile (· ≠ ' ')) heq
    rw [List.takeWhile_append_of_pos (by simp), List.takeWhile_append_of_pos hblank] at hspan
    exact hw (by simpa using hspan.symm)
  rw [hasWhere_cons, hhead, Bool.false_or, hasWhere_append h]

/-- The statement of `select_related` has a `WHERE` before its filters when that of `all` has. -/
theorem containsWhere_related : containsWhere (selectHead child ("*, \"" ++ fk.relation.fieldName ++ "\" AS " ++ fkAlias)) =
    containsWhere (selectHead child "*") := by
  let table := '"' :: (child.tableName.toList ++ ['"'])
  have hrelated : (selectHead child ("*, \"" ++ fk.relation.fieldName ++ "\" AS " ++ fkAlias)).toList =
      "SELECT".toList ++ ' ' :: ("*,".toList ++ ' ' :: ('"' :: (fk.relation.fieldName.toList ++ ['"']) ++ ' ' ::
        ("AS".toList ++ ' ' :: (fkAlias.toList ++ ' ' :: ("FROM".toList ++ ' ' :: table))))) := by
    simp [selectHead, fkAlias, table]
  have hall : (selectHead child "*").toList =
      "SELECT".toList ++ ' ' :: ("*".toList ++ ' ' :: ("FROM".toList ++ ' ' :: table)) := by
    simp [selectHead, table]
  have hname : ' ' ∉ '"' :: (fk.relation.fieldName.toList ++ ['"']) := by simp [fk.ident]
  change hasWhere _ = hasWhere _
  rw [hrelated, hall, hasWhere_append (by decide), hasWhere_append (by decide), hasWhere_word (by decide) (by decide),
    hasWhere_word hname (by simp), hasWhere_word (by decide) (by decide), hasWhere_word (by decide) (by decide),
    hasWhere_word (by decide) (by decide), hasWhere_word (by decide) (by decide), hasWhere_word (by decide) (by decide)]

/-- `select_related` asks for the rows of `all`. -/
theorem fetch_related [Fmt] (S : Server) (db : Tables Cell) (qs : QuerySet child) :
    S.fetch db (qs.compileSelectWithOrder ("*, \"" ++ fk.relation.fieldName ++ "\" AS " ++ fkAlias) true S.dialect) =
      S.fetch db (qs.select S.dialect) := by
  have hwhere := where_congr qs true true S.dialect (containsWhere_related fk)
  have hbound : (qs.compileSelectWithOrder ("*, \"" ++ fk.relation.fieldName ++ "\" AS " ++ fkAlias) true S.dialect).bound =
      (qs.select S.dialect).bound := by rw [Select.bound, hwhere]; rfl
  rw [Server.fetch, Server.fetch, hbound]
  rfl

theorem any_of_or3 {values : List (Option Bool)} : values.foldr or3 (some false) = some true ↔ some true ∈ values := by
  induction values with
  | nil => simp
  | cons v values ih =>
    rw [List.foldr_cons, or3_eq_true, ih, List.mem_cons, eq_comm]

section In
variable {S : Server} {db : Tables Cell} {m : ModelMeta} {column : String} {ids : List Int}

theorem inSelect_bound : (inSelect m column ids).bound = .cond (.inList (.column column) (ids.map fun id => some (.i64 id))) := by
  have hbinds : (List.range' 1 ids.length).map (bindAt ((ids.map Value.i64).map Value.toBind)) =
      ids.map fun id => some (.i64 id) := by
    refine List.ext_getElem (by simp) fun i hi _ => ?_
    simp only [List.length_map, List.length_range'] at hi
    simp [bindAt, hi, Value.toBind]
  rw [Select.bound, inSelect, Where.map, Pred.map, hbinds]

/-- An `IN` over integers selects the rows that have one of them. -/
theorem fetch_in (law : ComparesIntegers S.interp)
    (typed : ∀ row ∈ db m.tableName, ∃ c, row.lookup column = some c ∧ (c = .null ∨ ∃ n, c = .i64 n)) :
    ∃ rows, S.fetch db (inSelect m column ids) = .ok rows ∧
      rows.Perm ((db m.tableName).filter fun row => ids.any fun id => row.lookup column == some (.i64 id)) := by
  have hselects : ∀ row ∈ db m.tableName, S.selects db m.tableName (inSelect m column ids).bound row =
      ids.any fun id => row.lookup column == some (.i64 id) := by
    intro row hrow
    obtain ⟨c, hc, htyped⟩ := typed row hrow
    have htrue : ∀ id, S.interp.equal c (.i64 id) = some true ↔ some c = some (.i64 id) := by
      intro id
      rcases htyped with rfl | ⟨n, rfl⟩
      · simp [law.equal_null]
      · simp [law.equal_i64]
    rw [Bool.eq_iff_iff, inSelect_bound]
    simp only [Server.selects, Pred.map, Pred.holds, Pred.eval, ColRef.value, List.findSome?_cons, hc,
      Option.bind_some, beq_iff_eq, List.map_map, any_of_or3, List.mem_map, List.any_eq_true, Function.comp_apply, cellAt,
      Option.map_some, Option.getD_some, BindValue.cell, htrue]
  have hnot : ∀ text, (inSelect m column ids).bound ≠ .dangling text := by
    simp [inSelect_bound]
  refine ⟨_, Server.fetch_of_bound hnot, ?_⟩
  refine (S.arrange_perm _ _).trans (.of_eq ?_)
  exact List.filter_congr hselects

end In

/-! ### Parents -/

/-- The foreign key of a row. -/
def fkOf (row : Row Cell) : Option Int :=
  match row.lookup fk.relation.fieldName with
  | some (.i64 id) => some id
  | _ => none

section Parents
variable {fk} {ι κ : Type} {S : Server} {db : Tables Cell} {G : TryGet} {childCode : ModelCode ι} {parentCode : ModelCode κ}
  (get : LawfulGet G) (stored : Stored fk db) (reads : ReadsChild fk childCode) {rows : List (Row Cell)}

/-- The parent with a primary key. -/
def parentAt (fk : ForeignKey target child parent) (db : Tables Cell) (parentCode : ModelCode κ) (id : Int) :
    Except OrmError (Option κ) :=
  match (db parent.tableName).find? fun r => r.lookup fk.pk.columnName == some (.i64 id) with
  | none => .ok none
  | some r => (parentCode.fromRow r).map some

include get in
theorem tryI64_int (n : Int) : G.tryI64 (.i64 n) = .ok (some n) := by rw [TryGet.tryI64, get.i64]; rfl

include stored

/-- The foreign key of a stored row is an integer or NULL. -/
theorem ref_cases {row : Row Cell} (hrow : row ∈ db child.tableName) :
    (row.lookup fk.relation.fieldName = some .null ∧ fkOf fk row = none) ∨
      ∃ id, row.lookup fk.relation.fieldName = some (.i64 id) ∧ fkOf fk row = some id := by
  have hcolumn : fk.relation.fieldName ∈ child.columns := by
    refine List.mem_append_right _ (List.mem_map_of_mem (List.mem_filter.mpr ⟨List.mem_of_find?_eq_some fk.found, ?_⟩))
    simpa using fk.column
  obtain ⟨c, hc⟩ := Option.isSome_iff_exists.mp (stored.columns row hrow _ hcolumn)
  rcases stored.refs row hrow c hc with rfl | ⟨id, rfl⟩
  · exact .inl ⟨hc, by rw [fkOf, hc]⟩
  · exact .inr ⟨id, hc, by rw [fkOf, hc]⟩

/-- A row without a foreign key has no parent, and the parent of another is the one with its key. -/
theorem parentOf_eq {row : Row Cell} (hrow : row ∈ db child.tableName) :
    (fkOf fk row = none → parentOf fk db parentCode row = .ok none) ∧
      ∀ id, fkOf fk row = some id → parentOf fk db parentCode row = parentAt fk db parentCode id := by
  rcases ref_cases stored hrow with ⟨hc, hfk⟩ | ⟨id, hc, hfk⟩
  · have hnone : (db parent.tableName).find? (fun r => r.lookup fk.pk.columnName == some Cell.null) = none := by
      refine List.find?_eq_none.mpr fun r hr => ?_
      obtain ⟨n, hn⟩ := stored.keys r hr
      simp [hn]
    refine ⟨fun _ => by rw [parentOf, hc, hnone], fun id hid => ?_⟩
    rw [hfk] at hid
    cases hid
  · refine ⟨fun hnone => ?_, fun id' hid => ?_⟩
    · rw [hfk] at hnone
      cases hnone
    · rw [hfk] at hid
      cases hid
      simp only [parentOf, hc, parentAt]

include get reads

/-- `select_related` reads the instances of the rows with their foreign keys. -/
theorem records_iff (hrows : ∀ row ∈ rows, row ∈ db child.tableName) {records : List (ι × Option Int)} :
    (do
      let rows ← rows.mapM (aliased fk.relation.fieldName)
      rows.mapM fun row => do
        let t ← childCode.fromRow row
        let fkId ← tryI64ByName G row fkAlias
        return (t, fkId)) = .ok records ↔
      List.Forall₂ (fun row record => childCode.fromRow row = .ok record.1 ∧ record.2 = fkOf fk row) rows records := by
  let widen (row : Row Cell) : Row Cell := (fkAlias, (row.lookup fk.relation.fieldName).getD .null) :: row
  have hwiden : rows.mapM (aliased fk.relation.fieldName) = .ok (rows.map widen) := by
    refine Except.mapM_eq_ok.mpr (List.forall₂_map_right_iff.mpr (List.forall₂_same.mpr fun row hrow => ?_))
    rcases ref_cases stored (hrows row hrow) with ⟨hc, _⟩ | ⟨id, hc, _⟩
    · simp [aliased, hc, widen]
    · simp [aliased, hc, widen]
  have hread : ∀ row ∈ rows, ∀ record : ι × Option Int, (do
      let t ← childCode.fromRow (widen row)
      let fkId ← tryI64ByName G (widen row) fkAlias
      return (t, fkId)) = .ok record ↔ childCode.fromRow row = .ok record.1 ∧ record.2 = fkOf fk row := by
    intro row hrow record
    have hfk : tryI64ByName G (widen row) fkAlias = .ok (fkOf fk row) := by
      rcases ref_cases stored (hrows row hrow) with ⟨hc, hfk⟩ | ⟨id, hc, hfk⟩
      · simp [tryI64ByName, widen, hc, hfk, (get.i64_null .null).mpr rfl]
      · simp [tryI64ByName, widen, hc, hfk, tryI64_int get]
    rw [reads.extra, hfk, Except.bind_eq_ok]
    constructor
    · rintro ⟨t, ht, h⟩
      cases h
      exact ⟨ht, rfl⟩
    · rintro ⟨ht, hrecord⟩
      exact ⟨record.1, ht, congrArg Except.ok (Prod.ext rfl hrecord.symm)⟩
  rw [hwiden]
  refine Except.mapM_eq_ok.trans (List.forall₂_map_left_iff.trans ?_)
  constructor
  · exact fun h => h.of_mem fun row hrow record => (hread row hrow record).mp
  · exact fun h => h.of_mem fun row hrow record => (hread row hrow record).mpr

omit reads

/-- What is read of the rows that have one of the keys holds the parent at each of them. -/
theorem index_parents {ids : List Int} {found : List (Row Cell)} {entries : List (Int × κ)}
    (hfound : found.Perm ((db parent.tableName).filter fun r => ids.any fun id => r.lookup fk.pk.columnName == some (.i64 id)))
    (hentries : (found.mapM fun row => do
      let r ← parentCode.fromRow row
      let pkVal ← tryI64ByName G row fk.pk.columnName
      return (pkVal.getD 0, r)) = .ok entries) {id : Int} (hid : id ∈ ids) :
    parentAt fk db parentCode id = .ok (HashJoin.index entries id) := by
  have hmem {r : Row Cell} : r ∈ found ↔ r ∈ db parent.tableName ∧ ∃ id ∈ ids, r.lookup fk.pk.columnName = some (.i64 id) := by
    rw [hfound.mem_iff, List.mem_filter, List.any_eq_true]
    simp only [beq_iff_eq]
  have hread : List.Forall₂ (fun r (entry : Int × κ) => r.lookup fk.pk.columnName = some (.i64 entry.1) ∧
      parentCode.fromRow r = .ok entry.2) found entries := by
    refine (Except.mapM_eq_ok.mp hentries).of_mem fun r hr entry h => ?_
    obtain ⟨n, hn⟩ := stored.keys r (hmem.mp hr).1
    obtain ⟨item, hitem, h⟩ := Except.bind_eq_ok.mp h
    obtain ⟨pkVal, hpk, h⟩ := Except.bind_eq_ok.mp h
    rw [tryI64ByName, hn] at hpk
    cases (tryI64_int get n).symm.trans hpk
    cases h
    exact ⟨hn, hitem⟩
  have hkeys : entries.map (fun entry => some (Cell.i64 entry.1)) = found.map (·.lookup fk.pk.columnName) :=
    hread.map_eq fun r entry h => h.1.symm
  have distinct : (entries.map (·.1)).Nodup := by
    have hnodup : (found.map (·.lookup fk.pk.columnName)).Nodup :=
      (hfound.map _).nodup_iff.mpr (stored.distinct.sublist (List.filter_sublist.map _))
    rw [← hkeys] at hnodup
    exact List.Nodup.of_map (fun n => some (Cell.i64 n)) (by rwa [List.map_map])
  rw [HashJoin.index_eq_lookup distinct, parentAt]
  cases hfind : (db parent.tableName).find? fun r => r.lookup fk.pk.columnName == some (.i64 id) with
  | none =>
    have hnone : entries.lookup id = none := by
      refine List.lookup_eq_none_iff.mpr fun entry hentry => bne_iff_ne.mpr fun heq => ?_
      obtain ⟨r, hr, hlookup, _⟩ := hread.exists_of_mem_right hentry
      exact List.find?_eq_none.mp hfind r (hmem.mp hr).1 (by rw [hlookup, heq, beq_self_eq_true])
    rw [hnone]
  | some r =>
    have hlookup : r.lookup fk.pk.columnName = some (.i64 id) := by simpa using List.find?_some hfind
    obtain ⟨⟨n, item⟩, hentry, hn, hitem⟩ :=
      hread.exists_of_mem_left (hmem.mpr ⟨List.mem_of_find?_eq_some hfind, id, hid, hlookup⟩)
    obtain rfl : id = n := by simpa [hlookup] using hn
    rw [List.lookup_of_mem distinct hentry]
    exact congrArg (Except.map some) hitem

omit get

/-- A parent that is found at a key can be read there. -/
theorem reads_parent {id : Int} {r : Row Cell} {related : Option κ} (hr : r ∈ db parent.tableName)
    (hkey : r.lookup fk.pk.columnName = some (.i64 id)) (h : parentAt fk db parentCode id = .ok related) :
    ∃ item, parentCode.fromRow r = .ok item := by
  rw [parentAt] at h
  split at h
  · rename_i hnone
    exact absurd (by rw [hkey, beq_self_eq_true]) (List.find?_eq_none.mp hnone r hr)
  · rename_i r' hfind
    have hkey' : r'.lookup fk.pk.columnName = some (.i64 id) := by simpa using List.find?_some hfind
    obtain rfl := List.inj_on_of_nodup_map stored.distinct (List.mem_of_find?_eq_some hfind) hr (hkey'.trans hkey.symm)
    cases hitem : parentCode.fromRow r' with
    | error e =>
      rw [hitem] at h
      cases h
    | ok item => exact ⟨item, rfl⟩

/-- The join gives each row its parent. -/
theorem join_records {records : List (ι × Option Int)} (join : Option Int → Option κ)
    (hrows : ∀ row ∈ rows, row ∈ db child.tableName)
    (hrecords : List.Forall₂ (fun row record => childCode.fromRow row = .ok record.1 ∧ record.2 = fkOf fk row) rows records)
    (hnone : join none = none)
    (hjoin : ∀ record ∈ records, ∀ id, record.2 = some id → parentAt fk db parentCode id = .ok (join (some id))) :
    (rows.mapM fun row => do
      let item ← childCode.fromRow row
      let related ← parentOf fk db parentCode row
      return (item, related)) = .ok (records.map fun record => (record.1, join record.2)) := by
  refine Except.mapM_eq_ok.mpr (List.forall₂_map_right_iff.mpr ?_)
  have hboth := hrecords.flip.of_mem fun record hrecord row (h : _ ∧ _) => (⟨hrecord, h⟩ : record ∈ records ∧ _)
  refine hboth.flip.of_mem fun row hrow record h => ?_
  obtain ⟨hrecord, hitem, hfk⟩ := h
  obtain ⟨hnoParent, hparent⟩ := @parentOf_eq _ _ _ _ κ _ parentCode stored row (hrows row hrow)
  refine Except.bind_eq_ok.mpr ⟨record.1, hitem, Except.bind_eq_ok.mpr ⟨join record.2, ?_, rfl⟩⟩
  cases hid : record.2 with
  | none => rw [hnoParent (hfk.symm.trans hid), hnone]
  | some id => rw [hparent id (hfk.symm.trans hid), hjoin record hrecord id hid]

variable (S db G fk parentCode) in
/-- What `select_related` does with the instances and their foreign keys. -/
def joinParents (order : SetOrder) (records : List (ι × Option Int)) : Except OrmError (List (ι × Option κ)) :=
  let relationIds := order.arrange (records.filterMap (·.2)).dedup
  if relationIds = [] then return records.map fun record => (record.1, none)
  else do
    let found ← S.fetch db (inSelect parent fk.pk.columnName relationIds)
    let entries ← found.mapM fun row => do
      let r ← parentCode.fromRow row
      let pkVal ← tryI64ByName G row fk.pk.columnName
      return (pkVal.getD 0, r)
    return records.map fun record => (record.1, record.2.bind (HashJoin.index entries))

omit stored in
theorem mem_relationIds (order : SetOrder) {records : List (ι × Option Int)} {id : Int} :
    id ∈ order.arrange (records.filterMap (·.2)).dedup ↔ ∃ record ∈ records, record.2 = some id := by
  rw [(order.arrange_perm _).mem_iff, List.mem_dedup, List.mem_filterMap]

theorem fetch_parents (law : ComparesIntegers S.interp) (ids : List Int) :
    ∃ found, S.fetch db (inSelect parent fk.pk.columnName ids) = .ok found ∧
      found.Perm ((db parent.tableName).filter fun r => ids.any fun id => r.lookup fk.pk.columnName == some (.i64 id)) :=
  fetch_in law fun r hr => (stored.keys r hr).elim fun n hn => ⟨_, hn, .inr ⟨n, rfl⟩⟩

include get

theorem joinParents_ok (law : ComparesIntegers S.interp) {order : SetOrder} {records : List (ι × Option Int)}
    {pairs : List (ι × Option κ)} (hrows : ∀ row ∈ rows, row ∈ db child.tableName)
    (hrecords : List.Forall₂ (fun row record => childCode.fromRow row = .ok record.1 ∧ record.2 = fkOf fk row) rows records)
    (h : joinParents fk S db G parentCode order records = .ok pairs) :
    (rows.mapM fun row => do
      let item ← childCode.fromRow row
      let related ← parentOf fk db parentCode row
      return (item, related)) = .ok pairs := by
  rw [joinParents] at h
  split at h
  · -- no row has a foreign key
    rename_i hids
    refine (join_records stored (fun _ => none) hrows hrecords rfl fun record hrecord id hid => ?_).trans h
    have hmem := (mem_relationIds order).mpr ⟨record, hrecord, hid⟩
    rw [hids] at hmem
    cases hmem
  · obtain ⟨found, hfound, h⟩ := Except.bind_eq_ok.mp h
    obtain ⟨entries, hentries, h⟩ := Except.bind_eq_ok.mp h
    obtain ⟨found', hfound', hperm⟩ := fetch_parents stored law (order.arrange (records.filterMap (·.2)).dedup)
    obtain rfl := Except.ok.inj (hfound.symm.trans hfound')
    exact (join_records stored (·.bind (HashJoin.index entries)) hrows hrecords rfl fun record hrecord id hid =>
      index_parents get stored hperm hentries ((mem_relationIds order).mpr ⟨record, hrecord, hid⟩)).trans h

/-- The join succeeds when every parent can be read. -/
theorem joinParents_isOk (law : ComparesIntegers S.interp) (order : SetOrder) {records : List (ι × Option Int)}
    (hparent : ∀ record ∈ records, ∀ id, record.2 = some id → ∃ related, parentAt fk db parentCode id = .ok related) :
    ∃ pairs, joinParents fk S db G parentCode order records = .ok pairs := by
  rw [joinParents]
  split
  · exact ⟨_, rfl⟩
  · obtain ⟨found, hfound, hperm⟩ := fetch_parents stored law (order.arrange (records.filterMap (·.2)).dedup)
    have hread : ∀ r ∈ found, ∃ entry, (do
        let item ← parentCode.fromRow r
        let pkVal ← tryI64ByName G r fk.pk.columnName
        return (pkVal.getD 0, item)) = .ok entry := by
      intro r hr
      obtain ⟨hr, hany⟩ := List.mem_filter.mp (hperm.mem_iff.mp hr)
      obtain ⟨id, hid, hkey⟩ := List.any_eq_true.mp hany
      have hkey := beq_iff_eq.mp hkey
      obtain ⟨record, hrecord, hsome⟩ := (mem_relationIds order).mp hid
      obtain ⟨related, hrelated⟩ := hparent record hrecord id hsome
      obtain ⟨item, hitem⟩ := reads_parent stored hr hkey hrelated
      refine ⟨_, Except.bind_eq_ok.mpr ⟨item, hitem, Except.bind_eq_ok.mpr ⟨some id, ?_, rfl⟩⟩⟩
      rw [tryI64ByName, hkey]
      exact tryI64_int get id
    obtain ⟨entries, hentries⟩ := Except.mapM_isOk.mpr hread
    exact ⟨_, Except.bind_eq_ok.mpr ⟨found, hfound, Except.bind_eq_ok.mpr ⟨entries, hentries, rfl⟩⟩⟩

include reads

/-- `select_related` gives the rows of `all`, each with its parent. -/
theorem selectRelated_eq_ok [Fmt] (law : ComparesIntegers S.interp) (order : SetOrder) (inTransaction : Bool)
    (qs : QuerySet child) {pairs : List (ι × Option κ)} :
    qs.selectRelated S db G target order inTransaction childCode.fromRow parent parentCode.fromRow fk.relation.fieldName =
      .ok pairs ↔ eachRelated fk S db childCode parentCode inTransaction qs = .ok pairs := by
  rw [QuerySet.selectRelated, eachRelated, Except.bind_eq_ok, Except.bind_eq_ok]
  refine exists_congr fun _ => and_congr_right fun _ => ?_
  simp only [fk.found, fk.leads, bne_self_eq_false, Bool.false_eq_true, if_false, fetch_related fk S db qs, fk.keyed]
  rw [Except.bind_eq_ok, Except.bind_eq_ok]
  refine exists_congr fun rows => and_congr_right fun hfetch => ?_
  have hrows : ∀ row ∈ rows, row ∈ db child.tableName := by
    intro row hrow
    rw [fetch_windowed hfetch] at hrow
    exact List.mem_of_mem_filter ((S.arrange_perm _ _).mem_iff.mp (mem_windowed hrow))
  rw [← bind_assoc, Except.bind_eq_ok]
  simp only [records_iff get stored reads hrows]
  change (∃ records, _ ∧ joinParents fk S db G parentCode order records = _) ↔ _
  constructor
  · rintro ⟨records, hrecords, hjoined⟩
    exact joinParents_ok get stored law hrows hrecords hjoined
  · intro heach
    have heachRow : ∀ row ∈ rows, ∃ record : ι × Option Int, (childCode.fromRow row).map (·, fkOf fk row) = .ok record ∧
        ∃ related, parentOf fk db parentCode row = .ok related := by
      intro row hrow
      obtain ⟨_, h⟩ := Except.mapM_isOk.mp ⟨pairs, heach⟩ row hrow
      obtain ⟨item, hitem, h⟩ := Except.bind_eq_ok.mp h
      obtain ⟨related, hrelated, _⟩ := Except.bind_eq_ok.mp h
      exact ⟨(item, fkOf fk row), by rw [hitem]; rfl, related, hrelated⟩
    obtain ⟨records, hrecords⟩ := Except.mapM_isOk.mpr fun row hrow => (heachRow row hrow).imp fun _ h => h.1
    have hrecords : List.Forall₂
        (fun row record => childCode.fromRow row = .ok record.1 ∧ record.2 = fkOf fk row) rows records := by
      refine (Except.mapM_eq_ok.mp hrecords).imp fun row record h => ?_
      cases hitem : childCode.fromRow row with
      | error e =>
        rw [hitem] at h
        cases h
      | ok item =>
        rw [hitem] at h
        cases h
        exact ⟨rfl, rfl⟩
    obtain ⟨pairs', hjoined⟩ := joinParents_isOk get stored law order
      fun record hrecord id hid => by
        obtain ⟨row, hrow, _, hfk⟩ := hrecords.exists_of_mem_right hrecord
        obtain ⟨_, _, related, hrelated⟩ := heachRow row hrow
        rw [(parentOf_eq stored (hrows row hrow)).2 id (hfk.symm.trans hid)] at hrelated
        exact ⟨related, hrelated⟩
    obtain rfl := Except.ok.inj (heach.symm.trans (joinParents_ok get stored law hrows hrecords hjoined))
    exact ⟨records, hrecords, hjoined⟩

end Parents

/-! ### Children -/

/-- What is read of rows in another order is in that order. -/
theorem mapM_perm {α β : Type} {f : α → Except OrmError β} {xs xs' : List α} {ys ys' : List β} (hperm : xs.Perm xs')
    (h : xs.mapM f = .ok ys) (h' : xs'.mapM f = .ok ys') : ys.Perm ys' := by
  obtain ⟨zs, hzs, hzperm⟩ := List.perm_comp_forall₂ hperm (Except.mapM_eq_ok.mp h')
  obtain rfl := Except.ok.inj (h.symm.trans (Except.mapM_eq_ok.mpr hzs))
  exact hzperm

section Children
variable {fk} {ι κ : Type} {S : Server} {db : Tables Cell} {childCode : ModelCode ι} {parentCode : ModelCode κ}

/-- The children that are asked for are those whose foreign key is one of the keys. -/
theorem fetch_children (law : ComparesIntegers S.interp) (stored : Stored fk db) (ids : List Int) :
    ∃ found, S.fetch db (inSelect child fk.relation.fieldName ids) = .ok found ∧
      found.Perm ((db child.tableName).filter fun r => ids.any fun id => r.lookup fk.relation.fieldName == some (.i64 id)) := by
  refine fetch_in law fun row hrow => ?_
  rcases ref_cases stored hrow with ⟨hc, _⟩ | ⟨id, hc, _⟩
  · exact ⟨_, hc, .inl rfl⟩
  · exact ⟨_, hc, .inr ⟨id, rfl⟩⟩

/-- A child is read with its foreign key. -/
theorem childEntry_eq_ok (reads : ReadsChild fk childCode) {row : Row Cell} {id : Int}
    (hid : row.lookup fk.relation.fieldName = some (.i64 id)) {entry : Int × ι} :
    childEntry child childCode fk.relation.fieldName row = .ok entry ↔ entry.1 = id ∧ childCode.fromRow row = .ok entry.2 := by
  rw [childEntry, Except.bind_eq_ok]
  constructor
  · rintro ⟨item, hitem, h⟩
    rw [reads.keeps row item id hitem hid] at h
    cases h
    exact ⟨rfl, hitem⟩
  · rintro ⟨rfl, hitem⟩
    refine ⟨entry.2, hitem, ?_⟩
    rw [reads.keeps row entry.2 entry.1 hitem hid]
    rfl

/-- `prefetch_related` gives every parent its children. -/
theorem prefetch_loads (law : ComparesIntegers S.interp) (stored : Stored fk db) (reads : ReadsChild fk childCode)
    {parents : List κ} {relatedName : String} (hnamed : child.relations.find? (fun r =>
      r.relatedName == some relatedName && (target r.target).structName == parent.structName) = some fk.relation) :
    LoadsChildren fk S db childCode parentCode parents relatedName := by
  let parentIds := parents.filterMap fun p => i64Value (parentCode.fieldValues p) fk.pk.name
  let refers (id : Int) (row : Row Cell) : Bool := row.lookup fk.relation.fieldName == some (.i64 id)
  obtain ⟨found, hfetch, hperm⟩ := fetch_children law stored parentIds
  have hmem {row : Row Cell} {id : Int} (hid : id ∈ parentIds) (hrow : row ∈ (db child.tableName).filter (refers id)) :
      row ∈ found := by
    obtain ⟨hrow, hkey⟩ := List.mem_filter.mp hrow
    exact hperm.mem_iff.mpr (List.mem_filter.mpr ⟨hrow, List.any_eq_true.mpr ⟨id, hid, hkey⟩⟩)
  have hkeys : ∀ row ∈ found, row ∈ db child.tableName ∧ ∃ id ∈ parentIds, row.lookup fk.relation.fieldName = some (.i64 id) := by
    intro row hrow
    obtain ⟨hrow, hany⟩ := List.mem_filter.mp (hperm.mem_iff.mp hrow)
    obtain ⟨id, hid, hkey⟩ := List.any_eq_true.mp hany
    exact ⟨hrow, id, hid, beq_iff_eq.mp hkey⟩
  -- without keys nothing is asked for, and nothing would be found
  have hload : prefetchRelated S db target parent child parentCode childCode parents relatedName =
      (found.mapM (childEntry child childCode fk.relation.fieldName)).map HashJoin.group := by
    simp only [prefetchRelated, hnamed, fk.keyed]
    split
    · rename_i hnil
      have hempty : found = [] := List.eq_nil_iff_forall_not_mem.mpr fun row hrow => by
        obtain ⟨_, id, hid, _⟩ := hkeys row hrow
        simp only [parentIds, hnil] at hid
        cases hid
      rw [hempty]
      rfl
    · rw [hfetch]
      change (found.mapM (childEntry child childCode fk.relation.fieldName) >>= fun entries => .ok (HashJoin.group entries)) = _
      cases found.mapM (childEntry child childCode fk.relation.fieldName) <;> rfl
  have hread (id : Int) (hid : id ∈ parentIds) {entries : List (Int × ι)}
      (hentries : found.mapM (childEntry child childCode fk.relation.fieldName) = .ok entries) :
      ∃ children, childrenOf fk db childCode id = .ok children := by
    refine Except.mapM_isOk.mpr fun row hrow => ?_
    obtain ⟨entry, _, hentry⟩ := Except.exists_mapM_of_mem hentries (hmem hid hrow)
    obtain ⟨id', _, hkey⟩ := (hkeys row (hmem hid hrow)).2
    exact ⟨entry.2, ((childEntry_eq_ok reads hkey).mp hentry).2⟩
  refine ⟨⟨?_, fun hchildren => ?_⟩, fun grouped hgrouped id => ?_⟩
  · rintro ⟨grouped, hgrouped⟩ id hid
    rw [hload] at hgrouped
    obtain ⟨entries, hentries, _⟩ := Except.map_eq_ok hgrouped
    exact hread id hid hentries
  · have hentries : ∃ entries, found.mapM (childEntry child childCode fk.relation.fieldName) = .ok entries := by
      refine Except.mapM_isOk.mpr fun row hrow => ?_
      obtain ⟨hrow, id, hid, hkey⟩ := hkeys row hrow
      obtain ⟨item, hitem⟩ := Except.mapM_isOk.mp (hchildren id hid) row (List.mem_filter.mpr ⟨hrow, beq_iff_eq.mpr hkey⟩)
      exact ⟨(id, item), (childEntry_eq_ok reads hkey).mpr ⟨rfl, hitem⟩⟩
    obtain ⟨entries, hentries⟩ := hentries
    exact ⟨HashJoin.group entries, by rw [hload, hentries]; rfl⟩
  · rw [hload] at hgrouped
    obtain ⟨entries, hentries, rfl⟩ := Except.map_eq_ok hgrouped
    have hpairs : List.Forall₂ (fun row entry => row.lookup fk.relation.fieldName = some (.i64 entry.1) ∧
        childCode.fromRow row = .ok entry.2) found entries := by
      refine (Except.mapM_eq_ok.mp hentries).of_mem fun row hrow entry hentry => ?_
      obtain ⟨_, id', _, hkey⟩ := hkeys row hrow
      obtain ⟨rfl, hitem⟩ := (childEntry_eq_ok reads hkey).mp hentry
      exact ⟨hkey, hitem⟩
    constructor
    · intro hid
      obtain ⟨children, hchildren⟩ := hread id hid hentries
      refine ⟨children, hchildren, ?_⟩
      have hgroup : (found.filter (refers id)).mapM childCode.fromRow = .ok ((entries.filter (·.1 = id)).map (·.2)) := by
        refine Except.mapM_eq_ok.mpr (List.forall₂_map_right_iff.mpr ?_)
        refine (hpairs.filter fun row entry h => ?_).imp fun row entry h => h.2
        rw [Bool.eq_iff_iff]
        simp [refers, h.1]
      have hsame : (found.filter (refers id)).Perm ((db child.tableName).filter (refers id)) := by
        refine (hperm.filter _).trans (.of_eq ?_)
        rw [List.filter_filter]
        refine List.filter_congr fun row _ => Bool.and_eq_left_iff_imp.mpr fun hkey => ?_
        exact List.any_eq_true.mpr ⟨id, hid, hkey⟩
      rw [HashJoin.group_getD]
      exact mapM_perm hsame hgroup hchildren
    · intro hid
      refine HashJoin.group_eq_none.mpr fun hkey => hid ?_
      obtain ⟨entry, hentry, rfl⟩ := List.mem_map.mp hkey
      obtain ⟨row, hrow, hlookup, _⟩ := hpairs.exists_of_mem_right hentry
      obtain ⟨_, id, hid, hid'⟩ := hkeys row hrow
      obtain rfl : entry.1 = id := by simpa [hlookup] using hid'
      exact hid

end Children

/-! ### Derived models -/

/-- What a derived model generates. -/
def DerivedModel.code {ρ : Type} (G : TryGet) (T : TextTypes ρ) (M : DerivedModel) : ModelCode (Object ρ) where
  fromRow := M.fromRow G T
  fieldValues := M.fieldValues T

/-- A derived model reads its own columns, and keeps its foreign keys. -/
theorem derived_reads {ρ : Type} {G : TryGet} (get : LawfulGet G) (T : TextTypes ρ) (M : DerivedModel)
    (fk : ForeignKey target M.info parent) (hextra : fkAlias ∉ M.members.map Member.columnName) :
    ReadsChild fk (M.code G T) where
  extra row c := by
    refine Except.mapM_congr fun member hmember => ?_
    have hne : member.columnName ≠ fkAlias := fun heq =>
      hextra (heq ▸ List.mem_map_of_mem (List.mem_of_mem_filter hmember))
    rw [Member.fromRow, Member.fromRow, List.lookup_cons, beq_false_of_ne hne]
  keeps row object id hobject hid := by
    have hrelation : Member.relation fk.relation ∈ M.modelFields := by
      obtain ⟨member, hmember, hr⟩ := List.mem_filterMap.mp (List.mem_of_find?_eq_some fk.found)
      cases member with
      | field f => cases hr
      | relation r =>
        cases hr
        exact List.mem_filter.mpr ⟨hmember, by simpa [Member.hasColumn] using fk.column⟩
    obtain ⟨c, held, hc, hheld, hlookup⟩ := fromRow_member hobject hrelation
    obtain rfl : Cell.i64 id = c := Option.some.inj (hid.symm.trans hc)
    have hint : held = .int id := by
      obtain ⟨n, hn, h⟩ := Except.bind_eq_ok.mp hheld
      cases (tryI64_int get id).symm.trans hn
      cases h
      rfl
    have hvalue : (M.fieldValues T object).lookup fk.relation.fieldName = some (.i64 id) := by
      rw [show fk.relation.fieldName = (Member.relation fk.relation).ident from rfl, lookup_fieldValues hrelation hlookup, hint]
      rfl
    rw [DerivedModel.code, i64Value, hvalue]

end Loading

/-! ### Songs and their bands -/

def bandMembers : List Member :=
  [.field { ident := "id", columnName := "id", type := .i64, primaryKey := true, auto := true },
    .field { ident := "name", columnName := "name", type := .string }]

theorem bandMembers_idents : (bandMembers.map Member.ident).Nodup := by decide

theorem bandMembers_columns : (bandMembers.map Member.columnName).Nodup := by decide

def bandModel : DerivedModel where
  structName := "Band"
  appLabel := "music"
  tableName := "music_band"
  members := bandMembers
  idents_nodup := bandMembers_idents
  columns_nodup := bandMembers_columns
  one_pk := ⟨_, rfl⟩

def songBand : RelationMeta := ⟨"band", .foreignKey, "Band", .doNothing, some "songs"⟩

def songMembers : List Member :=
  [.field { ident := "id", columnName := "id", type := .i64, primaryKey := true, auto := true }, .relation songBand]

theorem songMembers_idents : (songMembers.map Member.ident).Nodup := by decide

theorem songMembers_columns : (songMembers.map Member.columnName).Nodup := by decide

def songModel : DerivedModel where
  structName := "Song"
  appLabel := "music"
  tableName := "music_song"
  members := songMembers
  idents_nodup := songMembers_idents
  columns_nodup := songMembers_columns
  one_pk := ⟨_, rfl⟩

def songKey : ForeignKey (fun _ => bandModel.info) songModel.info bandModel.info where
  relation := songBand
  pk := { name := "id", columnName := "id", kind := .bigInt, primaryKey := true, auto := true, unique := true, dbIndex := true }
  found := rfl
  column := nofun
  leads := rfl
  keyed := rfl
  ident := by decide

/-- A band with two songs, and a song of a band that is gone. -/
def songs : Tables Cell := fun t =>
  if t = "music_band" then [[("id", .i64 1), ("name", .text "a")]]
  else if t = "music_song" then [[("id", .i64 1), ("band", .i64 1)], [("id", .i64 2), ("band", .i64 9)],
    [("id", .i64 3), ("band", .i64 1)]]
  else []

theorem nullServer_integers : ComparesIntegers nullServer.interp where
  equal_i64 a b := by simp [nullServer, Bool.beq_eq_decide_eq]
  equal_null c := by simp [nullServer]

theorem songs_stored : Stored songKey songs where
  columns := by decide
  refs := by
    intro row hrow c hc
    simp only [songModel, DerivedModel.info, songs, reduceCtorEq, String.reduceEq, if_false, if_true, List.mem_cons,
      List.not_mem_nil, or_false] at hrow
    rcases hrow with rfl | rfl | rfl <;> cases hc <;> exact .inr ⟨_, rfl⟩
  keys := by
    intro row hrow
    simp only [bandModel, DerivedModel.info, songs, if_true, List.mem_singleton] at hrow
    subst hrow
    exact ⟨1, rfl⟩
  distinct := by decide

def band : Object String := [("id", .int 1), ("name", .text "a")]

def song (id bandId : Int) : Object String := [("id", .int id), ("band", .int bandId)]

end Djangors.Orm
