import Djangors.Orm.Inserts
import Djangors.Theorems.FormEdits

/-! # Insert paths

`save` of each instance, `insert_raw` of each one's field values and one `bulk_create` give the same columns and values.
They store the same rows when the server takes the rows on each path and reads all of them back, and the model has a column
to give a value for. -/

namespace Djangors.Orm
open Db Sql

/-! ### What the paths give -/

theorem toBindAs_cell (v : Value) (nk : NullKind) : (v.toBindAs nk).cell = v.toBind.cell := by cases v <;> rfl

section Given
variable {ρ : Type} (T : TextTypes ρ) (M : DerivedModel)

/-- The value of a member of an instance. -/
def heldValue (object : Object ρ) (member : Member) : Value :=
  ((object.lookup member.ident).getD .absent).value T member.type

/-- What `save` gives for a row. -/
def savedBinds (call : DateTime × Object ρ) : List (String × BindValue) :=
  M.saveFields.map fun member => (member.columnName, (member.savedValue T call.1 call.2).toBindAs member.nullKind)

/-- What `insert_raw` and `bulk_create` give for a row. -/
def givenBinds (object : Object ρ) : List (String × BindValue) :=
  M.saveFields.map fun member =>
    (member.columnName, (heldValue T object member).toBindAs (nullBindKindFor member.ident M.info))

variable {T M} {member : Member} {object : Object ρ}

theorem modelField_of_save (hmember : member ∈ M.saveFields) : member ∈ M.modelFields := List.mem_of_mem_filter hmember

/-- The macro and the query set bind a NULL of the same type. -/
theorem nullBindKindFor_member (hmember : member ∈ M.members) (h : member.knownSpelling = true) :
    nullBindKindFor member.ident M.info = member.nullKind := by
  rw [nullBindKindFor, field?_member hmember, Member.nullKind, if_pos h]
  cases member with
  | relation r => rfl
  | field f =>
    simp only [Member.field?, Option.map_some, DerivedField.info, DerivedField.kindToken, Member.type]
    cases f.type with
    | string =>
      simp only
      cases f.fileField <;> cases f.maxLength <;> rfl
    | _ => rfl

/-- A model without stamped fields, whose types are spelled as usual, is given the same values on each path. -/
theorem savedBinds_eq (hplain : ∀ member ∈ M.saveFields, member.stampedOnSave = false ∧ member.knownSpelling = true)
    (now : DateTime) : savedBinds T M (now, object) = givenBinds T M object := by
  refine List.map_congr_left fun member hmember => ?_
  obtain ⟨hstamp, hspelling⟩ := hplain member hmember
  rw [nullBindKindFor_member (mem_members (modelField_of_save hmember)) hspelling, Member.savedValue, hstamp]
  rfl

theorem insertColumn_member (hmember : member ∈ M.members) (v : Value) :
    QuerySet.insertColumn M.info (member.ident, v) =
      .ok (if !member.isAuto then some (member.columnName, v.toBindAs (nullBindKindFor member.ident M.info)) else none) := by
  rw [QuerySet.insertColumn]
  simp only [field?_member hmember]
  cases member with
  | field f =>
    simp only [Member.field?, Option.map_some, DerivedField.info, Member.isAuto]
    rcases Bool.eq_false_or_eq_true f.auto with hauto | hauto <;> simp [hauto, Member.columnName]
  | relation r =>
    have hrelation : M.info.relation? (Member.relation r).ident = some r := relation?_member hmember
    simp only [Member.field?, Option.map_none, hrelation]
    rfl

/-- The statement of `insert_raw` for the field values of an instance. -/
theorem insertRaw_fieldValues {pk : FieldMeta} (hpk : M.info.primaryKey? = some pk) (object : Object ρ) :
    QuerySet.insertRaw M.info (M.fieldValues T object) = .ok {
      table := M.tableName
      source := if givenBinds T M object = [] then .defaultValues
        else .values ((givenBinds T M object).map (·.1)) [(givenBinds T M object).map (·.2)]
      returning := pk.columnName } := by
  have hcolumns : (M.fieldValues T object).mapM (QuerySet.insertColumn M.info) =
      .ok (M.modelFields.map fun member => if !member.isAuto then
        some (member.columnName, (heldValue T object member).toBindAs (nullBindKindFor member.ident M.info)) else none) := by
    rw [Except.mapM_eq_ok, DerivedModel.fieldValues, List.forall₂_map_left_iff, List.forall₂_map_right_iff, List.forall₂_same]
    exact fun member hmember => insertColumn_member (mem_members hmember) _
  have hgiven : (M.modelFields.map fun member => if !member.isAuto then
      some (member.columnName, (heldValue T object member).toBindAs (nullBindKindFor member.ident M.info)) else none).filterMap
        id = givenBinds T M object := by
    rw [List.filterMap_map, givenBinds, DerivedModel.saveFields, ← List.filterMap_eq_map, List.filterMap_filter]
    rfl
  rw [QuerySet.insertRaw, hpk]
  simp only [hcolumns, bind, Except.bind, hgiven]
  rfl

theorem bulkColumn_member (hmember : member ∈ M.members) :
    QuerySet.bulkColumn M.info member.ident = if !member.isAuto then some member.columnName else none := by
  rw [QuerySet.bulkColumn, field?_member hmember]
  cases member with
  | field f =>
    simp only [Member.field?, Option.map_some, DerivedField.info, Member.isAuto]
    rcases Bool.eq_false_or_eq_true f.auto with hauto | hauto <;> simp [hauto, Member.columnName]
  | relation r =>
    have hmem : r ∈ M.info.relations := List.mem_filterMap.mpr ⟨_, hmember, rfl⟩
    have hany : M.info.relations.any (·.fieldName == (Member.relation r).ident) = true :=
      List.any_eq_true.mpr ⟨r, hmem, beq_self_eq_true _⟩
    simp only [Member.field?, Option.map_none, hany, if_true]
    rfl

theorem lookup_fieldValues_held (hmember : member ∈ M.modelFields) :
    (M.fieldValues T object).lookup member.ident = some (heldValue T object member) := by
  refine List.lookup_of_mem ?_ (List.mem_map.mpr ⟨member, hmember, rfl⟩)
  rw [DerivedModel.fieldValues, List.map_map]
  exact modelFields_nodup

/-- The statement of `bulk_create`. -/
theorem bulkCreate_fieldValues {pk : FieldMeta} (hpk : M.info.primaryKey? = some pk) {objects : List (Object ρ)}
    (hne : objects ≠ []) :
    QuerySet.bulkCreate M.info (objects.map (M.fieldValues T)) = .ok (some {
      table := M.tableName
      source := .values (M.saveFields.map Member.columnName) (objects.map fun object => (givenBinds T M object).map (·.2))
      returning := pk.columnName }) := by
  obtain ⟨first, rest, rfl⟩ := List.exists_cons_of_ne_nil hne
  have hcolumn {member : Member} (hmember : member ∈ M.modelFields) :
      (QuerySet.bulkColumn M.info member.ident).isSome = !member.isAuto := by
    rw [bulkColumn_member (mem_members hmember)]
    cases member.isAuto <;> rfl
  have horder : ((M.fieldValues T first).map (·.1)).filter (fun name => (QuerySet.bulkColumn M.info name).isSome) =
      M.saveFields.map Member.ident := by
    rw [DerivedModel.fieldValues, List.map_map, List.filter_map, DerivedModel.saveFields]
    exact congrArg _ (List.filter_congr fun member hmember => hcolumn hmember)
  have hcols : (M.saveFields.map Member.ident).filterMap (QuerySet.bulkColumn M.info) =
      M.saveFields.map Member.columnName := by
    rw [List.filterMap_map, ← List.filterMap_eq_map]
    refine List.filterMap_congr fun member hmember => ?_
    rw [Function.comp_apply, bulkColumn_member (mem_members (modelField_of_save hmember))]
    rw [DerivedModel.saveFields, List.mem_filter] at hmember
    rw [if_pos hmember.2]
    rfl
  have hrow (object : Object ρ) : (M.saveFields.map Member.ident).map (fun name =>
      (((M.fieldValues T object).lookup name).getD .null).toBindAs (nullBindKindFor name M.info)) =
        (givenBinds T M object).map (·.2) := by
    rw [givenBinds, List.map_map, List.map_map]
    refine List.map_congr_left fun member hmember => ?_
    rw [Function.comp_apply, lookup_fieldValues_held (modelField_of_save hmember)]
    rfl
  rw [List.map_cons, QuerySet.bulkCreate, hpk]
  simp only [horder, hcols]
  refine congrArg (fun rows => Except.ok (some (Insert.mk _ (.values _ rows) _))) ?_
  rw [← List.map_cons, List.map_map]
  exact List.map_congr_left fun object _ => hrow object

end Given

/-! ### What the server stores -/

section Server
variable (S : InsertServer) {db : Tables Cell} {t : String}

def withRow (t : String) (db : Tables Cell) (row : Row Cell) : Tables Cell := Function.update db t (db t ++ [row])

theorem foldl_withRow (rows : List (Row Cell)) : rows.foldl (withRow t) db = Function.update db t (db t ++ rows) := by
  induction rows generalizing db with
  | nil => rw [List.foldl_nil, List.append_nil, Function.update_eq_self]
  | cons row rows ih =>
    rw [List.foldl_cons, ih, withRow, Function.update_self, Function.update_idem, List.append_assoc, List.singleton_append]

def givenCells (given : List (String × BindValue)) : Row Cell := given.map fun p => (p.1, p.2.cell)

/-- A statement that inserts the row given for an element, where it is valid SQL. -/
def InsertServer.store {α : Type} (t : String) (valid : Prop) (given : α → List (String × BindValue)) :
    Store (Tables Cell) α (Row Cell) where
  takes db x := valid ∧ (∀ p ∈ given x, S.binds t p.1 p.2 = true) ∧
    S.refuses db (withRow t db (S.complete db t (givenCells (given x)))) = none
  make db x := S.complete db t (givenCells (given x))
  add := withRow t

theorem completeAll_eq_made {α : Type} (valid : Prop) (given : α → List (String × BindValue)) (xs : List α) :
    S.completeAll t db (xs.map fun x => givenCells (given x)) = (S.store t valid given).made db xs := by
  induction xs generalizing db with
  | nil => rfl
  | cons x xs ih => exact congrArg _ ih

/-- The rows of an `INSERT` are valid SQL, and their values may be bound. -/
def InsertServer.Binds (t : String) : InsertRows → Prop
  | .defaultValues => True
  | .values cols rows => cols ≠ [] ∧ ∀ row ∈ rows, ∀ p ∈ cols.zip row, S.binds t p.1 p.2 = true

/-- The server runs an `INSERT`. -/
def InsertServer.Accepts (db : Tables Cell) (s : Insert) : Prop :=
  S.Binds s.table s.source ∧ S.refuses db
    (Function.update db s.table (db s.table ++ S.completeAll s.table db (Server.insertedRows s.source))) = none

variable {S} {s : Insert}

theorem insert_binds (h : S.Binds s.table s.source) : S.insert db s = S.runInsert db s := by
  rw [InsertServer.insert]
  split
  · rfl
  · rename_i hsource
    rw [hsource] at h
    exact absurd rfl h.1
  · rename_i cols rows _ hsource
    rw [hsource] at h
    exact if_pos (by simpa [List.all_eq_true] using h.2)

/-- What an `INSERT` that is run leaves and returns. -/
theorem insert_accepted (h : S.Accepts db s) : S.insert db s =
    .ok (Function.update db s.table (db s.table ++ S.completeAll s.table db (Server.insertedRows s.source)),
      S.completeAll s.table db (Server.insertedRows s.source)) := by
  rw [insert_binds h.1, Server.runInsert, Server.commit, h.2]
  rfl

theorem insert_refused (h : ¬ S.Accepts db s) : ∃ e, S.insert db s = .error e := by
  by_cases hbinds : S.Binds s.table s.source
  · rw [insert_binds hbinds, Server.runInsert, Server.commit]
    cases hrefuses : S.refuses db
        (Function.update db s.table (db s.table ++ S.completeAll s.table db (Server.insertedRows s.source))) with
    | none => exact absurd ⟨hbinds, hrefuses⟩ h
    | some message => exact ⟨_, rfl⟩
  · rw [InsertServer.insert]
    split
    · rename_i hsource
      rw [hsource] at hbinds
      exact absurd trivial hbinds
    · exact ⟨_, rfl⟩
    · rename_i cols rows hcols hsource
      rw [hsource] at hbinds
      have hnot : ¬ (rows.all fun row => (cols.zip row).all fun p => S.binds s.table p.1 p.2) = true := by
        rintro hall
        exact hbinds ⟨fun hnil => hcols hnil, by simpa [List.all_eq_true] using hall⟩
      exact ⟨_, if_neg hnot⟩

end Server

section Steps
variable {ρ : Type} {G : TryGet} {T : TextTypes ρ} {M : DerivedModel} {S : InsertServer} {db : Tables Cell} {t : String}
  {pk : FieldMeta}

theorem zip_map_fst_snd (given : List (String × BindValue)) : (given.map (·.1)).zip (given.map (·.2)) = given := by
  rw [List.zip_map']
  exact List.map_id _

theorem insertedRows_given (cols : List String) (given : List (List (String × BindValue)))
    (hcols : ∀ row ∈ given, row.map (·.1) = cols) :
    Server.insertedRows (.values cols (given.map (·.map (·.2)))) = given.map givenCells := by
  rw [Server.insertedRows, List.map_map]
  refine List.map_congr_left fun row hrow => ?_
  rw [Function.comp_apply, ← hcols row hrow, List.map_map, List.zip_map']
  rfl

theorem savedBinds_columns (call : DateTime × Object ρ) :
    (savedBinds T M call).map (·.1) = M.saveFields.map Member.columnName := by
  rw [savedBinds, List.map_map]
  rfl

theorem givenBinds_columns (object : Object ρ) :
    (givenBinds T M object).map (·.1) = M.saveFields.map Member.columnName := by
  rw [givenBinds, List.map_map]
  rfl

theorem givenBinds_eq_nil {object : Object ρ} : givenBinds T M object = [] ↔ M.saveFields = [] := List.map_eq_nil_iff

/-- `save` stores a row where its table is named. -/
theorem save_steps (hname : S.unquoted M.tableName = some t) :
    (S.store t (M.saveFields ≠ []) (savedBinds T M)).Steps
      (fun db call => M.saveUnquoted S G T db call.1 call.2) (M.fromRow G T) := by
  have hrows (call : DateTime × Object ρ) : Server.insertedRows (M.saveStatement T call.1 call.2).source =
      [givenCells (savedBinds T M call)] := by
    have h := insertedRows_given _ [savedBinds T M call] (by simpa using savedBinds_columns call)
    rw [List.map_singleton, List.map_singleton, savedBinds, List.map_map] at h
    exact h
  have haccepts (db : Tables Cell) (call : DateTime × Object ρ) :
      S.Accepts db { M.saveStatement T call.1 call.2 with table := t } ↔
        (S.store t (M.saveFields ≠ []) (savedBinds T M)).takes db call := by
    have hbinds : S.Binds t (M.saveStatement T call.1 call.2).source ↔
        M.saveFields ≠ [] ∧ ∀ p ∈ savedBinds T M call, S.binds t p.1 p.2 = true := by
      simp only [DerivedModel.saveStatement, InsertServer.Binds, List.mem_singleton, forall_eq, ne_eq, List.map_eq_nil_iff]
      rw [List.zip_map', savedBinds]
    rw [InsertServer.Accepts, hrows]
    exact (and_congr hbinds Iff.rfl).trans and_assoc
  constructor
  · intro db call htakes
    simp only [DerivedModel.saveUnquoted, hname]
    rw [insert_accepted ((haccepts db call).mpr htakes), hrows]
    rfl
  · intro db call htakes
    obtain ⟨e, he⟩ := insert_refused ((haccepts db call).not.mpr htakes)
    refine ⟨e, ?_⟩
    simp only [DerivedModel.saveUnquoted, hname]
    rw [he]

theorem save_unnamed (hname : S.unquoted M.tableName = none) (call : DateTime × Object ρ) :
    M.saveUnquoted S G T db call.1 call.2 = (db, .error Server.syntaxError) := by
  simp only [DerivedModel.saveUnquoted, hname]

/-- Where its table is meant and its values may be bound, `save` is run by the server as any `INSERT`. -/
theorem saveUnquoted_eq_save (hname : S.unquoted M.tableName = some M.tableName) {call : DateTime × Object ρ}
    (hbinds : ∀ p ∈ savedBinds T M call, S.binds M.tableName p.1 p.2 = true) :
    M.saveUnquoted S G T db call.1 call.2 = M.save G T S.toServer db call.1 call.2 := by
  have hinsert : S.insert db (M.saveStatement T call.1 call.2) =
      if M.saveFields.isEmpty then .error Server.syntaxError else S.runInsert db (M.saveStatement T call.1 call.2) := by
    by_cases hnil : M.saveFields = []
    · simp [InsertServer.insert, DerivedModel.saveStatement, hnil]
    · rw [if_neg (by simpa using hnil)]
      refine insert_binds ⟨by simpa using hnil, fun row hrow p hp => ?_⟩
      rw [List.mem_singleton.mp hrow, List.zip_map'] at hp
      exact hbinds p hp
  simp only [DerivedModel.saveUnquoted, hname, DerivedModel.save]
  rw [show { M.saveStatement T call.1 call.2 with table := M.tableName } = M.saveStatement T call.1 call.2 from rfl, hinsert]
  cases M.saveFields.isEmpty <;> rfl

/-- `insert_raw` stores the row of an instance, also of a model that has no column to give a value for. -/
theorem insertRaw_steps (hpk : M.info.primaryKey? = some pk) :
    (S.store M.tableName True (givenBinds T M)).Steps
      (fun db object => QuerySet.runInsertRaw S M.info db (M.fieldValues T object))
      (fun row => (Server.returnedPk pk.columnName [row]).mapError Stop.err) := by
  let source (object : Object ρ) : InsertRows := if givenBinds T M object = [] then .defaultValues
    else .values ((givenBinds T M object).map (·.1)) [(givenBinds T M object).map (·.2)]
  have hrows (object : Object ρ) : Server.insertedRows (source object) = [givenCells (givenBinds T M object)] := by
    by_cases hnil : givenBinds T M object = []
    · simp only [source, if_pos hnil, hnil]
      rfl
    · simp only [source, if_neg hnil]
      exact insertedRows_given _ [_] (by simp)
  have hbinds (object : Object ρ) : S.Binds M.tableName (source object) ↔
      ∀ p ∈ givenBinds T M object, S.binds M.tableName p.1 p.2 = true := by
    by_cases hnil : givenBinds T M object = []
    · simp [source, hnil, InsertServer.Binds]
    · simp only [source, if_neg hnil, InsertServer.Binds, List.mem_singleton, forall_eq, zip_map_fst_snd, ne_eq,
        List.map_eq_nil_iff, hnil, not_false_iff, true_and]
  have haccepts (db : Tables Cell) (object : Object ρ) :
      S.Accepts db { table := M.tableName, source := source object, returning := pk.columnName } ↔
        (S.store M.tableName True (givenBinds T M)).takes db object := by
    rw [InsertServer.Accepts, hrows, Server.completeAll_singleton, InsertServer.store, hbinds]
    exact (Iff.of_eq (true_and _)).symm
  constructor
  · intro db object htakes
    have hrun := insert_accepted ((haccepts db object).mpr htakes)
    simp only [hrows, Server.completeAll_singleton] at hrun
    simp only [QuerySet.runInsertRaw, insertRaw_fieldValues hpk]
    rw [hrun]
    rfl
  · intro db object htakes
    obtain ⟨e, he⟩ := insert_refused ((haccepts db object).not.mpr htakes)
    refine ⟨.err e, ?_⟩
    simp only [QuerySet.runInsertRaw, insertRaw_fieldValues hpk]
    rw [he]

/-- The server takes the rows of some instances together. -/
structure InsertServer.TakesTogether (S : InsertServer) (T : TextTypes ρ) (M : DerivedModel) (db : Tables Cell)
    (objects : List (Object ρ)) : Prop where
  columns : M.saveFields ≠ []
  binds : ∀ object ∈ objects, ∀ p ∈ givenBinds T M object, S.binds M.tableName p.1 p.2 = true
  accepted : S.refuses db (Function.update db M.tableName
    (db M.tableName ++ (S.store M.tableName True (givenBinds T M)).made db objects)) = none

theorem bulk_accepts {objects : List (Object ρ)} {s : Insert} (htable : s.table = M.tableName)
    (hsource : s.source =
      .values (M.saveFields.map Member.columnName) (objects.map fun object => (givenBinds T M object).map (·.2))) :
    S.completeAll s.table db (Server.insertedRows s.source) = (S.store M.tableName True (givenBinds T M)).made db objects ∧
      (S.Accepts db s ↔ S.TakesTogether T M db objects) := by
  have hrows : S.completeAll s.table db (Server.insertedRows s.source) =
      (S.store M.tableName True (givenBinds T M)).made db objects := by
    have hcols : ∀ row ∈ objects.map (givenBinds T M), row.map (·.1) = M.saveFields.map Member.columnName :=
      List.forall_mem_map.mpr fun object _ => givenBinds_columns object
    have h := insertedRows_given _ _ hcols
    rw [List.map_map, List.map_map] at h
    rw [htable, hsource, ← completeAll_eq_made]
    exact congrArg _ h
  have hbinds : S.Binds s.table s.source ↔
      M.saveFields ≠ [] ∧ ∀ object ∈ objects, ∀ p ∈ givenBinds T M object, S.binds M.tableName p.1 p.2 = true := by
    rw [htable, hsource, InsertServer.Binds, ne_eq, List.map_eq_nil_iff, List.forall_mem_map]
    refine and_congr Iff.rfl (forall₂_congr fun object _ => ?_)
    rw [← givenBinds_columns object, zip_map_fst_snd]
  refine ⟨hrows, ?_⟩
  rw [InsertServer.Accepts, hbinds, hrows, htable]
  exact ⟨fun h => ⟨h.1.1, h.1.2, h.2⟩, fun h => ⟨⟨h.columns, h.binds⟩, h.accepted⟩⟩

/-- What `bulk_create` leaves and returns. -/
theorem bulk_run (hpk : M.info.primaryKey? = some pk) {objects : List (Object ρ)} (hne : objects ≠ []) :
    let rows := (S.store M.tableName True (givenBinds T M)).made db objects
    (S.TakesTogether T M db objects → QuerySet.runBulkCreate S M.info db (objects.map (M.fieldValues T)) =
      (Function.update db M.tableName (db M.tableName ++ rows),
        (rows.mapM fun row => Server.returnedPk pk.columnName [row]).mapError Stop.err)) ∧
    (¬ S.TakesTogether T M db objects →
      ∃ e, QuerySet.runBulkCreate S M.info db (objects.map (M.fieldValues T)) = (db, .error e)) := by
  let s : Insert := {
    table := M.tableName
    source := .values (M.saveFields.map Member.columnName) (objects.map fun object => (givenBinds T M object).map (·.2))
    returning := pk.columnName }
  obtain ⟨hrows, haccepts⟩ := @bulk_accepts _ T M S db objects s rfl rfl
  simp only [QuerySet.runBulkCreate, bulkCreate_fieldValues hpk hne]
  refine ⟨fun h => ?_, fun h => ?_⟩
  · rw [insert_accepted (haccepts.mpr h), hrows]
  · obtain ⟨e, he⟩ := insert_refused (haccepts.not.mpr h)
    exact ⟨.err e, by rw [he]⟩

end Steps

/-! ### Agreement -/

section Agreement
variable {ρ : Type} (G : TryGet) (T : TextTypes ρ) (M : DerivedModel) (S : InsertServer) (db : Tables Cell) (pk : FieldMeta)
  (calls : List (DateTime × Object ρ))

/-- Each instance saved at its time. -/
def savePath : Tables Cell × Except OrmError (List (Object ρ)) :=
  forEach (fun db call => M.saveUnquoted S G T db call.1 call.2) db calls

def insertRawPath : Tables Cell × Except Stop (List Int) :=
  forEach (fun db object => QuerySet.runInsertRaw S M.info db (M.fieldValues T object)) db (calls.map (·.2))

def bulkPath : Tables Cell × Except Stop (List Int) :=
  QuerySet.runBulkCreate S M.info db ((calls.map (·.2)).map (M.fieldValues T))

/-- The rows agree in the columns that are not generated. -/
def SameGiven (row row' : Row Cell) : Prop :=
  ∀ member ∈ M.saveFields, row.lookup member.columnName = row'.lookup member.columnName

structure SameTables (after after' : Tables Cell) : Prop where
  rows : List.Forall₂ (SameGiven M) (after M.tableName) (after' M.tableName)
  others : ∀ t, t ≠ M.tableName → after t = after' t

/-- The row is that of an instance. -/
def HoldsGiven (object : Object ρ) (row : Row Cell) : Prop :=
  ∀ member ∈ M.saveFields, row.lookup member.columnName =
    some (S.stores M.tableName member.columnName (heldValue T object member).toBind.cell)

/-- The three paths leave the same rows, succeed or fail alike, and `bulk_create` returns the key of each instance. -/
structure PathsAgree : Prop where
  saved : SameTables M (savePath G T M S db calls).1 (insertRawPath T M S db calls).1
  bulk : SameTables M (insertRawPath T M S db calls).1 (bulkPath T M S db calls).1
  saved_ok : (∃ objects, (savePath G T M S db calls).2 = .ok objects) ↔ ∃ keys, (insertRawPath T M S db calls).2 = .ok keys
  bulk_ok : (∃ keys, (insertRawPath T M S db calls).2 = .ok keys) ↔ ∃ keys, (bulkPath T M S db calls).2 = .ok keys
  keys : ∀ keys, (bulkPath T M S db calls).2 = .ok keys → ∃ rows,
    (bulkPath T M S db calls).1 M.tableName = db M.tableName ++ rows ∧
      List.Forall₂ (HoldsGiven T M S) (calls.map (·.2)) rows ∧
        List.Forall₂ (fun row key => row.lookup pk.columnName = some (.i64 key)) rows keys

/-- The rows that `save` stores when the server takes each. -/
def savedRows : List (Row Cell) := (S.store M.tableName (M.saveFields ≠ []) (savedBinds T M)).made db calls

/-- The rows that `insert_raw` and `bulk_create` store. -/
def givenRows : List (Row Cell) := (S.store M.tableName True (givenBinds T M)).made db (calls.map (·.2))

/-- The server takes the rows on each path, and a field that `save` stamps holds the time of its call. -/
structure RowsTaken : Prop where
  named : S.unquoted M.tableName = some M.tableName
  saved : (S.store M.tableName (M.saveFields ≠ []) (savedBinds T M)).TakesEach db calls
  given : (S.store M.tableName True (givenBinds T M)).TakesEach db (calls.map (·.2))
  together : S.TakesTogether T M db (calls.map (·.2))
  stamps : ∀ call ∈ calls, ∀ member ∈ M.saveFields, member.stampedOnSave = true →
    S.stores M.tableName member.columnName (.dateTime call.1) =
      S.stores M.tableName member.columnName (heldValue T call.2 member).toBind.cell

/-- The rows are read back, each with an integer for its key. -/
structure RowsRead : Prop where
  objects : ∀ row ∈ savedRows T M S db calls, ∃ object, M.fromRow G T row = .ok object
  keys : ∀ row ∈ givenRows T M S db calls, ∃ key, row.lookup pk.columnName = some (.i64 key)

/-- All rows but the last are read back, by `save` and for their keys. -/
structure LastUnread : Prop where
  objects : ∀ row ∈ (savedRows T M S db calls).dropLast, ∃ object, M.fromRow G T row = .ok object
  object : ¬ ∀ row ∈ savedRows T M S db calls, ∃ object, M.fromRow G T row = .ok object
  keys : ∀ row ∈ (givenRows T M S db calls).dropLast, ∃ key, Server.returnedPk pk.columnName [row] = .ok key
  key : ¬ ∀ row ∈ givenRows T M S db calls, ∃ key, Server.returnedPk pk.columnName [row] = .ok key

/-- The server refuses the first row on each path, and the rows together. -/
structure RowsRefused : Prop where
  saved : ∀ t, S.unquoted M.tableName = some t →
    ∀ call ∈ calls.head?, ¬ (S.store t (M.saveFields ≠ []) (savedBinds T M)).takes db call
  given : ∀ call ∈ calls.head?, ¬ (S.store M.tableName True (givenBinds T M)).takes db call.2
  together : ¬ S.TakesTogether T M db (calls.map (·.2))

variable {G T M S db pk calls}

theorem lookup_givenCells {f : Member → BindValue} {member : Member} (hmember : member ∈ M.saveFields) :
    (givenCells (M.saveFields.map fun member => (member.columnName, f member))).lookup member.columnName =
      some (f member).cell := by
  refine List.lookup_of_mem ?_ ?_
  · rw [givenCells, List.map_map, List.map_map]
    exact M.columns_nodup.sublist ((List.filter_sublist.trans List.filter_sublist).map _)
  · rw [givenCells, List.map_map]
    exact List.mem_map.mpr ⟨member, hmember, rfl⟩

theorem made_saved : List.Forall₂ (fun call row => ∀ member ∈ M.saveFields, row.lookup member.columnName =
    some (S.stores M.tableName member.columnName ((member.savedValue T call.1 call.2).toBind.cell)))
      calls (savedRows T M S db calls) := by
  refine Store.forall₂_made fun s call _ member hmember => ?_
  rw [← toBindAs_cell _ member.nullKind]
  exact S.complete_given _ _ _ _ _ (lookup_givenCells hmember)

theorem made_given : List.Forall₂ (HoldsGiven T M S) (calls.map (·.2)) (givenRows T M S db calls) := by
  refine Store.forall₂_made fun s object _ member hmember => ?_
  rw [← toBindAs_cell _ (nullBindKindFor member.ident M.info)]
  exact S.complete_given _ _ _ _ _ (lookup_givenCells hmember)

/-- The rows of `save` and of `insert_raw` are the same when the stamps are. -/
theorem sameGiven_rows : List.Forall₂ (SameGiven M) (savedRows T M S db calls) (givenRows T M S db calls) ↔
    ∀ call ∈ calls, ∀ member ∈ M.saveFields, member.stampedOnSave = true →
      S.stores M.tableName member.columnName (.dateTime call.1) =
        S.stores M.tableName member.columnName (heldValue T call.2 member).toBind.cell := by
  refine made_saved.forall₂_iff (List.forall₂_map_left_iff.mp made_given) fun call row row' hrow hrow' => ?_
  refine forall₂_congr fun member hmember => ?_
  rw [hrow member hmember, hrow' member hmember, Option.some.injEq, Member.savedValue]
  cases member.stampedOnSave with
  | false => simp [heldValue]
  | true => simp [Value.toBind, BindValue.cell]

variable (T S db calls) in
/-- How far the calls of `insert_raw` come. -/
theorem insertRawPath_stores (hpk : M.info.primaryKey? = some pk) : ∃ k ≤ calls.length,
    (insertRawPath T M S db calls).1 =
      Function.update db M.tableName (db M.tableName ++ (givenRows T M S db calls).take k) ∧
    (∀ call ∈ calls.head?, 0 < k ↔ (S.store M.tableName True (givenBinds T M)).takes db call.2) ∧
    (k = calls.length ↔ (S.store M.tableName True (givenBinds T M)).TakesEach db (calls.map (·.2)) ∧
      ∀ row ∈ (givenRows T M S db calls).dropLast, ∃ key, Server.returnedPk pk.columnName [row] = .ok key) ∧
    ((∃ keys, (insertRawPath T M S db calls).2 = .ok keys) ↔
      (S.store M.tableName True (givenBinds T M)).TakesEach db (calls.map (·.2)) ∧
        ∀ row ∈ givenRows T M S db calls, ∃ key, Server.returnedPk pk.columnName [row] = .ok key) := by
  obtain ⟨k, hle, hstate, hhead, hall, hok⟩ := Store.forEach_stores (insertRaw_steps hpk) db (calls.map (·.2))
  simp only [Except.mapError_eq_ok, List.length_map] at hall hok hle
  refine ⟨k, hle, hstate.trans (foldl_withRow _), fun call hcall => hhead call.2 ?_, hall, hok⟩
  rw [List.head?_map, Option.mem_map]
  exact ⟨call, hcall, rfl⟩

variable (G T db calls) in
/-- How far the calls of `save` come. -/
theorem savePath_stores {t : String} (hname : S.unquoted M.tableName = some t) : ∃ k ≤ calls.length,
    (savePath G T M S db calls).1 = Function.update db t
      (db t ++ ((S.store t (M.saveFields ≠ []) (savedBinds T M)).made db calls).take k) ∧
    (∀ call ∈ calls.head?, 0 < k ↔ (S.store t (M.saveFields ≠ []) (savedBinds T M)).takes db call) ∧
    (k = calls.length ↔ (S.store t (M.saveFields ≠ []) (savedBinds T M)).TakesEach db calls ∧
      ∀ row ∈ ((S.store t (M.saveFields ≠ []) (savedBinds T M)).made db calls).dropLast,
        ∃ object, M.fromRow G T row = .ok object) ∧
    ((∃ objects, (savePath G T M S db calls).2 = .ok objects) ↔
      (S.store t (M.saveFields ≠ []) (savedBinds T M)).TakesEach db calls ∧
        ∀ row ∈ (S.store t (M.saveFields ≠ []) (savedBinds T M)).made db calls, ∃ object, M.fromRow G T row = .ok object) := by
  obtain ⟨k, hle, hstate, hhead, hall, hok⟩ := Store.forEach_stores (save_steps hname) db calls
  exact ⟨k, hle, hstate.trans (foldl_withRow _), hhead, hall, hok⟩

theorem savePath_unnamed (hname : S.unquoted M.tableName = none) (hne : calls ≠ []) :
    savePath G T M S db calls = (db, .error Server.syntaxError) := by
  obtain ⟨call, rest, rfl⟩ := List.exists_cons_of_ne_nil hne
  rw [savePath, forEach, save_unnamed hname]

theorem givenRows_length : (givenRows T M S db calls).length = calls.length := by
  rw [givenRows, Store.length_made, List.length_map]

theorem returnedPk_of_key {row : Row Cell} {column : String} {key : Int} (h : row.lookup column = some (.i64 key)) :
    Server.returnedPk column [row] = .ok key := by simp [Server.returnedPk, h]

theorem SameTables.refl (after : Tables Cell) : SameTables M after after :=
  ⟨List.forall₂_same.mpr fun _ _ _ _ => rfl, fun _ _ => rfl⟩

/-- Tables that agree have as many rows. -/
theorem SameTables.length {after after' : Tables Cell} (h : SameTables M after after') (t : String) :
    (after t).length = (after' t).length := by
  by_cases ht : t = M.tableName
  · rw [ht]
    exact h.rows.length_eq
  · rw [h.others t ht]

theorem bulkPath_taken (hpk : M.info.primaryKey? = some pk) (hne : calls ≠ [])
    (h : S.TakesTogether T M db (calls.map (·.2))) : bulkPath T M S db calls =
      (Function.update db M.tableName (db M.tableName ++ givenRows T M S db calls),
        ((givenRows T M S db calls).mapM fun row => Server.returnedPk pk.columnName [row]).mapError Stop.err) :=
  (bulk_run hpk (by simpa using hne)).1 h

theorem bulkPath_refused (hpk : M.info.primaryKey? = some pk) (hne : calls ≠ [])
    (h : ¬ S.TakesTogether T M db (calls.map (·.2))) : ∃ e, bulkPath T M S db calls = (db, .error e) :=
  (bulk_run hpk (by simpa using hne)).2 h

/-- Rows that are taken on each path are stored on each, and the paths succeed when they are read back. -/
theorem RowsTaken.agree (h : RowsTaken T M S db calls) (hpk : M.info.primaryKey? = some pk)
    (hread : RowsRead G T M S db pk calls ∨ LastUnread G T M S db pk calls) (hne : calls ≠ []) :
    PathsAgree G T M S db pk calls := by
  have hobjects : ∀ row ∈ (savedRows T M S db calls).dropLast, ∃ object, M.fromRow G T row = .ok object :=
    hread.elim (fun hread row hrow => hread.objects row (List.dropLast_subset _ hrow)) (·.objects)
  have hkeys : ∀ row ∈ (givenRows T M S db calls).dropLast, ∃ key, Server.returnedPk pk.columnName [row] = .ok key := by
    refine hread.elim (fun hread row hrow => ?_) (·.keys)
    obtain ⟨key, hkey⟩ := hread.keys row (List.dropLast_subset _ hrow)
    exact ⟨key, returnedPk_of_key hkey⟩
  obtain ⟨k, _, hinsert, _, hall, hok⟩ := insertRawPath_stores T S db calls hpk
  obtain ⟨k', _, hsave, _, hall', hok'⟩ := savePath_stores G T db calls h.named
  have hcount : (givenRows T M S db calls).length = calls.length := givenRows_length
  rw [hall.mpr ⟨h.given, hkeys⟩, ← hcount, List.take_length] at hinsert
  have hlength : (savedRows T M S db calls).length = calls.length := Store.length_made
  rw [hall'.mpr ⟨h.saved, hobjects⟩, ← savedRows, ← hlength, List.take_length] at hsave
  have hbulk := bulkPath_taken hpk hne h.together
  have hbulk_ok : (∃ keys, (bulkPath T M S db calls).2 = .ok keys) ↔
      ∀ row ∈ givenRows T M S db calls, ∃ key, Server.returnedPk pk.columnName [row] = .ok key := by
    simp only [hbulk, Except.mapError_eq_ok]
    exact Except.mapM_isOk
  refine ⟨?_, ?_, ?_, ?_, fun keys hkeys => ?_⟩
  · rw [hsave, hinsert]
    refine ⟨?_, fun t ht => by rw [Function.update_of_ne ht, Function.update_of_ne ht]⟩
    rw [Function.update_self, Function.update_self, List.forall₂_append_iff rfl]
    exact ⟨List.forall₂_same.mpr fun _ _ _ _ => rfl, sameGiven_rows.mpr h.stamps⟩
  · rw [hinsert, hbulk]
    exact .refl _
  · rw [hok', hok, and_iff_right h.saved, and_iff_right h.given]
    rcases hread with hread | hlast
    · exact iff_of_true hread.objects fun row hrow => (hread.keys row hrow).imp fun _ => returnedPk_of_key
    · exact iff_of_false hlast.object hlast.key
  · rw [hok, hbulk_ok, and_iff_right h.given]
  · refine ⟨givenRows T M S db calls, by simp [hbulk], made_given, ?_⟩
    rw [hbulk, Except.mapError_eq_ok, Except.mapM_eq_ok] at hkeys
    rcases hread with hread | hlast
    · refine hkeys.of_mem fun row hrow key hkey => ?_
      obtain ⟨key', hkey'⟩ := hread.keys row hrow
      rw [returnedPk_of_key hkey'] at hkey
      rw [hkey', Except.ok.inj hkey]
    · exact absurd (Except.mapM_isOk.mp ⟨keys, Except.mapM_eq_ok.mpr hkeys⟩) hlast.key

/-- Where the first row is refused, no path stores anything. -/
theorem RowsRefused.agree (h : RowsRefused T M S db calls) (hpk : M.info.primaryKey? = some pk) (hne : calls ≠ []) :
    PathsAgree G T M S db pk calls := by
  obtain ⟨call, rest, rfl⟩ := List.exists_cons_of_ne_nil hne
  obtain ⟨e, hinsert⟩ : ∃ e, insertRawPath T M S db (call :: rest) = (db, .error e) := by
    obtain ⟨e, hstep⟩ := (insertRaw_steps hpk).refused (h.given call rfl)
    exact ⟨e, by rw [insertRawPath, List.map_cons, forEach, hstep]⟩
  obtain ⟨e', hsave⟩ : ∃ e, savePath G T M S db (call :: rest) = (db, .error e) := by
    cases hname : S.unquoted M.tableName with
    | none => exact ⟨_, savePath_unnamed hname hne⟩
    | some t =>
      obtain ⟨e, hstep⟩ := (save_steps hname).refused (h.saved t hname call rfl)
      exact ⟨e, by rw [savePath, forEach, hstep]⟩
  obtain ⟨e'', hbulk⟩ := bulkPath_refused hpk hne h.together
  refine ⟨?_, ?_, ?_, ?_, ?_⟩
  · rw [hsave, hinsert]
    exact .refl _
  · rw [hinsert, hbulk]
    exact .refl _
  · simp [hsave, hinsert]
  · simp [hinsert, hbulk]
  · simp [hbulk]

/-- `bulk_create` stores all rows or none. So where the paths agree, each stores all rows, or the first is refused. -/
theorem PathsAgree.rows (h : PathsAgree G T M S db pk calls) (hpk : M.info.primaryKey? = some pk) (hne : calls ≠ [])
    (htogether : S.TakesTogether T M db (calls.map (·.2))) :
    RowsTaken T M S db calls ∧ (RowsRead G T M S db pk calls ∨ LastUnread G T M S db pk calls) := by
  have hlength : (savedRows T M S db calls).length = calls.length := Store.length_made
  have hpos : 0 < calls.length := List.length_pos_of_ne_nil hne
  have hbulk := bulkPath_taken hpk hne htogether
  obtain ⟨k, hle, hinsert, _, hall, hok⟩ := insertRawPath_stores T S db calls hpk
  have hk : k = calls.length := by
    have heq := h.bulk.length M.tableName
    rw [hinsert, hbulk, Function.update_self] at heq
    simp only [Function.update_self, List.length_append, List.length_take, givenRows_length] at heq
    omega
  obtain ⟨hgiven, hkeys⟩ := hall.mp hk
  have hcount : (givenRows T M S db calls).length = calls.length := givenRows_length
  rw [hk, ← hcount, List.take_length] at hinsert
  have hsame := h.saved.rows
  have heq := h.saved.length M.tableName
  rw [hinsert, Function.update_self, List.length_append, givenRows_length] at heq
  cases hname : S.unquoted M.tableName with
  | none =>
    rw [savePath_unnamed hname hne] at heq
    simp only at heq
    omega
  | some t =>
    obtain ⟨k', hle', hsave, _, hall', hok'⟩ := savePath_stores G T db calls hname
    by_cases ht : t = M.tableName
    · subst ht
      have hk' : k' = calls.length := by
        rw [hsave, Function.update_self, List.length_append, List.length_take, ← savedRows, hlength] at heq
        omega
      obtain ⟨hsaved, hobjects⟩ := hall'.mp hk'
      rw [hk', ← savedRows, ← hlength, List.take_length] at hsave
      rw [hsave, hinsert, Function.update_self, Function.update_self, List.forall₂_append_iff rfl] at hsame
      refine ⟨⟨hname, hsaved, hgiven, htogether, sameGiven_rows.mp hsame.2⟩, ?_⟩
      by_cases hread : ∀ row ∈ givenRows T M S db calls, ∃ key, Server.returnedPk pk.columnName [row] = .ok key
      · have hread' : ∀ row ∈ savedRows T M S db calls, ∃ object, M.fromRow G T row = .ok object :=
          (hok'.mp (h.saved_ok.mpr (hok.mpr ⟨hgiven, hread⟩))).2
        refine .inl ⟨hread', ?_⟩
        obtain ⟨keys, hbulk_ok⟩ := h.bulk_ok.mp (hok.mpr ⟨hgiven, hread⟩)
        obtain ⟨rows, hrows, _, hpks⟩ := h.keys keys hbulk_ok
        rw [hbulk] at hrows
        simp only [Function.update_self, List.append_cancel_left_eq] at hrows
        rw [hrows]
        intro row hrow
        obtain ⟨key, _, hkey⟩ := hpks.exists_of_mem_left hrow
        exact ⟨key, hkey⟩
      · refine .inr ⟨hobjects, fun hread' => hread ?_, hkeys, hread⟩
        exact (hok.mp (h.saved_ok.mp (hok'.mpr ⟨hsaved, hread'⟩))).2
    · rw [hsave, Function.update_of_ne (Ne.symm ht)] at heq
      omega

theorem PathsAgree.refused (h : PathsAgree G T M S db pk calls) (hpk : M.info.primaryKey? = some pk) (hne : calls ≠ [])
    (htogether : ¬ S.TakesTogether T M db (calls.map (·.2))) : RowsRefused T M S db calls := by
  have hpos : 0 < calls.length := List.length_pos_of_ne_nil hne
  obtain ⟨e, hbulk⟩ := bulkPath_refused hpk hne htogether
  obtain ⟨k, hle, hinsert, hhead, _, _⟩ := insertRawPath_stores T S db calls hpk
  have hk : k = 0 := by
    have heq := h.bulk.length M.tableName
    rw [hinsert, hbulk, Function.update_self] at heq
    simp only [List.length_append, List.length_take, givenRows_length] at heq
    omega
  subst hk
  rw [List.take_zero, List.append_nil, Function.update_eq_self] at hinsert
  refine ⟨fun t hname call hcall htakes => ?_, fun call hcall htakes => ?_, htogether⟩
  · obtain ⟨k', hle', hsave, hhead', _, _⟩ := savePath_stores G T db calls hname
    have hk' := (hhead' call hcall).mpr htakes
    have heq := h.saved.length t
    rw [hinsert, hsave, Function.update_self, List.length_append, List.length_take, Store.length_made] at heq
    omega
  · exact absurd ((hhead call hcall).mpr htakes) (Nat.lt_irrefl 0)

/-! ### Servers that check the state -/

/-- A server that refuses by the state that a statement would leave. It takes a table without its last rows when it takes
    all of them: no row refers to a later one. -/
structure InsertServer.Hereditary (S : InsertServer) (valid : Tables Cell → Prop) : Prop where
  refuses : ∀ before after, S.refuses before after = none ↔ valid after
  fewer : ∀ db t rows rows', valid (Function.update db t (rows ++ rows')) → valid (Function.update db t rows)

theorem takesEach_map {α β : Type} {t : String} {valid valid' : Prop} {given : β → List (String × BindValue)} (f : α → β)
    (hvalid : valid ↔ valid') {xs : List α} :
    (S.store t valid fun x => given (f x)).TakesEach db xs ↔ (S.store t valid' given).TakesEach db (xs.map f) := by
  induction xs generalizing db with
  | nil => exact Iff.rfl
  | cons x xs ih => exact and_congr (and_congr hvalid Iff.rfl) ih

/-- Such a server takes rows one after the other when it takes them together. -/
theorem takesEach_iff {valid : Tables Cell → Prop} (hered : S.Hereditary valid) {α : Type} {t : String}
    {given : α → List (String × BindValue)} {xs : List α} (hne : xs ≠ []) :
    (S.store t True given).TakesEach db xs ↔ (∀ x ∈ xs, ∀ p ∈ given x, S.binds t p.1 p.2 = true) ∧
      S.refuses db (Function.update db t (db t ++ (S.store t True given).made db xs)) = none := by
  rw [hered.refuses]
  induction xs generalizing db with
  | nil => exact absurd rfl hne
  | cons x xs ih =>
    let row := S.complete db t (givenCells (given x))
    have htakes : (S.store t True given).takes db x ↔
        (∀ p ∈ given x, S.binds t p.1 p.2 = true) ∧ valid (Function.update db t (db t ++ [row])) := by
      rw [← hered.refuses db]
      exact Iff.of_eq (true_and _)
    rw [Store.TakesEach, htakes, List.forall_mem_cons, Store.made]
    cases xs with
    | nil => simp [Store.TakesEach, Store.made, InsertServer.store, row]
    | cons y ys =>
      have hnext : (S.store t True given).next db x = Function.update db t (db t ++ [row]) := rfl
      rw [ih (by simp), hnext, Function.update_self, Function.update_idem, List.append_assoc]
      constructor
      · rintro ⟨⟨hbinds, -⟩, hrest, hvalid⟩
        exact ⟨⟨hbinds, hrest⟩, hvalid⟩
      · rintro ⟨⟨hbinds, hrest⟩, hvalid⟩
        exact ⟨⟨hbinds, hered.fewer db t (db t ++ [row]) _ (by rw [List.append_assoc]; exact hvalid)⟩, hrest, hvalid⟩

/-- For a model with nothing to stamp the rows are taken on each path when they are taken together. -/
theorem rowsTaken_iff {valid : Tables Cell → Prop} (hered : S.Hereditary valid) (hname : S.unquoted M.tableName = some M.tableName)
    (hplain : ∀ member ∈ M.saveFields, member.stampedOnSave = false ∧ member.knownSpelling = true) (hne : calls ≠ []) :
    RowsTaken T M S db calls ↔ S.TakesTogether T M db (calls.map (·.2)) := by
  refine ⟨fun h => h.together, fun h => ?_⟩
  have hgiven := (takesEach_iff hered (by simpa using hne)).mpr ⟨h.binds, h.accepted⟩
  have hsaved : savedBinds T M = fun call : DateTime × Object ρ => givenBinds T M call.2 :=
    funext fun call => savedBinds_eq hplain call.1
  refine ⟨hname, ?_, hgiven, h, fun call _ member hmember hstamp => ?_⟩
  · rw [hsaved]
    exact (takesEach_map (fun call : DateTime × Object ρ => call.2) (iff_true_intro h.columns)).mpr hgiven
  · rw [(hplain member hmember).1] at hstamp
    cases hstamp

/-- The three insert paths agree when the server takes the rows on each path and reads them back with their keys, or
    refuses the first row and the rows together, or fails at reading back the last row alone. -/
theorem insert_paths_agree_iff (G : TryGet) (T : TextTypes ρ) (M : DerivedModel) (S : InsertServer) (db : Tables Cell)
    {pk : FieldMeta} (hpk : M.info.primaryKey? = some pk) {calls : List (DateTime × Object ρ)} (hne : calls ≠ []) :
    PathsAgree G T M S db pk calls ↔
      RowsTaken T M S db calls ∧ (RowsRead G T M S db pk calls ∨ LastUnread G T M S db pk calls) ∨
        RowsRefused T M S db calls := by
  constructor
  · intro h
    by_cases htogether : S.TakesTogether T M db (calls.map (·.2))
    · exact .inl (h.rows hpk hne htogether)
    · exact .inr (h.refused hpk hne htogether)
  · rintro (⟨htaken, hread⟩ | hrefused)
    · exact htaken.agree hpk hread hne
    · exact hrefused.agree hpk hne

end Agreement

/-! ### A counter and its notes -/

/-- A server that numbers the rows of a table and takes every row. -/
def numberingServer : Server where
  __ := plainServer
  complete db t given := given ++ [("id", .i64 ((db t).length + 1))]
  refuses _ _ := none

theorem numberingServer_given (db : Tables Cell) (t : String) (given : Row Cell) (c : String) (v : Cell)
    (h : given.lookup c = some v) : (numberingServer.complete db t given).lookup c = some v := by
  show (given ++ [("id", Cell.i64 ((db t).length + 1))]).lookup c = some v
  rw [List.lookup_append, h, Option.some_or]

def numberingInserts : InsertServer where
  __ := numberingServer
  unquoted := some
  binds _ _ _ := true
  stores _ _ c := c
  complete_given := numberingServer_given

theorem numberingInserts_hereditary : numberingInserts.Hereditary fun _ => True :=
  ⟨fun _ _ => iff_of_true rfl trivial, fun _ _ _ _ _ => trivial⟩

def ticketMembers : List Member := [.field { ident := "id", columnName := "id", type := .i64, primaryKey := true, auto := true }]

theorem ticketMembers_idents : (ticketMembers.map Member.ident).Nodup := by decide

theorem ticketMembers_columns : (ticketMembers.map Member.columnName).Nodup := by decide

/-- A ticket has its number alone. -/
def ticketModel : DerivedModel where
  structName := "Ticket"
  appLabel := "desk"
  tableName := "desk_ticket"
  members := ticketMembers
  idents_nodup := ticketMembers_idents
  columns_nodup := ticketMembers_columns
  one_pk := ⟨_, rfl⟩

/-- `insert_raw` stores a ticket, and `bulk_create` does not. -/
theorem tickets_disagree : ¬ @PathsAgree String plainGet keptTexts ticketModel numberingInserts (fun _ => []) Views.noteKey
    [(⟨0⟩, [("id", .int 0)])] := by
  intro agree
  have hinsert : (insertRawPath keptTexts ticketModel numberingInserts (fun _ => []) [(⟨0⟩, [("id", .int 0)])]).2 = .ok [1] := rfl
  have hbulk : (bulkPath keptTexts ticketModel numberingInserts (fun _ => []) [(⟨0⟩, [("id", .int 0)])]).2 =
      .error (.err Server.syntaxError) := rfl
  obtain ⟨keys, hkeys⟩ := agree.bulk_ok.mp ⟨_, hinsert⟩
  rw [hbulk] at hkeys
  cases hkeys

def noteOf (title : String) : DateTime × Object String :=
  (⟨0⟩, [("id", .int 0), ("title", .text title), ("seen_at", .dateTime ⟨5⟩)])

/-- Two notes are stored on each path. -/
theorem notes_agree : @PathsAgree String plainGet keptTexts Views.noteModel numberingInserts (fun _ => []) Views.noteKey
    [noteOf "a", noteOf "b"] := by
  refine (insert_paths_agree_iff plainGet keptTexts Views.noteModel numberingInserts (fun _ => []) rfl (by simp)).mpr
    (.inl ⟨?_, .inl ⟨?_, ?_⟩⟩)
  · refine (rowsTaken_iff numberingInserts_hereditary rfl (by decide) (by simp)).mpr ⟨?_, fun _ _ _ _ => rfl, rfl⟩
    exact List.cons_ne_nil _ _
  · exact List.forall_mem_cons.mpr ⟨⟨_, rfl⟩, List.forall_mem_singleton.mpr ⟨_, rfl⟩⟩
  · exact List.forall_mem_cons.mpr ⟨⟨_, rfl⟩, List.forall_mem_singleton.mpr ⟨_, rfl⟩⟩

end Djangors.Orm
