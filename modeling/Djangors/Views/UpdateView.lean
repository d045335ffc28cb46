import Djangors.Forms.ModelForm
import Djangors.Lib.Program
import Djangors.Rest.Cursor

/-! # The update view

`UpdateView::update` (`djangors-views/src/lib.rs`), and requests to it that run side by side with other statements. -/

namespace Djangors.Views
open Db Forms Http Orm Sql
open Rest (internal orElse ormMessage)

variable {ρ : Type}

/-! ### The view -/

/-- What the view reads of a request: the method, the parameter `pk` of the path, and the form. -/
structure UpdateRequest where
  method : Method
  pk : Option (List Char)
  form : Except DjangorsError (String → Option String)

/-- The two statements of the view: the row with a key, and the values it stores in the row with a key. -/
inductive ViewCall where
  | get (pkField : FieldMeta) (pk : Int)
  | update (pkField : FieldMeta) (pk : Int) (values : List (String × Value))

abbrev ViewCall.Answer (ρ : Type) : ViewCall → Type
  | get _ _ => Except OrmError (Object ρ)
  | update _ _ _ => Except OrmError Nat

/-- What the view answers. The pages are rendered from the instance, the form and its errors. -/
inductive Reply (ρ : Type) where
  | form (object : Object ρ)
  | invalid (object : Object ρ) (data : String → Option String) (errors : FormErrors)
  | redirect

inductive Failure where
  | error (e : DjangorsError)
  | panic

abbrev Handler (ρ α : Type) := Fallible (ViewCall.Answer ρ) Failure α

def ask (call : ViewCall) : Handler ρ (call.Answer ρ) := .call call fun answer => .done (.ok answer)

def orFail {α : Type} (result : Except DjangorsError α) : Handler ρ α := Fallible.lift (result.mapError .error)

def fail {α : Type} (e : DjangorsError) : Handler ρ α := Fallible.lift (.error (.error e))

/-- `params.get_as("pk")` -/
def pathPk (pk : Option (List Char)) : Except DjangorsError Int := do
  let val ← orElse pk (.badRequest "missing path parameter: pk".toList)
  orElse (Text.parseSigned (2 ^ 63) val) (.badRequest ("invalid value for path parameter 'pk': ".toList ++ val))

section View
variable (T : TextTypes ρ) (M : DerivedModel)

def primaryKey : Except DjangorsError FieldMeta :=
  orElse M.info.primaryKey? (.internal "Primary key field not found".toList)

/-- `pk_value` -/
def pkValue (object : Object ρ) : Except DjangorsError Int := do
  let pkField ← primaryKey M
  match (M.fieldValues T object).lookup pkField.name with
  | some (.i64 pk) => return pk
  | _ => .error (.internal "Primary key is not an integer".toList)

/-- `find` -/
def find (req : UpdateRequest) : Handler ρ (Object ρ) := do
  let pk ← orFail (pathPk req.pk)
  let pkField ← orFail (primaryKey M)
  match ← ask (.get pkField pk) with
  | .ok object => return object
  | .error (.notFound _) => fail .notFound
  | .error e => fail (.internal (ormMessage e).toList)

/-- What follows the instance and a valid form: every field but the primary key is stored. -/
def store (object : Object ρ) (cleaned : FormCleaned) : Handler ρ (Reply ρ) := do
  let object : Object ρ ← Fallible.lift ((M.applyCleanedForm cleaned object).mapError fun
    | .err e => .error (.internal (ormMessage e).toList)
    | .panic => .panic)
  let pk ← orFail (pkValue T M object)
  let pkField ← orFail (primaryKey M)
  let sets := (M.fieldValues T object).filter fun (name, _) => name ≠ pkField.name
  match ← ask (.update pkField pk sets) with
  | .ok _ => return .redirect
  | .error e => fail (.internal (ormMessage e).toList)

/-- `UpdateView::update` -/
def update (req : UpdateRequest) : Handler ρ (Reply ρ) := do
  let object ← find M req
  if req.method = .get then return .form object
  else
    let data ← orFail req.form
    match M.validateForm data with
    | .ok cleaned => store T M object cleaned
    | .error errors => return .invalid object data errors

end View

/-! ### Statements -/

section Statements
variable [Fmt] (S : Server) (db : Tables Cell) (M : DerivedModel)

/-- The rows of the model with a key. -/
def withPk (pkField : FieldMeta) (pk : Int) : Except OrmError (QuerySet M.info) :=
  ({} : QuerySet M.info).filter (.and [⟨pkField.name, .i64 pk⟩])

def runGet {ι : Type} (fromRow : Row Cell → Except OrmError ι) (pkField : FieldMeta) (pk : Int) : Except OrmError ι := do
  let qs ← withPk M pkField pk
  qs.get S db false fromRow

/-- The statement that stores values. -/
def updateOf (pkField : FieldMeta) (pk : Int) (values : List (String × Value)) : Except OrmError Update := do
  let qs ← withPk M pkField pk
  qs.update S.dialect (values.map fun (name, value) => (name, .literal value))

end Statements

/-! ### Side by side -/

/-- A write to the row, by the view or by another statement, and what it has stored. -/
structure Write where
  byView : Bool
  cells : List (String × Cell)

/-- What the last of some writes to a column has stored there. The last write comes first. -/
def lastSet (column : String) (history : List Write) : Option Cell := history.findSome? fun write => write.cells.lookup column

/-- The tables, what each request that has come in still has to do, the row that it has loaded, and the writes to the row
    with a key that have been committed, the last one first. -/
structure Edits (ι ρ : Type) where
  tables : Tables Cell
  requests : ι → Option (Handler ρ (Reply ρ))
  loaded : ι → Option (Row Cell)
  history : List Write

namespace Edits

inductive Event (ι : Type) where
  | arrive (i : ι) (req : UpdateRequest)
  | step (i : ι)
  /-- `UPDATE` of some columns in the row. -/
  | other (cells : List (String × Cell))
  /-- `DELETE` of the row. -/
  | delete

def start {ι : Type} (tables : Tables Cell) : Edits ι ρ := ⟨tables, fun _ => none, fun _ => none, []⟩

/-- Whether a row has a key. -/
def hasKey (S : Server) (pkField : FieldMeta) (key : Int) (r : Row Cell) : Bool :=
  (r.lookup pkField.columnName).bind (S.interp.compare .eq · (.i64 key)) == some true

section Steps
variable {ι : Type} [DecidableEq ι] [Fmt] (S : Server) (G : TryGet) (T : TextTypes ρ) (M : DerivedModel)
  (pkField : FieldMeta) (key : Int)

/-- A request runs its next statement. -/
def next (s : Edits ι ρ) (i : ι) : (call : ViewCall) → (call.Answer ρ → Handler ρ (Reply ρ)) → Edits ι ρ
  | .get field pk, rest =>
    { s with
      requests := Function.update s.requests i (some (rest (runGet S s.tables M (M.fromRow G T) field pk)))
      loaded := Function.update s.loaded i (runGet S s.tables M .ok field pk).toOption }
  | .update field pk values, rest =>
    match updateOf S M field pk values with
    | .error e => { s with requests := Function.update s.requests i (some (rest (.error e))) }
    | .ok u =>
      match S.runUpdate s.tables u with
      | .error e => { s with requests := Function.update s.requests i (some (rest (.error e))) }
      | .ok (tables, n) =>
        let written := (s.tables M.tableName).any fun r => hasKey S pkField key r && S.selects s.tables M.tableName u.bound r
        let write : Write := ⟨true, values.map fun (name, value) =>
          ((fieldToCol M.info name).name, (value.toBindAs (nullBindKindFor name M.info)).cell)⟩
        { s with
          tables
          requests := Function.update s.requests i (some (rest (.ok n)))
          history := if written then write :: s.history else s.history }

/-- One step. A statement that the server refuses changes nothing. -/
def advance (s : Edits ι ρ) : Event ι → Option (Edits ι ρ)
  | .arrive i req =>
    match s.requests i with
    | none => some { s with requests := Function.update s.requests i (some (update T M req)) }
    | some _ => none
  | .step i =>
    match s.requests i with
    | some (.call call rest) => some (s.next S G T M pkField key i call rest)
    | _ => none
  | .other cells =>
    if (cells.map (·.1)).Nodup ∧ pkField.columnName ∉ cells.map (·.1) then
      let rows := (s.tables M.tableName).map fun r =>
        if hasKey S pkField key r then cells.foldl (fun r (column, v) => r.set column v) r else r
      match S.commit s.tables M.tableName rows with
      | .ok tables => some { s with tables, history := ⟨false, cells⟩ :: s.history }
      | .error _ => some s
    else none
  | .delete =>
    match S.commit s.tables M.tableName ((s.tables M.tableName).filter fun r => !hasKey S pkField key r) with
    | .ok tables => some { s with tables }
    | .error _ => some s

/-- The states that events reach from a state, where each event meets a condition. -/
inductive Reaches (meets : Edits ι ρ → Event ι → Prop) (s₀ : Edits ι ρ) : Edits ι ρ → Prop
  | refl : Reaches meets s₀ s₀
  | event {s s' : Edits ι ρ} {e : Event ι} (earlier : Reaches meets s₀ s) (ok : meets s e)
      (moved : s.advance S G T M pkField key e = some s') : Reaches meets s₀ s'

/-- Runs events one after the other. -/
def run : List (Event ι) → Edits ι ρ → Option (Edits ι ρ)
  | [], s => some s
  | e :: rest, s => (s.advance S G T M pkField key e).bind (run rest)

/-- A value of a member is stored as it has been read. -/
def WritesBack (member : Member) (c : Cell) : Prop :=
  ∀ held, member.fromColumn G T c = .ok held →
    ((held.value T member.type).toBindAs (nullBindKindFor member.ident M.info)).cell = c

/-- An `UPDATE` of the view finds in the row what the request has loaded for a member, and stores it again as it is. -/
def Undisturbed (member : Member) (s : Edits ι ρ) : Event ι → Prop
  | .step i => ∀ field pk values rest, s.requests i = some (.call (.update field pk values) rest) →
    ∀ r ∈ s.tables M.tableName, hasKey S pkField key r = true → ∀ read, s.loaded i = some read →
      r.lookup member.columnName = read.lookup member.columnName ∧
      ∀ c, read.lookup member.columnName = some c → WritesBack G T M member c
  | _ => True

end Steps
end Edits

end Djangors.Views
