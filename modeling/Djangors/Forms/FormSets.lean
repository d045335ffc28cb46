import Djangors.Lib.Finmap
import Djangors.Lib.Text

/-! # Form sets

Several forms that are submitted together (`djangors-forms/src/formsets.rs`). -/

namespace Djangors.Forms

/-- A `HashMap` from names to values. -/
abbrev FieldMap := Finmap fun _ : List Char => List Char

/-- The map of a submission, in the order in which it is iterated. -/
structure Submission where
  entries : List (List Char × List Char)
  keys_nodup : (entries.map (·.1)).Nodup

def Submission.get (data : Submission) (key : List Char) : Option (List Char) := data.entries.lookup key

/-- Counts are of `usize`. -/
structure FormSet where
  namePrefix : List Char := "form".toList
  totalForms : Nat := 0
  initialForms : Nat := 0
  maxNum : Nat := 1000
  canDelete : Bool := false
  counts_lt : totalForms < 2 ^ 64 ∧ initialForms < 2 ^ 64 ∧ maxNum < 2 ^ 64

structure FormSetError (ε : Type) where
  managementErrors : List String
  formErrors : List (Option ε)

structure FormSetFormResult (γ : Type) where
  cleaned : γ
  delete : Bool

namespace FormSet
variable (set : FormSet)

/-- What the names of the fields of a form start with. -/
def formPrefixOf (index : Nat) : List Char := set.namePrefix ++ '-' :: (toString index).toList ++ ['-']

/-- `add_prefix` -/
def addPrefix (index : Nat) (fieldName : List Char) : List Char := set.formPrefixOf index ++ fieldName

def totalKey : List Char := set.namePrefix ++ "-TOTAL_FORMS".toList

def initialKey : List Char := set.namePrefix ++ "-INITIAL_FORMS".toList

/-- The hidden inputs of `render_management_form`, with their values. -/
def managementForm : List (List Char × List Char) :=
  [(set.totalKey, (toString set.totalForms).toList), (set.initialKey, (toString set.initialForms).toList)]

/-- `k.strip_prefix` -/
def stripPrefixOf (start key : List Char) : Option (List Char) :=
  if start.isPrefixOf key then some (key.drop start.length) else none

/-- A round of the loop over a submission, for the form with an index. -/
def insertEntry (index : Nat) (map : FieldMap) (entry : List Char × List Char) : FieldMap :=
  match stripPrefixOf (set.formPrefixOf index) entry.1 with
  | some stripped => map.insert stripped entry.2
  | none => map

def subMap (index : Nat) (entries : List (List Char × List Char)) : FieldMap := entries.foldl (set.insertEntry index) ∅

def deleteChecked (map : FieldMap) : Bool :=
  set.canDelete && ((map.lookup "DELETE".toList).any fun s => s = "on".toList ∨ s = "true".toList ∨ s = "1".toList)

/-- The number of forms, with the errors of the management form. -/
def managementOf (data : Submission) : Nat × List String :=
  let (totalForms, errors) : Nat × List String :=
    match data.get set.totalKey with
    | some s =>
      match Text.parseUnsigned (2 ^ 64) s with
      | some n => (n, [])
      | none => (0, ["TOTAL_FORMS must be a valid non-negative integer."])
    | none => (0, ["ManagementForm missing TOTAL_FORMS field."])
  if set.maxNum < totalForms then
    (totalForms, errors ++ ["TOTAL_FORMS (" ++ toString totalForms ++ ") exceeds maximum allowed (" ++ toString set.maxNum ++ ")"])
  else (totalForms, errors)

/-- What the loop over the forms has gathered, with the maps that `clean_fn` has been called with. -/
structure Cleaning (γ ε : Type) where
  calls : List FieldMap := []
  cleanedForms : List (FormSetFormResult γ) := []
  formErrors : List (Option ε) := []
  hasErrors : Bool := false

/-- A round of the loop. -/
def cleanForm {γ ε : Type} (data : Submission) (cleanFn : FieldMap → Except ε γ) (cleaning : Cleaning γ ε) (i : Nat) :
    Cleaning γ ε :=
  let map := set.subMap i data.entries
  let calls := cleaning.calls ++ [map]
  match cleanFn map with
  | .ok cleaned =>
    { cleaning with
      calls
      cleanedForms := cleaning.cleanedForms ++ [⟨cleaned, set.deleteChecked map⟩]
      formErrors := cleaning.formErrors ++ [none] }
  | .error errs => { cleaning with calls, hasErrors := true, formErrors := cleaning.formErrors ++ [some errs] }

/-- `clean_with`, with the maps that `clean_fn` is called with. -/
def cleanWith {γ ε : Type} (data : Submission) (cleanFn : FieldMap → Except ε γ) :
    List FieldMap × Except (FormSetError ε) (List (FormSetFormResult γ)) :=
  let (totalForms, managementErrors) := set.managementOf data
  if managementErrors ≠ [] then ([], .error ⟨managementErrors, []⟩)
  else
    let cleaning := (List.range totalForms).foldl (set.cleanForm data cleanFn) {}
    (cleaning.calls, if cleaning.hasErrors then .error ⟨[], cleaning.formErrors⟩ else .ok cleaning.cleanedForms)

end FormSet

end Djangors.Forms
