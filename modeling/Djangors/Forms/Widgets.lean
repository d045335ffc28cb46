import Djangors.Lib.Lines
import Mathlib.Data.Char
import Mathlib.Data.List.Lex

/-! # Widgets and rendered forms

The controls of `djangors-forms/src/widgets.rs` and the layouts of `djangors-forms/src/renderers.rs`. -/

namespace Djangors.Forms

/-- What `html_escape` writes for a character. -/
def htmlEscapeChar (c : Char) : List Char :=
  if c = '<' then "&lt;".toList
  else if c = '>' then "&gt;".toList
  else if c = '&' then "&amp;".toList
  else if c = '"' then "&quot;".toList
  else if c = '\'' then "&#x27;".toList
  else if c = '/' then "&#x2F;".toList
  else [c]

/-- `html_escape` -/
def htmlEscape (input : List Char) : List Char := input.flatMap htmlEscapeChar

/-! ### Attributes -/

/-- `BTreeMap::insert` -/
def insertEntry (key value : List Char) : List (List Char × List Char) → List (List Char × List Char)
  | [] => [(key, value)]
  | (k, v) :: map =>
    if key < k then (key, value) :: (k, v) :: map
    else if key = k then (key, value) :: map
    else (k, v) :: insertEntry key value map

theorem mem_keys_insertEntry {key value k : List Char} {map : List (List Char × List Char)}
    (h : k ∈ (insertEntry key value map).map (·.1)) : k = key ∨ k ∈ map.map (·.1) := by
  induction map with
  | nil => exact .inl (List.mem_singleton.mp h)
  | cons entry map ih =>
    rw [insertEntry] at h
    split at h
    · simpa using h
    · split at h
      · rcases List.mem_cons.mp h with h | h
        · exact .inl h
        · exact .inr (List.mem_cons_of_mem _ h)
      · rcases List.mem_cons.mp h with h | h
        · exact .inr (h ▸ List.mem_cons_self ..)
        · exact (ih h).imp_right (List.mem_cons_of_mem _)

theorem sorted_insertEntry (key value : List Char) {map : List (List Char × List Char)}
    (h : (map.map (·.1)).Pairwise (· < ·)) : ((insertEntry key value map).map (·.1)).Pairwise (· < ·) := by
  induction map with
  | nil => exact List.pairwise_singleton ..
  | cons entry map ih =>
    obtain ⟨hentry, hmap⟩ := List.pairwise_cons.mp h
    rw [insertEntry]
    split
    · rename_i hlt
      exact List.pairwise_cons.mpr ⟨List.forall_mem_cons.mpr ⟨hlt, fun k hk => hlt.trans (hentry k hk)⟩, h⟩
    · rename_i hge
      split
      · rename_i heq
        exact List.pairwise_cons.mpr ⟨heq ▸ hentry, hmap⟩
      · rename_i hne
        refine List.pairwise_cons.mpr ⟨fun k hk => ?_, ih hmap⟩
        rcases mem_keys_insertEntry hk with rfl | hk
        · exact lt_of_le_of_ne (not_lt.mp hge) (Ne.symm hne)
        · exact hentry k hk

/-- A map of attributes, in the order of their names. -/
structure WidgetAttrs where
  map : List (List Char × List Char)
  sorted : (map.map (·.1)).Pairwise (· < ·)

namespace WidgetAttrs

def new : WidgetAttrs := ⟨[], .nil⟩

def set (attrs : WidgetAttrs) (key value : List Char) : WidgetAttrs :=
  ⟨insertEntry key value attrs.map, sorted_insertEntry key value attrs.sorted⟩

def get (attrs : WidgetAttrs) (key : List Char) : Option (List Char) := attrs.map.lookup key

/-- `from_iter` -/
def fromIter (entries : List (List Char × List Char)) : WidgetAttrs :=
  entries.foldl (fun attrs entry => attrs.set entry.1 entry.2) new

end WidgetAttrs

/-- The identifier of a control that has none of its own. -/
def defaultId (name : List Char) : List Char := "id_".toList ++ name

/-- `render_attrs` -/
def renderAttrs (name : List Char) (attrs : WidgetAttrs) : List Char :=
  (if (attrs.get "id".toList).isNone ∧ name ≠ [] then " id=\"".toList ++ htmlEscape (defaultId name) ++ ['"'] else []) ++
    attrs.map.flatMap fun entry => ' ' :: htmlEscape entry.1 ++ "=\"".toList ++ htmlEscape entry.2 ++ ['"']

/-! ### Controls -/

/-- The controls of the crate. -/
inductive Widget where
  | textInput
  | textarea
  | numberInput
  | checkboxInput
  | select (choices : List (List Char × List Char))
  | radioSelect (choices : List (List Char × List Char))
  | dateInput
  | emailInput
  | passwordInput (renderValue : Bool)
  | hiddenInput

section Controls
variable (name : List Char) (value : Option (List Char)) (attrs : WidgetAttrs)

def valueAttr : Option (List Char) → List Char
  | some val => " value=\"".toList ++ htmlEscape val ++ ['"']
  | none => []

/-- An `input` of a type that shows its value. -/
def renderInput (type : String) : List Char :=
  "<input type=\"".toList ++ type.toList ++ "\" name=\"".toList ++ htmlEscape name ++ ['"'] ++ valueAttr value ++
    renderAttrs name attrs ++ ['>']

def TextInput.render : List Char := renderInput name value attrs "text"

def NumberInput.render : List Char := renderInput name value attrs "number"

def DateInput.render : List Char := renderInput name value attrs "date"

def EmailInput.render : List Char := renderInput name value attrs "email"

def HiddenInput.render : List Char := renderInput name value attrs "hidden"

/-- A password is shown only when it has been asked for. -/
def PasswordInput.render (renderValue : Bool) : List Char :=
  renderInput name (if renderValue then value else none) attrs "password"

def Textarea.render : List Char :=
  "<textarea name=\"".toList ++ htmlEscape name ++ ['"'] ++ renderAttrs name attrs ++ ['>'] ++
    (value.map htmlEscape).getD [] ++ "</textarea>".toList

/-- The values for which a box is checked. -/
def isChecked : Bool := ["true", "on", "1", "checked"].any fun text => value.map Text.trim == some text.toList

def CheckboxInput.render : List Char :=
  "<input type=\"checkbox\" name=\"".toList ++ htmlEscape name ++ ['"'] ++
    (if isChecked value then " checked".toList else []) ++ renderAttrs name attrs ++ ['>']

def renderOption (choice : List Char × List Char) : List Char :=
  "<option value=\"".toList ++ htmlEscape choice.1 ++ ['"'] ++ (if value = some choice.1 then " selected".toList else []) ++
    ['>'] ++ htmlEscape choice.2 ++ "</option>".toList

def Select.render (choices : List (List Char × List Char)) : List Char :=
  "<select name=\"".toList ++ htmlEscape name ++ ['"'] ++ renderAttrs name attrs ++ ['>'] ++
    choices.flatMap (renderOption value) ++ "</select>".toList

/-- `base_id` -/
def baseId : List Char := (attrs.get "id".toList).getD (defaultId name)

def optionId (i : Nat) : List Char := baseId name attrs ++ '_' :: (toString i).toList

def renderRadio (choice : (List Char × List Char) × Nat) : List Char :=
  "<div><label for=\"".toList ++ htmlEscape (optionId name attrs choice.2) ++ "\"><input type=\"radio\" name=\"".toList ++
    htmlEscape name ++ "\" value=\"".toList ++ htmlEscape choice.1.1 ++ "\" id=\"".toList ++
    htmlEscape (optionId name attrs choice.2) ++ ['"'] ++ (if value = some choice.1.1 then " checked".toList else []) ++
    "> ".toList ++ htmlEscape choice.1.2 ++ "</label></div>".toList

def RadioSelect.render (choices : List (List Char × List Char)) : List Char :=
  "<div id=\"".toList ++ htmlEscape (baseId name attrs) ++ "\">".toList ++
    choices.zipIdx.flatMap (renderRadio name value attrs) ++ "</div>".toList

end Controls

def Widget.render (name : List Char) (value : Option (List Char)) (attrs : WidgetAttrs) : Widget → List Char
  | .textInput => TextInput.render name value attrs
  | .textarea => Textarea.render name value attrs
  | .numberInput => NumberInput.render name value attrs
  | .checkboxInput => CheckboxInput.render name value attrs
  | .select choices => Select.render name value attrs choices
  | .radioSelect choices => RadioSelect.render name value attrs choices
  | .dateInput => DateInput.render name value attrs
  | .emailInput => EmailInput.render name value attrs
  | .passwordInput renderValue => PasswordInput.render name value attrs renderValue
  | .hiddenInput => HiddenInput.render name value attrs

/-! ### Fields -/

structure BoundField where
  name : List Char
  widget : Widget
  value : Option (List Char) := none
  label : Option (List Char) := none
  helpText : Option (List Char) := none
  errors : List (List Char) := []
  attrs : WidgetAttrs := .new

namespace BoundField
variable (upper : Char → List Char) (field : BoundField)

def idForLabel : List Char := baseId field.name field.attrs

/-- The label of a field, or its name with a capital letter. -/
def labelText : List Char :=
  match field.label with
  | some label => label
  | none =>
    match field.name.map fun c => if c = '_' then ' ' else c with
    | [] => []
    | c :: rest => upper c ++ rest

def labelTag : List Char :=
  "<label for=\"".toList ++ htmlEscape field.idForLabel ++ "\">".toList ++ htmlEscape (field.labelText upper) ++
    "</label>".toList

def renderWidget : List Char := field.widget.render field.name field.value field.attrs

end BoundField

/-- A list of errors under a class. -/
def errorList (cls : String) (errors : List (List Char)) : List Char :=
  "<ul class=\"".toList ++ cls.toList ++ "\">".toList ++
    errors.flatMap (fun err => "<li>".toList ++ htmlEscape err ++ "</li>".toList) ++ "</ul>".toList

namespace BoundField
variable (field : BoundField)

def renderErrors : List Char := if field.errors = [] then [] else errorList "errorlist" field.errors

def renderHelpText : List Char :=
  match field.helpText with
  | some text => if text = [] then [] else "<span class=\"helptext\">".toList ++ htmlEscape text ++ "</span>".toList
  | none => []

/-- The control of a field, and the help behind it. -/
def renderBody : List Char :=
  field.renderWidget ++ if field.renderHelpText = [] then [] else ' ' :: field.renderHelpText

end BoundField

/-! ### Layouts -/

section Layouts
variable (upper : Char → List Char) (fields : List BoundField) (nonFieldErrors : List (List Char))

/-- The errors in front of the fields. -/
def formErrors (start stop : String) : List Char :=
  if nonFieldErrors = [] then [] else start.toList ++ errorList "errorlist nonfield" nonFieldErrors ++ stop.toList

/-- `as_div` -/
def asDiv : List Char :=
  formErrors nonFieldErrors "" "\n" ++ fields.flatMap fun field =>
    "<div>".toList ++ field.renderErrors ++ field.labelTag upper ++ " ".toList ++ field.renderBody ++ "</div>\n".toList

/-- `as_p` -/
def asP : List Char :=
  formErrors nonFieldErrors "" "\n" ++ fields.flatMap fun field =>
    "<p>".toList ++ field.renderErrors ++ field.labelTag upper ++ ": ".toList ++ field.renderBody ++ "</p>\n".toList

/-- `as_table` -/
def asTable : List Char :=
  formErrors nonFieldErrors "<tr><td colspan=\"2\">" "</td></tr>\n" ++ fields.flatMap fun field =>
    "<tr><th>".toList ++ field.labelTag upper ++ ":</th><td>".toList ++ field.renderErrors ++ field.renderBody ++
      "</td></tr>\n".toList

end Layouts

end Djangors.Forms
