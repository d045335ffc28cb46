import Djangors.Forms.Widgets
import Djangors.Lib.Html
import Djangors.Lib.Text

/-! # What a browser reads in a rendered form

The tokens of a form are the tags of its layout, with the texts of its fields in their places. No text of a field is markup. -/

namespace Djangors.Forms
open Html
open Markup (lineEnds lineEnds_eq_self)

/-! ### Escaping -/

theorem htmlEscapeChar_of_ne {c : Char} (hlt : c ≠ '<') (hgt : c ≠ '>') (hamp : c ≠ '&') (hquot : c ≠ '"') (hapos : c ≠ '\'')
    (hslash : c ≠ '/') : htmlEscapeChar c = [c] := by
  rw [htmlEscapeChar, if_neg hlt, if_neg hgt, if_neg hamp, if_neg hquot, if_neg hapos, if_neg hslash]

theorem htmlEscapeChar_self {c : Char} (h : htmlEscapeChar c = [c]) :
    c ≠ '<' ∧ c ≠ '>' ∧ c ≠ '&' ∧ c ≠ '"' ∧ c ≠ '\'' ∧ c ≠ '/' := by
  refine ⟨?_, ?_, ?_, ?_, ?_, ?_⟩ <;> rintro rfl <;> exact absurd h (by decide)

theorem htmlEscape_escapes : Escapes htmlEscapeChar where
  plain c h := by
    obtain ⟨hlt, -, hamp, hquot, -⟩ := htmlEscapeChar_self h
    exact ⟨hlt, hamp, hquot⟩
  written c h := by
    have hmarkup : c = '<' ∨ c = '>' ∨ c = '&' ∨ c = '"' ∨ c = '\'' ∨ c = '/' := by
      by_contra hnone
      simp only [not_or] at hnone
      obtain ⟨hlt, hgt, hamp, hquot, hapos, hslash⟩ := hnone
      exact h (htmlEscapeChar_of_ne hlt hgt hamp hquot hapos hslash)
    rcases hmarkup with rfl | rfl | rfl | rfl | rfl | rfl
    · exact ⟨by decide, by decide, by decide, "lt".toList, rfl, rfl, by decide⟩
    · exact ⟨by decide, by decide, by decide, "gt".toList, rfl, rfl, by decide⟩
    · exact ⟨by decide, by decide, by decide, "amp".toList, rfl, rfl, by decide⟩
    · exact ⟨by decide, by decide, by decide, "quot".toList, rfl, rfl, by decide⟩
    · exact ⟨by decide, by decide, by decide, "#x27".toList, rfl, rfl, by decide⟩
    · exact ⟨by decide, by decide, by decide, "#x2F".toList, rfl, rfl, by decide⟩

/-- A name that an attribute can have. -/
def NamesAttribute (key : List Char) : Prop := key ≠ [] ∧ ∀ c ∈ key, isSpace c = false ∧ c ≠ '=' ∧ c ≠ '\x00'

theorem isKey_of_names {key : List Char} (h : NamesAttribute key) : IsKey htmlEscapeChar key := by
  refine ⟨h.1, fun c hc hself => ?_⟩
  obtain ⟨hspace, heq, hnul⟩ := h.2 c hc
  obtain ⟨hlt, hgt, -, hquot, hapos, hslash⟩ := htmlEscapeChar_self hself
  simp [isKeyChar, hspace, heq, hnul, hlt, hgt, hquot, hapos, hslash]

/-! ### What is meant -/

/-- How texts, values of attributes and contents of text areas are read. -/
structure Reading where
  text : List Char → List Char
  value : List Char → List Char
  area : List Char → List Char

def Reading.html : Reading := ⟨lineEnds false, valueOf, areaOf⟩

def Reading.exact : Reading := ⟨id, id, id⟩

def attr (key : String) (value : List Char) : Attribute := (key.toList, some value)

def flag (key : String) (present : Bool) : List Attribute := if present then [(key.toList, none)] else []

/-- The attributes that `render_attrs` adds. -/
def widgetAttributes (name : List Char) (attrs : WidgetAttrs) : List Attribute :=
  (if (attrs.get "id".toList).isNone ∧ name ≠ [] then [attr "id" (defaultId name)] else []) ++
    attrs.map.map fun entry => (entry.1, some entry.2)

section Meaning
variable (R : Reading)

def Reading.opens (name : String) (attributes : List Attribute) : Token :=
  (Tag.setAll htmlEscapeChar R.value { name := name.toList } attributes).token

def closes (name : String) : Token := .stop name.toList

/-- An element with a text. -/
def Reading.leaf (name : String) (attributes : List Attribute) (text : List Char) : List Token :=
  R.opens name attributes :: (chars (R.text text) ++ [closes name])

section Controls
variable (name : List Char) (value : Option (List Char)) (attrs : WidgetAttrs)

def inputAttributes (type : String) : List Attribute :=
  [attr "type" type.toList, attr "name" name] ++ value.toList.map (attr "value") ++ widgetAttributes name attrs

def checkboxAttributes : List Attribute :=
  [attr "type" "checkbox".toList, attr "name" name] ++ flag "checked" (isChecked value) ++ widgetAttributes name attrs

def optionAttributes (choice : List Char × List Char) : List Attribute :=
  attr "value" choice.1 :: flag "selected" (value == some choice.1)

def radioAttributes (choice : (List Char × List Char) × Nat) : List Attribute :=
  [attr "type" "radio".toList, attr "name" name, attr "value" choice.1.1, attr "id" (optionId name attrs choice.2)] ++
    flag "checked" (value == some choice.1.1)

def Reading.radio (choice : (List Char × List Char) × Nat) : List Token :=
  [R.opens "div" [], R.opens "label" [attr "for" (optionId name attrs choice.2)],
    R.opens "input" (radioAttributes name value attrs choice)] ++
    .text ' ' :: (chars (R.text choice.1.2) ++ [closes "label", closes "div"])

def Reading.control : Widget → List Token
  | .textInput => [R.opens "input" (inputAttributes name value attrs "text")]
  | .textarea => R.opens "textarea" (attr "name" name :: widgetAttributes name attrs) ::
      (chars (R.area (value.getD [])) ++ [closes "textarea"])
  | .numberInput => [R.opens "input" (inputAttributes name value attrs "number")]
  | .checkboxInput => [R.opens "input" (checkboxAttributes name value attrs)]
  | .select choices => R.opens "select" (attr "name" name :: widgetAttributes name attrs) ::
      (choices.flatMap (fun choice => R.leaf "option" (optionAttributes value choice) choice.2) ++ [closes "select"])
  | .radioSelect choices => R.opens "div" [attr "id" (baseId name attrs)] ::
      (choices.zipIdx.flatMap (R.radio name value attrs) ++ [closes "div"])
  | .dateInput => [R.opens "input" (inputAttributes name value attrs "date")]
  | .emailInput => [R.opens "input" (inputAttributes name value attrs "email")]
  | .passwordInput renderValue =>
      [R.opens "input" (inputAttributes name (if renderValue then value else none) attrs "password")]
  | .hiddenInput => [R.opens "input" (inputAttributes name value attrs "hidden")]

end Controls

def Reading.errors (cls : String) (errors : List (List Char)) : List Token :=
  if errors = [] then []
  else R.opens "ul" [attr "class" cls.toList] :: (errors.flatMap (R.leaf "li" []) ++ [closes "ul"])

section Fields
variable (upper : Char → List Char) (field : BoundField)

def Reading.label : List Token := R.leaf "label" [attr "for" field.idForLabel] (field.labelText upper)

/-- The control of a field, and its help when there is any. -/
def Reading.body : List Token :=
  R.control field.name field.value field.attrs field.widget ++
    if field.helpText.getD [] = [] then []
    else .text ' ' :: R.leaf "span" [attr "class" "helptext".toList] (field.helpText.getD [])

/-- The tokens of a field in a `div`, or a `p`. -/
def Reading.block (tag between : String) : List Token :=
  R.opens tag [] :: (R.errors "errorlist" field.errors ++ R.label upper field ++ chars between.toList ++ R.body field ++
    [closes tag, .text '\n'])

/-- The tokens of a field in a row of a table. -/
def Reading.row : List Token :=
  [R.opens "tr" [], R.opens "th" []] ++ R.label upper field ++ [.text ':', closes "th", R.opens "td" []] ++
    R.errors "errorlist" field.errors ++ R.body field ++ [closes "td", closes "tr", .text '\n']

end Fields

/-- The tokens of the errors in front of the fields, between others. -/
def Reading.formErrors (start stop : List Token) (errors : List (List Char)) : List Token :=
  if errors = [] then [] else start ++ R.errors "errorlist nonfield" errors ++ stop

variable (upper : Char → List Char) (fields : List BoundField) (nonFieldErrors : List (List Char))

def Reading.asDiv : List Token :=
  R.formErrors [] [.text '\n'] nonFieldErrors ++ fields.flatMap fun field => R.block upper field "div" " "

def Reading.asP : List Token :=
  R.formErrors [] [.text '\n'] nonFieldErrors ++ fields.flatMap fun field => R.block upper field "p" ": "

def Reading.asTable : List Token :=
  R.formErrors [R.opens "tr" [], R.opens "td" [attr "colspan" "2".toList]] [closes "td", closes "tr", .text '\n']
    nonFieldErrors ++ fields.flatMap (R.row upper)

end Meaning

/-! ### Tags as they are written -/

abbrev tagText (name : String) (attributes : List Attribute) : List Char := startTag htmlEscapeChar name.toList attributes

abbrev stopText (name : String) : List Char := stopTag name.toList

def leafText (name : String) (attributes : List Attribute) (text : List Char) : List Char :=
  tagText name attributes ++ htmlEscape text ++ stopText name

section Texts
variable {name text : List Char} {value : Option (List Char)} {attrs : WidgetAttrs}

theorem attributeText_attr (key : String) (hkey : htmlEscape key.toList = key.toList) (value : List Char) :
    attributeText htmlEscapeChar (attr key value) = ' ' :: key.toList ++ "=\"".toList ++ htmlEscape value ++ ['"'] := by
  have h : key.toList.flatMap htmlEscapeChar = key.toList := hkey
  simp [attributeText, attr, h, htmlEscape]

theorem attributeText_flag (key : String) (hkey : htmlEscape key.toList = key.toList) (present : Bool) :
    (flag key present).flatMap (attributeText htmlEscapeChar) = if present then ' ' :: key.toList else [] := by
  have h : key.toList.flatMap htmlEscapeChar = key.toList := hkey
  cases present <;> simp [flag, attributeText, h]

theorem renderAttrs_eq : renderAttrs name attrs = (widgetAttributes name attrs).flatMap (attributeText htmlEscapeChar) := by
  have hid : " id=\"".toList = ' ' :: "id".toList ++ "=\"".toList := rfl
  rw [renderAttrs, widgetAttributes, List.flatMap_append, List.flatMap_map, hid]
  congr 1
  · split
    · rw [List.flatMap_singleton, attributeText_attr "id" (by decide)]
    · rfl
  · refine List.flatMap_congr fun entry _ => ?_
    simp [attributeText, htmlEscape]

theorem valueAttr_eq : valueAttr value = (value.toList.map (attr "value")).flatMap (attributeText htmlEscapeChar) := by
  have hvalue : " value=\"".toList = ' ' :: "value".toList ++ "=\"".toList := rfl
  cases value with
  | none => rfl
  | some value =>
    unfold valueAttr
    rw [hvalue, Option.toList_some, List.map_singleton, List.flatMap_singleton, attributeText_attr "value" (by decide)]

theorem renderInput_eq {type : String} (htype : htmlEscape type.toList = type.toList) :
    renderInput name value attrs type = tagText "input" (inputAttributes name value attrs type) := by
  have hstart : "<input type=\"".toList = '<' :: "input".toList ++ (' ' :: "type".toList ++ "=\"".toList) := rfl
  have hname : "\" name=\"".toList = ['"'] ++ (' ' :: "name".toList ++ "=\"".toList) := rfl
  unfold renderInput
  rw [valueAttr_eq, renderAttrs_eq, tagText, startTag, inputAttributes, List.flatMap_append, List.flatMap_append,
    List.flatMap_cons, List.flatMap_singleton, attributeText_attr "type" (by decide),
    attributeText_attr "name" (by decide), htype, hstart, hname]
  simp only [List.append_assoc, List.cons_append, List.nil_append]

theorem renderTextarea_eq : Textarea.render name value attrs =
    tagText "textarea" (attr "name" name :: widgetAttributes name attrs) ++ htmlEscape (value.getD []) ++
      stopText "textarea" := by
  have hstart : "<textarea name=\"".toList = '<' :: "textarea".toList ++ (' ' :: "name".toList ++ "=\"".toList) := rfl
  have hstop : "</textarea>".toList = stopText "textarea" := rfl
  have hvalue : (value.map htmlEscape).getD [] = htmlEscape (value.getD []) := by cases value <;> rfl
  unfold Textarea.render
  rw [renderAttrs_eq, tagText, startTag, List.flatMap_cons, attributeText_attr "name" (by decide), hstart, hstop, hvalue]
  simp only [List.append_assoc, List.cons_append, List.nil_append]

theorem renderCheckbox_eq : CheckboxInput.render name value attrs = tagText "input" (checkboxAttributes name value attrs) := by
  have hstart : "<input type=\"checkbox\" name=\"".toList = '<' :: "input".toList ++
      (' ' :: "type".toList ++ "=\"".toList ++ htmlEscape "checkbox".toList ++ ['"']) ++
      (' ' :: "name".toList ++ "=\"".toList) := rfl
  have hchecked : " checked".toList = ' ' :: "checked".toList := rfl
  unfold CheckboxInput.render
  rw [renderAttrs_eq, tagText, startTag, checkboxAttributes, List.flatMap_append, List.flatMap_append,
    List.flatMap_cons, List.flatMap_singleton, attributeText_attr "type" (by decide),
    attributeText_attr "name" (by decide), attributeText_flag "checked" (by decide), hstart, hchecked]
  simp only [List.append_assoc, List.cons_append, List.nil_append]

theorem renderOption_eq (choice : List Char × List Char) : renderOption value choice =
    leafText "option" (optionAttributes value choice) choice.2 := by
  have hstart : "<option value=\"".toList = '<' :: "option".toList ++ (' ' :: "value".toList ++ "=\"".toList) := rfl
  have hselected : " selected".toList = ' ' :: "selected".toList := rfl
  have hstop : "</option>".toList = stopText "option" := rfl
  have hif : (if value = some choice.1 then ' ' :: "selected".toList else []) =
      if value == some choice.1 then ' ' :: "selected".toList else [] := by
    by_cases h : value = some choice.1 <;> simp [h]
  unfold renderOption
  rw [leafText, tagText, startTag, optionAttributes, List.flatMap_cons, attributeText_attr "value" (by decide),
    attributeText_flag "selected" (by decide), hstart, hselected, hstop, hif]
  simp only [List.append_assoc, List.cons_append, List.nil_append]

theorem renderSelect_eq (choices : List (List Char × List Char)) : Select.render name value attrs choices =
    tagText "select" (attr "name" name :: widgetAttributes name attrs) ++
      choices.flatMap (fun choice => leafText "option" (optionAttributes value choice) choice.2) ++ stopText "select" := by
  have hstart : "<select name=\"".toList = '<' :: "select".toList ++ (' ' :: "name".toList ++ "=\"".toList) := rfl
  have hstop : "</select>".toList = stopText "select" := rfl
  unfold Select.render
  rw [renderAttrs_eq, tagText, startTag, List.flatMap_cons, attributeText_attr "name" (by decide), hstart, hstop,
    List.flatMap_congr fun choice _ => renderOption_eq choice]
  simp only [List.append_assoc, List.cons_append, List.nil_append]

theorem renderRadio_eq (choice : (List Char × List Char) × Nat) : renderRadio name value attrs choice =
    tagText "div" [] ++ tagText "label" [attr "for" (optionId name attrs choice.2)] ++
      tagText "input" (radioAttributes name value attrs choice) ++
      ([' '] ++ (htmlEscape choice.1.2 ++ (stopText "label" ++ stopText "div"))) := by
  have hstart : "<div><label for=\"".toList = tagText "div" [] ++ ('<' :: "label".toList) ++
      (' ' :: "for".toList ++ "=\"".toList) := rfl
  have hinput : "\"><input type=\"radio\" name=\"".toList = "\">".toList ++ ('<' :: "input".toList ++
      (' ' :: "type".toList ++ "=\"".toList ++ htmlEscape "radio".toList ++ ['"'])) ++
      (' ' :: "name".toList ++ "=\"".toList) := rfl
  have hvalue : "\" value=\"".toList = ['"'] ++ (' ' :: "value".toList ++ "=\"".toList) := rfl
  have hid : "\" id=\"".toList = ['"'] ++ (' ' :: "id".toList ++ "=\"".toList) := rfl
  have hchecked : " checked".toList = ' ' :: "checked".toList := rfl
  have hspace : "> ".toList = ['>', ' '] := rfl
  have hquoted : "\">".toList = ['"', '>'] := rfl
  have hstop : "</label></div>".toList = stopText "label" ++ stopText "div" := rfl
  have hif : (if value = some choice.1.1 then ' ' :: "checked".toList else []) =
      if value == some choice.1.1 then ' ' :: "checked".toList else [] := by
    by_cases h : value = some choice.1.1 <;> simp [h]
  have hlabel : tagText "label" [attr "for" (optionId name attrs choice.2)] = '<' :: ("label".toList ++
      (attributeText htmlEscapeChar (attr "for" (optionId name attrs choice.2)) ++ ['>'])) := by
    rw [tagText, startTag, List.flatMap_singleton]
  have htag : tagText "input" (radioAttributes name value attrs choice) = '<' :: ("input".toList ++
      ((radioAttributes name value attrs choice).flatMap (attributeText htmlEscapeChar) ++ ['>'])) := rfl
  unfold renderRadio
  rw [hlabel, htag, radioAttributes, List.flatMap_append, List.flatMap_cons, List.flatMap_cons, List.flatMap_cons,
    List.flatMap_singleton, attributeText_attr "for" (by decide), attributeText_attr "type" (by decide),
    attributeText_attr "name" (by decide), attributeText_attr "value" (by decide),
    attributeText_attr "id" (by decide), attributeText_flag "checked" (by decide), hstart, hinput, hvalue, hid,
    hchecked, hspace, hquoted, hstop, hif]
  simp only [List.append_assoc, List.cons_append, List.nil_append]

theorem renderRadioSelect_eq (choices : List (List Char × List Char)) : RadioSelect.render name value attrs choices =
    tagText "div" [attr "id" (baseId name attrs)] ++ choices.zipIdx.flatMap (renderRadio name value attrs) ++
      stopText "div" := by
  have hstart : "<div id=\"".toList = '<' :: "div".toList ++ (' ' :: "id".toList ++ "=\"".toList) := rfl
  have hclose : "\">".toList = ['"', '>'] := rfl
  have hstop : "</div>".toList = stopText "div" := rfl
  unfold RadioSelect.render
  rw [tagText, startTag, List.flatMap_singleton, attributeText_attr "id" (by decide), hstart, hclose, hstop]
  simp only [List.append_assoc, List.cons_append, List.nil_append]

end Texts

/-! ### Reading -/

theorem isKey_attr (key : String) (h : NamesAttribute key.toList) (value : List Char) :
    IsKey htmlEscapeChar (attr key value).1 := isKey_of_names h

theorem isKey_singleton (key : String) (h : NamesAttribute key.toList) (value : List Char) :
    ∀ a ∈ [attr key value], IsKey htmlEscapeChar a.1 := List.forall_mem_singleton.mpr (isKey_attr key h value)

/-- The names of the attributes that are set on a control. -/
def WidgetAttrs.Named (attrs : WidgetAttrs) : Prop := ∀ entry ∈ attrs.map, NamesAttribute entry.1

instance : DecidablePred NamesAttribute := fun key => @instDecidableAnd (key ≠ []) _ inferInstance (List.decidableBAll _ key)

section Reads
variable {name text : List Char} {value : Option (List Char)} {attrs : WidgetAttrs} {toks : List Token}
  {attributes : List Attribute}

theorem isKey_flag (key : String) (h : NamesAttribute key.toList) (present : Bool) :
    ∀ a ∈ flag key present, IsKey htmlEscapeChar a.1 := by
  cases present
  · exact fun a ha => absurd ha List.not_mem_nil
  · exact List.forall_mem_singleton.mpr (isKey_of_names h)

theorem isKey_widgetAttributes (hattrs : attrs.Named) : ∀ a ∈ widgetAttributes name attrs, IsKey htmlEscapeChar a.1 := by
  refine List.forall_mem_append.mpr ⟨?_, List.forall_mem_map.mpr fun entry hentry => isKey_of_names (hattrs entry hentry)⟩
  split
  · exact isKey_singleton "id" (by decide) _
  · exact fun a ha => absurd ha List.not_mem_nil

/-- A tag of a form. -/
def IsFormTag (name : String) : Prop :=
  isTagName name.toList = true ∧ rawElements.any (·.toList == name.toList) = false ∧ name.toList ≠ "textarea".toList

instance : DecidablePred IsFormTag := fun _ => inferInstanceAs (Decidable (_ ∧ _ ∧ _))

theorem puts_tag (name : String) (hname : IsFormTag name) (hkeys : ∀ a ∈ attributes, IsKey htmlEscapeChar a.1) :
    Puts (tagText name attributes) [Reading.html.opens name attributes] :=
  puts_startTag htmlEscape_escapes hname.1 hkeys hname.2

theorem puts_stop (name : String) (hname : IsFormTag name) : Puts (stopText name) [closes name] := puts_stopTag hname.1

theorem puts_leaf (name : String) (hname : IsFormTag name) (hkeys : ∀ a ∈ attributes, IsKey htmlEscapeChar a.1)
    (text : List Char) : Puts (leafText name attributes text) (Reading.html.leaf name attributes text) := by
  have hstop : Puts (stopText name) [closes name] := puts_stop name hname
  have h := (puts_tag name hname hkeys).append (hstop.textBefore htmlEscape_escapes text)
  rwa [← List.append_assoc] at h

theorem noKeys : ∀ a ∈ ([] : List Attribute), IsKey htmlEscapeChar a.1 := fun _ ha => absurd ha List.not_mem_nil

theorem puts_radio (choice : (List Char × List Char) × Nat) :
    Puts (renderRadio name value attrs choice) (Reading.html.radio name value attrs choice) := by
  have hkeys : ∀ a ∈ radioAttributes name value attrs choice, IsKey htmlEscapeChar a.1 := by
    refine List.forall_mem_append.mpr ⟨?_, isKey_flag "checked" (by decide) _⟩
    exact List.forall_mem_cons.mpr ⟨isKey_attr "type" (by decide) _, List.forall_mem_cons.mpr
      ⟨isKey_attr "name" (by decide) _, List.forall_mem_cons.mpr ⟨isKey_attr "value" (by decide) _,
        isKey_singleton "id" (by decide) _⟩⟩⟩
  have hdiv := puts_tag "div" (by decide) noKeys
  have hlabel := puts_tag "label" (by decide)
    (isKey_singleton "for" (by decide) (optionId name attrs choice.2))
  have hinput := puts_tag "input" (by decide) hkeys
  have hend := (puts_stop "label" (by decide)).append (puts_stop "div" (by decide))
  have htext : Puts ([' '] ++ (htmlEscape choice.1.2 ++ (stopText "label" ++ stopText "div")))
      ([.text ' '] ++ (chars (lineEnds false choice.1.2) ++ ([closes "label"] ++ [closes "div"]))) :=
    (puts_char (by decide) (by decide) (by decide)).append (hend.textBefore htmlEscape_escapes choice.1.2)
  rw [renderRadio_eq]
  exact ((hdiv.append hlabel).append hinput).append htext

theorem puts_input {type : String} (htype : htmlEscape type.toList = type.toList) (hattrs : attrs.Named) :
    Puts (renderInput name value attrs type) [Reading.html.opens "input" (inputAttributes name value attrs type)] := by
  rw [renderInput_eq htype]
  refine puts_tag "input" (by decide)
    (List.forall_mem_append.mpr ⟨List.forall_mem_append.mpr ⟨?_, ?_⟩, isKey_widgetAttributes hattrs⟩)
  · exact List.forall_mem_cons.mpr ⟨isKey_attr "type" (by decide) _, isKey_singleton "name" (by decide) _⟩
  · exact List.forall_mem_map.mpr fun value _ => isKey_attr "value" (by decide) value

/-- A control is read as what it shows. -/
theorem puts_control (widget : Widget) (hattrs : attrs.Named) :
    Puts (widget.render name value attrs) (Reading.html.control name value attrs widget) := by
  have hnamed : ∀ a ∈ attr "name" name :: widgetAttributes name attrs, IsKey htmlEscapeChar a.1 :=
    List.forall_mem_cons.mpr ⟨isKey_attr "name" (by decide) name, isKey_widgetAttributes hattrs⟩
  cases widget with
  | textInput => exact puts_input (by decide) hattrs
  | numberInput => exact puts_input (by decide) hattrs
  | dateInput => exact puts_input (by decide) hattrs
  | emailInput => exact puts_input (by decide) hattrs
  | hiddenInput => exact puts_input (by decide) hattrs
  | passwordInput renderValue => exact puts_input (by decide) hattrs
  | textarea =>
    rw [Widget.render, renderTextarea_eq]
    exact puts_area htmlEscape_escapes hnamed (value.getD [])
  | checkboxInput =>
    rw [Widget.render, renderCheckbox_eq]
    refine puts_tag "input" (by decide)
      (List.forall_mem_append.mpr ⟨List.forall_mem_append.mpr ⟨?_, ?_⟩, isKey_widgetAttributes hattrs⟩)
    · exact List.forall_mem_cons.mpr ⟨isKey_attr "type" (by decide) _, isKey_singleton "name" (by decide) _⟩
    · exact isKey_flag "checked" (by decide) _
  | select choices =>
    have hoptions : Puts (choices.flatMap fun choice => leafText "option" (optionAttributes value choice) choice.2)
        (choices.flatMap fun choice => Reading.html.leaf "option" (optionAttributes value choice) choice.2) :=
      .flatMap fun choice _ => puts_leaf "option" (by decide)
        (List.forall_mem_cons.mpr ⟨isKey_attr "value" (by decide) choice.1, isKey_flag "selected" (by decide) _⟩)
        choice.2
    rw [Widget.render, renderSelect_eq, List.append_assoc]
    exact (puts_tag "select" (by decide) hnamed).append (hoptions.append (puts_stop "select" (by decide)))
  | radioSelect choices =>
    have hradios : Puts (choices.zipIdx.flatMap (renderRadio name value attrs))
        (choices.zipIdx.flatMap (Reading.html.radio name value attrs)) := .flatMap fun choice _ => puts_radio choice
    rw [Widget.render, renderRadioSelect_eq, List.append_assoc]
    exact (puts_tag "div" (by decide) (isKey_singleton "id" (by decide) _)).append
      (hradios.append (puts_stop "div" (by decide)))

/-! ### Fields and layouts -/

theorem puts_errorList (cls : String) (hcls : htmlEscape cls.toList = cls.toList) (errors : List (List Char)) :
    Puts (errorList cls errors)
      (Reading.html.opens "ul" [attr "class" cls.toList] :: (errors.flatMap (Reading.html.leaf "li" []) ++ [closes "ul"])) := by
  have hstart : "<ul class=\"".toList = '<' :: "ul".toList ++ (' ' :: "class".toList ++ "=\"".toList) := rfl
  have hquoted : "\">".toList = ['"', '>'] := rfl
  have hstop : "</ul>".toList = stopText "ul" := rfl
  have htag : "<ul class=\"".toList ++ cls.toList ++ "\">".toList = tagText "ul" [attr "class" cls.toList] := by
    rw [tagText, startTag, List.flatMap_singleton, attributeText_attr "class" (by decide), hcls, hstart, hquoted]
    simp only [List.append_assoc, List.cons_append, List.nil_append]
  have hitem : ∀ err, "<li>".toList ++ htmlEscape err ++ "</li>".toList = leafText "li" [] err := fun _ => rfl
  have hitems : Puts (errors.flatMap (leafText "li" [])) (errors.flatMap (Reading.html.leaf "li" [])) :=
    .flatMap fun err _ => puts_leaf "li" (by decide) noKeys err
  unfold errorList
  rw [htag, hstop, List.flatMap_congr fun err _ => hitem err, List.append_assoc]
  exact (puts_tag "ul" (by decide) (isKey_singleton "class" (by decide) _)).append
    (hitems.append (puts_stop "ul" (by decide)))

section Fields
variable {upper : Char → List Char} {field : BoundField}

theorem puts_errors : Puts field.renderErrors (Reading.html.errors "errorlist" field.errors) := by
  rw [BoundField.renderErrors, Reading.errors]
  split
  · exact .nil
  · exact puts_errorList "errorlist" (by decide) _

theorem puts_label : Puts (field.labelTag upper) (Reading.html.label upper field) := by
  have hstart : "<label for=\"".toList = '<' :: "label".toList ++ (' ' :: "for".toList ++ "=\"".toList) := rfl
  have hquoted : "\">".toList = ['"', '>'] := rfl
  have hstop : "</label>".toList = stopText "label" := rfl
  have htag : "<label for=\"".toList ++ htmlEscape field.idForLabel ++ "\">".toList =
      tagText "label" [attr "for" field.idForLabel] := by
    rw [tagText, startTag, List.flatMap_singleton, attributeText_attr "for" (by decide), hstart, hquoted]
    simp only [List.append_assoc, List.cons_append, List.nil_append]
  unfold BoundField.labelTag
  rw [htag, hstop]
  exact puts_leaf "label" (by decide) (isKey_singleton "for" (by decide) _) _

theorem puts_body (hattrs : field.attrs.Named) : Puts field.renderBody (Reading.html.body field) := by
  have hcontrol := @puts_control field.name field.value field.attrs field.widget hattrs
  have hstart : "<span class=\"helptext\">".toList = tagText "span" [attr "class" "helptext".toList] := by decide
  have hstop : "</span>".toList = stopText "span" := rfl
  have hne : ∀ text, leafText "span" [attr "class" "helptext".toList] text ≠ [] := fun text h => List.cons_ne_nil _ _ h
  have hhelp : field.renderHelpText = if field.helpText.getD [] = [] then []
      else leafText "span" [attr "class" "helptext".toList] (field.helpText.getD []) := by
    unfold BoundField.renderHelpText
    rw [hstart, hstop]
    cases field.helpText <;> rfl
  rw [BoundField.renderBody, Reading.body, hhelp]
  refine hcontrol.append ?_
  by_cases hempty : field.helpText.getD [] = []
  · rw [if_pos hempty, if_pos rfl, if_pos hempty]
    exact .nil
  · rw [if_neg hempty, if_neg (hne _), if_neg hempty]
    exact (puts_char (by decide) (by decide) (by decide)).append
      (puts_leaf "span" (by decide) (isKey_singleton "class" (by decide) _) _)

theorem puts_formErrors {errors : List (List Char)} {start stop : String} {before after : List Token}
    (hstart : Puts start.toList before) (hstop : Puts stop.toList after) :
    Puts (formErrors errors start stop) (Reading.html.formErrors before after errors) := by
  rw [formErrors, Reading.formErrors]
  by_cases hnone : errors = []
  · rw [if_pos hnone, if_pos hnone]
    exact .nil
  · rw [if_neg hnone, if_neg hnone, Reading.errors, if_neg hnone]
    exact (hstart.append (puts_errorList "errorlist nonfield" (by decide) errors)).append hstop

/-- A field in a `div`, or in a `p`. -/
theorem puts_block {tag between : String} (htag : IsFormTag tag) (hbetween : Puts between.toList (chars between.toList))
    (hattrs : field.attrs.Named) :
    Puts (tagText tag [] ++ field.renderErrors ++ field.labelTag upper ++ between.toList ++ field.renderBody ++
      (stopText tag ++ ['\n'])) (Reading.html.block upper field tag between) := by
  have hstop : Puts (stopText tag ++ ['\n']) [closes tag, .text '\n'] :=
    (puts_stop tag htag).append (puts_char (by decide) (by decide) (by decide))
  have h := (((((puts_tag tag htag noKeys).append (@puts_errors field)).append (@puts_label upper field)).append
    hbetween).append (puts_body hattrs)).append hstop
  rw [Reading.block]
  simpa only [List.append_assoc, List.cons_append, List.nil_append] using h

theorem puts_row (hattrs : field.attrs.Named) :
    Puts ("<tr><th>".toList ++ field.labelTag upper ++ ":</th><td>".toList ++ field.renderErrors ++ field.renderBody ++
      "</td></tr>\n".toList) (Reading.html.row upper field) := by
  have hopen : "<tr><th>".toList = tagText "tr" [] ++ tagText "th" [] := rfl
  have hbetween : ":</th><td>".toList = [':'] ++ (stopText "th" ++ tagText "td" []) := rfl
  have hclose : "</td></tr>\n".toList = stopText "td" ++ (stopText "tr" ++ ['\n']) := rfl
  have hstart := (puts_tag "tr" (by decide) noKeys).append (puts_tag "th" (by decide) noKeys)
  have hmiddle : Puts ([':'] ++ (stopText "th" ++ tagText "td" []))
      ([.text ':'] ++ ([closes "th"] ++ [Reading.html.opens "td" []])) :=
    (puts_char (by decide) (by decide) (by decide)).append
      ((puts_stop "th" (by decide)).append (puts_tag "td" (by decide) noKeys))
  have hend : Puts (stopText "td" ++ (stopText "tr" ++ ['\n'])) ([closes "td"] ++ ([closes "tr"] ++ [.text '\n'])) :=
    (puts_stop "td" (by decide)).append
      ((puts_stop "tr" (by decide)).append (puts_char (by decide) (by decide) (by decide)))
  rw [hopen, hbetween, hclose]
  exact ((((hstart.append puts_label).append hmiddle).append puts_errors).append (puts_body hattrs)).append hend

end Fields

section Forms
variable {upper : Char → List Char} {fields : List BoundField} {errors : List (List Char)}

theorem tokens_asDiv (hattrs : ∀ field ∈ fields, field.attrs.Named) :
    tokens (asDiv upper fields errors) = some (Reading.html.asDiv upper fields errors) := by
  have hopen : "<div>".toList = tagText "div" [] := rfl
  have hclose : "</div>\n".toList = stopText "div" ++ ['\n'] := rfl
  have herrors : Puts (formErrors errors "" "\n") (Reading.html.formErrors [] [.text '\n'] errors) :=
    puts_formErrors .nil (puts_char (by decide) (by decide) (by decide))
  unfold asDiv
  rw [hopen, hclose]
  exact tokens_of_puts (herrors.append (.flatMap fun field hfield =>
    puts_block (by decide) (puts_char (by decide) (by decide) (by decide)) (hattrs field hfield)))

theorem tokens_asP (hattrs : ∀ field ∈ fields, field.attrs.Named) :
    tokens (asP upper fields errors) = some (Reading.html.asP upper fields errors) := by
  have hopen : "<p>".toList = tagText "p" [] := rfl
  have hclose : "</p>\n".toList = stopText "p" ++ ['\n'] := rfl
  have herrors : Puts (formErrors errors "" "\n") (Reading.html.formErrors [] [.text '\n'] errors) :=
    puts_formErrors .nil (puts_char (by decide) (by decide) (by decide))
  have hbetween : Puts ": ".toList (chars ": ".toList) :=
    (puts_char (c := ':') (by decide) (by decide) (by decide)).append (puts_char (c := ' ') (by decide) (by decide) (by decide))
  unfold asP
  rw [hopen, hclose]
  exact tokens_of_puts (herrors.append (.flatMap fun field hfield =>
    puts_block (by decide) hbetween (hattrs field hfield)))

theorem tokens_asTable (hattrs : ∀ field ∈ fields, field.attrs.Named) :
    tokens (asTable upper fields errors) = some (Reading.html.asTable upper fields errors) := by
  have hopen : "<tr><td colspan=\"2\">".toList = tagText "tr" [] ++ tagText "td" [attr "colspan" "2".toList] := by
    decide +kernel
  have hclose : "</td></tr>\n".toList = stopText "td" ++ (stopText "tr" ++ ['\n']) := rfl
  have hstart : Puts "<tr><td colspan=\"2\">".toList
      ([Reading.html.opens "tr" []] ++ [Reading.html.opens "td" [attr "colspan" "2".toList]]) := by
    rw [hopen]
    exact (puts_tag "tr" (by decide) noKeys).append
      (puts_tag "td" (by decide) (isKey_singleton "colspan" (by decide) _))
  have hend : Puts "</td></tr>\n".toList ([closes "td"] ++ ([closes "tr"] ++ [.text '\n'])) := by
    rw [hclose]
    exact (puts_stop "td" (by decide)).append
      ((puts_stop "tr" (by decide)).append (puts_char (by decide) (by decide) (by decide)))
  have herrors : Puts (formErrors errors "<tr><td colspan=\"2\">" "</td></tr>\n")
      (Reading.html.formErrors [Reading.html.opens "tr" [], Reading.html.opens "td" [attr "colspan" "2".toList]]
        [closes "td", closes "tr", .text '\n'] errors) := puts_formErrors hstart hend
  exact tokens_of_puts (herrors.append (.flatMap fun field hfield => puts_row (hattrs field hfield)))

end Forms

end Reads

/-! ### Texts that are read as they are -/

/-- Without carriage returns and null characters, which no HTML has. -/
def CleanText (text : List Char) : Prop := '\r' ∉ text ∧ '\x00' ∉ text

def Widget.choices : Widget → List (List Char × List Char)
  | .select choices => choices
  | .radioSelect choices => choices
  | _ => []

/-- The texts of a field. -/
def BoundField.texts (upper : Char → List Char) (field : BoundField) : List (List Char) :=
  [field.name, field.idForLabel, field.labelText upper, field.helpText.getD []] ++ field.value.toList ++ field.errors ++
    field.attrs.map.map (·.2) ++ field.widget.choices.map (·.1) ++ field.widget.choices.map (·.2)

structure BoundField.Clean (upper : Char → List Char) (field : BoundField) : Prop where
  texts : ∀ text ∈ field.texts upper, CleanText text
  area : field.widget = .textarea → (field.value.getD []).head? ≠ some '\n'

section Exact
variable {name text : List Char} {value : Option (List Char)} {attrs : WidgetAttrs} {attributes : List Attribute}

theorem CleanText.lineEnds (h : CleanText text) : lineEnds false text = text := lineEnds_eq_self.mpr h.1

theorem map_whole (h : '\x00' ∉ text) : text.map whole = text :=
  (List.map_congr_left fun _ hc => whole_of_ne fun heq => h (heq ▸ hc)).trans (List.map_id text)

theorem CleanText.valueOf (h : CleanText text) : valueOf text = text := by
  rw [Html.valueOf, h.lineEnds, map_whole h.2]

theorem CleanText.areaOf (h : CleanText text) (hlf : text.head? ≠ some '\n') : areaOf text = text := by
  rw [Html.areaOf, h.lineEnds, if_neg hlf, map_whole h.2]

theorem CleanText.append {text' : List Char} (h : CleanText text) (h' : CleanText text') : CleanText (text ++ text') :=
  ⟨fun hc => (List.mem_append.mp hc).elim h.1 h'.1, fun hc => (List.mem_append.mp hc).elim h.2 h'.2⟩

def CleanValues (attributes : List Attribute) : Prop := ∀ a ∈ attributes, ∀ v, a.2 = some v → CleanText v

theorem cleanValues_attr {key : String} {v : List Char} (h : CleanText v) : CleanValues [attr key v] :=
  List.forall_mem_singleton.mpr fun _ heq => Option.some.inj heq ▸ h

theorem cleanValues_map {key : String} {values : List (List Char)} (h : ∀ v ∈ values, CleanText v) :
    CleanValues (values.map (attr key)) := by
  refine List.forall_mem_map.mpr fun v hv w heq => ?_
  rw [← Option.some.inj heq]
  exact h v hv

theorem cleanValues_flag (key : String) (present : Bool) : CleanValues (flag key present) := by
  cases present
  · exact fun a ha => absurd ha List.not_mem_nil
  · exact List.forall_mem_singleton.mpr fun v hv => by cases hv

theorem CleanValues.append {others : List Attribute} (h : CleanValues attributes) (h' : CleanValues others) :
    CleanValues (attributes ++ others) := List.forall_mem_append.mpr ⟨h, h'⟩

theorem setAll_exact (h : CleanValues attributes) (tag : Tag) :
    tag.setAll htmlEscapeChar valueOf attributes = tag.setAll htmlEscapeChar id attributes := by
  induction attributes generalizing tag with
  | nil => rfl
  | cons a attributes ih =>
    obtain ⟨ha, hrest⟩ := List.forall_mem_cons.mp h
    have hvalue : a.2.map valueOf = a.2.map id := by
      cases hv : a.2 with
      | none => rfl
      | some v => exact congrArg some (ha v hv).valueOf
    change (tag.set _ ((a.2.map valueOf).getD [])).setAll htmlEscapeChar valueOf attributes = _
    rw [hvalue]
    exact ih hrest _

theorem opens_exact (tag : String) (h : CleanValues attributes) :
    Reading.html.opens tag attributes = Reading.exact.opens tag attributes := congrArg Tag.token (setAll_exact h _)

theorem leaf_exact (tag : String) (h : CleanValues attributes) (htext : CleanText text) :
    Reading.html.leaf tag attributes text = Reading.exact.leaf tag attributes text := by
  have hread : Reading.html.text text = Reading.exact.text text := htext.lineEnds
  rw [Reading.leaf, Reading.leaf, opens_exact tag h, hread]

theorem cleanValues_widgetAttributes (hname : CleanText name) (hattrs : ∀ v ∈ attrs.map.map (·.2), CleanText v) :
    CleanValues (widgetAttributes name attrs) := by
  refine .append ?_ (List.forall_mem_map.mpr fun entry hentry v hv => Option.some.inj hv ▸
    hattrs entry.2 (List.mem_map_of_mem hentry))
  split
  · exact cleanValues_attr (.append ⟨by decide, by decide⟩ hname)
  · exact fun a ha => absurd ha List.not_mem_nil

theorem cleanText_optionId (hid : CleanText (baseId name attrs)) (i : Nat) : CleanText (optionId name attrs i) := by
  have hdigits := (Text.digits_of_toString i).2
  refine hid.append ⟨fun hc => ?_, fun hc => ?_⟩
  · rcases List.mem_cons.mp hc with heq | hc
    · exact absurd heq (by decide)
    · exact absurd (hdigits _ hc) (by decide)
  · rcases List.mem_cons.mp hc with heq | hc
    · exact absurd heq (by decide)
    · exact absurd (hdigits _ hc) (by decide)

theorem input_exact {type : String} (htype : CleanText type.toList) (hname : CleanText name)
    (hvalue : ∀ v ∈ value.toList, CleanText v) (hattrs : ∀ v ∈ attrs.map.map (·.2), CleanText v) :
    Reading.html.opens "input" (inputAttributes name value attrs type) =
      Reading.exact.opens "input" (inputAttributes name value attrs type) :=
  opens_exact _ ((((cleanValues_attr htype).append (cleanValues_attr hname)).append (cleanValues_map hvalue)).append
    (cleanValues_widgetAttributes hname hattrs))

theorem radio_exact (hname : CleanText name) (hid : CleanText (baseId name attrs)) (choice : (List Char × List Char) × Nat)
    (hchoice : CleanText choice.1.1 ∧ CleanText choice.1.2) :
    Reading.html.radio name value attrs choice = Reading.exact.radio name value attrs choice := by
  have hoption := cleanText_optionId hid choice.2
  have hread : Reading.html.text choice.1.2 = Reading.exact.text choice.1.2 := hchoice.2.lineEnds
  have hattributes : CleanValues (radioAttributes name value attrs choice) :=
    ((((cleanValues_attr ⟨by decide, by decide⟩).append (cleanValues_attr hname)).append (cleanValues_attr hchoice.1)).append
      (cleanValues_attr hoption)).append (cleanValues_flag _ _)
  rw [Reading.radio, Reading.radio, opens_exact "div" fun a ha => absurd ha List.not_mem_nil,
    opens_exact "label" (cleanValues_attr hoption), opens_exact "input" hattributes, hread]

theorem control_exact (widget : Widget) (hname : CleanText name) (hvalue : ∀ v ∈ value.toList, CleanText v)
    (hid : CleanText (baseId name attrs)) (hattrs : ∀ v ∈ attrs.map.map (·.2), CleanText v)
    (hchoices : ∀ choice ∈ widget.choices, CleanText choice.1 ∧ CleanText choice.2)
    (harea : widget = .textarea → (value.getD []).head? ≠ some '\n') :
    Reading.html.control name value attrs widget = Reading.exact.control name value attrs widget := by
  have hwidget := cleanValues_widgetAttributes hname hattrs
  have hnamed : CleanValues (attr "name" name :: widgetAttributes name attrs) := (cleanValues_attr hname).append hwidget
  cases widget with
  | textInput => exact congrArg ([·]) (input_exact ⟨by decide, by decide⟩ hname hvalue hattrs)
  | numberInput => exact congrArg ([·]) (input_exact ⟨by decide, by decide⟩ hname hvalue hattrs)
  | dateInput => exact congrArg ([·]) (input_exact ⟨by decide, by decide⟩ hname hvalue hattrs)
  | emailInput => exact congrArg ([·]) (input_exact ⟨by decide, by decide⟩ hname hvalue hattrs)
  | hiddenInput => exact congrArg ([·]) (input_exact ⟨by decide, by decide⟩ hname hvalue hattrs)
  | passwordInput renderValue =>
    refine congrArg ([·]) (input_exact ⟨by decide, by decide⟩ hname (fun v hv => ?_) hattrs)
    cases renderValue
    · exact absurd hv List.not_mem_nil
    · exact hvalue v hv
  | textarea =>
    have hclean : CleanText (value.getD []) := by
      cases value with
      | none => exact ⟨List.not_mem_nil, List.not_mem_nil⟩
      | some v => exact hvalue v (List.mem_singleton_self v)
    have hread : Reading.html.area (value.getD []) = Reading.exact.area (value.getD []) := hclean.areaOf (harea rfl)
    rw [Reading.control, Reading.control, opens_exact "textarea" hnamed, hread]
  | checkboxInput =>
    exact congrArg ([·]) (opens_exact "input" ((((cleanValues_attr ⟨by decide, by decide⟩).append
      (cleanValues_attr hname)).append (cleanValues_flag _ _)).append hwidget))
  | select choices =>
    have hoptions : choices.flatMap (fun choice => Reading.html.leaf "option" (optionAttributes value choice) choice.2) =
        choices.flatMap fun choice => Reading.exact.leaf "option" (optionAttributes value choice) choice.2 :=
      List.flatMap_congr fun choice hchoice => leaf_exact "option"
        ((cleanValues_attr (hchoices choice hchoice).1).append (cleanValues_flag _ _)) (hchoices choice hchoice).2
    rw [Reading.control, Reading.control, opens_exact "select" hnamed, hoptions]
  | radioSelect choices =>
    have hradios : choices.zipIdx.flatMap (Reading.html.radio name value attrs) =
        choices.zipIdx.flatMap (Reading.exact.radio name value attrs) := List.flatMap_congr fun choice hchoice =>
      radio_exact hname hid choice (hchoices choice.1 (List.fst_mem_of_mem_zipIdx hchoice))
    rw [Reading.control, Reading.control, opens_exact "div" (cleanValues_attr hid), hradios]

section Layouts
variable {upper : Char → List Char} {field : BoundField} {fields : List BoundField} {errors : List (List Char)}

theorem errors_exact {cls : String} (hcls : CleanText cls.toList) (h : ∀ err ∈ errors, CleanText err) :
    Reading.html.errors cls errors = Reading.exact.errors cls errors := by
  have hitems : errors.flatMap (Reading.html.leaf "li" []) = errors.flatMap (Reading.exact.leaf "li" []) :=
    List.flatMap_congr fun err herr => leaf_exact "li" (fun a ha => absurd ha List.not_mem_nil) (h err herr)
  rw [Reading.errors, Reading.errors, opens_exact "ul" (cleanValues_attr hcls), hitems]

theorem field_exact (h : field.Clean upper) :
    Reading.html.errors "errorlist" field.errors = Reading.exact.errors "errorlist" field.errors ∧
    Reading.html.label upper field = Reading.exact.label upper field ∧
    Reading.html.body field = Reading.exact.body field := by
  have htexts := h.texts
  simp only [BoundField.texts, List.forall_mem_append, List.forall_mem_cons, List.forall_mem_map] at htexts
  obtain ⟨⟨⟨⟨⟨⟨hname, hid, hlabel, hhelp, -⟩, hvalue⟩, herrors⟩, hattrs⟩, hvalues⟩, hlabels⟩ := htexts
  have hcontrol := control_exact field.widget hname hvalue hid (List.forall_mem_map.mpr hattrs)
    (fun choice hchoice => ⟨hvalues choice hchoice, hlabels choice hchoice⟩) h.area
  refine ⟨errors_exact ⟨by decide, by decide⟩ herrors, leaf_exact "label" (cleanValues_attr hid) hlabel, ?_⟩
  rw [Reading.body, Reading.body, hcontrol, leaf_exact "span" (cleanValues_attr ⟨by decide, by decide⟩) hhelp]

theorem formErrors_exact {start start' stop : List Token} (hstart : start = start') (h : ∀ err ∈ errors, CleanText err) :
    Reading.html.formErrors start stop errors = Reading.exact.formErrors start' stop errors := by
  rw [Reading.formErrors, Reading.formErrors, errors_exact ⟨by decide, by decide⟩ h, hstart]

theorem block_exact (tag between : String) (h : field.Clean upper) :
    Reading.html.block upper field tag between = Reading.exact.block upper field tag between := by
  obtain ⟨herrors, hlabel, hbody⟩ := field_exact h
  rw [Reading.block, Reading.block, herrors, hlabel, hbody]
  rfl

theorem row_exact (h : field.Clean upper) : Reading.html.row upper field = Reading.exact.row upper field := by
  obtain ⟨herrors, hlabel, hbody⟩ := field_exact h
  rw [Reading.row, Reading.row, herrors, hlabel, hbody]
  rfl

end Layouts

/-- A form is read as its layout with the texts of its fields in their places, whatever they are. They are read as they were
    written when they have no carriage return and no null character, and no text area begins with a line feed. -/
theorem form_read_back (upper : Char → List Char) (fields : List BoundField) (errors : List (List Char))
    (hattrs : ∀ field ∈ fields, field.attrs.Named) :
    (tokens (asDiv upper fields errors) = some (Reading.html.asDiv upper fields errors) ∧
      tokens (asP upper fields errors) = some (Reading.html.asP upper fields errors) ∧
      tokens (asTable upper fields errors) = some (Reading.html.asTable upper fields errors)) ∧
    ((∀ field ∈ fields, field.Clean upper) → (∀ err ∈ errors, CleanText err) →
      tokens (asDiv upper fields errors) = some (Reading.exact.asDiv upper fields errors) ∧
      tokens (asP upper fields errors) = some (Reading.exact.asP upper fields errors) ∧
      tokens (asTable upper fields errors) = some (Reading.exact.asTable upper fields errors)) := by
  refine ⟨⟨tokens_asDiv hattrs, tokens_asP hattrs, tokens_asTable hattrs⟩, fun hfields herrors => ?_⟩
  have hblocks : ∀ tag between, (fields.flatMap fun field => Reading.html.block upper field tag between) =
      fields.flatMap fun field => Reading.exact.block upper field tag between := fun tag between =>
    List.flatMap_congr fun field hfield => block_exact tag between (hfields field hfield)
  have hrows : fields.flatMap (Reading.html.row upper) = fields.flatMap (Reading.exact.row upper) :=
    List.flatMap_congr fun field hfield => row_exact (hfields field hfield)
  rw [tokens_asDiv hattrs, tokens_asP hattrs, tokens_asTable hattrs, Reading.asDiv, Reading.asP, Reading.asTable, hblocks,
    hblocks, hrows, formErrors_exact rfl herrors, formErrors_exact rfl herrors]
  exact ⟨rfl, rfl, rfl⟩

end Exact

/-- A field whose texts are full of markup. -/
def searchField : BoundField where
  name := "q[0]".toList
  widget := .select [("\"><script>".toList, "<b>&amp;</b>".toList), ("a".toList, "'/'".toList)]
  value := some "\"><script>".toList
  errors := ["</li>".toList]
  attrs := .fromIter [("onClick".toList, "\" autofocus x=\"".toList), ("class".toList, "wide".toList)]

theorem searchField_read :
    tokens (asTable (fun c => [c.toUpper]) [searchField] []) =
      some (Reading.exact.asTable (fun c => [c.toUpper]) [searchField] []) := by
  have hattrs : searchField.attrs.Named := by unfold WidgetAttrs.Named; decide +kernel
  have hnamed : ∀ field ∈ [searchField], field.attrs.Named := List.forall_mem_singleton.mpr hattrs
  have hclean : ∀ field ∈ [searchField], field.Clean fun c => [c.toUpper] := List.forall_mem_singleton.mpr
    ⟨by unfold CleanText; decide +kernel, fun h => by cases h⟩
  exact ((form_read_back _ _ _ hnamed).2 hclean fun err herr => absurd herr List.not_mem_nil).2.2

/-! ### The skeleton of a form -/

/-- A tag without what is in it. -/
inductive Shape where
  | start (name : List Char) (keys : List (List Char))
  | stop (name : List Char)

def shape : Token → Option Shape
  | .text _ => none
  | .start name attributes => some (.start name (attributes.map (·.1)))
  | .stop name => some (.stop name)

/-- The tags of a text and the names of their attributes. -/
def skeleton (toks : List Token) : List Shape := toks.filterMap shape

/-- What of a control is in its tags: whether it shows a value, and which of its choices are chosen. -/
inductive Outline where
  | input (valued : Bool)
  | area
  | box (checked : Bool)
  | select (selected : List Bool)
  | radio (checked : List Bool)
  deriving DecidableEq

def Widget.outline (value : Option (List Char)) : Widget → Outline
  | .textarea => .area
  | .checkboxInput => .box (isChecked value)
  | .select choices => .select (choices.map fun choice => value == some choice.1)
  | .radioSelect choices => .radio (choices.map fun choice => value == some choice.1)
  | .passwordInput renderValue => .input (renderValue && value.isSome)
  | _ => .input value.isSome

/-- Fields that differ in their texts alone. -/
structure SameShape (field other : BoundField) : Prop where
  control : field.widget.outline field.value = other.widget.outline other.value
  name : field.name = [] ↔ other.name = []
  keys : field.attrs.map.map (·.1) = other.attrs.map.map (·.1)
  errors : field.errors.length = other.errors.length
  help : field.helpText.getD [] = [] ↔ other.helpText.getD [] = []

/-- The names of attributes as they are read, each once. -/
def addKey (keys : List (List Char)) (key : List Char) : List (List Char) :=
  if keys.contains (keyOf htmlEscapeChar key) then keys else keys ++ [keyOf htmlEscapeChar key]

def tagShape (tag : String) (keys : List (List Char)) : Shape := .start tag.toList (keys.foldl addKey [])

def stopShape (tag : String) : Shape := .stop tag.toList

def flagKeys (key : String) (present : Bool) : List (List Char) := if present then [key.toList] else []

/-- The skeleton of a control with the names of its other attributes. -/
def Outline.shapes (keys : List (List Char)) : Outline → List Shape
  | .input valued => [tagShape "input" (["type".toList, "name".toList] ++ flagKeys "value" valued ++ keys)]
  | .area => [tagShape "textarea" ("name".toList :: keys), stopShape "textarea"]
  | .box checked => [tagShape "input" (["type".toList, "name".toList] ++ flagKeys "checked" checked ++ keys)]
  | .select selected => tagShape "select" ("name".toList :: keys) ::
      (selected.flatMap (fun chosen => [tagShape "option" ("value".toList :: flagKeys "selected" chosen), stopShape "option"]) ++
        [stopShape "select"])
  | .radio checked => tagShape "div" ["id".toList] :: (checked.flatMap (fun chosen =>
      [tagShape "div" [], tagShape "label" ["for".toList],
        tagShape "input" (["type".toList, "name".toList, "value".toList, "id".toList] ++ flagKeys "checked" chosen),
        stopShape "label", stopShape "div"]) ++ [stopShape "div"])

section Skeletons
variable {R : Reading} {name name' : List Char} {value : Option (List Char)} {attrs attrs' : WidgetAttrs}
  {attributes : List Attribute} {toks toks' : List Token}

theorem skeleton_append : skeleton (toks ++ toks') = skeleton toks ++ skeleton toks' := List.filterMap_append

theorem skeleton_chars (text : List Char) : skeleton (chars text) = [] := by
  simp [skeleton, chars, shape, List.filterMap_eq_nil_iff]

theorem skeleton_flatMap {α : Type} {items : List α} {f : α → List Token} :
    skeleton (items.flatMap f) = items.flatMap fun a => skeleton (f a) := by
  induction items with
  | nil => rfl
  | cons a items ih => rw [List.flatMap_cons, skeleton_append, ih, List.flatMap_cons]

theorem keys_setAll (read : List Char → List Char) (tag : Tag) :
    (tag.setAll htmlEscapeChar read attributes).attributes.map (·.1) =
      (attributes.map (·.1)).foldl addKey (tag.attributes.map (·.1)) := by
  induction attributes generalizing tag with
  | nil => rfl
  | cons a attributes ih =>
    have hset : ∀ v, (tag.set (keyOf htmlEscapeChar a.1) v).attributes.map (·.1) =
        addKey (tag.attributes.map (·.1)) a.1 := fun v => by
      have hmem : (tag.attributes.lookup (keyOf htmlEscapeChar a.1)).isSome = true ↔
          keyOf htmlEscapeChar a.1 ∈ tag.attributes.map (·.1) := by
        rw [List.lookup_isSome_iff, List.mem_map]
        exact ⟨fun ⟨p, hp, heq⟩ => ⟨p, hp, (eq_of_beq heq).symm⟩, fun ⟨p, hp, heq⟩ => ⟨p, hp, beq_iff_eq.mpr heq.symm⟩⟩
      rw [addKey, Tag.set]
      by_cases h : (tag.attributes.lookup (keyOf htmlEscapeChar a.1)).isSome = true
      · rw [if_pos h, if_pos (List.contains_iff_mem.mpr (hmem.mp h))]
      · rw [if_neg h, if_neg fun hin => h (hmem.mpr (List.contains_iff_mem.mp hin)), List.map_append, List.map_singleton]
    rw [List.map_cons, List.foldl_cons, ← hset]
    exact ih _

theorem shape_opens (tag : String) : shape (R.opens tag attributes) = some (tagShape tag (attributes.map (·.1))) := by
  have hname : (Tag.setAll htmlEscapeChar R.value { name := tag.toList } attributes).name = tag.toList := setAll_name ..
  have hkeys := @keys_setAll attributes R.value { name := tag.toList }
  simp only [Reading.opens, Tag.token, shape, hname, hkeys, List.map_nil, tagShape]

theorem skeleton_opens (tag : String) :
    skeleton (R.opens tag attributes :: toks) = tagShape tag (attributes.map (·.1)) :: skeleton toks := by
  rw [skeleton, List.filterMap_cons, shape_opens]
  rfl

theorem skeleton_closes (tag : String) : skeleton (closes tag :: toks) = stopShape tag :: skeleton toks := rfl

theorem skeleton_text (c : Char) : skeleton (.text c :: toks) = skeleton toks := rfl

theorem skeleton_leaf (tag : String) (text : List Char) :
    skeleton (R.leaf tag attributes text) = [tagShape tag (attributes.map (·.1)), stopShape tag] := by
  rw [Reading.leaf, skeleton_opens, skeleton_append, skeleton_chars]
  rfl

theorem keys_flag (key : String) (present : Bool) : (flag key present).map (·.1) = flagKeys key present := by
  cases present <;> rfl

theorem keys_input (type : String) : (inputAttributes name value attrs type).map (·.1) =
    ["type".toList, "name".toList] ++ flagKeys "value" value.isSome ++ (widgetAttributes name attrs).map (·.1) := by
  cases value <;> simp [inputAttributes, attr, flagKeys]

/-- The skeleton of a control is that of its outline. -/
theorem skeleton_control (widget : Widget) : skeleton (R.control name value attrs widget) =
    (widget.outline value).shapes ((widgetAttributes name attrs).map (·.1)) := by
  cases widget with
  | textInput => rw [Reading.control, skeleton_opens, keys_input]; rfl
  | numberInput => rw [Reading.control, skeleton_opens, keys_input]; rfl
  | dateInput => rw [Reading.control, skeleton_opens, keys_input]; rfl
  | emailInput => rw [Reading.control, skeleton_opens, keys_input]; rfl
  | hiddenInput => rw [Reading.control, skeleton_opens, keys_input]; rfl
  | passwordInput renderValue =>
    rw [Reading.control, skeleton_opens, keys_input]
    cases renderValue <;> rfl
  | textarea =>
    rw [Reading.control, skeleton_opens, skeleton_append, skeleton_chars]
    rfl
  | checkboxInput =>
    rw [Reading.control, skeleton_opens, checkboxAttributes, List.map_append, List.map_append, keys_flag]
    rfl
  | select choices =>
    have hoption : ∀ choice, skeleton (R.leaf "option" (optionAttributes value choice) choice.2) =
        [tagShape "option" ("value".toList :: flagKeys "selected" (value == some choice.1)), stopShape "option"] :=
      fun choice => by
        rw [skeleton_leaf, optionAttributes, List.map_cons, keys_flag]
        rfl
    rw [Reading.control, skeleton_opens, skeleton_append, skeleton_flatMap, List.flatMap_congr fun choice _ => hoption choice,
      Widget.outline, Outline.shapes, List.flatMap_map]
    rfl
  | radioSelect choices =>
    have hradio : ∀ choice : (List Char × List Char) × Nat, skeleton (R.radio name value attrs choice) =
        [tagShape "div" [], tagShape "label" ["for".toList],
          tagShape "input" (["type".toList, "name".toList, "value".toList, "id".toList] ++
            flagKeys "checked" (value == some choice.1.1)), stopShape "label", stopShape "div"] := fun choice => by
      rw [Reading.radio, List.cons_append, List.cons_append, List.cons_append, List.nil_append, skeleton_opens, skeleton_opens,
        skeleton_opens, skeleton_text, skeleton_append, skeleton_chars, radioAttributes, List.map_append, keys_flag]
      rfl
    have hchoices : ∀ (f : List Char × List Char → List Shape) (n : Nat),
        (choices.zipIdx n).flatMap (fun choice => f choice.1) = choices.flatMap f := fun f n => by
      rw [← List.flatMap_map, List.zipIdx_map_fst]
    rw [Reading.control, skeleton_opens, skeleton_append, skeleton_flatMap, List.flatMap_congr fun choice _ => hradio choice,
      hchoices fun choice => [tagShape "div" [], tagShape "label" ["for".toList],
          tagShape "input" (["type".toList, "name".toList, "value".toList, "id".toList] ++
            flagKeys "checked" (value == some choice.1)), stopShape "label", stopShape "div"],
      Widget.outline, Outline.shapes, List.flatMap_map]
    rfl

theorem get_isNone : (attrs.get name).isNone = true ↔ name ∉ attrs.map.map (·.1) := by
  rw [WidgetAttrs.get, Option.isNone_iff_eq_none, List.lookup_eq_none_iff, List.mem_map]
  exact ⟨fun h ⟨p, hp, heq⟩ => absurd (h p hp) (by simp [heq]), fun h p hp => bne_iff_ne.mpr fun heq => h ⟨p, hp, heq.symm⟩⟩

theorem keys_widgetAttributes (hname : name = [] ↔ name' = []) (hkeys : attrs.map.map (·.1) = attrs'.map.map (·.1)) :
    (widgetAttributes name attrs).map (·.1) = (widgetAttributes name' attrs').map (·.1) := by
  have hentries : ∀ attrs : WidgetAttrs, (attrs.map.map fun entry => ((entry.1, some entry.2) : Attribute)).map (·.1) =
      attrs.map.map (·.1) := fun attrs => by simp
  have hid : ((attrs.get "id".toList).isNone = true ∧ name ≠ []) ↔ (attrs'.get "id".toList).isNone = true ∧ name' ≠ [] := by
    rw [get_isNone, get_isNone, hkeys, ne_eq, ne_eq, hname]
  rw [widgetAttributes, widgetAttributes, List.map_append, List.map_append, hentries, hentries, hkeys]
  congr 1
  by_cases h : (attrs.get "id".toList).isNone = true ∧ name ≠ []
  · rw [if_pos h, if_pos (hid.mp h)]
    rfl
  · rw [if_neg h, if_neg fun h' => h (hid.mpr h')]

/-! ### Fields of one shape -/

variable {upper : Char → List Char} {field other : BoundField} {errors errors' : List (List Char)}

theorem errors_congr (cls : String) (h : errors.length = errors'.length) :
    skeleton (R.errors cls errors) = skeleton (R.errors cls errors') := by
  have hitems : ∀ errors : List (List Char), skeleton (errors.flatMap (R.leaf "li" [])) =
      (List.replicate errors.length ()).flatMap fun _ => [tagShape "li" [], stopShape "li"] := fun errors => by
    rw [skeleton_flatMap, List.flatMap_congr fun err _ => skeleton_leaf "li" err, ← List.map_const', List.flatMap_map]
    rfl
  have hnil : errors = [] ↔ errors' = [] := by rw [← List.length_eq_zero_iff, h, List.length_eq_zero_iff]
  rw [Reading.errors, Reading.errors]
  by_cases hnone : errors = []
  · rw [if_pos hnone, if_pos (hnil.mp hnone)]
  · rw [if_neg hnone, if_neg fun h' => hnone (hnil.mpr h'), skeleton_opens, skeleton_opens, skeleton_append, skeleton_append,
      hitems, hitems, h]

theorem label_congr : skeleton (R.label upper field) = skeleton (R.label upper other) := by
  rw [Reading.label, Reading.label, skeleton_leaf, skeleton_leaf]
  rfl

theorem body_congr (h : SameShape field other) : skeleton (R.body field) = skeleton (R.body other) := by
  rw [Reading.body, Reading.body, skeleton_append, skeleton_append, skeleton_control, skeleton_control, h.control,
    keys_widgetAttributes h.name h.keys]
  congr 1
  by_cases hempty : field.helpText.getD [] = []
  · rw [if_pos hempty, if_pos (h.help.mp hempty)]
  · rw [if_neg hempty, if_neg fun h' => hempty (h.help.mpr h'), skeleton_text, skeleton_text, skeleton_leaf, skeleton_leaf]

theorem block_congr (tag between : String) (h : SameShape field other) :
    skeleton (R.block upper field tag between) = skeleton (R.block upper other tag between) := by
  rw [Reading.block, Reading.block, skeleton_opens, skeleton_opens]
  simp only [skeleton_append, errors_congr "errorlist" h.errors, body_congr h,
    @label_congr R upper field other]

theorem row_congr (h : SameShape field other) : skeleton (R.row upper field) = skeleton (R.row upper other) := by
  rw [Reading.row, Reading.row]
  simp only [skeleton_append, errors_congr "errorlist" h.errors, body_congr h,
    @label_congr R upper field other]

theorem formErrors_congr {start stop : List Token} (h : errors.length = errors'.length) :
    skeleton (R.formErrors start stop errors) = skeleton (R.formErrors start stop errors') := by
  have hnil : errors = [] ↔ errors' = [] := by rw [← List.length_eq_zero_iff, h, List.length_eq_zero_iff]
  rw [Reading.formErrors, Reading.formErrors]
  by_cases hnone : errors = []
  · rw [if_pos hnone, if_pos (hnil.mp hnone)]
  · rw [if_neg hnone, if_neg fun h' => hnone (hnil.mpr h')]
    simp only [skeleton_append, errors_congr _ h]

theorem fields_congr {fields others : List BoundField} {read : BoundField → List Token}
    (hread : ∀ field other, SameShape field other → skeleton (read field) = skeleton (read other))
    (h : List.Forall₂ SameShape fields others) : skeleton (fields.flatMap read) = skeleton (others.flatMap read) := by
  induction h with
  | nil => rfl
  | cons hfield _ ih =>
    rw [List.flatMap_cons, List.flatMap_cons, skeleton_append, skeleton_append, hread _ _ hfield, ih]

end Skeletons

/-- Forms that differ in their texts alone have the same tags with the same attributes. No text opens or closes a tag, and none
    adds an attribute. -/
theorem form_skeleton (upper : Char → List Char) {fields others : List BoundField} {errors errors' : List (List Char)}
    (hattrs : ∀ field ∈ fields, field.attrs.Named) (hattrs' : ∀ field ∈ others, field.attrs.Named)
    (hfields : List.Forall₂ SameShape fields others) (herrors : errors.length = errors'.length) :
    (∃ toks toks', tokens (asDiv upper fields errors) = some toks ∧ tokens (asDiv upper others errors') = some toks' ∧
      skeleton toks = skeleton toks') ∧
    (∃ toks toks', tokens (asP upper fields errors) = some toks ∧ tokens (asP upper others errors') = some toks' ∧
      skeleton toks = skeleton toks') ∧
    ∃ toks toks', tokens (asTable upper fields errors) = some toks ∧ tokens (asTable upper others errors') = some toks' ∧
      skeleton toks = skeleton toks' := by
  refine ⟨⟨_, _, tokens_asDiv hattrs, tokens_asDiv hattrs', ?_⟩, ⟨_, _, tokens_asP hattrs, tokens_asP hattrs', ?_⟩,
    ⟨_, _, tokens_asTable hattrs, tokens_asTable hattrs', ?_⟩⟩
  · rw [Reading.asDiv, Reading.asDiv, skeleton_append, skeleton_append, formErrors_congr herrors,
      fields_congr (fun field other h => block_congr "div" " " h) hfields]
  · rw [Reading.asP, Reading.asP, skeleton_append, skeleton_append, formErrors_congr herrors,
      fields_congr (fun field other h => block_congr "p" ": " h) hfields]
  · rw [Reading.asTable, Reading.asTable, skeleton_append, skeleton_append, formErrors_congr herrors,
      fields_congr (fun field other h => row_congr h) hfields]

/-- A field with the choices of the other at the same places. -/
def sortField : BoundField where
  name := "n".toList
  widget := .select [("1".toList, []), ("2".toList, "two".toList)]
  value := some "1".toList
  errors := [[]]
  attrs := searchField.attrs

theorem searchField_skeleton : ∃ toks toks',
    tokens (asP (fun c => [c.toUpper]) [searchField] []) = some toks ∧
    tokens (asP (fun c => [c.toUpper]) [sortField] []) = some toks' ∧ skeleton toks = skeleton toks' := by
  have hnamed : searchField.attrs.Named := by unfold WidgetAttrs.Named; decide +kernel
  have hsame : SameShape searchField sortField := {
    control := by decide
    name := by decide
    keys := rfl
    errors := rfl
    help := by decide }
  have hfields : List.Forall₂ SameShape [searchField] [sortField] := .cons hsame .nil
  have hall : ∀ field ∈ [searchField], field.attrs.Named := List.forall_mem_singleton.mpr hnamed
  have hothers : ∀ field ∈ [sortField], field.attrs.Named := List.forall_mem_singleton.mpr hnamed
  exact (@form_skeleton (fun c => [c.toUpper]) [searchField] [sortField] [] [] hall hothers hfields rfl).2.1

end Djangors.Forms
