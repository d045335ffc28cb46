import Mathlib
import Djangors.Lib.Markup

/-! # XML documents

A reader of documents: ends of lines, character data, references, tags and attributes. Comments, CDATA sections, processing
instructions and document types are not read here, nor are names of other than ASCII characters. -/

namespace Xml
open Markup (lineEnds lineEnds_eq_self number?)

/-- The characters that a document may have. -/
abbrev IsLegal (c : Char) : Prop :=
  c = '\t' ∨ c = '\n' ∨ c = '\r' ∨ (0x20 ≤ c.toNat ∧ c.toNat ≠ 0xfffe ∧ c.toNat ≠ 0xffff)

def isSpace (c : Char) : Bool := c == ' ' || c == '\t' || c == '\n' || c == '\r'

def isNameStart (c : Char) : Bool := c.isAlpha || c == '_' || c == ':'

def isNameChar (c : Char) : Bool := isNameStart c || c.isDigit || c == '-' || c == '.'

inductive Node where
  | text (content : List Char)
  | element (name : List Char) (attributes : List (List Char × List Char)) (children : List Node)

/-! ### References -/

/-- The character with a number. -/
def charOf (n : Nat) : Option Char := if n.isValidChar ∧ IsLegal (Char.ofNat n) then some (Char.ofNat n) else none

/-- The character that stands for what is between `&` and `;`. -/
def reference : List Char → Option Char
  | ['a', 'm', 'p'] => some '&'
  | ['l', 't'] => some '<'
  | ['g', 't'] => some '>'
  | ['q', 'u', 'o', 't'] => some '"'
  | ['a', 'p', 'o', 's'] => some '\''
  | '#' :: 'x' :: digits => (number? 16 digits).bind charOf
  | '#' :: digits => (number? 10 digits).bind charOf
  | _ => none

/-! ### Reading -/

/-- An element, or its tag, that is not at its end. -/
structure Open where
  name : List Char
  attributes : List (List Char × List Char) := []
  children : List Node := []

def Open.node (tag : Open) : Node := .element tag.name tag.attributes tag.children

def Open.add (tag : Open) (nodes : List Node) : Open := { tag with children := tag.children ++ nodes }

/-- Where a document has been read to. -/
inductive Mode where
  | content (text : List Char)
  | contentRef (text ref : List Char)
  | tag
  | startName (name : List Char)
  | inside (tag : Open) (spaced : Bool)
  | key (tag : Open) (key : List Char)
  | equals (tag : Open) (key : List Char)
  | value (tag : Open) (key : List Char) (quote : Char) (text : List Char)
  | valueRef (tag : Open) (key : List Char) (quote : Char) (text ref : List Char)
  | empty (tag : Open)
  | endName (name : List Char)

structure Reader where
  stack : List Open
  root : Option Node
  mode : Mode

/-- The text in front of a tag. -/
def textNodes (text : List Char) : List Node := if text = [] then [] else [.text text]

def addTop (stack : List Open) (nodes : List Node) : List Open :=
  match stack with
  | [] => []
  | tag :: stack => tag.add nodes :: stack

/-- An element that has been read. There is one that no other contains. -/
def put (stack : List Open) (root : Option Node) (node : Node) : Option Reader :=
  match stack, root with
  | [], some _ => none
  | [], none => some ⟨[], some node, .content []⟩
  | tag :: stack, root => some ⟨tag.add [node] :: stack, root, .content []⟩

/-- A character of a document. -/
def advance (r : Reader) (c : Char) : Option Reader :=
  match r.mode with
  | .content text =>
    if c = '<' then some ⟨addTop r.stack (textNodes text), r.root, .tag⟩
    else if c = '>' then none
    else if r.stack.isEmpty then if isSpace c then some r else none
    else some { r with mode := if c = '&' then .contentRef text [] else .content (text ++ [c]) }
  | .contentRef text ref =>
    if c = ';' then (reference ref).map fun d => { r with mode := .content (text ++ [d]) }
    else some { r with mode := .contentRef text (ref ++ [c]) }
  | .tag =>
    if c = '/' then some { r with mode := .endName [] }
    else if isNameStart c then some { r with mode := .startName [c] }
    else none
  | .startName name =>
    if isNameChar c then some { r with mode := .startName (name ++ [c]) }
    else if isSpace c then some { r with mode := .inside { name } true }
    else if c = '>' then some ⟨{ name } :: r.stack, r.root, .content []⟩
    else if c = '/' then some { r with mode := .empty { name } }
    else none
  | .inside tag spaced =>
    if isSpace c then some { r with mode := .inside tag true }
    else if c = '>' then some ⟨tag :: r.stack, r.root, .content []⟩
    else if c = '/' then some { r with mode := .empty tag }
    else if isNameStart c && spaced then some { r with mode := .key tag [c] }
    else none
  | .key tag key =>
    if isNameChar c then some { r with mode := .key tag (key ++ [c]) }
    else if c = '=' then some { r with mode := .equals tag key }
    else none
  | .equals tag key => if c = '"' ∨ c = '\'' then some { r with mode := .value tag key c [] } else none
  | .value tag key quote text =>
    if c = quote then
      if (tag.attributes.lookup key).isSome then none
      else some { r with mode := .inside { tag with attributes := tag.attributes ++ [(key, text)] } false }
    else if c = '<' then none
    else if c = '&' then some { r with mode := .valueRef tag key quote text [] }
    else some { r with mode := .value tag key quote (text ++ [if isSpace c then ' ' else c]) }
  | .valueRef tag key quote text ref =>
    if c = ';' then (reference ref).map fun d => { r with mode := .value tag key quote (text ++ [d]) }
    else some { r with mode := .valueRef tag key quote text (ref ++ [c]) }
  | .empty tag => if c = '>' then put r.stack r.root tag.node else none
  | .endName name =>
    if isNameChar c then some { r with mode := .endName (name ++ [c]) }
    else if c = '>' then
      match r.stack with
      | [] => none
      | tag :: stack => if tag.name = name then put stack r.root tag.node else none
    else none

abbrev State := Reader × Bool

def step (s : State) (c : Char) : Option State := Markup.step advance (fun c => decide (IsLegal c)) s c

def run (s : State) (text : List Char) : Option State := Markup.run advance (fun c => decide (IsLegal c)) s text

def start : State := (⟨[], none, .content []⟩, false)

def finish (s : State) : Option Node :=
  match s.1 with
  | ⟨[], root, .content []⟩ => root
  | _ => none

def declaration : List Char := "<?xml version=\"1.0\" encoding=\"UTF-8\"?>".toList

/-- The element of a document that begins with a declaration. -/
def parse (doc : List Char) : Option Node :=
  if declaration <+: doc then (run start (doc.drop declaration.length)).bind finish else none

theorem run_append {s : State} {a b : List Char} : run s (a ++ b) = (run s a).bind fun s => run s b := Markup.run_append

theorem run_cons {s : State} {c : Char} {text : List Char} : run s (c :: text) = (step s c).bind fun s => run s text :=
  Markup.run_cons

/-- The characters that are no end of a line. -/
abbrev IsPlain (c : Char) : Prop := IsLegal c ∧ c ≠ '\r' ∧ c ≠ '\n'

theorem step_plain {r : Reader} {c : Char} {returned : Bool} (h : IsPlain c) :
    step (r, returned) c = (advance r c).map (·, false) := Markup.step_plain (decide_eq_true h.1) h.2.1 h.2.2

/-! ### Escaped text -/

/-- The text that stands for a character where markup is read. -/
def escapeChar (c : Char) : List Char :=
  if c = '&' then "&amp;".toList
  else if c = '<' then "&lt;".toList
  else if c = '>' then "&gt;".toList
  else if c = '"' then "&quot;".toList
  else if c = '\'' then "&#x27;".toList
  else [c]

def escape (text : List Char) : List Char := text.flatMap escapeChar

section Escaped
variable {stack : List Open} {root : Option Node} {tag : Open} {text written : List Char} {c : Char} {returned : Bool}

theorem mem_escape (h : c ∈ text) (hlegal : ¬IsLegal c) : c ∈ escape text := by
  refine List.mem_flatMap.mpr ⟨c, h, ?_⟩
  have hmarkup : ∀ d, IsLegal d → c ≠ d := fun d hd heq => hlegal (heq ▸ hd)
  rw [escapeChar, if_neg (hmarkup _ (by decide)), if_neg (hmarkup _ (by decide)), if_neg (hmarkup _ (by decide)),
    if_neg (hmarkup _ (by decide)), if_neg (hmarkup _ (by decide))]
  exact List.mem_singleton_self c

/-- A character that is written as a reference. -/
def IsMarkup (c : Char) : Prop := c = '&' ∨ c = '<' ∨ c = '>' ∨ c = '"' ∨ c = '\''

theorem escapeChar_of_not (h : ¬IsMarkup c) : escapeChar c = [c] := by
  simp only [IsMarkup, not_or] at h
  obtain ⟨hamp, hlt, hgt, hquot, hapos⟩ := h
  rw [escapeChar, if_neg hamp, if_neg hlt, if_neg hgt, if_neg hquot, if_neg hapos]

theorem escapeChar_ne (h : escapeChar c ≠ [c]) : IsMarkup c := by
  by_contra hm
  exact h (escapeChar_of_not hm)

theorem not_isMarkup (h : escapeChar c = [c]) : ¬IsMarkup c := by
  rintro (rfl | rfl | rfl | rfl | rfl) <;> exact absurd h (by decide)

theorem content_plain (h : ¬IsMarkup c) : advance ⟨tag :: stack, root, .content text⟩ c =
    some ⟨tag :: stack, root, .content (text ++ [c])⟩ := by
  simp only [IsMarkup, not_or] at h
  simp [advance, h]

theorem content_markup (h : IsMarkup c) : c ≠ '\r' ∧ c ≠ '\n' ∧
    run (⟨tag :: stack, root, .content text⟩, returned) (escapeChar c) =
      some (⟨tag :: stack, root, .content (text ++ [c])⟩, false) := by
  rcases h with rfl | rfl | rfl | rfl | rfl <;> exact ⟨by decide, by decide, rfl⟩

/-- The content of an element. -/
theorem run_content (hlegal : ∀ c ∈ written, IsLegal c) : ∃ after,
    run (⟨tag :: stack, root, .content text⟩, returned) (escape written) =
      some (⟨tag :: stack, root, .content (text ++ lineEnds returned written)⟩, after) := by
  obtain ⟨after, h⟩ := Markup.run_escape (fun text => (⟨tag :: stack, root, .content text⟩ : Reader)) id
    (fun text c hc _ => content_plain (not_isMarkup hc)) (fun text returned c hc => content_markup (escapeChar_ne hc)) rfl
    fun c hc => decide_eq_true (hlegal c hc)
  rw [List.map_id] at h
  exact ⟨after, h⟩

/-- How a character is read in a value. -/
def spaced (c : Char) : Char := if isSpace c then ' ' else c

/-- The value of an attribute. White space is a space in it. -/
def valueOf (text : List Char) : List Char := (lineEnds false text).map spaced

theorem value_plain {r : Reader} {key : List Char} (h : ¬IsMarkup c) :
    advance { r with mode := .value tag key '"' text } c = some { r with mode := .value tag key '"' (text ++ [spaced c]) } := by
  simp only [IsMarkup, not_or] at h
  simp [advance, h, spaced]

theorem value_markup {r : Reader} {key : List Char} (h : IsMarkup c) : c ≠ '\r' ∧ c ≠ '\n' ∧
    run ({ r with mode := .value tag key '"' text }, returned) (escapeChar c) =
      some ({ r with mode := .value tag key '"' (text ++ [spaced c]) }, false) := by
  rcases h with rfl | rfl | rfl | rfl | rfl <;> exact ⟨by decide, by decide, rfl⟩

theorem run_value (r : Reader) (tag : Open) (key : List Char) (hlegal : ∀ c ∈ written, IsLegal c) : ∃ after,
    run ({ r with mode := .value tag key '"' [] }, false) (escape written) =
      some ({ r with mode := .value tag key '"' (valueOf written) }, after) := by
  obtain ⟨after, h⟩ := Markup.run_escape (fun text => ({ r with mode := .value tag key '"' text } : Reader)) spaced
    (fun text c hc _ => @value_plain tag text c r key (not_isMarkup hc))
    (fun text returned c hc => @value_markup tag text c returned r key (escapeChar_ne hc)) rfl
    fun c hc => decide_eq_true (hlegal c hc)
  exact ⟨after, h⟩

theorem valueOf_eq_self : valueOf text = text ↔ '\r' ∉ text ∧ '\n' ∉ text ∧ '\t' ∉ text := by
  constructor
  · intro h
    have hspace : ∀ c ∈ text, isSpace c = true → c = ' ' := fun c hc hsp => by
      rw [← h, valueOf] at hc
      obtain ⟨d, -, rfl⟩ := List.mem_map.mp hc
      rw [spaced] at hsp ⊢
      by_cases hd : isSpace d = true
      · rw [if_pos hd]
      · rw [if_neg hd] at hsp
        exact absurd hsp hd
    exact ⟨fun hc => absurd (hspace _ hc rfl) (by decide), fun hc => absurd (hspace _ hc rfl) (by decide),
      fun hc => absurd (hspace _ hc rfl) (by decide)⟩
  · rintro ⟨hcr, hlf, htab⟩
    rw [valueOf, lineEnds_eq_self.mpr hcr]
    refine (List.map_congr_left fun c hc => ?_).trans (List.map_id text)
    have hspace : isSpace c = true → c = ' ' := fun h => by
      simp only [isSpace, Bool.or_eq_true, beq_iff_eq] at h
      rcases h with ((rfl | rfl) | rfl) | rfl
      · rfl
      · exact absurd hc htab
      · exact absurd hc hlf
      · exact absurd hc hcr
    rw [spaced]
    split
    · rename_i h
      exact (hspace h).symm
    · rfl

end Escaped

/-! ### Tags -/

def isNameText : List Char → Bool
  | [] => false
  | c :: name => isNameStart c && name.all isNameChar

def startTag (name : List Char) : List Char := '<' :: name ++ ['>']

def endTag (name : List Char) : List Char := '<' :: '/' :: name ++ ['>']

def attributeText (key value : List Char) : List Char := ' ' :: key ++ '=' :: '"' :: escape value ++ ['"']

section Tags
variable {r : Reader} {stack : List Open} {root : Option Node} {tag : Open} {name key value text : List Char} {c : Char}
  {returned : Bool}

theorem isPlain_of_isNameChar (h : isNameChar c = true) : IsPlain c := by
  have hbound : 0x2d ≤ c.toNat ∧ c.toNat ≤ 0x7a := by
    simp only [isNameChar, isNameStart, Char.isAlpha, Char.isUpper, Char.isLower, Char.isDigit, Bool.or_eq_true,
      Bool.and_eq_true, decide_eq_true_eq, beq_iff_eq, ge_iff_le, UInt32.le_iff_toNat_le] at h
    have hval : c.val.toNat = c.toNat := rfl
    rcases h with ((((((⟨h, h'⟩ | ⟨h, h'⟩) | rfl) | rfl) | ⟨h, h'⟩) | rfl) | rfl)
    all_goals first | decide | (simp at h h'; omega)
  refine ⟨.inr (.inr (.inr ⟨by omega, by omega, by omega⟩)), fun heq => ?_, fun heq => ?_⟩
  · subst heq
    exact absurd hbound.1 (by decide)
  · subst heq
    exact absurd hbound.1 (by decide)

theorem isPlain_of_isNameText (h : isNameText name = true) : ∀ c ∈ name, isNameChar c = true ∧ IsPlain c := by
  cases name with
  | nil => exact fun c hc => absurd hc List.not_mem_nil
  | cons c name =>
    rw [isNameText, Bool.and_eq_true, List.all_eq_true] at h
    have hfirst : isNameChar c = true := by simp [isNameChar, h.1]
    have hall : ∀ d ∈ c :: name, isNameChar d = true := List.forall_mem_cons.mpr ⟨hfirst, h.2⟩
    exact fun d hd => ⟨hall d hd, isPlain_of_isNameChar (hall d hd)⟩

theorem run_name (read : List Char → Reader)
    (hread : ∀ text c, isNameChar c = true → advance (read text) c = some (read (text ++ [c])))
    (h : ∀ c ∈ name, isNameChar c = true) : run (read text, false) name = some (read (text ++ name), false) := by
  have hrun := @Markup.run_name _ _ _ text read id _ _
    (fun c hc => ⟨decide_eq_true (isPlain_of_isNameChar hc).1, (isPlain_of_isNameChar hc).2⟩) hread h
  rwa [List.map_id] at hrun

theorem step_lt : step (⟨stack, root, .content text⟩, returned) '<' =
    some (⟨addTop stack (textNodes text), root, .tag⟩, false) := rfl

theorem run_startName (h : isNameText name = true) :
    run (⟨stack, root, .content text⟩, returned) ('<' :: name) =
      some (⟨addTop stack (textNodes text), root, .startName name⟩, false) := by
  cases name with
  | nil => cases h
  | cons c name =>
    have hplain := (isPlain_of_isNameText h c (List.mem_cons_self ..)).2
    have hrest : ∀ d ∈ name, isNameChar d = true := fun d hd => (isPlain_of_isNameText h d (List.mem_cons_of_mem _ hd)).1
    rw [isNameText, Bool.and_eq_true] at h
    have hslash : c ≠ '/' := fun heq => by
      rw [heq] at h
      exact absurd h.1 (by decide)
    have hfirst : advance ⟨addTop stack (textNodes text), root, .tag⟩ c =
        some ⟨addTop stack (textNodes text), root, .startName [c]⟩ := by simp [advance, hslash, h.1]
    rw [run_cons, step_lt, Option.bind_some, run_cons, step_plain hplain, hfirst]
    exact run_name (fun name => ⟨addTop stack (textNodes text), root, .startName name⟩)
      (fun text c hc => by simp [advance, hc]) hrest

theorem run_startTag (h : isNameText name = true) :
    run (⟨stack, root, .content text⟩, returned) (startTag name) =
      some (⟨{ name } :: addTop stack (textNodes text), root, .content []⟩, false) := by
  rw [startTag, run_append, run_startName h]
  rfl

theorem run_endTag (tag : Open) (h : isNameText tag.name = true) :
    run (⟨tag :: stack, root, .content text⟩, returned) (endTag tag.name) =
      (put stack root (tag.add (textNodes text)).node).map (·, false) := by
  have hname : run (⟨addTop (tag :: stack) (textNodes text), root, .endName []⟩, false) tag.name =
      some (⟨addTop (tag :: stack) (textNodes text), root, .endName ([] ++ tag.name)⟩, false) :=
    run_name (fun name => ⟨addTop (tag :: stack) (textNodes text), root, .endName name⟩)
      (fun text c hc => by simp [advance, hc]) fun c hc => (isPlain_of_isNameText h c hc).1
  have hend : step (⟨addTop (tag :: stack) (textNodes text), root, .endName tag.name⟩, false) '>' =
      (put stack root (tag.add (textNodes text)).node).map (·, false) := by
    rw [step_plain (by decide)]
    have hgt : isNameChar '>' = false := by decide
    simp [advance, hgt, addTop, Open.add]
  have hslash : step (⟨addTop (tag :: stack) (textNodes text), root, .tag⟩, false) '/' =
      some (⟨addTop (tag :: stack) (textNodes text), root, .endName []⟩, false) := rfl
  rw [List.nil_append] at hname
  rw [endTag, run_append, run_cons, step_lt, Option.bind_some, run_cons, hslash, Option.bind_some, hname, Option.bind_some,
    run_cons, hend]
  cases put stack root (tag.add (textNodes text)).node <;> rfl

/-- An attribute with its value escaped. -/
theorem run_attribute (r : Reader) (tag : Open) (hspace : advance r ' ' = some ⟨stack, root, .inside tag true⟩)
    (hkey : isNameText key = true) (hnew : tag.attributes.lookup key = none) (hlegal : ∀ c ∈ value, IsLegal c) :
    run (r, false) (attributeText key value) =
      some (⟨stack, root, .inside { tag with attributes := tag.attributes ++ [(key, valueOf value)] } false⟩, false) := by
  cases key with
  | nil => cases hkey
  | cons c key =>
    have hplain := (isPlain_of_isNameText hkey c (List.mem_cons_self ..)).2
    have hrest : ∀ d ∈ key, isNameChar d = true := fun d hd => (isPlain_of_isNameText hkey d (List.mem_cons_of_mem _ hd)).1
    rw [isNameText, Bool.and_eq_true] at hkey
    have hnot : ∀ d, isNameStart d = false → c ≠ d := fun d hd heq => by
      rw [heq, hd] at hkey
      exact absurd hkey.1 Bool.false_ne_true
    have hspaced : isSpace c = false := by
      simp [isSpace, hnot ' ' rfl, hnot '\t' rfl, hnot '\n' rfl, hnot '\r' rfl]
    have hfirst : advance ⟨stack, root, .inside tag true⟩ c = some ⟨stack, root, .key tag [c]⟩ := by
      simp [advance, hspaced, hnot '>' rfl, hnot '/' rfl, hkey.1]
    have hname : run (⟨stack, root, .key tag [c]⟩, false) key = some (⟨stack, root, .key tag ([c] ++ key)⟩, false) :=
      run_name (fun key => ⟨stack, root, .key tag key⟩) (fun text c hc => by simp [advance, hc]) hrest
    obtain ⟨after, hvalue⟩ := run_value ⟨stack, root, .equals tag (c :: key)⟩ tag (c :: key) hlegal
    have hend : step (⟨stack, root, .value tag (c :: key) '"' (valueOf value)⟩, after) '"' =
        some (⟨stack, root, .inside { tag with attributes := tag.attributes ++ [(c :: key, valueOf value)] } false⟩, false) := by
      rw [step_plain (by decide)]
      simp [advance, hnew]
    have hquote : run (⟨stack, root, .key tag (c :: key)⟩, false) ['=', '"'] =
        some (⟨stack, root, .value tag (c :: key) '"' []⟩, false) := rfl
    have hsplit : attributeText (c :: key) value = ' ' :: c :: key ++ (['=', '"'] ++ (escape value ++ ['"'])) := by
      simp [attributeText]
    rw [hsplit, List.cons_append, List.cons_append, run_cons, step_plain (by decide), hspace, Option.map_some,
      Option.bind_some, run_cons, step_plain hplain, hfirst, Option.map_some, Option.bind_some, run_append, hname,
      Option.bind_some, run_append]
    rw [List.singleton_append, hquote, Option.bind_some, run_append, hvalue, Option.bind_some, run_cons, hend]
    rfl

end Tags

/-! ### Elements -/

/-- A text that adds nodes to the element around it. -/
def Puts (text : List Char) (nodes : List Node) : Prop := ∀ tag stack root,
  run (⟨tag :: stack, root, .content []⟩, false) text = some (⟨tag.add nodes :: stack, root, .content []⟩, false)

/-- An element with a text alone. -/
def leaf (name text : List Char) : List Char := startTag name ++ escape text ++ endTag name

/-- An element with an attribute and nothing else. -/
def emptyLeaf (name key value : List Char) : List Char := '<' :: name ++ attributeText key value ++ ['/', '>']

def wrap (name content : List Char) : List Char := startTag name ++ content ++ endTag name

section Elements
variable {name key value text content : List Char} {nodes : List Node}

@[simp] theorem Open.add_nil (tag : Open) : tag.add [] = tag := by simp [Open.add]

theorem Puts.nil : Puts [] [] := fun tag stack root => by rw [Open.add_nil]; rfl

theorem Puts.append {text' : List Char} {nodes' : List Node} (h : Puts text nodes) (h' : Puts text' nodes') :
    Puts (text ++ text') (nodes ++ nodes') := fun tag stack root => by
  rw [run_append, h, Option.bind_some, h', Open.add, Open.add, Open.add, List.append_assoc]

theorem Puts.flatMap {α : Type} {items : List α} {write : α → List Char} {read : α → List Node}
    (h : ∀ a ∈ items, Puts (write a) (read a)) : Puts (items.flatMap write) (items.flatMap read) := by
  induction items with
  | nil => exact .nil
  | cons a items ih =>
    obtain ⟨ha, hitems⟩ := List.forall_mem_cons.mp h
    exact ha.append (ih hitems)

theorem Puts.map {α : Type} {items : List α} {write : α → List Char} {read : α → Node}
    (h : ∀ a ∈ items, Puts (write a) [read a]) : Puts (items.flatMap write) (items.map read) := by
  rw [List.map_eq_flatMap]
  exact .flatMap h

theorem puts_leaf (hname : isNameText name = true) (hlegal : ∀ c ∈ text, IsLegal c) :
    Puts (leaf name text) [.element name [] (textNodes (lineEnds false text))] := fun tag stack root => by
  obtain ⟨after, hcontent⟩ : ∃ after, run (⟨{ name } :: tag :: stack, root, .content []⟩, false) (escape text) =
      some (⟨{ name } :: tag :: stack, root, .content ([] ++ lineEnds false text)⟩, after) := run_content hlegal
  rw [leaf, List.append_assoc, run_append, run_startTag hname, Option.bind_some, run_append]
  change ((run (⟨{ name } :: tag.add [] :: stack, root, .content []⟩, false) (escape text)).bind _) = _
  rw [Open.add_nil, hcontent, Option.bind_some]
  exact run_endTag { name } hname

theorem puts_wrap (name : List Char) (hname : isNameText name = true) (h : Puts content nodes) :
    Puts (wrap name content) [.element name [] nodes] := fun tag stack root => by
  rw [wrap, List.append_assoc, run_append, run_startTag hname, Option.bind_some, run_append]
  change ((run (⟨{ name } :: tag.add [] :: stack, root, .content []⟩, false) content).bind _) = _
  rw [Open.add_nil, h, Option.bind_some]
  have hend : run (⟨Open.add { name } nodes :: tag :: stack, root, .content []⟩, false) (endTag name) =
      (put (tag :: stack) root ((Open.add { name } nodes).add (textNodes [])).node).map (·, false) :=
    run_endTag (Open.add { name } nodes) hname
  rwa [textNodes, if_pos rfl, Open.add_nil] at hend

theorem puts_emptyLeaf (hname : isNameText name = true) (hkey : isNameText key = true) (hlegal : ∀ c ∈ value, IsLegal c) :
    Puts (emptyLeaf name key value) [.element name [(key, valueOf value)] []] := fun tag stack root => by
  rw [emptyLeaf, List.append_assoc, run_append, run_startName hname, Option.bind_some, run_append,
    run_attribute ⟨addTop (tag :: stack) (textNodes []), root, .startName name⟩ { name } rfl hkey rfl hlegal,
    Option.bind_some]
  change some ((⟨(tag.add (textNodes [])).add _ :: stack, root, .content []⟩ : Reader), false) = _
  rw [textNodes, if_pos rfl, Open.add_nil]
  rfl

/-- A document of one element with an attribute. -/
def document (space name key value content : List Char) : List Char :=
  declaration ++ (space ++ ('<' :: name ++ attributeText key value ++ ['>'] ++ content ++ endTag name))

theorem parse_document (space name key value : List Char) (hspace : ∀ c ∈ space, c = '\n') (hname : isNameText name = true)
    (hkey : isNameText key = true) (hlegal : ∀ c ∈ value, IsLegal c) (h : Puts content nodes) :
    parse (document space name key value content) = some (.element name [(key, valueOf value)] nodes) := by
  have hstart : run start space = some start := by
    clear h
    induction space with
    | nil => rfl
    | cons c space ih =>
      obtain ⟨rfl, hrest⟩ := List.forall_mem_cons.mp hspace
      exact ih hrest
  have hend : run (⟨[Open.add { name, attributes := [(key, valueOf value)] } nodes], none, .content []⟩, false) (endTag name) =
      (put [] none ((Open.add { name, attributes := [(key, valueOf value)] } nodes).add (textNodes [])).node).map (·, false) :=
    run_endTag (Open.add { name, attributes := [(key, valueOf value)] } nodes) hname
  rw [textNodes, if_pos rfl, Open.add_nil] at hend
  rw [document, parse, if_pos (List.prefix_append ..), List.drop_left, run_append, hstart, Option.bind_some, List.append_assoc,
    List.append_assoc, List.append_assoc, run_append, start, run_startName hname, Option.bind_some, run_append,
    run_attribute ⟨addTop [] (textNodes []), none, .startName name⟩ { name } rfl hkey rfl hlegal,
    Option.bind_some, run_append]
  change Option.bind (run (⟨[{ name, attributes := [(key, valueOf value)] }], none, .content []⟩, false)
    (content ++ endTag name)) finish = _
  rw [run_append, h, Option.bind_some]
  exact congrArg (·.bind finish) hend

/-- What is read has no character but those of a document. -/
theorem legal_of_parse {doc : List Char} {node : Node} (h : parse doc = some node) : ∀ c ∈ doc, IsLegal c := by
  rw [parse] at h
  split at h
  · rename_i hdeclaration
    obtain ⟨body, rfl⟩ := hdeclaration
    rw [List.drop_left] at h
    obtain ⟨s, hrun, -⟩ := Option.bind_eq_some_iff.mp h
    have hdeclared : declaration.all (fun c => decide (IsLegal c)) = true := by decide +kernel
    intro c hc
    rcases List.mem_append.mp hc with hc | hc
    · exact decide_eq_true_eq.mp (List.all_eq_true.mp hdeclared c hc)
    · exact decide_eq_true_eq.mp (Markup.legal_of_run hrun c hc)
  · cases h

theorem textNodes_inj {text' : List Char} : textNodes text = textNodes text' ↔ text = text' := by
  by_cases h : text = [] <;> by_cases h' : text' = [] <;> simp [textNodes, h, h', eq_comm]

theorem mem_leaf {c : Char} (h : c ∈ text) (hc : ¬IsLegal c) : c ∈ leaf name text :=
  List.mem_append_left _ (List.mem_append_right _ (mem_escape h hc))

theorem mem_wrap {c : Char} (h : c ∈ content) : c ∈ wrap name content :=
  List.mem_append_left _ (List.mem_append_right _ h)

theorem mem_emptyLeaf {c : Char} (h : c ∈ value) (hc : ¬IsLegal c) : c ∈ emptyLeaf name key value :=
  List.mem_append_left _ (List.mem_append_right _ (List.mem_append_left _ (List.mem_append_right _
    (List.mem_cons_of_mem _ (List.mem_cons_of_mem _ (mem_escape h hc))))))

theorem mem_document {space : List Char} {c : Char} (h : c ∈ content) : c ∈ document space name key value content :=
  List.mem_append_right _ (List.mem_append_right _ (List.mem_append_left _ (List.mem_append_right _ h)))

end Elements

end Xml
