import Djangors.Lib.Markup

/-! # HTML

A reader of tags and texts: attributes with a quoted value or with none, references that end with a semicolon, and text areas,
whose content is text. Comments, document types, values without quotes, capital letters in the names of tags, and elements
whose content is raw text are not read here. -/

namespace Html
open Markup (lineEnds lineEnds_eq_self number?)

inductive Token where
  | text (c : Char)
  | start (name : List Char) (attributes : List (List Char × List Char))
  | stop (name : List Char)
  deriving DecidableEq, Repr

def isSpace (c : Char) : Bool := c == ' ' || c == '\t' || c == '\n' || c == '\x0c' || c == '\r'

def isTagChar (c : Char) : Bool := c.isLower || c.isDigit

def isKeyChar (c : Char) : Bool :=
  !(isSpace c || c == '/' || c == '>' || c == '=' || c == '"' || c == '\'' || c == '<' || c == '\x00')

/-- A character as values and text areas have it. -/
def whole (c : Char) : Char := if c = '\x00' then '\ufffd' else c

/-- The character that stands for what is between `&` and `;`. -/
def reference : List Char → Option Char
  | ['a', 'm', 'p'] => some '&'
  | ['l', 't'] => some '<'
  | ['g', 't'] => some '>'
  | ['q', 'u', 'o', 't'] => some '"'
  | ['a', 'p', 'o', 's'] => some '\''
  | '#' :: 'x' :: digits => (number? 16 digits).bind fun n => if 0x20 ≤ n ∧ n ≤ 0x7e then some (Char.ofNat n) else none
  | '#' :: digits => (number? 10 digits).bind fun n => if 0x20 ≤ n ∧ n ≤ 0x7e then some (Char.ofNat n) else none
  | _ => none

/-- A tag that is not at its end. -/
structure Tag where
  name : List Char
  attributes : List (List Char × List Char) := []

/-- An attribute that a tag has already is left out. -/
def Tag.set (tag : Tag) (key value : List Char) : Tag :=
  if (tag.attributes.lookup key).isSome then tag else { tag with attributes := tag.attributes ++ [(key, value)] }

/-- Where a text has been read to. -/
inductive Mode where
  | data
  | dataRef (ref : List Char)
  | tag
  | startName (name : List Char)
  | inside (tag : Tag)
  | key (tag : Tag) (key : List Char)
  | equals (tag : Tag) (key : List Char)
  | value (tag : Tag) (key : List Char) (quote : Char) (text : List Char)
  | valueRef (tag : Tag) (key : List Char) (quote : Char) (text ref : List Char)
  | quoted (tag : Tag)
  | stopName (name : List Char)
  | area (first : Bool)
  | areaRef (ref : List Char)
  | areaTag
  | areaStop (name : List Char)

structure Reader where
  tokens : List Token
  mode : Mode

/-- The elements whose content is not read as markup. -/
def rawElements : List String :=
  ["script", "style", "title", "xmp", "iframe", "noembed", "noframes", "noscript", "plaintext"]

/-- The end of a tag. -/
def emit (tokens : List Token) (tag : Tag) : Option Reader :=
  if rawElements.any (·.toList == tag.name) then none
  else some ⟨tokens ++ [.start tag.name tag.attributes], if tag.name = "textarea".toList then .area true else .data⟩

/-- A character of a text. -/
def advance (r : Reader) (c : Char) : Option Reader :=
  match r.mode with
  | .data =>
    if c = '<' then some ⟨r.tokens, .tag⟩
    else if c = '&' then some ⟨r.tokens, .dataRef []⟩
    else some ⟨r.tokens ++ [.text c], .data⟩
  | .dataRef ref =>
    if c = ';' then (reference ref).map fun d => ⟨r.tokens ++ [.text d], .data⟩ else some ⟨r.tokens, .dataRef (ref ++ [c])⟩
  | .tag =>
    if c = '/' then some ⟨r.tokens, .stopName []⟩
    else if c.isLower then some ⟨r.tokens, .startName [c]⟩
    else none
  | .startName name =>
    if isTagChar c then some ⟨r.tokens, .startName (name ++ [c])⟩
    else if isSpace c then some ⟨r.tokens, .inside { name }⟩
    else if c = '>' then emit r.tokens { name }
    else none
  | .inside tag =>
    if isSpace c then some ⟨r.tokens, .inside tag⟩
    else if c = '>' then emit r.tokens tag
    else if isKeyChar c then some ⟨r.tokens, .key tag [c.toLower]⟩
    else none
  | .key tag key =>
    if isKeyChar c then some ⟨r.tokens, .key tag (key ++ [c.toLower])⟩
    else if c = '=' then some ⟨r.tokens, .equals tag key⟩
    else if isSpace c then some ⟨r.tokens, .inside (tag.set key [])⟩
    else if c = '>' then emit r.tokens (tag.set key [])
    else none
  | .equals tag key => if c = '"' ∨ c = '\'' then some ⟨r.tokens, .value tag key c []⟩ else none
  | .value tag key quote text =>
    if c = quote then some ⟨r.tokens, .quoted (tag.set key text)⟩
    else if c = '&' then some ⟨r.tokens, .valueRef tag key quote text []⟩
    else some ⟨r.tokens, .value tag key quote (text ++ [whole c])⟩
  | .valueRef tag key quote text ref =>
    if c = ';' then (reference ref).map fun d => ⟨r.tokens, .value tag key quote (text ++ [d])⟩
    else some ⟨r.tokens, .valueRef tag key quote text (ref ++ [c])⟩
  | .quoted tag =>
    if isSpace c then some ⟨r.tokens, .inside tag⟩
    else if c = '>' then emit r.tokens tag
    else none
  | .stopName name =>
    if isTagChar c then some ⟨r.tokens, .stopName (name ++ [c])⟩
    else if c = '>' ∧ name ≠ [] then some ⟨r.tokens ++ [.stop name], .data⟩
    else none
  | .area first =>
    if c = '\n' ∧ first then some ⟨r.tokens, .area false⟩
    else if c = '<' then some ⟨r.tokens, .areaTag⟩
    else if c = '&' then some ⟨r.tokens, .areaRef []⟩
    else some ⟨r.tokens ++ [.text (whole c)], .area false⟩
  | .areaRef ref =>
    if c = ';' then (reference ref).map fun d => ⟨r.tokens ++ [.text d], .area false⟩
    else some ⟨r.tokens, .areaRef (ref ++ [c])⟩
  | .areaTag => if c = '/' then some ⟨r.tokens, .areaStop []⟩ else none
  | .areaStop name =>
    if isTagChar c then some ⟨r.tokens, .areaStop (name ++ [c])⟩
    else if c = '>' ∧ name = "textarea".toList then some ⟨r.tokens ++ [.stop name], .data⟩
    else none

abbrev State := Reader × Bool

def step (s : State) (c : Char) : Option State := Markup.step advance (fun _ => true) s c

def run (s : State) (text : List Char) : Option State := Markup.run advance (fun _ => true) s text

def finish (s : State) : Option (List Token) :=
  match s.1 with
  | ⟨tokens, .data⟩ => some tokens
  | _ => none

/-- The tokens of a text. -/
def tokens (text : List Char) : Option (List Token) := (run (⟨[], .data⟩, false) text).bind finish

theorem run_append {s : State} {a b : List Char} : run s (a ++ b) = (run s a).bind fun s => run s b := Markup.run_append

theorem run_cons {s : State} {c : Char} {text : List Char} : run s (c :: text) = (step s c).bind fun s => run s text :=
  Markup.run_cons

theorem step_plain {r : Reader} {c : Char} {returned : Bool} (hcr : c ≠ '\r') (hlf : c ≠ '\n') :
    step (r, returned) c = (advance r c).map (·, false) := Markup.step_plain rfl hcr hlf

/-! ### Escaped text -/

def isRefChar (c : Char) : Bool := c.isAlphanum || c == '#'

/-- Each character is written as itself, or as a reference when it could be markup. -/
structure Escapes (escapeChar : Char → List Char) : Prop where
  plain : ∀ c, escapeChar c = [c] → c ≠ '<' ∧ c ≠ '&' ∧ c ≠ '"'
  written : ∀ c, escapeChar c ≠ [c] → c ≠ '\r' ∧ c ≠ '\n' ∧ c ≠ '\x00' ∧
    ∃ ref, escapeChar c = '&' :: (ref ++ [';']) ∧ reference ref = some c ∧ ref.all isRefChar = true

/-- The value of an attribute as it is read. -/
def valueOf (value : List Char) : List Char := (lineEnds false value).map whole

/-- The content of a text area as it is read. A line feed that it begins with is left out. -/
def areaOf (value : List Char) : List Char :=
  (if (lineEnds false value).head? = some '\n' then (lineEnds false value).tail else lineEnds false value).map whole

section Escaped
variable {e : Char → List Char} {ts : List Token} {tag : Tag} {key text written : List Char} {c : Char} {returned : Bool}

theorem isRefChar_ne {d : Char} (h : isRefChar c = true) (hd : isRefChar d = false) : c ≠ d := fun heq => by
  rw [heq, hd] at h
  cases h

theorem whole_of_ne (h : c ≠ '\x00') : whole c = c := if_neg h

/-- A reader of text: what it does with characters, and with the references that it begins at `&`. -/
structure TextReader (read : List Char → Reader) (refs : List Char → List Char → Reader) (f : Char → Char) : Prop where
  plain : ∀ text c, c ≠ '<' → c ≠ '&' → c ≠ '"' → advance (read text) c = some (read (text ++ [f c]))
  ampersand : ∀ text, advance (read text) '&' = some (refs text [])
  reference : ∀ text ref d, d ≠ ';' → advance (refs text ref) d = some (refs text (ref ++ [d]))
  done : ∀ text ref, advance (refs text ref) ';' = (Html.reference ref).map fun d => read (text ++ [d])
  kept : ∀ c, c ≠ '\x00' → f c = c

theorem run_escape (escapes : Escapes e) {read : List Char → Reader} {refs : List Char → List Char → Reader} {f : Char → Char}
    (reader : TextReader read refs f) : ∃ after,
    run (read text, returned) (written.flatMap e) = some (read (text ++ (lineEnds returned written).map f), after) := by
  refine Markup.run_escape read f (fun text c hc _ => ?_) (fun text returned c hc => ?_) ?_ fun _ _ => rfl
  · obtain ⟨hlt, hamp, hquot⟩ := escapes.plain c hc
    exact reader.plain text c hlt hamp hquot
  · obtain ⟨hcr, hlf, hnul, ref, hwritten, href, hall⟩ := escapes.written c hc
    have hchars : ∀ d ∈ ref, isRefChar d = true := List.all_eq_true.mp hall
    have hname : run (refs text [], false) ref = some (refs text ([] ++ ref.map id), false) :=
      Markup.run_name (refs text) id
        (fun d hd => ⟨rfl, isRefChar_ne hd (by decide), isRefChar_ne hd (by decide)⟩)
        (fun ref d hd => reader.reference text ref d (isRefChar_ne hd (by decide))) hchars
    have hdone : advance (refs text ref) ';' = some (read (text ++ [f c])) := by
      rw [reader.done, href, reader.kept c hnul]
      rfl
    refine ⟨hcr, hlf, ?_⟩
    rw [List.map_id, List.nil_append] at hname
    rw [hwritten]
    change run _ _ = _
    rw [run_cons, step_plain (by decide) (by decide), reader.ampersand, Option.map_some, Option.bind_some, run_append, hname,
      Option.bind_some, run_cons, step_plain (by decide) (by decide), hdone]
    rfl
  · by_contra hne
    exact (escapes.written '\n' hne).2.1 rfl

theorem dataReader (ts : List Token) :
    TextReader (fun text => ⟨ts ++ text.map .text, .data⟩) (fun text ref => ⟨ts ++ text.map .text, .dataRef ref⟩) id where
  plain text c hlt hamp _ := by simp [advance, hlt, hamp]
  ampersand text := rfl
  reference text ref d hd := by simp [advance, hd]
  done text ref := by simp [advance]
  kept _ _ := rfl

theorem valueReader (ts : List Token) (tag : Tag) (key : List Char) :
    TextReader (fun text => ⟨ts, .value tag key '"' text⟩) (fun text ref => ⟨ts, .valueRef tag key '"' text ref⟩) whole where
  plain text c _ hamp hquot := by simp [advance, hamp, hquot]
  ampersand text := rfl
  reference text ref d hd := by simp [advance, hd]
  done text ref := by simp [advance]
  kept _ := whole_of_ne

theorem areaReader (ts : List Token) :
    TextReader (fun text => ⟨ts ++ text.map .text, .area false⟩) (fun text ref => ⟨ts ++ text.map .text, .areaRef ref⟩)
      whole where
  plain text c hlt hamp _ := by simp [advance, hlt, hamp]
  ampersand text := by simp [advance]
  reference text ref d hd := by simp [advance, hd]
  done text ref := by simp [advance]
  kept _ := whole_of_ne

/-- The first character of a text that is no line feed is read as any other. -/
theorem run_area (escapes : Escapes e) : ∃ after first,
    run (⟨ts, .area true⟩, false) (written.flatMap e) = some (⟨ts ++ (areaOf written).map .text, .area first⟩, after) := by
  have hrest : ∀ returned rest, ∃ after, run (⟨ts, .area false⟩, returned) (rest.flatMap e) =
      some (⟨ts ++ ((lineEnds returned rest).map whole).map .text, .area false⟩, after) := fun returned rest => by
    have h : ∃ after, run (⟨ts ++ ([] : List Char).map .text, .area false⟩, returned) (rest.flatMap e) =
      some (⟨ts ++ (([] : List Char) ++ (lineEnds returned rest).map whole).map .text, .area false⟩, after) :=
      run_escape escapes (areaReader ts)
    rwa [List.map_nil, List.append_nil] at h
  cases written with
  | nil =>
    refine ⟨false, true, ?_⟩
    simp [areaOf, lineEnds, run, Markup.run]
  | cons c rest =>
    have hlf : e '\n' = ['\n'] := by
      by_contra hne
      exact (escapes.written '\n' hne).2.1 rfl
    by_cases hend : c = '\r' ∨ c = '\n'
    · have hread : e c = [c] ∧ step (⟨ts, .area true⟩, false) c = some (⟨ts, .area false⟩, c == '\r') ∧
          lineEnds false (c :: rest) = '\n' :: lineEnds (c == '\r') rest := by
        rcases hend with rfl | rfl
        · refine ⟨?_, rfl, rfl⟩
          by_contra hne
          exact (escapes.written '\r' hne).1 rfl
        · exact ⟨hlf, rfl, rfl⟩
      obtain ⟨hself, hstep, hlines⟩ := hread
      obtain ⟨after, h⟩ := hrest (c == '\r') rest
      refine ⟨after, false, ?_⟩
      rw [List.flatMap_cons, hself, List.singleton_append, run_cons, hstep, Option.bind_some, h, areaOf, hlines,
        List.head?_cons, if_pos rfl, List.tail_cons]
    · rw [not_or] at hend
      obtain ⟨hcr, hlf'⟩ := hend
      have hfirst : ∃ d text, e c = d :: text ∧ d ≠ '\r' ∧ d ≠ '\n' := by
        by_cases hself : e c = [c]
        · exact ⟨c, [], hself, hcr, hlf'⟩
        · obtain ⟨-, -, -, ref, hwritten, -, -⟩ := escapes.written c hself
          exact ⟨'&', ref ++ [';'], hwritten, by decide, by decide⟩
      obtain ⟨d, text, hd, hdcr, hdlf⟩ := hfirst
      have hsame : advance ⟨ts, .area true⟩ d = advance ⟨ts, .area false⟩ d := by simp [advance, hdlf]
      have hlines : lineEnds false (c :: rest) = c :: lineEnds false rest := by
        rw [lineEnds, if_neg fun h => hlf' h.1, if_neg hcr, beq_false_of_ne hcr]
      have hhead : (lineEnds false (c :: rest)).head? ≠ some '\n' := by
        rw [hlines, List.head?_cons]
        exact fun h => hlf' (Option.some.inj h)
      obtain ⟨after, h⟩ := hrest false (c :: rest)
      refine ⟨after, false, ?_⟩
      rw [areaOf, if_neg hhead, ← h, List.flatMap_cons, hd, List.cons_append, run_cons, run_cons, step_plain hdcr hdlf,
        step_plain hdcr hdlf, hsame]

end Escaped

/-! ### Tags -/

/-- An attribute to be written; one without a value is its name alone. -/
abbrev Attribute := List Char × Option (List Char)

/-- A text that is written as the name of an attribute. -/
def IsKey (e : Char → List Char) (key : List Char) : Prop := key ≠ [] ∧ ∀ c ∈ key, e c = [c] → isKeyChar c = true

def keyOf (e : Char → List Char) (key : List Char) : List Char := (key.flatMap e).map Char.toLower

def attributeText (e : Char → List Char) (a : Attribute) : List Char :=
  ' ' :: (a.1.flatMap e ++ match a.2 with
    | none => []
    | some value => '=' :: '"' :: (value.flatMap e ++ ['"']))

def startTag (e : Char → List Char) (name : List Char) (attributes : List Attribute) : List Char :=
  '<' :: (name ++ (attributes.flatMap (attributeText e) ++ ['>']))

def stopTag (name : List Char) : List Char := '<' :: '/' :: (name ++ ['>'])

/-- The attributes of a tag, with their values read by a function. -/
def Tag.setAll (e : Char → List Char) (read : List Char → List Char) (tag : Tag) (attributes : List Attribute) : Tag :=
  attributes.foldl (fun tag a => tag.set (keyOf e a.1) ((a.2.map read).getD [])) tag

def isTagName : List Char → Bool
  | [] => false
  | c :: name => c.isLower && name.all isTagChar

/-- A reader at the end of what a tag has. -/
def AtEnd (r : Reader) (tag : Tag) : Prop :=
  advance r ' ' = some ⟨r.tokens, .inside tag⟩ ∧ advance r '>' = emit r.tokens tag

section Tags
variable {e : Char → List Char} {ts : List Token} {r : Reader} {tag : Tag} {name key : List Char} {c : Char} {returned : Bool}
  {a : Attribute} {attributes : List Attribute}

theorem isTagChar_plain (h : isTagChar c = true) : c ≠ '\r' ∧ c ≠ '\n' :=
  ⟨fun heq => by rw [heq] at h; exact absurd h (by decide), fun heq => by rw [heq] at h; exact absurd h (by decide)⟩

theorem isKeyChar_plain (h : isKeyChar c = true) : c ≠ '\r' ∧ c ≠ '\n' :=
  ⟨fun heq => by rw [heq] at h; exact absurd h (by decide), fun heq => by rw [heq] at h; exact absurd h (by decide)⟩

theorem isKeyChar_of_isRefChar (h : isRefChar c = true) : isKeyChar c = true := by
  have hne : ∀ d, isRefChar d = false → (c == d) = false := fun d hd => beq_false_of_ne (isRefChar_ne h hd)
  simp [isKeyChar, isSpace, hne ' ' (by decide), hne '\t' (by decide), hne '\n' (by decide), hne '\x0c' (by decide),
    hne '\r' (by decide), hne '/' (by decide), hne '>' (by decide), hne '=' (by decide), hne '"' (by decide),
    hne '\'' (by decide), hne '<' (by decide), hne '\x00' (by decide)]

/-- The name of an attribute has no character but those of names, once it is escaped. -/
theorem keyChars (escapes : Escapes e) (h : IsKey e key) : key.flatMap e ≠ [] ∧ ∀ c ∈ key.flatMap e, isKeyChar c = true := by
  have hchar : ∀ c ∈ key, e c ≠ [] ∧ ∀ d ∈ e c, isKeyChar d = true := fun c hc => by
    by_cases hself : e c = [c]
    · rw [hself]
      exact ⟨List.cons_ne_nil _ _, fun d hd => List.mem_singleton.mp hd ▸ h.2 c hc hself⟩
    · obtain ⟨-, -, -, ref, hwritten, -, hall⟩ := escapes.written c hself
      rw [hwritten]
      refine ⟨List.cons_ne_nil _ _, List.forall_mem_cons.mpr ⟨by decide, List.forall_mem_append.mpr ⟨fun d hd => ?_, ?_⟩⟩⟩
      · exact isKeyChar_of_isRefChar (List.all_eq_true.mp hall d hd)
      · exact List.forall_mem_cons.mpr ⟨by decide, fun d hd => absurd hd List.not_mem_nil⟩
  obtain ⟨c, hc⟩ := List.exists_mem_of_ne_nil key h.1
  refine ⟨fun hnil => (hchar c hc).1 (List.flatMap_eq_nil_iff.mp hnil c hc), fun d hd => ?_⟩
  obtain ⟨c, hc, hd⟩ := List.mem_flatMap.mp hd
  exact (hchar c hc).2 d hd

theorem run_key (hend : AtEnd r tag) (hkey : key ≠ []) (hchars : ∀ c ∈ key, isKeyChar c = true) :
    run (r, false) (' ' :: key) = some (⟨r.tokens, .key tag (key.map Char.toLower)⟩, false) := by
  obtain ⟨c, key, rfl⟩ := List.exists_cons_of_ne_nil hkey
  obtain ⟨hc, hrest⟩ := List.forall_mem_cons.mp hchars
  obtain ⟨hcr, hlf⟩ := isKeyChar_plain hc
  have hspace : isSpace c = false := by
    by_contra h
    rw [Bool.not_eq_false] at h
    simp [isKeyChar, h] at hc
  have hgt : c ≠ '>' := fun heq => by
    rw [heq] at hc
    exact absurd hc (by decide)
  have hfirst : advance ⟨r.tokens, .inside tag⟩ c = some ⟨r.tokens, .key tag [c.toLower]⟩ := by
    simp [advance, hspace, hgt, hc]
  have hname : run (⟨r.tokens, .key tag [c.toLower]⟩, false) key =
      some (⟨r.tokens, .key tag ([c.toLower] ++ key.map Char.toLower)⟩, false) :=
    Markup.run_name (fun key => (⟨r.tokens, .key tag key⟩ : Reader)) Char.toLower (fun c hc => ⟨rfl, isKeyChar_plain hc⟩)
      (fun text c hc => by simp [advance, hc]) hrest
  rw [run_cons, step_plain (by decide) (by decide), hend.1, Option.map_some, Option.bind_some, run_cons,
    step_plain hcr hlf, hfirst, Option.map_some, Option.bind_some, hname]
  rfl

theorem run_attribute (escapes : Escapes e) (hend : AtEnd r tag) (hkey : IsKey e a.1) : ∃ r',
    run (r, false) (attributeText e a) = some (r', false) ∧ r'.tokens = r.tokens ∧
      AtEnd r' (tag.set (keyOf e a.1) ((a.2.map valueOf).getD [])) := by
  obtain ⟨hne, hchars⟩ := keyChars escapes hkey
  have hread := run_key hend hne hchars
  obtain ⟨key, value⟩ := a
  cases value with
  | none =>
    refine ⟨⟨r.tokens, .key tag (keyOf e key)⟩, ?_, rfl, rfl, rfl⟩
    rw [attributeText, List.append_nil]
    exact hread
  | some value =>
    obtain ⟨after, hvalue⟩ : ∃ after, run (⟨r.tokens, .value tag (keyOf e key) '"' []⟩, false) (value.flatMap e) =
        some (⟨r.tokens, .value tag (keyOf e key) '"' ([] ++ valueOf value)⟩, after) :=
      run_escape escapes (valueReader r.tokens tag (keyOf e key))
    have hquote : run (⟨r.tokens, .key tag (keyOf e key)⟩, false) ['=', '"'] =
        some (⟨r.tokens, .value tag (keyOf e key) '"' []⟩, false) := rfl
    have hclose : step (⟨r.tokens, .value tag (keyOf e key) '"' (valueOf value)⟩, after) '"' =
        some (⟨r.tokens, .quoted (tag.set (keyOf e key) (valueOf value))⟩, false) := by
      rw [step_plain (by decide) (by decide)]
      simp [advance]
    have hsplit : attributeText e (key, some value) =
        (' ' :: key.flatMap e) ++ (['=', '"'] ++ (value.flatMap e ++ ['"'])) := by simp [attributeText]
    refine ⟨⟨r.tokens, .quoted (tag.set (keyOf e key) (valueOf value))⟩, ?_, rfl, rfl, rfl⟩
    rw [List.nil_append] at hvalue
    rw [hsplit, run_append, hread, Option.bind_some, run_append]
    change ((run (⟨r.tokens, .key tag (keyOf e key)⟩, false) ['=', '"']).bind _) = _
    rw [hquote, Option.bind_some, run_append, hvalue, Option.bind_some, run_cons, hclose]
    rfl

theorem run_attributes (escapes : Escapes e) (hend : AtEnd r tag) (hkeys : ∀ a ∈ attributes, IsKey e a.1) : ∃ r',
    run (r, false) (attributes.flatMap (attributeText e)) = some (r', false) ∧ r'.tokens = r.tokens ∧
      AtEnd r' (tag.setAll e valueOf attributes) := by
  induction attributes generalizing r tag with
  | nil => exact ⟨r, rfl, rfl, hend⟩
  | cons a attributes ih =>
    obtain ⟨ha, hrest⟩ := List.forall_mem_cons.mp hkeys
    obtain ⟨next, hrun, htokens, hnext⟩ := run_attribute escapes hend ha
    obtain ⟨last, hrun', htokens', hlast⟩ := ih hnext hrest
    refine ⟨last, ?_, htokens'.trans htokens, hlast⟩
    rw [List.flatMap_cons, run_append, hrun, Option.bind_some, hrun']

theorem run_tagName (hname : name.all isTagChar = true) (read : List Char → Reader)
    (hread : ∀ text c, isTagChar c = true → advance (read text) c = some (read (text ++ [c]))) (text : List Char) :
    run (read text, false) name = some (read (text ++ name), false) := by
  have h : run (read text, false) name = some (read (text ++ name.map id), false) :=
    Markup.run_name read id (fun c hc => ⟨rfl, isTagChar_plain hc⟩) hread (List.all_eq_true.mp hname)
  rwa [List.map_id] at h

theorem run_startTag (escapes : Escapes e) (hname : isTagName name = true) (hkeys : ∀ a ∈ attributes, IsKey e a.1) :
    run (⟨ts, .data⟩, returned) (startTag e name attributes) =
      (emit ts (Tag.setAll e valueOf { name } attributes)).map (·, false) := by
  cases name with
  | nil => cases hname
  | cons c name =>
    rw [isTagName, Bool.and_eq_true] at hname
    obtain ⟨hc, hrest⟩ := hname
    have hslash : c ≠ '/' := fun heq => by
      rw [heq] at hc
      exact absurd hc (by decide)
    have htag : isTagChar c = true := by simp [isTagChar, hc]
    have hlt : step (⟨ts, .data⟩, returned) '<' = some (⟨ts, .tag⟩, false) := rfl
    have hfirst : advance ⟨ts, .tag⟩ c = some ⟨ts, .startName [c]⟩ := by simp [advance, hslash, hc]
    have hread := run_tagName hrest (fun name => ⟨ts, .startName name⟩) (fun text c hc => by simp [advance, hc]) [c]
    have hnotSpace : isTagChar ' ' = false ∧ isTagChar '>' = false := ⟨by decide, by decide⟩
    have hspaces : isSpace ' ' = true ∧ isSpace '>' = false := ⟨by decide, by decide⟩
    have hat : AtEnd ⟨ts, .startName (c :: name)⟩ ({ name := c :: name } : Tag) :=
      ⟨by simp [advance, hnotSpace, hspaces], by simp [advance, hnotSpace, hspaces]⟩
    obtain ⟨r, hrun, htokens, hend⟩ := run_attributes escapes hat hkeys
    rw [startTag, run_cons, hlt, Option.bind_some, List.cons_append, run_cons,
      step_plain (isTagChar_plain htag).1 (isTagChar_plain htag).2, hfirst, Option.map_some, Option.bind_some, run_append,
      hread, Option.bind_some]
    change run (⟨ts, .startName (c :: name)⟩, false) _ = _
    rw [run_append, hrun, Option.bind_some, run_cons, step_plain (by decide) (by decide), hend.2, htokens]
    cases emit ts (Tag.setAll e valueOf { name := c :: name } attributes) <;> rfl

theorem run_stopTag (hname : isTagName name = true) :
    run (⟨ts, .data⟩, returned) (stopTag name) = some (⟨ts ++ [.stop name], .data⟩, false) := by
  have hne : name ≠ [] := fun h => by
    rw [h] at hname
    cases hname
  have hall : name.all isTagChar = true := by
    cases name with
    | nil => rfl
    | cons c name =>
      rw [isTagName, Bool.and_eq_true] at hname
      rw [List.all_cons, Bool.and_eq_true]
      exact ⟨by simp [isTagChar, hname.1], hname.2⟩
  have hopen : run (⟨ts, .data⟩, returned) ['<', '/'] = some (⟨ts, .stopName []⟩, false) := rfl
  have hread := run_tagName hall (fun name => ⟨ts, .stopName name⟩) (fun text c hc => by simp [advance, hc]) []
  have hclose : advance ⟨ts, .stopName name⟩ '>' = some ⟨ts ++ [.stop name], .data⟩ := by
    have hgt : isTagChar '>' = false := by decide
    simp [advance, hgt, hne]
  have hsplit : stopTag name = ['<', '/'] ++ (name ++ ['>']) := rfl
  rw [hsplit, run_append, hopen, Option.bind_some, run_append, hread, Option.bind_some, List.nil_append, run_cons,
    step_plain (by decide) (by decide), hclose]
  rfl

end Tags

/-! ### Elements -/

/-- A text that is read as tokens. -/
def Puts (text : List Char) (toks : List Token) : Prop :=
  ∀ ts, run (⟨ts, .data⟩, false) text = some (⟨ts ++ toks, .data⟩, false)

def chars (text : List Char) : List Token := text.map .text

/-- The token of a tag. -/
def Tag.token (tag : Tag) : Token := .start tag.name tag.attributes

section Elements
variable {e : Char → List Char} {text text' : List Char} {toks toks' : List Token} {name : List Char} {c : Char}
  {attributes : List Attribute}

theorem Puts.nil : Puts [] [] := fun ts => by rw [List.append_nil]; rfl

theorem Puts.append (h : Puts text toks) (h' : Puts text' toks') : Puts (text ++ text') (toks ++ toks') := fun ts => by
  rw [run_append, h, Option.bind_some, h', List.append_assoc]

theorem Puts.flatMap {α : Type} {items : List α} {write : α → List Char} {read : α → List Token}
    (h : ∀ a ∈ items, Puts (write a) (read a)) : Puts (items.flatMap write) (items.flatMap read) := by
  induction items with
  | nil => exact .nil
  | cons a items ih =>
    obtain ⟨ha, hitems⟩ := List.forall_mem_cons.mp h
    exact ha.append (ih hitems)

theorem tokens_of_puts (h : Puts text toks) : tokens text = some toks := by
  rw [tokens, h]
  rfl

theorem puts_char (hlt : c ≠ '<') (hamp : c ≠ '&') (hcr : c ≠ '\r') : Puts [c] [.text c] := fun ts => by
  have hstep : step (⟨ts, .data⟩, false) c = some (⟨ts ++ [.text c], .data⟩, false) := by
    simp [step, Markup.step, advance, hlt, hamp, hcr]
  rw [run_cons, hstep]
  rfl

/-- Text in front of a tag. -/
theorem Puts.textBefore (escapes : Escapes e) (text : List Char) {tag : List Char} (h : Puts ('<' :: tag) toks) :
    Puts (text.flatMap e ++ '<' :: tag) (chars (lineEnds false text) ++ toks) := fun ts => by
  obtain ⟨after, hread⟩ : ∃ after, run (⟨ts ++ ([] : List Char).map .text, .data⟩, false) (text.flatMap e) =
      some (⟨ts ++ (([] : List Char) ++ (lineEnds false text).map id).map .text, .data⟩, after) :=
    run_escape escapes (dataReader ts)
  rw [List.map_nil, List.append_nil, List.nil_append, List.map_id] at hread
  rw [run_append, hread, Option.bind_some, ← List.append_assoc]
  exact h _

theorem Tag.set_name (tag : Tag) (key value : List Char) : (tag.set key value).name = tag.name := by
  unfold Tag.set
  split <;> rfl

theorem setAll_name (read : List Char → List Char) (tag : Tag) : (tag.setAll e read attributes).name = tag.name := by
  induction attributes generalizing tag with
  | nil => rfl
  | cons a attributes ih => exact (ih _).trans (Tag.set_name ..)

/-- The start of an element whose content is markup. -/
theorem puts_startTag (escapes : Escapes e) (hname : isTagName name = true) (hkeys : ∀ a ∈ attributes, IsKey e a.1)
    (hmarkup : rawElements.any (·.toList == name) = false ∧ name ≠ "textarea".toList) :
    Puts (startTag e name attributes) [(Tag.setAll e valueOf { name } attributes).token] := fun ts => by
  rw [run_startTag escapes hname hkeys, emit, setAll_name, if_neg (by rw [hmarkup.1]; exact Bool.false_ne_true),
    if_neg hmarkup.2, Tag.token, setAll_name, Option.map_some]

theorem puts_stopTag (hname : isTagName name = true) : Puts (stopTag name) [.stop name] := fun _ => run_stopTag hname

theorem emit_area {ts : List Token} {tag : Tag} (h : tag.name = "textarea".toList) :
    emit ts tag = some ⟨ts ++ [tag.token], .area true⟩ := by
  have hraw : rawElements.any (·.toList == "textarea".toList) = false := by decide +kernel
  rw [emit, h, hraw, if_neg Bool.false_ne_true, if_pos rfl, Tag.token, h]

theorem run_areaStop {ts : List Token} {first returned : Bool} :
    run (⟨ts, .area first⟩, returned) (stopTag "textarea".toList) = some (⟨ts ++ [.stop "textarea".toList], .data⟩, false) := by
  have hopen : run (⟨ts, .area first⟩, returned) ['<', '/'] = some (⟨ts, .areaStop []⟩, false) := by
    cases first <;> rfl
  have hread := @run_tagName "textarea".toList (by decide) (fun name => ⟨ts, .areaStop name⟩)
    (fun text c hc => by simp [advance, hc]) []
  have hclose : advance ⟨ts, .areaStop "textarea".toList⟩ '>' = some ⟨ts ++ [.stop "textarea".toList], .data⟩ := by
    have hgt : isTagChar '>' = false := by decide
    simp [advance, hgt]
  have hsplit : stopTag "textarea".toList = ['<', '/'] ++ ("textarea".toList ++ ['>']) := rfl
  rw [hsplit, run_append, hopen, Option.bind_some, run_append, hread, Option.bind_some, List.nil_append, run_cons,
    step_plain (by decide) (by decide), hclose]
  rfl

/-- A text area with its content. -/
theorem puts_area (escapes : Escapes e) (hkeys : ∀ a ∈ attributes, IsKey e a.1) (text : List Char) :
    Puts (startTag e "textarea".toList attributes ++ text.flatMap e ++ stopTag "textarea".toList)
      ((Tag.setAll e valueOf { name := "textarea".toList } attributes).token ::
        (chars (areaOf text) ++ [.stop "textarea".toList])) := fun ts => by
  have hstart : run (⟨ts, .data⟩, false) (startTag e "textarea".toList attributes) =
      some (⟨ts ++ [(Tag.setAll e valueOf { name := "textarea".toList } attributes).token], .area true⟩, false) := by
    have hname : (Tag.setAll e valueOf { name := "textarea".toList } attributes).name = "textarea".toList := setAll_name ..
    rw [run_startTag escapes (by decide) hkeys, emit_area hname]
    rfl
  generalize (Tag.setAll e valueOf { name := "textarea".toList } attributes).token = start at hstart ⊢
  obtain ⟨after, first, harea⟩ : ∃ after first, run (⟨ts ++ [start], .area true⟩, false) (text.flatMap e) =
      some (⟨ts ++ [start] ++ chars (areaOf text), .area first⟩, after) := run_area escapes
  rw [List.append_assoc, run_append, hstart, Option.bind_some, run_append, harea, Option.bind_some, run_areaStop,
    List.append_assoc, List.append_assoc]
  rfl

end Elements

end Html
