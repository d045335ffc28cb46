import Djangors.Lib.Utf8
import Djangors.Sessions.Service

/-! # Cookies of a request

`extract_cookie` and `extract_session_cookie` find the one cookie of a name when they come to it: every header up to its
own is visible ASCII, and no cookie before it has the name without a value. -/

namespace Djangors.Http

/-! ### Cookies in bytes -/

def isBlank (b : UInt8) : Bool := b == 9 || b == 32

/-- The cookies of a header: its parts between semicolons, without the blanks around them. -/
def cookiesOf (header : List UInt8) : List (List UInt8) :=
  (header.splitOn 59).map fun part => (part.dropWhile isBlank).rdropWhile isBlank

/-- The name and the value of a cookie that has an equals sign. -/
def pairOf (cookie : List UInt8) : Option (List UInt8 × List UInt8) :=
  match cookie.dropWhile (· ≠ 61) with
  | [] => none
  | _ :: value => some (cookie.takeWhile (· ≠ 61), value)

/-- The one pair of a name in the `Cookie` headers, with the headers and cookies around it. -/
structure SinglePair (headers : HeaderMap) (name : List Char) (value : List UInt8) where
  before : List (List UInt8)
  header : List UInt8
  after : List (List UInt8)
  earlier : List (List UInt8)
  cookie : List UInt8
  later : List (List UInt8)
  headers_eq : headers.getAll "cookie".toList = before ++ header :: after
  cookies_eq : cookiesOf header = earlier ++ cookie :: later
  pair : pairOf cookie = some (tokenBytes name, value)
  single : ∀ other ∈ before.flatMap cookiesOf ++ earlier ++ later ++ after.flatMap cookiesOf,
    ∀ value', pairOf other ≠ some (tokenBytes name, value')

/-- The search comes to the pair: it can read the headers, and no cookie before has the name alone. -/
structure SinglePair.Reached {headers : HeaderMap} {name : List Char} {value : List UInt8}
    (p : SinglePair headers name value) : Prop where
  readable : ∀ header ∈ p.before ++ [p.header], ∀ b ∈ header, isVisibleAscii b = true
  unnamed : ∀ other ∈ p.before.flatMap cookiesOf ++ p.earlier, other ≠ tokenBytes name

/-! ### What the search finds -/

section Search
variable {header : List UInt8} {name : List Char} {cookie : List UInt8}

theorem isWhitespace_byteChar {b : UInt8} (h : isVisibleAscii b = true) : Text.isWhitespace (Text.byteChar b) = isBlank b := by
  rw [Text.isWhitespace, Text.toNat_byteChar, isBlank]
  simp only [isVisibleAscii, Bool.or_eq_true, Bool.and_eq_true, beq_iff_eq, decide_eq_true_eq, UInt8.le_iff_toNat_le,
    UInt8.lt_iff_toNat_lt, UInt8.reduceToNat, ← UInt8.toNat_inj] at h
  rw [Bool.eq_iff_iff]
  simp only [Bool.or_eq_true, Bool.and_eq_true, beq_iff_eq, decide_eq_true_eq, ← UInt8.toNat_inj, UInt8.reduceToNat]
  omega

theorem mem_cookiesOf (hcookie : cookie ∈ cookiesOf header) {b : UInt8} (hb : b ∈ cookie) : b ∈ header := by
  obtain ⟨part, hpart, rfl⟩ := List.mem_map.mp hcookie
  exact List.mem_of_mem_splitOnP hpart ((List.dropWhile_sublist _).subset ((List.rdropWhile_prefix _ _).subset hb))

/-- The cookies that `extract_cookie` splits a header into are those of its bytes. -/
theorem trimmed_cookies (h : ∀ b ∈ header, isVisibleAscii b = true) :
    ((header.map Text.byteChar).splitOn ';').map Text.trim = (cookiesOf header).map (List.map Text.byteChar) := by
  have hsep : (fun c => c == ';') ∘ Text.byteChar = (· == 59) := by
    funext b
    have hsemicolon : ';' = Text.byteChar 59 := rfl
    rw [Function.comp_apply, hsemicolon, Bool.eq_iff_iff, beq_iff_eq, beq_iff_eq, Text.byteChar_inj]
  rw [List.splitOn_eq_splitOnP, List.splitOnP_map, hsep, ← List.splitOn_eq_splitOnP, cookiesOf, List.map_map, List.map_map]
  refine List.map_congr_left fun part hpart => ?_
  have hvisible : ∀ b ∈ part, isVisibleAscii b = true := fun b hb => h b (List.mem_of_mem_splitOnP hpart hb)
  have hblank : ∀ b ∈ part, (Text.isWhitespace ∘ Text.byteChar) b = isBlank b := fun b hb => isWhitespace_byteChar (hvisible b hb)
  rw [Function.comp_apply, Function.comp_apply, Text.trim, List.dropWhile_map, List.rdropWhile_map,
    List.dropWhile_congr hblank]
  exact congrArg _ (List.rdropWhile_congr fun b hb => hblank b ((List.dropWhile_sublist _).subset hb))

/-- A cookie has the name, with or without a value. -/
def named (name : List Char) (cookie : List UInt8) : Bool := cookie.takeWhile (· ≠ 61) == tokenBytes name

theorem takeWhile_text (cookie : List UInt8) : (cookie.map Text.byteChar).takeWhile (· ≠ '=') =
    (cookie.takeWhile (· ≠ 61)).map Text.byteChar := by
  have hequals : '=' = Text.byteChar 61 := rfl
  rw [List.takeWhile_map]
  refine congrArg _ (congrArg (List.takeWhile · cookie) (funext fun b => ?_))
  rw [Function.comp_apply, hequals, decide_eq_decide, not_iff_not, Text.byteChar_inj]

theorem dropWhile_text (cookie : List UInt8) : (cookie.map Text.byteChar).dropWhile (· ≠ '=') =
    (cookie.dropWhile (· ≠ 61)).map Text.byteChar := by
  have hequals : '=' = Text.byteChar 61 := rfl
  rw [List.dropWhile_map]
  refine congrArg _ (congrArg (List.dropWhile · cookie) (funext fun b => ?_))
  rw [Function.comp_apply, hequals, decide_eq_decide, not_iff_not, Text.byteChar_inj]

theorem map_byteChar_eq {l : List UInt8} (h : ∀ b ∈ l, isVisibleAscii b = true) :
    l.map Text.byteChar = name ↔ l = tokenBytes name := by
  have hbytes : tokenBytes (l.map Text.byteChar) = l := Text.bytes_byteChars fun b hb => visible_lt (h b hb)
  refine ⟨fun heq => ?_, fun heq => Text.bytes_injective ?_⟩
  · rw [← heq, hbytes]
  · exact hbytes.trans heq

variable (name) in
/-- The search in the cookies of a header is for the first that has the name. -/
theorem findCookie_eq {parts : List (List Char)} {cookies : List (List UInt8)}
    (hparts : parts.map Text.trim = cookies.map (List.map Text.byteChar))
    (hvisible : ∀ cookie ∈ cookies, ∀ b ∈ cookie, isVisibleAscii b = true) :
    findCookie name parts =
      (cookies.find? (named name)).map fun cookie => (pairOf cookie).map fun p => p.2.map Text.byteChar := by
  induction parts generalizing cookies with
  | nil =>
    obtain rfl := List.map_eq_nil_iff.mp hparts.symm
    rfl
  | cons part parts ih =>
    cases cookies with
    | nil => cases hparts
    | cons cookie cookies =>
      obtain ⟨hpart, hparts⟩ := List.cons.inj hparts
      have hname : (Text.trim part).takeWhile (· ≠ '=') = name ↔ named name cookie = true := by
        rw [hpart, takeWhile_text, named, beq_iff_eq, map_byteChar_eq]
        exact fun b hb => hvisible cookie (by simp) b ((List.takeWhile_sublist _).subset hb)
      rw [findCookie, List.find?_cons]
      by_cases hnamed : named name cookie = true
      · rw [if_pos (hname.mpr hnamed), hnamed, hpart, dropWhile_text, Option.map_some, pairOf]
        cases cookie.dropWhile (· ≠ 61) <;> rfl
      · rw [if_neg (hname.not.mpr hnamed), eq_false_of_ne_true hnamed]
        exact ih hparts fun cookie hcookie => hvisible cookie (by simp [hcookie])

theorem pairOf_name {value : List UInt8} (h : pairOf cookie = some (tokenBytes name, value)) : named name cookie = true := by
  rw [pairOf] at h
  split at h
  · cases h
  · rw [named, beq_iff_eq]
    exact (Prod.ext_iff.mp (Option.some.inj h)).1

/-- A cookie that has the name is a pair, or is the name alone. -/
theorem named_cases (h : named name cookie = true) :
    (∃ value, pairOf cookie = some (tokenBytes name, value)) ∨ cookie = tokenBytes name ∧ pairOf cookie = none := by
  rw [named, beq_iff_eq] at h
  rw [pairOf]
  cases hdrop : cookie.dropWhile (· ≠ 61) with
  | nil =>
    have hall := List.takeWhile_append_dropWhile (p := (· ≠ (61 : UInt8))) (l := cookie)
    rw [hdrop, List.append_nil] at hall
    exact .inr ⟨hall.symm.trans h, rfl⟩
  | cons b value => exact .inl ⟨value, by rw [h]⟩

theorem equals_notMem {value : List UInt8} (h : pairOf cookie = some (tokenBytes name, value)) : 61 ∉ tokenBytes name := by
  rw [← beq_iff_eq.mp (pairOf_name h)]
  intro hmem
  simpa using List.mem_takeWhile_imp hmem

/-- A readable header with no pair of the name ends the search when it has the name alone. -/
theorem extractFrom_cons (hplain : 61 ∉ tokenBytes name) (hvisible : ∀ b ∈ header, isVisibleAscii b = true)
    (hpair : ∀ cookie ∈ cookiesOf header, ∀ value, pairOf cookie ≠ some (tokenBytes name, value)) (rest : List (List UInt8)) :
    extractFrom name (header :: rest) =
      if ∃ cookie ∈ cookiesOf header, cookie = tokenBytes name then none else extractFrom name rest := by
  have htext : toStr header = some (header.map Text.byteChar) := if_pos (List.all_eq_true.mpr hvisible)
  have hfind := findCookie_eq name (trimmed_cookies hvisible)
    fun cookie hcookie b hb => hvisible b (mem_cookiesOf hcookie hb)
  rw [extractFrom, htext]
  simp only [hfind]
  cases hfound : (cookiesOf header).find? (named name) with
  | none =>
    have hno : ¬ ∃ cookie ∈ cookiesOf header, cookie = tokenBytes name := by
      rintro ⟨cookie, hcookie, rfl⟩
      refine List.find?_eq_none.mp hfound _ hcookie (beq_iff_eq.mpr ?_)
      exact List.takeWhile_eq_self_iff.mpr fun b hb => decide_eq_true fun heq => hplain (heq ▸ hb)
    rw [if_neg hno]
    rfl
  | some cookie =>
    have hcookie := List.mem_of_find?_eq_some hfound
    rcases named_cases (List.find?_some hfound) with ⟨value, hvalue⟩ | ⟨heq, hnone⟩
    · exact absurd hvalue (hpair cookie hcookie value)
    · rw [if_pos ⟨cookie, hcookie, heq⟩, Option.map_some, hnone]
      rfl

theorem extractFrom_unreadable (h : ¬ ∀ b ∈ header, isVisibleAscii b = true) (rest : List (List UInt8)) :
    extractFrom name (header :: rest) = none := by
  have htext : toStr header = none := if_neg fun hall => h (List.all_eq_true.mp hall)
  rw [extractFrom, htext]

/-- The header of the pair. -/
theorem extractFrom_pair {earlier later : List (List UInt8)} {value : List UInt8}
    (hvisible : ∀ b ∈ header, isVisibleAscii b = true) (hcookies : cookiesOf header = earlier ++ cookie :: later)
    (hpair : pairOf cookie = some (tokenBytes name, value))
    (hsingle : ∀ other ∈ earlier, ∀ value', pairOf other ≠ some (tokenBytes name, value')) (rest : List (List UInt8)) :
    extractFrom name (header :: rest) =
      if ∃ other ∈ earlier, other = tokenBytes name then none else some (value.map Text.byteChar) := by
  have htext : toStr header = some (header.map Text.byteChar) := if_pos (List.all_eq_true.mpr hvisible)
  have hfind := findCookie_eq name (trimmed_cookies hvisible)
    fun cookie hcookie b hb => hvisible b (mem_cookiesOf hcookie hb)
  rw [extractFrom, htext]
  simp only [hfind, hcookies, List.find?_append]
  cases hfound : earlier.find? (named name) with
  | none =>
    have hno : ¬ ∃ other ∈ earlier, other = tokenBytes name := by
      rintro ⟨other, hother, rfl⟩
      refine List.find?_eq_none.mp hfound _ hother (beq_iff_eq.mpr ?_)
      exact List.takeWhile_eq_self_iff.mpr fun b hb => decide_eq_true fun heq => equals_notMem hpair (heq ▸ hb)
    rw [if_neg hno, Option.none_or, List.find?_cons_of_pos (pairOf_name hpair), Option.map_some, hpair]
    rfl
  | some other =>
    have hother := List.mem_of_find?_eq_some hfound
    rcases named_cases (List.find?_some hfound) with ⟨value', hvalue⟩ | ⟨heq, hnone⟩
    · exact absurd hvalue (hsingle other hother value')
    · rw [if_pos ⟨other, hother, heq⟩, Option.some_or, Option.map_some, hnone]
      rfl

end Search

/-! ### The one pair -/

/-- The bytes of what is returned. -/
def Returns (result : Option (List Char)) (value : List UInt8) : Prop := result.map tokenBytes = some value

/-- Where the headers before the pair are gone through. -/
theorem extractFrom_before {name : List Char} (hplain : 61 ∉ tokenBytes name) {before : List (List UInt8)}
    (hsingle : ∀ cookie ∈ before.flatMap cookiesOf, ∀ value, pairOf cookie ≠ some (tokenBytes name, value))
    (rest : List (List UInt8)) :
    ((∀ header ∈ before, ∀ b ∈ header, isVisibleAscii b = true) ∧
        (∀ cookie ∈ before.flatMap cookiesOf, cookie ≠ tokenBytes name)) ∧
        extractFrom name (before ++ rest) = extractFrom name rest ∨
      ¬((∀ header ∈ before, ∀ b ∈ header, isVisibleAscii b = true) ∧
        (∀ cookie ∈ before.flatMap cookiesOf, cookie ≠ tokenBytes name)) ∧
        extractFrom name (before ++ rest) = none := by
  induction before with
  | nil => exact .inl ⟨by simp, rfl⟩
  | cons header before ih =>
    rw [List.flatMap_cons, List.forall_mem_append] at hsingle
    rw [List.cons_append, List.flatMap_cons]
    by_cases hvisible : ∀ b ∈ header, isVisibleAscii b = true
    · rw [extractFrom_cons hplain hvisible hsingle.1]
      by_cases hbare : ∃ cookie ∈ cookiesOf header, cookie = tokenBytes name
      · obtain ⟨cookie, hcookie, heq⟩ := hbare
        exact .inr ⟨fun h => h.2 cookie (List.mem_append_left _ hcookie) heq, if_pos ⟨cookie, hcookie, heq⟩⟩
      · have hunnamed : ∀ cookie ∈ cookiesOf header, cookie ≠ tokenBytes name :=
          fun cookie hcookie heq => hbare ⟨cookie, hcookie, heq⟩
        rw [if_neg hbare, List.forall_mem_cons, List.forall_mem_append]
        rcases ih hsingle.2 with ⟨h, hgo⟩ | ⟨h, hstop⟩
        · exact .inl ⟨⟨⟨hvisible, h.1⟩, hunnamed, h.2⟩, hgo⟩
        · exact .inr ⟨fun hall => h ⟨hall.1.2, hall.2.2⟩, hstop⟩
    · rw [extractFrom_unreadable hvisible]
      exact .inr ⟨fun h => hvisible (h.1 header (by simp)), rfl⟩

theorem pairOf_subset {cookie value : List UInt8} {name : List Char} (h : pairOf cookie = some (tokenBytes name, value)) :
    value ⊆ cookie := by
  rw [pairOf] at h
  split at h
  · cases h
  · rename_i b rest hdrop
    obtain rfl := (Prod.ext_iff.mp (Option.some.inj h)).2
    intro c hc
    exact (List.dropWhile_sublist _).subset (hdrop ▸ List.mem_cons_of_mem b hc)

/-- Both functions return the value of the one pair exactly when the search comes to it, and they are the same function. -/
theorem cookie_found_iff (headers : HeaderMap) (name : List Char) :
    Sessions.extractSessionCookie headers name = extractCookie headers name ∧
      ∀ value, ∀ p : SinglePair headers name value,
        (Returns (extractCookie headers name) value ∧ Returns (Sessions.extractSessionCookie headers name) value ↔ p.Reached) := by
  refine ⟨rfl, fun value p => ?_⟩
  have hsingle := p.single
  simp only [List.forall_mem_append] at hsingle
  obtain ⟨⟨⟨hbefore, hearlier⟩, -⟩, -⟩ := hsingle
  have hresult : extractCookie headers name = extractFrom name (p.before ++ p.header :: p.after) :=
    congrArg (extractFrom name) p.headers_eq
  have hself : Returns (extractCookie headers name) value ∧ Returns (Sessions.extractSessionCookie headers name) value ↔
      Returns (extractCookie headers name) value := and_self_iff
  rw [hself]
  have hreached : p.Reached ↔ ((∀ header ∈ p.before, ∀ b ∈ header, isVisibleAscii b = true) ∧
      ∀ cookie ∈ p.before.flatMap cookiesOf, cookie ≠ tokenBytes name) ∧
        (∀ b ∈ p.header, isVisibleAscii b = true) ∧ ¬∃ other ∈ p.earlier, other = tokenBytes name := by
    constructor
    · intro h
      have hreadable := h.readable
      have hunnamed := h.unnamed
      rw [List.forall_mem_append, List.forall_mem_singleton] at hreadable
      rw [List.forall_mem_append] at hunnamed
      exact ⟨⟨hreadable.1, hunnamed.1⟩, hreadable.2, fun ⟨other, hother, heq⟩ => hunnamed.2 other hother heq⟩
    · rintro ⟨⟨hreadable, hunnamed⟩, hheader, hbare⟩
      refine ⟨?_, ?_⟩
      · rw [List.forall_mem_append, List.forall_mem_singleton]
        exact ⟨hreadable, hheader⟩
      · rw [List.forall_mem_append]
        exact ⟨hunnamed, fun other hother heq => hbare ⟨other, hother, heq⟩⟩
  rw [hreached]
  rcases extractFrom_before (equals_notMem p.pair) hbefore (p.header :: p.after) with ⟨hbeforeOk, hgo⟩ | ⟨hnot, hstop⟩
  · rw [and_iff_right hbeforeOk, hresult, hgo]
    by_cases hvisible : ∀ b ∈ p.header, isVisibleAscii b = true
    · rw [and_iff_right hvisible, extractFrom_pair hvisible p.cookies_eq p.pair hearlier]
      have hcookie : p.cookie ∈ cookiesOf p.header := by
        rw [p.cookies_eq]
        exact List.mem_append_right _ (List.mem_cons_self ..)
      have hvalue : tokenBytes (value.map Text.byteChar) = value := Text.bytes_byteChars fun b hb =>
        visible_lt (hvisible b (mem_cookiesOf hcookie (pairOf_subset p.pair hb)))
      split
      · rename_i hbare
        exact iff_of_false (fun h => by cases h) fun h => h hbare
      · rename_i hbare
        exact iff_of_true (congrArg some hvalue) hbare
    · rw [extractFrom_unreadable hvisible]
      exact iff_of_false (fun h => by cases h) fun h => hvisible h.1
  · rw [hresult, hstop]
    exact iff_of_false (fun h => by cases h) fun h => hnot h.1

/-! ### A neighbour -/

/-- A session cookie behind a cookie whose value is the UTF-8 text `é`. -/
def accented : HeaderMap := [("cookie".toList, tokenBytes "theme=é; sid=abc".toList)]

theorem accented_earlier : ∀ other ∈ [tokenBytes "theme=é".toList],
    ∀ value, pairOf other ≠ some (tokenBytes "sid".toList, value) := by
  rw [List.forall_mem_singleton]
  intro value h
  have hname : (pairOf (tokenBytes "theme=é".toList)).map Prod.fst ≠ some (tokenBytes "sid".toList) := by decide +kernel
  exact hname (by rw [h, Option.map_some])

def sidPair : SinglePair accented "sid".toList (tokenBytes "abc".toList) where
  before := []
  header := tokenBytes "theme=é; sid=abc".toList
  after := []
  earlier := [tokenBytes "theme=é".toList]
  cookie := tokenBytes "sid=abc".toList
  later := []
  headers_eq := by decide +kernel
  cookies_eq := by decide +kernel
  pair := by decide +kernel
  single := accented_earlier

/-- The session cookie is not found. -/
theorem accented_lost : Nonempty (SinglePair accented "sid".toList (tokenBytes "abc".toList)) ∧
    ¬ Returns (extractCookie accented "sid".toList) (tokenBytes "abc".toList) := by
  have hnone : extractCookie accented "sid".toList = none := by decide +kernel
  refine ⟨⟨sidPair⟩, ?_⟩
  rw [hnone]
  intro h
  cases h

end Djangors.Http
