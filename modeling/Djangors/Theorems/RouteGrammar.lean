import Djangors.Theorems.Reverse

/-! # The grammar of routes

The patterns that the documentation of `Router` describes, and which requests a router matches by them. -/

namespace Djangors.Http

/-! ### Patterns -/

/-- What a part of a pattern is written for. A type other than `i64` and `slug` is no type. -/
inductive Reads : List Char → Slot → Prop
  | untyped {name : List Char} (h : ':' ∉ name) : Reads ('{' :: name ++ ['}']) (.capture .string name)
  | i64 {name : List Char} (h : ':' ∉ name) : Reads ('{' :: name ++ ':' :: "i64".toList ++ ['}']) (.capture .i64 name)
  | slug {name : List Char} (h : ':' ∉ name) : Reads ('{' :: name ++ ':' :: "slug".toList ++ ['}']) (.capture .slug name)
  | other {name type : List Char} (h : ':' ∉ name) (hi64 : type ≠ "i64".toList) (hslug : type ≠ "slug".toList) :
      Reads ('{' :: name ++ ':' :: type ++ ['}']) (.capture .string name)
  | short (name : List Char) : Reads (':' :: name) (.capture .string name)
  | literal {text : List Char} (hbraces : ¬(text.head? = some '{' ∧ text.getLast? = some '}'))
      (hcolon : text.head? ≠ some ':') : Reads text (.literal text)

/-- The type of a capture by its name. -/
def typeOf (type : List Char) : CaptureType :=
  if type = "i64".toList then .i64 else if type = "slug".toList then .slug else .string

section Parts
variable {part name type : List Char} {slot : Slot}

theorem takeWhile_ne_colon (h : ':' ∉ name) (rest : List Char) :
    (name ++ ':' :: rest).takeWhile (fun c => decide (c ≠ ':')) = name := by
  have kept : ∀ c ∈ name, decide (c ≠ ':') = true := fun c hc => decide_eq_true (ne_of_mem_of_not_mem hc h)
  rw [List.takeWhile_append_of_pos kept, List.takeWhile_cons_of_neg (by simp), List.append_nil]

theorem parsePart_untyped (h : ':' ∉ name) : parsePart ('{' :: name ++ ['}']) = .capture .string name := by
  have last : ('{' :: name ++ ['}']).getLast? = some '}' := List.getLast?_concat
  have inside : ('{' :: name ++ ['}']).tail.dropLast = name := List.dropLast_concat
  have whole : name.takeWhile (fun c => decide (c ≠ ':')) = name :=
    List.takeWhile_eq_self_iff.mpr fun c hc => decide_eq_true (ne_of_mem_of_not_mem hc h)
  unfold parsePart
  rw [if_pos ⟨rfl, last⟩]
  simp only [inside, whole, List.drop_length]

theorem parsePart_typed (h : ':' ∉ name) (type : List Char) :
    parsePart ('{' :: name ++ ':' :: type ++ ['}']) = .capture (typeOf type) name := by
  have last : ('{' :: name ++ ':' :: type ++ ['}']).getLast? = some '}' := List.getLast?_concat
  have inside : ('{' :: name ++ ':' :: type ++ ['}']).tail.dropLast = name ++ ':' :: type := List.dropLast_concat
  unfold parsePart
  rw [if_pos ⟨rfl, last⟩]
  simp only [inside, takeWhile_ne_colon h, List.drop_left]
  rfl

theorem parsePart_of_reads (h : Reads part slot) : slot = parsePart part := by
  cases h with
  | untyped hname => exact (parsePart_untyped hname).symm
  | i64 hname => rw [parsePart_typed hname, typeOf, if_pos rfl]
  | slug hname => rw [parsePart_typed hname, typeOf, if_neg (by decide), if_pos rfl]
  | other hname hi64 hslug => rw [parsePart_typed hname, typeOf, if_neg hi64, if_neg hslug]
  | short name => rfl
  | literal hbraces hcolon =>
    unfold parsePart
    rw [if_neg hbraces]
    split
    · exact absurd rfl hcolon
    · rfl

theorem exists_inner (h : part.head? = some '{' ∧ part.getLast? = some '}') : ∃ inner, part = '{' :: inner ++ ['}'] := by
  rcases List.head?_eq_some_iff.mp h.1 with ⟨rest, rfl⟩
  rcases List.getLast?_eq_some_iff.mp h.2 with ⟨init, hinit⟩
  cases init with
  | nil => simp at hinit
  | cons c init =>
    rw [List.cons_append, List.cons.injEq] at hinit
    exact ⟨init, by rw [hinit.2, List.cons_append]⟩

theorem reads_braces (inner : List Char) : Reads ('{' :: inner ++ ['}']) (parsePart ('{' :: inner ++ ['}'])) := by
  by_cases hcolon : ':' ∈ inner
  · rcases List.eq_append_cons_of_mem hcolon with ⟨name, type, rfl, hname⟩
    rw [← List.cons_append, parsePart_typed hname, typeOf]
    by_cases hi64 : type = "i64".toList
    · rw [if_pos hi64, hi64]
      exact .i64 hname
    by_cases hslug : type = "slug".toList
    · rw [if_neg hi64, if_pos hslug, hslug]
      exact .slug hname
    rw [if_neg hi64, if_neg hslug]
    exact .other hname hi64 hslug
  · rw [parsePart_untyped hcolon]
    exact .untyped hcolon

/-- Every part of a pattern is read in one way, and `parse_pattern` reads it so. -/
theorem reads_iff : Reads part slot ↔ slot = parsePart part := by
  refine ⟨parsePart_of_reads, ?_⟩
  rintro rfl
  by_cases hbraces : part.head? = some '{' ∧ part.getLast? = some '}'
  · rcases exists_inner hbraces with ⟨inner, rfl⟩
    exact reads_braces inner
  unfold parsePart
  rw [if_neg hbraces]
  split
  · exact .short _
  · rename_i hshort
    refine .literal hbraces fun hcolon => ?_
    rcases List.head?_eq_some_iff.mp hcolon with ⟨name, hname⟩
    exact hshort name hname

end Parts

/-- The slots that a pattern is written for. Empty parts of a pattern stand for nothing. -/
def Grammar (pattern : List Char) (slots : List Slot) : Prop :=
  List.Forall₂ Reads ((pattern.splitOn '/').filter (· ≠ [])) slots

theorem grammar_iff {pattern : List Char} {slots : List Slot} : Grammar pattern slots ↔ slots = slotsOf pattern := by
  rw [Grammar, slotsOf]
  generalize (pattern.splitOn '/').filter (· ≠ []) = parts
  induction parts generalizing slots with
  | nil => rw [List.forall₂_nil_left_iff, List.map_nil]
  | cons part parts ih =>
    rw [List.forall₂_cons_left_iff, List.map_cons]
    constructor
    · rintro ⟨slot, rest, hslot, hrest, rfl⟩
      rw [reads_iff.mp hslot, ih.mp hrest]
    · rintro rfl
      exact ⟨_, _, reads_iff.mpr rfl, ih.mpr rfl, rfl⟩

/-! ### Parts of a path -/

/-- The documented fit of a part of a path. -/
def Slot.Fits : Slot → List Char → Prop
  | .literal text, part => part = text
  | .capture type _, part => part ≠ [] ∧ type.Valid part

/-- The fit that `match_path` tests. -/
def Slot.Takes : Slot → List Char → Prop
  | .literal text, part => part = text
  | .capture type _, part => type.accepts part = true

/-- What the captures of a route stand for in a path. -/
def captured : List Slot → List (List Char) → List (List Char × List Char)
  | .literal _ :: slots, _ :: parts => captured slots parts
  | .capture _ name :: slots, part :: parts => (name, part) :: captured slots parts
  | [], _ => []
  | _ :: _, [] => []

section Fit
variable {slots : List Slot} {parts : List (List Char)}

theorem Slot.fits_iff {slot : Slot} {part : List Char} :
    slot.Fits part ↔ slot.Takes part ∧ ∀ type name, slot = .capture type name → part ≠ [] := by
  cases slot with
  | literal text => simp [Slot.Fits, Slot.Takes]
  | capture type name =>
    cases type with
    | string => simp [Slot.Fits, Slot.Takes, CaptureType.accepts, CaptureType.Valid]
    | i64 => simp [Slot.Fits, Slot.Takes, CaptureType.accepts, CaptureType.Valid, and_comm]
    | slug => simp [Slot.Fits, Slot.Takes, CaptureType.accepts, CaptureType.Valid, and_comm]

/-- The documented fit is that of `match_path`, with no empty part captured. -/
theorem forall₂_fits_iff :
    List.Forall₂ Slot.Fits slots parts ↔ List.Forall₂ Slot.Takes slots parts ∧ ∀ entry ∈ captured slots parts, entry.2 ≠ [] := by
  induction slots generalizing parts with
  | nil => cases parts <;> simp [captured]
  | cons slot slots ih =>
    cases parts with
    | nil => simp
    | cons part parts =>
      rw [List.forall₂_cons, List.forall₂_cons, ih, Slot.fits_iff]
      cases slot with
      | literal text =>
        simp [captured, and_assoc]
      | capture type name =>
        simp only [captured, List.forall_mem_cons, Slot.capture.injEq, and_imp]
        tauto

theorem matchSegments_eq_some (hlen : slots.length = parts.length) {seen out : PathParams} :
    matchSegments (slots.map Slot.segment) (slots.filterMap Slot.name?) parts seen = some out ↔
      List.Forall₂ Slot.Takes slots parts ∧
        out = (captured slots parts).foldl (fun seen entry => seen.insert entry.1 entry.2) seen := by
  induction slots generalizing parts seen with
  | nil =>
    cases parts with
    | nil => simp [matchSegments, captured, eq_comm]
    | cons part parts => cases hlen
  | cons slot slots ih =>
    cases parts with
    | nil => cases hlen
    | cons part parts =>
      have ih := @ih parts (Nat.succ.inj hlen)
      cases slot with
      | literal text =>
        rw [List.map_cons, Slot.segment, names_literal, matchSegments, List.forall₂_cons, captured]
        by_cases hpart : part = text
        · rw [if_pos hpart, ih]
          simp [Slot.Takes, hpart]
        · simp [Slot.Takes, hpart]
      | capture type name =>
        rw [List.map_cons, Slot.segment, names_capture, matchSegments, List.forall₂_cons, captured, List.foldl_cons]
        by_cases hpart : type.accepts part = true
        · rw [if_pos hpart, ih]
          simp [Slot.Takes, hpart]
        · simp [Slot.Takes, hpart]

end Fit

/-! ### Captured values -/

section Captured
variable {entries : List (List Char × List Char)}

/-- Entries under one name are equal. -/
def Single (entries : List (List Char × List Char)) : Prop :=
  ∀ name part other, (name, part) ∈ entries → (name, other) ∈ entries → part = other

theorem get_foldl (seen : PathParams) (key : List Char) :
    (entries.foldl (fun seen entry => seen.insert entry.1 entry.2) seen).get key =
      ((entries.reverse.find? (·.1 = key)).map (·.2)).or (seen.get key) := by
  induction entries generalizing seen with
  | nil => simp
  | cons entry entries ih =>
    rw [List.foldl_cons, ih, List.reverse_cons, List.find?_append]
    cases entries.reverse.find? (·.1 = key) with
    | some other => simp
    | none => 
      by_cases hkey : entry.1 = key
      · simp [hkey, PathParams.get_insert_self]
      · simp [hkey, PathParams.get_insert_of_ne (Ne.symm hkey)]

/-- The parameters hold the captured parts when no name captures two different ones. -/
theorem get_captured_iff :
    (∀ name part, (entries.foldl (fun seen entry => seen.insert entry.1 entry.2) PathParams.new).get name = some part ↔
      (name, part) ∈ entries) ↔ Single entries := by
  constructor
  · intro h name part other hpart hother
    exact Option.some_inj.mp (((h name part).mpr hpart).symm.trans ((h name other).mpr hother))
  · intro single name part
    rw [get_foldl, PathParams.get_new, Option.or_none, Option.map_eq_some_iff]
    constructor
    · rintro ⟨⟨key, value⟩, hfind, rfl⟩
      have hkey : key = name := by simpa using List.find?_some hfind
      exact hkey ▸ List.mem_reverse.mp (List.mem_of_find?_eq_some hfind)
    · intro hmem
      cases hfind : entries.reverse.find? (·.1 = name) with
      | none => simpa using List.find?_eq_none.mp hfind _ (List.mem_reverse.mpr hmem)
      | some entry =>
        have hkey : entry.1 = name := by simpa using List.find?_some hfind
        have hentry : (name, entry.2) ∈ entries := hkey ▸ List.mem_reverse.mp (List.mem_of_find?_eq_some hfind)
        exact ⟨entry, rfl, single name _ _ hentry hmem⟩

end Captured

/-! ### Requests -/

namespace Route
variable {H : Type} (route : Route H) (method : Method) (parts : List (List Char))

/-- The documented match of a route. -/
def Matches : Prop :=
  route.method = method ∧ ∃ slots, Grammar route.pattern slots ∧ List.Forall₂ Slot.Fits slots parts

/-- The match that `match_path` tests. -/
def Takes : Prop := route.method = method ∧ List.Forall₂ Slot.Takes route.slots parts

/-- The name and the part of each capture of the route. -/
def captures : List (List Char × List Char) := captured route.slots parts

variable {route method parts}

theorem matches_iff : route.Matches method parts ↔
    route.Takes method parts ∧ ∀ entry ∈ route.captures parts, entry.2 ≠ [] := by
  simp only [Matches, Takes, captures, slots, grammar_iff, exists_eq_left, forall₂_fits_iff, and_assoc]

theorem matchParts_eq_some {seen : PathParams} : route.matchParts method parts = some seen ↔
    route.Takes method parts ∧
      seen = (route.captures parts).foldl (fun seen entry => seen.insert entry.1 entry.2) .new := by
  rw [matchParts_eq, Takes, and_assoc]
  split
  · rename_i h
    rw [matchSegments_eq_some h.2, captures]
    exact (and_iff_right h.1).symm
  · rename_i h
    constructor
    · rintro ⟨⟩
    · rintro ⟨hmethod, htakes, -⟩
      exact absurd ⟨hmethod, htakes.length_eq⟩ h

theorem isSome_matchParts : (route.matchParts method parts).isSome ↔ route.Takes method parts := by
  rw [Option.isSome_iff_exists]
  simp only [matchParts_eq_some, exists_and_left, exists_eq, and_true]

end Route

namespace Router
variable {H : Type} (router : Router H) (path : List Char) (method : Method)

/-- The answer that the documentation promises: the first route that matches, with the part of each of its captures,
    and none when there is none. -/
def Documented (result : Option (Nat × PathParams)) : Prop :=
  match result with
  | none => ∀ route ∈ router.routes, ¬route.Matches method (Path.parts path)
  | some (idx, seen) => ∃ route, router.routes[idx]? = some route ∧ route.Matches method (Path.parts path) ∧
      (∀ j < idx, ∀ other, router.routes[j]? = some other → ¬other.Matches method (Path.parts path)) ∧
      ∀ name part, seen.get name = some part ↔ (name, part) ∈ route.captures (Path.parts path)

/-- The first route that takes the path captures no empty part, and one part at most under each name. -/
def Plain : Prop :=
  ∀ (idx : Nat) (route : Route H), router.routes[idx]? = some route → route.Takes method (Path.parts path) →
    (∀ j < idx, ∀ other : Route H, router.routes[j]? = some other → ¬other.Takes method (Path.parts path)) →
      (∀ entry ∈ route.captures (Path.parts path), entry.2 ≠ []) ∧ Single (route.captures (Path.parts path))

variable {router path method}

theorem earlier_iff {idx : Nat} : router.Earlier idx path method ↔
    ¬∀ j < idx, ∀ other, router.routes[j]? = some other → ¬other.Takes method (Path.parts path) := by
  simp only [Earlier, Route.isSome_matchParts, not_forall, not_not, exists_prop]

/-- No route is selected when none takes the path. -/
theorem matchPath_eq_none : router.matchPath path method = none ↔
    ∀ route ∈ router.routes, ¬route.Takes method (Path.parts path) := by
  rw [matchPath, List.findSome?_eq_none_iff]
  simp only [Option.map_eq_none_iff, ← Route.isSome_matchParts, Option.not_isSome_iff_eq_none]
  constructor
  · intro h route hmem
    rcases List.getElem?_of_mem hmem with ⟨idx, hidx⟩
    exact h _ (List.mk_mem_zipIdx_iff_getElem?.mpr hidx)
  · intro h entry hmem
    exact h _ (List.fst_mem_of_mem_zipIdx hmem)

/-- The selected route is the first that takes the path. -/
theorem not_earlier_of_matchPath {idx : Nat} {seen : PathParams} (h : router.matchPath path method = some (idx, seen)) :
    ¬router.Earlier idx path method := by
  classical
  intro hearlier
  obtain ⟨hlt, route, hroute, hmatch⟩ := Nat.find_spec hearlier
  rcases Option.isSome_iff_exists.mp hmatch with ⟨out, hout⟩
  have first : ¬router.Earlier (Nat.find hearlier) path method := by
    rintro ⟨j, hj, other, hother, hmatch⟩
    exact Nat.find_min hearlier hj ⟨hj.trans hlt, other, hother, hmatch⟩
  have hidx := (matchPath_of_first hroute first hout).symm.trans h
  exact hlt.ne (congrArg Prod.fst (Option.some_inj.mp hidx))

/-- The answer of `match_path` is that of the documentation when the route that it selects captures no empty part, and
    no two different parts under one name. -/
theorem documented_iff (router : Router H) (path : List Char) (method : Method) :
    router.Documented path method (router.matchPath path method) ↔ router.Plain path method := by
  cases hmatch : router.matchPath path method with
  | none =>
    have untaken := matchPath_eq_none.mp hmatch
    refine iff_of_true (fun route hmem hmatches => untaken route hmem (Route.matches_iff.mp hmatches).1) ?_
    intro idx route hroute htakes
    exact absurd htakes (untaken route (List.mem_of_getElem? hroute))
  | some found =>
    rcases found with ⟨idx, seen⟩
    rcases matchPath_eq_some hmatch with ⟨route, hroute, hparts⟩
    rcases Route.matchParts_eq_some.mp hparts with ⟨htakes, rfl⟩
    have first := not_not.mp (earlier_iff.not.mp (not_earlier_of_matchPath hmatch))
    constructor
    · rintro ⟨documented, hdocumented, hmatches, -, hparams⟩ j other hother hother_takes hother_first
      -- both routes are the first that takes the path
      have same : j = idx := by
        rcases lt_trichotomy j idx with hlt | heq | hgt
        · exact absurd hother_takes (first j hlt other hother)
        · exact heq
        · exact absurd htakes (hother_first idx hgt route hroute)
      subst same
      obtain rfl : documented = route := Option.some_inj.mp (hdocumented.symm.trans hroute)
      obtain rfl : other = documented := Option.some_inj.mp (hother.symm.trans hroute)
      exact ⟨(Route.matches_iff.mp hmatches).2, get_captured_iff.mp hparams⟩
    · intro plain
      rcases plain idx route hroute htakes first with ⟨filled, single⟩
      refine ⟨route, hroute, Route.matches_iff.mpr ⟨htakes, filled⟩, ?_, get_captured_iff.mpr single⟩
      intro j hj other hother hmatches
      exact first j hj other hother (Route.matches_iff.mp hmatches).1

end Router

/-! ### A doubled slash -/

/-- A route `files/{name}/raw`. -/
def rawFile : Route Unit := .ofPattern "files/{name}/raw".toList .get () none

/-- A doubled slash gives `rawFile` an empty name. -/
theorem rawFile_empty_name :
    ¬∀ (router : Router Unit) (path : List Char) (method : Method),
      router.Documented path method (router.matchPath path method) := by
  intro h
  have documented := h ⟨[rawFile], by simp [rawFile, Route.ofPattern]⟩ "/files//raw".toList .get
  generalize hresult : Router.matchPath _ _ _ = result at documented
  cases result with
  | none =>
    have selected : (Router.matchPath ⟨[rawFile], by simp [rawFile, Route.ofPattern]⟩ "/files//raw".toList .get).map
        Prod.fst = some 0 := rfl
    rw [hresult] at selected
    cases selected
  | some found =>
    rcases documented with ⟨route, hroute, hmatches, -⟩
    obtain rfl : route = rawFile := List.mem_singleton.mp (List.mem_of_getElem? hroute)
    have empty : ("name".toList, []) ∈ rawFile.captures (Path.parts "/files//raw".toList) := List.mem_singleton.mpr rfl
    exact (Route.matches_iff.mp hmatches).2 _ empty rfl

end Djangors.Http
