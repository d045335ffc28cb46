import Djangors.Http.Router

/-! # Reversed paths

A reversed path selects its route, and the handler sees the values as they are encoded in the path: nothing
decodes them. -/

namespace Djangors.Http

/-! ### Patterns -/

theorem literal_of_parsePart {part text : List Char} (h : parsePart part = .literal text) : part = text := by
  unfold parsePart at h
  split at h
  · dsimp only at h
    split at h <;> cases h
  · split at h
    · cases h
    · exact Slot.literal.inj h

/-- A literal of a pattern is not empty, and has no slash. -/
theorem literal_slotsOf {pattern text : List Char} (h : .literal text ∈ slotsOf pattern) : text ≠ [] ∧ '/' ∉ text := by
  rcases List.mem_map.mp h with ⟨part, hpart, hslot⟩
  rw [literal_of_parsePart hslot] at hpart
  rcases List.mem_filter.mp hpart with ⟨hmem, hne⟩
  exact ⟨of_decide_eq_true hne, Path.notMem_of_mem_splitOn hmem⟩

namespace Route
variable {H : Type} (route : Route H)

theorem segments_eq : route.segments = route.slots.map Slot.segment := congrArg Prod.fst route.parsed

theorem paramNames_eq : route.paramNames = route.slots.filterMap Slot.name? := congrArg Prod.snd route.parsed

theorem mem_paramNames {name : List Char} :
    name ∈ route.paramNames ↔ ∃ type, .capture type name ∈ route.slots := by
  rw [paramNames_eq, List.mem_filterMap]
  constructor
  · rintro ⟨slot, hslot, hname⟩
    cases slot with
    | literal text => cases hname
    | capture type other =>
      cases hname
      exact ⟨type, hslot⟩
  · rintro ⟨type, hslot⟩
    exact ⟨_, hslot, rfl⟩

end Route

/-! ### Filling and matching -/

/-- A part of a path, with a value for each name. -/
def Slot.part (value : List Char → List Char) : Slot → List Char
  | .literal text => text
  | .capture _ name => value name

theorem names_literal (text : List Char) (slots : List Slot) :
    (Slot.literal text :: slots).filterMap Slot.name? = slots.filterMap Slot.name? := rfl

theorem names_capture (type : CaptureType) (name : List Char) (slots : List Slot) :
    (Slot.capture type name :: slots).filterMap Slot.name? = name :: slots.filterMap Slot.name? := rfl

section Slots
variable {slots : List Slot} {value : List Char → List Char} {params : List (List Char × List Char)}

theorem fillSegments_slots (encoding : Path.PercentEncoding)
    (h : ∀ type name, .capture type name ∈ slots → params.lookup name = some (value name)) :
    fillSegments encoding params (slots.map Slot.segment) (slots.filterMap Slot.name?) =
      some (slots.map (Slot.part fun name => encoding.encode pathSegmentSet (value name))) := by
  induction slots with
  | nil => rfl
  | cons slot slots ih =>
    have ih := ih fun type name hmem => h type name (List.mem_cons_of_mem _ hmem)
    cases slot with
    | literal text =>
      rw [List.map_cons, Slot.segment, names_literal, fillSegments, ih]
      rfl
    | capture type name =>
      rw [List.map_cons, Slot.segment, names_capture, fillSegments, h type name (List.mem_cons_self ..), ih]
      rfl

theorem matchSegments_slots (seen : PathParams)
    (h : ∀ type name, .capture type name ∈ slots → type.accepts (value name) = true) :
    matchSegments (slots.map Slot.segment) (slots.filterMap Slot.name?) (slots.map (Slot.part value)) seen =
      some ((slots.filterMap Slot.name?).foldl (fun seen name => seen.insert name (value name)) seen) := by
  induction slots generalizing seen with
  | nil => rfl
  | cons slot slots ih =>
    have ih := fun seen => ih seen fun type name hmem => h type name (List.mem_cons_of_mem _ hmem)
    cases slot with
    | literal text =>
      rw [List.map_cons, List.map_cons, Slot.segment, Slot.part, names_literal, matchSegments, if_pos rfl, ih]
    | capture type name =>
      rw [List.map_cons, List.map_cons, Slot.segment, Slot.part, names_capture, matchSegments,
        if_pos (h type name (List.mem_cons_self ..)), ih]
      rfl

theorem get_insertAll (value : List Char → List Char) (names : List (List Char)) (seen : PathParams) (key : List Char) :
    (names.foldl (fun seen name => seen.insert name (value name)) seen).get key =
      if key ∈ names then some (value key) else seen.get key := by
  induction names generalizing seen with
  | nil => rfl
  | cons name names ih =>
    rw [List.foldl_cons, ih]
    by_cases hmem : key ∈ names
    · rw [if_pos hmem, if_pos (List.mem_cons_of_mem _ hmem)]
    · rw [if_neg hmem]
      by_cases hkey : key = name
      · rw [hkey, PathParams.get_insert_self, if_pos (List.mem_cons_self ..)]
      · rw [PathParams.get_insert_of_ne hkey, if_neg (List.not_mem_cons_of_ne_of_not_mem hkey hmem)]

end Slots

/-! ### Values -/

theorem kept_of_toNat {c : Char} (lower : 32 < c.toNat) (upper : c.toNat < 127)
    (h : c.toNat ∉ [34, 35, 47, 60, 62, 63, 96, 123, 125]) : Path.Kept pathSegmentSet c := by
  refine ⟨by omega, ?_⟩
  have hmem : c ∉ [' ', '"', '#', '<', '>', '?', '`', '{', '}', '/'] := by
    intro hc
    simp only [List.mem_cons, List.not_mem_nil, or_false] at hc
    rcases hc with rfl | rfl | rfl | rfl | rfl | rfl | rfl | rfl | rfl | rfl <;> revert lower h <;> decide
  simp only [pathSegmentSet, Bool.or_eq_false_iff, decide_eq_false_iff_not, beq_eq_false_iff_ne]
  exact ⟨⟨by omega, by omega⟩, hmem⟩

theorem kept_of_isDigit {c : Char} (h : c.isDigit = true) : Path.Kept pathSegmentSet c := by
  simp only [Char.isDigit, Bool.and_eq_true, decide_eq_true_eq, UInt32.le_iff_toNat_le, ge_iff_le] at h
  have hc : 48 ≤ c.toNat ∧ c.toNat ≤ 57 := h
  refine kept_of_toNat (by omega) (by omega) ?_
  simp only [List.mem_cons, List.not_mem_nil, or_false]
  omega

theorem kept_of_isSlugChar {c : Char} (h : CaptureType.isSlugChar c = true) : Path.Kept pathSegmentSet c := by
  have cases : (((c.isUpper || c.isLower) || c.isDigit) || c == '-' || c == '_') = true := h
  simp only [Bool.or_eq_true, beq_iff_eq] at cases
  rcases cases with (((h | h) | h) | rfl) | rfl
  · have hc : 65 ≤ c.toNat ∧ c.toNat ≤ 90 := of_decide_eq_true h
    refine kept_of_toNat (by omega) (by omega) ?_
    simp only [List.mem_cons, List.not_mem_nil, or_false]
    omega
  · rcases Bool.and_eq_true_iff.mp h with ⟨hlower, hupper⟩
    have hlower : 97 ≤ c.toNat := of_decide_eq_true hlower
    have hupper : c.toNat ≤ 122 := of_decide_eq_true hupper
    refine kept_of_toNat (by omega) (by omega) ?_
    simp only [List.mem_cons, List.not_mem_nil, or_false]
    omega
  · exact kept_of_isDigit h
  · decide
  · decide

theorem kept_of_parseSigned {bound : Nat} {text : List Char} (h : (Text.parseSigned bound text).isSome) :
    text ≠ [] ∧ ∀ c ∈ text, Path.Kept pathSegmentSet c := by
  have digits : ∀ text, (Text.digits? text).isSome → text ≠ [] ∧ ∀ c ∈ text, Path.Kept pathSegmentSet c := by
    intro text h
    rw [Text.digits?] at h
    split at h
    · rename_i hdigits
      exact ⟨hdigits.1, fun c hc => kept_of_isDigit (List.all_eq_true.mp hdigits.2 c hc)⟩
    · cases h
  have signed : ∀ sign rest, Path.Kept pathSegmentSet sign → (Text.digits? rest).isSome →
      sign :: rest ≠ [] ∧ ∀ c ∈ sign :: rest, Path.Kept pathSegmentSet c := fun sign rest hsign hrest =>
    ⟨List.cons_ne_nil _ _, List.forall_mem_cons.mpr ⟨hsign, (digits rest hrest).2⟩⟩
  unfold Text.parseSigned at h
  have h := Option.isSome_of_isSome_filter _ _ h
  split at h
  · exact signed _ _ (by decide) (by rwa [Option.isSome_map] at h)
  · exact signed _ _ (by decide) (by rwa [Option.isSome_map] at h)
  · exact digits text (by rwa [Option.isSome_map] at h)
/-- A value for a typed capture is its own encoding. -/
theorem kept_of_valid {type : CaptureType} {value : List Char} (h : type.Valid value) (typed : type ≠ .string) :
    value ≠ [] ∧ ∀ c ∈ value, Path.Kept pathSegmentSet c := by
  cases type with
  | string => exact absurd rfl typed
  | i64 => exact kept_of_parseSigned h
  | slug => exact ⟨h.1, fun c hc => kept_of_isSlugChar (List.all_eq_true.mp h.2 c hc)⟩

theorem accepts_encode (encoding : Path.PercentEncoding) {type : CaptureType} {value : List Char} (h : type.Valid value) :
    type.accepts (encoding.encode pathSegmentSet value) = true := by
  by_cases typed : type = .string
  · subst typed
    rfl
  · rw [(encoding.eq_self _ _).mpr (kept_of_valid h typed).2]
    cases type with
    | string => rfl
    | i64 => exact h
    | slug => exact h.2

/-! ### Selecting a route -/

section Selecting
variable {H : Type} {router : Router H} {idx : Nat} {route : Route H} {path : List Char} {seen : PathParams}

theorem matchPath_eq_some {method : Method} (h : router.matchPath path method = some (idx, seen)) :
    ∃ route, router.routes[idx]? = some route ∧ route.matchParts method (Path.parts path) = some seen := by
  rcases List.exists_of_findSome?_eq_some h with ⟨⟨route, j⟩, hmem, hmatch⟩
  rcases Option.map_eq_some_iff.mp hmatch with ⟨params, hparts, heq⟩
  cases heq
  exact ⟨route, List.mk_mem_zipIdx_iff_getElem?.mp hmem, hparts⟩

/-- The first route that matches is selected. -/
theorem matchPath_of_first {method : Method} (hroute : router.routes[idx]? = some route)
    (first : ¬router.Earlier idx path method) (h : route.matchParts method (Path.parts path) = some seen) :
    router.matchPath path method = some (idx, seen) := by
  rcases List.getElem?_eq_some_iff.mp hroute with ⟨hidx, hget⟩
  have split : router.routes = router.routes.take idx ++ route :: router.routes.drop (idx + 1) := by
    rw [← hget, List.getElem_cons_drop, List.take_append_drop]
  have hlen : (router.routes.take idx).length = idx := List.length_take_of_le hidx.le
  refine List.findSome?_eq_some_iff.mpr
    ⟨(router.routes.take idx).zipIdx, (route, idx), (router.routes.drop (idx + 1)).zipIdx (idx + 1), ?_, ?_, ?_⟩
  · conv_lhs => rw [split]
    rw [List.zipIdx_append, hlen, Nat.zero_add, List.zipIdx_cons]
  · rw [h]
    rfl
  · rintro ⟨other, j⟩ hmem
    rw [List.mk_mem_zipIdx_iff_getElem?, List.getElem?_take] at hmem
    split at hmem
    · rename_i hj
      rw [Option.map_eq_none_iff, ← Option.not_isSome_iff_eq_none]
      exact fun hmatch => first ⟨j, hj, other, hmem, hmatch⟩
    · cases hmem

end Selecting

/-! ### There and back -/

section RoundTrip
variable {H : Type} (encoding : Path.PercentEncoding) {router : Router H} {idx : Nat} {route : Route H}
  {name : List Char} {params : List (List Char × List Char)}

/-- The value that is given for a name. -/
def valueOf (params : List (List Char × List Char)) (name : List Char) : List Char := (params.lookup name).getD []

/-- What is put into the path for a name. -/
def encoded (params : List (List Char × List Char)) (name : List Char) : List Char :=
  encoding.encode pathSegmentSet (valueOf params name)

/-- The path of a route. -/
def Route.pathFor (route : Route H) (params : List (List Char × List Char)) : List Char :=
  '/' :: Path.join (route.slots.map (Slot.part (encoded encoding params)))

theorem Route.Assigned.lookup (assigned : route.Assigned params) {type : CaptureType} {name : List Char}
    (h : .capture type name ∈ route.slots) :
    params.lookup name = some (valueOf params name) ∧ type.Valid (valueOf params name) := by
  rcases assigned.valid type name h with ⟨value, hvalue, valid⟩
  rw [valueOf, hvalue]
  exact ⟨rfl, valid⟩

/-- The name of a route finds it. -/
theorem find?_name (hroute : router.routes[idx]? = some route) (hname : route.name = some name) :
    router.routes.find? (·.name == some name) = some route := by
  rcases List.getElem?_eq_some_iff.mp hroute with ⟨hidx, hget⟩
  have split : router.routes = router.routes.take idx ++ route :: router.routes.drop (idx + 1) := by
    rw [← hget, List.getElem_cons_drop, List.take_append_drop]
  refine List.find?_eq_some_iff_append.mpr ⟨beq_iff_eq.mpr hname, _, _, split, fun other hother => ?_⟩
  have names := router.names
  rw [split, List.filterMap_append, List.filterMap_cons_some hname, List.nodup_append] at names
  rw [Bool.not_eq_true', beq_eq_false_iff_ne]
  exact fun hsame => names.2.2 name (List.mem_filterMap.mpr ⟨other, hother, hsame⟩) name (List.mem_cons_self ..) rfl

/-- Assigned parameters are reversed. -/
theorem reverse_eq (hroute : router.routes[idx]? = some route) (hname : route.name = some name)
    (assigned : route.Assigned params) :
    router.reverse encoding name params = some (.ok (route.pathFor encoding params)) := by
  have known : params.find? (fun entry => decide (entry.1 ∉ route.paramNames)) = none :=
    List.find?_eq_none.mpr fun entry hentry => by simpa using assigned.known entry hentry
  have complete : route.paramNames.find? (fun param => params.all fun entry => decide (entry.1 ≠ param)) = none := by
    refine List.find?_eq_none.mpr fun param hparam hall => ?_
    rcases route.mem_paramNames.mp hparam with ⟨type, hslot⟩
    have given : (params.lookup param).isSome := by
      rw [(assigned.lookup hslot).1]
      rfl
    rcases List.lookup_isSome_iff.mp given with ⟨entry, hentry, hkey⟩
    exact of_decide_eq_true (List.all_eq_true.mp hall entry hentry) (beq_iff_eq.mp hkey).symm
  rw [Router.reverse, find?_name hroute hname]
  simp only [known, complete]
  rw [route.segments_eq, route.paramNames_eq, fillSegments_slots encoding fun type name h => (assigned.lookup h).1]
  rfl

theorem slash_notMem_pathFor : ∀ part ∈ route.slots.map (Slot.part (encoded encoding params)), '/' ∉ part := by
  intro part hpart
  rcases List.mem_map.mp hpart with ⟨slot, hslot, rfl⟩
  cases slot with
  | literal text => exact (literal_slotsOf hslot).2
  | capture type name => exact encoding.noSlash rfl _

/-- A part is empty where an empty value is put in. -/
theorem part_ne_nil (assigned : route.Assigned params) {slot? : Option Slot} (h : ∀ slot ∈ slot?, slot ∈ route.slots) :
    slot?.map (Slot.part (encoded encoding params)) ≠ some [] ↔
      ∀ type name, slot? = some (.capture type name) → params.lookup name ≠ some [] := by
  cases slot? with
  | none =>
    refine ⟨fun _ _ _ h => ?_, fun _ h => ?_⟩ <;> cases h
  | some slot =>
    rw [Option.map_some, ne_eq, Option.some_inj]
    cases slot with
    | literal text => exact ⟨fun _ _ _ h => (by cases h), fun _ => (literal_slotsOf (h _ rfl)).1⟩
    | capture type name =>
      rw [Slot.part, encoded, encoding.eq_nil]
      have given := (assigned.lookup (h _ rfl)).1
      constructor
      · rintro hne _ _ ⟨⟩ hnil
        exact hne (Option.some_inj.mp (given.symm.trans hnil))
      · intro hall hnil
        exact hall type name rfl (given.trans (congrArg some hnil))

/-- The path keeps all its parts when no value at an end is empty. -/
theorem inner_pathFor (assigned : route.Assigned params) :
    Path.inner (route.slots.map (Slot.part (encoded encoding params))) =
        route.slots.map (Slot.part (encoded encoding params)) ↔
      ∀ type name, route.slots.head? = some (.capture type name) ∨ route.slots.getLast? = some (.capture type name) →
        params.lookup name ≠ some [] := by
  rw [Path.inner_eq_self, List.head?_map, List.getLast?_map,
    part_ne_nil encoding assigned fun _ h => List.mem_of_mem_head? h,
    part_ne_nil encoding assigned fun _ h => List.mem_of_mem_getLast? h]
  simp only [or_imp, forall_and]

theorem matchParts_eq (route : Route H) (method : Method) (parts : List (List Char)) :
    route.matchParts method parts =
      if route.method = method ∧ route.slots.length = parts.length then
        matchSegments (route.slots.map Slot.segment) (route.slots.filterMap Slot.name?) parts .new
      else none := by
  rw [Route.matchParts, ← route.segments_eq, ← route.paramNames_eq, ← List.length_map (f := Slot.segment),
    ← route.segments_eq]
  by_cases hmethod : route.method = method <;> by_cases hlen : route.segments.length = parts.length <;>
    simp [hmethod, hlen]

/-- What a route sees of its own path. -/
theorem matchParts_pathFor (assigned : route.Assigned params) :
    route.matchParts route.method (Path.parts (route.pathFor encoding params)) =
      if Path.inner (route.slots.map (Slot.part (encoded encoding params))) =
          route.slots.map (Slot.part (encoded encoding params)) then
        some (route.paramNames.foldl (fun seen name => seen.insert name (encoded encoding params name)) .new)
      else none := by
  rw [Route.pathFor, Path.parts_join (slash_notMem_pathFor encoding), matchParts_eq]
  split
  · rename_i h
    have hlen := h.2
    rw [← List.length_map (f := Slot.part (encoded encoding params)), eq_comm, Path.inner_length] at hlen
    rw [if_pos hlen, hlen, route.paramNames_eq]
    exact matchSegments_slots _ fun type name hslot => accepts_encode encoding (assigned.lookup hslot).2
  · rename_i h
    rw [if_neg]
    intro heq
    exact h ⟨rfl, by rw [heq, List.length_map]⟩

theorem reverse_selects_iff (hroute : router.routes[idx]? = some route) (hname : route.name = some name)
    (assigned : route.Assigned params) :
    ∃ path, router.reverse encoding name params = some (.ok path) ∧
      (¬router.Earlier idx path route.method →
        (router.Selects idx path route.method params ↔ route.Survives params)) := by
  refine ⟨route.pathFor encoding params, reverse_eq encoding hroute hname assigned, fun first => ?_⟩
  have hmatch := matchParts_pathFor encoding assigned
  have hget := get_insertAll (encoded encoding params) route.paramNames .new
  constructor
  · rintro ⟨seen, hseen, hvalues⟩
    rcases matchPath_eq_some hseen with ⟨_, hroute', hparts⟩
    obtain rfl := Option.some_inj.mp (hroute.symm.trans hroute')
    rw [hmatch] at hparts
    split at hparts
    · rename_i hinner
      refine ⟨fun param value hvalue => ?_, (inner_pathFor encoding assigned).mp hinner⟩
      have hsame := hvalues param
      rw [← Option.some_inj.mp hparts, hget, hvalue] at hsame
      split at hsame
      · have := Option.some_inj.mp hsame
        rw [encoded, valueOf, hvalue] at this
        exact (encoding.eq_self _ _).mp this
      · cases hsame
    · cases hparts
  · intro survives
    rw [if_pos ((inner_pathFor encoding assigned).mpr survives.ends)] at hmatch
    refine ⟨_, matchPath_of_first hroute first hmatch, fun key => ?_⟩
    rw [hget]
    split
    · rename_i hkey
      rcases route.mem_paramNames.mp hkey with ⟨type, hslot⟩
      have given := (assigned.lookup hslot).1
      rw [given, encoded, (encoding.eq_self _ _).mpr (survives.kept key _ given)]
    · rename_i hkey
      rw [PathParams.get_new, eq_comm, List.lookup_eq_none_iff]
      intro entry hentry
      rw [bne_iff_ne]
      rintro rfl
      exact hkey (assigned.known entry hentry)

end RoundTrip

/-! ### A search page -/

def searchRoute : Route Unit := .ofPattern "search/{query}".toList .get () (some "search".toList)

def searchRouter : Router Unit := Router.new.push searchRoute fun _ _ => rfl

example : (Router.new.route "/search/{query}".toList .get ()).name "search".toList = some searchRouter := rfl

def queryParams (query : String) : List (List Char × List Char) := [("query".toList, query.toList)]

theorem queryParams_assigned (query : String) : searchRoute.Assigned (queryParams query) where
  known := by
    intro entry hentry
    rw [List.mem_singleton.mp hentry]
    exact List.mem_singleton_self _
  valid := by
    have hslots : searchRoute.slots = [.literal "search".toList, .capture .string "query".toList] := rfl
    intro type name hslot
    rw [hslots] at hslot
    rcases List.mem_cons.mp hslot with h | h
    · cases h
    · cases List.mem_singleton.mp h
      exact ⟨query.toList, rfl, trivial⟩

theorem rust_selects : ∃ path,
    searchRouter.reverse Path.utf8PercentEncode "search".toList (queryParams "rust") = some (.ok path) ∧
      (¬searchRouter.Earlier 0 path .get →
        (searchRouter.Selects 0 path .get (queryParams "rust") ↔ searchRoute.Survives (queryParams "rust"))) :=
  reverse_selects_iff Path.utf8PercentEncode rfl rfl (queryParams_assigned "rust")

/-- A space comes back as `%20`. -/
theorem space_stays_encoded : ∃ path, searchRoute.Assigned (queryParams "a b") ∧
    searchRouter.reverse Path.utf8PercentEncode "search".toList (queryParams "a b") = some (.ok path) ∧
      ¬searchRouter.Earlier 0 path .get ∧ ¬searchRouter.Selects 0 path .get (queryParams "a b") := by
  refine ⟨"/search/a%20b".toList, queryParams_assigned "a b", rfl, ?_, ?_⟩
  · rintro ⟨j, hj, -⟩
    exact Nat.not_lt_zero j hj
  · rintro ⟨seen, hseen, hvalues⟩
    have hmatch : (searchRouter.matchPath "/search/a%20b".toList .get).map (fun found => found.2.get "query".toList) =
        some (some "a%20b".toList) := rfl
    rw [hseen, Option.map_some, hvalues] at hmatch
    cases hmatch

end Djangors.Http
