import Djangors.Theorems.Reverse

/-! # Mounted routers

A mounted router tries the routes of its parent, and then those of the sub-router behind the parts of the prefix. -/

namespace Djangors.Http

/-! ### Patterns under a prefix -/

theorem slotsOf_append (l r : List Char) : slotsOf (l ++ '/' :: r) = slotsOf l ++ slotsOf r := by
  rw [slotsOf, List.splitOn_append_cons_self, List.filter_append, List.map_append]
  rfl

theorem slotsOf_nil : slotsOf [] = [] := rfl

/-- Slashes at the ends of a pattern are no parts of it. -/
theorem slotsOf_trimSlashes (pattern : List Char) : slotsOf (Path.trimSlashes pattern) = slotsOf pattern := by
  have hfront : ∀ pattern : List Char, slotsOf (pattern.dropWhile (· == '/')) = slotsOf pattern := by
    intro pattern
    induction pattern with
    | nil => rfl
    | cons c pattern ih =>
      by_cases hc : c = '/'
      · subst hc
        have hnil := slotsOf_append [] pattern
        rw [List.nil_append, slotsOf_nil, List.nil_append] at hnil
        rw [List.dropWhile_cons, if_pos (beq_self_eq_true _), ih, hnil]
      · rw [List.dropWhile_cons_of_neg (by simpa using hc)]
  have hback : ∀ pattern : List Char, slotsOf (pattern.rdropWhile (· == '/')) = slotsOf pattern := by
    intro pattern
    induction pattern using List.reverseRecOn with
    | nil => rfl
    | append_singleton pattern c ih =>
      by_cases hc : c = '/'
      · subst hc
        rw [List.rdropWhile_concat, if_pos (beq_self_eq_true _), ih, slotsOf_append, slotsOf_nil, List.append_nil]
      · rw [List.rdropWhile_concat_neg _ _ _ (by simpa using hc)]
  rw [Path.trimSlashes, hback, hfront]

theorem slotsOf_fullPattern (pre pattern : List Char) :
    slotsOf (Router.fullPattern (Path.trimSlashes pre) pattern) = slotsOf pre ++ slotsOf pattern := by
  rw [Router.fullPattern]
  split
  · rename_i hnil
    rw [hnil, slotsOf_trimSlashes, slotsOf_nil, List.append_nil]
  · rw [slotsOf_append, slotsOf_trimSlashes]

/-! ### Matching and filling in two parts -/

/-- Parameters, and others for the names that they do not have. -/
def PathParams.over (seen captured : PathParams) : PathParams := ⟨seen.params ∪ captured.params⟩

theorem PathParams.get_over (seen captured : PathParams) (key : List Char) :
    (seen.over captured).get key = (seen.get key).or (captured.get key) := by
  rw [PathParams.get, PathParams.over]
  by_cases h : key ∈ seen.params
  · obtain ⟨value, hvalue⟩ := Finmap.mem_iff.mp h
    rw [Finmap.lookup_union_left h, PathParams.get, hvalue, Option.some_or]
  · rw [Finmap.lookup_union_right h, PathParams.get, Finmap.lookup_eq_none.mpr h, Option.none_or, PathParams.get]

theorem PathParams.over_new (captured : PathParams) : PathParams.new.over captured = captured :=
  congrArg PathParams.mk (Finmap.empty_union)

theorem PathParams.insert_over (seen captured : PathParams) (key value : List Char) :
    (seen.insert key value).over captured = (seen.over captured).insert key value :=
  congrArg PathParams.mk Finmap.insert_union.symm

section Slots
variable {before after : List Slot} {front rest : List (List Char)}

/-- The segments and the names of slots, matched one after the other. -/
theorem matchSegments_append (hlen : before.length = front.length) (seen : PathParams) :
    matchSegments ((before ++ after).map Slot.segment) ((before ++ after).filterMap Slot.name?) (front ++ rest) seen =
      (matchSegments (before.map Slot.segment) (before.filterMap Slot.name?) front seen).bind
        (matchSegments (after.map Slot.segment) (after.filterMap Slot.name?) rest) := by
  induction before generalizing front seen with
  | nil =>
    obtain rfl := List.length_eq_zero_iff.mp hlen.symm
    simp [matchSegments]
  | cons slot before ih =>
    cases front with
    | nil => cases hlen
    | cons part front =>
      have htail : before.length = front.length := Nat.succ.inj hlen
      cases slot with
      | literal text =>
        simp only [List.cons_append, List.map_cons, Slot.segment, names_literal, matchSegments]
        split
        · exact ih htail seen
        · rfl
      | capture type name =>
        simp only [List.cons_append, List.map_cons, Slot.segment, names_capture, matchSegments]
        split
        · exact ih htail _
        · rfl

/-- What is seen before is kept, under other names. -/
theorem matchSegments_over (slots : List Slot) (parts : List (List Char)) (seen captured : PathParams) :
    matchSegments (slots.map Slot.segment) (slots.filterMap Slot.name?) parts (seen.over captured) =
      (matchSegments (slots.map Slot.segment) (slots.filterMap Slot.name?) parts seen).map (·.over captured) := by
  induction slots generalizing parts seen with
  | nil => rfl
  | cons slot slots ih =>
    cases parts with
    | nil => cases slot <;> rfl
    | cons part parts =>
      cases slot with
      | literal text =>
        simp only [List.map_cons, Slot.segment, names_literal, matchSegments]
        split
        · exact ih parts seen
        · rfl
      | capture type name =>
        simp only [List.map_cons, Slot.segment, names_capture, matchSegments]
        split
        · rw [← PathParams.insert_over]
          exact ih parts _
        · rfl

theorem fillSegments_append (encoding : Path.PercentEncoding) (params : List (List Char × List Char)) :
    fillSegments encoding params ((before ++ after).map Slot.segment) ((before ++ after).filterMap Slot.name?) =
      (fillSegments encoding params (before.map Slot.segment) (before.filterMap Slot.name?)).bind fun front =>
        (fillSegments encoding params (after.map Slot.segment) (after.filterMap Slot.name?)).map (front ++ ·) := by
  induction before with
  | nil => simp [fillSegments]
  | cons slot before ih =>
    cases slot with
    | literal text =>
      simp only [List.cons_append, List.map_cons, Slot.segment, names_literal, fillSegments, ih]
      cases fillSegments encoding params (before.map Slot.segment) (before.filterMap Slot.name?) <;>
        simp [Function.comp_def]
    | capture type name =>
      simp only [List.cons_append, List.map_cons, Slot.segment, names_capture, fillSegments, ih]
      cases params.lookup name <;>
        cases fillSegments encoding params (before.map Slot.segment) (before.filterMap Slot.name?) <;>
          cases fillSegments encoding params (after.map Slot.segment) (after.filterMap Slot.name?) <;> simp

end Slots

/-! ### Routes of a mounted router -/

section Mount
variable {H : Type}

/-- A route as `mount` registers it. -/
def Route.under (pre : List Char) (route : Route H) : Route H :=
  .ofPattern (Router.fullPattern (Path.trimSlashes pre) route.pattern) route.method route.handler route.name

theorem Route.slots_under (pre : List Char) (route : Route H) : (route.under pre).slots = slotsOf pre ++ route.slots :=
  slotsOf_fullPattern pre route.pattern

theorem mount_routes {parent sub mounted : Router H} {pre : List Char} (h : parent.mount pre sub = some mounted) :
    mounted.routes = parent.routes ++ sub.routes.map (Route.under pre) := by
  rw [Router.mount] at h
  generalize sub.routes = routes at h ⊢
  induction routes generalizing parent with
  | nil =>
    cases h
    rw [List.map_nil, List.append_nil]
  | cons route routes ih =>
    rw [List.foldlM_cons] at h
    obtain ⟨next, hnext, hrest⟩ := Option.bind_eq_some_iff.mp h
    rw [Router.mountRoute] at hnext
    split at hnext
    · cases hnext
      rw [ih hrest]
      exact List.append_assoc ..
    · cases hnext

theorem hasName_eq_false {router : Router H} {name : List Char} :
    router.hasName name = false ↔ ∀ route ∈ router.routes, route.name ≠ some name := by
  simp [Router.hasName]

/-- `mount` panics only when a name is taken. -/
theorem mount_isSome_iff (parent sub : Router H) (pre : List Char) :
    (∃ mounted, parent.mount pre sub = some mounted) ↔
      ∀ route ∈ sub.routes, ∀ name, route.name = some name → parent.hasName name = false := by
  rw [Router.mount]
  have hnames := sub.names
  generalize sub.routes = routes at hnames ⊢
  induction routes generalizing parent with
  | nil => exact iff_of_true ⟨parent, rfl⟩ (by simp)
  | cons route routes ih =>
    rw [List.foldlM_cons, List.forall_mem_cons]
    by_cases hfree : ∀ name, route.name = some name → parent.hasName name = false
    · have hrest : (routes.filterMap (·.name)).Nodup := by
        rw [List.filterMap_cons] at hnames
        split at hnames
        · exact hnames
        · exact hnames.of_cons
      have hunder : ∀ name, (route.under pre).name = some name → parent.hasName name = false := hfree
      have hstep : parent.mountRoute (Path.trimSlashes pre) route = some (parent.push (route.under pre) hunder) :=
        dif_pos hfree
      rw [hstep, Option.bind_eq_bind, Option.bind_some, and_iff_right hfree]
      refine (ih (parent.push (route.under pre) hunder) hrest).trans
        (forall₂_congr fun other hother => forall₂_congr fun name hname => ?_)
      rw [hasName_eq_false, hasName_eq_false]
      refine ⟨fun h known hknown => h known (List.mem_append_left _ hknown), fun h known hknown => ?_⟩
      rcases List.mem_append.mp hknown with hknown | hknown
      · exact h known hknown
      · obtain rfl := List.mem_singleton.mp hknown
        intro hunder
        have hsame : route.name = some name := hunder
        rw [List.filterMap_cons_some hsame, List.nodup_cons] at hnames
        exact hnames.1 (List.mem_filterMap.mpr ⟨other, hother, hname⟩)
    · have hstep : parent.mountRoute (Path.trimSlashes pre) route = none := dif_neg hfree
      rw [hstep]
      exact iff_of_false (fun ⟨_, h⟩ => by cases h) fun h => hfree h.1

/-! ### Matching a mounted router -/

/-- `match_path` for the parts of a path. -/
def Router.matchParts (router : Router H) (parts : List (List Char)) (method : Method) : Option (Nat × PathParams) :=
  router.routes.zipIdx.findSome? fun entry => (entry.1.matchParts method parts).map (entry.2, ·)

theorem matchPath_eq (router : Router H) (path : List Char) (method : Method) :
    router.matchPath path method = router.matchParts (Path.parts path) method := rfl

/-- Parts that match a prefix, and what it captures of them. -/
def Captures (pre : List Char) (front : List (List Char)) (captured : PathParams) : Prop :=
  front.length = (parsePattern pre).1.length ∧ matchSegments (parsePattern pre).1 (parsePattern pre).2 front .new = some captured

/-- Behind the prefix a route matches as it does alone. -/
theorem matchParts_under {pre : List Char} {front : List (List Char)} {captured : PathParams} (h : Captures pre front captured)
    (route : Route H) (method : Method) (rest : List (List Char)) :
    (route.under pre).matchParts method (front ++ rest) = (route.matchParts method rest).map (·.over captured) := by
  have hfront : (slotsOf pre).length = front.length := by
    rw [h.1]
    exact (List.length_map _).symm
  have hcaptured : matchSegments ((slotsOf pre).map Slot.segment) ((slotsOf pre).filterMap Slot.name?) front .new =
    some captured := h.2
  have hmethod : (route.under pre).method = route.method := rfl
  have hlen : (slotsOf pre ++ route.slots).length = (front ++ rest).length ↔ route.slots.length = rest.length := by
    rw [List.length_append, List.length_append, hfront, Nat.add_left_cancel_iff]
  rw [matchParts_eq, matchParts_eq, hmethod, Route.slots_under, matchSegments_append hfront, hcaptured, Option.bind_some]
  by_cases hroute : route.method = method ∧ route.slots.length = rest.length
  · rw [if_pos hroute, if_pos ⟨hroute.1, hlen.mpr hroute.2⟩, ← matchSegments_over, PathParams.over_new]
  · rw [if_neg hroute, if_neg fun h => hroute ⟨h.1, hlen.mp h.2⟩]
    rfl

theorem captures_of_matchParts {pre : List Char} {route : Route H} {method : Method} {parts : List (List Char)} {seen : PathParams}
    (h : (route.under pre).matchParts method parts = some seen) :
    ∃ front rest captured, parts = front ++ rest ∧ Captures pre front captured := by
  rw [matchParts_eq, Route.slots_under] at h
  split at h
  · rename_i hroute
    have hlen := hroute.2
    rw [List.length_append] at hlen
    have hfront : (slotsOf pre).length = (parts.take (slotsOf pre).length).length := by
      rw [List.length_take]
      omega
    rw [← List.take_append_drop (slotsOf pre).length parts, matchSegments_append hfront] at h
    obtain ⟨captured, hcaptured, -⟩ := Option.bind_eq_some_iff.mp h
    exact ⟨_, _, captured, (List.take_append_drop (slotsOf pre).length parts).symm,
      hfront.symm.trans (List.length_map _).symm, hcaptured⟩
  · cases h

/-- The routes of a sub-router, searched behind the prefix. -/
theorem findSome?_under {sub : Router H} {pre : List Char} {method : Method} {parts : List (List Char)} {idx : Nat}
    {seen : PathParams} :
    (sub.routes.zipIdx.findSome? fun entry => ((entry.1.under pre).matchParts method parts).map (entry.2, ·)) = some (idx, seen) ↔
      ∃ front rest captured own, parts = front ++ rest ∧ Captures pre front captured ∧
        sub.matchParts rest method = some (idx, own) ∧ seen = own.over captured := by
  have behind : ∀ front rest captured, Captures pre front captured →
      (sub.routes.zipIdx.findSome? fun entry => ((entry.1.under pre).matchParts method (front ++ rest)).map (entry.2, ·)) =
        (sub.matchParts rest method).map fun found => (found.1, found.2.over captured) := by
    intro front rest captured hcaptures
    rw [Router.matchParts, List.map_findSome?]
    congr 1
    funext entry
    rw [matchParts_under hcaptures, Function.comp_apply, Option.map_map, Option.map_map]
    rfl
  constructor
  · intro h
    obtain ⟨⟨route, k⟩, -, hmatch⟩ := List.exists_of_findSome?_eq_some h
    obtain ⟨params, hparams, -⟩ := Option.map_eq_some_iff.mp hmatch
    obtain ⟨front, rest, captured, rfl, hcaptures⟩ := captures_of_matchParts hparams
    rw [behind front rest captured hcaptures] at h
    obtain ⟨⟨found, own⟩, hfound, heq⟩ := Option.map_eq_some_iff.mp h
    cases heq
    exact ⟨front, rest, captured, own, rfl, hcaptures, hfound, rfl⟩
  · rintro ⟨front, rest, captured, own, rfl, hcaptures, hfound, rfl⟩
    rw [behind front rest captured hcaptures, hfound]
    rfl

/-- The search goes through the routes of the parent first. -/
theorem matchParts_mounted {parent sub mounted : Router H} {pre : List Char} (h : parent.mount pre sub = some mounted)
    (parts : List (List Char)) (method : Method) :
    mounted.matchParts parts method = (parent.matchParts parts method).or
      ((sub.routes.zipIdx.findSome? fun entry => ((entry.1.under pre).matchParts method parts).map (entry.2, ·)).map fun found =>
        (parent.routes.length + found.1, found.2)) := by
  have hshift : sub.routes.zipIdx parent.routes.length =
    sub.routes.zipIdx.map fun entry => (entry.1, parent.routes.length + entry.2) := List.zipIdx_eq_map_add
  rw [Router.matchParts, mount_routes h, List.zipIdx_append, List.findSome?_append, Router.matchParts, Nat.zero_add,
    List.zipIdx_map, hshift, List.map_map, List.findSome?_map, List.map_findSome?]
  congr 2
  funext entry
  simp [Function.comp_def]

/-! ### Reversing a mounted router -/

section Reverse
variable (encoding : Path.PercentEncoding) {params params' : List (List Char × List Char)}

/-- The parts that slots are filled with. -/
def filled (params : List (List Char × List Char)) (slots : List Slot) : Option (List (List Char)) :=
  fillSegments encoding params (slots.map Slot.segment) (slots.filterMap Slot.name?)

theorem filled_append (before after : List Slot) : filled encoding params (before ++ after) =
    (filled encoding params before).bind fun front => (filled encoding params after).map (front ++ ·) :=
  fillSegments_append encoding params

theorem filled_congr {slots : List Slot}
    (h : ∀ name ∈ slots.filterMap Slot.name?, params.lookup name = params'.lookup name) :
    filled encoding params slots = filled encoding params' slots := by
  induction slots with
  | nil => rfl
  | cons slot slots ih =>
    cases slot with
    | literal text =>
      have ih := ih h
      simp only [filled] at ih ⊢
      rw [List.map_cons, Slot.segment, names_literal, fillSegments, fillSegments, ih]
    | capture type name =>
      rw [names_capture, List.forall_mem_cons] at h
      have ih := ih h.2
      simp only [filled] at ih ⊢
      rw [List.map_cons, Slot.segment, names_capture, fillSegments, fillSegments, ih, h.1]

/-- Filled slots have a value for each name, and as many parts. -/
theorem filled_eq_some {slots : List Slot} {parts : List (List Char)} (h : filled encoding params slots = some parts) :
    (∀ name ∈ slots.filterMap Slot.name?, (params.lookup name).isSome) ∧ parts.length = slots.length := by
  induction slots generalizing parts with
  | nil =>
    cases h
    exact ⟨by simp, rfl⟩
  | cons slot slots ih =>
    cases slot with
    | literal text =>
      rw [filled, List.map_cons, Slot.segment, names_literal, fillSegments] at h
      obtain ⟨rest, hrest, rfl⟩ := Option.map_eq_some_iff.mp h
      obtain ⟨hnames, hlen⟩ := ih hrest
      exact ⟨hnames, congrArg (· + 1) hlen⟩
    | capture type name =>
      rw [filled, List.map_cons, Slot.segment, names_capture, fillSegments] at h
      obtain ⟨value, hvalue, h⟩ := Option.bind_eq_some_iff.mp h
      obtain ⟨rest, hrest, h⟩ := Option.bind_eq_some_iff.mp h
      cases h
      obtain ⟨hnames, hlen⟩ := ih hrest
      rw [names_capture, List.forall_mem_cons]
      exact ⟨⟨Option.isSome_of_eq_some hvalue, hnames⟩, congrArg (· + 1) hlen⟩

/-- A named route is reversed for parameters that are its own and fill it. -/
theorem reverse_eq_ok {router : Router H} {idx : Nat} {route : Route H} {name path : List Char}
    (hroute : router.routes[idx]? = some route) (hname : route.name = some name) :
    router.reverse encoding name params = some (.ok path) ↔
      (∀ entry ∈ params, entry.1 ∈ route.paramNames) ∧
        ∃ parts, filled encoding params route.slots = some parts ∧ path = '/' :: Path.join parts := by
  have hfill : fillSegments encoding params route.segments route.paramNames = filled encoding params route.slots := by
    rw [filled, ← route.segments_eq, ← route.paramNames_eq]
  rw [Router.reverse, find?_name hroute hname]
  simp only [hfill]
  cases hunknown : params.find? fun entry => decide (entry.1 ∉ route.paramNames) with
  | some entry =>
    have hentry := List.find?_some hunknown
    refine iff_of_false (fun h => by cases h) fun h => ?_
    exact of_decide_eq_true hentry (h.1 entry (List.mem_of_find?_eq_some hunknown))
  | none =>
    have hknown : ∀ entry ∈ params, entry.1 ∈ route.paramNames := by simpa using hunknown
    rw [and_iff_right hknown]
    cases hmissing : route.paramNames.find? fun param => params.all fun entry => decide (entry.1 ≠ param) with
    | some param =>
      refine iff_of_false (fun h => by cases h) ?_
      rintro ⟨parts, hparts, -⟩
      have hparam := List.mem_of_find?_eq_some hmissing
      rw [route.paramNames_eq] at hparam
      obtain ⟨entry, hentry, hkey⟩ := List.lookup_isSome_iff.mp ((filled_eq_some encoding hparts).1 param hparam)
      have hother : decide (entry.1 ≠ param) = true := by
        have hall := List.find?_some hmissing
        exact List.all_eq_true.mp hall entry hentry
      exact of_decide_eq_true hother (beq_iff_eq.mp hkey).symm
    | none =>
      simp only [Option.map_eq_some_iff, Except.ok.injEq]
      exact exists_congr fun parts => and_congr_right fun _ => eq_comm

/-- The path of a prefix: none for an empty one. -/
def prefixPath (params : List (List Char × List Char)) (pre : List Char) : Option (List Char) :=
  (fillSegments encoding params (parsePattern pre).1 (parsePattern pre).2).map fun parts =>
    if parts = [] then [] else '/' :: Path.join parts

theorem lookup_filter {keep : List (List Char)} {name : List Char} (h : name ∈ keep) :
    (params.filter (·.1 ∈ keep)).lookup name = params.lookup name := by
  induction params with
  | nil => rfl
  | cons entry params ih =>
    obtain ⟨key, value⟩ := entry
    by_cases hkey : name = key
    · subst hkey
      rw [List.filter_cons, if_pos (decide_eq_true h), List.lookup_cons_self, List.lookup_cons_self]
    · have hbeq : (name == key) = false := beq_eq_false_iff_ne.mpr hkey
      rw [List.lookup_cons, hbeq, List.filter_cons]
      split
      · rw [List.lookup_cons, hbeq]
        exact ih
      · exact ih

/-- Parts joined behind the parts of a prefix. -/
theorem slash_join_append (front : List (List Char)) {back : List (List Char)} {root : Prop} [Decidable root]
    (hroot : back = [] ↔ root) :
    '/' :: Path.join (front ++ back) =
      if (if front = [] then [] else '/' :: Path.join front) ≠ [] ∧ root then if front = [] then [] else '/' :: Path.join front
      else (if front = [] then [] else '/' :: Path.join front) ++ '/' :: Path.join back := by
  by_cases hfront : front = []
  · subst hfront
    simp
  · rw [if_neg hfront]
    by_cases hback : back = []
    · rw [if_pos ⟨List.cons_ne_nil _ _, hroot.mp hback⟩, hback, List.append_nil]
    · rw [if_neg fun h => hback (hroot.mpr h.2), Path.join_append hfront hback, List.cons_append]

/-- The route of a sub-router, reversed behind the prefix. -/
theorem reverse_under {parent sub mounted : Router H} {pre : List Char} (h : parent.mount pre sub = some mounted)
    {idx : Nat} {route : Route H} {name path : List Char} (hroute : sub.routes[idx]? = some route)
    (hname : route.name = some name) :
    mounted.reverse encoding name params = some (.ok path) ↔
      (∀ entry ∈ params, entry.1 ∈ (parsePattern pre).2 ∨ entry.1 ∈ route.paramNames) ∧
        ∃ front back, prefixPath encoding params pre = some front ∧
          sub.reverse encoding name (params.filter (·.1 ∈ route.paramNames)) = some (.ok back) ∧
          path = if front ≠ [] ∧ route.segments = [] then front else front ++ back := by
  have hunder : mounted.routes[parent.routes.length + idx]? = some (route.under pre) := by
    rw [mount_routes h, List.getElem?_append_right (Nat.le_add_right ..), Nat.add_sub_cancel_left, List.getElem?_map, hroute]
    rfl
  have hnames : ∀ key, key ∈ (route.under pre).paramNames ↔ key ∈ (parsePattern pre).2 ∨ key ∈ route.paramNames := by
    intro key
    rw [Route.paramNames_eq, Route.slots_under, List.filterMap_append, List.mem_append, Route.paramNames_eq]
    rfl
  have hknown : ∀ entry ∈ params.filter (·.1 ∈ route.paramNames), entry.1 ∈ route.paramNames := fun entry hentry =>
    of_decide_eq_true (List.mem_filter.mp hentry).2
  have hback : filled encoding (params.filter (·.1 ∈ route.paramNames)) route.slots = filled encoding params route.slots := by
    refine filled_congr encoding fun key hkey => lookup_filter ?_
    rwa [Route.paramNames_eq]
  have hfront : prefixPath encoding params pre =
      (filled encoding params (slotsOf pre)).map fun parts => if parts = [] then [] else '/' :: Path.join parts := rfl
  have hsegments : route.segments = [] ↔ route.slots = [] := by rw [route.segments_eq, List.map_eq_nil_iff]
  have hempty : ∀ back, filled encoding params route.slots = some back → (back = [] ↔ route.segments = []) := by
    intro back hb
    rw [hsegments, ← List.length_eq_zero_iff, (filled_eq_some encoding hb).2, List.length_eq_zero_iff]
  rw [reverse_eq_ok encoding hunder hname, Route.slots_under, filled_append]
  refine and_congr (forall₂_congr fun entry _ => hnames entry.1) ?_
  simp only [reverse_eq_ok encoding hroute hname, and_iff_right hknown, hback, hfront]
  constructor
  · rintro ⟨parts, hparts, rfl⟩
    obtain ⟨front, hf, hparts⟩ := Option.bind_eq_some_iff.mp hparts
    obtain ⟨back, hb, rfl⟩ := Option.map_eq_some_iff.mp hparts
    refine ⟨_, '/' :: Path.join back, Option.map_eq_some_iff.mpr ⟨front, hf, rfl⟩, ⟨back, hb, rfl⟩, ?_⟩
    exact slash_join_append front (hempty back hb)
  · rintro ⟨_, _, hf, ⟨back, hb, rfl⟩, rfl⟩
    obtain ⟨front, hfilled, rfl⟩ := Option.map_eq_some_iff.mp hf
    refine ⟨front ++ back, ?_, (slash_join_append front (hempty back hb)).symm⟩
    rw [hfilled, Option.bind_some, hb]
    rfl

end Reverse

/-! ### Parts of a path -/

theorem getLast?_splitOn (path : List Char) (h : (path.splitOn '/').getLast? = some []) :
    path = [] ∨ path.getLast? = some '/' := by
  induction path using Text.splitOn_induct '/' with
  | piece l hl =>
    rw [List.splitOn_eq_singleton hl] at h
    exact .inl (Option.some.inj h)
  | more l r hl ih =>
    rw [List.splitOn_append_cons_self, List.getLast?_append_of_ne_nil _ (List.splitOn_ne_nil _ _)] at h
    refine .inr ?_
    rw [List.getLast?_append_of_ne_nil _ (List.cons_ne_nil _ _)]
    rcases ih h with rfl | hlast
    · rfl
    · cases r with
      | nil => rfl
      | cons c r => rw [List.getLast?_cons_cons, hlast]

theorem getLast?_parts (path : List Char) : (Path.parts path).getLast? ≠ some [] := by
  rw [Path.parts]
  split
  · simp
  · rename_i hne
    intro h
    rcases getLast?_splitOn _ h with hnil | hlast
    · exact hne hnil
    · have hend := List.rdropWhile_last_not (· == '/') (path.dropWhile (· == '/')) hne
      rw [List.getLast?_eq_some_getLast hne, Option.some_inj] at hlast
      exact hend (beq_iff_eq.mpr hlast)

/-- Parts at the end of a path that do not start with an empty one are the parts of a path. -/
theorem exists_parts {path : List Char} {front rest : List (List Char)} (h : Path.parts path = front ++ rest)
    (hhead : rest.head? ≠ some []) : ∃ own, Path.parts own = rest := by
  have hlast : rest.getLast? ≠ some [] := by
    intro hlast
    have hpath := getLast?_parts path
    rw [h, List.getLast?_append, hlast, Option.some_or] at hpath
    exact hpath rfl
  have hslash : ∀ part ∈ rest, '/' ∉ part := by
    intro part hpart
    have hmem : part ∈ Path.parts path := h ▸ List.mem_append_right _ hpart
    rw [Path.parts] at hmem
    split at hmem
    · cases hmem
    · exact Path.notMem_of_mem_splitOn hmem
  exact ⟨_, (Path.parts_join hslash).trans ((Path.inner_eq_self rest).mpr ⟨hhead, hlast⟩)⟩

/-! ### Transparent mounts -/

section Transparent
variable (encoding : Path.PercentEncoding)

/-- What a mounted router does. Behind the prefix the parts of a path are matched as they are: where the first of them is
    not empty, they are the parts of a path of the sub-router. -/
structure Transparent (parent : Router H) (pre : List Char) (sub mounted : Router H) : Prop where
  parent_first : ∀ path method found, parent.matchPath path method = some found → mounted.matchPath path method = some found
  sub_next : ∀ path method, parent.matchPath path method = none → ∀ idx seen,
    mounted.matchPath path method = some (idx, seen) ↔
      ∃ front rest captured subIdx own, Path.parts path = front ++ rest ∧ Captures pre front captured ∧
        sub.matchParts rest method = some (subIdx, own) ∧ idx = parent.routes.length + subIdx ∧ seen = own.over captured
  sub_path : ∀ path method, parent.matchPath path method = none →
    ((Path.parts path).drop (parsePattern pre).1.length).head? ≠ some [] → ∀ idx seen,
    mounted.matchPath path method = some (idx, seen) ↔
      ∃ front subPath captured subIdx own, Path.parts path = front ++ Path.parts subPath ∧ Captures pre front captured ∧
        sub.matchPath subPath method = some (subIdx, own) ∧ idx = parent.routes.length + subIdx ∧ seen = own.over captured
  handler : ∀ subIdx, (mounted.routes[parent.routes.length + subIdx]?).map (·.handler) = (sub.routes[subIdx]?).map (·.handler)
  reverse_sub : ∀ route ∈ sub.routes, ∀ name, route.name = some name → ∀ params path,
    mounted.reverse encoding name params = some (.ok path) ↔
      (∀ entry ∈ params, entry.1 ∈ (parsePattern pre).2 ∨ entry.1 ∈ route.paramNames) ∧
        ∃ front back, prefixPath encoding params pre = some front ∧
          sub.reverse encoding name (params.filter (·.1 ∈ route.paramNames)) = some (.ok back) ∧
          path = if front ≠ [] ∧ route.segments = [] then front else front ++ back

theorem sub_next_of_mount {parent sub mounted : Router H} {pre : List Char} (h : parent.mount pre sub = some mounted)
    {path : List Char} {method : Method} (hnone : parent.matchPath path method = none) (idx : Nat) (seen : PathParams) :
    mounted.matchPath path method = some (idx, seen) ↔
      ∃ front rest captured subIdx own, Path.parts path = front ++ rest ∧ Captures pre front captured ∧
        sub.matchParts rest method = some (subIdx, own) ∧ idx = parent.routes.length + subIdx ∧ seen = own.over captured := by
  rw [matchPath_eq] at hnone
  rw [matchPath_eq, matchParts_mounted h, hnone, Option.none_or, Option.map_eq_some_iff]
  constructor
  · rintro ⟨⟨subIdx, found⟩, hfound, heq⟩
    cases heq
    obtain ⟨front, rest, captured, own, hparts, hcaptures, hown, rfl⟩ := findSome?_under.mp hfound
    exact ⟨front, rest, captured, subIdx, own, hparts, hcaptures, hown, rfl, rfl⟩
  · rintro ⟨front, rest, captured, subIdx, own, hparts, hcaptures, hown, rfl, rfl⟩
    exact ⟨(subIdx, own.over captured), findSome?_under.mpr ⟨front, rest, captured, own, hparts, hcaptures, hown, rfl⟩, rfl⟩

theorem transparent_of_mount {parent sub mounted : Router H} {pre : List Char} (h : parent.mount pre sub = some mounted) :
    Transparent encoding parent pre sub mounted where
  parent_first path method found hfound := by
    rw [matchPath_eq] at hfound
    rw [matchPath_eq, matchParts_mounted h, hfound, Option.some_or]
  sub_next path method hnone := sub_next_of_mount h hnone
  sub_path path method hnone hhead idx seen := by
    rw [sub_next_of_mount h hnone]
    constructor
    · rintro ⟨front, rest, captured, subIdx, own, hparts, hcaptures, hown, hidx, hseen⟩
      rw [hparts, ← hcaptures.1, List.drop_left] at hhead
      obtain ⟨subPath, rfl⟩ := exists_parts hparts hhead
      exact ⟨front, subPath, captured, subIdx, own, hparts, hcaptures, hown, hidx, hseen⟩
    · rintro ⟨front, subPath, captured, subIdx, own, hparts, hcaptures, hown, hidx, hseen⟩
      exact ⟨front, _, captured, subIdx, own, hparts, hcaptures, hown, hidx, hseen⟩
  handler subIdx := by
    rw [mount_routes h, List.getElem?_append_right (Nat.le_add_right ..), Nat.add_sub_cancel_left, List.getElem?_map,
      Option.map_map]
    rfl
  reverse_sub route hroute name hname params path := by
    obtain ⟨idx, hidx⟩ := List.mem_iff_getElem?.mp hroute
    exact reverse_under encoding h hidx hname

/-- Two routers that match the same, reverse the same and have the same handlers. -/
structure Equivalent (router other : Router H) : Prop where
  matchPath : ∀ path method, router.matchPath path method = other.matchPath path method
  reverse : ∀ name params, router.reverse encoding name params = other.reverse encoding name params
  handlers : router.routes.map (·.handler) = other.routes.map (·.handler)

/-- What the searches of a router see of a route. -/
def Route.view (route : Route H) : Method × List Slot × H × Option (List Char) :=
  (route.method, route.slots, route.handler, route.name)

/-- A route is matched by its view. -/
def matchView (method : Method) (parts : List (List Char)) (view : Method × List Slot × H × Option (List Char)) :
    Option PathParams :=
  if view.1 = method ∧ view.2.1.length = parts.length then
    matchSegments (view.2.1.map Slot.segment) (view.2.1.filterMap Slot.name?) parts .new
  else none

theorem matchPath_view (router : Router H) (path : List Char) (method : Method) :
    router.matchPath path method = (router.routes.map Route.view).zipIdx.findSome? fun entry =>
      (matchView method (Path.parts path) entry.1).map (entry.2, ·) := by
  rw [List.zipIdx_map, List.findSome?_map, Router.matchPath]
  congr 1
  funext entry
  rw [matchParts_eq]
  rfl

theorem equivalent_of_views {router other : Router H} (h : router.routes.map Route.view = other.routes.map Route.view) :
    Equivalent encoding router other where
  matchPath path method := by rw [matchPath_view, matchPath_view, h]
  reverse name params := by
    have hfind := congrArg (List.find? fun view => view.2.2.2 == some name) h
    rw [List.find?_map, List.find?_map] at hfind
    have hsearch : ∀ routes : List (Route H), routes.find? ((fun view => view.2.2.2 == some name) ∘ Route.view) =
      routes.find? (·.name == some name) := fun _ => rfl
    rw [hsearch, hsearch] at hfind
    rw [Router.reverse, Router.reverse]
    cases hleft : router.routes.find? (·.name == some name) with
    | none =>
      rw [hleft] at hfind
      rw [Option.map_eq_none_iff.mp hfind.symm]
    | some route =>
      rw [hleft] at hfind
      obtain ⟨route', hright, hview⟩ := Option.map_eq_some_iff.mp hfind.symm
      have hslots : route'.slots = route.slots := congrArg (fun view => view.2.1) hview
      rw [hright]
      simp only [Route.segments_eq, Route.paramNames_eq, hslots]
  handlers := by
    have hhandlers := congrArg (List.map fun view => view.2.2.1) h
    rwa [List.map_map, List.map_map] at hhandlers

theorem view_under (pre : List Char) (route : Route H) :
    (route.under pre).view = (route.method, slotsOf pre ++ route.slots, route.handler, route.name) := by
  rw [Route.view, Route.slots_under]
  rfl

/-- A router mounted twice is mounted at the two prefixes joined. -/
theorem mount_mount (parent router : Router H) (a b : List Char) :
    Option.Rel (Equivalent encoding) ((Router.new.mount b router).bind (parent.mount a))
      (parent.mount (a ++ '/' :: b) router) := by
  obtain ⟨inner, hinner⟩ := (mount_isSome_iff Router.new router b).mpr fun _ _ _ _ => rfl
  have hroutes : inner.routes = router.routes.map (Route.under b) := mount_routes hinner
  rw [hinner, Option.bind_some]
  have hsame : (∃ outer, parent.mount a inner = some outer) ↔ ∃ outer, parent.mount (a ++ '/' :: b) router = some outer := by
    rw [mount_isSome_iff, mount_isSome_iff, hroutes]
    simp only [List.forall_mem_map]
    rfl
  cases hleft : parent.mount a inner with
  | none =>
    cases hright : parent.mount (a ++ '/' :: b) router with
    | none => exact .none
    | some outer =>
      obtain ⟨_, h⟩ := hsame.mpr ⟨outer, hright⟩
      rw [hleft] at h
      cases h
  | some outer =>
    obtain ⟨direct, hright⟩ := hsame.mp ⟨outer, hleft⟩
    rw [hright]
    refine .some (equivalent_of_views encoding ?_)
    rw [mount_routes hleft, mount_routes hright, hroutes, List.map_append, List.map_append, List.map_map, List.map_map,
      List.map_map]
    congr 1
    refine List.map_congr_left fun route _ => ?_
    simp only [Function.comp_apply, view_under, Route.slots_under, slotsOf_append, List.append_assoc]
    rfl

/-- A mount is transparent, and mounts compose. -/
theorem mount_transparent (parent router : Router H) (a b : List Char) :
    (∀ mounted, parent.mount a router = some mounted → Transparent encoding parent a router mounted) ∧
      Option.Rel (Equivalent encoding) ((Router.new.mount b router).bind (parent.mount a))
        (parent.mount (a ++ '/' :: b) router) :=
  ⟨fun _ h => transparent_of_mount encoding h, mount_mount encoding parent router a b⟩

end Transparent

end Mount

/-! ### A home page -/

def homeRoute : Route Unit := .ofPattern [] .get () (some "home".toList)

def homeRouter : Router Unit := Router.new.push homeRoute fun _ _ => rfl

def apiHome : Router Unit := Router.new.push (homeRoute.under "/api".toList) fun _ _ => rfl

theorem apiHome_transparent : Transparent Path.utf8PercentEncode Router.new "/api".toList homeRouter apiHome :=
  (mount_transparent Path.utf8PercentEncode Router.new homeRouter "/api".toList "v1".toList).1 apiHome rfl

/-- A root route is reversed to the path of the prefix alone, and a slash more behind the prefix is a part of the path. -/
theorem root_reversed_bare :
    Router.new.mount "/api".toList homeRouter = some apiHome ∧
      apiHome.reverse Path.utf8PercentEncode "home".toList [] = some (.ok "/api".toList) ∧
      prefixPath Path.utf8PercentEncode [] "/api".toList = some "/api".toList ∧
      homeRouter.reverse Path.utf8PercentEncode "home".toList [] = some (.ok "/".toList) ∧
      "/api".toList ≠ "/api".toList ++ "/".toList ∧
      ∃ mounted, Router.new.mount "/api".toList searchRouter = some mounted ∧
        (searchRouter.matchPath "//search/rust".toList .get).isSome = true ∧
        (mounted.matchPath ("/api".toList ++ "//search/rust".toList) .get).isSome = false :=
  ⟨rfl, rfl, rfl, rfl, by simp, _, rfl, rfl, rfl⟩

end Djangors.Http
