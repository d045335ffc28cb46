import Djangors.Admin.Changelist
import Djangors.Theorems.DateHierarchy
import Djangors.Theorems.QueryStrings

/-! # Links of a changelist

A link leads to the state of its page with one component changed. -/

namespace Djangors.Admin
open Db Http Rest

attribute [local instance] Calendar.chrono

/-- The request of a link: its query is what follows the question mark. -/
def follow (crates : UrlCrates) (req : AdminRequest) (href : List Char) : AdminRequest :=
  { req with query := (crates.query (some (href.drop 1))).get }

/-- A request has a state and a page. -/
structure Accepted (admin : ModelAdmin) (req : AdminRequest) (state : ChangelistQueryState) (page : Int) : Prop where
  state : parseChangelistQueryState req admin = .ok state
  page : parsePage (req.query "page") = .ok page

/-- The names of the filters are identifiers: no text with a separator or an escape. -/
def Identifiers (admin : ModelAdmin) : Prop :=
  ∀ f ∈ admin.config.listFilter.getD [], f ≠ "" ∧ '&' ∉ f.toList ∧ '=' ∉ f.toList ∧ '%' ∉ f.toList

/-! ### Reading a query -/

section Reading
variable (crates : UrlCrates) {pairs : Pairs} {name : String}

/-- The parameters that have a value. -/
def Pairs.given (pairs : Pairs) : List (String × String) := pairs.filterMap fun pair => pair.2.map (pair.1, ·)

/-- The value that a query has for a name: the last one that is given. -/
def Pairs.value (pairs : Pairs) (name : String) : Option String := pairs.given.reverse.lookup name

theorem mem_given {k v : String} : (k, v) ∈ pairs.given ↔ (k, some v) ∈ pairs := by
  rw [Pairs.given, List.mem_filterMap]
  constructor
  · rintro ⟨⟨k', v'⟩, hmem, h⟩
    obtain ⟨v'', rfl, h⟩ := Option.map_eq_some_iff.mp h
    cases h
    exact hmem
  · exact fun h => ⟨_, h, rfl⟩

/-- A name that is given one value, or none, has it. -/
theorem Pairs.value_eq {o : Option String} (h : ∀ v, (name, some v) ∈ pairs ↔ o = some v) : pairs.value name = o := by
  cases hvalue : pairs.value name with
  | some v => exact ((h v).mp (mem_given.mp (List.mem_reverse.mp (List.mem_of_lookup hvalue)))).symm
  | none =>
    cases o with
    | none => rfl
    | some v =>
      have hmem := List.mem_reverse.mpr (mem_given.mpr ((h v).mpr rfl))
      exact absurd rfl (bne_iff_ne.mp (List.lookup_eq_none_iff.mp hvalue _ hmem))

/-- A name that is read as it is written. -/
def Readable (name : String) : Prop := name ≠ "" ∧ '&' ∉ name.toList ∧ '=' ∉ name.toList ∧ '%' ∉ name.toList

instance (name : String) : Decidable (Readable name) := inferInstanceAs (Decidable (_ ∧ _))

theorem separators_notMem_urlEncode (s : String) : '&' ∉ urlEncodeQueryValue s ∧ '=' ∉ urlEncodeQueryValue s :=
  ⟨Urlencoded.notMem_escape rfl (fun byte => (Urlencoded.hexEscape_separators byte).1) _,
    Urlencoded.notMem_escape rfl (fun byte => (Urlencoded.hexEscape_separators byte).2) _⟩

theorem decode_urlEncode (s : String) : crates.decode (urlEncodeQueryValue s) = s.toList := by
  rw [UrlCrates.decode, crates.decodeUtf8_eq, urlEncodeQueryValue, Urlencoded.strictText?_escape rfl, Option.getD_some]

theorem decode_readable (h : Readable name) : crates.decode name.toList = name.toList := by
  rw [UrlCrates.decode, crates.decodeUtf8_eq, Urlencoded.strictText?_of_notMem h.2.2.2, Option.getD_some]

theorem requestPair_part (h : Readable name) (v : String) :
    (splitPair (name.toList ++ '=' :: urlEncodeQueryValue v)).map crates.decode crates.decode = (name.toList, v.toList) := by
  have hkey : ∀ c ∈ name.toList, decide (c ≠ '=') = true := fun c hc => decide_eq_true fun heq => h.2.2.1 (heq ▸ hc)
  have hsplit : splitPair (name.toList ++ '=' :: urlEncodeQueryValue v) = (name.toList, urlEncodeQueryValue v) := by
    rw [splitPair, List.takeWhile_append_of_pos hkey, List.dropWhile_append_of_pos hkey]
    simp
  rw [hsplit, Prod.map, decode_readable crates h, decode_urlEncode]

/-- The text of a parameter. -/
def partOf (entry : String × String) : List Char := entry.1.toList ++ '=' :: urlEncodeQueryValue entry.2

theorem parts_eq (pairs : Pairs) : pairs.parts = pairs.given.map partOf := by
  rw [Pairs.parts, Pairs.given, List.map_filterMap]
  refine List.filterMap_congr fun pair _ => ?_
  rw [Option.map_map]
  rfl

theorem parseQuery_nil : parseQuery crates.decode [] = [] := by
  rw [parseQuery_eq]
  rfl

/-- A query string is read as the pairs it is built of. -/
theorem parseQuery_build (h : ∀ k v, (k, some v) ∈ pairs → Readable k) :
    parseQuery crates.decode ((buildQueryString pairs).drop 1) =
      pairs.given.map fun entry => (entry.1.toList, entry.2.toList) := by
  have hgiven : ∀ entry ∈ pairs.given, Readable entry.1 := fun entry hentry => h entry.1 entry.2 (mem_given.mp hentry)
  rw [buildQueryString, parts_eq]
  by_cases hempty : pairs.given = []
  · rw [hempty]
    exact parseQuery_nil crates
  · have hparts : ∀ part ∈ pairs.given.map partOf, '&' ∉ part := by
      intro part hpart hmem
      obtain ⟨entry, hentry, rfl⟩ := List.mem_map.mp hpart
      rcases List.mem_append.mp hmem with hmem | hmem
      · exact (hgiven entry hentry).2.1 hmem
      · rcases List.mem_cons.mp hmem with heq | hmem
        · exact absurd heq (by decide)
        · exact (separators_notMem_urlEncode entry.2).1 hmem
    have hne : pairs.given.map partOf ≠ [] := fun h => hempty (List.map_eq_nil_iff.mp h)
    rw [if_neg (by simpa using hempty), List.drop_succ_cons, List.drop_zero, parseQuery,
      List.splitOn_intercalate '&' hparts hne, List.map_map, List.filter_eq_self.mpr]
    · exact List.map_congr_left fun entry hentry => requestPair_part crates (hgiven entry hentry) entry.2
    · intro entry hentry
      obtain ⟨given, hmem, rfl⟩ := List.mem_map.mp hentry
      rw [Function.comp_apply, partOf, requestPair_part crates (hgiven given hmem)]
      exact decide_eq_true fun hnil => (hgiven given hmem).1 (String.toList_eq_nil_iff.mp hnil)

theorem lookup_toList (entries : List (String × String)) (name : String) :
    ((entries.map fun entry => (entry.1.toList, entry.2.toList)).lookup name.toList).map String.ofList = entries.lookup name := by
  induction entries with
  | nil => rfl
  | cons entry entries ih =>
    obtain ⟨k, v⟩ := entry
    by_cases heq : name = k
    · rw [List.map_cons, heq]
      simp
    · have hlist : name.toList ≠ k.toList := fun h => heq (String.toList_inj.mp h)
      rw [List.map_cons, List.lookup_cons, List.lookup_cons, beq_eq_false_iff_ne.mpr heq, beq_eq_false_iff_ne.mpr hlist]
      exact ih

/-- The request of a link has the values that the link is built of. -/
theorem query_follow (req : AdminRequest) (h : ∀ k v, (k, some v) ∈ pairs → Readable k) (name : String) :
    (follow crates req (buildQueryString pairs)).query name = pairs.value name := by
  have hquery : (follow crates req (buildQueryString pairs)).query name =
      ((parseQuery crates.decode ((buildQueryString pairs).drop 1)).reverse.lookup name.toList).map String.ofList := rfl
  rw [hquery, parseQuery_build crates h, ← List.map_reverse, lookup_toList, Pairs.value]

end Reading

/-! ### The state of a link -/

/-- The parameters that are no filters. -/
def reservedNames : List String := ["page", "o", "q", "year", "month", "day"]

/-- The filters of a changelist, with the choice for each field. -/
def filtersOf (admin : ModelAdmin) (choice : String → Option Bool) : List (String × Bool) :=
  (admin.config.listFilter.getD []).filterMap fun f => (choice f).map (f, ·)

/-- What the parameters of a link say. -/
structure Cargo where
  page : Option Int
  order : Option String
  search : Option String
  choice : String → Option Bool
  year : Option Int
  month : Option Nat
  day : Option Nat

namespace Cargo
variable (cargo : Cargo)

/-- The parameters of a link, in any order. -/
def Of (pairs : Pairs) : Prop := ∀ name v, (name, some v) ∈ pairs ↔
  name = "page" ∧ cargo.page.map toString = some v ∨ name = "o" ∧ cargo.order = some v ∨ name = "q" ∧ cargo.search = some v ∨
    name = "year" ∧ cargo.year.map toString = some v ∨ name = "month" ∧ cargo.month.map toString = some v ∨
      name = "day" ∧ cargo.day.map toString = some v ∨ (cargo.choice name).map ChangelistQueryState.flag = some v

def state (admin : ModelAdmin) (range : Option (DateTime × DateTime)) : ChangelistQueryState where
  order := cargo.order
  search := cargo.search
  filters := filtersOf admin cargo.choice
  year := cargo.year
  month := cargo.month
  day := cargo.day
  dateRange := range

/-- The numbers have the sizes of the types they are read as, and the filters are fields of the changelist. -/
structure Fits (admin : ModelAdmin) : Prop where
  page : ∀ p ∈ cargo.page, 1 ≤ p ∧ p < 2 ^ 63
  year : ∀ y ∈ cargo.year, -2 ^ 31 ≤ y ∧ y < 2 ^ 31
  month : ∀ m ∈ cargo.month, m < 2 ^ 32
  day : ∀ d ∈ cargo.day, d < 2 ^ 32
  choice : ∀ f, (cargo.choice f).isSome → f ∈ admin.config.listFilter.getD []

end Cargo

section States
variable {crates : UrlCrates} {admin : ModelAdmin} {req : AdminRequest} {pairs : Pairs} {cargo : Cargo}
  {range : Option (DateTime × DateTime)}

theorem readable_reserved : ∀ name ∈ reservedNames, Readable name := by decide

theorem Cargo.readable (hnames : Identifiers admin) (hfits : cargo.Fits admin) (hof : cargo.Of pairs) {k v : String}
    (h : (k, some v) ∈ pairs) : Readable k := by
  have hreserved (hk : k ∈ reservedNames) : Readable k := readable_reserved k hk
  rcases (hof k v).mp h with ⟨rfl, -⟩ | ⟨rfl, -⟩ | ⟨rfl, -⟩ | ⟨rfl, -⟩ | ⟨rfl, -⟩ | ⟨rfl, -⟩ | hchoice
  · exact hreserved (by decide)
  · exact hreserved (by decide)
  · exact hreserved (by decide)
  · exact hreserved (by decide)
  · exact hreserved (by decide)
  · exact hreserved (by decide)
  · refine hnames k (hfits.choice k ?_)
    obtain ⟨b, hb, -⟩ := Option.map_eq_some_iff.mp hchoice
    rw [hb]
    rfl

theorem parseParam_toString {α : Type} {parse : List Char → Option α} (text : α → String) (what : String) {o : Option α}
    (h : ∀ a ∈ o, parse (text a).toList = some a) : parseParam parse what (o.map text) = .ok o := by
  cases o with
  | none => rfl
  | some a =>
    rw [Option.map_some, parseParam, h a rfl]
    rfl

/-- A link is accepted with the state that its parameters say, if their dates have a range. -/
theorem Cargo.accepted (hnames : Identifiers admin) (hfilters : ∀ f ∈ admin.config.listFilter.getD [], f ∉ reservedNames)
    (hfits : cargo.Fits admin) (hof : cargo.Of pairs) (hrange : rangeOf admin cargo.year cargo.month cargo.day = .ok range) :
    Accepted admin (follow crates req (buildQueryString pairs)) (cargo.state admin range) (cargo.page.getD 1) := by
  have hquery (name : String) {o : Option String} (h : ∀ v, (name, some v) ∈ pairs ↔ o = some v) :
      (follow crates req (buildQueryString pairs)).query name = o := by
    rw [query_follow crates req (fun _ _ => Cargo.readable hnames hfits hof)]
    exact Pairs.value_eq h
  -- a name that is reserved is no filter
  have hreserved (name : String) (h : name ∈ reservedNames) : cargo.choice name = none := by
    cases hchoice : cargo.choice name with
    | none => rfl
    | some b => exact absurd h (hfilters name (hfits.choice name (by rw [hchoice]; rfl)))
  have hpage : (follow crates req (buildQueryString pairs)).query "page" = cargo.page.map toString :=
    hquery "page" fun v => by simp [hof "page" v, hreserved "page" (by decide)]
  have horder : (follow crates req (buildQueryString pairs)).query "o" = cargo.order :=
    hquery "o" fun v => by simp [hof "o" v, hreserved "o" (by decide)]
  have hsearch : (follow crates req (buildQueryString pairs)).query "q" = cargo.search :=
    hquery "q" fun v => by simp [hof "q" v, hreserved "q" (by decide)]
  have hyear : (follow crates req (buildQueryString pairs)).query "year" = cargo.year.map toString :=
    hquery "year" fun v => by simp [hof "year" v, hreserved "year" (by decide)]
  have hmonth : (follow crates req (buildQueryString pairs)).query "month" = cargo.month.map toString :=
    hquery "month" fun v => by simp [hof "month" v, hreserved "month" (by decide)]
  have hday : (follow crates req (buildQueryString pairs)).query "day" = cargo.day.map toString :=
    hquery "day" fun v => by simp [hof "day" v, hreserved "day" (by decide)]
  have hactive : activeFilters (follow crates req (buildQueryString pairs)) admin = filtersOf admin cargo.choice := by
    refine List.filterMap_congr fun f hf => ?_
    have hfield := hfilters f hf
    have hvalue : (follow crates req (buildQueryString pairs)).query f = (cargo.choice f).map ChangelistQueryState.flag := by
      refine hquery f fun v => ?_
      simp only [reservedNames, List.mem_cons, List.not_mem_nil, or_false, not_or] at hfield
      simp [hof f v, hfield]
    rw [hvalue]
    rcases cargo.choice f with _ | (_ | _) <;> rfl
  constructor
  · rw [parseChangelistQueryState, hyear, hmonth, hday,
      parseParam_toString toString "year" fun y hy => Text.parseSigned_toString (hfits.year y hy).1 (hfits.year y hy).2,
      parseParam_toString toString "month" fun m hm => Text.parseUnsigned_toString (hfits.month m hm),
      parseParam_toString toString "day" fun d hd => Text.parseUnsigned_toString (hfits.day d hd),
      horder, hsearch, hactive]
    dsimp only [Except.mapError]
    rw [bind_ok, bind_ok, bind_ok, hrange]
    rfl
  · rw [hpage]
    cases hp : cargo.page with
    | none => rfl
    | some p =>
      obtain ⟨hone, hbound⟩ := hfits.page p hp
      rw [Option.map_some, parsePage, Text.parseSigned_toString (by omega) (by omega)]
      exact if_neg (by omega)

/-! ### Accepted requests -/

variable {state : ChangelistQueryState} {page : Int}

theorem lookup_filtersOf (choice : String → Option Bool) (f : String) :
    (filtersOf admin choice).lookup f = if f ∈ admin.config.listFilter.getD [] then choice f else none := by
  have hkey : ∀ k (entry : String × Bool), (choice k).map (k, ·) = some entry → entry.1 = k := by
    intro k entry h
    obtain ⟨b, -, rfl⟩ := Option.map_eq_some_iff.mp h
    rfl
  split
  · rename_i hmem
    rw [filtersOf, List.lookup_filterMap_key hkey hmem, Option.map_map]
    cases choice f <;> rfl
  · rename_i hnot
    rw [List.lookup_eq_none_iff]
    intro entry hentry
    obtain ⟨k, hk, h⟩ := List.mem_filterMap.mp hentry
    rw [hkey k entry h]
    exact bne_iff_ne.mpr fun heq => hnot (heq ▸ hk)

theorem mem_filtersOf (choice : String → Option Bool) {f : String} {b : Bool} :
    (f, b) ∈ filtersOf admin choice ↔ f ∈ admin.config.listFilter.getD [] ∧ choice f = some b := by
  rw [filtersOf, List.mem_filterMap]
  constructor
  · rintro ⟨k, hk, h⟩
    obtain ⟨b', hb, h⟩ := Option.map_eq_some_iff.mp h
    cases h
    exact ⟨hk, hb⟩
  · rintro ⟨hk, hb⟩
    exact ⟨f, hk, by rw [hb]; rfl⟩

/-- What a request says about a filter. -/
def choiceIn (req : AdminRequest) (f : String) : Option Bool :=
  match req.query f with
  | some "true" => some true
  | some "false" => some false
  | _ => none

theorem activeFilters_eq (req : AdminRequest) (admin : ModelAdmin) : activeFilters req admin = filtersOf admin (choiceIn req) := by
  refine List.filterMap_congr fun f _ => ?_
  rw [choiceIn]
  split <;> simp [*]

/-- What an accepted request has. -/
structure Standing (admin : ModelAdmin) (state : ChangelistQueryState) (page : Int) : Prop where
  filters : state.filters = filtersOf admin fun f => state.filters.lookup f
  mem_filters : ∀ f b, (f, b) ∈ state.filters ↔ state.filters.lookup f = some b
  listed : ∀ f, (state.filters.lookup f).isSome → f ∈ admin.config.listFilter.getD []
  page : 1 ≤ page ∧ page < 2 ^ 63
  year : ∀ y ∈ state.year, -2 ^ 31 ≤ y ∧ y < 2 ^ 31
  month : ∀ m ∈ state.month, m < 2 ^ 32
  day : ∀ d ∈ state.day, d < 2 ^ 32
  range : rangeOf admin state.year state.month state.day = .ok state.dateRange

theorem parseUnsigned_bound {bound : Nat} {text : List Char} {n : Nat} (h : Text.parseUnsigned bound text = some n) : n < bound :=
  of_decide_eq_true (Option.filter_eq_some_iff.mp h).2

theorem ReadsAs.of_parse {α : Type} {parse : List Char → Option α} {raw : Option String} {v : Option α}
    (h : ReadsAs parse raw v) {a : α} (ha : v = some a) : ∃ text, parse text = some a := by
  subst ha
  cases raw with
  | none => cases h
  | some s =>
    obtain ⟨a', ha', heq⟩ := h
    cases heq
    exact ⟨_, ha'⟩

/-- What is taken from a request as it is. -/
theorem Accepted.texts (h : Accepted admin req state page) :
    state.order = req.query "o" ∧ state.search = req.query "q" ∧ state.filters = filtersOf admin (choiceIn req) := by
  have hstate := h.state
  rw [parseChangelistQueryState] at hstate
  obtain ⟨year, hyear, hstate⟩ := Except.bind_eq_ok.mp hstate
  obtain ⟨month, hmonth, hstate⟩ := Except.bind_eq_ok.mp hstate
  obtain ⟨day, hday, hstate⟩ := Except.bind_eq_ok.mp hstate
  obtain ⟨range, hrange, hstate⟩ := Except.bind_eq_ok.mp hstate
  cases hstate
  exact ⟨rfl, rfl, activeFilters_eq req admin⟩

/-- The numbers of an accepted request, and the range of its date. -/
theorem Accepted.reading (h : Accepted admin req state page) :
    Reading req state.year state.month state.day ∧ rangeOf admin state.year state.month state.day = .ok state.dateRange := by
  rcases parse_cases req admin with ⟨⟨message, herror⟩, -⟩ | ⟨year, month, day, hreads, ⟨fault, -, herror⟩ | hok⟩
  · cases herror.symm.trans h.state
  · cases herror.symm.trans h.state
  · obtain ⟨range, state', hrange, hok, rfl, rfl, rfl, rfl⟩ := hok
    cases hok.symm.trans h.state
    exact ⟨hreads, hrange⟩

theorem Accepted.standing (h : Accepted admin req state page) : Standing admin state page := by
  have hfilters := h.texts.2.2
  have hlookup (f : String) : state.filters.lookup f = if f ∈ admin.config.listFilter.getD [] then choiceIn req f else none := by
    rw [hfilters, lookup_filtersOf]
  obtain ⟨hreads, hrange⟩ := h.reading
  constructor
  · refine hfilters.trans (List.filterMap_congr fun f hf => ?_)
    dsimp only
    rw [hlookup, if_pos hf]
  · intro f b
    rw [hlookup, hfilters, mem_filtersOf]
    split
    · simp [*]
    · simp [*]
  · intro f hf
    rw [hlookup] at hf
    by_contra hnot
    rw [if_neg hnot] at hf
    cases hf
  · have hpage := h.page
    cases hquery : req.query "page" with
    | none =>
      rw [hquery] at hpage
      cases hpage
      omega
    | some text =>
      rw [hquery, parsePage] at hpage
      cases hparse : Text.parseSigned (2 ^ 63) text.toList with
      | none =>
        rw [hparse] at hpage
        cases hpage
      | some p =>
        rw [hparse] at hpage
        dsimp only at hpage
        split at hpage
        · cases hpage
        · cases hpage
          have hbounds := Text.parseSigned_bounds hparse
          omega
  · intro y hy
    obtain ⟨text, htext⟩ := hreads.year.of_parse hy
    have hbounds := Text.parseSigned_bounds htext
    omega
  · intro m hm
    obtain ⟨text, htext⟩ := hreads.month.of_parse hm
    exact parseUnsigned_bound htext
  · intro d hd
    obtain ⟨text, htext⟩ := hreads.day.of_parse hd
    exact parseUnsigned_bound htext
  · exact hrange

end States

/-! ### Where links lead -/

section Links
variable (crates : UrlCrates) (admin : ModelAdmin) (req : AdminRequest)

/-- A link leads to a state and a page. -/
def Leads (href : List Char) (state : ChangelistQueryState) (page : Int) : Prop :=
  Accepted admin (follow crates req href) state page

/-- A link leads to a state with another date, whose range it has, and to the first page. -/
def LeadsToDate (href : List Char) (state : ChangelistQueryState) (date : Option Int × Option Nat × Option Nat) : Prop :=
  ∃ range, Leads crates admin req href { state with year := date.1, month := date.2.1, day := date.2.2, dateRange := range } 1

/-- A state with a choice for a filter. -/
def withChoice (state : ChangelistQueryState) (field : String) (choice : Option Bool) : ChangelistQueryState :=
  { state with filters := filtersOf admin (Function.update (fun f => state.filters.lookup f) field choice) }

/-- A state in the order of a column, or in the other direction. -/
def withOrder (state : ChangelistQueryState) (col : String) : ChangelistQueryState :=
  { state with order := some (if state.order = some col then "-" ++ col else col) }

/-- The dates above the date of a state. -/
def datesAbove (state : ChangelistQueryState) : List (Option Int × Option Nat × Option Nat) :=
  match state.year, state.month, state.day with
  | some y, some m, some _ => [(none, none, none), (some y, none, none), (some y, some m, none)]
  | some y, some _, none => [(none, none, none), (some y, none, none)]
  | some _, none, _ => [(none, none, none)]
  | none, _, _ => []

/-- The date of a value one level below the date of a state. -/
def dateBelow (state : ChangelistQueryState) (v : Int) : Option Int × Option Nat × Option Nat :=
  match state.year, state.month with
  | none, _ => (some v, none, none)
  | some y, none => (some y, some v.toNat, none)
  | some y, some m => (some y, some m, some v.toNat)

/-- Each link leads to the state of the page with the component changed that the link is for. -/
structure LinksLead (state : ChangelistQueryState) (page : Int) (columns : List String) (values : List Int)
    (links : ChangelistLinks) : Prop where
  headers : List.Forall₂ (fun col cell => Leads crates admin req cell.href (withOrder state col) 1) columns links.headerCells
  previous : ∀ href ∈ links.pager.prevHref, Leads crates admin req href state (page - 1)
  next : ∀ href ∈ links.pager.nextHref, Leads crates admin req href state (page + 1)
  filters : List.Forall₂ (fun field block => Leads crates admin req block.allHref (withChoice admin state field none) 1 ∧
      Leads crates admin req block.yesHref (withChoice admin state field (some true)) 1 ∧
      Leads crates admin req block.noHref (withChoice admin state field (some false)) 1)
    (admin.config.listFilter.getD []) links.listFilterBlocks
  breadcrumbs : admin.config.dateHierarchy.isSome →
    List.Forall₂ (fun date crumb => LeadsToDate crates admin req crumb.href state date) (datesAbove state) links.breadcrumbs
  dateLinks : admin.config.dateHierarchy.isSome → state.day = none →
    List.Forall₂ (fun v link => LeadsToDate crates admin req link.href state (dateBelow state v)) values links.dateLinks
  exported : Leads crates admin req links.exportQuery state 1

section Cargoes
variable {admin : ModelAdmin} {state : ChangelistQueryState} {page : Int}
open ChangelistQueryState

theorem mem_filterPairs {filters : List (String × Bool)} {name v : String} :
    (name, some v) ∈ filterPairs filters ↔ ∃ b, (name, b) ∈ filters ∧ flag b = v := by
  rw [filterPairs, List.mem_map]
  constructor
  · rintro ⟨⟨f, b⟩, hmem, heq⟩
    cases heq
    exact ⟨b, hmem, rfl⟩
  · rintro ⟨b, hmem, rfl⟩
    exact ⟨_, hmem, rfl⟩

theorem Standing.mem_pairs (h : Standing admin state page) {name v : String} :
    (name, some v) ∈ filterPairs state.filters ↔ (state.filters.lookup name).map flag = some v := by
  simp [mem_filterPairs, h.mem_filters]

/-- The pairs of the other filters and of one that is chosen. -/
theorem Standing.mem_update (h : Standing admin state page) {field name v : String} {choice : Option Bool} :
    (∃ b, choice = some b ∧ name = field ∧ flag b = v) ∨ (name, some v) ∈ filterPairs (state.filters.filter (·.1 ≠ field)) ↔
      (Function.update (fun f => state.filters.lookup f) field choice name).map flag = some v := by
  by_cases hname : name = field
  · subst hname
    simp [mem_filterPairs]
  · simp [mem_filterPairs, h.mem_filters, hname]

/-- The parameters of the state of a page, with another page, order and date. -/
def cargoOf (state : ChangelistQueryState) (page : Option Int) (order : Option String) (year : Option Int)
    (month day : Option Nat) : Cargo :=
  ⟨page, order, state.search, fun f => state.filters.lookup f, year, month, day⟩

/-- Pairs that are those of a state, in any order. -/
theorem Standing.of_pairs (h : Standing admin state page) {p : Option Int} {order : Option String} {year : Option Int}
    {month day : Option Nat} {pairs : Pairs}
    (hpairs : ∀ name v, (name, some v) ∈ pairs ↔
      (name, some v) ∈ [("page", p.map toString), ("o", order), ("q", state.search), ("year", year.map toString),
        ("month", month.map toString), ("day", day.map toString)] ∨ (name, some v) ∈ filterPairs state.filters) :
    (cargoOf state p order year month day).Of pairs := by
  intro name v
  rw [hpairs, h.mem_pairs]
  simp only [List.mem_cons, List.not_mem_nil, or_false, Prod.mk.injEq, cargoOf, eq_comm (a := some v), or_assoc]

theorem Standing.fits (h : Standing admin state page) {p : Option Int} {order : Option String} {year : Option Int}
    {month day : Option Nat} (hp : ∀ n ∈ p, 1 ≤ n ∧ n < 2 ^ 63) (hy : ∀ y ∈ year, -2 ^ 31 ≤ y ∧ y < 2 ^ 31)
    (hm : ∀ m ∈ month, m < 2 ^ 32) (hd : ∀ d ∈ day, d < 2 ^ 32) : (cargoOf state p order year month day).Fits admin :=
  ⟨hp, hy, hm, hd, h.listed⟩

/-- What the theorems about links are about: the names of the filters are identifiers, and no parameters. -/
structure Named (admin : ModelAdmin) : Prop where
  identifiers : Identifiers admin
  unreserved : ∀ f ∈ admin.config.listFilter.getD [], f ∉ reservedNames

/-- Pairs that are those of a state, with another page, order and date, lead to it. -/
theorem Standing.accepted (h : Standing admin state page) (hnamed : Named admin) (p : Option Int) (order : Option String)
    {year : Option Int} {month day : Option Nat} {range : Option (DateTime × DateTime)} {pairs : Pairs}
    (hfits : (cargoOf state p order year month day).Fits admin) (hrange : rangeOf admin year month day = .ok range)
    (hpairs : ∀ name v, (name, some v) ∈ pairs ↔
      (name, some v) ∈ [("page", p.map toString), ("o", order), ("q", state.search), ("year", year.map toString),
        ("month", month.map toString), ("day", day.map toString)] ∨ (name, some v) ∈ filterPairs state.filters) :
    Leads crates admin req (buildQueryString pairs) { state with order, year, month, day, dateRange := range } (p.getD 1) := by
  have haccepted : Accepted admin (follow crates req (buildQueryString pairs))
      ((cargoOf state p order year month day).state admin range) (p.getD 1) :=
    Cargo.accepted hnamed.identifiers hnamed.unreserved hfits (h.of_pairs hpairs) hrange
  rwa [Cargo.state, cargoOf, ← h.filters] at haccepted

theorem mem_around {pair : String × Option String} {before after : Pairs} {filters : List (String × Bool)} :
    pair ∈ before ++ filterPairs filters ++ after ↔ pair ∈ before ++ after ∨ pair ∈ filterPairs filters := by
  simp only [List.mem_append]
  tauto

theorem Standing.leads_page (h : Standing admin state page) (hnamed : Named admin) {p : Int} (hp : 1 ≤ p ∧ p < 2 ^ 63) :
    Leads crates admin req (state.pageHref p) state p := by
  have hfits : (cargoOf state (some p) state.order state.year state.month state.day).Fits admin :=
    h.fits (fun _ hn => (by rwa [← Option.some.inj hn])) h.year h.month h.day
  exact h.accepted crates req hnamed (some p) state.order hfits h.range fun name v =>
    mem_around.trans (or_congr_left Iff.rfl)

/-- Pairs without a page lead to the first one. -/
theorem Standing.leads_first (h : Standing admin state page) (hnamed : Named admin) (order : Option String)
    {year : Option Int} {month day : Option Nat} {range : Option (DateTime × DateTime)} {before after : Pairs}
    (hy : ∀ y ∈ year, -2 ^ 31 ≤ y ∧ y < 2 ^ 31) (hm : ∀ m ∈ month, m < 2 ^ 32) (hd : ∀ d ∈ day, d < 2 ^ 32)
    (hrange : rangeOf admin year month day = .ok range)
    (hpairs : ∀ name v, (name, some v) ∈ before ++ after ↔
      (name, some v) ∈ [("o", order), ("q", state.search), ("year", year.map toString), ("month", month.map toString),
        ("day", day.map toString)]) :
    Leads crates admin req (buildQueryString (before ++ filterPairs state.filters ++ after))
      { state with order, year, month, day, dateRange := range } 1 := by
  have hfits : (cargoOf state none order year month day).Fits admin := h.fits (fun _ hn => by cases hn) hy hm hd
  have haccepted : Leads crates admin req (buildQueryString (before ++ filterPairs state.filters ++ after))
      { state with order, year, month, day, dateRange := range } ((none : Option Int).getD 1) :=
    h.accepted crates req hnamed none order hfits hrange
    fun name v => mem_around.trans (or_congr_left ((hpairs name v).trans (by simp)))
  rwa [Option.getD_none] at haccepted

theorem Standing.leads_header (h : Standing admin state page) (hnamed : Named admin) (col : String) :
    Leads crates admin req (state.headerCell col).href (withOrder state col) 1 := by
  have hhref : (state.headerCell col).href = buildQueryString ([("o", (withOrder state col).order), ("q", state.search)] ++
      filterPairs state.filters ++ [state.yearPair, state.monthPair, state.dayPair]) := rfl
  rw [hhref]
  exact h.leads_first crates req hnamed (withOrder state col).order h.year h.month h.day h.range fun _ _ => Iff.rfl

theorem Standing.leads_export (h : Standing admin state page) (hnamed : Named admin) :
    Leads crates admin req state.exportQuery state 1 :=
  h.leads_first crates req hnamed state.order h.year h.month h.day h.range fun _ _ => Iff.rfl

/-- The parameters of the state of a page, with a choice for a filter. -/
def cargoWith (state : ChangelistQueryState) (field : String) (choice : Option Bool) : Cargo :=
  ⟨none, state.order, state.search, Function.update (fun f => state.filters.lookup f) field choice, state.year, state.month,
    state.day⟩

/-- A choice for a filter is a choice of the state. -/
theorem Standing.leads_choice (h : Standing admin state page) (hnamed : Named admin) {field : String} {choice : Option Bool}
    (hfield : field ∈ admin.config.listFilter.getD []) {before : Pairs}
    (hbefore : ∀ name v, (name, some v) ∈ before ↔ (name, some v) ∈ [("o", state.order), ("q", state.search)] ∨
      ∃ b, choice = some b ∧ name = field ∧ flag b = v) :
    Leads crates admin req (buildQueryString (before ++ (filterPairs (state.filters.filter (·.1 ≠ field)) ++
      [state.yearPair, state.monthPair, state.dayPair]))) (withChoice admin state field choice) 1 := by
  have hfits : (cargoWith state field choice).Fits admin := by
    refine ⟨fun _ hn => (by cases hn), h.year, h.month, h.day, fun f hf => ?_⟩
    by_cases hsame : f = field
    · rwa [hsame]
    · dsimp only [cargoWith] at hf
      rw [Function.update_of_ne hsame] at hf
      exact h.listed f hf
  refine Cargo.accepted hnamed.identifiers hnamed.unreserved hfits (fun name v => ?_) h.range
  rw [cargoWith, ← h.mem_update]
  simp only [List.mem_append, hbefore, List.mem_cons, List.not_mem_nil, or_false, Prod.mk.injEq, yearPair, monthPair, dayPair,
    Option.map_none, reduceCtorEq, and_false, false_or, eq_comm (a := some v)]
  generalize (∃ b, choice = some b ∧ name = field ∧ flag b = v) = chosen
  tauto

theorem Standing.leads_filter (h : Standing admin state page) (hnamed : Named admin) {field : String}
    (hfield : field ∈ admin.config.listFilter.getD []) :
    Leads crates admin req (state.filterBlock field).allHref (withChoice admin state field none) 1 ∧
      Leads crates admin req (state.filterBlock field).yesHref (withChoice admin state field (some true)) 1 ∧
      Leads crates admin req (state.filterBlock field).noHref (withChoice admin state field (some false)) 1 := by
  refine ⟨?_, ?_, ?_⟩
  · refine h.leads_choice crates req hnamed hfield fun name v => ?_
    simp
  · refine h.leads_choice crates req hnamed hfield fun name v => ?_
    simp [flag, or_assoc, eq_comm (a := v)]
  · refine h.leads_choice crates req hnamed hfield fun name v => ?_
    simp [flag, or_assoc, eq_comm (a := v)]

/-- Pairs with a date lead to it, if it has a range. -/
theorem Standing.leads_date (h : Standing admin state page) (hnamed : Named admin)
    {date : Option Int × Option Nat × Option Nat} (hrange : ∃ range, rangeOf admin date.1 date.2.1 date.2.2 = .ok range)
    (hy : ∀ y ∈ date.1, -2 ^ 31 ≤ y ∧ y < 2 ^ 31) (hm : ∀ m ∈ date.2.1, m < 2 ^ 32) (hd : ∀ d ∈ date.2.2, d < 2 ^ 32)
    {before after : Pairs}
    (hpairs : ∀ name v, (name, some v) ∈ before ++ after ↔ (name, some v) ∈ [("o", state.order), ("q", state.search),
      ("year", date.1.map toString), ("month", date.2.1.map toString), ("day", date.2.2.map toString)]) :
    LeadsToDate crates admin req (buildQueryString (before ++ filterPairs state.filters ++ after)) state date := by
  obtain ⟨range, hrange⟩ := hrange
  exact ⟨range, h.leads_first crates req hnamed state.order hy hm hd hrange hpairs⟩

/-- The years above a month have ranges, and the values below the date of a state. -/
structure DatesFit (state : ChangelistQueryState) (values : List Int) : Prop where
  above : ∀ y ∈ state.year, state.month.isSome → y < lastYear
  below : state.day = none → ∀ v ∈ values, ∃ range, linkRange state.year state.month v = .ok range

theorem month_of_range {y : Int} {m : Nat} {day : Option Nat} {range : DateTime × DateTime}
    (h : RangeIs y (some m) day range) : (firstYear ≤ y ∧ y ≤ lastYear) ∧ 1 ≤ m ∧ m ≤ 12 := by
  rcases day with _ | d
  · exact ⟨h.1.1, h.1.2.1⟩
  · exact ⟨h.1.1, h.1.2.1⟩

theorem Standing.leads_allLink (h : Standing admin state page) (hnamed : Named admin) :
    LeadsToDate crates admin req state.allLink state (none, none, none) := by
  have hhref : state.allLink =
      buildQueryString ([("o", state.order), ("q", state.search)] ++ filterPairs state.filters ++ []) := by
    rw [allLink, List.append_nil]
  rw [hhref]
  refine h.leads_date crates req hnamed ⟨none, rangeOf_none (.inr rfl)⟩ (fun _ h => by cases h) (fun _ h => by cases h)
    (fun _ h => by cases h) fun name v => ?_
  simp

theorem Standing.leads_yearLink (h : Standing admin state page) (hnamed : Named admin)
    (hrange : ∃ range, rangeOf admin state.year none none = .ok range) :
    LeadsToDate crates admin req state.yearLink state (state.year, none, none) := by
  have hhref : state.yearLink =
      buildQueryString ([("o", state.order), ("q", state.search), state.yearPair] ++ filterPairs state.filters ++ []) := by
    rw [yearLink, List.append_nil]
  rw [hhref]
  refine h.leads_date crates req hnamed hrange h.year (fun _ h => by cases h) (fun _ h => by cases h) fun name v => ?_
  simp [yearPair]

theorem Standing.leads_monthLink (h : Standing admin state page) (hnamed : Named admin)
    (hrange : ∃ range, rangeOf admin state.year state.month none = .ok range) :
    LeadsToDate crates admin req state.monthLink state (state.year, state.month, none) := by
  have hhref : state.monthLink = buildQueryString
      ([("o", state.order), ("q", state.search), state.yearPair, state.monthPair] ++ filterPairs state.filters ++ []) := by
    rw [monthLink, List.append_nil]
  rw [hhref]
  refine h.leads_date crates req hnamed hrange h.year h.month (fun _ h => by cases h) fun name v => ?_
  simp [yearPair, monthPair]

theorem Standing.leads_breadcrumbs (h : Standing admin state page) (hnamed : Named admin)
    (hfield : admin.config.dateHierarchy.isSome) (habove : ∀ y ∈ state.year, state.month.isSome → y < lastYear) :
    List.Forall₂ (fun date crumb => LeadsToDate crates admin req crumb.href state date) (datesAbove state) state.breadcrumbs := by
  have hall := h.leads_allLink crates req hnamed
  cases hy : state.year with
  | none =>
    rw [datesAbove, breadcrumbs, hy]
    exact .nil
  | some y =>
    cases hm : state.month with
    | none =>
      simp only [datesAbove, breadcrumbs, hy, hm]
      exact .cons hall .nil
    | some m =>
      have hrange := h.range
      rw [hy, hm, rangeOf_some hfield] at hrange
      obtain ⟨range, hrange, -⟩ := Except.map_eq_ok hrange
      have hdate := month_of_range (dateRange_eq_ok.mp hrange)
      have hlast := habove y hy (by rw [hm]; rfl)
      have hyear : ∃ range, rangeOf admin state.year none none = .ok range := by
        have his : RangeIs y none none _ := ⟨⟨hdate.1.1, hlast⟩, rfl⟩
        rw [hy, rangeOf_some hfield, dateRange_eq_ok.mpr his]
        exact ⟨_, rfl⟩
      have hmonth : ∃ range, rangeOf admin state.year state.month none = .ok range := by
        have his : RangeIs y (some m) none _ :=
          ⟨⟨hdate.1, valid_first y hdate.2.1 hdate.2.2⟩, fun heq => by omega, rfl⟩
        rw [hy, hm, rangeOf_some hfield, dateRange_eq_ok.mpr his]
        exact ⟨_, rfl⟩
      have hyearLink := h.leads_yearLink crates req hnamed hyear
      have hmonthLink := h.leads_monthLink crates req hnamed hmonth
      rw [hy] at hyearLink
      rw [hy, hm] at hmonthLink
      cases hd : state.day with
      | none =>
        simp only [datesAbove, breadcrumbs, hy, hm, hd]
        exact .cons hall (.cons hyearLink .nil)
      | some d =>
        simp only [datesAbove, breadcrumbs, hy, hm, hd]
        exact .cons hall (.cons hyearLink (.cons hmonthLink .nil))

theorem toString_toNat {v : Int} (h : 0 < v) : toString v.toNat = toString v := by
  obtain ⟨n, rfl⟩ := Int.eq_ofNat_of_zero_le h.le
  rfl

theorem Standing.leads_dateLink (h : Standing admin state page) (hnamed : Named admin)
    (hfield : admin.config.dateHierarchy.isSome) {v : Int} (hlink : ∃ range, linkRange state.year state.month v = .ok range) :
    LeadsToDate crates admin req (state.dateLink v).href state (dateBelow state v) := by
  obtain ⟨range, hlink⟩ := hlink
  cases hy : state.year with
  | none =>
    simp only [dateLink, dateBelow, hy]
    rw [hy, linkRange] at hlink
    have hyears := (dateRange_eq_ok.mp hlink).1
    simp only [firstYear, lastYear] at hyears
    refine h.leads_date crates req hnamed ⟨some range, ?_⟩ (fun y hv => ?_) (fun _ h => by cases h) (fun _ h => by cases h)
      fun name w => ?_
    · rw [rangeOf_some hfield, hlink]
      rfl
    · cases hv
      omega
    · simp
  | some y =>
    have hy' := h.year
    rw [hy] at hy'
    cases hm : state.month with
    | none =>
      simp only [dateLink, dateBelow, hy, hm]
      rw [hy, hm, linkRange] at hlink
      have hdate := (month_of_range (dateRange_eq_ok.mp hlink)).2
      refine h.leads_date crates req hnamed ⟨some range, ?_⟩ hy' (fun m hv => ?_) (fun _ h => by cases h) fun name w => ?_
      · rw [rangeOf_some hfield, hlink]
        rfl
      · cases hv
        omega
      · simp [yearPair, hy, toString_toNat (show 0 < v by omega)]
    | some m =>
      simp only [dateLink, dateBelow, hy, hm]
      rw [hy, hm, linkRange] at hlink
      have hday := (dateRange_eq_ok.mp hlink).1.2.2
      have hm' := h.month
      rw [hm] at hm'
      refine h.leads_date crates req hnamed ⟨some range, ?_⟩ hy' hm' (fun d hv => ?_) fun name w => ?_
      · rw [rangeOf_some hfield, hlink]
        rfl
      · cases hv
        have hlength := Nat.le_trans hday.2 (Calendar.monthLength_le _ _)
        have hlongest := Calendar.longest_le m
        omega
      · simp [yearPair, monthPair, hy, hm, toString_toNat (show 0 < v by omega)]

theorem totalPages_ok {total : Nat} (h : total + 100 < 2 ^ 63) :
    ∃ n, Paginator.totalPages ⟨max total 0, changelistPerPage⟩ = .ok n := by
  rw [Paginator.totalPages]
  split
  · exact ⟨_, rfl⟩
  · simp only [changelistPerPage]
    refine ⟨_, Except.bind_eq_ok.mpr ⟨_, i64_eq_ok.mpr ⟨?_, rfl⟩, Except.bind_eq_ok.mpr ⟨_, i64_eq_ok.mpr ⟨?_, rfl⟩, rfl⟩⟩⟩
    · omega
    · omega

/-- The links to the pages before and after a page. -/
theorem pagerOf_ok (state : ChangelistQueryState) {total : Nat} (htotal : total + 100 < 2 ^ 63) (hone : 1 ≤ page)
    (hpage : page * changelistPerPage < 2 ^ 63) :
    ∃ pager, state.pagerOf page total = .ok pager ∧
      pager.prevHref = (if 1 < page then some (state.pageHref (page - 1)) else none) ∧
      pager.nextHref = if page * changelistPerPage < total then some (state.pageHref (page + 1)) else none := by
  obtain ⟨pages, hpages⟩ := totalPages_ok htotal
  have hnext : i64 (page * changelistPerPage) = .ok (page * changelistPerPage) := by
    simp only [changelistPerPage] at hpage ⊢
    exact i64_eq_ok.mpr ⟨by omega, rfl⟩
  have hbound : page < 2 ^ 62 := by
    simp only [changelistPerPage] at hpage
    omega
  have hbefore : i64 (page - 1) = .ok (page - 1) := i64_eq_ok.mpr ⟨by omega, rfl⟩
  have hafter : i64 (page + 1) = .ok (page + 1) := i64_eq_ok.mpr ⟨by omega, rfl⟩
  have hnew : Paginator.new total changelistPerPage = .ok ⟨max total 0, changelistPerPage⟩ := rfl
  have hmax : max (total : Int) 0 = total := by omega
  rw [hmax] at hpages hnew
  rw [pagerOf, hnew, bind_ok, hpages, bind_ok, hbefore, hafter, Paginator.hasNext, hnext]
  simp only [Paginator.hasPrevious, bind_ok]
  by_cases hprevious : 1 < page <;> by_cases hmore : page * changelistPerPage < total <;>
    simp only [hprevious, hmore, decide_true, decide_false, if_true, if_false] <;> exact ⟨_, rfl, rfl, rfl⟩

/-- A pager is put together only if the end of the page and the number of rows fit. -/
theorem pagerOf_fits {total : Nat} {pager : Pager} (h : state.pagerOf page total = .ok pager) :
    page * changelistPerPage < 2 ^ 63 ∧ total + 100 < 2 ^ 63 := by
  obtain ⟨paginator, hnew, h⟩ := Except.bind_eq_ok.mp h
  obtain ⟨pages, hpages, h⟩ := Except.bind_eq_ok.mp h
  have hpaginator : Paginator.mk (max total 0) changelistPerPage = paginator := Except.ok.inj hnew
  rw [← hpaginator] at hpages h
  constructor
  · have hnext {α : Type} {f : Bool → Except Rest.Failure α} {a : α}
        (hbind : (Paginator.hasNext ⟨max total 0, changelistPerPage⟩ page >>= f) = .ok a) :
        page * changelistPerPage < 2 ^ 63 := by
      obtain ⟨more, hmore, -⟩ := Except.bind_eq_ok.mp hbind
      obtain ⟨last, hlast, -⟩ := Except.bind_eq_ok.mp hmore
      exact (i64_eq_ok.mp hlast).1.2
    split at h
    · obtain ⟨previous, -, h⟩ := Except.bind_eq_ok.mp h
      exact hnext h
    · exact hnext h
  · rw [Paginator.totalPages] at hpages
    split at hpages
    · rename_i hzero
      dsimp only at hzero
      omega
    · obtain ⟨sum, hsum, -⟩ := Except.bind_eq_ok.mp hpages
      have hbound := (i64_eq_ok.mp hsum).1.2
      simp only [changelistPerPage] at hbound
      omega

end Cargoes
end Links

/-! ### Following the pages -/

section Pages
variable (crates : UrlCrates) (admin : ModelAdmin) (total : Nat)

/-- A request is that of the link to the next page on the page of another, while there is a number of rows. -/
def NextLink (req req' : AdminRequest) : Prop :=
  ∃ state page pager href, Accepted admin req state page ∧ state.pagerOf page total = .ok pager ∧ pager.nextHref = some href ∧
    req' = follow crates req href

/-- The pages that have rows, and the first one. -/
def IsPage (page : Int) : Prop := page = 1 ∨ 1 ≤ page ∧ (page - 1) * changelistPerPage < total

/-- The links to the next page visit every page, and nothing else. -/
def VisitsAll (req : AdminRequest) (state : ChangelistQueryState) : Prop :=
  (∀ req', Relation.ReflTransGen (NextLink crates admin total) req req' →
      ∃ page, IsPage total page ∧ Accepted admin req' state page) ∧
    ∀ page, IsPage total page →
      ∃ req', Relation.ReflTransGen (NextLink crates admin total) req req' ∧ Accepted admin req' state page

variable {crates admin total} {req req' : AdminRequest} {state state' : ChangelistQueryState} {page page' : Int}

theorem Accepted.unique (h : Accepted admin req state page) (h' : Accepted admin req state' page') :
    state = state' ∧ page = page' :=
  ⟨Except.ok.inj (h.state.symm.trans h'.state), Except.ok.inj (h.page.symm.trans h'.page)⟩

theorem IsPage.fits (hpage : IsPage total page) (htotal : total + 100 < 2 ^ 63) :
    1 ≤ page ∧ page * changelistPerPage < 2 ^ 63 := by
  simp only [IsPage, changelistPerPage] at hpage ⊢
  omega

/-- The link to the next page leads to the page after, if there is one. -/
theorem nextLink_iff (htotal : total + 100 < 2 ^ 63) (h : Accepted admin req state page)
    (hpage : IsPage total page) :
    NextLink crates admin total req req' ↔
      page * changelistPerPage < total ∧ req' = follow crates req (state.pageHref (page + 1)) := by
  obtain ⟨hone, hfits⟩ := hpage.fits htotal
  obtain ⟨pager, hpager, -, hnext⟩ := pagerOf_ok state htotal hone hfits
  constructor
  · rintro ⟨state', page', pager', href, h', hpager', hhref, rfl⟩
    obtain ⟨rfl, rfl⟩ := h.unique h'
    cases hpager.symm.trans hpager'
    rw [hnext] at hhref
    split at hhref
    · rename_i hmore
      exact ⟨hmore, by rw [Option.some.inj hhref]⟩
    · cases hhref
  · rintro ⟨hmore, rfl⟩
    exact ⟨state, page, pager, _, h, hpager, by rw [hnext, if_pos hmore], rfl⟩

theorem NextLink.accepted (hnamed : Named admin) (htotal : total + 100 < 2 ^ 63) (h : Accepted admin req state page)
    (hpage : IsPage total page) (hlink : NextLink crates admin total req req') :
    IsPage total (page + 1) ∧ Accepted admin req' state (page + 1) := by
  obtain ⟨hmore, rfl⟩ := (nextLink_iff htotal h hpage).mp hlink
  obtain ⟨hone, hfits⟩ := hpage.fits htotal
  constructor
  · simp only [IsPage]
    refine .inr ⟨by omega, ?_⟩
    rwa [Int.add_sub_cancel]
  · refine h.standing.leads_page crates req hnamed ⟨by omega, ?_⟩
    simp only [changelistPerPage] at hmore
    omega

/-- From the first page, the links visit every page. -/
theorem visitsAll (hnamed : Named admin) (htotal : total + 100 < 2 ^ 63) (h : Accepted admin req state 1) :
    VisitsAll crates admin total req state := by
  constructor
  · intro req' hreach
    induction hreach with
    | refl => exact ⟨1, .inl rfl, h⟩
    | tail _ hlink ih =>
      obtain ⟨page, hpage, haccepted⟩ := ih
      obtain ⟨hpage', haccepted'⟩ := hlink.accepted hnamed htotal haccepted hpage
      exact ⟨page + 1, hpage', haccepted'⟩
  · intro page hpage
    have hone := (hpage.fits htotal).1
    obtain ⟨n, rfl⟩ : ∃ n : Nat, page = n + 1 := ⟨(page - 1).toNat, by omega⟩
    induction n with
    | zero => exact ⟨req, .refl, by simpa using h⟩
    | succ n ih =>
      have hmore : ((n : Int) + 1) * changelistPerPage < total := by
        simp only [IsPage] at hpage
        push_cast at hpage
        rcases hpage with hfirst | ⟨-, hmore⟩
        · omega
        · rwa [Int.add_sub_cancel] at hmore
      have hbefore : IsPage total ((n : Int) + 1) := by
        simp only [IsPage, changelistPerPage] at hmore ⊢
        omega
      obtain ⟨req', hreach, haccepted⟩ := ih hbefore (by omega)
      have hlink : NextLink crates admin total req' (follow crates req' (state.pageHref ((n : Int) + 1 + 1))) :=
        (nextLink_iff htotal haccepted hbefore).mpr ⟨hmore, rfl⟩
      refine ⟨_, hreach.tail hlink, ?_⟩
      push_cast
      exact (hlink.accepted hnamed htotal haccepted hbefore).2

end Pages

/-! ### All the links -/

section All
variable (crates : UrlCrates) (admin : ModelAdmin) (req : AdminRequest) (state : ChangelistQueryState) (page : Int)
  (columns : List String) (total : Nat) (values : List Int)

/-- No arithmetic on the page overflows, each link leads to the state with its component changed, and from the first page
    the links visit every page. -/
structure LinksKeep : Prop where
  offset : changelistOffset page = .ok (((page - 1) * changelistPerPage).bmod (2 ^ 64))
  links : ∃ links, changelistLinks admin state page columns total values = .ok links ∧
    LinksLead crates admin req state page columns values links
  pages : page = 1 → VisitsAll crates admin total req state

/-- No filter is named like a parameter, the end of the page and the number of rows fit, and there are ranges for the dates
    that are linked to. -/
structure LinksFit : Prop where
  names : ∀ f ∈ admin.config.listFilter.getD [], f ∉ reservedNames
  page : page * changelistPerPage < 2 ^ 63
  total : total + 100 < 2 ^ 63
  dates : admin.config.dateHierarchy.isSome → DatesFit state values

variable {crates admin req state page columns total values}

theorem linksKeep_of_fit (hidentifiers : Identifiers admin) (h : Accepted admin req state page)
    (hfit : LinksFit admin state page total values) : LinksKeep crates admin req state page columns total values := by
  have hnamed : Named admin := ⟨hidentifiers, hfit.names⟩
  have hstanding := h.standing
  have hone := hstanding.page.1
  have hfits := hfit.page
  obtain ⟨pager, hpager, hprevious, hnext⟩ := pagerOf_ok state hfit.total hone hfit.page
  simp only [changelistPerPage] at hfits
  refine ⟨?_, ?_, ?_⟩
  · have hwrap : ((page - 1) * changelistPerPage).bmod (2 ^ 64) = (page - 1) * changelistPerPage := by
      simp only [changelistPerPage]
      exact Int.bmod_eq_of_le (by omega) (by omega)
    rw [hwrap]
    refine Except.bind_eq_ok.mpr ⟨_, i64_eq_ok.mpr ⟨by omega, rfl⟩, i64_eq_ok.mpr ⟨?_, rfl⟩⟩
    simp only [changelistPerPage]
    omega
  · refine ⟨_, Except.bind_eq_ok.mpr ⟨pager, hpager, rfl⟩, ?_, ?_, ?_, ?_, ?_, ?_, ?_⟩
    · exact List.forall₂_map_right_iff.mpr <| List.forall₂_same.mpr fun col _ => hstanding.leads_header crates req hnamed col
    · intro href hhref
      rw [hprevious] at hhref
      split at hhref
      · rw [← Option.some.inj hhref]
        exact hstanding.leads_page crates req hnamed ⟨by omega, by omega⟩
      · cases hhref
    · intro href hhref
      rw [hnext] at hhref
      split at hhref
      · rw [← Option.some.inj hhref]
        exact hstanding.leads_page crates req hnamed ⟨by omega, by omega⟩
      · cases hhref
    · exact List.forall₂_map_right_iff.mpr <| List.forall₂_same.mpr fun field hfield =>
        hstanding.leads_filter crates req hnamed hfield
    · intro hfield
      simp only [hfield, if_true]
      exact hstanding.leads_breadcrumbs crates req hnamed hfield (hfit.dates hfield).above
    · intro hfield hday
      simp only [hfield, hday, and_self, if_true]
      exact List.forall₂_map_right_iff.mpr <| List.forall₂_same.mpr fun v hv =>
        hstanding.leads_dateLink crates req hnamed hfield ((hfit.dates hfield).below hday v hv)
    · exact hstanding.leads_export crates req hnamed
  · rintro rfl
    exact visitsAll hnamed hfit.total h

/-- A link that leads to a state with a choice carries it. -/
theorem Leads.query_choice {href : List Char} {field : String} {b : Bool} (hfield : field ∈ admin.config.listFilter.getD [])
    (h : Leads crates admin req href (withChoice admin state field (some b)) 1) :
    (follow crates req href).query field = some (ChangelistQueryState.flag b) := by
  have hmem : (field, b) ∈ (withChoice admin state field (some b)).filters :=
    (mem_filtersOf _).mpr ⟨hfield, Function.update_self ..⟩
  rw [h.texts.2.2, mem_filtersOf, choiceIn] at hmem
  have hchoice := hmem.2
  split at hchoice
  · rename_i hquery
    rw [hquery, ← Option.some.inj hchoice]
    rfl
  · rename_i hquery
    rw [hquery, ← Option.some.inj hchoice]
    rfl
  · cases hchoice

/-- A field whose filter can be chosen and is chosen against is no parameter. -/
theorem unreserved_of_leads {yes no : List Char} {field : String} (hfield : field ∈ admin.config.listFilter.getD [])
    (hyes : Leads crates admin req yes (withChoice admin state field (some true)) 1)
    (hno : Leads crates admin req no (withChoice admin state field (some false)) 1) : field ∉ reservedNames := by
  have htrue : (follow crates req yes).query field = some "true" := hyes.query_choice hfield
  have hfalse : (follow crates req no).query field = some "false" := hno.query_choice hfield
  intro hreserved
  simp only [reservedNames, List.mem_cons, List.not_mem_nil, or_false] at hreserved
  rcases hreserved with rfl | rfl | rfl | rfl | rfl | rfl
  · have hpage := hyes.page
    rw [htrue] at hpage
    cases hpage
  · have horder := hyes.texts.1.symm.trans hno.texts.1
    rw [htrue, hfalse] at horder
    simp at horder
  · have hsearch := hyes.texts.2.1.symm.trans hno.texts.2.1
    rw [htrue, hfalse] at hsearch
    simp at hsearch
  · have hyear := hyes.reading.1.year
    rw [htrue] at hyear
    obtain ⟨a, ha, -⟩ := hyear
    cases ha
  · have hmonth := hyes.reading.1.month
    rw [htrue] at hmonth
    obtain ⟨a, ha, -⟩ := hmonth
    cases ha
  · have hday := hyes.reading.1.day
    rw [htrue] at hday
    obtain ⟨a, ha, -⟩ := hday
    cases ha

theorem fit_of_linksKeep (h : LinksKeep crates admin req state page columns total values) :
    LinksFit admin state page total values := by
  obtain ⟨links, hlinks, hleads⟩ := h.links
  obtain ⟨pager, hpager, hlinks⟩ := Except.bind_eq_ok.mp hlinks
  have hfits := pagerOf_fits hpager
  refine ⟨fun field hfield => ?_, hfits.1, hfits.2, fun hhierarchy => ⟨fun y hy hmonth => ?_, fun hday v hv => ?_⟩⟩
  · obtain ⟨block, -, -, hyes, hno⟩ := hleads.filters.exists_of_mem_left hfield
    exact unreserved_of_leads hfield hyes hno
  · have habove : (some y, none, none) ∈ datesAbove state := by
      obtain ⟨m, hm⟩ := Option.isSome_iff_exists.mp hmonth
      rw [datesAbove, hy, hm]
      cases state.day <;> simp
    obtain ⟨crumb, -, range, hcrumb⟩ := (hleads.breadcrumbs hhierarchy).exists_of_mem_left habove
    have hrange := hcrumb.reading.2
    rw [rangeOf_some hhierarchy] at hrange
    obtain ⟨range, hrange, -⟩ := Except.map_eq_ok hrange
    have his : RangeIs y none none range := dateRange_eq_ok.mp hrange
    exact his.1.2
  · obtain ⟨link, -, range, hlink⟩ := (hleads.dateLinks hhierarchy hday).exists_of_mem_left hv
    have hrange := hlink.reading.2
    cases hy : state.year with
    | none =>
      simp only [dateBelow, hy] at hrange
      rw [rangeOf_some hhierarchy] at hrange
      obtain ⟨range, hrange, -⟩ := Except.map_eq_ok hrange
      exact ⟨range, hrange⟩
    | some y =>
      cases hm : state.month with
      | none =>
        simp only [dateBelow, hy, hm] at hrange
        rw [rangeOf_some hhierarchy] at hrange
        obtain ⟨range, hrange, -⟩ := Except.map_eq_ok hrange
        exact ⟨range, hrange⟩
      | some m =>
        simp only [dateBelow, hy, hm] at hrange
        rw [rangeOf_some hhierarchy] at hrange
        obtain ⟨range, hrange, -⟩ := Except.map_eq_ok hrange
        exact ⟨range, hrange⟩

/-- The links of a changelist keep its state when no filter is named like a parameter, the page and the number of rows fit,
    and there are ranges for the dates that are linked to, and only then. -/
theorem links_keep_state (hidentifiers : Identifiers admin) (h : Accepted admin req state page) :
    LinksKeep crates admin req state page columns total values ↔ LinksFit admin state page total values :=
  ⟨fit_of_linksKeep, linksKeep_of_fit hidentifiers h⟩

end All

section Events
attribute [local instance] Fmt.decimal

/-- The events of 1970 that match a search. -/
def eventSearch : ChangelistQueryState where
  order := some "-id"
  search := some "a&b=c"
  filters := []
  year := some 1970
  month := none
  day := none
  dateRange := some (midnightOf 0, midnightOf 365)

def searchRequest : AdminRequest := dateRequest [("q", "a&b=c"), ("o", "-id"), ("year", "1970")]

theorem eventSearch_accepted : Accepted eventAdmin searchRequest eventSearch 1 := by
  refine ⟨?_, rfl⟩
  have hyear : Text.parseSigned (2 ^ 31) "1970".toList = some 1970 := by decide +kernel
  have hquery : searchRequest.query "year" = some "1970" := rfl
  rw [parseChangelistQueryState, hquery, parseParam, hyear]
  rfl

/-- The links of the search keep it. -/
theorem eventSearch_kept :
    LinksKeep standardCrates eventAdmin searchRequest eventSearch 1 ["id", "created_at"] 250 [1, 12] := by
  refine (links_keep_state (fun _ h => by cases h) eventSearch_accepted).mpr ?_
  refine ⟨fun _ h => (by cases h), by decide, by decide, fun _ => ⟨fun _ _ h => (by cases h), fun _ v hv => ?_⟩⟩
  simp only [List.mem_cons, List.not_mem_nil, or_false] at hv
  rcases hv with rfl | rfl
  · exact ⟨_, rfl⟩
  · exact ⟨_, rfl⟩

def farRequest : AdminRequest := dateRequest [("page", "92233720368547759")]

/-- All the events. -/
def eventList : ChangelistQueryState := ⟨none, none, [], none, none, none, none⟩

/-- A page whose end is not an `i64` is accepted, and its arithmetic overflows. -/
theorem far_page_overflows : Accepted eventAdmin farRequest eventList 92233720368547759 ∧
    ¬LinksKeep standardCrates eventAdmin farRequest eventList 92233720368547759 ["id", "created_at"] 250 [] := by
  refine ⟨⟨rfl, ?_⟩, fun h => ?_⟩
  · have hpage : Text.parseSigned (2 ^ 63) "92233720368547759".toList = some 92233720368547759 := by decide +kernel
    have hquery : farRequest.query "page" = some "92233720368547759" := rfl
    rw [hquery, parsePage, hpage]
    rfl
  · exact absurd (fit_of_linksKeep h).page (by decide)

end Events

end Djangors.Admin
