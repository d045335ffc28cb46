import Djangors.Theorems.TenantBreaches

/-! # What a delete confirmation shows

The rows that refer to an object are asked for by its key, and so are the rows that refer to those. A table is asked
about once. -/

namespace Djangors.Admin
open Db Http Orm Sql
open Migrations (CaseMap contains)

/-! ### The rows that refer to others -/

section Rows
variable (S : AdminServer) (db : Tables Cell) (site : Site)

/-- The rows that refer to one of some keys through a relation. -/
def references (keys : List Int) (p : ModelMeta × RelationMeta) : List (Row Cell) :=
  (db p.1.tableName).filter fun row => keys.any fun key => S.holds db p.1.tableName p.2.fieldName key row

def keyOf : Cell → Option Int
  | .i64 key => some key
  | _ => none

/-- The keys of rows. -/
def keysOf (m : ModelMeta) (rows : List (Row Cell)) : List Int :=
  rows.filterMap fun row => (m.primaryKey?.bind fun pk => row.lookup pk.columnName).bind keyOf

/-- The entry of a relation, if there are rows that refer to the keys. -/
def entryOf (nested : ModelMeta → List Int → List Related) (keys : List Int) (p : ModelMeta × RelationMeta) : Option Related :=
  let rows := references S db keys p
  if rows = [] then none
  else some (.mk p.1.appLabel p.1.structName p.2.fieldName p.2.onDelete rows.length (nested p.1 (keysOf p.1 rows)))

/-- What refers to some keys of a model, and what refers to that, so many levels deep. -/
def relatedTo : Nat → ModelMeta → List Int → List Related
  | 0, target, keys => (referring site target).filterMap (entryOf S db (fun _ _ => []) keys)
  | depth + 1, target, keys => (referring site target).filterMap (entryOf S db (relatedTo depth) keys)

/-- Rows that refer to keys, and below them the rows that refer to those: the model of each and its keys. -/
def placesOf (nested : ModelMeta → List Int → List (ModelMeta × List Int)) (keys : List Int) (p : ModelMeta × RelationMeta) :
    List (ModelMeta × List Int) :=
  let rows := references S db keys p
  if rows = [] then [] else (p.1, keysOf p.1 rows) :: nested p.1 (keysOf p.1 rows)

/-- The rows that are looked into, in the order in which they are found. -/
def placesTo : Nat → ModelMeta → List Int → List (ModelMeta × List Int)
  | 0, _, _ => []
  | depth + 1, target, keys => (referring site target).flatMap (placesOf S db (placesTo depth) keys)

end Rows

/-! ### Conditions -/

section Conditions
variable [UnquotedNames] (S : AdminServer) (db : Tables Cell) (site : Site) (pk : Int)

/-- How many rows the statement for a relation counts; nothing if its error ends the page. -/
def counted (p : ModelMeta × RelationMeta) : Option Nat :=
  match UnquotedNames.resolve p.1.tableName p.2.fieldName with
  | .ok (table, column) => some ((db table).countP (S.holds db table column pk))
  | .error e =>
    if contains (Rest.ormMessage e) "does not exist" ∨ contains (Rest.ormMessage e) "no such table" then some 0 else none

/-- As many rows refer to the key as to some other keys, relation by relation. -/
def AsMany (target : ModelMeta) (keys : List Int) : Prop :=
  ∀ p ∈ referring site target, counted S db pk p = some (references S db keys p).length

/-- Behind the tables that have been looked into, as many rows refer to the key as to the rows of a table that comes for
    the first time, and none to the rows of a table that comes again. -/
def FirstOnly : List String → List (ModelMeta × List Int) → Prop
  | _, [] => True
  | before, (m, keys) :: places =>
    (if m.tableName ∈ before then ∀ p ∈ referring site m, references S db keys p = [] else AsMany S db site pk m keys) ∧
      FirstOnly (m.tableName :: before) places

end Conditions

/-- A model and a field name one relation. -/
structure DistinctNames (site : Site) : Prop where
  models : (site.models.map fun m => (m.appLabel, m.structName)).Nodup
  relations : ∀ m ∈ site.models, (m.relations.map (·.fieldName)).Nodup

/-! ### Steps -/

/-- A handler gives a result and leaves the state. -/
abbrev Gives [Fmt] [UnquotedNames] {α : Type} (S : AdminServer) (w : World) (handler : Handler α) (a : α) : Prop :=
  handler.eval (AdminCall.exec S) w = (w, .ok a)

section Steps
variable [Fmt] [UnquotedNames] {S : AdminServer} {w : World} {pk : Int} {site : Site} {nested : Option Collect}
  {p : ModelMeta × RelationMeta} {relations : List (ModelMeta × RelationMeta)} {visited visited' : List String} {entries : List Related}

section Attempt
variable {exec : (call : AdminCall) → World → World × call.Answer} {call : AdminCall} {u : World}

omit [Fmt] [UnquotedNames] in
theorem eval_attempt_ok {a : call.Result} (h : exec call w = (u, .ok a)) :
    (attempt call).eval exec w = (u, .ok (.ok a)) := by
  change Program.eval exec _ _ = _
  rw [attempt, Program.eval_call, h]
  rfl

omit [Fmt] [UnquotedNames] in
theorem eval_attempt_error {e : OrmError} (h : exec call w = (u, .error (.err e))) :
    (attempt call).eval exec w = (u, .ok (.error e)) := by
  change Program.eval exec _ _ = _
  rw [attempt, Program.eval_call, h]
  rfl

end Attempt

/-- What the loop makes of a relation. -/
theorem loop_cons_eq_ok (hnested : ∀ collect ∈ nested, ∀ m visited, Reads (collect m visited)) :
    Gives S w (collectLoop nested pk (p :: relations) visited) (entries, visited') ↔
      ∃ n, counted S w.tables pk p = some n ∧
        if n = 0 then Gives S w (collectLoop nested pk relations visited) (entries, visited')
        else ∃ inner visited₁ rest, Gives S w (collectNested nested p.1 visited) (inner, visited₁) ∧
          Gives S w (collectLoop nested pk relations visited₁) (rest, visited') ∧
          entries = .mk p.1.appLabel p.1.structName p.2.fieldName p.2.onDelete n inner :: rest := by
  obtain ⟨m, r⟩ := p
  rw [collectLoop, counted]
  cases hresolve : UnquotedNames.resolve m.tableName r.fieldName with
  | error e =>
    have hexec : AdminCall.exec S (.countWhere m.tableName r.fieldName pk) w = (w, .error (.err e)) := by
      rw [AdminCall.exec, hresolve]
      rfl
    have heval : (attempt (.countWhere m.tableName r.fieldName pk)).eval (AdminCall.exec S) w = (w, .ok (.error e)) :=
      eval_attempt_error hexec
    rw [Gives, Fallible.eval_bind_ok heval]
    dsimp only
    split
    · simp
    · simp [orFail, Except.mapError]
  | ok names =>
    obtain ⟨table, column⟩ := names
    have hexec : AdminCall.exec S (.countWhere m.tableName r.fieldName pk) w =
        (w, .ok ((w.tables table).countP (S.holds w.tables table column pk))) := by
      rw [AdminCall.exec, hresolve]
      rfl
    have heval : (attempt (.countWhere m.tableName r.fieldName pk)).eval (AdminCall.exec S) w =
        (w, .ok (.ok ((w.tables table).countP (S.holds w.tables table column pk)))) := eval_attempt_ok hexec
    rw [Gives, Fallible.eval_bind_ok heval]
    simp only [Option.some.injEq, exists_eq_left']
    split
    · exact Iff.rfl
    · have hsame {visited : List String} {u : World} {result : Except Fault (List Related × List String)}
          (h : (collectNested nested m visited).eval (AdminCall.exec S) w = (u, result)) : u = w :=
        (congrArg Prod.fst h).symm.trans (eval_reads (reads_collectNested hnested _ _))
      constructor
      · intro h
        obtain ⟨u, ⟨inner, visited₁⟩, hinner, h⟩ := Fallible.eval_bind_eq_ok.mp h
        obtain rfl := hsame hinner
        obtain ⟨u', ⟨rest, visited₂⟩, hrest, h⟩ := Fallible.eval_bind_eq_ok.mp h
        cases h
        exact ⟨inner, visited₁, rest, hinner, hrest, rfl⟩
      · rintro ⟨inner, visited₁, rest, hinner, hrest, rfl⟩
        exact Fallible.eval_bind_eq_ok.mpr ⟨w, _, hinner, Fallible.eval_bind_eq_ok.mpr ⟨w, _, hrest, rfl⟩⟩

end Steps

/-! ### Entries and places -/

section Places
variable {S : AdminServer} {db : Tables Cell} {site : Site} {depth : Nat} {target : ModelMeta} {keys : List Int}
  {nested : ModelMeta → List Int → List Related} {places : ModelMeta → List Int → List (ModelMeta × List Int)}
  {p : ModelMeta × RelationMeta}

theorem entryOf_none (h : references S db keys p = []) : entryOf S db nested keys p = none := by
  simp [entryOf, h]

theorem entryOf_some (h : references S db keys p ≠ []) : entryOf S db nested keys p =
    some (.mk p.1.appLabel p.1.structName p.2.fieldName p.2.onDelete (references S db keys p).length
      (nested p.1 (keysOf p.1 (references S db keys p)))) := by
  simp [entryOf, h]

theorem placesOf_nil (h : references S db keys p = []) : placesOf S db places keys p = [] := by
  simp [placesOf, h]

theorem placesOf_cons (h : references S db keys p ≠ []) : placesOf S db places keys p =
    (p.1, keysOf p.1 (references S db keys p)) :: places p.1 (keysOf p.1 (references S db keys p)) := by
  simp [placesOf, h]

theorem relatedTo_eq_nil : relatedTo S db site depth target keys = [] ↔ ∀ p ∈ referring site target, references S db keys p = [] := by
  have hentry {nested : ModelMeta → List Int → List Related} {p : ModelMeta × RelationMeta} :
      entryOf S db nested keys p = none ↔ references S db keys p = [] := by
    refine ⟨fun h => ?_, entryOf_none⟩
    by_contra hne
    rw [entryOf_some hne] at h
    cases h
  cases depth <;> simp only [relatedTo, List.filterMap_eq_nil_iff, hentry]

theorem placesTo_eq_nil (h : ∀ p ∈ referring site target, references S db keys p = []) :
    placesTo S db site depth target keys = [] := by
  cases depth with
  | zero => rfl
  | succ depth => exact List.flatMap_eq_nil_iff.mpr fun p hp => placesOf_nil (h p hp)

end Places

section Counts
variable [UnquotedNames] {S : AdminServer} {db : Tables Cell} {site : Site} {pk : Int} {target : ModelMeta}

/-- What refers to the object itself is counted, where names stand for themselves without quotes. -/
theorem asMany_self (plain : ∀ p ∈ referring site target,
      UnquotedNames.resolve p.1.tableName p.2.fieldName = .ok (p.1.tableName, p.2.fieldName)) :
    AsMany S db site pk target [pk] := by
  intro p hp
  rw [counted, plain p hp]
  simp [references, List.countP_eq_length_filter]

end Counts

section Order
variable [UnquotedNames] {S : AdminServer} {db : Tables Cell} {site : Site} {pk : Int} {before before' : List String}
  {places places' : List (ModelMeta × List Int)}

def tablesOf (places : List (ModelMeta × List Int)) : List String := places.map (·.1.tableName)

theorem firstOnly_congr (h : ∀ t, t ∈ before ↔ t ∈ before') :
    FirstOnly S db site pk before places ↔ FirstOnly S db site pk before' places := by
  induction places generalizing before before' with
  | nil => exact Iff.rfl
  | cons place places ih =>
    simp only [FirstOnly, h place.1.tableName]
    exact and_congr_right fun _ => ih fun t => by simp [h t]

theorem firstOnly_append : FirstOnly S db site pk before (places ++ places') ↔
    FirstOnly S db site pk before places ∧ FirstOnly S db site pk (tablesOf places ++ before) places' := by
  induction places generalizing before with
  | nil => exact ⟨fun h => ⟨trivial, h⟩, fun h => h.2⟩
  | cons place places ih =>
    rw [List.cons_append, FirstOnly, FirstOnly, ih, and_assoc]
    exact and_congr_right fun _ => and_congr_right fun _ => firstOnly_congr fun t => by simp [tablesOf, or_left_comm]

end Order

/-! ### What is collected -/

section Collected
variable {S : AdminServer} {w : World} {site : Site} {pk : Int} {depth : Nat} {target : ModelMeta}
  {keys : List Int} {relations : List (ModelMeta × RelationMeta)} {visited visited' : List String} {entries : List Related}

/-- The tables that have been looked into, after some places. -/
def VisitedAfter (visited visited' : List String) (places : List (ModelMeta × List Int)) : Prop :=
  ∀ t, t ∈ visited' ↔ t ∈ tablesOf places ∨ t ∈ visited

theorem VisitedAfter.append {visited₁ : List String} {places places' : List (ModelMeta × List Int)}
    (h : VisitedAfter visited visited₁ places) (h' : VisitedAfter visited₁ visited' places') :
    VisitedAfter visited visited' (places ++ places') := by
  intro t
  rw [h', h]
  simp [tablesOf, or_left_comm, or_assoc]

theorem reads_some : ∀ collect ∈ some (collectRelated site pk depth), ∀ m visited, Reads (collect m visited) := by
  rintro _ ⟨⟩ m visited
  exact reads_collectRelated pk site depth m visited

variable [Fmt] [UnquotedNames]

/-- On the last level nothing is looked into. -/
theorem gives_last (h : ∀ p ∈ relations, counted S w.tables pk p = some (references S w.tables keys p).length) :
    Gives S w (collectLoop none pk relations visited)
      (relations.filterMap (entryOf S w.tables (fun _ _ => []) keys), visited) := by
  induction relations generalizing visited with
  | nil => rfl
  | cons p relations ih =>
    have ih {visited : List String} := @ih visited fun q hq => h q (List.mem_cons_of_mem p hq)
    rw [loop_cons_eq_ok (by simp)]
    refine ⟨_, h p List.mem_cons_self, ?_⟩
    split
    · rename_i hzero
      rw [List.filterMap_cons_none (entryOf_none (List.length_eq_zero_iff.mp hzero))]
      exact ih
    · rename_i hne
      rw [List.filterMap_cons_some (entryOf_some fun hnil => hne (by rw [hnil]; rfl))]
      exact ⟨[], visited, _, rfl, ih, rfl⟩

/-- Keys whose related rows are collected. -/
def Collects (S : AdminServer) (w : World) (site : Site) (pk : Int) (depth : Nat) : Prop :=
  ∀ target keys visited, AsMany S w.tables site pk target keys →
    FirstOnly S w.tables site pk visited (placesTo S w.tables site depth target keys) →
    ∃ visited', Gives S w (collectRelated site pk depth target visited) (relatedTo S w.tables site depth target keys, visited') ∧
      VisitedAfter visited visited' (placesTo S w.tables site depth target keys)

/-- Rows of a table that comes again have nothing below them; those of another one are looked into. -/
theorem gives_nested (ih : Collects S w site pk depth)
    (h : FirstOnly S w.tables site pk visited ((target, keys) :: placesTo S w.tables site depth target keys)) :
    ∃ visited', Gives S w (collectNested (some (collectRelated site pk depth)) target visited)
        (relatedTo S w.tables site depth target keys, visited') ∧
      VisitedAfter visited visited' ((target, keys) :: placesTo S w.tables site depth target keys) := by
  obtain ⟨hplace, hrest⟩ := h
  simp only [collectNested]
  split at hplace
  · rename_i hmem
    rw [if_pos hmem, relatedTo_eq_nil.mpr hplace, placesTo_eq_nil hplace]
    exact ⟨visited, rfl, fun t => by simp [tablesOf]; rintro rfl; exact hmem⟩
  · rename_i hnot
    rw [if_neg hnot]
    obtain ⟨visited', hgives, hvisited⟩ := ih target keys (target.tableName :: visited) hplace hrest
    exact ⟨visited', hgives, fun t => by rw [hvisited]; simp [tablesOf, or_left_comm, or_assoc]⟩

theorem gives_loop (ih : Collects S w site pk depth)
    (h : ∀ p ∈ relations, counted S w.tables pk p = some (references S w.tables keys p).length)
    (hfirst : FirstOnly S w.tables site pk visited
      (relations.flatMap (placesOf S w.tables (placesTo S w.tables site depth) keys))) :
    ∃ visited', Gives S w (collectLoop (some (collectRelated site pk depth)) pk relations visited)
        (relations.filterMap (entryOf S w.tables (relatedTo S w.tables site depth) keys), visited') ∧
      VisitedAfter visited visited' (relations.flatMap (placesOf S w.tables (placesTo S w.tables site depth) keys)) := by
  induction relations generalizing visited with
  | nil => exact ⟨visited, rfl, fun t => by simp [tablesOf]⟩
  | cons p relations ihr =>
    have ihr {visited : List String} := @ihr visited fun q hq => h q (List.mem_cons_of_mem p hq)
    simp only [loop_cons_eq_ok reads_some, h p List.mem_cons_self, Option.some.injEq, exists_eq_left']
    rw [List.flatMap_cons] at hfirst ⊢
    by_cases hnil : references S w.tables keys p = []
    · rw [placesOf_nil hnil, List.nil_append] at hfirst ⊢
      rw [List.filterMap_cons_none (entryOf_none hnil), hnil]
      exact ihr hfirst
    · have hne : (references S w.tables keys p).length ≠ 0 := by simpa using hnil
      simp only [List.filterMap_cons_some (entryOf_some hnil), if_neg hne]
      rw [placesOf_cons hnil] at hfirst ⊢
      obtain ⟨hinner, hrest⟩ := firstOnly_append.mp hfirst
      obtain ⟨visited₁, hinner, hvisited₁⟩ := gives_nested ih hinner
      obtain ⟨visited', hrest, hvisited'⟩ := ihr ((firstOnly_congr fun t => List.mem_append.trans (hvisited₁ t).symm).mp hrest)
      exact ⟨visited', ⟨_, visited₁, _, hinner, hrest, rfl⟩, hvisited₁.append hvisited'⟩

theorem collects (depth : Nat) : Collects S w site pk depth := by
  induction depth with
  | zero => exact fun target keys visited h _ => ⟨visited, gives_last h, fun t => by simp [tablesOf, placesTo]⟩
  | succ depth ih => exact fun target keys visited h hfirst => gives_loop ih h hfirst

/-! ### What has to hold -/

/-- The names of a relation. -/
def namesOf (p : ModelMeta × RelationMeta) : String × String × String := (p.1.appLabel, p.1.structName, p.2.fieldName)

def Related.names : Related → String × String × String
  | .mk appLabel structName fieldName _ _ _ => (appLabel, structName, fieldName)

omit [Fmt] [UnquotedNames] in
/-- The relations to a model have names of their own. -/
theorem names_nodup (names : DistinctNames site) : ((referring site target).map namesOf).Nodup := by
  rw [referring, List.map_flatMap, List.nodup_flatMap]
  constructor
  · intro m hm
    rw [List.map_map]
    have hnodup := names.relations m hm
    rw [List.Nodup, List.pairwise_map] at hnodup ⊢
    refine (hnodup.filter _).imp fun hne heq => hne ?_
    simpa [namesOf] using heq
  · have hnodup := names.models
    rw [List.Nodup, List.pairwise_map] at hnodup
    refine hnodup.imp fun {m m'} hne => ?_
    intro name hname hname'
    simp only [List.mem_map, namesOf, Prod.exists] at hname hname'
    obtain ⟨_, _, ⟨_, -, heq⟩, rfl⟩ := hname
    obtain ⟨_, _, ⟨_, -, heq'⟩, hsame⟩ := hname'
    cases heq
    cases heq'
    exact hne (by simp_all)

/-- The entries of a loop are of its relations. -/
theorem names_mem {nested : Option Collect} (hnested : ∀ collect ∈ nested, ∀ m visited, Reads (collect m visited))
    (h : Gives S w (collectLoop nested pk relations visited) (entries, visited')) :
    ∀ entry ∈ entries, entry.names ∈ relations.map namesOf := by
  induction relations generalizing entries visited with
  | nil =>
    cases h
    simp
  | cons p relations ih =>
    obtain ⟨n, -, h⟩ := (loop_cons_eq_ok hnested).mp h
    split at h
    · exact fun entry hentry => List.mem_cons_of_mem _ (ih h entry hentry)
    · obtain ⟨inner, visited₁, rest, -, hrest, rfl⟩ := h
      intro entry hentry
      rcases List.mem_cons.mp hentry with rfl | hentry
      · exact List.mem_cons_self
      · exact List.mem_cons_of_mem _ (ih hrest entry hentry)

omit [Fmt] [UnquotedNames] in
theorem names_entryOf {db : Tables Cell} {nested : ModelMeta → List Int → List Related} :
    ∀ entry ∈ relations.filterMap (entryOf S db nested keys), entry.names ∈ relations.map namesOf := by
  intro entry hentry
  obtain ⟨p, hp, hentry⟩ := List.mem_filterMap.mp hentry
  by_cases hnil : references S db keys p = []
  · rw [entryOf_none hnil] at hentry
    cases hentry
  · rw [entryOf_some hnil] at hentry
    cases hentry
    exact List.mem_map_of_mem hp

/-- Where the loop collects what it should, it has counted the rows of its first relation, and collects what it should
    for it and for the others. -/
theorem loop_cons_related {nested : Option Collect} (hnested : ∀ collect ∈ nested, ∀ m visited, Reads (collect m visited))
    {related : ModelMeta → List Int → List Related} {p : ModelMeta × RelationMeta}
    (hnames : ((p :: relations).map namesOf).Nodup) (h : Gives S w (collectLoop nested pk (p :: relations) visited)
      ((p :: relations).filterMap (entryOf S w.tables related keys), visited')) :
    counted S w.tables pk p = some (references S w.tables keys p).length ∧
      ∃ visited₁, Gives S w (collectLoop nested pk relations visited₁)
        (relations.filterMap (entryOf S w.tables related keys), visited') ∧
        (references S w.tables keys p = [] → visited₁ = visited) ∧ (references S w.tables keys p ≠ [] →
          Gives S w (collectNested nested p.1 visited) (related p.1 (keysOf p.1 (references S w.tables keys p)), visited₁)) := by
  have hfresh : namesOf p ∉ relations.map namesOf := (List.nodup_cons.mp hnames).1
  obtain ⟨n, hcounted, h⟩ := (loop_cons_eq_ok hnested).mp h
  by_cases hnil : references S w.tables keys p = []
  · rw [List.filterMap_cons_none (entryOf_none hnil)] at h
    split at h
    · rename_i hzero
      exact ⟨by rw [hcounted, hnil, hzero]; rfl, visited, h, fun _ => rfl, fun hne => absurd hnil hne⟩
    · obtain ⟨inner, _, rest, -, -, heq⟩ := h
      exact absurd (names_entryOf _ (heq ▸ List.mem_cons_self)) hfresh
  · rw [List.filterMap_cons_some (entryOf_some hnil)] at h
    split at h
    · exact absurd (names_mem hnested h _ List.mem_cons_self) hfresh
    · obtain ⟨inner, visited₁, rest, hinner, hrest, heq⟩ := h
      simp only [List.cons.injEq, Related.mk.injEq, true_and] at heq
      obtain ⟨⟨hn, rfl⟩, rfl⟩ := heq
      exact ⟨by rw [hcounted, hn], visited₁, hrest, fun h => absurd h hnil, fun _ => hinner⟩

theorem counted_of_last (hnames : (relations.map namesOf).Nodup) (h : Gives S w (collectLoop none pk relations visited)
      (relations.filterMap (entryOf S w.tables (fun _ _ => []) keys), visited')) :
    visited' = visited ∧ ∀ p ∈ relations, counted S w.tables pk p = some (references S w.tables keys p).length := by
  induction relations generalizing visited with
  | nil =>
    cases h
    simp
  | cons p relations ih =>
    obtain ⟨hcounted, visited₁, hrest, hnil, hcons⟩ := loop_cons_related (by simp) hnames h
    obtain rfl : visited₁ = visited := by
      by_cases h : references S w.tables keys p = []
      · exact hnil h
      · have hinner := hcons h
        cases hinner
        rfl
    obtain ⟨hvisited, hall⟩ := ih (List.nodup_cons.mp hnames).2 hrest
    exact ⟨hvisited, List.forall_mem_cons.mpr ⟨hcounted, hall⟩⟩

/-- The converse of `Collects`. -/
def CollectsOnly (S : AdminServer) (w : World) (site : Site) (pk : Int) (depth : Nat) : Prop :=
  ∀ target keys visited visited',
    Gives S w (collectRelated site pk depth target visited) (relatedTo S w.tables site depth target keys, visited') →
    AsMany S w.tables site pk target keys ∧
      FirstOnly S w.tables site pk visited (placesTo S w.tables site depth target keys) ∧
      VisitedAfter visited visited' (placesTo S w.tables site depth target keys)

theorem nested_of_gives (ih : CollectsOnly S w site pk depth)
    (h : Gives S w (collectNested (some (collectRelated site pk depth)) target visited)
      (relatedTo S w.tables site depth target keys, visited')) :
    FirstOnly S w.tables site pk visited ((target, keys) :: placesTo S w.tables site depth target keys) ∧
      VisitedAfter visited visited' ((target, keys) :: placesTo S w.tables site depth target keys) := by
  simp only [collectNested] at h
  rw [FirstOnly]
  split at h
  · rename_i hmem
    obtain ⟨hnil, rfl⟩ := Prod.mk.inj (Except.ok.inj (Prod.mk.inj h).2)
    have hnone := relatedTo_eq_nil.mp hnil.symm
    rw [if_pos hmem, placesTo_eq_nil hnone]
    exact ⟨⟨hnone, trivial⟩, fun t => by simp [tablesOf]; rintro rfl; exact hmem⟩
  · rename_i hnot
    rw [if_neg hnot]
    obtain ⟨hmany, hfirst, hvisited⟩ := ih _ _ _ _ h
    exact ⟨⟨hmany, hfirst⟩, fun t => by rw [hvisited]; simp [tablesOf, or_left_comm, or_assoc]⟩

theorem loop_of_gives (ih : CollectsOnly S w site pk depth) (hnames : (relations.map namesOf).Nodup)
    (h : Gives S w (collectLoop (some (collectRelated site pk depth)) pk relations visited)
      (relations.filterMap (entryOf S w.tables (relatedTo S w.tables site depth) keys), visited')) :
    (∀ p ∈ relations, counted S w.tables pk p = some (references S w.tables keys p).length) ∧
      FirstOnly S w.tables site pk visited
        (relations.flatMap (placesOf S w.tables (placesTo S w.tables site depth) keys)) ∧
      VisitedAfter visited visited' (relations.flatMap (placesOf S w.tables (placesTo S w.tables site depth) keys)) := by
  induction relations generalizing visited with
  | nil =>
    cases h
    exact ⟨by simp, trivial, fun t => by simp [tablesOf]⟩
  | cons p relations ihr =>
    obtain ⟨hcounted, visited₁, hrest, hnil, hcons⟩ := loop_cons_related reads_some hnames h
    obtain ⟨hall, hfirst, hvisited'⟩ := ihr (List.nodup_cons.mp hnames).2 hrest
    refine ⟨List.forall_mem_cons.mpr ⟨hcounted, hall⟩, ?_⟩
    rw [List.flatMap_cons]
    by_cases hrows : references S w.tables keys p = []
    · obtain rfl := hnil hrows
      rw [placesOf_nil hrows, List.nil_append]
      exact ⟨hfirst, hvisited'⟩
    · obtain ⟨hinner, hvisited₁⟩ := nested_of_gives ih (hcons hrows)
      rw [placesOf_cons hrows]
      exact ⟨firstOnly_append.mpr ⟨hinner, (firstOnly_congr fun t => List.mem_append.trans (hvisited₁ t).symm).mpr hfirst⟩,
        hvisited₁.append hvisited'⟩

theorem collectsOnly (names : DistinctNames site) (depth : Nat) : CollectsOnly S w site pk depth := by
  induction depth with
  | zero =>
    intro target keys visited visited' h
    obtain ⟨rfl, hall⟩ := counted_of_last (names_nodup names) h
    exact ⟨hall, trivial, fun t => by simp [tablesOf, placesTo]⟩
  | succ depth ih => exact fun target keys visited visited' h => loop_of_gives ih (names_nodup names) h

/-- The confirmation shows what refers to an object if as many rows refer to its key as to the rows that are looked into,
    each table for the first time, and no rows refer to the others. If relations have names of their own, it has to be
    so. -/
theorem confirmation_truthful (S : AdminServer) (w : World) (site : Site) (target : ModelMeta) (pk : Int) :
    (AsMany S w.tables site pk target [pk] ∧ FirstOnly S w.tables site pk [] (placesTo S w.tables site 2 target [pk]) →
      Gives S w (collectRelatedObjects site target pk) (relatedTo S w.tables site 2 target [pk])) ∧
    (DistinctNames site → Gives S w (collectRelatedObjects site target pk) (relatedTo S w.tables site 2 target [pk]) →
      AsMany S w.tables site pk target [pk] ∧ FirstOnly S w.tables site pk [] (placesTo S w.tables site 2 target [pk])) := by
  constructor
  · rintro ⟨hmany, hfirst⟩
    obtain ⟨visited, hgives, -⟩ := collects 2 target [pk] [] hmany hfirst
    exact Fallible.eval_bind_eq_ok.mpr ⟨w, _, hgives, rfl⟩
  · intro names h
    obtain ⟨u, ⟨entries, visited⟩, hgives, h⟩ := Fallible.eval_bind_eq_ok.mp h
    cases h
    obtain ⟨hmany, hfirst, -⟩ := collectsOnly names 2 target [pk] [] visited hgives
    exact ⟨hmany, hfirst⟩

end Collected

/-! ### A book and its pages -/

section Library
attribute [local instance] CaseMap.ascii Fmt.decimal verbatim

def authorMeta : ModelMeta := { structName := "Author", appLabel := "library", tableName := "library_author", fields := [noteId] }

def bookAuthor : RelationMeta := { fieldName := "author", kind := .foreignKey, target := "Author" }

def bookMeta : ModelMeta where
  structName := "Book"
  appLabel := "library"
  tableName := "library_book"
  fields := [noteId]
  relations := [bookAuthor]

def pageBook : RelationMeta := { fieldName := "book", kind := .foreignKey, target := "Book" }

def pageMeta : ModelMeta where
  structName := "Page"
  appLabel := "library"
  tableName := "library_page"
  fields := [noteId]
  relations := [pageBook]

theorem library_tables : ([authorMeta, bookMeta, pageMeta].map (·.tableName)).Nodup := by decide

theorem none_registered : ∀ admin ∈ ([] : List ModelAdmin), Registered [authorMeta, bookMeta, pageMeta] admin := by simp

def library : Site where
  admins := []
  tenantScope := none
  models := [authorMeta, bookMeta, pageMeta]
  target r := if r.target = "Author" then authorMeta else bookMeta
  permissions := notePermissions
  iterate keys := keys
  iterate_perm _ := .refl _
  registered := none_registered
  tables_nodup := library_tables

/-- A book of the author 1, and its only page. -/
def onlyBook (id : Int) : World where
  tables t :=
    if t = "library_book" then [[("id", .i64 id), ("author", .i64 1)]]
    else if t = "library_page" then [[("id", .i64 9), ("book", .i64 id)]]
    else []
  log := []
  history := []

theorem to_page : referring library pageMeta = [] := by decide

theorem library_names : DistinctNames library where
  models := by decide
  relations := by decide

/-- The book 1 has the key of its author. -/
theorem first_book_confirmed : Gives plainAdminServer (onlyBook 1) (collectRelatedObjects library authorMeta 1)
    (relatedTo plainAdminServer (onlyBook 1).tables library 2 authorMeta [1]) := by
  have hplaces : placesTo plainAdminServer (onlyBook 1).tables library 2 authorMeta [1] = [(bookMeta, [1]), (pageMeta, [9])] := by
    decide
  refine (confirmation_truthful plainAdminServer (onlyBook 1) library authorMeta 1).1 ⟨asMany_self fun _ _ => rfl, ?_⟩
  rw [hplaces]
  refine ⟨?_, ?_, trivial⟩
  · rw [if_neg (by simp)]
    exact asMany_self fun _ _ => rfl
  · rw [if_neg (by decide), AsMany, to_page]
    simp

/-- Pages are asked for by the key of the author. -/
theorem pages_missing : ¬ Gives plainAdminServer (onlyBook 5) (collectRelatedObjects library authorMeta 1)
    (relatedTo plainAdminServer (onlyBook 5).tables library 2 authorMeta [1]) := by
  intro h
  obtain ⟨u, ⟨entries, visited⟩, hgives, h⟩ := Fallible.eval_bind_eq_ok.mp h
  cases h
  obtain ⟨-, hfirst, -⟩ := collectsOnly library_names 2 authorMeta [1] [] visited hgives
  have hplaces : placesTo plainAdminServer (onlyBook 5).tables library 2 authorMeta [1] = [(bookMeta, [5]), (pageMeta, [9])] := by
    decide
  rw [hplaces, FirstOnly, if_neg (by simp)] at hfirst
  have hpages := hfirst.1 (pageMeta, pageBook) (by decide)
  revert hpages
  decide

end Library

end Djangors.Admin
