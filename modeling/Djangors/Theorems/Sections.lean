import Djangors.Migrations.Runner
import Djangors.Lib.DdlUndo
import Djangors.Theorems.SnapshotPlan

/-! # Sections

The offsets of a section add one byte for each line break, so they fall short by one byte for each carriage
return before them. -/

namespace Djangors.Migrations
open Text

section Cuts
variable {wanted : String} {text : List Char} {lines before : List (List Char)} {body : Option (List (List Char))}
  {cut : Cut}

theorem cutLines_cons (line : List Char) : cutLines wanted (line :: lines) before body =
    if trim line = marker wanted then cutLines wanted lines (before ++ body.getD [] ++ [line]) (some [])
    else
      match body with
      | none => cutLines wanted lines (before ++ [line]) none
      | some body =>
        if trim line = marker "down" ∨ trim line = marker "up" then some ⟨before, body, line :: lines⟩
        else cutLines wanted lines before (some (body ++ [line])) := by
  cases body <;> rfl

/-- The loop of `section` has the offsets of the lines that it has read. -/
theorem sectionRange_cutLines :
    sectionRange wanted (lines.map stripEnd) (offset (before ++ body.getD [])) (body.map fun _ => offset before) =
      (cutLines wanted lines before body).map fun cut =>
        (offset cut.before, if cut.after = [] then none else some (offset (cut.before ++ cut.body))) := by
  induction lines generalizing before body with
  | nil => cases body <;> rfl
  | cons line lines ih =>
    have next (ls : List (List Char)) : offset ls + size (stripEnd line) + 1 = offset (ls ++ [line]) := by
      rw [offset_append, offset_cons]
      rfl
    rw [List.map_cons, sectionRange, cutLines_cons, trim_stripEnd, next]
    split
    · rw [← ih]
      simp
    · cases body with
      | none =>
        rw [if_neg (by simp), ← ih]
        simp
      | some body =>
        simp only [Option.isSome_some, and_true, Option.map_some, Option.getD_some]
        split
        · simp
        · rw [← ih]
          simp

theorem sectionOf_eq : sectionOf text wanted =
    match cutOf text wanted with
    | some cut => slice text (offset cut.before) (if cut.after = [] then none else some (offset (cut.before ++ cut.body)))
    | none => some [] := by
  have hrange : sectionRange wanted (Text.lines text) 0 none = (cutOf text wanted).map fun cut =>
      (offset cut.before, if cut.after = [] then none else some (offset (cut.before ++ cut.body))) :=
    @sectionRange_cutLines wanted (rawLines text) [] none
  rw [sectionOf, hrange]
  cases cutOf text wanted <;> rfl

/-- Where a section that is read lies in the file. -/
theorem sectionOf_parts {s : List Char} (hcut : cutOf text wanted = some cut) (h : sectionOf text wanted = some s) :
    ∃ l r, text = l ++ s ++ r ∧ size l = offset cut.before ∧ (cut.after = [] → r = []) ∧
      (cut.after ≠ [] → size (l ++ s) = offset (cut.before ++ cut.body)) := by
  rw [sectionOf_eq, hcut] at h
  dsimp only at h
  by_cases hafter : cut.after = []
  · rw [if_pos hafter, slice_none_eq_some] at h
    rcases h with ⟨l, hl, hsize⟩
    exact ⟨l, [], by rw [hl, List.append_nil], hsize, fun _ => rfl, absurd hafter⟩
  · rw [if_neg hafter, slice_eq_some] at h
    rcases h with ⟨l, r, hl, hsize, hstop⟩
    exact ⟨l, r, hl, hsize, fun hnil => absurd hnil hafter, fun _ => hstop⟩

/-- The three parts are the file. -/
theorem cutLines_append (h : cutLines wanted lines before body = some cut) :
    cut.before ++ cut.body ++ cut.after = before ++ body.getD [] ++ lines := by
  induction lines generalizing before body with
  | nil =>
    rcases Option.map_eq_some_iff.mp h with ⟨body, rfl, rfl⟩
    rfl
  | cons line lines ih =>
    rw [cutLines_cons] at h
    split at h
    · rw [ih h]
      simp
    · cases body with
      | none =>
        rw [ih h]
        simp
      | some body =>
        dsimp only at h
        split at h
        · cases h
          rfl
        · rw [ih h]
          simp

theorem cutOf_append (h : cutOf text wanted = some cut) : cut.before ++ cut.body ++ cut.after = rawLines text :=
  cutLines_append h

/-- Lines before another line end with their line feeds. -/
theorem size_before {ls rest : List (List Char)} (h : rawLines text = ls ++ rest) (hrest : rest ≠ []) :
    offset ls + ls.countP endsCrlf = size ls.flatten := offset_add_crlfs fun _ hline => exists_of_mem_rawLines h hrest hline

/-- Where the offsets miss blanks only, the runner reads the statements between the markers. -/
theorem statements_section {s : List Char} (cuts : CutsBlanks text wanted) (h : sectionOf text wanted = some s) :
    statements s = statementsOf text wanted := by
  rw [statementsOf]
  cases hcut : cutOf text wanted with
  | none =>
    rw [sectionOf_eq, hcut] at h
    cases h
    exact congrArg (List.map _) fields_nil
  | some cut =>
    rcases sectionOf_parts hcut h with ⟨l, r, hl, hsize, hnil, hstop⟩
    have hlines := cutOf_append hcut
    have htext : text = cut.before.flatten ++ cut.body.flatten ++ cut.after.flatten := by
      rw [← List.flatten_append, ← List.flatten_append, hlines, flatten_rawLines]
    -- What the start falls short of are blanks.
    have hle : size l ≤ size cut.before.flatten := by
      by_cases hrest : cut.body ++ cut.after = []
      · rw [List.append_eq_nil_iff] at hrest
        rw [hrest.1, hrest.2, List.flatten_nil, List.append_nil, List.append_nil] at htext
        rw [← htext, hl, size_append, size_append, Nat.add_assoc]
        exact Nat.le_add_right ..
      · have := size_before (by rw [← hlines, List.append_assoc]) hrest
        omega
    rw [List.append_assoc] at htext hl
    rcases exists_append_of_size_le (hl.symm.trans htext) hle with ⟨x, hx⟩
    have hblank := (cuts cut hcut).1 l x hx hsize
    rw [hl, hx, List.append_assoc, List.append_cancel_left_eq] at htext
    have hfields : fields ';' s = fields ';' cut.body.flatten := by
      by_cases hafter : cut.after = []
      · rw [hnil hafter, hafter, List.flatten_nil, List.append_nil, List.append_nil] at htext
        rw [htext, fields_blank_append hblank]
      · -- What the end falls short of are blanks, too.
        have hle : size (l ++ s) ≤ size (cut.before ++ cut.body).flatten := by
          have := size_before hlines.symm hafter
          have := hstop hafter
          omega
        have hboth : (l ++ s) ++ r = (cut.before ++ cut.body).flatten ++ cut.after.flatten := by
          rw [List.append_assoc, htext, List.flatten_append, hx]
          simp
        rcases exists_append_of_size_le hboth hle with ⟨y, hy⟩
        have hyblank := (cuts cut hcut).2 hafter (l ++ s) y hy (hstop hafter)
        rw [List.flatten_append, hx, List.append_assoc, List.append_assoc, List.append_cancel_left_eq] at hy
        rw [← fields_append_blank hyblank s, ← hy, fields_blank_append hblank]
    change statements s = statements cut.body.flatten
    rw [statements, statements, hfields]

/-- A file without carriage returns is cut right. -/
theorem cutsBlanks_of_noReturn (h : '\r' ∉ text) : CutsBlanks text wanted := by
  intro cut hcut
  have hlines := cutOf_append hcut
  have plain : ∀ line ∈ cut.before ++ cut.body, '\r' ∉ line := by
    intro line hline hmem
    refine h ?_
    rw [← flatten_rawLines text, ← hlines]
    exact List.mem_flatten.mpr ⟨line, List.mem_append_left _ hline, hmem⟩
  have falls : ∀ ls : List (List Char), (∀ line ∈ ls, '\r' ∉ line) → FallsOnBlank ls := by
    intro ls hls l x hx hsize c hc
    have hle := size_le_offset hls
    have hlen := List.length_pos_of_mem hc
    have := length_le_size x
    rw [hx, size_append] at hle
    omega
  exact ⟨falls _ fun line hline => plain line (List.mem_append_left _ hline), fun _ => falls _ plain⟩

end Cuts

end Djangors.Migrations

/-! ## Down sections

The down section of a generated migration reverses the operations of the up section one by one, in the
order of the up section. -/

namespace Djangors.Migrations
open Db Orm Ddl

/-- Nothing that the new models create is there yet. -/
def AllNew (new : List ModelSnapshot) (s : Schema) : Prop := ∀ n ∈ new.flatMap relationNames, n ∉ s

/-- No new model has a relation to another model, or a many-to-many relation. -/
def Unrelated (new : List ModelSnapshot) : Prop :=
  ∀ m ∈ new, ∀ r ∈ m.relations, r.kind ≠ .manyToMany ∧ r.targetStruct = m.structName

instance (new : List ModelSnapshot) : Decidable (Unrelated new) :=
  inferInstanceAs (Decidable (∀ m ∈ new, ∀ r ∈ m.relations, r.kind ≠ .manyToMany ∧ r.targetStruct = m.structName))

theorem undone_statements (ops : List Operation) :
    (ops.filterMap (·.reverse)).map (·.statement) = undone (ops.map (·.statement)) := by
  rw [undone, List.map_filterMap, List.filterMap_map]
  exact List.filterMap_congr fun op _ => op.reverse_statement

section Names
variable {new : List ModelSnapshot} {m m' : ModelSnapshot}

theorem tableName_mem (hm : m ∈ new) : m.tableName ∈ new.flatMap relationNames :=
  List.mem_flatMap.mpr ⟨m, hm, List.mem_cons_self ..⟩

/-- Two models whose relations have names of their own have different tables. -/
theorem eq_of_tableName (names : (new.flatMap relationNames).Nodup) (hm : m ∈ new) (hm' : m' ∈ new)
    (h : m.tableName = m'.tableName) : m = m' := by
  by_contra hne
  obtain ⟨_, hdisjoint⟩ := List.nodup_flatMap.mp names
  have symmetric : Std.Symm (Function.onFun List.Disjoint relationNames) := ⟨fun _ _ hxy => hxy.symm⟩
  exact hdisjoint.forall hm hm' hne (List.mem_cons_self ..) (h ▸ List.mem_cons_self ..)

/-- A join table does not have the name of its model's table. -/
theorem joinName_ne (names : (new.flatMap relationNames).Nodup) (hm : m ∈ new) {r : RelationSnapshot}
    (hr : r ∈ m.relations) (hkind : r.kind = .manyToMany) : m.tableName ≠ m.tableName ++ "_" ++ r.fieldName := by
  intro heq
  have hnodup := (List.nodup_flatMap.mp names).1 m hm
  refine (List.nodup_cons.mp hnodup).1 (List.mem_append_right _ (List.mem_map.mpr ⟨r, ?_, heq.symm⟩))
  exact List.mem_filter.mpr ⟨hr, beq_iff_eq.mpr hkind⟩

end Names

section Plan
variable [CaseMap] {d : Dialect} {new : List ModelSnapshot} {ops : List Operation}

/-- The tables of a plan refer to no other table of it exactly when the models are unrelated. -/
theorem apart_iff_unrelated (structs : (new.map (·.structName)).Nodup) (names : (new.flatMap relationNames).Nodup)
    (plan : buildCreatePlanFromSnapshots new d = .ok ops) :
    (∀ op ∈ ops, op.statement.Apart (createdNames ops)) ↔ Unrelated new := by
  have hnames := createdNames_plan structs plan
  constructor
  · intro apart m hm r hr
    obtain ⟨mops, hmops⟩ := modelOperations_of_plan structs plan hm
    obtain ⟨fields, relations, joins, _, hrelations, hjoins, rfl⟩ := snapshotOperations_ok hmops
    by_cases hkind : r.kind = .manyToMany
    · obtain ⟨op, hop, hjoin⟩ := Except.exists_mapM_of_mem hjoins (List.mem_filter.mpr ⟨hr, beq_iff_eq.mpr hkind⟩)
      have hmem := (mem_snapshotPlan structs plan).mpr ⟨m, hm, _, hmops, List.mem_append_right _ hop⟩
      obtain ⟨target, sourcePk, _, sourceType, _, _, _, _, _, _, rfl⟩ := snapshotJoin_ok hjoin
      have hself := apart _ hmem _ (List.mem_cons_self ..) _ rfl
      rcases hself with heq | hout
      · exact absurd heq (joinName_ne names hm hr hkind)
      · exact absurd (hnames.mem_iff.mpr (tableName_mem hm)) hout
    · refine ⟨hkind, ?_⟩
      obtain ⟨c, hc, hcolumn⟩ := Except.exists_mapM_of_mem hrelations (List.mem_filter.mpr ⟨hr, bne_iff_ne.mpr hkind⟩)
      have hmem := (mem_snapshotPlan structs plan).mpr
        ⟨m, hm, _, hmops, List.mem_append_left _ (List.mem_cons_self ..)⟩
      obtain ⟨target, pk, sqlType, htarget, _, _, rfl⟩ := snapshotRelation_ok hcolumn
      obtain ⟨htarget_mem, hstruct⟩ := byName_mem htarget
      have hcol := apart _ hmem _ (List.mem_map_of_mem (List.mem_append_right fields hc)) _ rfl
      rcases hcol with heq | hout
      · rw [← hstruct, eq_of_tableName names htarget_mem hm heq]
      · exact absurd (hnames.mem_iff.mpr (tableName_mem htarget_mem)) hout
  · intro unrelated op hop
    obtain ⟨m, hm, mops, hmops, hop⟩ := (mem_snapshotPlan structs plan).mp hop
    obtain ⟨fields, relations, joins, hfields, hrelations, hjoins, rfl⟩ := snapshotOperations_ok hmops
    rcases List.mem_append.mp hop with hop | hop
    · rcases List.mem_cons.mp hop with rfl | hop
      · intro e he ref href
        obtain ⟨c, hc, rfl⟩ := List.mem_map.mp he
        rcases List.mem_append.mp hc with hc | hc
        · obtain ⟨f, _, hf⟩ := Except.exists_of_mem_mapM hfields hc
          obtain ⟨sqlType, _, rfl⟩ := snapshotField_ok hf
          cases href
        · obtain ⟨r, hr, hcolumn⟩ := Except.exists_of_mem_mapM hrelations hc
          obtain ⟨target, pk, sqlType, htarget, _, _, rfl⟩ := snapshotRelation_ok hcolumn
          cases href
          rw [(unrelated m hm r (List.mem_filter.mp hr).1).2, byName_self structs hm] at htarget
          cases htarget
          exact .inl rfl
      · obtain ⟨i, _, rfl⟩ := List.mem_map.mp hop
        trivial
    · obtain ⟨r, hr, _⟩ := Except.exists_of_mem_mapM hjoins hop
      obtain ⟨hr, hkind⟩ := List.mem_filter.mp hr
      exact absurd (beq_iff_eq.mp hkind) (unrelated m hm r hr).1

/-- Names of the relations that a plan creates, as the keys of what it creates. -/
theorem created_plan (structs : (new.map (·.structName)).Nodup) (plan : buildCreatePlanFromSnapshots new d = .ok ops)
    {s : Schema} : (∀ e ∈ created (ops.map (·.statement)), e.1 ∉ s) ↔ AllNew new s := by
  have hnames := createdNames_plan structs plan
  constructor
  · intro fresh n hn
    obtain ⟨e, he, rfl⟩ := List.mem_map.mp (hnames.mem_iff.mpr hn)
    exact fresh e he
  · intro allNew e he
    exact allNew e.1 (hnames.mem_iff.mp (List.mem_map_of_mem he))

end Plan

/-- On a server that checks foreign keys and keeps referenced tables, the down section of a migration that
    only creates the tables of new models restores the schema exactly when everything it creates was new
    and the new models have no relations to one another, many-to-many relations included. -/
theorem down_restores_iff [CaseMap] {R : Rules} {d : Dialect} {previous current : List ModelSnapshot}
    {file : MigrationFile} {earlier : List Operation} {before after : Schema}
    (checks : R.checksTargets = true) (restricts : R.restrictsDrops = true)
    (structs : ((newModels previous current).map (·.structName)).Nodup)
    (names : ((newModels previous current).flatMap relationNames).Nodup)
    (generated : makemigrations false previous current d = .ok (some file))
    (noColumns : allAddColumns previous current d = .ok [])
    (history : applyAll R ∅ earlier = some before) (up : applyAll R before file.up = some after) :
    applyAll R after file.down = some before ↔
      AllNew (newModels previous current) before ∧ Unrelated (newModels previous current) := by
  obtain ⟨creates, adds, plan, hadds, hup, hdown⟩ := makemigrations_ok generated
  cases noColumns.symm.trans hadds
  rw [List.append_nil] at hup hdown
  have distinct : (created (creates.map (·.statement))).NodupKeys :=
    (createdNames_plan structs plan).nodup_iff.mpr names
  have sound := run_sound checks restricts sound_empty history
  rw [applyAll, hup] at up
  rw [applyAll, hdown, undone_statements, run_undone_iff checks restricts sound (creating_plan plan) distinct up,
    created_plan structs plan, ← apart_iff_unrelated structs names plan]
  refine and_congr_right fun _ => ⟨fun h op hop => h _ (List.mem_map_of_mem hop), fun h st hst => ?_⟩
  obtain ⟨op, hop, rfl⟩ := List.mem_map.mp hst
  exact h op hop

theorem category_restored : ∃ file after,
    @makemigrations CaseMap.ascii false [] [categorySnapshot] .postgres = .ok (some file) ∧
      applyAll postgres ∅ file.up = some after ∧ applyAll postgres after file.down = some ∅ := by
  let caseMap : CaseMap := .ascii
  have generated : makemigrations false [] [categorySnapshot] .postgres = .ok (some _) := rfl
  have history : applyAll postgres ∅ [] = some ∅ := rfl
  refine ⟨_, _, generated, rfl, (down_restores_iff rfl rfl ?_ ?_ generated rfl history rfl).mpr ⟨?_, ?_⟩⟩
  · decide
  · decide
  · exact fun n _ => Finmap.notMem_empty
  · decide

/-- The table of the authors cannot be dropped while the books refer to it. -/
theorem author_book_stuck : ∃ file after,
    @makemigrations CaseMap.ascii false [] [authorSnapshot, bookSnapshot] .postgres = .ok (some file) ∧
      applyAll postgres ∅ file.up = some after ∧ applyAll postgres after file.down = none := by
  let caseMap : CaseMap := .ascii
  have generated : makemigrations false [] [authorSnapshot, bookSnapshot] .postgres = .ok (some _) := rfl
  refine ⟨_, _, generated, rfl, ?_⟩
  decide

end Djangors.Migrations
