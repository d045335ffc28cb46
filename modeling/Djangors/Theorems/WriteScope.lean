import Djangors.Lib.Except
import Djangors.Theorems.Placeholders

/-! # Write scope and read scope

`all`, `update` and `delete` each build their `WHERE` clause. The filters come out the same in all
three; the condition of `search` is kept beside the filters, and only `all` reads it. -/

namespace Djangors.Orm
open Db Sql

/-- `update` and `delete` reach the rows that `all` returns: the statements have the same bound `WHERE`
    clause, and run on any tables they remove or assign those rows and leave every other row. -/
structure SameScope [Fmt] {m : ModelMeta} (qs : QuerySet m) (d : Dialect) : Prop where
  deleteWhere : (qs.delete d).bound = (qs.select d).bound
  updateWhere : ∀ sets u, qs.update d sets = .ok u → u.bound = (qs.select d).bound
  deleted : ∀ (S : Server) (db after : Tables Cell) rows n, S.fetch db (qs.select d) = .ok rows →
    S.runDelete db (qs.delete d) = .ok (after, n) →
    after = Function.update db m.tableName ((db m.tableName).filter (· ∉ rows)) ∧ n = rows.length
  updated : ∀ (S : Server) (db after : Tables Cell) rows n sets u, S.fetch db (qs.select d) = .ok rows →
    qs.update d sets = .ok u → S.runUpdate db u = .ok (after, n) → n = rows.length ∧
      ∃ f : Row Cell → Row Cell, (∀ r ∈ db m.tableName, r ∉ rows → f r = r) ∧
        (∀ r ∈ rows, S.assignRow u r = some (f r)) ∧
        after = Function.update db m.tableName ((db m.tableName).map f)

/-! ### Builder calls -/

/-- What a narrowing call keeps of a query set: its limit, offset and locking. -/
structure SamePage {m : ModelMeta} (qs qs' : QuerySet m) : Prop where
  limit : qs'.limit = qs.limit
  offset : qs'.offset = qs.offset
  forUpdate : qs'.forUpdate = qs.forUpdate

theorem SamePage.refl {m : ModelMeta} (qs : QuerySet m) : SamePage qs qs := ⟨rfl, rfl, rfl⟩

section Calls
variable {m : ModelMeta} {qs qs' : QuerySet m}

/-- Every narrowing call but `search` adds one filter. -/
theorem Narrow.apply_cases {call : Narrow} (h : call.apply qs = .ok qs') :
    (call.isSearch = false ∧ ∃ e, qs' = { qs with filters := qs.filters ++ [e] }) ∨
      (call.isSearch = true ∧ ∃ sc, qs' = { qs with searchCondition := some sc }) := by
  cases call with
  | filter expr =>
    obtain ⟨e, _, h⟩ := Except.bind_eq_ok.mp h
    exact .inl ⟨rfl, e, (Except.ok.inj h).symm⟩
  | exclude expr =>
    obtain ⟨e, _, h⟩ := Except.bind_eq_ok.mp h
    exact .inl ⟨rfl, .not e, (Except.ok.inj h).symm⟩
  | filterOrIcontains fields term =>
    obtain ⟨es, _, h⟩ := Except.bind_eq_ok.mp h
    exact .inl ⟨rfl, .or es, (Except.ok.inj h).symm⟩
  | filterDatetimeRange field gte lt =>
    simp only [Narrow.apply, QuerySet.filterDatetimeRange] at h
    split at h
    · exact .inl ⟨rfl, _, (Except.ok.inj h).symm⟩
    · cases h
  | search query fields => exact .inr ⟨rfl, _, (Except.ok.inj h).symm⟩
  | after orderField orderValue pkField cursorPk descending =>
    obtain ⟨_, _, h⟩ := Except.bind_eq_ok.mp h
    obtain ⟨_, _, h⟩ := Except.bind_eq_ok.mp h
    exact .inl ⟨rfl, _, (Except.ok.inj h).symm⟩

/-- A run of narrowing calls keeps the page, and sets a search condition when it has a `search`. -/
theorem QuerySet.narrow_kept {calls : List Narrow} (h : qs.narrow calls = .ok qs') :
    SamePage qs qs' ∧ qs'.searchCondition.isSome = (qs.searchCondition.isSome || calls.any (·.isSearch)) := by
  induction calls generalizing qs with
  | nil =>
    cases h
    exact ⟨.refl _, by simp⟩
  | cons call calls ih =>
    obtain ⟨qs₁, h₁, h⟩ := Except.bind_eq_ok.mp h
    obtain ⟨page, search⟩ := ih h
    rcases Narrow.apply_cases h₁ with ⟨hs, e, rfl⟩ | ⟨hs, sc, rfl⟩
    · exact ⟨⟨page.limit, page.offset, page.forUpdate⟩, by simp [search, hs]⟩
    · exact ⟨⟨page.limit, page.offset, page.forUpdate⟩, by simp [search, hs]⟩

end Calls

/-! ### Clauses -/

theorem Where.map_ofFilters {π π' : Type} (f : π → π') (cs : List (Pred SqlOp π)) :
    (Where.ofFilters cs).map f = .ofFilters (cs.map (Pred.map f)) := by
  cases cs with
  | nil => rfl
  | cons c cs => simp [Where.ofFilters, Where.map, Pred.map, Pred.mapAll_eq_map]

theorem Where.map_withSearch {π π' : Type} (f : π → π') (head : String) (cs : List (Pred SqlOp π)) (sc : Option String) :
    (Where.withSearch head cs sc).map f = .withSearch head (cs.map (Pred.map f)) sc := by
  cases sc with
  | none => exact Where.map_ofFilters f cs
  | some sc =>
    simp only [Where.withSearch, List.map_eq_nil_iff]
    split <;> simp [Where.map, Pred.map, Pred.mapAll_eq_map]

theorem Where.ofFilters_ne_dangling {π : Type} (cs : List (Pred SqlOp π)) (text : String) :
    Where.ofFilters cs ≠ .dangling text := by
  cases cs <;> simp [Where.ofFilters]

/-- A clause with the search condition is never the clause of the filters alone. -/
theorem Where.ofFilters_ne_withSearch {π : Type} (head : String) (cs : List (Pred SqlOp π)) (sc : String) :
    Where.ofFilters cs ≠ .withSearch head cs (some sc) := by
  intro h
  simp only [Where.withSearch] at h
  split at h
  · exact Where.ofFilters_ne_dangling cs sc h
  · cases cs with
    | nil => simp [Where.ofFilters] at h
    | cons c cs => simp [Where.ofFilters] at h

theorem QuerySet.compileSets_length {m : ModelMeta} (sets : List (String × SetExpr)) (idx : Nat) :
    (compileSets m sets idx).2.length = sets.length := by
  induction sets generalizing idx with
  | nil => rfl
  | cons set sets ih => simp [compileSets, ih]

section Bound
variable [Fmt] {m : ModelMeta} (qs : QuerySet m) (d : Dialect)

/-- The filters of a query set with their values. -/
def QuerySet.boundFilters : List (Pred SqlOp (Option BindValue)) :=
  let out := qs.compileFilters d ⟨[], 1⟩
  out.1.map (Pred.map (bindAt (out.2.values.map Value.toBind)))

theorem QuerySet.delete_bound : (qs.delete d).bound = .ofFilters (qs.boundFilters d) :=
  Where.map_ofFilters _ _

theorem QuerySet.select_bound : (qs.select d).bound =
    .withSearch ("SELECT * FROM \"" ++ m.tableName ++ "\"") (qs.boundFilters d) qs.searchCondition :=
  Where.map_withSearch _ _ _ _

/-- The statement of `update` binds its filters behind the values of its assignments. -/
theorem QuerySet.update_bound {sets : List (String × SetExpr)} {u : Update} (h : qs.update d sets = .ok u) :
    u.table = m.tableName ∧ u.bound = .ofFilters (qs.boundFilters d) := by
  obtain ⟨_, _, h⟩ := Except.bind_eq_ok.mp h
  cases h
  refine ⟨rfl, (Where.map_ofFilters _ _).trans (congrArg Where.ofFilters ?_)⟩
  have bind := compileAll_bind d m.tableName qs.filters none (fieldToCol m) (compileSets m sets 1).2
  rw [compileSets_length] at bind
  exact bind

end Bound

/-! ### Rows -/

namespace Server
variable {S : Server} {db after : Tables Cell}

theorem commit_ok {t : String} {rows : List (Row Cell)} (h : S.commit db t rows = .ok after) :
    after = Function.update db t rows := by
  simp only [commit] at h
  split at h
  · cases h
  · exact (Except.ok.inj h).symm

/-- Without limit and offset, the rows fetched are those that the clause selects, in some order. -/
theorem fetch_perm {s : Select} {rows : List (Row Cell)} (hl : s.limit = none) (ho : s.offset = none)
    (h : S.fetch db s = .ok rows) : rows.Perm ((db s.table).filter (S.selects db s.table s.bound)) := by
  simp only [fetch, hl, ho, limited] at h
  split at h
  · cases h
  · obtain rfl := Except.ok.inj h
    exact S.arrange_perm _ _

theorem runDelete_ok {s : Delete} {n : Nat} (h : S.runDelete db s = .ok (after, n)) :
    after = Function.update db s.table ((db s.table).filter fun r => !S.selects db s.table s.bound r) ∧
      n = ((db s.table).filter (S.selects db s.table s.bound)).length := by
  simp only [runDelete] at h
  split at h
  · cases h
  · obtain ⟨after', h₁, h⟩ := Except.bind_eq_ok.mp h
    cases h
    exact ⟨commit_ok h₁, rfl⟩

theorem runUpdate_ok {u : Update} {n : Nat} (h : S.runUpdate db u = .ok (after, n)) :
    n = ((db u.table).filter (S.selects db u.table u.bound)).length ∧
      ∃ f : Row Cell → Row Cell, (∀ r ∈ db u.table, S.selects db u.table u.bound r = false → f r = r) ∧
        (∀ r ∈ db u.table, S.selects db u.table u.bound r = true → S.assignRow u r = some (f r)) ∧
        after = Function.update db u.table ((db u.table).map f) := by
  simp only [runUpdate] at h
  split at h
  · cases h
  split at h
  · cases h
  split at h
  · cases h
  rename_i rows hrows
  obtain ⟨after', h₁, h⟩ := Except.bind_eq_ok.mp h
  cases h
  obtain ⟨f, hf, rfl⟩ := Option.exists_map_of_mapM hrows
  refine ⟨rfl, f, fun r hr hs => ?_, fun r hr hs => ?_, commit_ok h₁⟩
  · exact (Option.some.inj ((if_neg (by simp [hs])).symm.trans (hf r hr))).symm
  · exact (if_pos hs).symm.trans (hf r hr)

end Server

theorem mem_rows {S : Server} {db : Tables Cell} {t : String} {w : Where (Option BindValue)} {rows : List (Row Cell)}
    {r : Row Cell} (perm : rows.Perm ((db t).filter (S.selects db t w))) (hr : r ∈ db t) :
    r ∈ rows ↔ S.selects db t w r = true := by
  rw [perm.mem_iff, List.mem_filter, and_iff_right hr]

/-- Statements with the same bound clause and no page reach the same rows. -/
theorem sameScope_of_bound [Fmt] {m : ModelMeta} {qs : QuerySet m} {d : Dialect} (page : SamePage {} qs)
    (hd : (qs.delete d).bound = (qs.select d).bound)
    (hu : ∀ sets u, qs.update d sets = .ok u → u.bound = (qs.select d).bound) : SameScope qs d where
  deleteWhere := hd
  updateWhere := hu
  deleted S db after rows n hr h := by
    obtain ⟨h₁, h₂⟩ := Server.runDelete_ok h
    have perm : rows.Perm ((db m.tableName).filter _) := Server.fetch_perm page.limit page.offset hr
    rw [hd] at h₁ h₂
    refine ⟨h₁.trans (congrArg _ (List.filter_congr fun r hmem => ?_)), h₂.trans perm.length_eq.symm⟩
    have mem : r ∈ rows ↔ S.selects db m.tableName (qs.select d).bound r = true := mem_rows perm hmem
    simp only [mem, decide_not, Bool.decide_eq_true]
    rfl
  updated S db after rows n sets u hr hset h := by
    obtain ⟨ht, _⟩ := qs.update_bound d hset
    obtain ⟨h₁, f, h₂, h₃, h₄⟩ := Server.runUpdate_ok h
    have perm : rows.Perm ((db m.tableName).filter _) := Server.fetch_perm page.limit page.offset hr
    rw [hu sets u hset, ht] at h₁ h₂ h₃
    rw [ht] at h₄
    refine ⟨h₁.trans perm.length_eq.symm, f, fun r hmem hr' => h₂ r hmem ?_, fun r hr' => ?_, h₄⟩
    · exact Bool.eq_false_iff.mpr fun hs => hr' ((mem_rows perm hmem).mpr hs)
    · obtain ⟨hmem, hs⟩ := List.mem_filter.mp (perm.mem_iff.mp hr')
      exact h₃ r hmem hs

/-! ### The scope of a write -/

/-- A query set built by narrowing calls writes to the rows it reads exactly when no call of it is a
    `search`: `update` and `delete` leave the search condition out. -/
theorem sameScope_iff_no_search [Fmt] {m : ModelMeta} (d : Dialect) (calls : List Narrow) (qs : QuerySet m)
    (h : ({} : QuerySet m).narrow calls = .ok qs) : SameScope qs d ↔ ∀ call ∈ calls, call.isSearch = false := by
  obtain ⟨page, search⟩ := QuerySet.narrow_kept h
  rw [Option.isSome_none, Bool.false_or] at search
  constructor
  · intro scope
    cases hsc : qs.searchCondition with
    | none => simpa [hsc] using search
    | some sc =>
      have same := scope.deleteWhere
      rw [qs.delete_bound d, qs.select_bound d, hsc] at same
      exact absurd same (Where.ofFilters_ne_withSearch _ _ sc)
  · intro noSearch
    have hsc : qs.searchCondition = none := by
      rw [← Option.not_isSome_iff_eq_none, search]
      simpa using noSearch
    have select : (qs.select d).bound = .ofFilters (qs.boundFilters d) := by rw [qs.select_bound d, hsc]; rfl
    exact sameScope_of_bound page ((qs.delete_bound d).trans select.symm) fun sets u hu =>
      (qs.update_bound d hu).2.trans select.symm

/-! ### A search reaches further when it deletes -/

/-- A post with a title. -/
def postMeta : ModelMeta where
  structName := "Post"
  appLabel := "blog"
  tableName := "blog_post"
  fields := [{ name := "id", columnName := "id", kind := .bigInt, primaryKey := true, auto := true },
    { name := "title", columnName := "title", kind := .char, maxLength := some 200 }]

/-- A server that compares values as they are and whose full-text search finds no row. -/
def plainServer : Server where
  dialect := .postgres
  interp :=
    { compare := fun op a b => match op with
        | .eq => some (a == b)
        | .ne => some (a != b)
        | _ => none
      equal := fun a b => some (a == b)
      isNull := (· == .null)
      pattern := fun _ _ v => v
      raw := fun _ _ => some false }
  arith := fun _ v _ => some v
  arrange := fun _ rows => rows
  arrange_perm := fun _ rows => .refl rows
  complete := fun _ _ r => r
  refuses := fun _ _ => none

def onePost : Tables Cell := fun t => if t = "blog_post" then [[("id", .i64 1), ("title", .text "rust")]] else []

/-- Posts filtered by title and key are the ones written. -/
theorem filteredPosts_sameScope : @SameScope .decimal postMeta
    { filters := [.and [.compare "title" .startsWith (.text "ru")],
        .not (.and [.compare "id" .in (.list [.i64 3, .i64 4])])] } .postgres :=
  (@sameScope_iff_no_search .decimal _ .postgres
    [.filter (.and [⟨"title__startswith", .text "ru"⟩]), .exclude (.and [⟨"id__in", .list [.i64 3, .i64 4]⟩])] _
    (by rfl)).mpr (by simp [Narrow.isSearch])

/-- A search for `python` returns none of the posts, and deleting what it found deletes a post. -/
theorem searchedPosts_deleted : ∃ qs : QuerySet postMeta,
    ({} : QuerySet postMeta).narrow [.search "python" ["title"]] = .ok qs ∧
    plainServer.fetch onePost (@QuerySet.select _ .decimal qs .postgres) = .ok [] ∧
    (∃ after, plainServer.runDelete onePost (@QuerySet.delete _ .decimal qs .postgres) = .ok (after, 1) ∧
      onePost "blog_post" ≠ [] ∧ after "blog_post" = []) ∧
    ¬@SameScope .decimal _ qs .postgres := by
  refine ⟨_, rfl, rfl, ⟨_, rfl, by decide, by decide⟩, fun scope => ?_⟩
  obtain ⟨_, h⟩ := @SameScope.deleted .decimal _ _ _ scope plainServer onePost _ [] 1 rfl rfl
  exact absurd h (by decide)

end Djangors.Orm
