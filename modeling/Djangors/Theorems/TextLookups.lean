import Djangors.Lib.Like
import Djangors.Theorems.Meaning

/-! # Text lookups

The text lookups search with `LIKE` and do not escape what they search for. They find the text alone exactly when it holds
no wildcard, no escape character and, on SQLite and for the lookups that mind the case, no letter. -/

namespace Djangors.Orm
open Db Sql

/-! ### Letters -/

/-- The code of a letter of ASCII in upper or lower case. -/
def IsUpper (n : Nat) : Prop := 65 ≤ n ∧ n ≤ 90

def IsLower (n : Nat) : Prop := 97 ≤ n ∧ n ≤ 122

theorem isAlpha_iff (c : Char) : c.isAlpha = true ↔ IsUpper c.toNat ∨ IsLower c.toNat := by
  have halpha : c.isAlpha =
      (decide (c.val ≥ 'A'.val ∧ c.val ≤ 'Z'.val) || (decide (c.val ≥ 'a'.val) && decide (c.val ≤ 'z'.val))) := rfl
  simp [halpha, UInt32.le_iff_toNat_le, IsUpper, IsLower, ← Char.toNat_val]

theorem toNat_toLower (c : Char) : IsUpper c.toNat ∧ c.toLower.toNat = c.toNat + 32 ∨
    ¬IsUpper c.toNat ∧ c.toLower = c := by
  have hupper : (c.val ≥ 'A'.val ∧ c.val ≤ 'Z'.val) ↔ IsUpper c.toNat := by
    simp [UInt32.le_iff_toNat_le, IsUpper, ← Char.toNat_val]
  by_cases h : c.val ≥ 'A'.val ∧ c.val ≤ 'Z'.val
  · have hcode := hupper.mp h
    have hval : c.toLower.val = c.val + ('a'.val - 'A'.val) := congrArg Char.val (dif_pos h)
    have hshift : ('a'.val - 'A'.val).toNat = 32 := rfl
    refine .inl ⟨hcode, ?_⟩
    rw [IsUpper, ← Char.toNat_val] at hcode
    rw [← Char.toNat_val, ← Char.toNat_val, hval, UInt32.toNat_add, hshift]
    omega
  · exact .inr ⟨fun hcode => h (hupper.mpr hcode), dif_neg h⟩

theorem toNat_toUpper (c : Char) : IsLower c.toNat ∧ c.toUpper.toNat = c.toNat - 32 ∨
    ¬IsLower c.toNat ∧ c.toUpper = c := by
  have hlower : ('a'.val ≤ c.val ∧ c.val ≤ 'z'.val) ↔ IsLower c.toNat := by
    simp [UInt32.le_iff_toNat_le, IsLower, ← Char.toNat_val]
  by_cases h : 'a'.val ≤ c.val ∧ c.val ≤ 'z'.val
  · have hcode := hlower.mp h
    have hdef : c.toUpper = dite ('a'.val ≤ c.val ∧ c.val ≤ 'z'.val) _ _ := rfl
    rw [dif_pos h] at hdef
    have hval := congrArg Char.val hdef
    dsimp only at hval
    have hshift : ('A'.val - 'a'.val).toNat = 4294967264 := by decide
    refine .inl ⟨hcode, ?_⟩
    rw [IsLower, ← Char.toNat_val] at hcode
    rw [← Char.toNat_val, ← Char.toNat_val, hval, UInt32.toNat_add, hshift]
    omega
  · exact .inr ⟨fun hcode => h (hlower.mpr hcode), dif_neg h⟩

/-- Only a letter has another character in lower case. -/
theorem toLower_eq_iff {x : Char} (hx : x.isAlpha = false) (y : Char) : y.toLower = x.toLower ↔ y = x := by
  have hcode : ¬(IsUpper x.toNat ∨ IsLower x.toNat) := fun h => Bool.false_ne_true (hx.symm.trans ((isAlpha_iff x).mpr h))
  refine ⟨fun h => ?_, fun h => by rw [h]⟩
  rcases toNat_toLower x with ⟨hupper, -⟩ | ⟨-, hself⟩
  · exact absurd (.inl hupper) hcode
  · rw [hself] at h
    rcases toNat_toLower y with ⟨hupper, hlower⟩ | ⟨-, hself⟩
    · rw [h] at hlower
      simp only [IsUpper, IsLower] at hupper hcode
      omega
    · exact hself.symm.trans h

/-- A letter in the other case. -/
def otherCase (c : Char) : Char := if c.toLower = c then c.toUpper else c.toLower

theorem toLower_otherCase (c : Char) : (otherCase c).toLower = c.toLower := by
  rw [otherCase]
  split
  · rename_i hself
    rcases toNat_toUpper c with ⟨hlower, hupper⟩ | ⟨-, hupper⟩
    · rw [hself, ← Char.toNat_inj]
      rw [IsLower] at hlower
      rcases toNat_toLower c.toUpper with ⟨-, h⟩ | ⟨h, -⟩
      · omega
      · rw [IsUpper] at h
        omega
    · rw [hupper]
  · rename_i hne
    rcases toNat_toLower c with ⟨hupper, hlower⟩ | ⟨-, hself⟩
    · rcases toNat_toLower c.toLower with ⟨h, -⟩ | ⟨-, h⟩
      · rw [IsUpper] at hupper h
        omega
      · exact h
    · exact absurd hself hne

theorem otherCase_ne {c : Char} (h : c.isAlpha = true) : otherCase c ≠ c := by
  rw [otherCase]
  split
  · rename_i hself
    intro hupper
    rcases (isAlpha_iff c).mp h with hcode | hcode
    · rcases toNat_toLower c with ⟨-, hlower⟩ | ⟨hnot, -⟩
      · rw [hself] at hlower
        omega
      · exact hnot hcode
    · rcases toNat_toUpper c with ⟨-, hlower⟩ | ⟨hnot, -⟩
      · rw [hupper] at hlower
        rw [IsLower] at hcode
        omega
      · exact hnot hcode
  · rename_i hne
    exact hne

/-! ### Lookups -/

/-- The text lookups that mind no case. -/
def CompareOp.ignoresCase : CompareOp → Bool
  | .iContains | .iExact => true
  | _ => false

/-- The wildcards before and behind what a text lookup searches for. -/
def CompareOp.wildcards : CompareOp → Option (Bool × Bool)
  | .contains | .iContains => some (true, true)
  | .startsWith => some (false, true)
  | .endsWith => some (true, false)
  | .iExact => some (false, false)
  | _ => none

/-- What a text lookup promises of a text `c` and the text `s` it searches for. -/
def CompareOp.Finds (op : CompareOp) (s c : String) : Prop :=
  match op with
  | .contains => s.toList <:+: c.toList
  | .startsWith => s.toList <+: c.toList
  | .endsWith => s.toList <:+ c.toList
  | .iContains => s.toList.map Char.toLower <:+: c.toList.map Char.toLower
  | .iExact => c.toList.map Char.toLower = s.toList.map Char.toLower
  | _ => False

/-- The text has no character that the lookup takes for another one or for a wildcard. -/
def CompareOp.Literal (op : CompareOp) (d : Dialect) (s : String) : Prop :=
  ∀ x ∈ s.toList, x ≠ '%' ∧ x ≠ '_' ∧ (d = .postgres → x ≠ '\\') ∧
    (d = .sqlite → op.ignoresCase = false → x.isAlpha = false)

def CompareOp.fold (op : CompareOp) (c : Char) : Char := if op.ignoresCase then c.toLower else c

theorem finds_iff {op : CompareOp} {before after : Bool} (h : op.wildcards = some (before, after)) (s c : String) :
    op.Finds s c ↔ Like.Found before after (s.toList.map op.fold) (c.toList.map op.fold) := by
  have hself (t : String) (hop : op.fold = id) : t.toList.map op.fold = t.toList := by rw [hop, List.map_id]
  cases op with
  | contains =>
    cases h
    rw [hself s rfl, hself c rfl]
    exact ⟨fun ⟨u, v, h⟩ => ⟨u, v, h.symm, nofun, nofun⟩, fun ⟨u, v, h, _, _⟩ => ⟨u, v, h.symm⟩⟩
  | startsWith =>
    cases h
    rw [hself s rfl, hself c rfl]
    exact ⟨fun ⟨v, h⟩ => ⟨[], v, h.symm, fun _ => rfl, nofun⟩, fun ⟨u, v, h, hu, _⟩ => ⟨v, by rw [h, hu rfl]; rfl⟩⟩
  | endsWith =>
    cases h
    rw [hself s rfl, hself c rfl]
    exact ⟨fun ⟨u, h⟩ => ⟨u, [], by rw [List.append_nil, h], nofun, fun _ => rfl⟩,
      fun ⟨u, v, h, _, hv⟩ => ⟨u, by rw [h, hv rfl, List.append_nil]⟩⟩
  | iContains =>
    cases h
    exact ⟨fun ⟨u, v, h⟩ => ⟨u, v, h.symm, nofun, nofun⟩, fun ⟨u, v, h, _, _⟩ => ⟨u, v, h.symm⟩⟩
  | iExact =>
    cases h
    exact ⟨fun h => ⟨[], [], by rw [List.append_nil]; exact h, fun _ => rfl, fun _ => rfl⟩,
      fun ⟨u, v, h, hu, hv⟩ => by rw [hu rfl, hv rfl, List.append_nil] at h; exact h⟩
  | _ => cases h

/-! ### The operators of the server -/

/-- The rule by which an operator of the server reads patterns. SQLite ignores the case of ASCII letters always, and
    only Postgres has an escape character. -/
def likeRule (d : Dialect) (ignoresCase : Bool) : Like.Rule where
  escape := if d = .postgres then some '\\' else none
  fold := if d = .postgres ∧ ignoresCase = false then id else Char.toLower

/-- The server's `LIKE`, and the operator that ignores case. -/
structure Likes (I : Interp SqlOp Cell) (d : Dialect) : Prop where
  like : ∀ text pattern, I.compare .like (.text text) (.text pattern) =
    some ((likeRule d false).holds pattern.toList text.toList)
  ilike : ∀ text pattern, I.compare (ilike d) (.text text) (.text pattern) =
    some ((likeRule d true).holds pattern.toList text.toList)

theorem plain_iff (d : Dialect) (ignoresCase : Bool) (x : Char) :
    (likeRule d ignoresCase).Plain x ↔ x ≠ '%' ∧ x ≠ '_' ∧ (d = .postgres → x ≠ '\\') := by
  cases d <;> simp [Like.Rule.Plain, likeRule, eq_comm]

theorem percent_ne_escape (d : Dialect) (ignoresCase : Bool) : (likeRule d ignoresCase).escape ≠ some '%' := by
  cases d <;> simp [likeRule]

theorem fold_separates (d : Dialect) (op : CompareOp) : Like.Separates (likeRule d op.ignoresCase) op.fold 'a' where
  percent := by rw [CompareOp.fold, CompareOp.fold]; split <;> decide
  underscore := by rw [CompareOp.fold, CompareOp.fold]; split <;> decide
  escape c h := by
    cases d with
    | postgres =>
      cases h
      rw [CompareOp.fold, CompareOp.fold]
      split <;> decide
    | sqlite => cases h

/-- The lookup and the server fold alike, or the server ignores a case that the lookup minds. -/
theorem fold_cases (d : Dialect) (op : CompareOp) : (likeRule d op.ignoresCase).fold = op.fold ∨
    d = .sqlite ∧ op.ignoresCase = false ∧ (likeRule d op.ignoresCase).fold = Char.toLower ∧ op.fold = id := by
  have hfold : op.fold = if op.ignoresCase then Char.toLower else id := by
    funext c
    rw [CompareOp.fold]
    split <;> rfl
  rw [hfold]
  cases d <;> cases op.ignoresCase <;> simp [likeRule]

/-- Where no letter is searched for, case does not matter. -/
theorem found_lower_iff {before after : Bool} {s : List Char} (hs : ∀ x ∈ s, x.isAlpha = false) (text : List Char) :
    Like.Found before after (s.map Char.toLower) (text.map Char.toLower) ↔ Like.Found before after s text := by
  constructor
  · rintro ⟨u, v, htext, hu, hv⟩
    obtain ⟨uw, v', rfl, huw, rfl⟩ := List.map_eq_append_iff.mp htext
    obtain ⟨u', w, rfl, rfl, hw⟩ := List.map_eq_append_iff.mp huw
    have hself : w = s := by
      refine List.ext_getElem (by simpa using congrArg List.length hw) fun i hi hi' => ?_
      have hget := List.getElem_of_eq hw (by simpa using hi)
      rw [List.getElem_map, List.getElem_map] at hget
      exact (toLower_eq_iff (hs _ (List.getElem_mem hi')) _).mp hget
    exact ⟨u', v', by rw [hself], fun h => List.map_eq_nil_iff.mp (hu h), fun h => List.map_eq_nil_iff.mp (hv h)⟩
  · rintro ⟨u, v, rfl, hu, hv⟩
    refine ⟨u.map Char.toLower, v.map Char.toLower, by simp, fun h => by rw [hu h]; rfl, fun h => by rw [hv h]; rfl⟩

/-- The pattern of a lookup finds what the lookup promises exactly when the text is literal. -/
theorem holds_iff_literal {op : CompareOp} {before after : Bool} (h : op.wildcards = some (before, after)) (d : Dialect)
    (s : String) : (∀ c : String, (likeRule d op.ignoresCase).holds (Like.around before after s.toList) c.toList = true ↔
      op.Finds s c) ↔ op.Literal d s := by
  have hpercent := percent_ne_escape d op.ignoresCase
  simp only [finds_iff h]
  constructor
  · intro hiff
    have hlist (text : List Char) := hiff (String.ofList text)
    simp only [String.toList_ofList] at hlist
    have hplain : ∀ x ∈ s.toList, (likeRule d op.ignoresCase).Plain x := by
      by_contra hnot
      simp only [not_forall] at hnot
      obtain ⟨x, hx, hxplain⟩ := hnot
      obtain ⟨text, hmismatch⟩ := Like.exists_mismatch (fold_separates d op) hpercent before after ⟨x, hx, hxplain⟩
      exact hmismatch (hlist text)
    intro x hx
    obtain ⟨h₁, h₂, h₃⟩ := (plain_iff d op.ignoresCase x).mp (hplain x hx)
    refine ⟨h₁, h₂, h₃, fun hd hcase => ?_⟩
    -- A letter in the other case is found too.
    by_contra hletter
    subst hd
    have hfold : op.fold = id := by funext c; rw [CompareOp.fold, hcase]; rfl
    have hlower : (likeRule .sqlite op.ignoresCase).fold = Char.toLower := by simp [likeRule]
    obtain ⟨text, hmismatch⟩ := Like.exists_folded hpercent before after hplain
      (fun c => by rw [hlower]; exact toLower_otherCase c) ⟨x, hx, otherCase_ne (eq_true_of_ne_false hletter)⟩
    rw [hfold] at hlist
    simp only [List.map_id] at hlist
    exact hmismatch (hlist text)
  · intro hliteral c
    have hplain : ∀ x ∈ s.toList, (likeRule d op.ignoresCase).Plain x := fun x hx =>
      (plain_iff d op.ignoresCase x).mpr ⟨(hliteral x hx).1, (hliteral x hx).2.1, (hliteral x hx).2.2.1⟩
    rw [Like.holds_iff_of_plain hpercent hplain]
    rcases fold_cases d op with hfold | ⟨hd, hcase, hlower, hself⟩
    · rw [hfold]
    · rw [hlower, hself, List.map_id, List.map_id]
      exact found_lower_iff (fun x hx => (hliteral x hx).2.2.2 hd hcase) c.toList

/-! ### Conditions -/

theorem exists_env (column : ColRef) (a : Cell) : ∃ env : List (Frame Cell), column.value env = some a := by
  cases column with
  | bare name => exact ⟨[⟨"", [(name, a)]⟩], by simp [ColRef.value]⟩
  | column name => exact ⟨[⟨"", [(name, a)]⟩], by simp [ColRef.value]⟩
  | qualified table name => exact ⟨[⟨table, [(name, a)]⟩], by simp [ColRef.value]⟩

section Conditions
variable [Fmt] {I : Interp SqlOp Cell} {d : Dialect}

omit [Fmt] in
theorem meaning_lookup (law : LawfulInterp I) (likes : Likes I d) {op : CompareOp} {before after : Bool}
    (h : op.wildcards = some (before, after)) (s c : String) : op.meaning I d (.text c) (.text s) =
      some ((likeRule d op.ignoresCase).holds (Like.around before after s.toList) c.toList) := by
  have htext : ((if before then "%" else "") ++ s ++ if after then "%" else "").toList =
      Like.around before after s.toList := by
    rw [String.toList_append, String.toList_append, Like.around]
    cases before <;> cases after <;> rfl
  cases op with
  | contains | startsWith | endsWith =>
    cases h
    rw [← htext, CompareOp.meaning, law.pattern_text]
    exact likes.like _ _
  | iContains =>
    cases h
    rw [← htext, CompareOp.meaning, law.pattern_text]
    exact likes.ilike _ _
  | iExact =>
    cases h
    rw [CompareOp.meaning]
    simpa [Like.around, CompareOp.ignoresCase] using likes.ilike c s
  | _ => cases h

variable (I d) (db : Tables Cell) (outer : String) (sub : Option String) (toCol : String → ColRef)

/-- A condition about a column finds the text `s` in the texts of the column as the lookup promises. -/
def FindsText (e : Expr) (column : ColRef) (op : CompareOp) (s : String) : Prop :=
  ∀ env c, column.value env = some (.text c) →
    ((e.condition d outer sub toCol).eval I db env = some true ↔ op.Finds s c)

/-- A condition about two columns finds the text `s`, as the text of the second, in the texts of the first. -/
def FindsColumn (e : Expr) (column searched : ColRef) (op : CompareOp) (s : String) : Prop :=
  ∀ env c, column.value env = some (.text c) → searched.value env = some (.text s) →
    ((e.condition d outer sub toCol).eval I db env = some true ↔ op.Finds s c)

/-- Two columns can hold any two values. -/
def Apart (column searched : ColRef) : Prop :=
  ∀ a b : Cell, ∃ env : List (Frame Cell), column.value env = some a ∧ searched.value env = some b

variable {I d db outer sub toCol} {op : CompareOp} {before after : Bool} {s : String}

theorem findsText_iff (law : LawfulInterp I) (likes : Likes I d) (hop : op.wildcards = some (before, after)) {e : Expr}
    {column : ColRef} (he : ∀ env c, column.value env = some (.text c) →
      (e.condition d outer sub toCol).eval I db env = op.meaning I d (.text c) (.text s)) :
    FindsText I d db outer sub toCol e column op s ↔ op.Literal d s := by
  rw [← holds_iff_literal hop]
  constructor
  · intro h c
    obtain ⟨env, henv⟩ := exists_env column (.text c)
    have hfinds := h env c henv
    rw [he env c henv, meaning_lookup law likes hop, Option.some.injEq] at hfinds
    exact hfinds
  · intro h env c henv
    rw [he env c henv, meaning_lookup law likes hop, Option.some.injEq]
    exact h c

theorem findsColumn_iff (law : LawfulInterp I) (likes : Likes I d) (hop : op.wildcards = some (before, after)) {e : Expr}
    {column searched : ColRef} (he : ∀ env c, column.value env = some (.text c) → searched.value env = some (.text s) →
      (e.condition d outer sub toCol).eval I db env = op.meaning I d (.text c) (.text s)) :
    (op.Literal d s → FindsColumn I d db outer sub toCol e column searched op s) ∧
      (Apart column searched → FindsColumn I d db outer sub toCol e column searched op s → op.Literal d s) := by
  rw [← holds_iff_literal hop]
  constructor
  · intro h env c henv hsearched
    rw [he env c henv hsearched, meaning_lookup law likes hop, Option.some.injEq]
    exact h c
  · intro hapart h c
    obtain ⟨env, henv, hsearched⟩ := hapart (.text c) (.text s)
    have hfinds := h env c henv hsearched
    rw [he env c henv hsearched, meaning_lookup law likes hop, Option.some.injEq] at hfinds
    exact hfinds

omit [Fmt] in
theorem lookup_ne (hop : op.wildcards = some (before, after)) : op ≠ .in ∧ op ≠ .isNull := by
  constructor <;> (rintro rfl; cases hop)

theorem eval_value (law : LawfulInterp I) (hop : op.wildcards = some (before, after)) (field : String)
    {env : List (Frame Cell)} {c : String} (henv : (toCol field).value env = some (.text c)) :
    ((Expr.compare field op (.text s)).condition d outer sub toCol).eval I db env =
      op.meaning I d (.text c) (.text s) := by
  have hsound : (Expr.compare field op (.text s)).Sound := by
    rw [Expr.Sound]
    exact fun _ => nofun
  have hoperand : op.operand (.text s) = .text s := by
    rw [operand_of_ne (v := .text s) nofun]
    split <;> rfl
  rw [condition_meaning law hsound, Expr.meaning]
  cases op with
  | contains | startsWith | endsWith | iContains | iExact =>
    rw [compareMeaning, henv, Option.bind_some, CompareOp.valueMeaning, hoperand]
    all_goals simp
  | _ => cases hop

theorem eval_columns (law : LawfulInterp I) (hop : op.wildcards = some (before, after)) (left right : String)
    {env : List (Frame Cell)} {c : String} (hleft : (toCol left).value env = some (.text c))
    (hright : (toCol right).value env = some (.text s)) :
    ((Expr.compareField left op right).condition d outer sub toCol).eval I db env =
      op.meaning I d (.text c) (.text s) := by
  have hsound : (Expr.compareField left op right).Sound := by
    rw [Expr.Sound]
    exact (lookup_ne hop).2
  rw [condition_meaning law hsound, Expr.meaning, columnsMeaning, hleft, hright]
  rfl

theorem eval_outer (law : LawfulInterp I) (hop : op.wildcards = some (before, after)) (field outerField : String)
    {env : List (Frame Cell)} {c : String} (hleft : (ColRef.qualified (sub.getD outer) field).value env = some (.text c))
    (hright : (ColRef.qualified outer outerField).value env = some (.text s)) :
    ((Expr.outerCompare field op outerField).condition d outer sub toCol).eval I db env =
      op.meaning I d (.text c) (.text s) := by
  have hsound : (Expr.outerCompare field op outerField).Sound := by
    rw [Expr.Sound]
    exact (lookup_ne hop).2
  rw [condition_meaning law hsound, Expr.meaning, columnsMeaning, hleft, hright]
  rfl

/-! ### Several fields -/

theorem disjMeaning_eq_true {env : List (Frame Cell)} {es : List Expr} :
    Expr.disjMeaning I d db outer sub toCol env es = some true ↔
      ∃ e ∈ es, e.meaning I d db outer sub toCol env = some true := by
  induction es with
  | nil => simp [Expr.disjMeaning]
  | cons e es ih => rw [Expr.disjMeaning, or3_eq_true, ih, List.exists_mem_cons_iff]

/-- The filter of `filter_or_icontains`. -/
def orIcontains (fields : List String) (term : String) : Expr :=
  .or (fields.map fun field => .compare field .iContains (.text term))

omit [Fmt] in
theorem filterOrIcontains_ok {m : ModelMeta} {qs qs' : QuerySet m} {fields : List String} {term : String}
    (h : qs.filterOrIcontains fields term = .ok qs') :
    qs' = { qs with filters := qs.filters ++ [orIcontains fields term] } ∧
      ∀ field ∈ fields, ∃ column, fieldToCol m field = .column column := by
  obtain ⟨compares, hcompares, h⟩ := Except.bind_eq_ok.mp h
  cases h
  constructor
  · rw [orIcontains, Except.mapM_eq_map (g := fun field => .compare field .iContains (.text term)) hcompares]
    intro field _ e he
    split at he
    · exact (Except.ok.inj he).symm
    · cases he
  · intro field hfield
    obtain ⟨e, -, he⟩ := Except.exists_mapM_of_mem hcompares hfield
    split at he
    · rename_i hknown
      obtain ⟨f, hf⟩ := Option.isSome_iff_exists.mp ((List.find?_isSome (p := fun f : FieldMeta => f.name == field)).mpr
        (List.any_eq_true.mp hknown))
      exact ⟨f.columnName, by rw [fieldToCol, ModelMeta.field?, hf]⟩
    · cases he

theorem eval_orIcontains (law : LawfulInterp I) (env : List (Frame Cell)) (fields : List String) (term : String) :
    ((orIcontains fields term).condition d outer sub toCol).eval I db env = some true ↔ ∃ field ∈ fields,
      ((Expr.compare field .iContains (.text term)).condition d outer sub toCol).eval I db env = some true := by
  have hleaf (field : String) : (Expr.compare field .iContains (.text term)).Sound := by
    rw [Expr.Sound]
    exact fun _ => nofun
  have hsound : (orIcontains fields term).Sound := by
    rw [orIcontains, Expr.Sound, Expr.allSound_iff, List.forall_mem_map]
    exact fun field _ => hleaf field
  rw [condition_meaning law hsound, orIcontains, Expr.meaning, disjMeaning_eq_true]
  simp only [List.mem_map, exists_exists_and_eq_and, condition_meaning law (hleaf _)]

end Conditions

/-! ### Literal lookups -/

/-- The filter that `filter_or_icontains` adds to `qs` holds of the rows where a field's text contains the term. -/
def FindsInFields [Fmt] (I : Interp SqlOp Cell) (d : Dialect) (db : Tables Cell) (m : ModelMeta) (fields : List String)
    (term : String) : Prop :=
  ∀ r : Row Cell, (∀ field ∈ fields, ∃ c, (fieldToCol m field).value [⟨m.tableName, r⟩] = some (.text c)) →
    (((orIcontains fields term).condition d m.tableName none (fieldToCol m)).eval I db [⟨m.tableName, r⟩] = some true ↔
      ∃ field ∈ fields, ∃ c, (fieldToCol m field).value [⟨m.tableName, r⟩] = some (.text c) ∧
        CompareOp.iContains.Finds term c)

theorem lookup_map_const {α : Type} {fields : List α} {name : α → String} (v : Cell) {column : String}
    (h : ∃ field ∈ fields, name field = column) : (fields.map fun field => (name field, v)).lookup column = some v := by
  induction fields with
  | nil => simp at h
  | cons field fields ih =>
    rw [List.map_cons, List.lookup_cons]
    split
    · rfl
    · rename_i hne
      refine ih ?_
      obtain ⟨other, hother, rfl⟩ := h
      rcases List.mem_cons.mp hother with rfl | hother
      · simp at hne
      · exact ⟨other, hother, rfl⟩

/-- Text lookups find the text `s` itself exactly when it is literal: beside a value, beside a column of the same table or
    of the query around, and in any of several fields. -/
theorem text_lookups_literal_iff [Fmt] {I : Interp SqlOp Cell} {d : Dialect} (law : LawfulInterp I) (likes : Likes I d)
    (db : Tables Cell) (s : String) :
    (∀ op : CompareOp, op.wildcards ≠ none → ∀ (outer : String) (sub : Option String) (toCol : String → ColRef),
      (∀ field, FindsText I d db outer sub toCol (.compare field op (.text s)) (toCol field) op s ↔ op.Literal d s) ∧
      (∀ left right,
        (op.Literal d s →
          FindsColumn I d db outer sub toCol (.compareField left op right) (toCol left) (toCol right) op s) ∧
        (Apart (toCol left) (toCol right) →
          FindsColumn I d db outer sub toCol (.compareField left op right) (toCol left) (toCol right) op s →
            op.Literal d s)) ∧
      ∀ field outerField,
        (op.Literal d s → FindsColumn I d db outer sub toCol (.outerCompare field op outerField)
          (.qualified (sub.getD outer) field) (.qualified outer outerField) op s) ∧
        (Apart (.qualified (sub.getD outer) field) (.qualified outer outerField) →
          FindsColumn I d db outer sub toCol (.outerCompare field op outerField)
            (.qualified (sub.getD outer) field) (.qualified outer outerField) op s → op.Literal d s)) ∧
    ∀ (m : ModelMeta) (qs qs' : QuerySet m) (fields : List String), fields ≠ [] →
      qs.filterOrIcontains fields s = .ok qs' →
      qs' = { qs with filters := qs.filters ++ [orIcontains fields s] } ∧
        (FindsInFields I d db m fields s ↔ CompareOp.iContains.Literal d s) := by
  constructor
  · intro op hop outer sub toCol
    obtain ⟨⟨before, after⟩, hop⟩ := Option.ne_none_iff_exists'.mp hop
    exact ⟨fun field => findsText_iff law likes hop fun env c henv => eval_value law hop field henv,
      fun left right => findsColumn_iff law likes hop fun env c hl hr => eval_columns law hop left right hl hr,
      fun field outerField => findsColumn_iff law likes hop fun env c hl hr => eval_outer law hop field outerField hl hr⟩
  · intro m qs qs' fields hfields hqs
    obtain ⟨hfilters, hcolumns⟩ := filterOrIcontains_ok hqs
    refine ⟨hfilters, ?_⟩
    have hop : CompareOp.iContains.wildcards = some (true, true) := rfl
    have hleaf (field : String) (env : List (Frame Cell)) (c : String)
        (henv : (fieldToCol m field).value env = some (.text c)) :
        ((Expr.compare field .iContains (.text s)).condition d m.tableName none (fieldToCol m)).eval I db env =
          CompareOp.iContains.meaning I d (.text c) (.text s) :=
      eval_value law hop field henv
    simp only [FindsInFields, eval_orIcontains law]
    rw [← holds_iff_literal hop]
    constructor
    · intro h c
      -- Every field of this row has the text `c`.
      let r : Row Cell := fields.map fun field => ((fieldToCol m field).name, .text c)
      have hr (field : String) (hfield : field ∈ fields) : (fieldToCol m field).value [⟨m.tableName, r⟩] = some (.text c) := by
        obtain ⟨column, hcolumn⟩ := hcolumns field hfield
        have hlookup : r.lookup column = some (.text c) :=
          lookup_map_const (.text c) ⟨field, hfield, by rw [hcolumn, ColRef.name]⟩
        simp [hcolumn, ColRef.value, hlookup]
      obtain ⟨first, hfirst⟩ := List.exists_mem_of_ne_nil fields hfields
      have hrow := h r fun field hfield => ⟨c, hr field hfield⟩
      constructor
      · intro hholds
        obtain ⟨field, hfield, c', hc', hfinds⟩ := hrow.mp ⟨first, hfirst, by
          rw [hleaf first _ c (hr first hfirst), meaning_lookup law likes hop, Option.some.injEq]
          exact hholds⟩
        cases (hr field hfield).symm.trans hc'
        exact hfinds
      · intro hfinds
        obtain ⟨field, hfield, heval⟩ := hrow.mpr ⟨first, hfirst, c, hr first hfirst, hfinds⟩
        rw [hleaf field _ c (hr field hfield), meaning_lookup law likes hop, Option.some.injEq] at heval
        exact heval
    · intro h r hr
      refine exists_congr fun field => and_congr_right fun hfield => ?_
      obtain ⟨c, hc⟩ := hr field hfield
      rw [hleaf field _ c hc, meaning_lookup law likes hop, Option.some.injEq]
      refine (h c).trans ⟨fun hfinds => ⟨c, hc, hfinds⟩, ?_⟩
      rintro ⟨c', hc', hfinds⟩
      cases hc.symm.trans hc'
      exact hfinds

/-! ### A wildcard that is searched for -/

/-- Comparisons of a server: equality, and `LIKE` between texts. -/
def likeCompare (d : Dialect) : SqlOp → Cell → Cell → Option Bool
  | _, .null, _ => none
  | _, _, .null => none
  | .like, .text text, .text pattern => some ((likeRule d false).holds pattern.toList text.toList)
  | .ilike, .text text, .text pattern => some ((likeRule d true).holds pattern.toList text.toList)
  | _, a, b => some (a == b)

def likeInterp (d : Dialect) : Interp SqlOp Cell where
  compare := likeCompare d
  equal := likeCompare d .eq
  isNull := (· == .null)
  pattern before after
    | .text text => .text ((if before then "%" else "") ++ text ++ if after then "%" else "")
    | _ => .null
  raw _ _ := none

theorem likeInterp_lawful (d : Dialect) : LawfulInterp (likeInterp d) where
  equal_eq _ _ := rfl
  isNull_iff _ := beq_iff_eq
  compare_null op a := by cases op <;> cases a <;> exact ⟨rfl, rfl⟩
  pattern_null _ _ := rfl
  pattern_text _ _ _ := rfl

theorem likeInterp_likes (d : Dialect) : Likes (likeInterp d) d where
  like _ _ := rfl
  ilike _ _ := by cases d <;> rfl

/-- A text without wildcards is found where it is contained. -/
theorem rust_found : @FindsText .decimal (likeInterp .postgres) .postgres (fun _ => []) "blog_post" none .column
    (.compare "title" .contains (.text "rust")) (.column "title") .contains "rust" :=
  (((@text_lookups_literal_iff .decimal _ _ (likeInterp_lawful .postgres) (likeInterp_likes .postgres) (fun _ => []) "rust").1
    .contains nofun "blog_post" none .column).1 "title").mpr (by simp [CompareOp.Literal])

/-- `iexact` with a percent sign finds other texts. -/
theorem percent_finds_more :
    ¬∀ (d : Dialect) (I : Interp SqlOp Cell), LawfulInterp I → Likes I d → ∀ (op : CompareOp) (s : String),
      op.wildcards ≠ none → @FindsText .decimal I d (fun _ => []) "blog_post" none .column
        (.compare "title" op (.text s)) (.column "title") op s := by
  intro h
  have hfinds := h .postgres (likeInterp .postgres) (likeInterp_lawful _) (likeInterp_likes _) .iExact "50%" nofun
    [⟨"blog_post", [("title", .text "50 euros")]⟩] "50 euros" rfl
  have hmatch := hfinds.mp (by decide)
  rw [CompareOp.Finds] at hmatch
  revert hmatch
  decide

end Djangors.Orm
