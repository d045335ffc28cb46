import Djangors.Lib.Paging
import Djangors.Lib.TextCode
import Djangors.Theorems.KeysetStep
import Djangors.Theorems.PageVisits

/-! # Walks along cursors

A client that asks for one page after the other, each with the cursor that the page before it ended with. -/

namespace Djangors.Rest
open Db Http Orm Sql

/-! ### Cursors -/

/-- The position that a cursor tells. -/
def positionOf [Parse] (m : ModelMeta) (orderField rawCursor : String) : Option (Value × Int) :=
  match decodeCursor rawCursor with
  | .ok (pk, some raw) => (parseFilterValue m orderField raw).map (·, pk)
  | _ => none

section Cursors
variable [Parse] {m : ModelMeta} {qs : QuerySet m} {orderField pkField raw : String} {descending : Bool}

/-- A cursor narrows a query set to what lies beyond its position. -/
theorem afterCursor_of_position {position : Value × Int} (h : positionOf m orderField raw = some position) :
    afterCursor qs orderField pkField descending raw =
      internal (qs.after orderField position.1 pkField position.2 descending) := by
  rw [positionOf] at h
  rw [afterCursor]
  split at h
  · rename_i pk text hdecode
    obtain ⟨value, hvalue, rfl⟩ := Option.map_eq_some_iff.mp h
    rw [hdecode]
    change (orElse (parseFilterValue m orderField text) _ >>= _) = _
    rw [hvalue]
    rfl
  · cases h

theorem afterCursor_of_no_position (h : positionOf m orderField raw = none) :
    ∃ e, afterCursor qs orderField pkField descending raw = .error e := by
  rw [positionOf] at h
  rw [afterCursor]
  cases hdecode : decodeCursor raw with
  | error e => exact ⟨_, rfl⟩
  | ok decoded =>
    obtain ⟨pk, text⟩ := decoded
    cases text with
    | none => exact ⟨_, rfl⟩
    | some text =>
      rw [hdecode] at h
      have hvalue : parseFilterValue m orderField text = none := Option.map_eq_none_iff.mp h
      change ∃ e, (orElse (parseFilterValue m orderField text) _ >>= _) = _
      rw [hvalue]
      exact ⟨_, rfl⟩

omit [Parse] in
/-- What is encoded is decoded, but for an empty value. -/
theorem decodeCursor_encodeCursor {pk : Int} (hlower : -2 ^ 63 ≤ pk) (hupper : pk < 2 ^ 63) (value : String) :
    decodeCursor (encodeCursor pk (some value)) = .ok (pk, if value.toList = [] then none else some value) := by
  have hraw : (toString pk ++ "|" ++ value).toList = (toString pk).toList ++ '|' :: value.toList := by
    rw [String.toList_append, String.toList_append]
    have hbar : "|".toList = ['|'] := rfl
    rw [hbar, List.append_assoc, List.singleton_append]
  have hbar : '|' ∉ (toString pk).toList := TextCode.notMem_toString_int (fun k heq => by simp at heq) (by decide) pk
  have hdigits : ∀ c ∈ (toString pk).toList, decide (c ≠ '|') = true := fun c hc =>
    decide_eq_true fun heq => hbar (heq ▸ hc)
  have hdrop : (toString pk ++ "|" ++ value).toList.dropWhile (· ≠ '|') = '|' :: value.toList := by
    rw [hraw, List.dropWhile_append_of_pos hdigits]
    rfl
  have htake : (toString pk ++ "|" ++ value).toList.takeWhile (· ≠ '|') = (toString pk).toList := by
    rw [hraw, List.takeWhile_append_of_pos hdigits]
    exact List.append_nil _
  have hdecoded : Base64.decode (encodeCursor pk (some value)).toList = some (Text.bytes (toString pk ++ "|" ++ value)) := by
    rw [encodeCursor, String.toList_ofList, Base64.decode_encode, Option.getD_some]
  have hparse : Text.parseSigned (2 ^ 63) (toString pk).toList = some pk := Text.parseSigned_toString hlower (by exact_mod_cast hupper)
  simp only [decodeCursor, hdecoded, Text.ofBytes?_bytes, hdrop, htake, hparse, String.ofList_toList]

omit [Parse] in
theorem cursorPk_of_lookup {ι : Type} {decoding : Decoding ι} {item : ι} {pk : Int}
    (h : (decoding.fieldValues item).lookup pkField = some (.i64 pk)) : cursorPk decoding pkField item = pk := by
  rw [cursorPk, h]

/-! ### Values of a field -/

/-- The kinds of fields whose values are texts. -/
def IsTextual : FieldKind → Bool
  | .integer | .bigInt | .float | .boolean | .dateTime => false
  | _ => true

/-- The values of a field that may have a cursor: whole numbers, booleans and texts. -/
inductive Orderable : FieldKind → Value → Prop
  | integer {n : Int} : -2 ^ 63 ≤ n → n < 2 ^ 63 → Orderable .integer (.i64 n)
  | bigInt {n : Int} : -2 ^ 63 ≤ n → n < 2 ^ 63 → Orderable .bigInt (.i64 n)
  | boolean (b : Bool) : Orderable .boolean (.bool b)
  | text {kind : FieldKind} (s : String) : IsTextual kind = true → Orderable kind (.text s)
  | noInteger : Orderable .integer .null
  | noBigInt : Orderable .bigInt .null
  | noBoolean : Orderable .boolean .null

/-- The cells that no cursor tells. -/
def Blank (c : Cell) : Prop := c = .null ∨ c = .text ""

variable [Fmt] {field : FieldMeta} {name : String} {v : Value}

theorem parse_display (hknown : m.field? name = some field) (h : Orderable field.kind v) :
    (v.toBind.cell = .null ∧ parseFilterValue m name v.display = none) ∨
      v.toBind.cell ≠ .null ∧ parseFilterValue m name v.display = some v := by
  rw [parseFilterValue, hknown]
  dsimp only
  generalize field.kind = kind at h
  cases h with
  | @integer n hlower hupper | @bigInt n hlower hupper =>
    have hn : Text.parseSigned (2 ^ 63) (toString n).toList = some n := Text.parseSigned_toString hlower (by exact_mod_cast hupper)
    refine .inr ⟨(fun h => by cases h), ?_⟩
    rw [Value.display]
    dsimp only
    rw [hn]
    rfl
  | boolean b =>
    refine .inr ⟨(fun h => by cases h), ?_⟩
    cases b <;> rfl
  | @text kind s hkind =>
    refine .inr ⟨(fun h => by cases h), ?_⟩
    rw [Value.display]
    cases kind <;> first | rfl | cases hkind
  | noInteger | noBigInt | noBoolean =>
    refine .inl ⟨rfl, ?_⟩
    rw [Value.display]
    rfl

omit [Parse] in
theorem display_eq_nil {kind : FieldKind} (h : Orderable kind v) : v.display.toList = [] ↔ v.toBind.cell = .text "" := by
  cases h with
  | @integer n _ _ | @bigInt n _ _ =>
    refine iff_of_false (fun heq => ?_) (fun heq => by cases heq)
    have hread : Text.parseSigned (n.natAbs + 1) (toString n).toList = some n := Text.parseSigned_toString (by omega) (by omega)
    rw [Value.display] at heq
    rw [heq] at hread
    cases hread
  | boolean b =>
    rw [Value.display]
    cases b <;> exact iff_of_false (List.cons_ne_nil _ _) (fun heq => by cases heq)
  | @text _ s _ =>
    rw [Value.display]
    constructor
    · intro heq
      have hempty : s = "" := by rw [← String.toList_inj, heq]; rfl
      rw [hempty]
      rfl
    · intro heq
      have hempty : s = "" := by cases heq; rfl
      rw [hempty]
      rfl
  | noInteger | noBigInt | noBoolean =>
    rw [Value.display]
    exact iff_of_false (List.cons_ne_nil _ _) (fun heq => by cases heq)

/-- A cursor tells the value and the key that it was made of, but for NULL and an empty text. -/
theorem positionOf_encodeCursor (hknown : m.field? name = some field) {pk : Int} (hlower : -2 ^ 63 ≤ pk) (hupper : pk < 2 ^ 63)
    (h : Orderable field.kind v) :
    (Blank v.toBind.cell ∧ positionOf m name (encodeCursor pk (some v.display)) = none) ∨
      ¬Blank v.toBind.cell ∧ positionOf m name (encodeCursor pk (some v.display)) = some (v, pk) := by
  rw [positionOf, decodeCursor_encodeCursor hlower hupper]
  by_cases hempty : v.display.toList = []
  · rw [if_pos hempty]
    exact .inl ⟨.inr ((display_eq_nil h).mp hempty), rfl⟩
  · rw [if_neg hempty]
    dsimp only
    rcases parse_display hknown h with ⟨hnull, hparse⟩ | ⟨hvalue, hparse⟩
    · rw [hparse]
      exact .inl ⟨.inl hnull, rfl⟩
    · rw [hparse]
      exact .inr ⟨(fun hblank => hblank.elim hvalue fun htext => hempty ((display_eq_nil h).mpr htext)), rfl⟩

end Cursors

/-! ### Beyond a position -/

section Positions
variable {κ : Type} [LinearOrder κ] {rank : Cell → κ} {S : Server} {orderColumn pkColumn : String} {descending : Bool}

/-- Of two positions, one lies beyond the other. What lies beyond the later one lies beyond both. -/
theorem beyond_nested (law : Ranks rank S) (position position' : Value × Int) :
    (∀ r, Beyond S orderColumn pkColumn descending position r = true →
      Beyond S orderColumn pkColumn descending position' r = true) ∨
    ∀ r, Beyond S orderColumn pkColumn descending position' r = true →
      Beyond S orderColumn pkColumn descending position r = true := by
  have hbeyond : ∀ (p : Value × Int) r, Beyond S orderColumn pkColumn descending p r = true ↔
      (r.lookup orderColumn).getD .null ≠ .null ∧ p.1.toBind.cell ≠ .null ∧
        (Follows rank descending ((r.lookup orderColumn).getD .null) p.1.toBind.cell ∨
          rank ((r.lookup orderColumn).getD .null) = rank p.1.toBind.cell ∧
            (r.lookup pkColumn).getD .null ≠ .null ∧
              Follows rank descending ((r.lookup pkColumn).getD .null) (.i64 p.2)) := fun p r => by
    rw [Beyond, Bool.or_eq_true, Bool.and_eq_true, compares_follows law, compares_iff law law.eq, compares_follows law,
      decide_eq_true_eq]
    constructor
    · rintro (⟨hr, hp, h⟩ | ⟨⟨hr, hp, h⟩, hk, -, h'⟩)
      · exact ⟨hr, hp, .inl h⟩
      · exact ⟨hr, hp, .inr ⟨h, hk, h'⟩⟩
    · rintro ⟨hr, hp, h | ⟨h, hk, h'⟩⟩
      · exact .inl ⟨hr, hp, h⟩
      · exact .inr ⟨⟨hr, hp, h⟩, hk, (fun h => by cases h), h'⟩
  by_cases hnull : position.1.toBind.cell = .null
  · exact .inl fun r h => absurd hnull ((hbeyond _ _).mp h).2.1
  by_cases hnull' : position'.1.toBind.cell = .null
  · exact .inr fun r h => absurd hnull' ((hbeyond _ _).mp h).2.1
  have htrans : ∀ a b c : Cell, Follows rank descending a b → Follows rank descending b c → Follows rank descending a c := by
    intro a b c h h'
    cases descending with
    | false => exact lt_trans h' h
    | true => exact lt_trans h h'
  have hcongr : ∀ a b c : Cell, rank b = rank c → Follows rank descending a b → Follows rank descending a c := by
    intro a b c heq h
    rw [Follows] at h ⊢
    rwa [← heq]
  -- Positions are in the order of their values and keys.
  have hlater : ∀ p p' : Value × Int, p.1.toBind.cell ≠ .null → p'.1.toBind.cell ≠ .null →
      (Follows rank descending p.1.toBind.cell p'.1.toBind.cell ∨ rank p.1.toBind.cell = rank p'.1.toBind.cell ∧
        ¬Follows rank descending (.i64 p'.2) (.i64 p.2)) →
      ∀ r, Beyond S orderColumn pkColumn descending p r = true → Beyond S orderColumn pkColumn descending p' r = true := by
    intro p p' _ hp' hor r h
    obtain ⟨hr, _, h⟩ := (hbeyond p r).mp h
    refine (hbeyond p' r).mpr ⟨hr, hp', ?_⟩
    rcases hor with hfollows | ⟨heq, hkeys⟩
    · rcases h with h | ⟨h, -⟩
      · exact .inl (htrans _ _ _ h hfollows)
      · refine .inl ?_
        rw [Follows] at hfollows ⊢
        rwa [h]
    · rcases h with h | ⟨h, hk, h'⟩
      · exact .inl (hcongr _ _ _ heq h)
      · refine .inr ⟨h.trans heq, hk, ?_⟩
        by_cases hsame : Follows rank descending (.i64 p.2) (.i64 p'.2)
        · exact htrans _ _ _ h' hsame
        · exact hcongr _ _ _ ((not_follows_iff descending).mp ⟨hsame, hkeys⟩) h'
  by_cases hfollows : Follows rank descending position.1.toBind.cell position'.1.toBind.cell
  · exact .inl (hlater _ _ hnull hnull' (.inl hfollows))
  by_cases hfollows' : Follows rank descending position'.1.toBind.cell position.1.toBind.cell
  · exact .inr (hlater _ _ hnull' hnull (.inl hfollows'))
  have heq := (not_follows_iff descending).mp ⟨hfollows, hfollows'⟩
  by_cases hkeys : Follows rank descending (.i64 position'.2) (.i64 position.2)
  · refine .inr (hlater _ _ hnull' hnull (.inr ⟨heq.symm, fun h => ?_⟩))
    cases descending with
    | false => exact lt_asymm h hkeys
    | true => exact lt_asymm h hkeys
  · exact .inl (hlater _ _ hnull hnull' (.inr ⟨heq, hkeys⟩))

end Positions

/-! ### A list that is read by cursors -/

/-- Rows of a list are told by what they look like, where no two of its rows look alike. -/
theorem eq_of_map_eq {α β : Type} {f : α → β} {items rows rows' : List α} (hinj : ∀ r ∈ items, ∀ r' ∈ items, f r = f r' → r = r')
    (hrows : ∀ r ∈ rows, r ∈ items) (hrows' : ∀ r ∈ rows', r ∈ items) (h : rows.map f = rows'.map f) : rows = rows' := by
  induction rows generalizing rows' with
  | nil => exact (List.map_eq_nil_iff.mp h.symm).symm
  | cons r rows ih =>
    cases rows' with
    | nil => cases h
    | cons r' rows' =>
      obtain ⟨hfirst, hrest⟩ := List.cons.inj h
      obtain ⟨hr, hrows⟩ := List.forall_mem_cons.mp hrows
      obtain ⟨hr', hrows'⟩ := List.forall_mem_cons.mp hrows'
      rw [hinj r hr r' hr' hfirst, ih hrows hrows' hrest]

section Lists
variable [Fmt] [Wire] {κ : Type} [LinearOrder κ] {m : Model}

/-- What a client reads that asks for page after page, from a cursor on. -/
inductive Walks {ρ : Type} (answer : Option String → Except Failure (Envelope ρ)) : Option String → List ρ → Prop
  | last {cursor : Option String} {total : Int} {results : List ρ} :
      answer cursor = .ok (.cursor total results none) → Walks answer cursor results
  | more {cursor : Option String} {total : Int} {results : List ρ} {next : String} {rest : List ρ} :
      answer cursor = .ok (.cursor total results (some next)) → Walks answer (some next) rest →
      Walks answer cursor (results ++ rest)

/-- The request with a cursor. -/
def withCursor (params : QueryParams) (cursor : Option String) : QueryParams := Function.update params "cursor" cursor

/-- A list endpoint that pages by cursors, over rows that can be read. Its requests filter and order in one way, whatever the
    cursor is. -/
structure CursorList (rank : Cell → κ) (S : Server) (db : Tables Cell) (fromRow : Row Cell → Except OrmError m.Instance)
    (read : Row Cell → m.Instance) (options : ViewSetOptions m) (params : QueryParams) where
  ordered : Ordered m.info
  columns : List (String × Bool)
  field : FieldMeta
  descending : Bool
  pk : FieldMeta
  size : Nat
  ranks : Ranks rank S
  byCursor : options.config.cursorPagination = true
  prepared : ∀ cursor, ViewSet.prepare options (withCursor params cursor) = .ok ordered
  sized : ∀ cursor, options.pagination.pageSize (withCursor params cursor) = size
  positive : 0 < size
  bounded : size + 1 < 2 ^ 63
  orderedBy : ordered.qs.orderBy = columns.map fun c => ("\"" ++ c.1 ++ "\"", c.2)
  cursorOrdering : ordered.cursorOrdering = some (field.name, descending)
  known : m.info.field? field.name = some field
  plain : stripDash field.name = (field.name, false)
  primaryKey : m.info.primaryKey? = some pk
  knownKey : m.info.field? pk.name = some pk
  plainKey : stripDash pk.name = (pk.name, false)
  reads : ∀ r ∈ db m.info.tableName, fromRow r = .ok (read r)
  keys : ∀ r ∈ db m.info.tableName, ∃ k, r.lookup pk.columnName = some (.i64 k)
  distinct : (db m.info.tableName).Pairwise fun r r' => r.lookup pk.columnName ≠ r'.lookup pk.columnName

variable {rank : Cell → κ} {S : Server} {db : Tables Cell} {fromRow : Row Cell → Except OrmError m.Instance}
  {read : Row Cell → m.Instance} {options : ViewSetOptions m} {params : QueryParams}

namespace CursorList
variable (L : CursorList rank S db fromRow read options params)

/-- The columns that the rows are ordered by. -/
def order : List (String × Bool) :=
  L.columns ++ [(L.field.columnName, L.descending), (L.pk.columnName, L.descending)]

/-- The rows that the request asks for, in its order. -/
def items : List (Row Cell) :=
  S.arrange (L.order.map fun c => ("\"" ++ c.1 ++ "\"", c.2)) (matching S db L.ordered)

/-- The rows that a position leaves. -/
def left (position : Value × Int) (r : Row Cell) : Bool :=
  Beyond S L.field.columnName L.pk.columnName L.descending position r

/-- The cursor behind a row. -/
def cursor (r : Row Cell) : String := cursorAfter (instances m fromRow) L.field.name L.pk.name (read r)

/-- The position behind a row, as its cursor tells it. -/
def position (r : Row Cell) : Option (Value × Int) := positionOf m.info L.field.name (L.cursor r)

/-- The answer to a request with a cursor. -/
def answer (_ : CursorList rank S db fromRow read options params) (cursor : Option String) :
    Except Failure (Envelope (Json F64)) :=
  ViewSet.listWithOptions S db fromRow options (withCursor params cursor)

variable {L}

theorem mem_items {r : Row Cell} (h : r ∈ L.items) : r ∈ db m.info.tableName :=
  (List.mem_filter.mp ((S.arrange_perm _ _).mem_iff.mp h)).1

omit [Fmt] in
theorem distinct_keys {r r' : Row Cell} (hr : r ∈ db m.info.tableName) (hr' : r' ∈ db m.info.tableName)
    (hne : r.lookup L.pk.columnName ≠ r'.lookup L.pk.columnName) :
    SortsBefore S.dialect rank L.order r r' ∨ SortsBefore S.dialect rank L.order r' r := by
  obtain ⟨_, hk⟩ := L.keys r hr
  obtain ⟨_, hk'⟩ := L.keys r' hr'
  have hlast :
      SortsBefore S.dialect rank [(L.field.columnName, L.descending), (L.pk.columnName, L.descending)] r r' ∨
        SortsBefore S.dialect rank [(L.field.columnName, L.descending), (L.pk.columnName, L.descending)] r' r :=
    sortsBefore_or L.ranks hk hk' hne
  rw [order]
  induction L.columns with
  | nil => exact hlast
  | cons column columns ih =>
    by_cases h : SortsBy S.dialect rank column r r'
    · exact .inl (.inl h)
    by_cases h' : SortsBy S.dialect rank column r' r
    · exact .inr (.inl h')
    exact ih.imp (.inr ⟨h', ·⟩) (.inr ⟨h, ·⟩)

omit [Fmt] in
/-- Rows of the table that are arranged stand in one order. -/
theorem arranged_sorted {rows : List (Row Cell)} (h : rows.Sublist (db m.info.tableName)) :
    (S.arrange (L.order.map fun c => ("\"" ++ c.1 ++ "\"", c.2)) rows).Pairwise (SortsBefore S.dialect rank L.order) := by
  have htold : rows.Pairwise fun r r' => SortsBefore S.dialect rank L.order r r' ∨ SortsBefore S.dialect rank L.order r' r :=
    (L.distinct.sublist h).imp_of_mem fun hr hr' hne => distinct_keys (h.subset hr) (h.subset hr') hne
  exact Lexico.sorted_of_distinct (L.ranks.arrange L.order rows)
    (((S.arrange_perm _ _).pairwise_iff fun h => h.symm).mpr htold)

/-- A filter of the rows is arranged as the rows are. -/
theorem arrange_filter (p : Row Cell → Bool) :
    S.arrange (L.order.map fun c => ("\"" ++ c.1 ++ "\"", c.2)) ((matching S db L.ordered).filter p) = L.items.filter p := by
  have hsub : (matching S db L.ordered).Sublist (db m.info.tableName) := List.filter_sublist
  refine Lexico.sorted_unique sortsBefore_asymm ?_ (arranged_sorted (List.filter_sublist.trans hsub))
    ((arranged_sorted hsub).filter _)
  exact (S.arrange_perm _ _).trans ((S.arrange_perm _ _).filter p).symm

theorem nodup_items : L.items.Nodup := by
  have hsorted : L.items.Pairwise (SortsBefore S.dialect rank L.order) := arranged_sorted List.filter_sublist
  refine hsorted.imp fun {r r'} h heq => ?_
  rw [heq] at h
  exact sortsBefore_asymm _ _ h h

/-! ### Requests -/

/-- The query set beyond a position. -/
def beyond (L : CursorList rank S db fromRow read options params) : Option (Value × Int) → QuerySet m.info
  | none => L.ordered.qs
  | some position => { L.ordered.qs with
      filters := L.ordered.qs.filters ++
        [afterFilter L.field.name position.1 L.pk.name position.2 L.descending] }

/-- The rows from a cursor on. -/
def rows (L : CursorList rank S db fromRow read options params) (position : Option (Value × Int)) : List (Row Cell) :=
  Paging.remaining L.items L.left position

omit [Fmt] in
theorem fieldToCol_field : fieldToCol m.info L.field.name = .column L.field.columnName := by rw [fieldToCol, L.known]

omit [Fmt] in
theorem fieldToCol_pk : fieldToCol m.info L.pk.name = .column L.pk.columnName := by rw [fieldToCol, L.knownKey]

omit [Fmt] in
theorem after_eq (position : Value × Int) :
    L.ordered.qs.after L.field.name position.1 L.pk.name position.2 L.descending = .ok (L.beyond (some position)) := by
  have hknown : ∀ {name : String} {field : FieldMeta}, m.info.field? name = some field → checkFieldMeta m.info name = .ok name :=
    fun {name field} h => by
      have hname : (field.name == name) = true := List.find?_some (p := fun f : FieldMeta => f.name == name) h
      have hany : m.info.fields.any (·.name == name) = true := List.any_eq_true.mpr ⟨field, List.mem_of_find?_eq_some h, hname⟩
      rw [checkFieldMeta, hany, Bool.true_or, if_pos rfl]
  rw [QuerySet.after, hknown L.known, hknown L.knownKey]
  rfl

omit [Fmt] [Wire] in
theorem order_of_field {qs : QuerySet m.info} {field : FieldMeta} (hknown : m.info.field? field.name = some field)
    (hplain : stripDash field.name = (field.name, false)) (descending : Bool) :
    qs.order (orderSpec field.name descending) =
      .ok { qs with orderBy := qs.orderBy ++ [("\"" ++ field.columnName ++ "\"", descending)] } := by
  have hspec : stripDash (orderSpec field.name descending) = (field.name, descending) := by
    cases descending with
    | false => exact hplain
    | true =>
      have hdash : ("-" ++ field.name).toList = '-' :: field.name.toList := by
        rw [String.toList_append]
        rfl
      rw [orderSpec, if_pos rfl, stripDash, hdash]
      exact congrArg (·, true) String.ofList_toList
  rw [QuerySet.order, hspec]
  dsimp only
  rw [hknown]

omit [Fmt] in
theorem orderLast_eq (qs : QuerySet m.info) : orderLast qs L.field.name L.pk.name L.descending =
    .ok { qs with orderBy := qs.orderBy ++
      [("\"" ++ L.field.columnName ++ "\"", L.descending), ("\"" ++ L.pk.columnName ++ "\"", L.descending)] } := by
  rw [orderLast, order_of_field L.known L.plain]
  change (internal (QuerySet.order _ (orderSpec L.pk.name L.descending))) = _
  rw [order_of_field L.knownKey L.plainKey, List.append_assoc]
  rfl

omit [Fmt] in
theorem plain_ordered : Windowless L.ordered.qs := windowless_prepare (L.prepared none)

omit [Fmt] in
theorem windowless_beyond (position : Option (Value × Int)) : Windowless (L.beyond position) := by
  cases position with
  | none => exact L.plain_ordered
  | some _ => exact ⟨L.plain_ordered.limit, L.plain_ordered.offset, L.plain_ordered.search⟩

theorem filter_beyond (position : Option (Value × Int)) :
    S.arrange (L.order.map fun c => ("\"" ++ c.1 ++ "\"", c.2)) ((db m.info.tableName).filter ((L.beyond position).keeps S db)) =
      L.rows position := by
  cases position with
  | none => rfl
  | some position =>
    have hkeeps : (db m.info.tableName).filter ((L.beyond (some position)).keeps S db) =
        (matching S db L.ordered).filter (L.left position) := by
      rw [matching, List.filter_filter]
      refine List.filter_congr fun r _ => ?_
      rw [beyond, keeps_concat, afterFilter_truth fieldToCol_field fieldToCol_pk, Bool.and_comm]
      rfl
    rw [hkeeps]
    exact arrange_filter _

/-- The query set of a page, and of one row more. -/
def page (L : CursorList rank S db fromRow read options params) (position : Option (Value × Int)) : QuerySet m.info :=
  { L.beyond position with
    orderBy := L.order.map fun c => ("\"" ++ c.1 ++ "\"", c.2)
    limit := some ((L.size : Int) + 1) }

omit [Fmt] in
theorem orderLast_beyond (position : Option (Value × Int)) : ∃ qs,
    orderLast (L.beyond position) L.field.name L.pk.name L.descending = .ok qs ∧
      qs.withLimit ((L.size : Int) + 1) = L.page position := by
  have horderBy : (L.beyond position).orderBy = L.columns.map fun c => ("\"" ++ c.1 ++ "\"", c.2) := by
    cases position <;> exact L.orderedBy
  refine ⟨_, L.orderLast_eq (L.beyond position), ?_⟩
  rw [QuerySet.withLimit, page, order, List.map_append, horderBy]
  rfl

theorem all_page (position : Option (Value × Int)) :
    all S db (instances m fromRow) (L.page position) = .ok (((L.rows position).take (L.size + 1)).map read) := by
  have hplain := L.windowless_beyond position
  have hsource : (L.page position).orderSource true = L.order.map fun c => ("\"" ++ c.1 ++ "\"", c.2) := by
    have hne : (L.page position).orderBy ≠ [] := fun h =>
      absurd (List.append_eq_nil_iff.mp (List.map_eq_nil_iff.mp h)).2 (List.cons_ne_nil _ _)
    exact if_pos hne
  have hoffset : (L.page position).offset = none := hplain.offset
  have hrows : S.fetch db ((L.page position).select S.dialect) = .ok ((L.rows position).take (L.size + 1)) := by
    have hsearch : (L.page position).searchCondition = none := hplain.search
    rw [fetch_eq hsearch, hsource, hoffset]
    change S.limited (some ((L.size : Int) + 1)) ((S.arrange _ ((db m.info.tableName).filter
      ((L.beyond position).keeps S db))).drop 0) = _
    rw [filter_beyond, List.drop_zero, Server.limited, if_pos (by omega)]
    rfl
  refine Except.bind_eq_ok.mpr ⟨_, hrows, Except.mapM_eq_ok.mpr ?_⟩
  rw [List.forall₂_map_right_iff]
  refine List.forall₂_same.mpr fun r hr => L.reads r ?_
  have hmem := List.mem_of_mem_take hr
  cases position with
  | none => exact mem_items hmem
  | some _ => exact mem_items (List.mem_filter.mp hmem).1

/-- What a row looks like in an answer. -/
def shows (_ : CursorList rank S db fromRow read options params) (r : Row Cell) : Json F64 := shown options read r

/-- The cursor that a page with these rows behind it ends with. -/
def next (L : CursorList rank S db fromRow read options params) (rows : List (Row Cell)) : Option String :=
  if L.size < rows.length then (rows.take L.size).getLast?.map L.cursor else none

theorem answer_eq (cursor : Option String) : L.answer cursor =
    listByCursor S db fromRow options.serializer.toRepresentation (withCursor params cursor) L.size
      (matching S db L.ordered).length L.ordered := by
  have hcount : count S db L.ordered.qs = .ok (matching S db L.ordered).length := by
    rw [count_eq S db L.plain_ordered.search, List.countP_eq_length_filter]
    rfl
  have hprepare : L.answer cursor = (do
      let ordered ← orFailure (ViewSet.prepare options (withCursor params cursor))
      let total ← orFailure (internal (count S db ordered.qs))
      if options.config.cursorPagination then
        listByCursor S db fromRow options.serializer.toRepresentation (withCursor params cursor)
          (options.pagination.pageSize (withCursor params cursor)) total ordered
      else
        let slice ← options.pagination.slice (withCursor params cursor) total
        let items ← orFailure (internal
          (all S db (instances m fromRow) ((ordered.qs.withLimit slice.limit).withOffset slice.offset)))
        options.pagination.envelope (withCursor params cursor) total (items.map options.serializer.toRepresentation)) := by
    rw [ViewSet.prepare, orFailure_bind, bind_assoc]
    simp only [orFailure_bind, bind_assoc]
    rfl
  rw [hprepare, L.prepared, L.sized]
  change (orFailure (internal (count S db L.ordered.qs)) >>= _) = _
  rw [hcount]
  change (if options.config.cursorPagination = true then _ else _) = _
  rw [if_pos L.byCursor]

theorem listByCursor_ok {cursor : Option String} {position : Option (Value × Int)} {total : Int}
    (hqs : (match withCursor params cursor "cursor" with
      | none => (.ok L.ordered.qs : Except Failure (QuerySet m.info))
      | some rawCursor => orFailure (afterCursor L.ordered.qs L.field.name L.pk.name L.descending rawCursor)) =
        .ok (L.beyond position)) :
    listByCursor S db fromRow options.serializer.toRepresentation (withCursor params cursor) L.size total L.ordered =
      .ok (.cursor total (((L.rows position).take L.size).map L.shows) (L.next (L.rows position))) := by
  obtain ⟨last, hlast, hpage⟩ := L.orderLast_beyond position
  have hlimit : i64 ((L.size : Int) + 1) = .ok ((L.size : Int) + 1) := i64_eq (by omega) (by exact_mod_cast L.bounded)
  have hsize : asUsize L.size = L.size := by
    have := L.bounded
    rw [asUsize]
    omega
  have hfetched : orFailure (internal (all S db (instances m fromRow) (last.withLimit ((L.size : Int) + 1)))) =
      .ok (((L.rows position).take (L.size + 1)).map read) := by
    rw [hpage, all_page]
    rfl
  have htake : (((L.rows position).take (L.size + 1)).map read).take L.size = ((L.rows position).take L.size).map read := by
    rw [← List.map_take, List.take_take, Nat.min_eq_left (Nat.le_succ _)]
  have hlength : L.size < (((L.rows position).take (L.size + 1)).map read).length ↔ L.size < (L.rows position).length := by
    rw [List.length_map, List.length_take]
    omega
  have hnarrowed : ∀ next : QuerySet m.info → Except Failure (Envelope (Json F64)),
      (match withCursor params cursor "cursor" with
        | none => (.ok L.ordered.qs : Except Failure (QuerySet m.info)) >>= next
        | some rawCursor => orFailure (afterCursor L.ordered.qs L.field.name L.pk.name L.descending rawCursor) >>= next) =
        next (L.beyond position) := fun next => by
    cases hcursor : withCursor params cursor "cursor" with
    | none =>
      rw [hcursor] at hqs
      rw [Except.ok.inj hqs]
      rfl
    | some raw =>
      rw [hcursor] at hqs
      dsimp only at hqs ⊢
      rw [hqs]
      rfl
  rw [listByCursor]
  refine Except.bind_eq_ok.mpr ⟨(L.field.name, L.descending), by rw [L.cursorOrdering]; rfl, ?_⟩
  refine Except.bind_eq_ok.mpr ⟨L.pk, by rw [L.primaryKey]; rfl, ?_⟩
  refine (hnarrowed _).trans ?_
  refine Except.bind_eq_ok.mpr ⟨last, by rw [hlast]; rfl, ?_⟩
  refine Except.bind_eq_ok.mpr ⟨_, hlimit, Except.bind_eq_ok.mpr ⟨_, hfetched, ?_⟩⟩
  dsimp only
  rw [hsize, htake, List.map_map, List.getLast?_map, Option.map_map, next]
  simp only [hlength]
  rfl

/-- The position that a request asks from: none without a cursor, and no request with a cursor that tells none. -/
def asked (L : CursorList rank S db fromRow read options params) : Option String → Option (Option (Value × Int))
  | none => some none
  | some raw => (positionOf m.info L.field.name raw).map some

theorem answer_ok {cursor : Option String} {position : Option (Value × Int)} (h : L.asked cursor = some position) :
    L.answer cursor = .ok (.cursor (matching S db L.ordered).length (((L.rows position).take L.size).map L.shows)
      (L.next (L.rows position))) := by
  have hcursor : withCursor params cursor "cursor" = cursor := Function.update_self ..
  rw [answer_eq]
  refine listByCursor_ok ?_
  rw [hcursor]
  cases cursor with
  | none =>
    cases h
    rfl
  | some raw =>
    obtain ⟨position, hposition, rfl⟩ := Option.map_eq_some_iff.mp h
    dsimp only
    rw [afterCursor_of_position hposition, after_eq]
    rfl

theorem answer_error {cursor : Option String} (h : L.asked cursor = none) : ∃ e, L.answer cursor = .error e := by
  have hcursor : withCursor params cursor "cursor" = cursor := Function.update_self ..
  cases cursor with
  | none => cases h
  | some raw =>
    obtain ⟨e, he⟩ : ∃ e, afterCursor L.ordered.qs L.field.name L.pk.name L.descending raw = .error e :=
      afterCursor_of_no_position (Option.map_eq_none_iff.mp h)
    refine ⟨.error e, ?_⟩
    rw [answer_eq, listByCursor, L.cursorOrdering, L.primaryKey, hcursor]
    change (orFailure (afterCursor L.ordered.qs L.field.name L.pk.name L.descending raw) >>= _) = _
    rw [he]
    rfl

/-! ### Walks -/

theorem next_eq_none {rows : List (Row Cell)} : L.next rows = none ↔ rows.length ≤ L.size := by
  rw [next]
  split
  · rename_i h
    have hne : rows.take L.size ≠ [] := List.length_pos_iff.mp (by rw [List.length_take]; have := L.positive; omega)
    rw [List.getLast?_eq_some_getLast hne, Option.map_some]
    exact ⟨(fun h => by cases h), fun hle => absurd hle (by omega)⟩
  · rename_i h
    exact ⟨fun _ => by omega, fun _ => rfl⟩

theorem next_eq_some {rows : List (Row Cell)} {cursor : String} : L.next rows = some cursor ↔
    L.size < rows.length ∧ ∃ r, (rows.take L.size).getLast? = some r ∧ L.cursor r = cursor := by
  rw [next]
  split
  · rename_i h
    rw [Option.map_eq_some_iff, and_iff_right h]
  · rename_i h
    exact ⟨(fun h' => by cases h'), fun h' => absurd h'.1 h⟩

/-- The pages of a walk are those that the positions of the cursors tell. -/
theorem walks_iff {cursor : Option String} {results : List (Json F64)} : Walks L.answer cursor results ↔
    ∃ position rows, L.asked cursor = some position ∧
      Paging.Visits L.items L.size L.position L.left position rows ∧ results = rows.map L.shows := by
  constructor
  · intro h
    induction h with
    | @last cursor total results h =>
      cases hasked : L.asked cursor with
      | none =>
        obtain ⟨e, he⟩ := answer_error hasked
        rw [he] at h
        cases h
      | some position =>
        rw [answer_ok hasked] at h
        obtain ⟨-, hresults, hnext⟩ := Envelope.cursor.inj (Except.ok.inj h)
        have hle := next_eq_none.mp hnext
        exact ⟨position, _, rfl, .last hle, by rw [← hresults, List.take_of_length_le hle]; rfl⟩
    | @more cursor total results next rest h _ ih =>
      obtain ⟨position', rows, hasked', hvisits, rfl⟩ := ih
      cases hasked : L.asked cursor with
      | none =>
        obtain ⟨e, he⟩ := answer_error hasked
        rw [he] at h
        cases h
      | some position =>
        rw [answer_ok hasked] at h
        obtain ⟨-, hresults, hnext⟩ := Envelope.cursor.inj (Except.ok.inj h)
        obtain ⟨hlt, r, hlast, hcursor⟩ := next_eq_some.mp hnext
        obtain ⟨told, htold, rfl⟩ := Option.map_eq_some_iff.mp hasked'
        have hposition : L.position r = some told := by rw [CursorList.position, hcursor, htold]
        refine ⟨position, _, rfl, .more hlt hlast hposition hvisits, ?_⟩
        rw [List.map_append, ← hresults]
        rfl
  · rintro ⟨position, rows, hasked, hvisits, rfl⟩
    induction hvisits generalizing cursor with
    | @last position hle =>
      have hanswer := answer_ok hasked
      have hrows : (L.rows position).length ≤ L.size := hle
      rw [next_eq_none.mpr hrows, List.take_of_length_le hrows] at hanswer
      exact .last hanswer
    | @more position r told rest hlt hlast hposition _ ih =>
      have hanswer := answer_ok hasked
      have hnext : L.next (L.rows position) = some (L.cursor r) := next_eq_some.mpr ⟨hlt, r, hlast, rfl⟩
      rw [hnext] at hanswer
      have hasked' : L.asked (some (L.cursor r)) = some (some told) := congrArg (Option.map some) hposition
      rw [List.map_append]
      exact .more hanswer (ih hasked')

/-- The rows of a walk are rows of the table. -/
theorem mem_of_visits {position : Option (Value × Int)} {rows : List (Row Cell)}
    (h : Paging.Visits L.items L.size L.position L.left position rows) : ∀ r ∈ rows, r ∈ L.items := by
  have hrows : ∀ position, ∀ r ∈ Paging.remaining L.items L.left position, r ∈ L.items := fun position r hr => by
    cases position with
    | none => exact hr
    | some _ => exact (List.mem_filter.mp hr).1
  induction h with
  | last _ => exact hrows _
  | more _ _ _ _ ih => exact List.forall_mem_append.mpr ⟨fun r hr => hrows _ r (List.mem_of_mem_take hr), ih⟩

theorem nested : Paging.Nested L.items L.left := fun position position' =>
  (beyond_nested L.ranks position position').imp (fun h r _ => h r) (fun h r _ => h r)

/-- A walk shows the rows, each once and in order, exactly when each page but the last ends with a cursor that leaves the rows
    behind it. -/
theorem walk_complete_iff (hshown : (L.items.map L.shows).Nodup) : Walks L.answer none (L.items.map L.shows) ↔
    ∀ k, 0 < k → k * L.size < L.items.length → Paging.CutsAt L.items L.position L.left (k * L.size) := by
  rw [← Paging.visits_iff nodup_items L.positive nested, walks_iff]
  constructor
  · rintro ⟨position, rows, hasked, hvisits, heq⟩
    cases hasked
    have hrows : rows = L.items :=
      eq_of_map_eq (List.inj_on_of_nodup_map hshown) (mem_of_visits hvisits) (fun _ => id) heq.symm
    rwa [hrows] at hvisits
  · intro h
    exact ⟨none, _, rfl, h, rfl⟩

/-! ### Pages that end with a cursor -/

/-- The value that a row is ordered by. -/
def value (L : CursorList rank S db fromRow read options params) (r : Row Cell) : Cell :=
  (r.lookup L.field.columnName).getD .null

/-- The instances of a model have the keys and the values of their rows. -/
structure Kept (L : CursorList rank S db fromRow read options params) : Prop where
  key : ∀ r ∈ db m.info.tableName, ∃ k, -2 ^ 63 ≤ k ∧ k < 2 ^ 63 ∧ r.lookup L.pk.columnName = some (.i64 k) ∧
    (m.fieldValues (read r)).lookup L.pk.name = some (.i64 k)
  value : ∀ r ∈ db m.info.tableName, ∃ v, Orderable L.field.kind v ∧
    (m.fieldValues (read r)).lookup L.field.name = some v ∧ v.toBind.cell = L.value r

theorem position_told (kept : L.Kept) {r : Row Cell} (hr : r ∈ db m.info.tableName) :
    (Blank (L.value r) ∧ L.position r = none) ∨
      ¬Blank (L.value r) ∧ ∃ v k, L.position r = some (v, k) ∧ v.toBind.cell = L.value r ∧
        r.lookup L.pk.columnName = some (.i64 k) := by
  obtain ⟨k, hlower, hupper, hkey, hread⟩ := kept.key r hr
  obtain ⟨v, horderable, hvalue, hcell⟩ := kept.value r hr
  have hcursor : L.cursor r = encodeCursor k (some v.display) := by
    have hpk : cursorPk (instances m fromRow) L.pk.name (read r) = k := cursorPk_of_lookup hread
    have hdisplay : ((instances m fromRow).fieldValues (read r)).lookup L.field.name = some v := hvalue
    rw [cursor, cursorAfter, hpk, hdisplay]
    rfl
  rw [position, hcursor, ← hcell]
  rcases positionOf_encodeCursor L.known hlower hupper horderable with ⟨hblank, hposition⟩ | ⟨hvalue, hposition⟩
  · exact .inl ⟨hblank, hposition⟩
  · exact .inr ⟨hvalue, v, k, hposition, rfl, hkey⟩

theorem filter_eq_drop_iff {k : Nat} {p : Row Cell → Bool} :
    L.items.filter p = L.items.drop k ↔ ∀ r ∈ L.items, p r = true ↔ r ∈ L.items.drop k := by
  constructor
  · intro h r hr
    rw [← h, List.mem_filter, and_iff_right hr]
  · intro h
    exact @Paging.filter_eq_drop _ Unit L.items (fun _ => p) () k (fun r hr => (h r hr).mp)
      (fun r hr => (h r (List.mem_of_mem_drop hr)).mpr hr) nodup_items

/-- The cursor behind a row leaves the rows behind it exactly when these are the rows that it sorts before, and neither its
    value nor theirs is missing. -/
theorem cutsAt_iff (kept : L.Kept) {k : Nat} {r : Row Cell} (hr : L.items[k - 1]? = some r) :
    Paging.CutsAt L.items L.position L.left k ↔ ¬Blank (L.value r) ∧ ∀ r' ∈ L.items, r' ∈ L.items.drop k ↔
      SortsBefore S.dialect rank [(L.field.columnName, L.descending), (L.pk.columnName, L.descending)] r r' ∧
        L.value r' ≠ .null := by
  have hmem := mem_items (List.mem_of_getElem? hr)
  have hcuts : Paging.CutsAt L.items L.position L.left k ↔ ∃ c, L.position r = some c ∧ L.items.filter (L.left c) = L.items.drop k := by
    constructor
    · rintro ⟨r', c, hr', h⟩
      rw [hr] at hr'
      cases hr'
      exact ⟨c, h⟩
    · rintro ⟨c, h⟩
      exact ⟨r, c, hr, h⟩
  rw [hcuts]
  rcases position_told kept hmem with ⟨hblank, hposition⟩ | ⟨hvalue, v, key, hposition, hcell, hkey⟩
  · rw [hposition]
    exact iff_of_false (fun ⟨c, hc, _⟩ => by cases hc) fun h => h.1 hblank
  · have hleft : ∀ r' ∈ L.items, L.left (v, key) r' = true ↔
        SortsBefore S.dialect rank [(L.field.columnName, L.descending), (L.pk.columnName, L.descending)] r r' ∧
          L.value r' ≠ .null := fun r' hr' => by
      obtain ⟨key', hkey'⟩ := L.keys r' (mem_items hr')
      rw [left, beyond_iff L.ranks hkey hkey' hcell]
      exact and_congr_right fun _ => and_iff_right fun h => hvalue (.inl h)
    rw [hposition]
    constructor
    · rintro ⟨c, hc, h⟩
      cases hc
      exact ⟨hvalue, fun r' hr' => (filter_eq_drop_iff.mp h r' hr').symm.trans (hleft r' hr')⟩
    · intro h
      exact ⟨_, rfl, filter_eq_drop_iff.mpr fun r' hr' => (hleft r' hr').trans (h.2 r' hr').symm⟩

/-- The rows behind a row are those that it sorts before. -/
theorem mem_drop_iff {k : Nat} {r : Row Cell} (hr : L.items[k - 1]? = some r) (hk : 0 < k) {r' : Row Cell} (hr' : r' ∈ L.items) :
    r' ∈ L.items.drop k ↔ SortsBefore S.dialect rank L.order r r' := by
  have hsorted : L.items.Pairwise (SortsBefore S.dialect rank L.order) := arranged_sorted List.filter_sublist
  obtain ⟨hlt, hget⟩ := List.getElem?_eq_some_iff.mp hr
  have hsplit : L.items.take (k - 1) ++ r :: L.items.drop k = L.items := by
    have hdrop : L.items.drop (k - 1) = r :: L.items.drop k := by
      rw [List.drop_eq_getElem_cons hlt, hget, Nat.sub_add_cancel hk]
    rw [← hdrop, List.take_append_drop]
  have hfollows := Lexico.filter_follows sortsBefore_asymm (hsplit.symm ▸ hsorted)
  rw [hsplit] at hfollows
  rw [← hfollows, List.mem_filter, and_iff_right hr', decide_eq_true_eq]

theorem cutsAt_single_iff (kept : L.Kept) (hsingle : L.columns = [(L.field.columnName, L.descending)]) {k : Nat} {r : Row Cell}
    (hr : L.items[k - 1]? = some r) (hk : 0 < k) : Paging.CutsAt L.items L.position L.left k ↔
      ¬Blank (L.value r) ∧ ∀ r' ∈ L.items.drop k, L.value r' ≠ .null := by
  have horder : ∀ r', SortsBefore S.dialect rank L.order r r' ↔
      SortsBefore S.dialect rank [(L.field.columnName, L.descending), (L.pk.columnName, L.descending)] r r' := fun r' => by
    rw [order, hsingle]
    exact Lexico.precedes_repeated
  rw [cutsAt_iff kept hr]
  refine and_congr_right fun _ => ⟨fun h r' hr' => ((h r' (List.mem_of_mem_drop hr')).mp hr').2, fun h r' hr' => ?_⟩
  rw [← horder, ← mem_drop_iff hr hk hr']
  exact ⟨fun hdrop => ⟨hdrop, h r' hdrop⟩, And.left⟩

/-- The row that a page ends with. -/
theorem exists_last {k : Nat} (h : k < L.items.length) : ∃ r, L.items[k - 1]? = some r :=
  ⟨L.items[k - 1], List.getElem?_eq_getElem (by omega)⟩

/-- A client that asks for page after page reads the rows, each once and in order, exactly when every page but the last ends
    with a row whose value is not missing and that sorts, by its value and key alone, before just the rows behind it, whose
    values are not missing either. Where the request orders by one field, this is so unless a value is missing where a page
    ends or behind the first page. -/
theorem cursor_walk (kept : L.Kept) (hshown : (L.items.map L.shows).Nodup) :
    (Walks L.answer none (L.items.map L.shows) ↔
      ∀ k r, 0 < k → k * L.size < L.items.length → L.items[k * L.size - 1]? = some r →
        ¬Blank (L.value r) ∧ ∀ r' ∈ L.items, r' ∈ L.items.drop (k * L.size) ↔
          SortsBefore S.dialect rank [(L.field.columnName, L.descending), (L.pk.columnName, L.descending)] r r' ∧
            L.value r' ≠ .null) ∧
    (L.columns = [(L.field.columnName, L.descending)] → (Walks L.answer none (L.items.map L.shows) ↔
      (∀ k r, 0 < k → k * L.size < L.items.length → L.items[k * L.size - 1]? = some r → ¬Blank (L.value r)) ∧
        ∀ r ∈ L.items.drop L.size, L.value r ≠ .null)) := by
  rw [walk_complete_iff hshown]
  constructor
  · constructor
    · intro h k r hk hlt hr
      exact (cutsAt_iff kept hr).mp (h k hk hlt)
    · intro h k hk hlt
      obtain ⟨r, hr⟩ := exists_last hlt
      exact (cutsAt_iff kept hr).mpr (h k r hk hlt hr)
  · intro hsingle
    constructor
    · intro h
      refine ⟨fun k r hk hlt hr => ((cutsAt_single_iff kept hsingle hr (Nat.mul_pos hk L.positive)).mp (h k hk hlt)).1,
        fun r hr => ?_⟩
      have hlt : 1 * L.size < L.items.length := by
        have := List.length_pos_of_mem hr
        rw [List.length_drop] at this
        omega
      obtain ⟨last, hlast⟩ := exists_last hlt
      refine ((cutsAt_single_iff kept hsingle hlast (Nat.mul_pos Nat.one_pos L.positive)).mp (h 1 Nat.one_pos hlt)).2 r ?_
      rwa [Nat.one_mul]
    · rintro ⟨hlast, hbehind⟩ k hk hlt
      obtain ⟨r, hr⟩ := exists_last hlt
      refine (cutsAt_single_iff kept hsingle hr (Nat.mul_pos hk L.positive)).mpr ⟨hlast k r hk hlt hr, fun r' hr' => ?_⟩
      exact hbehind r' ((List.drop_subset_drop_left L.items (Nat.le_mul_of_pos_left L.size hk)) hr')

end CursorList
end Lists

/-! ### Games -/

section Games
attribute [local instance] Wire.integers Fmt.decimal

def gameModel : Model := ⟨gameMeta, Int × Int, fun game => [("id", .i64 game.1), ("score", .i64 game.2)]⟩

def integerAt (column : String) (r : Row Cell) : Int :=
  match r.lookup column with
  | some (.i64 n) => n
  | _ => 0

def readGame (r : Row Cell) : Int × Int := (integerAt "id" r, integerAt "score" r)

def scored : Tables Cell := games [.i64 3, .i64 5, .i64 3]

/-- The list of games, two a page and by their scores. -/
def byScore : CursorList (m := gameModel) intRank (rankedServer .postgres) scored (fun r => .ok (readGame r)) readGame
    { config := { orderableFields := ["score"], cursorPagination := true }, pagination := .pageNumber 2 none }
    (fun name => if name = "ordering" then some "score" else none) where
  ordered := ⟨{ orderBy := [("\"score\"", false)] }, some ("score", false)⟩
  columns := [("score", false)]
  field := { name := "score", columnName := "score", kind := .bigInt, nullable := true }
  descending := false
  pk := { name := "id", columnName := "id", kind := .bigInt, primaryKey := true, auto := true }
  size := 2
  ranks := rankedServer_ranks .postgres
  byCursor := rfl
  prepared _ := rfl
  sized _ := rfl
  positive := by decide
  bounded := by decide
  orderedBy := rfl
  cursorOrdering := rfl
  known := rfl
  plain := rfl
  primaryKey := rfl
  knownKey := rfl
  plainKey := rfl
  reads _ _ := rfl
  keys := List.forall_mem_cons.mpr ⟨⟨0, rfl⟩, List.forall_mem_cons.mpr ⟨⟨1, rfl⟩, List.forall_mem_singleton.mpr ⟨2, rfl⟩⟩⟩
  distinct := by decide

def game (id score : Int) : Row Cell := [("id", .i64 id), ("score", .i64 score)]

theorem byScore_items : byScore.items = [game 0 3, game 2 3, game 1 5] := by decide

theorem byScore_kept : byScore.Kept where
  key := List.forall_mem_cons.mpr ⟨⟨0, by decide, by decide, rfl, rfl⟩, List.forall_mem_cons.mpr
    ⟨⟨1, by decide, by decide, rfl, rfl⟩, List.forall_mem_singleton.mpr ⟨2, by decide, by decide, rfl, rfl⟩⟩⟩
  value := List.forall_mem_cons.mpr ⟨⟨.i64 3, .bigInt (by decide) (by decide), rfl, rfl⟩, List.forall_mem_cons.mpr
    ⟨⟨.i64 5, .bigInt (by decide) (by decide), rfl, rfl⟩,
      List.forall_mem_singleton.mpr ⟨.i64 3, .bigInt (by decide) (by decide), rfl, rfl⟩⟩⟩

def firstNumber : Json F64 → Int
  | .object ((_, .int n) :: _) => n
  | _ => 0

theorem byScore_shown : (byScore.items.map byScore.shows).Nodup := by
  rw [byScore_items]
  exact List.Nodup.of_map firstNumber (by decide +kernel)

/-- Two games with one score are read on one page, and the third on the next. -/
theorem byScore_walk : Walks byScore.answer none ([game 0 3, game 2 3, game 1 5].map byScore.shows) := by
  have hlength : byScore.items.length = 3 := by rw [byScore_items]; rfl
  rw [← byScore_items]
  refine ((CursorList.cursor_walk byScore_kept byScore_shown).2 rfl).mpr ⟨fun k r hk hlt hr => ?_, fun r hr => ?_⟩
  · have hone : k = 1 := by
      change k * 2 < _ at hlt
      omega
    rw [byScore_items, hone] at hr
    cases hr
    rintro (h | h) <;> cases h
  · rw [byScore_items] at hr
    cases List.mem_singleton.mp hr
    exact fun h => by cases h

end Games

end Djangors.Rest
