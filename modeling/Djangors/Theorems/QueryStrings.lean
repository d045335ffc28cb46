import Djangors.Http.Request
import Djangors.Lib.Lists

/-! # Two readings of a query string

`Request::query` and the `Query` extractor agree where no plus sign, no escape of bytes that are not UTF-8 and no empty key
is read, and what is encoded comes back where it has no spaces. -/

namespace Djangors.Http
open Urlencoded (strictText? readText marks pieces)

/-! ### Texts -/

/-- A text that is read the same: it has no plus sign, and its escapes are UTF-8. -/
def PlainText (raw : List Char) : Prop := '+' ∉ raw ∧ (strictText? raw).isSome

/-- A text as it stands in a URL: in ASCII, and without spaces. -/
def UrlText (raw : List Char) : Prop := ∀ c ∈ raw, c.toNat < 128 ∧ c ≠ ' '

section Texts
variable (crates : UrlCrates) {raw : List Char}

theorem decode_plain (h : PlainText raw) : crates.decode raw = readText crates.lossy raw := by
  obtain ⟨text, htext⟩ := Option.isSome_iff_exists.mp h.2
  rw [UrlCrates.decode, crates.decodeUtf8_eq, htext, Option.getD_some, (Urlencoded.readText_of_strict htext).2 h.1]

/-- Read by the extractor, a text has no fewer spaces and replacement characters, and as many only if it is plain. -/
theorem marks_decode (hraw : UrlText raw) :
    marks (crates.decode raw) ≤ marks (readText crates.lossy raw) ∧
      (marks (crates.decode raw) = marks (readText crates.lossy raw) → PlainText raw) := by
  rw [UrlCrates.decode, crates.decodeUtf8_eq]
  cases hstrict : strictText? raw with
  | some text =>
    rw [Option.getD_some, (Urlencoded.readText_of_strict hstrict).1]
    refine ⟨Nat.le_add_right .., fun heq => ⟨List.count_eq_zero.mp (by omega), ?_⟩⟩
    rw [hstrict]
    rfl
  | none =>
    have hzero : marks raw = 0 := by
      rw [marks, List.count_eq_zero.mpr fun h => (hraw _ h).2 rfl,
        List.count_eq_zero.mpr fun h => absurd (hraw _ h).1 (by decide)]
    have hpos : 0 < marks (readText crates.lossy raw) := by
      have hmark : '\uFFFD' ∈ readText crates.lossy raw := Urlencoded.readText_of_invalid hstrict
      have hcount := List.count_pos_iff.mpr hmark
      rw [marks]
      omega
    rw [Option.getD_none, hzero]
    exact ⟨Nat.zero_le _, fun h => by omega⟩

theorem decode_eq_nil : crates.decode raw = [] ↔ raw = [] := by
  rw [UrlCrates.decode, crates.decodeUtf8_eq]
  cases hstrict : strictText? raw with
  | none => rfl
  | some text =>
    have hnil : strictText? raw = some [] ↔ raw = [] := Urlencoded.strictText?_eq_nil
    rw [Option.getD_some, ← hnil, hstrict, Option.some_inj]

end Texts

/-! ### Pairs -/

section Pairs
variable (crates : UrlCrates)

/-- A pair as the request reads it. -/
def requestPair (piece : List Char) : List Char × List Char := (splitPair piece).map crates.decode crates.decode

/-- A pair as the extractor reads it. -/
def extractPair (piece : List Char) : List Char × List Char :=
  (readText crates.lossy (splitPair piece).1, readText crates.lossy (splitPair piece).2)

/-- A pair that is read the same. -/
def PlainPiece (piece : List Char) : Prop :=
  (splitPair piece).1 ≠ [] ∧ PlainText (splitPair piece).1 ∧ PlainText (splitPair piece).2

/-- The pairs of a request. -/
def requestPairs (ps : List (List Char)) : List (List Char × List Char) := (ps.map (requestPair crates)).filter (·.1 ≠ [])

theorem parseQuery_eq (q : List Char) : parseQuery crates.decode q = requestPairs crates (pieces q) := by
  rw [parseQuery, requestPairs, pieces]
  induction q.splitOn '&' with
  | nil => rfl
  | cons piece rest ih =>
    by_cases hpiece : piece = []
    · have hnil : (requestPair crates piece).1 = [] := by
        rw [hpiece]
        exact (decode_eq_nil crates).mpr rfl
      rw [List.filter_cons_of_neg (by simpa using hpiece), ← ih, List.map_cons,
        List.filter_cons_of_neg (by simpa [requestPair] using hnil)]
    · rw [List.filter_cons_of_pos (by simpa using hpiece), List.map_cons, List.map_cons, List.filter_cons, List.filter_cons, ih]
      rfl

theorem extract_eq (q : List Char) : crates.fromStr q = (pieces q).map (extractPair crates) := crates.fromStr_eq q

theorem requestPair_plain {piece : List Char} (h : PlainPiece piece) : requestPair crates piece = extractPair crates piece :=
  Prod.ext (decode_plain crates h.2.1) (decode_plain crates h.2.2)

/-- The value that a map has for a key: the last one. -/
def lastOf (entries : List (List Char × List Char)) (key : List Char) : Option (List Char) := entries.reverse.lookup key

theorem lastOf_cons (entry : List Char × List Char) (entries : List (List Char × List Char)) (key : List Char) :
    lastOf (entry :: entries) key = (lastOf entries key).or (if key = entry.1 then some entry.2 else none) := by
  rw [lastOf, List.reverse_cons, List.lookup_append, lastOf]
  congr 1
  rw [List.lookup_singleton]
  simp only [beq_iff_eq]

/-- An entry whose key comes again does not count. -/
theorem lastOf_cons_of_mem {entry : List Char × List Char} {entries : List (List Char × List Char)}
    (h : ∃ later ∈ entries, later.1 = entry.1) (key : List Char) : lastOf (entry :: entries) key = lastOf entries key := by
  rw [lastOf_cons]
  by_cases hkey : key = entry.1
  · obtain ⟨later, hmem, heq⟩ := h
    have hsome : (lastOf entries key).isSome = true := by
      rw [lastOf, List.lookup_isSome_iff]
      exact ⟨later, List.mem_reverse.mpr hmem, by rw [hkey, ← heq, beq_self_eq_true]⟩
    obtain ⟨value, hvalue⟩ := Option.isSome_iff_exists.mp hsome
    rw [hvalue, Option.some_or]
  · rw [if_neg hkey, Option.or_none]

/-- Each pair that is not read the same comes before others that take its place, in both readings. -/
def Settled : List (List Char) → Prop
  | [] => True
  | piece :: later => (PlainPiece piece ∨
      ((requestPair crates piece).1 = [] ∨ ∃ p ∈ later, (requestPair crates p).1 = (requestPair crates piece).1) ∧
        ∃ p ∈ later, (extractPair crates p).1 = (extractPair crates piece).1) ∧ Settled later

theorem settled_of_plain {ps : List (List Char)} (h : ∀ p ∈ ps, PlainPiece p) : Settled crates ps := by
  induction ps with
  | nil => trivial
  | cons p ps ih => exact ⟨.inl (h p (List.mem_cons_self ..)), ih fun p hp => h p (List.mem_cons_of_mem _ hp)⟩

theorem lastOf_settled {ps : List (List Char)} (h : Settled crates ps) (key : List Char) :
    lastOf (requestPairs crates ps) key = lastOf (ps.map (extractPair crates)) key := by
  induction ps with
  | nil => rfl
  | cons piece later ih =>
    obtain ⟨hpiece, hlater⟩ := h
    have ih := ih hlater
    have hcons : requestPairs crates (piece :: later) =
        if (requestPair crates piece).1 ≠ [] then requestPair crates piece :: requestPairs crates later
        else requestPairs crates later := by
      rw [requestPairs, List.map_cons, List.filter_cons]
      simp only [decide_eq_true_eq]
      rfl
    rw [hcons, List.map_cons]
    rcases hpiece with hplain | ⟨hrequest, p, hp, hextract⟩
    · have hkey : (requestPair crates piece).1 ≠ [] := (decode_eq_nil crates).not.mpr hplain.1
      rw [if_pos hkey, lastOf_cons, lastOf_cons, ih, requestPair_plain crates hplain]
    · rw [lastOf_cons_of_mem ⟨_, List.mem_map_of_mem hp, hextract⟩, ← ih]
      split
      · rename_i hkey
        obtain ⟨p', hp', hsame⟩ := hrequest.resolve_left hkey
        refine lastOf_cons_of_mem ⟨requestPair crates p', ?_, hsame⟩ key
        exact List.mem_filter.mpr ⟨List.mem_map_of_mem hp', decide_eq_true (hsame ▸ hkey)⟩
      · rfl

theorem lastOf_eq_some {entries : List (List Char × List Char)} (distinct : (entries.map (·.1)).Nodup) {key value : List Char} :
    lastOf entries key = some value ↔ (key, value) ∈ entries := by
  constructor
  · intro h
    obtain ⟨before, after, heq, -⟩ := List.lookup_eq_some_iff.mp h
    rw [← List.mem_reverse, heq]
    exact List.mem_append_right _ (List.mem_cons_self ..)
  · intro h
    refine List.lookup_of_mem ?_ (List.mem_reverse.mpr h)
    rw [List.map_reverse]
    exact List.nodup_reverse.mpr distinct

/-! ### Pairs without repeated keys -/

/-- No key comes twice in either reading. -/
structure Unrepeated (ps : List (List Char)) : Prop where
  request : ((requestPairs crates ps).map (·.1)).Nodup
  extract : ((ps.map (extractPair crates)).map (·.1)).Nodup

def weight (entry : List Char × List Char) : Nat := 1 + marks entry.1 + marks entry.2

/-- Numbers that are no greater have no greater sum, and an equal one only if they are equal. -/
theorem sum_le_and_eq {ps : List (List Char)} {f g : List Char → Nat} (hle : ∀ p ∈ ps, f p ≤ g p) :
    (ps.map f).sum ≤ (ps.map g).sum ∧ ((ps.map g).sum ≤ (ps.map f).sum → ∀ p ∈ ps, f p = g p) := by
  induction ps with
  | nil => exact ⟨Nat.le_refl _, fun _ p hp => absurd hp List.not_mem_nil⟩
  | cons p ps ih =>
    rw [List.forall_mem_cons] at hle
    obtain ⟨hsum, heq⟩ := ih hle.2
    have hp := hle.1
    rw [List.map_cons, List.map_cons, List.sum_cons, List.sum_cons, List.forall_mem_cons]
    exact ⟨by omega, fun h => ⟨by omega, heq (by omega)⟩⟩

theorem sum_requestPairs (ps : List (List Char)) : ((requestPairs crates ps).map weight).sum =
    (ps.map fun p => if (requestPair crates p).1 = [] then 0 else weight (requestPair crates p)).sum := by
  induction ps with
  | nil => rfl
  | cons p ps ih =>
    rw [requestPairs, List.map_cons, List.filter_cons, List.map_cons, List.sum_cons, ← ih]
    by_cases hkey : (requestPair crates p).1 = []
    · rw [if_pos hkey, if_neg (by simpa using hkey), Nat.zero_add]
      rfl
    · rw [if_neg hkey, if_pos (decide_eq_true hkey), List.map_cons, List.sum_cons]
      rfl

/-- Without repeated keys, the two readings agree only on pairs that are read the same: the extractor reads more spaces and
    replacement characters in every other. -/
theorem plain_of_agree {ps : List (List Char)} (hurl : ∀ p ∈ ps, UrlText (splitPair p).1 ∧ UrlText (splitPair p).2)
    (unrepeated : Unrepeated crates ps)
    (agree : ∀ key, lastOf (requestPairs crates ps) key = lastOf (ps.map (extractPair crates)) key) :
    ∀ p ∈ ps, PlainPiece p := by
  have hperm : (requestPairs crates ps).Perm (ps.map (extractPair crates)) := by
    rw [List.perm_ext_iff_of_nodup unrepeated.request.of_map unrepeated.extract.of_map]
    rintro ⟨key, value⟩
    rw [← lastOf_eq_some unrepeated.request, ← lastOf_eq_some unrepeated.extract, agree]
  have hsum : (ps.map fun p => weight (extractPair crates p)).sum ≤
      (ps.map fun p => if (requestPair crates p).1 = [] then 0 else weight (requestPair crates p)).sum := by
    rw [← sum_requestPairs, (hperm.map weight).sum_eq, List.map_map]
    exact Nat.le_refl _
  have hle : ∀ p ∈ ps, (if (requestPair crates p).1 = [] then 0 else weight (requestPair crates p)) ≤
      weight (extractPair crates p) := by
    intro p hp
    have hkey := (marks_decode crates (hurl p hp).1).1
    have hvalue := (marks_decode crates (hurl p hp).2).1
    split
    · exact Nat.zero_le _
    · simp only [weight, requestPair, extractPair, Prod.map]
      omega
  intro p hp
  have heq := (sum_le_and_eq hle).2 hsum p hp
  have hkey := marks_decode crates (hurl p hp).1
  have hvalue := marks_decode crates (hurl p hp).2
  split at heq
  · rw [weight] at heq
    omega
  · rename_i hne
    simp only [weight, requestPair, extractPair, Prod.map] at heq
    refine ⟨fun h => hne ((decode_eq_nil crates).mpr h), hkey.2 ?_, hvalue.2 ?_⟩
    · have := hkey.1
      have := hvalue.1
      omega
    · have := hkey.1
      have := hvalue.1
      omega

end Pairs

/-! ### Encoded maps -/

section Encoded
variable (crates : UrlCrates)

theorem decode_encode (text : List Char) : crates.decode (Urlencoded.encode text) = Urlencoded.spaced text := by
  rw [UrlCrates.decode, crates.decodeUtf8_eq, Urlencoded.strictText?_encode, Option.getD_some]

theorem space_notMem_spaced (text : List Char) : ' ' ∉ Urlencoded.spaced text := by
  intro h
  obtain ⟨c, -, hc⟩ := List.mem_map.mp h
  split at hc
  · cases hc
  · rename_i hne
    exact hne hc

theorem spaced_eq_self {text : List Char} (h : ' ' ∉ text) : Urlencoded.spaced text = text := by
  have hself : Urlencoded.spaced text = text.map id := by
    refine List.map_congr_left fun c hc => if_neg ?_
    rintro rfl
    exact h hc
  rw [hself, List.map_id]

theorem parseQuery_serialize {pairs : List (List Char × List Char)} (hkeys : ∀ pair ∈ pairs, pair.1 ≠ []) :
    parseQuery crates.decode (Urlencoded.serialize pairs) =
      pairs.map fun pair => (Urlencoded.spaced pair.1, Urlencoded.spaced pair.2) := by
  by_cases hne : pairs = []
  · subst hne
    have hnil : (requestPair crates []).1 = [] := (decode_eq_nil crates).mpr rfl
    rw [parseQuery]
    simpa [Urlencoded.serialize, requestPair] using hnil
  · have hread : ∀ pair ∈ pairs,
        (splitPair (Urlencoded.encode pair.1 ++ '=' :: Urlencoded.encode pair.2)).map crates.decode crates.decode =
          (Urlencoded.spaced pair.1, Urlencoded.spaced pair.2) := by
      intro pair _
      have hcut : splitPair (Urlencoded.encode pair.1 ++ '=' :: Urlencoded.encode pair.2) =
        (Urlencoded.encode pair.1, Urlencoded.encode pair.2) := Urlencoded.cut_encode pair.1 pair.2
      rw [hcut, Prod.map, decode_encode, decode_encode]
    rw [parseQuery, Urlencoded.splitOn_serialize hne, List.map_map, List.filter_eq_self.mpr]
    · exact List.map_congr_left hread
    · intro entry hentry
      obtain ⟨pair, hpair, rfl⟩ := List.mem_map.mp hentry
      rw [Function.comp_apply, hread pair hpair]
      simpa [Urlencoded.spaced] using hkeys pair hpair

/-- What is encoded is parsed back when there is no space in it, and only then. -/
theorem lastOf_serialize {pairs : List (List Char × List Char)} (distinct : (pairs.map (·.1)).Nodup)
    (hkeys : ∀ pair ∈ pairs, pair.1 ≠ []) :
    (∀ key, lastOf (parseQuery crates.decode (Urlencoded.serialize pairs)) key = pairs.lookup key) ↔
      ∀ pair ∈ pairs, ' ' ∉ pair.1 ∧ ' ' ∉ pair.2 := by
  rw [parseQuery_serialize crates hkeys]
  constructor
  · rintro h ⟨key, value⟩ hpair
    have hlast := h key
    rw [List.lookup_of_mem distinct hpair] at hlast
    obtain ⟨before, after, heq, -⟩ := List.lookup_eq_some_iff.mp hlast
    have hmem : (key, value) ∈ pairs.map fun pair => (Urlencoded.spaced pair.1, Urlencoded.spaced pair.2) := by
      rw [← List.mem_reverse, heq]
      exact List.mem_append_right _ (List.mem_cons_self ..)
    obtain ⟨pair, -, hspaced⟩ := List.mem_map.mp hmem
    cases hspaced
    exact ⟨space_notMem_spaced _, space_notMem_spaced _⟩
  · intro h key
    have hself : (pairs.map fun pair => (Urlencoded.spaced pair.1, Urlencoded.spaced pair.2)) = pairs.map id :=
      List.map_congr_left fun pair hpair => Prod.ext (spaced_eq_self (h pair hpair).1) (spaced_eq_self (h pair hpair).2)
    rw [hself, List.map_id]
    refine Option.ext fun value => ?_
    rw [lastOf_eq_some distinct]
    refine ⟨List.lookup_of_mem distinct, fun hlookup => ?_⟩
    obtain ⟨before, after, rfl, -⟩ := List.lookup_eq_some_iff.mp hlookup
    exact List.mem_append_right _ (List.mem_cons_self ..)

end Encoded

/-! ### Query strings -/

section Queries
variable (crates : UrlCrates)

/-- `Request::query` and the extractor give the same for every key. -/
def Agrees (raw : Option (List Char)) : Prop := ∀ key : String, (crates.query raw).get key = crates.extract raw key

/-- A map comes back from its encoding. -/
def RoundTrips (pairs : List (List Char × List Char)) : Prop :=
  ∀ key : String, (crates.query (some (Urlencoded.serialize pairs))).get key = (pairs.lookup key.toList).map String.ofList

theorem map_ofList_inj {a b : Option (List Char)} : a.map String.ofList = b.map String.ofList ↔ a = b :=
  (Option.map_injective fun _ _ h => String.ofList_injective h).eq_iff

theorem agrees_iff (raw : Option (List Char)) : Agrees crates raw ↔
    ∀ key, lastOf (requestPairs crates (pieces (raw.getD []))) key =
      lastOf ((pieces (raw.getD [])).map (extractPair crates)) key := by
  have hget : ∀ key : String, (crates.query raw).get key =
      (lastOf (requestPairs crates (pieces (raw.getD []))) key.toList).map String.ofList := by
    intro key
    rw [Query.get, UrlCrates.query, parseQuery_eq, lastOf]
  have hextract : ∀ key : String, crates.extract raw key =
      (lastOf ((pieces (raw.getD [])).map (extractPair crates)) key.toList).map String.ofList := by
    intro key
    rw [UrlCrates.extract, extract_eq, lastOf]
  constructor
  · intro h key
    have hkey := h (String.ofList key)
    rwa [hget, hextract, String.toList_ofList, map_ofList_inj] at hkey
  · intro h key
    rw [hget, hextract, h]

theorem roundTrips_iff (pairs : List (List Char × List Char)) : RoundTrips crates pairs ↔
    ∀ key, lastOf (parseQuery crates.decode (Urlencoded.serialize pairs)) key = pairs.lookup key := by
  constructor
  · intro h key
    have hkey := h (String.ofList key)
    rwa [Query.get, String.toList_ofList, map_ofList_inj] at hkey
  · intro h key
    rw [← h key.toList]
    rfl

theorem urlText_pieces {q : List Char} (h : UrlText q) : ∀ p ∈ pieces q, UrlText (splitPair p).1 ∧ UrlText (splitPair p).2 := by
  intro p hp
  have hsub : ∀ c ∈ p, c ∈ q := fun c hc => List.mem_of_mem_splitOnP (List.mem_filter.mp hp).1 hc
  refine ⟨fun c hc => h c (hsub c ((List.takeWhile_sublist _).subset hc)), fun c hc => h c (hsub c ?_)⟩
  exact (List.dropWhile_sublist _).subset ((List.drop_sublist _ _).subset hc)

/-- The two readings of a query string agree where every pair that is read differently is superseded; in a URL without
    repeated keys they agree only where there is no such pair; and an encoded map comes back exactly when it has no
    spaces. -/
theorem query_readings :
    (∀ raw, Settled crates (pieces (raw.getD [])) → Agrees crates raw) ∧
      (∀ raw, UrlText (raw.getD []) → Unrepeated crates (pieces (raw.getD [])) →
        (Agrees crates raw ↔ ∀ p ∈ pieces (raw.getD []), PlainPiece p)) ∧
      ∀ pairs : List (List Char × List Char), (pairs.map (·.1)).Nodup → (∀ pair ∈ pairs, pair.1 ≠ []) →
        (RoundTrips crates pairs ↔ ∀ pair ∈ pairs, ' ' ∉ pair.1 ∧ ' ' ∉ pair.2) := by
  refine ⟨fun raw settled => ?_, fun raw hurl unrepeated => ?_, fun pairs distinct hkeys => ?_⟩
  · exact (agrees_iff crates raw).mpr (lastOf_settled crates settled)
  · rw [agrees_iff]
    exact ⟨plain_of_agree crates (urlText_pieces hurl) unrepeated,
      fun h => lastOf_settled crates (settled_of_plain crates h)⟩
  · rw [roundTrips_iff]
    exact lastOf_serialize crates distinct hkeys

end Queries

/-! ### Two searches -/

/-- One replacement character for bytes that are not UTF-8. -/
def oneReplacement : Urlencoded.Lossy where
  decode bs := ((Text.ofBytes? bs).map String.toList).getD ['\uFFFD']
  valid bs text h := by rw [h, Option.map_some, Option.getD_some]
  invalid bs h := by
    rw [h]
    exact List.mem_singleton_self _

def standardCrates : UrlCrates where
  lossy := oneReplacement
  decodeUtf8 := strictText?
  fromStr := Urlencoded.parse oneReplacement
  decodeUtf8_eq _ := rfl
  fromStr_eq _ := rfl

theorem escaped_space_agrees : Agrees standardCrates (some "q=a%20b&page=2".toList) := by
  refine (query_readings standardCrates).1 _ (settled_of_plain standardCrates fun p hp => ?_)
  have hpieces : pieces ((some "q=a%20b&page=2".toList).getD []) = ["q=a%20b".toList, "page=2".toList] := by decide +kernel
  rw [hpieces, List.mem_cons, List.mem_singleton] at hp
  rcases hp with rfl | rfl
  · exact ⟨by decide +kernel, ⟨by decide +kernel, by decide +kernel⟩, by decide +kernel, by decide +kernel⟩
  · exact ⟨by decide +kernel, ⟨by decide +kernel, by decide +kernel⟩, by decide +kernel, by decide +kernel⟩

/-- A form sends the space as a plus sign, which the request keeps. -/
theorem plus_kept : ¬Agrees standardCrates (some "q=a+b".toList) ∧ ¬RoundTrips standardCrates [("q".toList, "a b".toList)] := by
  have hget : (standardCrates.query (some "q=a+b".toList)).get "q" = some "a+b" := by decide +kernel
  have hextract : standardCrates.extract (some "q=a+b".toList) "q" = some "a b" := by decide +kernel
  have hencoded : Urlencoded.serialize [("q".toList, "a b".toList)] = "q=a+b".toList := by decide +kernel
  constructor
  · intro h
    have hq := h "q"
    rw [hget, hextract] at hq
    exact absurd hq (by decide +kernel)
  · intro h
    have hq := h "q"
    rw [hencoded, hget] at hq
    exact absurd hq (by decide +kernel)

end Djangors.Http
