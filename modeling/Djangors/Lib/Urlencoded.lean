import Djangors.Lib.Paths
import Djangors.Lib.Utf8

/-! # Urlencoded texts

`application/x-www-form-urlencoded`: the encoding of names and values, and how they are read back. -/

namespace Urlencoded

/-! ### Percent-decoding -/

def hexDigit? (b : UInt8) : Option UInt8 :=
  if 48 ≤ b ∧ b ≤ 57 then some (b - 48)
  else if 65 ≤ b ∧ b ≤ 70 then some (b - 55)
  else if 97 ≤ b ∧ b ≤ 102 then some (b - 87)
  else none

/-- The byte of an escape. -/
def escaped? (b h l : UInt8) : Option UInt8 :=
  if b = 37 then (hexDigit? h).bind fun h => (hexDigit? l).map fun l => h * 16 + l else none

/-- The bytes with their escapes read. What is no escape stays. -/
def percentDecode : List UInt8 → List UInt8
  | b :: h :: l :: rest =>
    match escaped? b h l with
    | some byte => byte :: percentDecode rest
    | none => b :: percentDecode (h :: l :: rest)
  | bs => bs

/-- A plus sign is a space. -/
def plusToSpace (bs : List UInt8) : List UInt8 := bs.map fun b => if b = 43 then 32 else b

/-- How bytes that are not all UTF-8 are read: there is a replacement character for them. -/
structure Lossy where
  decode : List UInt8 → List Char
  valid : ∀ bs text, Text.ofBytes? bs = some text → decode bs = text.toList
  invalid : ∀ bs, Text.ofBytes? bs = none → '\uFFFD' ∈ decode bs

/-- A name or a value as it is read. -/
def readText (lossy : Lossy) (raw : List Char) : List Char :=
  lossy.decode (percentDecode (plusToSpace (Text.bytes (String.ofList raw))))

/-- The name and the value of a pair: the first equals sign separates them. -/
def cut (pair : List Char) : List Char × List Char :=
  (pair.takeWhile (· ≠ '='), (pair.dropWhile (· ≠ '=')).drop 1)

/-- The pairs of a text. -/
def pieces (text : List Char) : List (List Char) := (text.splitOn '&').filter (· ≠ [])

/-- The names and values of a text in their order. -/
def parse (lossy : Lossy) (text : List Char) : List (List Char × List Char) :=
  (pieces text).map fun pair => (readText lossy (cut pair).1, readText lossy (cut pair).2)

/-! ### Encoding -/

/-- What is escaped, apart from the space. -/
def formSet (c : Char) : Bool := !(c.isAlphanum || c == '*' || c == '-' || c == '.' || c == '_')

def encodeChar (c : Char) : List Char := if c = ' ' then ['+'] else Path.escape formSet c

def encode (text : List Char) : List Char := text.flatMap encodeChar

/-- Names and values as one text. -/
def serialize (pairs : List (List Char × List Char)) : List Char :=
  ['&'].intercalate (pairs.map fun pair => encode pair.1 ++ '=' :: encode pair.2)

theorem percentDecode_escaped {b h l byte : UInt8} (hbyte : escaped? b h l = some byte) (rest : List UInt8) :
    percentDecode (b :: h :: l :: rest) = byte :: percentDecode rest := by
  rw [percentDecode, hbyte]

theorem percentDecode_plain {b h l : UInt8} (hbyte : escaped? b h l = none) (rest : List UInt8) :
    percentDecode (b :: h :: l :: rest) = b :: percentDecode (h :: l :: rest) := by
  rw [percentDecode, hbyte]

theorem percentDecode_short {bs : List UInt8} (h : ∀ b h l rest, bs = b :: h :: l :: rest → False) : percentDecode bs = bs := by
  rw [percentDecode.eq_def]
  split
  · exact (h _ _ _ _ rfl).elim
  · rfl

theorem percentDecode_eq_nil {bs : List UInt8} : percentDecode bs = [] ↔ bs = [] := by
  induction bs using percentDecode.induct with
  | case1 b h l rest byte hbyte ih => simp [percentDecode_escaped hbyte]
  | case2 b h l rest hbyte ih => simp [percentDecode_plain hbyte]
  | case3 bs hshort => rw [percentDecode_short hshort]

/-! ### Plus signs -/

/-- Bytes that are the same, or plus signs and spaces. -/
def Alike (b b' : UInt8) : Prop := b' = b ∨ (b = 43 ∨ b = 32) ∧ (b' = 43 ∨ b' = 32)

def AlikeChar (c c' : Char) : Prop := c' = c ∨ (c = '+' ∨ c = ' ') ∧ (c' = '+' ∨ c' = ' ')

theorem Alike.symm {b b' : UInt8} (h : Alike b b') : Alike b' b := h.imp Eq.symm And.symm

theorem hexDigit?_plus (b : UInt8) : hexDigit? (if b = 43 then 32 else b) = hexDigit? b := by
  split
  · rename_i h
    rw [h]
    rfl
  · rfl

theorem escaped?_plus (b h l : UInt8) :
    escaped? (if b = 43 then 32 else b) (if h = 43 then 32 else h) (if l = 43 then 32 else l) = escaped? b h l := by
  have hpercent : (if b = 43 then 32 else b) = 37 ↔ b = 37 := by
    split
    · rename_i heq
      rw [heq]
      decide
    · rfl
  rw [escaped?, escaped?, hexDigit?_plus, hexDigit?_plus]
  simp only [hpercent]

/-- The bytes of an escape are no plus signs. -/
theorem ne_plus_of_escaped? {b h l byte : UInt8} (hbyte : escaped? b h l = some byte) : b ≠ 43 ∧ h ≠ 43 ∧ l ≠ 43 := by
  rw [escaped?] at hbyte
  split at hbyte
  · rename_i hpercent
    obtain ⟨high, hhigh, hlow⟩ := Option.bind_eq_some_iff.mp hbyte
    obtain ⟨low, hlow, -⟩ := Option.map_eq_some_iff.mp hlow
    refine ⟨by rw [hpercent]; decide, ?_, ?_⟩
    · rintro rfl
      cases hhigh
    · rintro rfl
      cases hlow
  · cases hbyte

theorem alike_plus (b : UInt8) : Alike b (if b = 43 then 32 else b) := by
  split
  · rename_i h
    exact .inr ⟨.inl h, .inr rfl⟩
  · exact .inl rfl

/-- Read as spaces, plus signs are as many spaces more, where they stood. -/
theorem percentDecode_plusToSpace (bs : List UInt8) :
    List.Forall₂ Alike (percentDecode bs) (percentDecode (plusToSpace bs)) ∧
      (percentDecode (plusToSpace bs)).count 32 = (percentDecode bs).count 32 + bs.count 43 := by
  have single : ∀ b : UInt8, [if b = 43 then (32 : UInt8) else b].count 32 = [b].count 32 + [b].count 43 := by
    intro b
    by_cases h : b = 43
    · rw [h]
      rfl
    · rw [if_neg h]
      simp [h]
  have split : ∀ (a b : UInt8) (bs : List UInt8), (b :: bs).count a = [b].count a + bs.count a := by
    intro a b bs
    rw [← List.singleton_append, List.count_append]
  induction bs using percentDecode.induct with
  | case1 b h l rest byte hbyte ih =>
    obtain ⟨hb, hh, hl⟩ := ne_plus_of_escaped? hbyte
    rw [plusToSpace, List.map_cons, List.map_cons, List.map_cons, percentDecode_escaped ((escaped?_plus b h l).trans hbyte),
      percentDecode_escaped hbyte, ← plusToSpace]
    refine ⟨.cons (.inl rfl) ih.1, ?_⟩
    rw [List.count_cons, List.count_cons, ih.2]
    simp only [List.count_cons, beq_iff_eq, hb, hh, hl, if_false]
    omega
  | case2 b h l rest hbyte ih =>
    have hrest : plusToSpace (h :: l :: rest) = (if h = 43 then 32 else h) :: (if l = 43 then 32 else l) :: plusToSpace rest := rfl
    rw [plusToSpace, List.map_cons, List.map_cons, List.map_cons, percentDecode_plain ((escaped?_plus b h l).trans hbyte),
      percentDecode_plain hbyte, ← plusToSpace, ← hrest]
    refine ⟨.cons (alike_plus b) ih.1, ?_⟩
    rw [split 32, ih.2, split 32 b, split 43 b, single b]
    omega
  | case3 bs hshort =>
    have hplus : ∀ b h l rest, plusToSpace bs = b :: h :: l :: rest → False := by
      intro b h l rest heq
      match bs with
      | [] => cases heq
      | [_] => cases heq
      | [_, _] => cases heq
      | b :: h :: l :: rest => exact hshort b h l rest rfl
    rw [percentDecode_short hshort, percentDecode_short hplus]
    clear hshort hplus
    induction bs with
    | nil => exact ⟨.nil, rfl⟩
    | cons b bs ih =>
      rw [plusToSpace, List.map_cons, ← plusToSpace]
      refine ⟨.cons (alike_plus b) ih.1, ?_⟩
      rw [split 32, ih.2, split 32 b, split 43 b, single b]
      omega

/-! ### Texts with plus signs -/

/-- The text of a name or a value whose escapes are UTF-8, with its plus signs. -/
def strictText? (raw : List Char) : Option (List Char) :=
  (Text.ofBytes? (percentDecode (Text.bytes (String.ofList raw)))).map String.toList

theorem count_bytes {b : UInt8} (hb : b < 128) (text : List Char) :
    (Text.bytes (String.ofList text)).count b = text.count (Text.byteChar b) := by
  induction text with
  | nil => rfl
  | cons c text ih =>
    rw [Text.bytes_ofList] at ih ⊢
    rw [List.flatMap_cons, List.count_append, ih, List.count_cons]
    by_cases hc : c = Text.byteChar b
    · rw [hc, Text.encode_byteChar hb]
      simp [Nat.add_comm]
    · have hnone : (String.utf8EncodeChar c).count b = 0 := List.count_eq_zero.mpr fun hmem => hc (Text.eq_byteChar hmem hb)
      simp [hnone, hc]

theorem exists_alikeChar {c : Char} {bs : List UInt8} (h : List.Forall₂ Alike (String.utf8EncodeChar c) bs) :
    ∃ c', bs = String.utf8EncodeChar c' ∧ AlikeChar c c' := by
  by_cases hc : c = '+' ∨ c = ' '
  · have hsingle : ∃ b : UInt8, (b = 43 ∨ b = 32) ∧ String.utf8EncodeChar c = [b] := by
      rcases hc with rfl | rfl
      · exact ⟨43, .inl rfl, rfl⟩
      · exact ⟨32, .inr rfl, rfl⟩
    obtain ⟨b, hb, hencode⟩ := hsingle
    rw [hencode] at h
    obtain ⟨b', bs', hb', hnil, rfl⟩ := List.forall₂_cons_left_iff.mp h
    cases hnil
    have hother : b' = 43 ∨ b' = 32 := hb'.elim (fun heq => heq ▸ hb) And.right
    rcases hother with rfl | rfl
    · exact ⟨'+', rfl, .inr ⟨hc, .inl rfl⟩⟩
    · exact ⟨' ', rfl, .inr ⟨hc, .inr rfl⟩⟩
  · refine ⟨c, ?_, .inl rfl⟩
    rw [not_or] at hc
    have hsame : List.Forall₂ (· = ·) (String.utf8EncodeChar c) bs := by
      refine List.Forall₂.imp ?_ ((List.forall₂_and_left _ _).mpr ⟨fun b hb => (⟨?_, ?_⟩ : b ≠ 43 ∧ b ≠ 32), h⟩)
      · rintro b b' ⟨⟨hplus, hspace⟩, heq | ⟨hb, -⟩⟩
        · exact heq.symm
        · exact (hb.elim hplus hspace).elim
      · rintro rfl
        exact hc.1 (Text.eq_byteChar hb (by decide))
      · rintro rfl
        exact hc.2 (Text.eq_byteChar hb (by decide))
    exact (List.forall₂_eq_eq_eq ▸ hsame).symm

/-- Bytes that are alike are the bytes of texts that are alike. -/
theorem exists_alike {text : List Char} {bs : List UInt8} (h : List.Forall₂ Alike (Text.bytes (String.ofList text)) bs) :
    ∃ text', bs = Text.bytes (String.ofList text') ∧ List.Forall₂ AlikeChar text text' := by
  induction text generalizing bs with
  | nil =>
    cases h
    exact ⟨[], rfl, .nil⟩
  | cons c text ih =>
    rw [Text.bytes_ofList, List.flatMap_cons, ← Text.bytes_ofList] at h
    obtain ⟨front, rest, rfl, hfront, hrest⟩ : ∃ front rest, bs = front ++ rest ∧
        List.Forall₂ Alike (String.utf8EncodeChar c) front ∧ List.Forall₂ Alike (Text.bytes (String.ofList text)) rest :=
      ⟨_, _, (List.take_append_drop (String.utf8EncodeChar c).length bs).symm, (List.forall₂_take_append _ _ _ h.flip).flip,
        (List.forall₂_drop_append _ _ _ h.flip).flip⟩
    obtain ⟨text', rfl, htext⟩ := ih hrest
    obtain ⟨c', rfl, hc⟩ := exists_alikeChar hfront
    refine ⟨c' :: text', ?_, .cons hc htext⟩
    rw [Text.bytes_ofList (c' :: text'), List.flatMap_cons, ← Text.bytes_ofList]

/-- The spaces and replacement characters of a text. -/
def marks (text : List Char) : Nat := text.count ' ' + text.count '\uFFFD'

theorem count_replacement {text text' : List Char} (h : List.Forall₂ AlikeChar text text') :
    text'.count '\uFFFD' = text.count '\uFFFD' := by
  induction h with
  | nil => rfl
  | cons hc _ ih =>
    rw [List.count_cons, List.count_cons, ih]
    rcases hc with rfl | ⟨hc, hc'⟩
    · rfl
    · rcases hc with rfl | rfl <;> rcases hc' with rfl | rfl <;> rfl

theorem plusToSpace_of_notMem {bs : List UInt8} (h : 43 ∉ bs) : plusToSpace bs = bs := by
  have hself : plusToSpace bs = bs.map id := by
    refine List.map_congr_left fun b hb => if_neg ?_
    rintro rfl
    exact h hb
  rw [hself, List.map_id]

variable {lossy : Lossy} {raw text : List Char}

/-- Where the escapes are UTF-8, what is read has a space more for each plus sign. -/
theorem readText_of_strict (h : strictText? raw = some text) :
    marks (readText lossy raw) = marks text + raw.count '+' ∧ ('+' ∉ raw → readText lossy raw = text) := by
  obtain ⟨decoded, hdecoded, rfl⟩ := Option.map_eq_some_iff.mp h
  have hbytes : Text.bytes (String.ofList decoded.toList) = percentDecode (Text.bytes (String.ofList raw)) := by
    rw [String.ofList_toList, Text.bytes_of_ofBytes? hdecoded]
  obtain ⟨halike, hcount⟩ := percentDecode_plusToSpace (Text.bytes (String.ofList raw))
  rw [← hbytes] at halike
  obtain ⟨text', htext', halike⟩ := exists_alike halike
  have hread : readText lossy raw = text' := by
    rw [readText, htext', lossy.valid _ _ (Text.ofBytes?_bytes _), String.toList_ofList]
  rw [htext', ← hbytes, count_bytes (by decide), count_bytes (by decide), count_bytes (by decide)] at hcount
  have hcount : text'.count ' ' = decoded.toList.count ' ' + raw.count '+' := hcount
  refine ⟨?_, fun hplus => ?_⟩
  · rw [hread, marks, marks, hcount, count_replacement halike]
    omega
  · have hnone : 43 ∉ Text.bytes (String.ofList raw) := by
      rw [← List.count_eq_zero, count_bytes (by decide)]
      exact List.count_eq_zero.mpr hplus
    rw [plusToSpace_of_notMem hnone, ← hbytes] at htext'
    rw [hread, Text.bytes_injective htext']

/-- Where they are not, there is a replacement character. -/
theorem readText_of_invalid (h : strictText? raw = none) : '\uFFFD' ∈ readText lossy raw := by
  refine lossy.invalid _ (Option.eq_none_iff_forall_ne_some.mpr fun text htext => ?_)
  have halike := (percentDecode_plusToSpace (Text.bytes (String.ofList raw))).1
  have hbytes : Text.bytes (String.ofList text.toList) = percentDecode (plusToSpace (Text.bytes (String.ofList raw))) := by
    rw [String.ofList_toList, Text.bytes_of_ofBytes? htext]
  rw [← hbytes] at halike
  obtain ⟨text', htext', -⟩ := exists_alike (halike.flip.imp fun _ _ h => Alike.symm h)
  rw [strictText?, htext', Text.ofBytes?_bytes] at h
  cases h

theorem bytes_eq_nil (raw : List Char) : Text.bytes (String.ofList raw) = [] ↔ raw = [] :=
  ⟨fun h => Text.bytes_injective h, fun h => h ▸ rfl⟩

theorem strictText?_eq_nil : strictText? raw = some [] ↔ raw = [] := by
  constructor
  · intro h
    obtain ⟨decoded, hdecoded, hnil⟩ := Option.map_eq_some_iff.mp h
    have hbytes := Text.bytes_of_ofBytes? hdecoded
    rw [← String.ofList_toList (s := decoded), hnil, eq_comm] at hbytes
    exact (bytes_eq_nil raw).mp (percentDecode_eq_nil.mp hbytes)
  · rintro rfl
    rfl

theorem readText_eq_nil : readText lossy raw = [] ↔ raw = [] := by
  cases hbytes : Text.ofBytes? (percentDecode (plusToSpace (Text.bytes (String.ofList raw)))) with
  | none =>
    have hmark := lossy.invalid _ hbytes
    refine iff_of_false (fun h => ?_) ?_
    · rw [readText] at h
      rw [h] at hmark
      cases hmark
    · rintro rfl
      cases hbytes
  | some text =>
    rw [readText, lossy.valid _ _ hbytes, ← bytes_eq_nil text.toList, String.ofList_toList,
      Text.bytes_of_ofBytes? hbytes, percentDecode_eq_nil, plusToSpace, List.map_eq_nil_iff, bytes_eq_nil]

/-! ### Encoded texts -/

theorem percentDecode_cons {b : UInt8} (h : b ≠ 37) (bs : List UInt8) : percentDecode (b :: bs) = b :: percentDecode bs := by
  match bs with
  | [] => rfl
  | [_] => rfl
  | h' :: l :: rest => exact percentDecode_plain (if_neg h) rest

/-- An escape is read as its byte. -/
theorem percentDecode_hexEscape (byte : UInt8) (bs : List UInt8) :
    percentDecode ((Path.hexEscape byte).flatMap String.utf8EncodeChar ++ bs) = byte :: percentDecode bs := by
  have digit : ∀ n, n < 16 →
      String.utf8EncodeChar (Nat.digitChar n).toUpper = [UInt8.ofNat (Nat.digitChar n).toUpper.toNat] ∧
        hexDigit? (UInt8.ofNat (Nat.digitChar n).toUpper.toNat) = some (UInt8.ofNat n) := by
    decide +kernel
  have hlt := byte.toNat_lt
  obtain ⟨hhigh, hhigh'⟩ := digit (byte.toNat / 16) (by omega)
  obtain ⟨hlow, hlow'⟩ := digit (byte.toNat % 16) (Nat.mod_lt _ (by omega))
  have hpercent : String.utf8EncodeChar '%' = [37] := rfl
  have hbyte : escaped? 37 (UInt8.ofNat (Nat.digitChar (byte.toNat / 16)).toUpper.toNat)
      (UInt8.ofNat (Nat.digitChar (byte.toNat % 16)).toUpper.toNat) = some byte := by
    rw [escaped?, if_pos rfl, hhigh', hlow', Option.bind_some, Option.map_some]
    refine congrArg some (UInt8.toNat_inj.mp ?_)
    rw [UInt8.toNat_add, UInt8.toNat_mul, UInt8.toNat_ofNat', UInt8.toNat_ofNat']
    have hsixteen : (16 : UInt8).toNat = 16 := rfl
    rw [hsixteen]
    omega
  rw [Path.hexEscape, List.flatMap_cons, List.flatMap_cons, List.flatMap_cons, List.flatMap_nil, hpercent, hhigh, hlow]
  exact percentDecode_escaped hbyte bs

theorem percentDecode_hexEscapes (bytes bs : List UInt8) :
    percentDecode ((bytes.flatMap Path.hexEscape).flatMap String.utf8EncodeChar ++ bs) = bytes ++ percentDecode bs := by
  induction bytes with
  | nil => rfl
  | cons byte bytes ih =>
    rw [List.flatMap_cons, List.flatMap_append, List.append_assoc, percentDecode_hexEscape, ih, List.cons_append]

/-- A character, as it is or as its escapes, is read back where the percent sign is escaped. -/
theorem percentDecode_escape {set : Char → Bool} (hset : set '%' = true) (c : Char) (bs : List UInt8) :
    percentDecode ((Path.escape set c).flatMap String.utf8EncodeChar ++ bs) = String.utf8EncodeChar c ++ percentDecode bs := by
  rw [Path.escape]
  split
  · rename_i hkept
    have hbyte : c = Text.byteChar (UInt8.ofNat c.toNat) := by
      apply Char.ext
      apply UInt32.toNat_inj.mp
      have htoNat := Text.toNat_byteChar (UInt8.ofNat c.toNat)
      rw [UInt8.toNat_ofNat', Nat.mod_eq_of_lt (by have := hkept.1; omega)] at htoNat
      exact htoNat.symm
    have hlt : UInt8.ofNat c.toNat < 128 := by
      rw [UInt8.lt_iff_toNat_lt, UInt8.toNat_ofNat', Nat.mod_eq_of_lt (by have := hkept.1; omega)]
      exact hkept.1
    have hne : UInt8.ofNat c.toNat ≠ 37 := by
      intro heq
      rw [heq] at hbyte
      have hpercent : c = '%' := hbyte
      rw [hpercent] at hkept
      exact absurd (hset.symm.trans hkept.2) (by decide)
    rw [List.flatMap_singleton, hbyte, Text.encode_byteChar hlt, List.singleton_append, List.singleton_append]
    exact percentDecode_cons hne bs
  · exact percentDecode_hexEscapes _ bs

/-- An escaped text is read strictly as itself. -/
theorem strictText?_escape {set : Char → Bool} (hset : set '%' = true) (text : List Char) :
    strictText? (text.flatMap (Path.escape set)) = some text := by
  have hdecode : percentDecode (Text.bytes (String.ofList (text.flatMap (Path.escape set)))) =
      Text.bytes (String.ofList text) := by
    rw [Text.bytes_ofList, Text.bytes_ofList]
    induction text with
    | nil => rfl
    | cons c text ih => rw [List.flatMap_cons, List.flatMap_append, percentDecode_escape hset, ih, List.flatMap_cons]
  rw [strictText?, hdecode, Text.ofBytes?_bytes, Option.map_some, String.toList_ofList]

/-- A text without percent signs is read strictly as itself. -/
theorem strictText?_of_notMem {raw : List Char} (h : '%' ∉ raw) : strictText? raw = some raw := by
  have hbytes : 37 ∉ Text.bytes (String.ofList raw) := by
    have hcount := count_bytes (b := 37) (by decide) raw
    rw [List.count_eq_zero.mpr (show Text.byteChar 37 ∉ raw from h)] at hcount
    exact List.count_eq_zero.mp hcount
  have hdecode {bs : List UInt8} (hbs : 37 ∉ bs) : percentDecode bs = bs := by
    induction bs with
    | nil => rfl
    | cons b bs ih =>
      rw [List.mem_cons, not_or] at hbs
      rw [percentDecode_cons (Ne.symm hbs.1), ih hbs.2]
  rw [strictText?, hdecode hbytes, Text.ofBytes?_bytes, Option.map_some, String.toList_ofList]

/-- A character that is escaped, and is not of an escape, is not in an escaped text. -/
theorem notMem_escape {set : Char → Bool} {sep : Char} (hset : set sep = true)
    (hhex : ∀ byte : UInt8, sep ∉ Path.hexEscape byte) (text : List Char) : sep ∉ text.flatMap (Path.escape set) := by
  intro hmem
  obtain ⟨c, -, hc⟩ := List.mem_flatMap.mp hmem
  rw [Path.escape] at hc
  split at hc
  · rename_i hkept
    rw [← List.mem_singleton.mp hc] at hkept
    exact absurd (hset.symm.trans hkept.2) (by decide)
  · obtain ⟨byte, -, hbyte⟩ := List.mem_flatMap.mp hc
    exact hhex byte hbyte

/-- A text with plus signs for its spaces. -/
def spaced (text : List Char) : List Char := text.map fun c => if c = ' ' then '+' else c

theorem percentDecode_encodeChar (c : Char) (bs : List UInt8) :
    percentDecode ((encodeChar c).flatMap String.utf8EncodeChar ++ bs) =
      String.utf8EncodeChar (if c = ' ' then '+' else c) ++ percentDecode bs := by
  rw [encodeChar]
  by_cases hspace : c = ' '
  · rw [if_pos hspace, if_pos hspace]
    exact percentDecode_cons (by decide) bs
  · rw [if_neg hspace, if_neg hspace]
    exact percentDecode_escape rfl c bs

/-- An encoded text is read strictly as itself, with plus signs for its spaces. -/
theorem strictText?_encode (text : List Char) : strictText? (encode text) = some (spaced text) := by
  have hdecode : percentDecode (Text.bytes (String.ofList (encode text))) = Text.bytes (String.ofList (spaced text)) := by
    rw [Text.bytes_ofList, Text.bytes_ofList]
    induction text with
    | nil => rfl
    | cons c text ih =>
      rw [encode, List.flatMap_cons, List.flatMap_append, percentDecode_encodeChar, ← encode, ih]
      rfl
  rw [strictText?, hdecode, Text.ofBytes?_bytes, Option.map_some, String.toList_ofList]

/-- No separator is left in an encoded text. -/
theorem notMem_encode {sep : Char} (hset : formSet sep = true) (hplus : sep ≠ '+')
    (hhex : ∀ byte : UInt8, sep ∉ Path.hexEscape byte) (text : List Char) : sep ∉ encode text := by
  intro hmem
  obtain ⟨c, -, hc⟩ := List.mem_flatMap.mp hmem
  rw [encodeChar] at hc
  split at hc
  · exact hplus (List.mem_singleton.mp hc)
  · exact notMem_escape hset hhex [c] (List.mem_flatMap.mpr ⟨c, List.mem_singleton_self c, hc⟩)

theorem hexEscape_separators (byte : UInt8) : '&' ∉ Path.hexEscape byte ∧ '=' ∉ Path.hexEscape byte := by
  have digit : ∀ n, n < 16 → (Nat.digitChar n).toUpper ≠ '&' ∧ (Nat.digitChar n).toUpper ≠ '=' := by decide
  have hlt := byte.toNat_lt
  have hhigh := digit (byte.toNat / 16) (by omega)
  have hlow := digit (byte.toNat % 16) (Nat.mod_lt _ (by omega))
  simp only [Path.hexEscape, List.mem_cons, List.not_mem_nil, or_false, not_or]
  exact ⟨⟨by decide, hhigh.1.symm, hlow.1.symm⟩, by decide, hhigh.2.symm, hlow.2.symm⟩

theorem separators_notMem_encode (text : List Char) : '&' ∉ encode text ∧ '=' ∉ encode text :=
  ⟨notMem_encode rfl (by decide) (fun byte => (hexEscape_separators byte).1) text,
    notMem_encode rfl (by decide) (fun byte => (hexEscape_separators byte).2) text⟩

theorem cut_encode (key value : List Char) : cut (encode key ++ '=' :: encode value) = (encode key, encode value) := by
  have hkey : ∀ c ∈ encode key, decide (c ≠ '=') = true := fun c hc =>
    decide_eq_true fun heq => (separators_notMem_encode key).2 (heq ▸ hc)
  rw [cut, List.takeWhile_append_of_pos hkey, List.dropWhile_append_of_pos hkey]
  simp

theorem splitOn_serialize {pairs : List (List Char × List Char)} (hne : pairs ≠ []) :
    (serialize pairs).splitOn '&' = pairs.map fun pair => encode pair.1 ++ '=' :: encode pair.2 := by
  have hpieces : ∀ piece ∈ pairs.map fun pair => encode pair.1 ++ '=' :: encode pair.2, '&' ∉ piece := by
    intro piece hpiece hmem
    obtain ⟨pair, -, rfl⟩ := List.mem_map.mp hpiece
    rcases List.mem_append.mp hmem with hmem | hmem
    · exact (separators_notMem_encode pair.1).1 hmem
    · rcases List.mem_cons.mp hmem with heq | hmem
      · exact absurd heq (by decide)
      · exact (separators_notMem_encode pair.2).1 hmem
  exact List.splitOn_intercalate '&' hpieces fun h => hne (List.map_eq_nil_iff.mp h)

end Urlencoded
