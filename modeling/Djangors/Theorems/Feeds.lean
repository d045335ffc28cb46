import Djangors.Contrib.Feeds
import Djangors.Lib.Calendar
import Djangors.Lib.Except
import Djangors.Lib.Lists
import Djangors.Lib.Xml

/-! # What a reader makes of feeds and sitemaps

A reader of XML finds in a document the texts that it was rendered from, but for what no document can hold and for ends of
lines. -/

namespace Djangors.Contrib
open Xml
open Markup (lineEnds lineEnds_eq_self)

/-! ### Escaping -/

theorem replaceChar_append (c : Char) (substitute : String) (a b : List Char) :
    replaceChar c substitute (a ++ b) = replaceChar c substitute a ++ replaceChar c substitute b := List.flatMap_append

theorem replaceChar_of_ne {c d : Char} (h : d ≠ c) (substitute : String) : replaceChar c substitute [d] = [d] := by
  rw [replaceChar, List.flatMap_cons, if_neg h, List.flatMap_nil, List.append_nil]

theorem xmlEscape_append (a b : List Char) : xmlEscape (a ++ b) = xmlEscape a ++ xmlEscape b := by
  rw [xmlEscape, xmlEscape, xmlEscape, replaceChar_append, replaceChar_append, replaceChar_append, replaceChar_append,
    replaceChar_append]

theorem xmlEscape_char (c : Char) : xmlEscape [c] = escapeChar c := by
  by_cases h : IsMarkup c
  · rcases h with rfl | rfl | rfl | rfl | rfl <;> rfl
  · rw [escapeChar_of_not h]
    simp only [IsMarkup, not_or] at h
    obtain ⟨hamp, hlt, hgt, hquot, hapos⟩ := h
    rw [xmlEscape, replaceChar_of_ne hamp, replaceChar_of_ne hlt, replaceChar_of_ne hgt, replaceChar_of_ne hquot,
      replaceChar_of_ne hapos]

theorem xmlEscape_eq (input : List Char) : xmlEscape input = escape input := by
  induction input with
  | nil => rfl
  | cons c input ih =>
    rw [← List.singleton_append, xmlEscape_append, xmlEscape_char, ih, escape, escape, List.flatMap_append,
      List.flatMap_singleton]

/-! ### Times and numbers -/

/-- The characters of times and numbers. -/
def isStamp (c : Char) : Bool := c.isAlphanum || c == ' ' || c == ',' || c == ':' || c == '+' || c == '-' || c == '.'

theorem isStamp_plain {c : Char} (h : isStamp c = true) : IsLegal c ∧ ¬IsMarkup c ∧ c ≠ '\r' := by
  simp only [isStamp, Bool.or_eq_true, beq_iff_eq] at h
  have hletter : c.isAlphanum = true → IsLegal c ∧ ¬IsMarkup c ∧ c ≠ '\r' := fun halnum => by
    have hbound : 0x30 ≤ c.toNat ∧ c.toNat ≤ 0x39 ∨ 0x41 ≤ c.toNat ∧ c.toNat ≤ 0x7a := by
      simp only [Char.isAlphanum, Char.isAlpha, Char.isUpper, Char.isLower, Char.isDigit, Bool.or_eq_true, Bool.and_eq_true,
        decide_eq_true_eq, ge_iff_le, UInt32.le_iff_toNat_le] at halnum
      have hval : c.val.toNat = c.toNat := rfl
      simp at halnum
      omega
    refine ⟨.inr (.inr (.inr (by omega))), ?_, fun heq => ?_⟩
    · rintro (rfl | rfl | rfl | rfl | rfl) <;> exact absurd hbound (by decide)
    · subst heq
      exact absurd hbound (by decide)
  rcases h with (((((h | rfl) | rfl) | rfl) | rfl) | rfl) | rfl
  · exact hletter h
  all_goals exact ⟨by decide, by simp [IsMarkup], by decide⟩

theorem escape_stamp {text : List Char} (h : ∀ c ∈ text, isStamp c = true) : escape text = text := by
  induction text with
  | nil => rfl
  | cons c text ih =>
    obtain ⟨hc, htext⟩ := List.forall_mem_cons.mp h
    rw [escape, List.flatMap_cons, escapeChar_of_not (isStamp_plain hc).2.1, List.singleton_append]
    exact congrArg (c :: ·) (ih htext)

/-- Addresses and version numbers are read as they are written. -/
theorem plain_address {text : List Char} (h : (text.all fun c => isStamp c || c == '/') = true) :
    valueOf text = text ∧ ∀ c ∈ text, IsLegal c := by
  have hchars : ∀ c ∈ text, IsLegal c ∧ c ≠ '\r' ∧ c ≠ '\n' ∧ c ≠ '\t' := fun c hc => by
    have hplain := List.all_eq_true.mp h c hc
    rw [Bool.or_eq_true, beq_iff_eq] at hplain
    rcases hplain with hstamp | rfl
    · refine ⟨(isStamp_plain hstamp).1, (isStamp_plain hstamp).2.2, ?_, ?_⟩ <;> rintro rfl <;> cases hstamp
    · decide
  exact ⟨valueOf_eq_self.mpr ⟨fun hmem => (hchars _ hmem).2.1 rfl, fun hmem => (hchars _ hmem).2.2.1 rfl,
    fun hmem => (hchars _ hmem).2.2.2 rfl⟩, fun c hc => (hchars c hc).1⟩

theorem lineEnds_stamp {text : List Char} (h : ∀ c ∈ text, isStamp c = true) : lineEnds false text = text :=
  lineEnds_eq_self.mpr fun hcr => (isStamp_plain (h _ hcr)).2.2 rfl

/-- The year of a time. -/
def yearOf (t : DateTime) : Int := Calendar.year (t.nanos / (86400 * 1000000000))

/-- Times and numbers are written with plain characters. RFC 2822 has years of four digits alone. -/
structure Plain {π : Type} (printers : Printers π) : Prop where
  rfc2822 : ∀ t text, printers.rfc2822 t = some text → ∀ c ∈ text, isStamp c = true
  rfc3339 : ∀ t, ∀ c ∈ printers.rfc3339 t, isStamp c = true
  f32 : ∀ p, ∀ c ∈ printers.f32 p, isStamp c = true
  panics : ∀ t, printers.rfc2822 t = none ↔ ¬(0 ≤ yearOf t ∧ yearOf t ≤ 9999)

/-! ### What is meant -/

/-- An element with a text. -/
def field (name : String) (text : List Char) : Node := .element name.toList [] (textNodes text)

section Trees
variable {π : Type} (printers : Printers π) (read readValue : List Char → List Char)

def rssItemNode (item : FeedItem) : Node :=
  .element "item".toList [] ([field "title" (read item.title), field "link" (read item.link),
    field "description" (read item.description)] ++ (item.pubDate.bind printers.rfc2822).toList.map (field "pubDate"))

/-- The element of an RSS document whose texts are read by a function. -/
def rssNode (feed : Feed) : Node :=
  .element "rss".toList [("version".toList, "2.0".toList)] [.element "channel".toList []
    ([field "title" (read feed.title), field "link" (read feed.link), field "description" (read feed.description)] ++
      feed.items.map (rssItemNode printers read))]

/-- An element with an address. -/
def linkNode (address : List Char) : Node := .element "link".toList [("href".toList, address)] []

def atomEntryNode (item : FeedItem) : Node :=
  .element "entry".toList [] ([field "title" (read item.title), linkNode (readValue item.link), field "id" (read item.link),
    field "summary" (read item.description)] ++ item.pubDate.toList.map fun t => field "updated" (printers.rfc3339 t))

/-- The element of an Atom document. Texts and values of attributes are read by functions of their own. -/
def atomNode (now : DateTime) (feed : Feed) : Node :=
  .element "feed".toList [("xmlns".toList, "http://www.w3.org/2005/Atom".toList)]
    ([field "title" (read feed.title), linkNode (readValue feed.link), field "id" (read feed.link),
      field "updated" (printers.rfc3339 (lastUpdate now feed)), field "subtitle" (read feed.description)] ++
      feed.items.map (atomEntryNode printers read readValue))

def sitemapUrlNode (entry : SitemapEntry π) : Node :=
  .element "url".toList [] ([field "loc" (read entry.loc)] ++
    (entry.lastmod.toList.map fun t => field "lastmod" (printers.rfc3339 t)) ++
    (entry.changefreq.toList.map fun text => field "changefreq" (read text)) ++
    (entry.priority.toList.map fun p => field "priority" (printers.f32 p)))

def sitemapNode (entries : List (SitemapEntry π)) : Node :=
  .element "urlset".toList [("xmlns".toList, "http://www.sitemaps.org/schemas/sitemap/0.9".toList)]
    (entries.map (sitemapUrlNode printers read))

end Trees

def FeedItem.texts (item : FeedItem) : List (List Char) := [item.title, item.link, item.description]

/-- The texts of a feed. -/
def Feed.texts (feed : Feed) : List (List Char) :=
  [feed.title, feed.link, feed.description] ++ feed.items.flatMap (·.texts)

def Feed.links (feed : Feed) : List (List Char) := feed.link :: feed.items.map (·.link)

def SitemapEntry.texts {π : Type} (entry : SitemapEntry π) : List (List Char) := entry.loc :: entry.changefreq.toList

/-! ### RSS -/

section Rss
variable {π : Type} {printers : Printers π} {feed : Feed} {item : FeedItem} {doc text : List Char}

theorem puts_field (name : String) (hname : isNameText name.toList = true) (hlegal : ∀ c ∈ text, IsLegal c) :
    Puts (leaf name.toList text) [field name (lineEnds false text)] := puts_leaf hname hlegal

/-- The date of an item as it is written. -/
def dateTexts (printers : Printers π) (item : FeedItem) : List (List Char) := (item.pubDate.bind printers.rfc2822).toList

theorem rssDate_eq (plain : Plain printers) {date : List Char} (h : rssDate printers item.pubDate = some date) :
    date = (dateTexts printers item).flatMap (leaf "pubDate".toList) := by
  have hstart : "<pubDate>".toList = startTag "pubDate".toList := rfl
  have hend : "</pubDate>".toList = endTag "pubDate".toList := rfl
  rw [dateTexts]
  cases hdate : item.pubDate with
  | none =>
    rw [hdate, rssDate] at h
    cases h
    rfl
  | some t =>
    rw [hdate, rssDate] at h
    obtain ⟨stamp, hstamp, rfl⟩ := Option.map_eq_some_iff.mp h
    rw [Option.bind_some, hstamp, Option.toList_some, List.flatMap_singleton, leaf,
      escape_stamp (plain.rfc2822 t stamp hstamp), hstart, hend]

theorem rssItem_eq (plain : Plain printers) (h : rssItem printers item = some text) :
    text = wrap "item".toList (leaf "title".toList item.title ++ leaf "link".toList item.link ++
      leaf "description".toList item.description ++ (dateTexts printers item).flatMap (leaf "pubDate".toList)) := by
  have hstart : "<item><title>".toList = startTag "item".toList ++ startTag "title".toList := rfl
  have hlink : "</title><link>".toList = endTag "title".toList ++ startTag "link".toList := rfl
  have hdescription : "</link><description>".toList = endTag "link".toList ++ startTag "description".toList := rfl
  have hdescribed : "</description>".toList = endTag "description".toList := rfl
  have hend : "</item>".toList = endTag "item".toList := rfl
  rw [rssItem] at h
  obtain ⟨date, hdate, rfl⟩ := Option.map_eq_some_iff.mp h
  rw [rssDate_eq plain hdate, hstart, hlink, hdescription, hdescribed, hend]
  simp only [wrap, leaf, xmlEscape_eq, List.append_assoc]

theorem puts_rssItem (plain : Plain printers) (h : rssItem printers item = some text)
    (hlegal : ∀ s ∈ item.texts, ∀ c ∈ s, IsLegal c) : Puts text [rssItemNode printers (lineEnds false) item] := by
  have hdates : Puts ((dateTexts printers item).flatMap (leaf "pubDate".toList))
      ((dateTexts printers item).map (field "pubDate")) := .map fun stamp hstamp => by
    obtain ⟨t, -, ht⟩ := Option.bind_eq_some_iff.mp (Option.mem_toList.mp hstamp)
    have hplain := plain.rfc2822 t stamp ht
    have hputs := puts_field "pubDate" (by decide) fun c hc => (isStamp_plain (hplain c hc)).1
    rwa [lineEnds_stamp hplain] at hputs
  have htitle := puts_field "title" (by decide) (hlegal item.title (by simp [FeedItem.texts]))
  have hlink := puts_field "link" (by decide) (hlegal item.link (by simp [FeedItem.texts]))
  have hdescription := puts_field "description" (by decide) (hlegal item.description (by simp [FeedItem.texts]))
  rw [rssItem_eq plain h]
  exact puts_wrap _ (by decide) (((htitle.append hlink).append hdescription).append hdates)

theorem puts_rssItems (plain : Plain printers) {items : List FeedItem} {texts : List (List Char)}
    (h : items.mapM (rssItem printers) = some texts) (hlegal : ∀ item ∈ items, ∀ s ∈ item.texts, ∀ c ∈ s, IsLegal c) :
    Puts texts.flatten (items.map (rssItemNode printers (lineEnds false))) := by
  induction items generalizing texts with
  | nil =>
    cases h
    exact .nil
  | cons item items ih =>
    obtain ⟨hitem, hitems⟩ := List.forall_mem_cons.mp hlegal
    rw [List.mapM_cons] at h
    obtain ⟨text, htext, h⟩ := Option.bind_eq_some_iff.mp h
    obtain ⟨rest, hrest, h⟩ := Option.bind_eq_some_iff.mp h
    cases h
    exact (puts_rssItem plain htext hitem).append (ih hrest hitems)

theorem renderRss_eq {texts : List (List Char)} (h : feed.items.mapM (rssItem printers) = some texts) :
    renderRss printers feed = some (document [] "rss".toList "version".toList "2.0".toList (wrap "channel".toList
      (leaf "title".toList feed.title ++ leaf "link".toList feed.link ++ leaf "description".toList feed.description ++
        texts.flatten))) := by
  have hstart : "<?xml version=\"1.0\" encoding=\"UTF-8\"?><rss version=\"2.0\"><channel><title>".toList =
      declaration ++ ('<' :: "rss".toList ++ attributeText "version".toList "2.0".toList ++ ['>'] ++
        startTag "channel".toList ++ startTag "title".toList) := rfl
  have hlink : "</title><link>".toList = endTag "title".toList ++ startTag "link".toList := rfl
  have hdescription : "</link><description>".toList = endTag "link".toList ++ startTag "description".toList := rfl
  have hdescribed : "</description>".toList = endTag "description".toList := rfl
  have hend : "</channel></rss>".toList = endTag "channel".toList ++ endTag "rss".toList := rfl
  rw [renderRss, h, Option.map_some, hstart, hlink, hdescription, hdescribed, hend]
  simp only [document, wrap, leaf, xmlEscape_eq, List.append_assoc, List.nil_append]

theorem exists_items (h : renderRss printers feed = some doc) :
    ∃ texts, feed.items.mapM (rssItem printers) = some texts := by
  obtain ⟨texts, htexts, -⟩ := Option.map_eq_some_iff.mp h
  exact ⟨texts, htexts⟩

/-- A document is read as what it was rendered from, with its ends of lines as line feeds. -/
theorem parse_rss (plain : Plain printers) (h : renderRss printers feed = some doc)
    (hlegal : ∀ s ∈ feed.texts, ∀ c ∈ s, IsLegal c) : parse doc = some (rssNode printers (lineEnds false) feed) := by
  obtain ⟨texts, htexts⟩ := exists_items h
  rw [renderRss_eq htexts] at h
  cases h
  have hitems : ∀ item ∈ feed.items, ∀ s ∈ item.texts, ∀ c ∈ s, IsLegal c := fun item hitem s hs =>
    hlegal s (List.mem_append_right _ (List.mem_flatMap.mpr ⟨item, hitem, hs⟩))
  have htitle := puts_field "title" (by decide) (hlegal feed.title (by simp [Feed.texts]))
  have hlink := puts_field "link" (by decide) (hlegal feed.link (by simp [Feed.texts]))
  have hdescription := puts_field "description" (by decide) (hlegal feed.description (by simp [Feed.texts]))
  have hversion : _ ∧ ∀ c ∈ "2.0".toList, IsLegal c := plain_address rfl
  have hparsed := parse_document [] "rss".toList "version".toList "2.0".toList
    (by simp) (by decide) (by decide) hversion.2 (puts_wrap "channel".toList (by decide)
      (((htitle.append hlink).append hdescription).append (puts_rssItems plain htexts hitems)))
  rw [hparsed, hversion.1]
  rfl

/-- A character that no document has stays in what is rendered. -/
theorem mem_rss (plain : Plain printers) (h : renderRss printers feed = some doc) {s : List Char} (hs : s ∈ feed.texts)
    {c : Char} (hc : c ∈ s) (hillegal : ¬IsLegal c) : c ∈ doc := by
  obtain ⟨texts, htexts⟩ := exists_items h
  rw [renderRss_eq htexts] at h
  cases h
  refine mem_document (mem_wrap ?_)
  rcases List.mem_append.mp hs with hs | hs
  · simp only [List.mem_cons, List.not_mem_nil, or_false] at hs
    rcases hs with rfl | rfl | rfl
    all_goals simp only [List.mem_append, mem_leaf hc hillegal, true_or, or_true]
  · obtain ⟨item, hitem, hs⟩ := List.mem_flatMap.mp hs
    obtain ⟨text, htext, hrendered⟩ := (Option.mapM_eq_some.mp htexts).exists_of_mem_left hitem
    refine List.mem_append_right _ (List.mem_flatten.mpr ⟨text, htext, ?_⟩)
    rw [rssItem_eq plain hrendered]
    refine mem_wrap ?_
    simp only [FeedItem.texts, List.mem_cons, List.not_mem_nil, or_false] at hs
    rcases hs with rfl | rfl | rfl
    all_goals simp only [List.mem_append, mem_leaf hc hillegal, true_or, or_true]

theorem field_inj {name : String} {text' : List Char} : field name text = field name text' ↔ text = text' := by
  simp [field, textNodes_inj]

theorem forall_texts {p : List Char → Prop} : (∀ s ∈ feed.texts, p s) ↔
    (p feed.title ∧ p feed.link ∧ p feed.description) ∧ ∀ item ∈ feed.items, ∀ s ∈ item.texts, p s := by
  simp only [Feed.texts, List.mem_append, List.mem_flatMap, or_imp, forall_and, List.mem_cons, List.not_mem_nil, or_false,
    forall_eq, forall_exists_index, and_imp]
  exact and_congr_right fun _ => ⟨fun h item hitem s hs => h s item hitem hs, fun h s item hitem hs => h item hitem s hs⟩

/-- Two readings of a feed are the same element when they read its texts alike. -/
theorem rssNode_inj {read read' : List Char → List Char} :
    rssNode printers read feed = rssNode printers read' feed ↔ ∀ s ∈ feed.texts, read s = read' s := by
  have hitem : ∀ item, rssItemNode printers read item = rssItemNode printers read' item ↔
      ∀ s ∈ item.texts, read s = read' s := fun item => by
    simp [rssItemNode, FeedItem.texts, field_inj]
  rw [forall_texts]
  simp only [rssNode, Node.element.injEq, List.cons.injEq, true_and, and_true, List.cons_append, List.nil_append, field_inj,
    List.map_inj_left, hitem, and_assoc]

theorem rssItem_eq_none (plain : Plain printers) : rssItem printers item = none ↔
    ∃ t, item.pubDate = some t ∧ ¬(0 ≤ yearOf t ∧ yearOf t ≤ 9999) := by
  rw [rssItem, Option.map_eq_none_iff]
  cases hdate : item.pubDate with
  | none => simp [rssDate]
  | some t => rw [rssDate, Option.map_eq_none_iff, plain.panics]; simp

theorem mapM_eq_none {items : List FeedItem} : items.mapM (rssItem printers) = none ↔
    ∃ item ∈ items, rssItem printers item = none := by
  induction items with
  | nil => simp
  | cons item items ih =>
    rw [List.mapM_cons, List.exists_mem_cons_iff, ← ih]
    cases rssItem printers item <;> cases items.mapM (rssItem printers) <;> simp

/-- An RSS document is one, and is read as the feed, exactly when the texts of the feed have no character that a document
    cannot hold, and no carriage return. A year that has not four digits is a panic. -/
theorem rss_read_back (plain : Plain printers) (feed : Feed) :
    (renderRss printers feed = none ↔
      ∃ item ∈ feed.items, ∃ t, item.pubDate = some t ∧ ¬(0 ≤ yearOf t ∧ yearOf t ≤ 9999)) ∧
    ∀ doc, renderRss printers feed = some doc →
      ((parse doc).isSome ↔ ∀ s ∈ feed.texts, ∀ c ∈ s, IsLegal c) ∧
      (parse doc = some (rssNode printers id feed) ↔ ∀ s ∈ feed.texts, (∀ c ∈ s, IsLegal c) ∧ '\r' ∉ s) := by
  constructor
  · simp only [renderRss, Option.map_eq_none_iff, mapM_eq_none, rssItem_eq_none plain]
  · intro doc h
    have hlegal : ∀ node, parse doc = some node → ∀ s ∈ feed.texts, ∀ c ∈ s, IsLegal c := fun node hparse s hs c hc =>
      not_not.mp fun hillegal => hillegal (legal_of_parse hparse c (mem_rss plain h hs hc hillegal))
    refine ⟨⟨fun hsome => ?_, fun hall => ?_⟩, ⟨fun hparse => ?_, fun hall => ?_⟩⟩
    · obtain ⟨node, hnode⟩ := Option.isSome_iff_exists.mp hsome
      exact hlegal node hnode
    · rw [parse_rss plain h hall]
      rfl
    · have hall := hlegal _ hparse
      rw [parse_rss plain h hall, Option.some.injEq, rssNode_inj] at hparse
      exact fun s hs => ⟨hall s hs, lineEnds_eq_self.mp (hparse s hs)⟩
    · rw [parse_rss plain h fun s hs => (hall s hs).1, Option.some.injEq, rssNode_inj]
      exact fun s hs => lineEnds_eq_self.mpr (hall s hs).2

end Rss

/-! ### Atom -/

section Atom
variable {π : Type} {printers : Printers π} {feed : Feed} {item : FeedItem} {now : DateTime} {text : List Char}

/-- A stamp is read as it is written. -/
theorem puts_stamp (name : String) (hname : isNameText name.toList = true) (hplain : ∀ c ∈ text, isStamp c = true) :
    Puts (leaf name.toList text) [field name text] := by
  have hputs := puts_field name hname fun c hc => (isStamp_plain (hplain c hc)).1
  rwa [lineEnds_stamp hplain] at hputs

theorem puts_link (hlegal : ∀ c ∈ text, IsLegal c) :
    Puts (emptyLeaf "link".toList "href".toList text) [linkNode (valueOf text)] := puts_emptyLeaf (by decide) (by decide) hlegal

theorem optional_eq {α : Type} {start stop : String} {write : α → List Char} {value : Option α} :
    optional start write stop value = value.toList.flatMap fun a => start.toList ++ write a ++ stop.toList := by
  cases value <;> simp [optional]

/-- An optional field whose text needs no escaping. -/
theorem optional_leaf {α : Type} {start stop : String} (name : String) {write : α → List Char}
    (hstart : start.toList = startTag name.toList) (hstop : stop.toList = endTag name.toList)
    (hplain : ∀ a, ∀ c ∈ write a, isStamp c = true) (value : Option α) :
    optional start write stop value = value.toList.flatMap fun a => leaf name.toList (write a) := by
  rw [optional_eq]
  refine List.flatMap_congr fun a _ => ?_
  rw [leaf, escape_stamp (hplain a), hstart, hstop]

theorem atomEntry_eq (plain : Plain printers) : atomEntry printers item =
    wrap "entry".toList (leaf "title".toList item.title ++ emptyLeaf "link".toList "href".toList item.link ++
      leaf "id".toList item.link ++ leaf "summary".toList item.description ++
      item.pubDate.toList.flatMap fun t => leaf "updated".toList (printers.rfc3339 t)) := by
  have hstart : "<entry><title>".toList = startTag "entry".toList ++ startTag "title".toList := rfl
  have hlink : "</title><link href=\"".toList =
      endTag "title".toList ++ ('<' :: "link".toList ++ (' ' :: "href".toList ++ ['=', '"'])) := rfl
  have hid : "\"/><id>".toList = ['"'] ++ (['/', '>'] ++ startTag "id".toList) := rfl
  have hsummary : "</id><summary>".toList = endTag "id".toList ++ startTag "summary".toList := rfl
  have hsummarized : "</summary>".toList = endTag "summary".toList := rfl
  have hend : "</entry>".toList = endTag "entry".toList := rfl
  unfold atomEntry
  rw [optional_leaf "updated" rfl rfl plain.rfc3339, hstart, hlink, hid, hsummary, hsummarized, hend]
  simp only [wrap, leaf, emptyLeaf, attributeText, xmlEscape_eq, List.append_assoc, List.cons_append, List.nil_append]

theorem puts_atomEntry (plain : Plain printers) (hlegal : ∀ s ∈ item.texts, ∀ c ∈ s, IsLegal c) :
    Puts (atomEntry printers item) [atomEntryNode printers (lineEnds false) valueOf item] := by
  have htitle := puts_field "title" (by decide) (hlegal item.title (by simp [FeedItem.texts]))
  have hlink := puts_link (hlegal item.link (by simp [FeedItem.texts]))
  have hid := puts_field "id" (by decide) (hlegal item.link (by simp [FeedItem.texts]))
  have hsummary := puts_field "summary" (by decide) (hlegal item.description (by simp [FeedItem.texts]))
  have hdates : Puts (item.pubDate.toList.flatMap fun t => leaf "updated".toList (printers.rfc3339 t))
      (item.pubDate.toList.map fun t => field "updated" (printers.rfc3339 t)) :=
    .map fun t _ => puts_stamp _ (by decide) (plain.rfc3339 t)
  rw [atomEntry_eq plain]
  exact puts_wrap _ (by decide) ((((htitle.append hlink).append hid).append hsummary).append hdates)

theorem renderAtom_eq (plain : Plain printers) : renderAtom printers now feed =
    document [] "feed".toList "xmlns".toList "http://www.w3.org/2005/Atom".toList
      (leaf "title".toList feed.title ++ emptyLeaf "link".toList "href".toList feed.link ++ leaf "id".toList feed.link ++
        leaf "updated".toList (printers.rfc3339 (lastUpdate now feed)) ++ leaf "subtitle".toList feed.description ++
        feed.items.flatMap (atomEntry printers)) := by
  have hstart : "<?xml version=\"1.0\" encoding=\"UTF-8\"?><feed xmlns=\"http://www.w3.org/2005/Atom\"><title>".toList =
      declaration ++ ('<' :: "feed".toList ++ attributeText "xmlns".toList "http://www.w3.org/2005/Atom".toList ++ ['>'] ++
        startTag "title".toList) := rfl
  have hlink : "</title><link href=\"".toList =
      endTag "title".toList ++ ('<' :: "link".toList ++ (' ' :: "href".toList ++ ['=', '"'])) := rfl
  have hid : "\"/><id>".toList = ['"'] ++ (['/', '>'] ++ startTag "id".toList) := rfl
  have hupdated : "</id><updated>".toList = endTag "id".toList ++ startTag "updated".toList := rfl
  have hsubtitle : "</updated><subtitle>".toList = endTag "updated".toList ++ startTag "subtitle".toList := rfl
  have hsubtitled : "</subtitle>".toList = endTag "subtitle".toList := rfl
  have hend : "</feed>".toList = endTag "feed".toList := rfl
  unfold renderAtom
  rw [hstart, hlink, hid, hupdated, hsubtitle, hsubtitled, hend]
  simp only [document, leaf, emptyLeaf, attributeText, xmlEscape_eq, escape_stamp (plain.rfc3339 _), List.append_assoc,
    List.cons_append, List.nil_append]

theorem parse_atom (plain : Plain printers) (hlegal : ∀ s ∈ feed.texts, ∀ c ∈ s, IsLegal c) :
    parse (renderAtom printers now feed) = some (atomNode printers (lineEnds false) valueOf now feed) := by
  have hitems : ∀ item ∈ feed.items, ∀ s ∈ item.texts, ∀ c ∈ s, IsLegal c := fun item hitem s hs =>
    hlegal s (List.mem_append_right _ (List.mem_flatMap.mpr ⟨item, hitem, hs⟩))
  have htitle := puts_field "title" (by decide) (hlegal feed.title (by simp [Feed.texts]))
  have hlink := puts_link (hlegal feed.link (by simp [Feed.texts]))
  have hid := puts_field "id" (by decide) (hlegal feed.link (by simp [Feed.texts]))
  have hupdated := puts_stamp "updated" (by decide) (plain.rfc3339 (lastUpdate now feed))
  have hsubtitle := puts_field "subtitle" (by decide) (hlegal feed.description (by simp [Feed.texts]))
  have hentries : Puts (feed.items.flatMap (atomEntry printers))
      (feed.items.map (atomEntryNode printers (lineEnds false) valueOf)) :=
    .map fun item hitem => puts_atomEntry plain (hitems item hitem)
  have hxmlns : _ ∧ ∀ c ∈ "http://www.w3.org/2005/Atom".toList, IsLegal c := plain_address rfl
  have hparsed := parse_document [] "feed".toList "xmlns".toList "http://www.w3.org/2005/Atom".toList (by simp) (by decide)
    (by decide) hxmlns.2 (((((htitle.append hlink).append hid).append hupdated).append hsubtitle).append hentries)
  rw [renderAtom_eq plain, hparsed, hxmlns.1]
  rfl

theorem mem_atom (plain : Plain printers) {s : List Char} (hs : s ∈ feed.texts) {c : Char} (hc : c ∈ s)
    (hillegal : ¬IsLegal c) : c ∈ renderAtom printers now feed := by
  rw [renderAtom_eq plain]
  refine mem_document ?_
  rcases List.mem_append.mp hs with hs | hs
  · simp only [List.mem_cons, List.not_mem_nil, or_false] at hs
    rcases hs with rfl | rfl | rfl
    all_goals simp only [List.mem_append, mem_leaf hc hillegal, true_or, or_true]
  · obtain ⟨item, hitem, hs⟩ := List.mem_flatMap.mp hs
    refine List.mem_append_right _ (List.mem_flatMap.mpr ⟨item, hitem, ?_⟩)
    rw [atomEntry_eq plain]
    refine mem_wrap ?_
    simp only [FeedItem.texts, List.mem_cons, List.not_mem_nil, or_false] at hs
    rcases hs with rfl | rfl | rfl
    all_goals simp only [List.mem_append, mem_leaf hc hillegal, true_or, or_true]

theorem atomNode_inj {read read' readValue readValue' : List Char → List Char} :
    atomNode printers read readValue now feed = atomNode printers read' readValue' now feed ↔
      (∀ s ∈ feed.texts, read s = read' s) ∧ ∀ s ∈ feed.links, readValue s = readValue' s := by
  have hitem : ∀ item, atomEntryNode printers read readValue item = atomEntryNode printers read' readValue' item ↔
      (∀ s ∈ item.texts, read s = read' s) ∧ readValue item.link = readValue' item.link := fun item => by
    simp only [atomEntryNode, FeedItem.texts, Node.element.injEq, List.cons.injEq, true_and, and_true, List.cons_append,
      List.nil_append, field_inj, linkNode, Prod.mk.injEq, List.forall_mem_cons, List.not_mem_nil, false_imp_iff,
      implies_true]
    tauto
  rw [forall_texts]
  simp only [atomNode, Node.element.injEq, List.cons.injEq, true_and, and_true, List.cons_append, List.nil_append, field_inj,
    linkNode, Prod.mk.injEq, List.map_inj_left, hitem, Feed.links, List.forall_mem_cons, List.forall_mem_map]
  constructor
  · rintro ⟨htitle, hvalue, hlink, hdescription, hitems⟩
    exact ⟨⟨⟨htitle, hlink, hdescription⟩, fun item hi => (hitems item hi).1⟩, hvalue, fun item hi => (hitems item hi).2⟩
  · rintro ⟨⟨⟨htitle, hlink, hdescription⟩, hitems⟩, hvalue, hvalues⟩
    exact ⟨htitle, hvalue, hlink, hdescription, fun item hi => ⟨hitems item hi, hvalues item hi⟩⟩

theorem last_of_foldl (dates : List DateTime) (date : DateTime) :
    let last := dates.foldl (fun last date => if last.nanos ≤ date.nanos then date else last) date
    last ∈ date :: dates ∧ ∀ t ∈ date :: dates, t.nanos ≤ last.nanos := by
  induction dates generalizing date with
  | nil => simp
  | cons next dates ih =>
    obtain ⟨hmem, hle⟩ := ih (if date.nanos ≤ next.nanos then next else date)
    simp only [List.foldl_cons]
    refine ⟨?_, ?_⟩
    · rcases List.mem_cons.mp hmem with heq | hmem
      · rw [heq]
        split <;> simp
      · exact List.mem_cons_of_mem _ (List.mem_cons_of_mem _ hmem)
    · have hfirst := hle _ (List.mem_cons_self ..)
      have hdate : date.nanos ≤ (if date.nanos ≤ next.nanos then next else date).nanos := by split <;> omega
      have hnext : next.nanos ≤ (if date.nanos ≤ next.nanos then next else date).nanos := by split <;> omega
      intro t ht
      rcases List.mem_cons.mp ht with rfl | ht
      · exact Int.le_trans hdate hfirst
      · rcases List.mem_cons.mp ht with rfl | ht
        · exact Int.le_trans hnext hfirst
        · exact hle t (List.mem_cons_of_mem _ ht)

/-- The time of the last publication, and the time of rendering when nothing has been published. -/
theorem lastUpdate_spec : (lastUpdate now feed ∈ feed.items.filterMap (·.pubDate) ∨
      feed.items.filterMap (·.pubDate) = [] ∧ lastUpdate now feed = now) ∧
    ∀ item ∈ feed.items, ∀ t, item.pubDate = some t → t.nanos ≤ (lastUpdate now feed).nanos := by
  have hmem : ∀ item ∈ feed.items, ∀ t, item.pubDate = some t → t ∈ feed.items.filterMap (·.pubDate) :=
    fun item hitem t ht => List.mem_filterMap.mpr ⟨item, hitem, ht⟩
  rw [lastUpdate]
  cases hdates : feed.items.filterMap (·.pubDate) with
  | nil => exact ⟨.inr ⟨rfl, rfl⟩, fun item hitem t ht => absurd (hdates ▸ hmem item hitem t ht) List.not_mem_nil⟩
  | cons date dates =>
    obtain ⟨hlast, hle⟩ := last_of_foldl dates date
    exact ⟨.inl hlast, fun item hitem t ht => hle t (hdates ▸ hmem item hitem t ht)⟩

/-- An Atom document is one exactly when the texts of the feed have no character that a document cannot hold. It is read as
    the feed exactly when besides no text has a carriage return and no link a line feed or a tab. -/
theorem atom_read_back (plain : Plain printers) (now : DateTime) (feed : Feed) :
    ((parse (renderAtom printers now feed)).isSome ↔ ∀ s ∈ feed.texts, ∀ c ∈ s, IsLegal c) ∧
    (parse (renderAtom printers now feed) = some (atomNode printers id id now feed) ↔
      (∀ s ∈ feed.texts, (∀ c ∈ s, IsLegal c) ∧ '\r' ∉ s) ∧ ∀ s ∈ feed.links, '\n' ∉ s ∧ '\t' ∉ s) ∧
    ∀ item ∈ feed.items, ∀ t, item.pubDate = some t → t.nanos ≤ (lastUpdate now feed).nanos := by
  have hlegal : ∀ node, parse (renderAtom printers now feed) = some node → ∀ s ∈ feed.texts, ∀ c ∈ s, IsLegal c :=
    fun node hparse s hs c hc =>
      not_not.mp fun hillegal => hillegal (legal_of_parse hparse c (mem_atom plain hs hc hillegal))
  have hlinks : ∀ s ∈ feed.links, s ∈ feed.texts := by
    intro s hs
    rcases List.mem_cons.mp hs with rfl | hs
    · simp [Feed.texts]
    · obtain ⟨item, hitem, rfl⟩ := List.mem_map.mp hs
      exact List.mem_append_right _ (List.mem_flatMap.mpr ⟨item, hitem, by simp [FeedItem.texts]⟩)
  refine ⟨⟨fun hsome => ?_, fun hall => ?_⟩, ⟨fun hparse => ?_, fun hall => ?_⟩, lastUpdate_spec.2⟩
  · obtain ⟨node, hnode⟩ := Option.isSome_iff_exists.mp hsome
    exact hlegal node hnode
  · rw [parse_atom plain hall]
    rfl
  · have hall := hlegal _ hparse
    rw [parse_atom plain hall, Option.some.injEq, atomNode_inj] at hparse
    exact ⟨fun s hs => ⟨hall s hs, lineEnds_eq_self.mp (hparse.1 s hs)⟩,
      fun s hs => (valueOf_eq_self.mp (hparse.2 s hs)).2⟩
  · rw [parse_atom plain fun s hs => (hall.1 s hs).1, Option.some.injEq, atomNode_inj]
    exact ⟨fun s hs => lineEnds_eq_self.mpr (hall.1 s hs).2,
      fun s hs => valueOf_eq_self.mpr ⟨(hall.1 s (hlinks s hs)).2, hall.2 s hs⟩⟩

end Atom

/-! ### Sitemaps -/

section Sitemaps
variable {π : Type} {printers : Printers π} {entries : List (SitemapEntry π)} {entry : SitemapEntry π}

theorem sitemapUrl_eq (plain : Plain printers) : sitemapUrl printers entry =
    wrap "url".toList (leaf "loc".toList entry.loc ++
      entry.lastmod.toList.flatMap (fun t => leaf "lastmod".toList (printers.rfc3339 t)) ++
      entry.changefreq.toList.flatMap (leaf "changefreq".toList) ++
      entry.priority.toList.flatMap fun p => leaf "priority".toList (printers.f32 p)) := by
  have hstart : "<url><loc>".toList = startTag "url".toList ++ startTag "loc".toList := rfl
  have hloc : "</loc>".toList = endTag "loc".toList := rfl
  have hend : "</url>".toList = endTag "url".toList := rfl
  have hchangefreq : optional "<changefreq>" xmlEscape "</changefreq>" entry.changefreq =
      entry.changefreq.toList.flatMap (leaf "changefreq".toList) := by
    rw [optional_eq]
    refine List.flatMap_congr fun text _ => ?_
    rw [leaf, xmlEscape_eq]
    rfl
  unfold sitemapUrl
  rw [optional_leaf "lastmod" rfl rfl plain.rfc3339, hchangefreq, optional_leaf "priority" rfl rfl plain.f32,
    hstart, hloc, hend]
  simp only [wrap, leaf, xmlEscape_eq, List.append_assoc]

theorem puts_sitemapUrl (plain : Plain printers) (hlegal : ∀ s ∈ entry.texts, ∀ c ∈ s, IsLegal c) :
    Puts (sitemapUrl printers entry) [sitemapUrlNode printers (lineEnds false) entry] := by
  have hloc := puts_field "loc" (by decide) (hlegal entry.loc (by simp [SitemapEntry.texts]))
  have hlastmod : Puts (entry.lastmod.toList.flatMap fun t => leaf "lastmod".toList (printers.rfc3339 t))
      (entry.lastmod.toList.map fun t => field "lastmod" (printers.rfc3339 t)) :=
    .map fun t _ => puts_stamp _ (by decide) (plain.rfc3339 t)
  have hchangefreq : Puts (entry.changefreq.toList.flatMap (leaf "changefreq".toList))
      (entry.changefreq.toList.map fun text => field "changefreq" (lineEnds false text)) :=
    .map fun text htext => puts_field _ (by decide) (hlegal text (List.mem_cons_of_mem _ htext))
  have hpriority : Puts (entry.priority.toList.flatMap fun p => leaf "priority".toList (printers.f32 p))
      (entry.priority.toList.map fun p => field "priority" (printers.f32 p)) :=
    .map fun p _ => puts_stamp _ (by decide) (plain.f32 p)
  rw [sitemapUrl_eq plain]
  exact puts_wrap _ (by decide) (((hloc.append hlastmod).append hchangefreq).append hpriority)

theorem renderSitemap_eq : renderSitemap printers entries = document ['\n'] "urlset".toList "xmlns".toList
    "http://www.sitemaps.org/schemas/sitemap/0.9".toList (entries.flatMap (sitemapUrl printers)) := by
  have hstart :
      "<?xml version=\"1.0\" encoding=\"UTF-8\"?>\n<urlset xmlns=\"http://www.sitemaps.org/schemas/sitemap/0.9\">".toList =
      declaration ++ (['\n'] ++ ('<' :: "urlset".toList ++
        attributeText "xmlns".toList "http://www.sitemaps.org/schemas/sitemap/0.9".toList ++ ['>'])) := rfl
  have hend : "</urlset>".toList = endTag "urlset".toList := rfl
  unfold renderSitemap
  rw [hstart, hend]
  simp only [document, List.append_assoc]

theorem parse_sitemap (plain : Plain printers) (hlegal : ∀ entry ∈ entries, ∀ s ∈ entry.texts, ∀ c ∈ s, IsLegal c) :
    parse (renderSitemap printers entries) = some (sitemapNode printers (lineEnds false) entries) := by
  have hurls : Puts (entries.flatMap (sitemapUrl printers)) (entries.map (sitemapUrlNode printers (lineEnds false))) :=
    .map fun entry hentry => puts_sitemapUrl plain (hlegal entry hentry)
  have hxmlns : _ ∧ ∀ c ∈ "http://www.sitemaps.org/schemas/sitemap/0.9".toList, IsLegal c := plain_address rfl
  have hparsed := parse_document ['\n'] "urlset".toList "xmlns".toList "http://www.sitemaps.org/schemas/sitemap/0.9".toList
    (by simp) (by decide) (by decide) hxmlns.2 hurls
  rw [renderSitemap_eq, hparsed, hxmlns.1]
  rfl

theorem mem_sitemap (plain : Plain printers) (hentry : entry ∈ entries) {s : List Char} (hs : s ∈ entry.texts) {c : Char}
    (hc : c ∈ s) (hillegal : ¬IsLegal c) : c ∈ renderSitemap printers entries := by
  rw [renderSitemap_eq]
  refine mem_document (List.mem_flatMap.mpr ⟨entry, hentry, ?_⟩)
  rw [sitemapUrl_eq plain]
  refine mem_wrap ?_
  rcases List.mem_cons.mp hs with rfl | hs
  · simp only [List.mem_append, mem_leaf hc hillegal, true_or]
  · exact List.mem_append_left _ (List.mem_append_right _ (List.mem_flatMap.mpr ⟨s, hs, mem_leaf hc hillegal⟩))

theorem sitemapNode_inj {read read' : List Char → List Char} :
    sitemapNode printers read entries = sitemapNode printers read' entries ↔
      ∀ entry ∈ entries, ∀ s ∈ entry.texts, read s = read' s := by
  have hentry : ∀ entry, sitemapUrlNode printers read entry = sitemapUrlNode printers read' entry ↔
      ∀ s ∈ entry.texts, read s = read' s := fun entry => by
    cases hchangefreq : entry.changefreq <;> simp [sitemapUrlNode, SitemapEntry.texts, field_inj, hchangefreq]
  simp only [sitemapNode, Node.element.injEq, true_and, List.map_inj_left, hentry]

/-- A sitemap is a document, and is read as its entries, exactly when the locations and frequencies have no character that a
    document cannot hold, and no carriage return. -/
theorem sitemap_read_back (plain : Plain printers) (entries : List (SitemapEntry π)) :
    ((parse (renderSitemap printers entries)).isSome ↔ ∀ entry ∈ entries, ∀ s ∈ entry.texts, ∀ c ∈ s, IsLegal c) ∧
    (parse (renderSitemap printers entries) = some (sitemapNode printers id entries) ↔
      ∀ entry ∈ entries, ∀ s ∈ entry.texts, (∀ c ∈ s, IsLegal c) ∧ '\r' ∉ s) := by
  have hlegal : ∀ node, parse (renderSitemap printers entries) = some node →
      ∀ entry ∈ entries, ∀ s ∈ entry.texts, ∀ c ∈ s, IsLegal c := fun node hparse entry hentry s hs c hc =>
    not_not.mp fun hillegal => hillegal (legal_of_parse hparse c (mem_sitemap plain hentry hs hc hillegal))
  refine ⟨⟨fun hsome => ?_, fun hall => ?_⟩, ⟨fun hparse => ?_, fun hall => ?_⟩⟩
  · obtain ⟨node, hnode⟩ := Option.isSome_iff_exists.mp hsome
    exact hlegal node hnode
  · rw [parse_sitemap plain hall]
    rfl
  · have hall := hlegal _ hparse
    rw [parse_sitemap plain hall, Option.some.injEq, sitemapNode_inj] at hparse
    exact fun entry hentry s hs => ⟨hall entry hentry s hs, lineEnds_eq_self.mp (hparse entry hentry s hs)⟩
  · rw [parse_sitemap plain fun entry hentry s hs => (hall entry hentry s hs).1, Option.some.injEq, sitemapNode_inj]
    exact fun entry hentry s hs => lineEnds_eq_self.mpr (hall entry hentry s hs).2

end Sitemaps

/-! ### A blog -/

/-- Printers that print the epoch as chrono does, and whole numbers of tenths. -/
def epochPrinters : Printers Nat where
  rfc2822 t :=
    if 0 ≤ yearOf t ∧ yearOf t ≤ 9999 then
      some (if t.nanos = 0 then "Thu, 1 Jan 1970 00:00:00 +0000".toList else [])
    else none
  rfc3339 t := if t.nanos = 0 then "1970-01-01T00:00:00+00:00".toList else []
  f32 tenths := if tenths = 5 then "0.5".toList else []

theorem epochPrinters_plain : Plain epochPrinters where
  rfc2822 t text h := by
    rw [epochPrinters] at h
    dsimp only at h
    split at h
    · cases h
      split
      · exact List.all_eq_true.mp rfl
      · exact fun c hc => absurd hc List.not_mem_nil
    · cases h
  rfc3339 t := by
    rw [epochPrinters]
    dsimp only
    split
    · exact List.all_eq_true.mp rfl
    · exact fun c hc => absurd hc List.not_mem_nil
  f32 p := by
    rw [epochPrinters]
    dsimp only
    split
    · exact List.all_eq_true.mp rfl
    · exact fun c hc => absurd hc List.not_mem_nil
  panics t := by
    rw [epochPrinters]
    dsimp only
    split
    · rename_i h
      exact iff_of_false (Option.some_ne_none _) (not_not.mpr h)
    · rename_i h
      exact iff_of_true rfl h

def blog : Feed where
  title := "Q&A <live>".toList
  link := "/blog?a=1&b=2".toList
  description := "It's \"on\"".toList
  items := [⟨"First".toList, "/blog/1".toList, "a\nb".toList, some ⟨0⟩⟩]

theorem readable_of_all {texts : List (List Char)}
    (h : (texts.all fun s => s.all fun c => decide (IsLegal c) && c != '\r') = true) :
    ∀ s ∈ texts, (∀ c ∈ s, IsLegal c) ∧ '\r' ∉ s := fun s hs => by
  have hchars : ∀ c ∈ s, (decide (IsLegal c) && c != '\r') = true := List.all_eq_true.mp (List.all_eq_true.mp h s hs)
  refine ⟨fun c hc => of_decide_eq_true (Bool.and_eq_true_iff.mp (hchars c hc)).1, fun hcr => ?_⟩
  exact bne_iff_ne.mp (Bool.and_eq_true_iff.mp (hchars _ hcr)).2 rfl

theorem blog_rss : ∃ doc, renderRss epochPrinters blog = some doc ∧ parse doc = some (rssNode epochPrinters id blog) := by
  have hrendered : ∃ doc, renderRss epochPrinters blog = some doc := Option.isSome_iff_exists.mp rfl
  obtain ⟨doc, hdoc⟩ := hrendered
  exact ⟨doc, hdoc, (((rss_read_back epochPrinters_plain blog).2 doc hdoc).2).mpr (readable_of_all rfl)⟩

theorem blog_atom : parse (renderAtom epochPrinters ⟨0⟩ blog) = some (atomNode epochPrinters id id ⟨0⟩ blog) :=
  (atom_read_back epochPrinters_plain ⟨0⟩ blog).2.1.mpr ⟨readable_of_all rfl, by decide⟩

theorem home_mapped : parse (renderSitemap epochPrinters [⟨"/?a&b".toList, some ⟨0⟩, some "daily".toList, some 5⟩]) =
    some (sitemapNode epochPrinters id [⟨"/?a&b".toList, some ⟨0⟩, some "daily".toList, some 5⟩]) :=
  (sitemap_read_back epochPrinters_plain _).2.mpr (List.forall_mem_singleton.mpr (readable_of_all rfl))

end Djangors.Contrib
