import Djangors.Db

/-! # Feeds and sitemaps

The documents of `djangors-contrib-syndication/src/lib.rs` and `djangors-contrib-sitemaps/src/lib.rs`. -/

namespace Djangors.Contrib

/-- `str::replace` of a character -/
def replaceChar (c : Char) (substitute : String) (input : List Char) : List Char :=
  input.flatMap fun d => if d = c then substitute.toList else [d]

/-- `xml_escape` -/
def xmlEscape (input : List Char) : List Char :=
  replaceChar '\'' "&#x27;" (replaceChar '"' "&quot;" (replaceChar '>' "&gt;" (replaceChar '<' "&lt;"
    (replaceChar '&' "&amp;" input))))

/-- What is written of an optional field. -/
def optional {α : Type} (start : String) (write : α → List Char) (stop : String) : Option α → List Char
  | some value => start.toList ++ write value ++ stop.toList
  | none => []

/-- How chrono writes a time, and the standard library an `f32`. `to_rfc2822` panics on a year that has not four digits. -/
structure Printers (π : Type) where
  rfc2822 : DateTime → Option (List Char)
  rfc3339 : DateTime → List Char
  f32 : π → List Char

/-! ### Feeds -/

structure FeedItem where
  title : List Char
  link : List Char
  description : List Char
  pubDate : Option DateTime

/-- What the methods of a `Feed` return. -/
structure Feed where
  title : List Char
  link : List Char
  description : List Char
  items : List FeedItem

section Feeds
variable {π : Type} (printers : Printers π)

def rssDate : Option DateTime → Option (List Char)
  | some date => (printers.rfc2822 date).map fun text => "<pubDate>".toList ++ text ++ "</pubDate>".toList
  | none => some []

/-- One turn of the loop of `render_rss`. -/
def rssItem (item : FeedItem) : Option (List Char) :=
  (rssDate printers item.pubDate).map fun date =>
    "<item><title>".toList ++ xmlEscape item.title ++ "</title><link>".toList ++ xmlEscape item.link ++
      "</link><description>".toList ++ xmlEscape item.description ++ "</description>".toList ++ date ++ "</item>".toList

/-- `render_rss`; `none` is a panic. -/
def renderRss (feed : Feed) : Option (List Char) :=
  (feed.items.mapM (rssItem printers)).map fun items =>
    "<?xml version=\"1.0\" encoding=\"UTF-8\"?><rss version=\"2.0\"><channel><title>".toList ++ xmlEscape feed.title ++
      "</title><link>".toList ++ xmlEscape feed.link ++ "</link><description>".toList ++ xmlEscape feed.description ++
      "</description>".toList ++ items.flatten ++ "</channel></rss>".toList

/-- The last publication, or the time of rendering. -/
def lastUpdate (now : DateTime) (feed : Feed) : DateTime :=
  match feed.items.filterMap (·.pubDate) with
  | [] => now
  | date :: dates => dates.foldl (fun last date => if last.nanos ≤ date.nanos then date else last) date

def atomEntry (item : FeedItem) : List Char :=
  "<entry><title>".toList ++ xmlEscape item.title ++ "</title><link href=\"".toList ++ xmlEscape item.link ++
    "\"/><id>".toList ++ xmlEscape item.link ++ "</id><summary>".toList ++ xmlEscape item.description ++
    "</summary>".toList ++ optional "<updated>" printers.rfc3339 "</updated>" item.pubDate ++ "</entry>".toList

/-- `render_atom` -/
def renderAtom (now : DateTime) (feed : Feed) : List Char :=
  "<?xml version=\"1.0\" encoding=\"UTF-8\"?><feed xmlns=\"http://www.w3.org/2005/Atom\"><title>".toList ++
    xmlEscape feed.title ++ "</title><link href=\"".toList ++ xmlEscape feed.link ++ "\"/><id>".toList ++
    xmlEscape feed.link ++ "</id><updated>".toList ++ printers.rfc3339 (lastUpdate now feed) ++
    "</updated><subtitle>".toList ++ xmlEscape feed.description ++ "</subtitle>".toList ++
    feed.items.flatMap (atomEntry printers) ++ "</feed>".toList

end Feeds

/-! ### Sitemaps -/

structure SitemapEntry (π : Type) where
  loc : List Char
  lastmod : Option DateTime
  changefreq : Option (List Char)
  priority : Option π

section Sitemaps
variable {π : Type} (printers : Printers π)

def sitemapUrl (entry : SitemapEntry π) : List Char :=
  "<url><loc>".toList ++ xmlEscape entry.loc ++ "</loc>".toList ++
    optional "<lastmod>" printers.rfc3339 "</lastmod>" entry.lastmod ++
    optional "<changefreq>" xmlEscape "</changefreq>" entry.changefreq ++
    optional "<priority>" printers.f32 "</priority>" entry.priority ++ "</url>".toList

/-- `render_sitemap` -/
def renderSitemap (entries : List (SitemapEntry π)) : List Char :=
  "<?xml version=\"1.0\" encoding=\"UTF-8\"?>\n<urlset xmlns=\"http://www.sitemaps.org/schemas/sitemap/0.9\">".toList ++
    entries.flatMap (sitemapUrl printers) ++ "</urlset>".toList

end Sitemaps
end Djangors.Contrib
