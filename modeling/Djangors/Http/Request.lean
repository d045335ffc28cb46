import Mathlib.Data.Finmap
import Djangors.Lib.Urlencoded

/-! # Requests

Methods, headers and path parameters (`djangors-core`: `request.rs`, `path_params.rs`). -/

namespace Djangors.Http

/-- `hyper::http::Method` -/
inductive Method where
  | options
  | get
  | post
  | put
  | delete
  | head
  | trace
  | connect
  | patch
  | extension (name : List Char)
  deriving DecidableEq, Repr

/-- `PathParams`: a map from names to values. -/
structure PathParams where
  params : Finmap fun _ : List Char => List Char

namespace PathParams

def new : PathParams := ⟨∅⟩

def insert (params : PathParams) (key value : List Char) : PathParams := ⟨params.params.insert key value⟩

def get (params : PathParams) (key : List Char) : Option (List Char) := params.params.lookup key

theorem get_new (key : List Char) : new.get key = none := Finmap.lookup_empty key

theorem get_insert_self (params : PathParams) (key value : List Char) : (params.insert key value).get key = some value :=
  Finmap.lookup_insert _

theorem get_insert_of_ne {key name : List Char} (h : name ≠ key) (params : PathParams) (value : List Char) :
    (params.insert key value).get name = params.get name :=
  Finmap.lookup_insert_of_ne _ h

end PathParams

/-! ### Query strings -/

/-- The key and the value of a part of a query string: the first `=` separates them. -/
def splitPair (pair : List Char) : List Char × List Char :=
  (pair.takeWhile (· ≠ '='), (pair.dropWhile (· ≠ '=')).drop 1)

/-- `Request::parse_query`: the parameters in their order. `decode` reads percent-encoded UTF-8; what is none stays as
    it is. -/
def parseQuery (decode : List Char → List Char) (query : List Char) : List (List Char × List Char) :=
  ((query.splitOn '&').map fun pair => ((splitPair pair).map decode decode)).filter (·.1 ≠ [])

/-- The query string of a request, if it has one. -/
structure Query where
  decode : List Char → List Char
  raw : Option (List Char)

/-- `query`: a later parameter takes the place of an earlier one. -/
def Query.get (query : Query) (name : String) : Option String :=
  ((parseQuery query.decode (query.raw.getD [])).reverse.lookup name.toList).map String.ofList

/-! ### Headers -/

/-- Header values in their order, under names in lower case. -/
abbrev HeaderMap := List (List Char × List UInt8)

namespace HeaderMap

def getAll (headers : HeaderMap) (name : List Char) : List (List UInt8) :=
  headers.filterMap fun entry => if entry.1 = name.map Char.toLower then some entry.2 else none

def get (headers : HeaderMap) (name : List Char) : Option (List UInt8) := (headers.getAll name).head?

end HeaderMap

def isVisibleAscii (byte : UInt8) : Bool := byte == 9 || 32 ≤ byte && byte < 127

theorem visible_lt {b : UInt8} (h : isVisibleAscii b = true) : b < 128 := by
  simp only [isVisibleAscii, Bool.or_eq_true, Bool.and_eq_true, beq_iff_eq, decide_eq_true_eq] at h
  rcases h with rfl | ⟨_, h⟩
  · decide
  · exact UInt8.lt_trans h (by decide)

/-- `HeaderValue::to_str` -/
def toStr (value : List UInt8) : Option (List Char) :=
  if value.all isVisibleAscii then some (value.map fun byte => Char.ofNat byte.toNat) else none

/-- The extensions that the CSRF protection puts on a request. -/
structure Extensions where
  csrfToken : Option (List Char)
  csrfPendingFormCheck : Option (List Char)

/-- A request as it comes in. Reading its body may fail. -/
structure HyperRequest where
  method : Method
  path : List Char
  headers : HeaderMap
  extensions : Extensions
  body : Except (List Char) (List UInt8)

/-- A request whose body has been read. -/
structure Request where
  method : Method
  path : List Char
  headers : HeaderMap
  extensions : Extensions
  body : List UInt8

def Request.header (req : Request) (name : String) : Option (List UInt8) := req.headers.get name.toList

end Djangors.Http

/-! ## Extracted query parameters

What `Request::parse_query` (`djangors-core/src/request.rs`) and the `Query` extractor (`djangors-core/src/extract.rs`) read
with the crates that they call. -/

namespace Djangors.Http

/-- The crates that read query strings: `percent_decode_str(raw).decode_utf8()`, and the entries that
    `serde_urlencoded::from_str` puts into a map one after the other. -/
structure UrlCrates where
  lossy : Urlencoded.Lossy
  decodeUtf8 : List Char → Option (List Char)
  fromStr : List Char → List (List Char × List Char)
  decodeUtf8_eq : ∀ raw, decodeUtf8 raw = Urlencoded.strictText? raw
  fromStr_eq : ∀ raw, fromStr raw = Urlencoded.parse lossy raw

namespace UrlCrates
variable (crates : UrlCrates)

/-- `percent_decode_str(raw).decode_utf8()`, or else the text as it is -/
def decode (raw : List Char) : List Char := (crates.decodeUtf8 raw).getD raw

/-- The query of a request. -/
def query (raw : Option (List Char)) : Query := ⟨crates.decode, raw⟩

/-- `Query::<HashMap<String, String>>::from_request`: what the map has for a key. -/
def extract (raw : Option (List Char)) (key : String) : Option String :=
  ((crates.fromStr (raw.getD [])).reverse.lookup key.toList).map String.ofList

end UrlCrates

end Djangors.Http
