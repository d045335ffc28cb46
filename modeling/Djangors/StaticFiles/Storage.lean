import Djangors.Http.Dispatch
import Djangors.Lib.FileTree

/-! # Local storage

`LocalDiskStorage` (`djangors-staticfiles/src/storage.rs`), and how `StaticFiles` serves from such storages
(`djangors-staticfiles/src/serve.rs`). -/

namespace Djangors.StaticFiles
open FileTree Http

structure LocalDiskStorage where
  root : Path

namespace LocalDiskStorage
variable (storage : LocalDiskStorage) (cwd : List Name) (t : Tree) (key : List Char)

/-- `self.root.join(path)` -/
def target : Path := storage.root.join (.ofText key)

/-- `resolve_path` -/
def resolvePath : Option (List Name) :=
  if key = [] then none
  else if !pathExists t cwd (storage.target key) then none
  else
    match canonicalize t cwd (storage.target key) with
    | .error _ => none
    | .ok canonicalTarget =>
      match canonicalize t cwd storage.root with
      | .error _ => none
      | .ok canonicalDir => if canonicalDir.isPrefixOf canonicalTarget then some canonicalTarget else none

def save (content : List UInt8) : Tree × Except Error (List Char) :=
  let created := match (storage.target key).parent with
    | some parent => createDirAll cwd t parent.absolute parent.segments.reverse
    | none => (t, .ok ())
  match created with
  | (t', .error e) => (t', .error e)
  | (t', .ok ()) =>
    match write t' cwd (storage.target key) content with
    | .ok t'' => (t'', .ok key)
    | .error e => (t', .error e)

def openFile : Except Error (List UInt8) :=
  match storage.resolvePath cwd t key with
  | some p => readAt t p
  | none => .error .notFound

def exists_ : Bool := (storage.resolvePath cwd t key).isSome

def delete : Tree × Except Error Unit :=
  match removeFile t cwd (storage.target key) with
  | .ok t' => (t', .ok ())
  | .error .notFound => (t, .ok ())
  | .error e => (t, .error e)

end LocalDiskStorage

/-! ### Calls one after the other -/

inductive Call where
  | save (key : List Char) (content : List UInt8)
  | openFile (key : List Char)
  | exists_ (key : List Char)
  | delete (key : List Char)

namespace Call
variable (storage : LocalDiskStorage) (cwd : List Name)

def key : Call → List Char
  | save key _ | openFile key | exists_ key | delete key => key

/-- What a call leaves, and whether it is answered with `Ok`. -/
def exec (t : Tree) : Call → Tree × Bool
  | save key content => (storage.save cwd t key content).map id (·.toBool)
  | openFile key => (t, (storage.openFile cwd t key).toBool)
  | exists_ _ => (t, true)
  | delete key => (storage.delete cwd t key).map id (·.toBool)

/-- What keys read after a call, as it was answered. -/
def remember (reads : List Char → Option (List UInt8)) (ok : Bool) : Call → List Char → Option (List UInt8)
  | save key content => if ok then Function.update reads key (some content) else reads
  | delete key => if ok then Function.update reads key none else reads
  | openFile _ | exists_ _ => reads

/-- The tree and what the answers say of the keys, after one more call. -/
def next (s : Tree × (List Char → Option (List UInt8))) (call : Call) : Tree × (List Char → Option (List UInt8)) :=
  ((call.exec storage cwd s.1).1, call.remember s.2 (call.exec storage cwd s.1).2)

end Call

/-! ### Serving -/

/-- The path of a request below the directories that are served. -/
def relPath (req : Request) (params : PathParams) : List Char :=
  match params.get "path".toList with
  | some path => path
  | none =>
    if "/static/".toList.isPrefixOf req.path then req.path.drop "/static/".length
    else req.path.dropWhile (· = '/')

/-- `Path::extension` of a file name. -/
def extension (name : Name) : List Char :=
  if (name.rdropWhile (· ≠ '.')).dropLast = [] then [] else name.rtakeWhile (· ≠ '.')

def fileExtension (path : List Char) : List Char :=
  match (Path.ofText path).components.getLast? with
  | some name => if name = ['.', '.'] ∨ name = ['.'] then [] else extension name
  | none => []

def contentType (path : List Char) : String :=
  match String.ofList ((fileExtension path).map Char.toLower) with
  | "css" => "text/css; charset=utf-8"
  | "js" => "application/javascript; charset=utf-8"
  | "png" => "image/png"
  | "jpg" | "jpeg" => "image/jpeg"
  | "svg" => "image/svg+xml"
  | "woff" => "font/woff"
  | "woff2" => "font/woff2"
  | "json" => "application/json; charset=utf-8"
  | _ => "application/octet-stream"

/-- The answer with what is found. -/
def served (req : Request) (params : PathParams) : Option (List UInt8) → Except DjangorsError Response
  | none => .error .notFound
  | some content => .ok ⟨200, [("content-type".toList, Text.bytes (contentType (relPath req params)))], content⟩

section Serve
variable (message : Error → List Char) (cwd : List Name) (t : Tree)

/-- The loop over the directories. -/
def find (path : List Char) : List LocalDiskStorage → Except DjangorsError (Option (List UInt8))
  | [] => .ok none
  | backend :: backends =>
    if backend.exists_ cwd t path then
      match backend.openFile cwd t path with
      | .ok content => .ok (some content)
      | .error e => .error (.internal (message e))
    else find path backends

/-- `StaticFiles::serve` -/
def serve (backends : List LocalDiskStorage) (req : Request) (params : PathParams) : Except DjangorsError Response :=
  match find message cwd t (relPath req params) backends with
  | .error e => .error e
  | .ok content => served req params content

end Serve
end Djangors.StaticFiles
