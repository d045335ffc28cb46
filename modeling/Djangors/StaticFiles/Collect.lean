import Djangors.StaticFiles.Uploads

/-! # Collecting static files

`StaticFiles::collect_to` (`djangors-staticfiles/src/collect.rs`): the files of the source directories under keys with a part
of their hash. -/

namespace FileTree

/-- `Path::is_file` -/
def isFile (t : Tree) (cwd : List Name) (path : Path) : Bool :=
  match canonicalize t cwd path with
  | .ok p =>
    match t.node p with
    | some (.file _) => true
    | _ => false
  | .error _ => false

/-- `fs::read` -/
def readFile (t : Tree) (cwd : List Name) (path : Path) : Except Error (List UInt8) :=
  match canonicalize t cwd path with
  | .ok p => readAt t p
  | .error e => .error e

/-- The text of a path. -/
def Path.text (path : Path) : List Char :=
  if path.absolute then '/' :: ['/'].intercalate path.segments else ['/'].intercalate path.segments

/-- What `fs::read_dir` lists of a directory: what stands in it, in any order. -/
structure Listing (t : Tree) where
  entries : List Name → Except Error (List Name)
  nodup : ∀ p names, entries p = .ok names → names.Nodup
  mem : ∀ p names, entries p = .ok names → ∀ name, name ∈ names ↔ t.node (p ++ [name]) ≠ none

end FileTree

namespace Djangors.StaticFiles
open FileTree

local instance lawfulWords : LawfulBEq (List Char) := inferInstance

/-- Backslashes as slashes. -/
def forwardSlashes (text : List Char) : List Char := text.map fun c => if c = '\\' then '/' else c

inductive CollectError (ε : Type) where
  | io (e : Error)
  | json
  | storage (e : ε)

section Walk
variable {t : Tree} (cwd : List Name) (listing : Listing t)

def readDir (path : Path) : Except Error (List Name) :=
  match canonicalize t cwd path with
  | .ok p => listing.entries p
  | .error e => .error e

/-- `walk_dir`, as deep as the directories may be. -/
def walkDir (dir : Path) : Nat → List Name → Except Error (List (List Name))
  | 0, _ => .error .loop
  | depth + 1, current =>
    if isDir t cwd (below dir current) then
      match readDir cwd listing (below dir current) with
      | .error e => .error e
      | .ok entries =>
        (entries.mapM fun name =>
          let rel := current ++ [name]
          if isDir t cwd (below dir rel) then walkDir dir depth rel
          else if isFile t cwd (below dir rel) then .ok [rel]
          else .ok []).map List.flatten
    else .ok []

/-- `rel.to_string_lossy().replace('\\', "/")` -/
def relStr (rel : List Name) : List Char := forwardSlashes (['/'].intercalate rel)

/-- Files are added where their path is not taken. -/
def addFiles (dir : Path) (files : List (List Name)) (collected : List (List Char × Path)) : List (List Char × Path) :=
  files.foldl (fun collected rel =>
    if relStr rel ∈ collected.map (·.1) then collected else collected ++ [(relStr rel, below dir rel)]) collected

def filesOf (depth : Nat) (dir : Path) : Except Error (List (List Name)) :=
  if pathExists t cwd dir && isDir t cwd dir then walkDir cwd listing dir depth [] else .ok []

def collectFiles (depth : Nat) (dirs : List Path) : Except Error (List (List Char × Path)) :=
  dirs.foldlM (fun collected dir => do
    let files ← filesOf cwd listing depth dir
    pure (addFiles dir files collected)) []

end Walk

/-- A file name with the hash before its extension. -/
def hashedFileName (fileName hash : List Char) : List Char :=
  match (Path.ofText fileName).fileName.map splitAtDot with
  | some (stem, some ext) => stem ++ '.' :: hash ++ '.' :: ext
  | _ => fileName ++ '.' :: hash

def getHashedRelativePath (relPath hash : List Char) : List Char :=
  let path := Path.ofText relPath
  let parent := path.parent.getD (Path.ofText [])
  let hashed := hashedFileName (path.fileName.getD relPath) hash
  if parent.text = [] then hashed else forwardSlashes (parent.join (Path.ofText hashed)).text

def hashPrefix (content : List UInt8) : List Char := (lowerHex (Sha256.sha256 content)).take 8

structure Manifest where
  mapping : List (List Char × List Char)

section Save
variable {σ ε : Type} {t : Tree} (cwd : List Name) (storage : Storage σ ε)

/-- The loop over the collected files. -/
def saveFiles : σ → List (List Char × Path) → List (List Char × List Char) →
    σ × Except (CollectError ε) (List (List Char × List Char))
  | s, [], mapping => (s, .ok mapping)
  | s, (relPath, absPath) :: files, mapping =>
    match readFile t cwd absPath with
    | .error e => (s, .error (.io e))
    | .ok content =>
      let hashedRelPath := getHashedRelativePath relPath (hashPrefix content)
      match storage.save s hashedRelPath content with
      | (s', .error e) => (s', .error (.storage e))
      | (s', .ok _) => saveFiles s' files (mapping ++ [(relPath, hashedRelPath)])

/-- `collect_to`, with the order in which a map gives its entries and how a manifest is written. -/
def collectTo (listing : Listing t) (depth : Nat) (iterate : List (List Char × Path) → List (List Char × Path))
    (json : Manifest → Option (List UInt8)) (dirs : List Path) (s : σ) : σ × Except (CollectError ε) Manifest :=
  match collectFiles cwd listing depth dirs with
  | .error e => (s, .error (.io e))
  | .ok collected =>
    match saveFiles (t := t) cwd storage s (iterate collected) [] with
    | (s', .error e) => (s', .error e)
    | (s', .ok mapping) =>
      match json ⟨mapping⟩ with
      | none => (s', .error .json)
      | some manifest =>
        match storage.save s' "manifest.json".toList manifest with
        | (s'', .error e) => (s'', .error (.storage e))
        | (s'', .ok _) => (s'', .ok ⟨mapping⟩)

end Save
end Djangors.StaticFiles
