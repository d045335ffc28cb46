import Djangors.Lib.Frames
import Djangors.Lib.Sha256
import Djangors.Lib.Urlencoded
import Djangors.StaticFiles.Storage

/-! # Uploads

Where an uploaded file is stored (`djangors-staticfiles/src/upload.rs`), and how its bytes are scanned by `clamd`
(`djangors-staticfiles/src/clamav.rs`). -/

namespace FileTree

/-- `Path::file_name` -/
def Path.fileName (path : Path) : Option Name :=
  match path.components.getLast? with
  | some name => if name = ['.'] ∨ name = ['.', '.'] then none else some name
  | none => none

/-- The stem and the extension of a file name. A dot at its start begins no extension. -/
def splitAtDot (name : Name) : Name × Option Name :=
  let before := (name.rdropWhile (· ≠ '.')).dropLast
  if before = [] then (name, none) else (before, some (name.rtakeWhile (· ≠ '.')))

end FileTree

namespace Djangors.StaticFiles
open FileTree

/-- A `Storage`: what it does with its state when it saves. -/
structure Storage (σ ε : Type) where
  save : σ → List Char → List UInt8 → σ × Except ε (List Char)

/-- `char::is_alphanumeric`, which Unicode extends. -/
structure Alphanumeric where
  is : Char → Bool
  ascii : ∀ c, c.toNat < 128 → is c = c.isAlphanum

/-- `format!("{:x}")` of bytes. -/
def lowerHex (bytes : List UInt8) : List Char :=
  bytes.flatMap fun b => [Nat.digitChar (b.toNat / 16), Nat.digitChar (b.toNat % 16)]

structure UploadedFile where
  fileName : List Char
  bytes : List UInt8

section Upload
variable (alphanumeric : Alphanumeric)

def isSafe (c : Char) : Bool := alphanumeric.is c || c == '-' || c == '_' || c == '.'

/-- What is kept of a stem. -/
def safeStem (stem : Name) : Name :=
  if stem.filter (isSafe alphanumeric) = [] then "upload".toList else stem.filter (isSafe alphanumeric)

def shortHash (bytes : List UInt8) : List Char := (lowerHex (Sha256.sha256 bytes)).take 12

def generateStoragePath (fileName : List Char) (bytes : List UInt8) : List Char :=
  let parts := (Path.ofText fileName).fileName.map splitAtDot
  let ext := match parts.bind (·.2) with
    | some e => '.' :: e
    | none => []
  let stem := (parts.map (·.1)).getD "upload".toList
  safeStem alphanumeric stem ++ '_' :: shortHash bytes ++ ext

/-- The path that an upload is saved at. -/
def fullPath (file : UploadedFile) (destDir : List Char) : List Char :=
  let storedName := generateStoragePath alphanumeric file.fileName file.bytes
  if destDir = [] then storedName else destDir.rdropWhile (· = '/') ++ '/' :: storedName

def saveUpload {σ ε : Type} (storage : Storage σ ε) (s : σ) (file : UploadedFile) (destDir : List Char) :
    σ × Except ε (List Char) :=
  storage.save s (fullPath alphanumeric file destDir) file.bytes

end Upload

/-! ### Scanning -/

inductive ScanResult where
  | clean
  | infected (signature : List Char)
  deriving DecidableEq

inductive ClamAvError (ε : Type) where
  | io (e : ε)
  | unexpectedResponse (text : List Char)

/-- A connection to `clamd`: whether it takes more bytes after those that were sent, and what it replies to them. -/
structure Stream (ε : Type) where
  write : List UInt8 → List UInt8 → Except ε Unit
  reply : List UInt8 → Except ε (List UInt8)

namespace Stream
variable {ε : Type} (stream : Stream ε)

/-- `write_all`, with the bytes that have been sent then. -/
def writeAll (sent bytes : List UInt8) : Except (ClamAvError ε) (List UInt8) :=
  match stream.write sent bytes with
  | .ok () => .ok (sent ++ bytes)
  | .error e => .error (.io e)

/-- `read_to_end` -/
def readToEnd (sent : List UInt8) : Except (ClamAvError ε) (List UInt8) :=
  match stream.reply sent with
  | .ok raw => .ok raw
  | .error e => .error (.io e)

end Stream

def command : List UInt8 := "zINSTREAM\x00".toList.map fun c => UInt8.ofNat c.toNat

section Scan
variable {ε : Type} (lossy : Urlencoded.Lossy)

def parseResponse (raw : List UInt8) : Except (ClamAvError ε) ScanResult :=
  let text := Text.trim ((lossy.decode raw).rdropWhile (· = '\x00'))
  if "stream:".toList.isPrefixOf text then
    let rest := Text.trim (text.drop "stream:".length)
    if rest = "OK".toList then .ok .clean
    else if "FOUND".toList.isSuffixOf rest then .ok (.infected (Text.trim (rest.take (rest.length - "FOUND".length))))
    else .error (.unexpectedResponse text)
  else .error (.unexpectedResponse text)

/-- The bytes that are sent: the chunks behind their lengths, and the empty one. -/
def send (chunkSize : Nat) (stream : Stream ε) (data : List UInt8) : Except (ClamAvError ε) (List UInt8) := do
  let sent ← stream.writeAll [] command
  let sent ← (Frames.chunks (max chunkSize 1) data).foldlM (fun sent chunk => do
    let sent ← stream.writeAll sent (Frames.bigEndian (UInt32.ofNat chunk.length))
    stream.writeAll sent chunk) sent
  stream.writeAll sent (Frames.bigEndian 0)

def scanOver (chunkSize : Nat) (stream : Stream ε) (data : List UInt8) : Except (ClamAvError ε) ScanResult := do
  let sent ← send chunkSize stream data
  parseResponse lossy (← stream.readToEnd sent)

end Scan
end Djangors.StaticFiles
