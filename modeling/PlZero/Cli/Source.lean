import PlZero.Text.Quoted
import PlZero.Text.Utf8

/-! # Source files

A source is read as bytes, decoded, and its line ends made alike.  `ReadError` says why that can
fail.  A `Directory` holds files by name and answers for paths as a file system does.
-/

namespace PlZero.Cli

/-- Why a source cannot be read. -/
inductive ReadError
  | noSuchFile (path : String)
  | isDirectory (path : String)
  | notDirectory (path : String)
  | undecodable (cause : Text.Utf8.Invalid)
deriving DecidableEq, Repr

/-- The words for why a source cannot be read. -/
def ReadError.message : ReadError → String
  | .noSuchFile path => "[Errno 2] No such file or directory: " ++ Text.quote path
  | .isDirectory path => "[Errno 21] Is a directory: " ++ Text.quote path
  | .notDirectory path => "[Errno 20] Not a directory: " ++ Text.quote path
  | .undecodable cause => cause.message

/-- Makes every line end a line feed: carriage return, line feed, or the two in this order. -/
def unifyLines : List Char → List Char
  | [] => []
  | '\r' :: '\n' :: cs => '\n' :: unifyLines cs
  | '\r' :: cs => '\n' :: unifyLines cs
  | c :: cs => c :: unifyLines cs

/-- The text of a source. -/
def decodeSource (bytes : List UInt8) : Except ReadError String :=
  match Text.Utf8.decode bytes with
  | .ok cs => .ok (String.ofList (unifyLines cs))
  | .error cause => .error (.undecodable cause)

/-! ## Directories -/

/-- Files by name, without directories among them. -/
structure Directory where
  files : List (String × List UInt8) := []

/-- The parts of a path that lead somewhere. -/
def pathParts (path : String) : List String :=
  (path.splitOn "/").filter fun part => part ≠ "" && part ≠ "."

/-- Whether a path can only name a directory, by its last part. -/
def endsInDirectory (path : String) : Bool :=
  match (path.splitOn "/").getLast? with
  | some last => last = "" || last = "." || last = ".."
  | none => false

/-- The bytes of the file at a path.  Nothing is known of other directories than this one, but that
they are there. -/
def Directory.read (d : Directory) (path : String) : Except ReadError (List UInt8) :=
  let parts := pathParts path
  if path = "" then .error (.noSuchFile path)
  else if parts.all (· = "..") then .error (.isDirectory path)
  else if path.startsWith "/" then .error (.noSuchFile path)
  else
    match parts with
    | [] => .error (.isDirectory path)
    | name :: more =>
      match d.files.lookup name with
      | none => .error (.noSuchFile path)
      | some bytes =>
        if more.isEmpty && !endsInDirectory path then .ok bytes
        else .error (.notDirectory path)

end PlZero.Cli
