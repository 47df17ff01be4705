import Conformance.Text.Utf8

/-!
Files and directories by path. A tree lists its files, and those directories that hold none; every
other directory is there because of what it holds. Names are bytes, and paths are looked up from the
working directory unless they start at the root.
-/
namespace Conformance

inductive FileFault where
  | notFound
  | notDirectory
  | isDirectory
  | nameTooLong
  /-- A name has a zero byte. -/
  | zeroInName
  | invalidText
  deriving DecidableEq, Repr

def FileFault.message : FileFault → String
  | notFound => "No such file or directory (os error 2)"
  | notDirectory => "Not a directory (os error 20)"
  | isDirectory => "Is a directory (os error 21)"
  | nameTooLong => "File name too long (os error 36)"
  | zeroInName => "file name contained an unexpected NUL byte"
  | invalidText => "stream did not contain valid UTF-8"

/-- A path as it is shown, and the names in it. -/
structure FilePath where
  text : String
  names : List (List UInt8)
  deriving DecidableEq, Repr

namespace FilePath

def slash : UInt8 := 0x2f

def dot : UInt8 := 0x2e

/-- Names between slashes, where `name` is what has been read of the first, the latest first. -/
def splitFrom (name : List UInt8) : List UInt8 → List (List UInt8)
  | [] => [name.reverse]
  | b :: rest => if b = slash then name.reverse :: splitFrom [] rest else splitFrom (b :: name) rest

def split (bytes : List UInt8) : List (List UInt8) := splitFrom [] bytes

def ofText (s : String) : FilePath := ⟨s, split (Text.toUtf8 s)⟩

def joinText (s t : String) : String :=
  if s.isEmpty || s.endsWith "/" then s ++ t else s ++ "/" ++ t

def child (p : FilePath) (name : List UInt8) : FilePath :=
  ⟨joinText p.text (Text.ofUtf8Lossy name), p.names ++ [name]⟩

/-- What comes after the last dot of the last name, unless the name starts with that dot. -/
def extension? (p : FilePath) : Option (List UInt8) := do
  let name ← p.names.getLast?
  let ending := name.reverse.takeWhile (· != dot)
  if ending.length + 1 < name.length then some ending.reverse else none

def join (p : FilePath) (relative : String) : FilePath :=
  ⟨joinText p.text relative, p.names ++ split (Text.toUtf8 relative)⟩

end FilePath

inductive FileItem where
  | file (bytes : List UInt8)
  | directory
  deriving DecidableEq, Repr

/-- Every item with the names that lead to it. -/
structure FileTree where
  items : List (List (List UInt8) × FileItem)

namespace FileTree

def empty : FileTree := ⟨[]⟩

def here : List UInt8 := [FilePath.dot]

def above : List UInt8 := [FilePath.dot, FilePath.dot]

/-- A name is at most this long, in bytes. -/
def maxNameLength : Nat := 255

/-- A path is shorter than this, with a byte for each slash between two names. -/
def maxPathLength : Nat := 4096

/-- The name under which a tree lists what is found from the root. -/
def root : List UInt8 := [FilePath.slash]

/-- What is at a place, if there is anything. Working directory and root are always there. -/
def at? (t : FileTree) (place : List (List UInt8)) : Option FileItem :=
  match t.items.lookup place with
  | some item => some item
  | none =>
    if place.isEmpty || place == [root] || t.items.any fun (names, _) => place.isPrefixOf names then
      some .directory
    else none

def follow (t : FileTree) (place : List (List UInt8)) :
    List (List UInt8) → Except FileFault (List (List UInt8))
  | [] => .ok place
  | name :: rest =>
    match t.at? place with
    | none => .error .notFound
    | some (.file _) => .error .notDirectory
    | some .directory =>
      if name = here ∨ name = [] then t.follow place rest
      else if name = above then t.follow place.dropLast rest
      else if maxNameLength < name.length then .error .nameTooLong
      else t.follow (place ++ [name]) rest

/-- The place that a path leads to, which need not hold anything. -/
def resolve (t : FileTree) (p : FilePath) : Except FileFault (List (List UInt8)) :=
  if p.names.any (·.contains 0) then .error .zeroInName
  else if maxPathLength < p.names.foldl (fun n name => n + name.length + 1) 0 then
    .error .nameTooLong
  else match p.names with
  | [] => .error .notFound
  | [[]] => .error .notFound
  | [] :: rest => t.follow [root] rest
  | names => t.follow [] names

def find (t : FileTree) (p : FilePath) : Except FileFault (List (List UInt8) × FileItem) := do
  let place ← t.resolve p
  match t.at? place with
  | some item => .ok (place, item)
  | none => .error .notFound

def isFile (t : FileTree) (p : FilePath) : Bool :=
  match t.find p with
  | .ok (_, .file _) => true
  | _ => false

def readText (t : FileTree) (p : FilePath) : Except FileFault String :=
  match t.find p with
  | .ok (_, .file bytes) =>
    match Text.ofUtf8? bytes with
    | some text => .ok text
    | none => .error .invalidText
  | .ok (_, .directory) => .error .isDirectory
  | .error fault => .error fault

/-- The names in a directory, each once. -/
def list (t : FileTree) (p : FilePath) : Except FileFault (List (List UInt8)) :=
  match t.find p with
  | .ok (place, .directory) =>
    .ok ((t.items.filterMap fun (names, _) =>
      if place.isPrefixOf names then names[place.length]? else none).eraseDups)
  | .ok (_, .file _) => .error .notDirectory
  | .error fault => .error fault

/-- A path to a file without the slashes after it. -/
def trimmed (p : FilePath) : FilePath :=
  ⟨p.text, (p.names.reverse.dropWhile List.isEmpty).reverse⟩

/-- A new or changed file. The directory that it is in has to be there, and a path with a slash
after it is never that of a file. -/
def write (t : FileTree) (p : FilePath) (bytes : List UInt8) : Except FileFault FileTree := do
  let slashed := p.names.getLast? == some [] && p.names != [[]]
  if slashed && p.names.all List.isEmpty then .error .isDirectory
  let place ← t.resolve (if slashed then trimmed p else p)
  if slashed || t.at? place == some .directory then .error .isDirectory
  return ⟨(place, .file bytes) :: t.items.filter (·.1 != place)⟩

end FileTree

end Conformance
