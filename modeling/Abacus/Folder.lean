import Abacus.Text.Quoted

/-!
# Files in a folder

A location is a path in its shortest spelling: separators are not repeated or
left at the end, and single points are dropped. Two points stay. A folder holds
files, each under a path of names, and answers what is found at a location. Of
the places outside the folder only the root and the null device are known.
-/

namespace Abacus

/-- A path to a file: a root, which is empty for a path from the current folder,
and the parts below it. -/
structure Location where
  root : String
  parts : List String
  deriving DecidableEq, Repr

namespace Location

/-- The parts of a text between separators. -/
def split (text : String) : List String :=
  let cut (c : Char) (parts : List (List Char)) : List (List Char) :=
    match c, parts with
    | '/', parts => [] :: parts
    | c, part :: parts => (c :: part) :: parts
    | c, [] => [[c]]
  (text.toList.foldr cut [[]]).map String.ofList

/-- The root of a path: exactly two separators in front are a root of their own. -/
def rootOf : List Char → String
  | '/' :: '/' :: '/' :: _ => "/"
  | '/' :: '/' :: _ => "//"
  | '/' :: _ => "/"
  | _ => ""

def ofText (text : String) : Location :=
  ⟨rootOf text.toList, (split text).filter fun part => part != "" && part != "."⟩

/-- The text of a location. The current folder is a single point. -/
def text (l : Location) : String :=
  if l.root.isEmpty && l.parts.isEmpty then "."
  else l.root ++ String.intercalate "/" l.parts

example : (ofText "./a//b/../c.toml/").text = "a/b/../c.toml" := by decide +kernel

example : (ofText "").text = "." := by decide +kernel

end Location

/-- What is found at a location. -/
inductive FileState where
  | missing
  /-- Something that may not be read. -/
  | denied
  | directory
  /-- Nothing, as the path leads through a file. -/
  | notDirectory
  /-- A name too long to be one. -/
  | nameTooLong
  /-- A text that is no path at all, because it holds a null character. -/
  | unnameable
  | file (content : List UInt8)
  deriving DecidableEq, Repr

/-- The files of a folder, each under the names that lead to it. -/
structure Folder where
  files : List (List String × List UInt8)
  /-- True of the root, the folder that is above itself. -/
  isRoot : Bool

namespace Folder

/-- A folder with files under paths written as texts. -/
def ofFiles (files : List (String × List UInt8)) : Folder :=
  ⟨files.map fun file => ((Location.ofText file.1).parts, file.2), false⟩

/-- The root, as far as it is known: the null device, which reads as an empty file. -/
def root : Folder := ⟨[(["dev", "null"], [])], true⟩

def longestName : Nat := 255

def longestPath : Nat := 4095

/-- What is found from a folder of which only the folders above it are known. -/
def above : (parts : List String) → FileState
  | [] => .directory
  | ".." :: parts => above parts
  | part :: _ => if longestName < part.utf8ByteSize then .nameTooLong else .missing

/-- What is found from a folder inside this one, at the end of `place`. -/
def walk (f : Folder) (place : List String) : (parts : List String) → FileState
  | [] => .directory
  | ".." :: parts =>
    if place.isEmpty && !f.isRoot then above parts else walk f place.dropLast parts
  | part :: parts =>
    let here := place ++ [part]
    if longestName < part.utf8ByteSize then .nameTooLong
    else
      match f.files.lookup here with
      | some content => if parts.isEmpty then .file content else .notDirectory
      | none =>
        if f.files.any fun file => here.isPrefixOf file.1 then walk f here parts
        else .missing

/-- What is found at a location. -/
def state (f : Folder) (l : Location) : FileState :=
  if l.text.contains '\x00' then .unnameable
  else if longestPath < l.text.utf8ByteSize then .nameTooLong
  else if l.root.isEmpty then f.walk [] l.parts
  else root.walk [] l.parts

end Folder

end Abacus
