import Abacus.Toml.Compound

/-!
# TOML documents

A document is a sequence of statements, one a line: entries, and headers that
open a table or add one to an array of tables. Entries go into the table of the
last header.

A table may be opened once only, and a value is never replaced. Three lists of
paths keep account of that. The paths in `opened` can no longer be opened by a
header, nor extended by a key with points. The paths in `passed` join them at
the next header: tables that keys with points led through. The paths in
`closed` lead to arrays and inline tables, which nothing can extend.
-/

namespace Abacus.Toml

/-- A document as far as it is read. -/
structure Document where
  root : Table
  header : Path
  opened : List Path
  passed : List Path
  closed : List Path

namespace Document

/-- The document before its first statement. -/
def empty : Document := ⟨[], [], [], [], []⟩

/-- The document with the passed tables counted as opened. -/
def settle (d : Document) : Document :=
  { d with opened := d.passed ++ d.opened, passed := [] }

/-- The document with the table at a path opened. -/
def openTable? (d : Document) (path : Path) : Option Document :=
  if d.opened.contains path || isClosed d.closed path then none
  else
    (Table.modify? true some path d.root).map fun root =>
      { d with root := root, header := path, opened := path :: d.opened }

/-- The document with a table added to the array of tables that a key names.
What was opened or closed inside the array before is forgotten, as the paths now
lead into the new table. -/
def addTable? (d : Document) (key : Key) : Option Document :=
  if isClosed d.closed key.path then none
  else
    (Table.modify? true (Table.append? key.stem) key.parents d.root).map fun root =>
      let outside (path : Path) : Bool := !key.path.isPrefixOf path
      { d with
        root := root
        header := key.path
        opened := key.path :: d.opened.filter outside
        closed := d.closed.filter outside }

/-- The paths of the tables that the parents of a key lead through, from the
table at `start`. -/
def passedBy (start : Path) : (parents : Path) → List Path
  | [] => []
  | key :: parents => (start ++ [key]) :: passedBy (start ++ [key]) parents

/-- The document with an entry added to the table of the last header. -/
def insert? (d : Document) (key : Key) (v : Value) : Option Document :=
  let passed := passedBy d.header key.parents
  if passed.any d.opened.contains || isClosed d.closed (d.header ++ key.parents) then none
  else
    (Table.modify? true (Table.insert? key.stem v) (d.header ++ key.parents) d.root).map fun root =>
      { d with
        root := root
        passed := passed ++ d.passed
        closed := if v.isContainer then (d.header ++ key.path) :: d.closed else d.closed }

end Document

/-- Reads a header that adds a table to an array, after its two brackets. -/
def readArrayHeader (d : Document) (cs : List Char) : Result Document (cs.length + 1) :=
  match readKey (cs.dropWhile isSpace) with
  | .error fault => .error fault
  | .ok key =>
    match hkey : key.rest, d.settle.addTable? key.value with
    | ']' :: ']' :: rest, some d =>
      .ok ⟨d, rest, by
        have h₁ := key.length_rest_lt
        have h₂ := (List.dropWhile_suffix (l := cs) isSpace).length_le
        simp only [hkey, List.length_cons] at h₁
        omega⟩
    | _, _ => .error .invalid

/-- Reads a header that opens a table, after its bracket. -/
def readTableHeader (d : Document) (cs : List Char) : Result Document (cs.length + 1) :=
  match readKey (cs.dropWhile isSpace) with
  | .error fault => .error fault
  | .ok key =>
    match hkey : key.rest, d.settle.openTable? key.value.path with
    | ']' :: rest, some d =>
      .ok ⟨d, rest, by
        have h₁ := key.length_rest_lt
        have h₂ := (List.dropWhile_suffix (l := cs) isSpace).length_le
        simp only [hkey, List.length_cons] at h₁
        omega⟩
    | _, _ => .error .invalid

def readEntry (d : Document) (cs : List Char) : Result Document cs.length :=
  match readKey cs with
  | .error fault => .error fault
  | .ok key =>
    match hkey : key.rest with
    | '=' :: tail =>
      match readValue (tail.dropWhile isSpace) with
      | .error fault => .error fault
      | .ok entry =>
        match d.insert? key.value entry.value with
        | none => .error .invalid
        | some d =>
          .ok ⟨d, entry.rest, by
            have h₁ := key.length_rest_lt
            have h₂ := (List.dropWhile_suffix (l := tail) isSpace).length_le
            have h₃ := entry.length_rest_lt
            simp only [hkey, List.length_cons] at h₁
            omega⟩
    | _ => .error .invalid

/-- Reads what a line holds in front of its comment. -/
def readStatement (d : Document) (cs : List Char) : Result Document (cs.length + 1) :=
  match cs with
  | '[' :: '[' :: tail => weaken (Nat.le_succ_of_le (Nat.le_succ _)) (readArrayHeader d tail)
  | '[' :: tail => weaken (Nat.le_succ _) (readTableHeader d tail)
  | '#' :: tail => .ok ⟨d, '#' :: tail, Nat.lt_succ_self _⟩
  | '\n' :: tail => .ok ⟨d, '\n' :: tail, Nat.lt_succ_self _⟩
  | [] => .ok ⟨d, [], Nat.zero_lt_one⟩
  | c :: tail =>
    if startsKey c then weaken (Nat.le_succ _) (readEntry d (c :: tail)) else .error .invalid

def readLines (d : Document) (cs : List Char) : Except Fault Document :=
  match readStatement d (cs.dropWhile isSpace) with
  | .error fault => .error fault
  | .ok statement =>
    match _h : skipComment (statement.rest.dropWhile isSpace) with
    | .error fault => .error fault
    | .ok [] => .ok statement.value
    | .ok ('\n' :: tail) => readLines statement.value tail
    | .ok _ => .error .invalid
termination_by cs.length
decreasing_by
  have h₁ := (List.dropWhile_suffix (l := cs) isSpace).length_le
  have h₂ := (statement.skip isSpace).length_rest_lt
  have h₃ := length_skipComment ‹_›
  simp only [Part.skip, List.length_cons] at h₂ h₃
  omega

/-- The table that a TOML text describes. -/
def parse (cs : List Char) : Except Fault Table :=
  (readLines .empty cs).map (·.root)

end Abacus.Toml
