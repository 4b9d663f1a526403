import Abacus.Number.Binary64

/-!
# TOML values and tables

A table holds values under keys, in the order in which they were written. A
path of keys leads from a table to the tables inside it.
-/

namespace Abacus.Toml

/-- A TOML value. Of dates and times only that they are such is kept. -/
inductive Value where
  | text (s : String)
  | integer (v : Int)
  | real (x : Binary64)
  | boolean (b : Bool)
  /-- A date, a time, or both. -/
  | moment
  | array (items : List Value)
  | table (entries : List (String × Value))

/-- The entries of a table, each key at most once. -/
abbrev Table := List (String × Value)

/-- The keys that lead from a table to another inside it. -/
abbrev Path := List String

/-- True of the values that hold other values. -/
def Value.isContainer : Value → Bool
  | .array _ | .table _ => true
  | _ => false

namespace Table

def get? (t : Table) (key : String) : Option Value := t.lookup key

/-- The table with a value put under a key: in its place if the key is there,
at the end otherwise. -/
def put (key : String) (v : Value) : Table → Table
  | [] => [(key, v)]
  | entry :: entries =>
    if entry.1 = key then (key, v) :: entries else entry :: put key v entries

/-- The table with `f` applied to the table at a path. Tables that are missing
on the way are created. When `intoArrays`, a path leads into the last table of
an array. There is no result if the path meets another value, or if `f` has
none. -/
def modify? (intoArrays : Bool) (f : Table → Option Table) : Path → Table → Option Table
  | [], t => f t
  | key :: path, t =>
    match t.get? key with
    | none => (modify? intoArrays f path []).map fun inner => t.put key (.table inner)
    | some (.table inner) =>
      (modify? intoArrays f path inner).map fun inner => t.put key (.table inner)
    | some (.array items) =>
      match intoArrays, items.getLast? with
      | true, some (.table inner) =>
        (modify? intoArrays f path inner).map fun inner =>
          t.put key (.array (items.dropLast ++ [.table inner]))
      | _, _ => none
    | some _ => none

/-- The table with a new entry, if its key is new. -/
def insert? (key : String) (v : Value) (t : Table) : Option Table :=
  if (t.get? key).isSome then none else some (t.put key v)

/-- The table with an empty table added to the array of tables under a key. -/
def append? (key : String) (t : Table) : Option Table :=
  match t.get? key with
  | none => some (t.put key (.array [.table []]))
  | some (.array items) => some (t.put key (.array (items ++ [.table []])))
  | some _ => none

/-- A value is found under the key it was put. -/
theorem get?_put_self (t : Table) (key : String) (v : Value) :
    get? (put key v t) key = some v := by
  induction t with
  | nil => simp [put, get?]
  | cons entry entries ih =>
    obtain ⟨k, w⟩ := entry
    rw [put]
    split
    · simp [get?]
    · next h =>
      rw [get?, List.lookup_cons, beq_eq_false_iff_ne.mpr (Ne.symm h)]
      exact ih

end Table

end Abacus.Toml
