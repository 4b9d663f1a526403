import Abacus.Toml.Scalar
import Abacus.Toml.Text

/-!
# TOML arrays and inline tables

An array holds values between brackets, with commas between them and blanks,
line feeds and comments anywhere. An inline table holds entries between braces,
on one line. A key of an inline table may lead through tables that its other
keys create, but neither into an array nor into a table written as a value.
-/

namespace Abacus.Toml

/-- An inline table as far as it is read: its entries, and the paths of the
entries that hold other values. -/
structure InlineTable where
  entries : Table
  closed : List Path

/-- True of a path that leads to or through one of the closed ones. -/
def isClosed (closed : List Path) (path : Path) : Bool :=
  closed.any fun start => start.isPrefixOf path

/-- The inline table with a new entry. -/
def InlineTable.insert? (t : InlineTable) (key : Key) (v : Value) : Option InlineTable :=
  if isClosed t.closed key.path then none
  else
    (Table.modify? false (Table.insert? key.stem v) key.parents t.entries).map fun entries =>
      ⟨entries, if v.isContainer then key.path :: t.closed else t.closed⟩

/-- A scalar as a part of a text. A scalar takes at least one character. -/
def readScalar (cs : List Char) : Result Value cs.length :=
  match readScalar? cs with
  | some (.ok v, rest) => if h : rest.length < cs.length then .ok ⟨v, rest, h⟩ else .error .invalid
  | some (.error fault, _) => .error fault
  | none => .error .invalid

mutual

def readValue (cs : List Char) : Result Value cs.length :=
  match cs with
  | '[' :: tail =>
    match skipTrivia tail with
    | .error fault => .error fault
    | .ok items =>
      match readItems [] items.val with
      | .error fault => .error fault
      | .ok part => .ok (part.widen (Nat.lt_succ_of_le items.property))
  | '\x7b' :: tail =>
    match h : tail.dropWhile isSpace with
    | '\x7d' :: rest =>
      .ok ⟨.table [], rest, by
        have := (List.dropWhile_suffix (l := tail) isSpace).length_le
        simp only [h, List.length_cons] at this ⊢
        omega⟩
    | body =>
      match readEntries ⟨[], []⟩ body with
      | .error fault => .error fault
      | .ok part =>
        .ok (part.widen (by
          have := (List.dropWhile_suffix (l := tail) isSpace).length_le
          simp only [h, List.length_cons] at this ⊢
          omega))
  | c :: tail =>
    if c = '"' ∨ c = '\'' then
      match readText (c :: tail) with
      | .error fault => .error fault
      | .ok part => .ok (part.map fun text => .text (String.ofList text))
    else readScalar (c :: tail)
  | [] => .error .invalid
termination_by (cs.length, 0)
decreasing_by
  · exact Prod.Lex.left _ _ (Nat.lt_succ_of_le items.property)
  · have := (List.dropWhile_suffix (l := tail) isSpace).length_le
    simp only [h] at this
    exact Prod.Lex.left _ _ (Nat.lt_succ_of_le this)

/-- Reads the items of an array and its closing bracket, after the items that
were already read, the last one first. -/
def readItems (items : List Value) (cs : List Char) : Result Value (cs.length + 1) :=
  match cs with
  | ']' :: tail => .ok ⟨.array items.reverse, tail, by simp only [List.length_cons]; omega⟩
  | cs =>
    match readValue cs with
    | .error fault => .error fault
    | .ok item =>
      match skipTrivia item.rest with
      | .error fault => .error fault
      | .ok after =>
        match h : after.val with
        | ']' :: tail =>
          .ok ⟨.array (item.value :: items).reverse, tail, by
            have h₁ := item.length_rest_lt
            have h₂ := after.property
            simp only [h, List.length_cons] at h₂ ⊢
            omega⟩
        | ',' :: tail =>
          match skipTrivia tail with
          | .error fault => .error fault
          | .ok next =>
            match readItems (item.value :: items) next.val with
            | .error fault => .error fault
            | .ok part =>
              .ok (part.widen (by
                have h₁ := item.length_rest_lt
                have h₂ := after.property
                have h₃ := next.property
                simp only [h, List.length_cons] at h₂ ⊢
                omega))
        | _ => .error .invalid
termination_by (cs.length, 1)
decreasing_by
  · exact Prod.Lex.right _ (by decide)
  · have h₁ := item.length_rest_lt
    have h₂ := after.property
    simp only [h, List.length_cons] at h₂
    exact Prod.Lex.left _ _ (by omega)

/-- Reads the entries of an inline table and its closing brace, after the
entries that were already read. -/
def readEntries (t : InlineTable) (cs : List Char) : Result Value cs.length :=
  match readKey cs with
  | .error fault => .error fault
  | .ok key =>
    match hkey : key.rest with
    | '=' :: tail =>
      match readValue (tail.dropWhile isSpace) with
      | .error fault => .error fault
      | .ok entry =>
        match t.insert? key.value entry.value with
        | none => .error .invalid
        | some t =>
          match h : entry.rest.dropWhile isSpace with
          | '\x7d' :: rest =>
            .ok ⟨.table t.entries, rest, by
              have h₁ := key.length_rest_lt
              have h₂ := (List.dropWhile_suffix (l := tail) isSpace).length_le
              have h₃ := (entry.skip isSpace).length_rest_lt
              simp only [Part.skip, h, hkey, List.length_cons] at h₁ h₃
              omega⟩
          | ',' :: rest =>
            match readEntries t (rest.dropWhile isSpace) with
            | .error fault => .error fault
            | .ok part =>
              .ok (part.widen (by
                have h₁ := key.length_rest_lt
                have h₂ := (List.dropWhile_suffix (l := tail) isSpace).length_le
                have h₃ := (entry.skip isSpace).length_rest_lt
                have h₄ := (List.dropWhile_suffix (l := rest) isSpace).length_le
                simp only [Part.skip, h, hkey, List.length_cons] at h₁ h₃
                omega))
          | _ => .error .invalid
    | _ => .error .invalid
termination_by (cs.length, 1)
decreasing_by
  · have h₁ := key.length_rest_lt
    have h₂ := (List.dropWhile_suffix (l := tail) isSpace).length_le
    simp only [hkey, List.length_cons] at h₁
    exact Prod.Lex.left _ _ (by omega)
  · have h₁ := key.length_rest_lt
    have h₂ := (List.dropWhile_suffix (l := tail) isSpace).length_le
    have h₃ := (entry.skip isSpace).length_rest_lt
    have h₄ := (List.dropWhile_suffix (l := rest) isSpace).length_le
    simp only [Part.skip, h, hkey, List.length_cons] at h₁ h₃
    exact Prod.Lex.left _ _ (by omega)

end

end Abacus.Toml
