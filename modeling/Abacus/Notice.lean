import Abacus.Text.Blank
import Abacus.Text.Numeral

/-!
# Notices

A notice is a message, with an excerpt of the input under it when there is one.
An excerpt is the line at fault, indented by two spaces, and below it a caret
under the column at fault. Columns count from one, so the caret of column one
stands under the first character of the line.
-/

namespace Abacus

/-- A line and the column at fault in it, counted from one. -/
structure Excerpt where
  line : String
  column : Int
  deriving DecidableEq, Repr

/-- The spaces in front of the caret. A column before the indentation has none. -/
def Excerpt.padding (e : Excerpt) : Nat := (2 + e.column - 1).toNat

/-- The indented line and the caret under its column. -/
def Excerpt.display (e : Excerpt) : String :=
  "  " ++ e.line ++ "\n" ++ String.ofList (List.replicate e.padding ' ') ++ "^"

/-- A message, with an excerpt of the input when there is one. -/
structure Notice where
  message : String
  excerpt : Option Excerpt
  deriving DecidableEq, Repr

namespace Notice

/-- The message, and the excerpt on the lines below it. -/
def display (n : Notice) : String :=
  match n.excerpt with
  | some excerpt => n.message ++ "\n" ++ excerpt.display
  | none => n.message

/-- A notice without an excerpt. -/
def plain (message : String) : Notice := ⟨message, none⟩

/-- A notice about one column of a line. The line is shown without the line
ends that close it. -/
def atColumn (message line : String) (column : Int) : Notice :=
  ⟨message, some ⟨String.ofList (Text.trimEnd Text.isLineEnd line.toList), column⟩⟩

end Notice

example : (Notice.atColumn "bad" "12+x\r\n" 4).display = "bad\n  12+x\n     ^" := by decide

example : (Notice.atColumn "bad" "" (-1)).display = "bad\n  \n^" := by decide

end Abacus
