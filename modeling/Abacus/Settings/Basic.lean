import Abacus.Calculator

/-!
# Settings

What a session can be told about its prompt, the nesting it allows and what it
echoes.
-/

namespace Abacus

/-- The settings of a session. The nesting allowed is at least one. -/
structure Settings where
  /-- Written before each line is read. -/
  prompt : String
  /-- The deepest nesting of parentheses allowed. -/
  maxDepth : Int
  /-- Echo the tokens of each line. -/
  showTokens : Bool
  /-- Echo the tree of each line. -/
  showTree : Bool
  one_le_maxDepth : 1 ≤ maxDepth
  deriving DecidableEq

namespace Settings

/-- The settings when nothing is said. -/
def initial : Settings where
  prompt := ""
  maxDepth := defaultMaxDepth
  showTokens := false
  showTree := false
  one_le_maxDepth := by decide

/-- The word for a flag in a description. -/
def flagText (b : Bool) : String := if b then "True" else "False"

/-- All settings on one line. -/
def describe (s : Settings) : String :=
  "prompt=" ++ Text.quote s.prompt ++ " max_depth=" ++ Numeral.ofInt s.maxDepth ++
    " show_tokens=" ++ flagText s.showTokens ++ " show_tree=" ++ flagText s.showTree

end Settings

end Abacus
