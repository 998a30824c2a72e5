/-
# Voxhold.Lib.Text — white space at the ends of a text

`strings.TrimSpace` of Go, with the characters that `unicode.IsSpace` takes for white space. Case
folding is not here: it needs tables that neither Lean nor Mathlib has, and where the model uses it,
it is a parameter.
-/

import Mathlib.Data.List.DropRight

namespace Voxhold.Lib

/-- `unicode.IsSpace`: the characters with the property `White_Space`. -/
def isSpace (c : Char) : Bool :=
  c ∈ ['\t', '\n', '\x0b', '\x0c', '\x0d', ' ', '\u0085', '\u00a0', '\u1680', '\u2028', '\u2029',
    '\u202f', '\u205f', '\u3000'] ∨ ('\u2000' ≤ c ∧ c ≤ '\u200a')

def trimSpace (s : String) : String :=
  String.ofList ((s.toList.dropWhile isSpace).rdropWhile isSpace)

example : trimSpace "\t a b \n" = "a b" := by decide

end Voxhold.Lib
