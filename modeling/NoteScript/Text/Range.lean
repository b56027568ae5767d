/-!
# Ranges of code points

Character classes beyond ASCII are tables of inclusive ranges.
-/

namespace NoteScript.Text

/-- The first and the last code point of a run. -/
abbrev Range := Nat × Nat

/-- Membership in one range, both ends included. -/
def Range.contains (r : Range) (c : Char) : Bool :=
  r.1 ≤ c.toNat && c.toNat ≤ r.2

/-- Membership in a table of ranges. -/
def inRanges (table : List Range) (c : Char) : Bool :=
  table.any (·.contains c)

end NoteScript.Text
