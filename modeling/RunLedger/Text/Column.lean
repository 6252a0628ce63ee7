/-
  Text/Column.lean --- text set in columns of a fixed width.

  WHAT THIS FILE IS FOR.  Listings are tables with columns counted in
  characters.  A cell that is too long is written in full and pushes the rest of
  its row to the right.
-/

set_option autoImplicit false

namespace RunLedger.Text

/-- A cell set flush left: blanks follow up to the width of the column. -/
def padRight (width : Nat) (s : String) : String :=
  s ++ String.ofList (List.replicate (width - s.length) ' ')

/-- A cell set flush right: blanks precede up to the width of the column. -/
def padLeft (width : Nat) (s : String) : String :=
  String.ofList (List.replicate (width - s.length) ' ') ++ s

/-- A rule of dashes. -/
def dashes (width : Nat) : String :=
  String.ofList (List.replicate width '-')

end RunLedger.Text
