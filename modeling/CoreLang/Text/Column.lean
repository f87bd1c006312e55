/-!
# Columns

Text set in a column of a given width, counted in characters. A text that is
already as wide as its column is left alone.
-/

namespace CoreLang.Text

/-- The widths that can be asked for: a width is stored in 16 bits. -/
def widthLimit : Nat := UInt16.size

/-- A run of `n` spaces. -/
def spaces (n : Nat) : String :=
  String.ofList (List.replicate n ' ')

/-- The text at the left edge of the column. -/
def alignLeft (width : Nat) (s : String) : String :=
  s ++ spaces (width - s.length)

/-- The text at the right edge of the column. -/
def alignRight (width : Nat) (s : String) : String :=
  spaces (width - s.length) ++ s

/-- The text in the middle of the column; an odd space goes to the right. -/
def alignCentre (width : Nat) (s : String) : String :=
  let blank := width - s.length
  spaces (blank / 2) ++ s ++ spaces (blank - blank / 2)

end CoreLang.Text
