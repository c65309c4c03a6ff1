/-!
# Places in a source text

An error names a line, counted from one, and the columns of the line that caused it. Columns are
offsets in the line's UTF-8 text; an empty range stands for the whole line.
-/

namespace Lc3

/-- The columns from `start` up to and without `stop`. -/
structure Span where
  start : Nat
  stop : Nat
  deriving DecidableEq, Repr

/-- No columns: the whole line. -/
def Span.whole : Span := ⟨0, 0⟩

/-- Whether a span holds no column. -/
def Span.isEmpty (s : Span) : Bool := s.stop ≤ s.start

/-- Where in the source something stands. -/
structure Place where
  line : Nat
  cols : Span
  deriving DecidableEq, Repr

namespace Place

/-- A line as a whole. -/
def wholeLine (line : Nat) : Place := ⟨line, .whole⟩

/-- The place as a message gives it; columns are then counted from one. -/
def text (p : Place) : String :=
  if p.cols.isEmpty then s!"line {p.line}" else s!"line {p.line}, col {p.cols.start + 1}"

end Place

end Lc3
