/- Rows and columns: where an offset of some bytes lies. -/
import SyntaxReport.Text.Utf8

namespace SyntaxReport

/-- A row and a column, both from zero. Columns count bytes. -/
structure Position where
  row : Nat
  column : Nat
deriving DecidableEq, Repr, Inhabited

namespace Position

/-- The position behind a byte: a line feed opens the next row. -/
def advance (p : Position) (b : UInt8) : Position :=
  if b = 10 then ⟨p.row + 1, 0⟩ else ⟨p.row, p.column + 1⟩

/-- The position behind some bytes that start at row and column zero. -/
def extent (bytes : Bytes) : Position := bytes.foldl advance ⟨0, 0⟩

def ofOffset (bytes : Bytes) (offset : Nat) : Position := extent (bytes.take offset)

/-- The position reached from `p` over a text of extent `q`. -/
def add (p q : Position) : Position :=
  if q.row = 0 then ⟨p.row, p.column + q.column⟩ else ⟨p.row + q.row, q.column⟩

instance : Add Position := ⟨add⟩

/-- Row first, then column. -/
instance : LT Position := ⟨fun p q => p.row < q.row ∨ p.row = q.row ∧ p.column < q.column⟩

instance : LE Position := ⟨fun p q => p.row < q.row ∨ p.row = q.row ∧ p.column ≤ q.column⟩

instance (p q : Position) : Decidable (p < q) :=
  inferInstanceAs (Decidable (p.row < q.row ∨ p.row = q.row ∧ p.column < q.column))

instance (p q : Position) : Decidable (p ≤ q) :=
  inferInstanceAs (Decidable (p.row < q.row ∨ p.row = q.row ∧ p.column ≤ q.column))

end Position
end SyntaxReport
