/- Outlines: the symbols of one source, and what can be asked of them. -/
import SyntaxReport.Outline.Symbol

namespace SyntaxReport

/-- The top symbols of a source, in source order. -/
structure Outline where
  symbols : List Symbol
deriving Repr, BEq

namespace Outline

/-- The symbols that an iteration has still to list, the next one first. -/
structure Iterator where
  stack : List Symbol

namespace Iterator

/-- The next symbol. Its members take its place. -/
def next? : Iterator → Option (Symbol × Iterator)
  | ⟨[]⟩ => none
  | ⟨s :: rest⟩ => some (s, ⟨s.children ++ rest⟩)

theorem sizeAll_next? {it later : Iterator} {s : Symbol} (h : it.next? = some (s, later)) :
    Symbol.sizeAll later.stack < Symbol.sizeAll it.stack := by
  match it, h with
  | ⟨t :: rest⟩, h =>
    obtain ⟨rfl, rfl⟩ : t = s ∧ Iterator.mk (t.children ++ rest) = later := by
      simpa [next?] using h
    simp only [Symbol.sizeAll_append, Symbol.sizeAll, Symbol.size_eq]
    omega

/-- Everything that is still to be listed. -/
def toList (it : Iterator) : List Symbol :=
  match _h : it.next? with
  | none => []
  | some (s, later) => s :: later.toList
termination_by Symbol.sizeAll it.stack
decreasing_by exact sizeAll_next? _h

end Iterator

/-- Every symbol, each before its members. -/
def toList (o : Outline) : List Symbol := (Iterator.mk o.symbols).toList

def size (o : Outline) : Nat := o.toList.length

def isEmpty (o : Outline) : Bool := o.symbols.isEmpty

/-- The first symbol of a name, at any depth. -/
def find? (o : Outline) (name : String) : Option Symbol := o.toList.find? (·.name = name)

/-- The symbols of a kind, at any depth. -/
def ofKind (o : Outline) (kind : SymbolKind) : List Symbol := o.toList.filter (·.kind = kind)

/-- The names of the imports at the top. -/
def imports (o : Outline) : List String :=
  (o.symbols.filter (·.kind = .imported)).map (·.name)

end Outline
end SyntaxReport
