/- Symbols: the declarations that an outline lists, each with its members. -/
namespace SyntaxReport

inductive SymbolKind
  | imported | classType | structType | enumType | actorType | protocolType | extensionType
  | function | method | initializer | deinitializer | subscript
  | property | enumCase | typeAlias
deriving DecidableEq, Repr

def SymbolKind.hasMembers : SymbolKind → Bool
  | .classType | .structType | .enumType | .actorType | .protocolType | .extensionType => true
  | _ => false

/-- A declaration. Its lines count from one. -/
structure Symbol where
  name : String
  kind : SymbolKind
  visibility : String
  lineStart : Nat
  lineEnd : Nat
  documentation : Option String
  children : List Symbol
deriving Repr, BEq

namespace Symbol

def child? (s : Symbol) (name : String) : Option Symbol :=
  s.children.find? (·.name = name)

mutual

def size : Symbol → Nat
  | ⟨_, _, _, _, _, _, children⟩ => sizeAll children + 1

def sizeAll : List Symbol → Nat
  | [] => 0
  | s :: rest => s.size + sizeAll rest

end

mutual

/-- The symbol, then its members and theirs. -/
def preorder : Symbol → List Symbol
  | ⟨name, kind, visibility, lineStart, lineEnd, documentation, children⟩ =>
    ⟨name, kind, visibility, lineStart, lineEnd, documentation, children⟩ ::
      preorderAll children

def preorderAll : List Symbol → List Symbol
  | [] => []
  | s :: rest => s.preorder ++ preorderAll rest

end

theorem size_eq (s : Symbol) : s.size = sizeAll s.children + 1 := by
  cases s with
  | mk => rfl

theorem sizeAll_append (xs ys : List Symbol) :
    sizeAll (xs ++ ys) = sizeAll xs + sizeAll ys := by
  induction xs with
  | nil => simp [sizeAll]
  | cons s rest ih => simp [sizeAll, ih, Nat.add_assoc]

end Symbol
end SyntaxReport
