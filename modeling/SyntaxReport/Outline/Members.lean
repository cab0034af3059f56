/- The outline of a tree: its declarations, and the members of those that have a body. -/
import SyntaxReport.Outline.Basic
import SyntaxReport.Outline.Declaration

namespace SyntaxReport.Outline

mutual

/-- The symbols of the named nodes of a list. Their elder siblings come nearest first. -/
def members (source : Bytes) (docs member : Bool) (elder : List Node) :
    List Node → List Symbol
  | [] => []
  | n :: rest =>
    let own := if n.label.named then declaration source docs member elder n else []
    own ++ members source docs member (n :: elder) rest

/-- The symbols of a node, containers together with their members. -/
def declaration (source : Bytes) (docs member : Bool) (elder : List Node) :
    Node → List Symbol
  | .mk l cs =>
    (Node.ownSymbols source docs member elder (.mk l cs)).map fun s =>
      if s.kind.hasMembers then { s with children := bodyMembers source docs cs } else s

/-- The members declared in the first body among some nodes. -/
def bodyMembers (source : Bytes) (docs : Bool) : List Node → List Symbol
  | [] => []
  | .mk l cs :: rest =>
    if l.field = some .body then members source docs true [] cs
    else bodyMembers source docs rest

end

def ofTree (source : Bytes) (root : Node) (docs : Bool) : Outline :=
  ⟨members source docs false [] root.children⟩

end SyntaxReport.Outline
