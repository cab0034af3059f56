/- The JSON form of outlines. -/
import SyntaxReport.Outline.Basic
import SyntaxReport.Json.Form

namespace SyntaxReport

namespace SymbolKind

def all : List SymbolKind :=
  [.imported, .classType, .structType, .enumType, .actorType, .protocolType, .extensionType,
    .function, .method, .initializer, .deinitializer, .subscript, .property, .enumCase,
    .typeAlias]

def name : SymbolKind → String
  | .imported => "import"
  | .classType => "class"
  | .structType => "struct"
  | .enumType => "enum"
  | .actorType => "actor"
  | .protocolType => "protocol"
  | .extensionType => "extension"
  | .function => "function"
  | .method => "method"
  | .initializer => "initializer"
  | .deinitializer => "deinitializer"
  | .subscript => "subscript"
  | .property => "property"
  | .enumCase => "enum_case"
  | .typeAlias => "type_alias"

def ofName? (name : String) : Option SymbolKind := all.find? (·.name = name)

end SymbolKind

instance : Form SymbolKind where
  write kind := .str kind.name
  read? := Form.variant? SymbolKind.ofName?

namespace Symbol

def keys : List String :=
  ["name", "kind", "visibility", "line_start", "line_end", "doc_comment", "children"]

mutual

def toJson : Symbol → Json
  | ⟨name, kind, visibility, lineStart, lineEnd, documentation, children⟩ => .obj [
    ("name", Form.write name),
    ("kind", Form.write kind),
    ("visibility", Form.write visibility),
    ("line_start", Form.write lineStart),
    ("line_end", Form.write lineEnd),
    ("doc_comment", Form.write documentation),
    ("children", .arr (allToJson children))]

def allToJson : List Symbol → List Json
  | [] => []
  | s :: rest => s.toJson :: allToJson rest

end

/-- Reads a symbol whose value is nested at most `depth` deep. -/
def ofJsonWithin? : Nat → Json → Option Symbol
  | 0, _ => none
  | depth + 1, j => do
    let [name, kind, visibility, lineStart, lineEnd, documentation, some (.arr children)] ←
      Form.fields? keys j | none
    some {
      name := ← Form.required? name
      kind := ← Form.required? kind
      visibility := ← Form.required? visibility
      lineStart := ← Form.required? lineStart
      lineEnd := ← Form.required? lineEnd
      documentation := ← Form.optional? documentation
      children := ← children.mapM (ofJsonWithin? depth) }

instance : Form Symbol where
  write := toJson
  read? j := ofJsonWithin? j.depth j

end Symbol

def Outline.keys : List String := ["symbols"]

instance : Form Outline where
  write o := .obj [("symbols", Form.write o.symbols)]
  read? j := do
    let [symbols] ← Form.fields? Outline.keys j | none
    some { symbols := ← Form.required? symbols }

end SyntaxReport
