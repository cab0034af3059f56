/- Declarations: the symbols that one node stands for, members aside. -/
import SyntaxReport.Outline.Symbol
import SyntaxReport.Outline.Documentation

namespace SyntaxReport

/-- How a node declares symbols. -/
inductive Declaration
  | dependency
  | type
  | protocol
  | routine
  | special (name : String) (kind : SymbolKind)
  | property
  | enumEntry
  | typeAlias
deriving DecidableEq, Repr

namespace Declaration

/-- The declaration made by the nodes of a kind. -/
def ofKind? : String → Option Declaration
  | "import_declaration" => some .dependency
  | "class_declaration" => some .type
  | "protocol_declaration" => some .protocol
  | "function_declaration" => some .routine
  | "protocol_function_declaration" => some .routine
  | "init_declaration" => some (.special "init" .initializer)
  | "deinit_declaration" => some (.special "deinit" .deinitializer)
  | "subscript_declaration" => some (.special "subscript" .subscript)
  | "property_declaration" => some .property
  | "protocol_property_declaration" => some .property
  | "enum_entry" => some .enumEntry
  | "typealias_declaration" => some .typeAlias
  | _ => none

/-- The word that says which type is declared: the one marked so, or else the first such
keyword. -/
def keyword? (source : Bytes) (n : Node) : Option String :=
  match n.childOf? .declarationKind with
  | some word => some (String.ofList (word.text source))
  | none => (n.children.map Node.kind).find?
      (["class", "struct", "enum", "actor", "extension"].contains ·)

def typeKind (source : Bytes) (n : Node) : SymbolKind :=
  match keyword? source n with
  | some "struct" => .structType
  | some "enum" => .enumType
  | some "actor" => .actorType
  | some "extension" => .extensionType
  | _ => .classType

/-- The kind of the declared symbols. A routine is a method exactly where it is a member. -/
def symbolKind (source : Bytes) (member : Bool) (n : Node) : Declaration → SymbolKind
  | .dependency => .imported
  | .type => typeKind source n
  | .protocol => .protocolType
  | .routine => if member then .method else .function
  | .special _ kind => kind
  | .property => .property
  | .enumEntry => .enumCase
  | .typeAlias => .typeAlias

/-- The text of the first name of a node, unless it is empty. -/
def firstName? (source : Bytes) (n : Node) : Option (List Char) :=
  ((n.childOf? .name).map (·.text source)).filter (!·.isEmpty)

/-- The path of the first named identifier of a node. -/
def importPath? (source : Bytes) (n : Node) : Option (List Char) :=
  (n.namedChildren.find? (·.kind = "identifier")).map (·.text source)

mutual

/-- The identifiers that a pattern binds: the one marked so, or else those of its parts. -/
def bindings (source : Bytes) : Node → List (List Char)
  | .mk _ parts =>
    match parts.find? (·.label.field = some .boundIdentifier) with
    | some identifier => [identifier.text source]
    | none => bindingsAmong source parts

/-- The identifiers bound by parts of a pattern. One in front of a colon is a label. -/
def bindingsAmong (source : Bytes) : List Node → List (List Char)
  | [] => []
  | n :: rest =>
    let own :=
      if n.label.named = false then []
      else if n.kind = "pattern" then bindings source n
      else if n.kind = "simple_identifier" ∧ rest.head?.map Node.kind ≠ some ":" then
        [n.text source]
      else []
    own ++ bindingsAmong source rest

end

/-- The names that a pattern declares: what it binds, or else its whole text. -/
def patternNames (source : Bytes) (pattern : Node) : List (List Char) :=
  match bindings source pattern with
  | [] => [pattern.text source].filter (!·.isEmpty)
  | names => names

/-- The names of the declared symbols, in source order. -/
def names (source : Bytes) (n : Node) : Declaration → List (List Char)
  | .dependency => (importPath? source n).toList
  | .type | .protocol | .routine | .typeAlias => (firstName? source n).toList
  | .special name _ => [name.toList]
  | .property => (n.childrenOf .name).flatMap (patternNames source)
  | .enumEntry => (n.childrenOf .name).map (·.text source)

/-- The first visibility that is not limited to a setter, or else the one that holds by
default. -/
def visibility (source : Bytes) (n : Node) : String :=
  let modifiers := (n.children.filter (·.kind = "modifiers")).flatMap Node.children
  let texts := (modifiers.filter (·.kind = "visibility_modifier")).map (·.text source)
  match texts.find? (!·.contains '(') with
  | some text => String.ofList text
  | none => "internal"

/-- The documentation of the declared symbols, if it is asked for. An import has none. -/
def documentation? (source : Bytes) (docs : Bool) (elder : List Node) (n : Node) :
    Declaration → Option String
  | .dependency => none
  | _ => if docs then Documentation.above? source (n.startPosition source).row elder else none

/-- The symbols of a declaration without their members. All share everything but the name. -/
def symbols (d : Declaration) (source : Bytes) (docs member : Bool) (elder : List Node)
    (n : Node) : List Symbol :=
  (d.names source n).map fun name =>
    { name := String.ofList name
      kind := d.symbolKind source member n
      visibility := visibility source n
      lineStart := (n.startPosition source).row + 1
      lineEnd := (n.endPosition source).row + 1
      documentation := d.documentation? source docs elder n
      children := [] }

end Declaration

/-- The symbols of a node without their members: none unless it is a declaration. -/
def Node.ownSymbols (source : Bytes) (docs member : Bool) (elder : List Node) (n : Node) :
    List Symbol :=
  match Declaration.ofKind? n.kind with
  | some d => d.symbols source docs member elder n
  | none => []

end SyntaxReport
