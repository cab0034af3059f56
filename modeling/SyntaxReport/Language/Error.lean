/- What can be wrong with a grammar. -/
namespace SyntaxReport

inductive LanguageError
  /-- There is no grammar. -/
  | absent
  /-- The table format lies outside of what the engine takes. -/
  | unsupported (found oldest newest : Nat)
  /-- A unit of the program is linked with another grammar. -/
  | mismatch (unit : String)
deriving DecidableEq, Repr

def LanguageError.message : LanguageError → String
  | .absent => "tree_sitter_swift returned a null language pointer"
  | .unsupported found oldest newest =>
    "Swift grammar ABI version " ++ toString found ++ " is outside the supported range " ++
      toString oldest ++ "..=" ++ toString newest
  | .mismatch unit => unit ++ " translation unit resolved tree_sitter_swift to a different grammar"

end SyntaxReport
