/- A grammar in short, and its JSON form. -/
import SyntaxReport.Json.Form
import SyntaxReport.Language.Basic

namespace SyntaxReport

structure LanguageSummary where
  name : String
  version : Nat
  kindCount : Nat
  fieldCount : Nat
  ruleNames : List String
  fieldNames : List String
  fileExtensions : List String
deriving DecidableEq, Repr

def Language.summary (l : Language) : LanguageSummary where
  name := l.name
  version := l.version
  kindCount := l.kindCount
  fieldCount := l.fieldCount
  ruleNames := l.ruleNames
  fieldNames := l.fieldNames
  fileExtensions := l.fileExtensions

namespace LanguageSummary

def keys : List String :=
  ["name", "abi_version", "node_kind_count", "field_count", "named_node_kinds", "field_names",
    "file_extensions"]

instance : Form LanguageSummary where
  write s := .obj [
    ("name", Form.write s.name),
    ("abi_version", Form.write s.version),
    ("node_kind_count", Form.write s.kindCount),
    ("field_count", Form.write s.fieldCount),
    ("named_node_kinds", Form.write s.ruleNames),
    ("field_names", Form.write s.fieldNames),
    ("file_extensions", Form.write s.fileExtensions)]
  read? j := do
    let [name, version, kindCount, fieldCount, ruleNames, fieldNames, fileExtensions] ←
      Form.fields? keys j | none
    some {
      name := ← Form.required? name
      version := ← Form.required? version
      kindCount := ← Form.required? kindCount
      fieldCount := ← Form.required? fieldCount
      ruleNames := ← Form.required? ruleNames
      fieldNames := ← Form.required? fieldNames
      fileExtensions := ← Form.required? fileExtensions }

end LanguageSummary
end SyntaxReport
