/- The Swift grammar. -/
import SyntaxReport.Language.Swift.Kinds

namespace SyntaxReport.Language

namespace Swift

def fields : List String := [
  "body", "bound_identifier", "captures", "collection", "computed_value", "condition",
  "constrained_type", "constructed_type", "data_contents", "declaration_kind", "default_value",
  "definition", "element", "end", "error", "expr", "external_name", "if_false", "if_nil",
  "if_true", "inherits_from", "interpolation", "item", "key", "lhs", "must_equal",
  "must_inherit", "mutability", "name", "op", "operation", "operator", "params", "raw_value",
  "reference_specifier", "result", "return_type", "rhs", "start", "suffix", "target", "text",
  "type", "value", "wrapped"]

end Swift

def swift : Language := .ofTables 14 Swift.kinds Swift.fields

end SyntaxReport.Language
