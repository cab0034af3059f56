/- The node kinds of the Swift grammar, in the order of their numbers. -/
import SyntaxReport.Language.Table

namespace SyntaxReport.Language.Swift

def kindsFrom0 : List NodeKind := [
  .hidden "end", .token "#!", .hidden "shebang_line_token1", .rule "comment",
  .hidden "simple_identifier_token1", .hidden "simple_identifier_token2",
  .hidden "simple_identifier_token3", .hidden "simple_identifier_token4", .token "actor",
  .token "async", .token "each", .token "lazy", .token "repeat", .token "package", .token "nil",
  .rule "real_literal", .rule "integer_literal", .rule "hex_literal", .rule "oct_literal",
  .rule "bin_literal", .token "true", .token "false", .token "\"",
  .hidden "line_str_text_token1", .token "\\", .token "u",
  .hidden "_uni_character_literal_token1", .token "\"\"\"", .token ")",
  .rule "raw_str_interpolation_start", .token "\\(", .token ",", .hidden "_escaped_identifier",
  .hidden "_extended_regex_literal", .hidden "_multiline_regex_literal_token1",
  .hidden "_multiline_regex_literal_token2", .hidden "_oneline_regex_literal", .token ":",
  .token "!", .token "(", .token "[", .token "]", .token ".", .token "Type", .token "Protocol",
  .token "?", .hidden "?", .token "some", .token "any", .token "&", .token "if",
  .token "switch", .token "#selector", .token "getter:", .token "setter:",
  .hidden "custom_operator_token1", .token "<", .token ">", .token "await", .token "#file"]

def kindsFrom60 : List NodeKind := [
  .token "#fileID", .token "#filePath", .token "#line", .token "#column", .token "#function",
  .token "#dsohandle", .token "#colorLiteral", .token "#fileLiteral", .token "#imageLiteral",
  .token "\x7b", .token "^\x7b", .token "\x7d", .token "in", .token "self", .token "super",
  .token "guard", .token "case", .token "fallthrough", .token "do", .token "#keyPath",
  .token "try", .token "+=", .token "-=", .token "*=", .token "/=", .token "%=", .token "!=",
  .token "!==", .token "===", .token "<=", .token ">=", .token "...", .token "..<", .token "is",
  .token "+", .token "-", .token "*", .token "/", .token "%", .token "++", .token "--",
  .token "~", .token "|", .token "^", .token "<<", .token ">>", .rule "statement_label",
  .token "for", .token "while", .rule "throw_keyword", .token "return", .token "continue",
  .token "break", .token "yield", .token "#available", .token "#unavailable", .token "import",
  .token "typealias", .token "struct", .token "class"]

def kindsFrom120 : List NodeKind := [
  .token "enum", .token "protocol", .token "let", .token "var", .token "func", .token "willSet",
  .token "didSet", .token "macro", .token "#externalMacro", .token "extension",
  .token "indirect", .hidden "!", .token ";", .token "init", .token "deinit",
  .token "subscript", .token "get", .token "set", .token "_modify", .token "prefix",
  .token "infix", .token "postfix", .token "operator", .token "precedencegroup",
  .token "associatedtype", .token "@", .rule "wildcard_pattern", .token "override",
  .token "convenience", .token "required", .token "nonisolated", .token "public",
  .token "private", .token "internal", .token "fileprivate", .token "open", .token "mutating",
  .token "nonmutating", .token "static", .token "dynamic", .token "optional",
  .token "distributed", .token "final", .token "inout", .token "@escaping",
  .token "@autoclosure", .token "weak", .token "unowned", .token "unowned(safe)",
  .token "unowned(unsafe)", .token "borrowing", .token "consuming", .token "property",
  .token "receiver", .token "param", .token "setparam", .token "delegate", .rule "directive",
  .rule "diagnostic", .token "try?"]

def kindsFrom180 : List NodeKind := [
  .token "try!", .rule "multiline_comment", .rule "raw_str_part",
  .rule "raw_str_continuing_indicator", .rule "raw_str_end_part", .hidden "_implicit_semi",
  .hidden "_explicit_semi", .token "->", .hidden ".", .token "&&", .token "||", .token "??",
  .token "=", .token "==", .hidden "+", .hidden "-", .hidden "_bang_custom",
  .hidden "_throws_keyword", .hidden "_rethrows_keyword", .rule "default_keyword",
  .rule "where_keyword", .rule "else", .rule "catch_keyword", .token "as", .token "as?",
  .token "as!", .hidden "async", .hidden "_custom_operator", .hidden "_fake_try_bang",
  .rule "source_file", .hidden "_semi", .rule "shebang_line", .rule "simple_identifier",
  .hidden "_contextual_simple_identifier", .rule "identifier", .hidden "_basic_literal",
  .rule "boolean_literal", .hidden "_string_literal", .rule "line_string_literal",
  .hidden "_line_string_content", .rule "line_str_text", .rule "str_escaped_char",
  .hidden "_uni_character_literal", .rule "multi_line_string_literal",
  .rule "raw_string_literal", .rule "raw_str_interpolation",
  .hidden "_multi_line_string_content", .hidden "_interpolation",
  .hidden "_interpolation_contents", .rule "multi_line_str_text", .rule "regex_literal",
  .hidden "_multiline_regex_literal", .rule "type_annotation",
  .hidden "_possibly_implicitly_unwrapped_type", .hidden "_type", .hidden "_unannotated_type",
  .rule "user_type", .hidden "_simple_user_type", .rule "tuple_type", .rule "tuple_type_item"]

def kindsFrom240 : List NodeKind := [
  .hidden "_tuple_type_item_identifier", .rule "function_type", .rule "array_type",
  .rule "dictionary_type", .rule "optional_type", .rule "metatype", .hidden "_quest",
  .hidden "?", .rule "opaque_type", .rule "existential_type", .rule "type_parameter_pack",
  .rule "type_pack_expansion", .rule "protocol_composition_type", .hidden "_expression",
  .hidden "_unary_expression", .rule "postfix_expression", .rule "constructor_expression",
  .hidden "_parenthesized_type", .rule "navigation_expression",
  .hidden "_navigable_type_expression", .rule "open_start_range_expression",
  .hidden "_range_operator", .rule "open_end_range_expression", .rule "prefix_expression",
  .rule "as_expression", .rule "selector_expression", .hidden "_binary_expression",
  .rule "multiplicative_expression", .rule "additive_expression", .rule "range_expression",
  .rule "infix_expression", .rule "nil_coalescing_expression", .rule "check_expression",
  .rule "comparison_expression", .rule "equality_expression", .rule "conjunction_expression",
  .rule "disjunction_expression", .rule "bitwise_operation", .rule "custom_operator",
  .rule "navigation_suffix", .rule "call_suffix", .rule "constructor_suffix",
  .otherRule "value_arguments" 285, .hidden "_fn_call_lambda_arguments", .rule "type_arguments",
  .rule "value_arguments", .rule "value_argument_label", .rule "value_argument",
  .rule "try_expression", .rule "await_expression", .hidden "_await_operator",
  .rule "ternary_expression", .hidden "_expr_hack_at_ternary_binary_suffix",
  .otherRule "call_expression" 295, .otherRule "call_suffix" 280, .rule "call_expression",
  .hidden "_primary_expression", .rule "tuple_expression", .rule "array_literal",
  .rule "dictionary_literal"]

def kindsFrom300 : List NodeKind := [
  .hidden "_dictionary_literal_item", .hidden "_special_literal", .hidden "_playground_literal",
  .rule "lambda_literal", .hidden "_lambda_type_declaration", .rule "capture_list",
  .rule "capture_list_item", .rule "lambda_function_type",
  .rule "lambda_function_type_parameters", .rule "lambda_parameter", .rule "self_expression",
  .rule "super_expression", .hidden "_else_options", .rule "if_statement",
  .hidden "_if_condition_sequence_item", .hidden "_if_let_binding", .rule "guard_statement",
  .rule "switch_statement", .rule "switch_entry", .rule "switch_pattern", .rule "do_statement",
  .rule "catch_block", .rule "where_clause", .rule "key_path_expression",
  .rule "key_path_string_expression", .hidden "_key_path_component",
  .hidden "_key_path_postfixes", .rule "try_operator", .hidden "_try_operator_type",
  .hidden "_assignment_and_operator", .hidden "_equality_operator",
  .hidden "_comparison_operator", .hidden "_three_dot_operator",
  .hidden "_open_ended_range_operator", .hidden "_is_operator", .hidden "_additive_operator",
  .hidden "_multiplicative_operator", .rule "as_operator", .hidden "_prefix_unary_operator",
  .hidden "_bitwise_binary_operator", .hidden "_postfix_unary_operator",
  .rule "directly_assignable_expression", .rule "statements", .hidden "_local_statement",
  .hidden "_top_level_statement", .hidden "_block", .hidden "_labeled_statement",
  .rule "for_statement", .hidden "_for_statement_collection", .otherRule "await_expression" 289,
  .rule "while_statement", .rule "repeat_while_statement", .rule "control_transfer_statement",
  .hidden "_throw_statement", .hidden "_optionally_valueful_control_keyword",
  .rule "assignment", .rule "value_parameter_pack", .rule "value_pack_expansion",
  .rule "availability_condition", .hidden "_availability_argument"]

def kindsFrom360 : List NodeKind := [
  .hidden "_global_declaration", .hidden "_type_level_declaration",
  .hidden "_local_declaration", .otherRule "property_declaration" 371,
  .otherRule "typealias_declaration" 379, .otherRule "function_declaration" 381,
  .otherRule "class_declaration" 391, .rule "import_declaration", .hidden "_import_kind",
  .rule "protocol_property_declaration", .rule "protocol_property_requirements",
  .rule "property_declaration", .hidden "_modifierless_property_declaration",
  .hidden "_single_modifierless_property_declaration",
  .hidden "_expression_with_willset_didset", .hidden "_expression_without_willset_didset",
  .rule "willset_didset_block", .rule "willset_clause", .rule "didset_clause",
  .rule "typealias_declaration", .hidden "_modifierless_typealias_declaration",
  .rule "function_declaration", .hidden "_modifierless_function_declaration",
  .hidden "_bodyless_function_declaration",
  .hidden "_modifierless_function_declaration_no_body", .rule "function_body",
  .rule "macro_declaration", .hidden "_macro_head", .hidden "_macro_signature",
  .rule "macro_definition", .rule "external_macro_definition", .rule "class_declaration",
  .hidden "_modifierless_class_declaration", .rule "class_body",
  .hidden "_inheritance_specifiers", .rule "inheritance_specifier",
  .hidden "_annotated_inheritance_specifier", .rule "type_parameters", .rule "type_parameter",
  .hidden "_type_parameter_possibly_packed", .rule "type_constraints", .rule "type_constraint",
  .rule "inheritance_constraint", .rule "equality_constraint", .hidden "_constrained_type",
  .hidden "_class_member_separator", .hidden "_class_member_declarations",
  .hidden "_function_value_parameters", .hidden "_function_value_parameter", .rule "parameter",
  .hidden "_non_constructor_function_decl", .hidden "_referenceable_operator",
  .hidden "_equal_sign", .hidden "_eq_eq", .hidden "_dot", .hidden "_arrow_operator",
  .hidden "_conjunction_operator", .hidden "_disjunction_operator",
  .hidden "_nil_coalescing_operator", .hidden "_as"]

def kindsFrom420 : List NodeKind := [
  .hidden "_as_quest", .hidden "_as_bang", .rule "bang", .hidden "_async_keyword",
  .hidden "_async_modifier", .rule "throws", .rule "enum_class_body", .rule "enum_entry",
  .hidden "_enum_entry_suffix", .rule "enum_type_parameters", .rule "protocol_declaration",
  .rule "protocol_body", .hidden "_protocol_member_declarations",
  .hidden "_protocol_member_declaration", .rule "init_declaration", .rule "deinit_declaration",
  .rule "subscript_declaration", .rule "computed_property", .rule "computed_getter",
  .rule "computed_modify", .rule "computed_setter", .rule "getter_specifier",
  .rule "setter_specifier", .rule "modify_specifier", .hidden "_getter_effects",
  .rule "operator_declaration", .rule "deprecated_operator_declaration_body",
  .rule "precedence_group_declaration", .rule "precedence_group_attributes",
  .rule "precedence_group_attribute", .rule "associatedtype_declaration", .rule "attribute",
  .hidden "_attribute_argument", .hidden "_universally_allowed_pattern",
  .hidden "_bound_identifier", .hidden "_binding_pattern_no_expr",
  .hidden "_no_expr_pattern_already_bound", .rule "pattern",
  .hidden "_direct_or_indirect_binding", .rule "value_binding_pattern",
  .hidden "_possibly_async_binding_pattern_kind", .hidden "_binding_kind_and_pattern",
  .hidden "_tuple_pattern_item", .hidden "_tuple_pattern", .hidden "_case_pattern",
  .hidden "_type_casting_pattern", .hidden "_binding_pattern", .rule "modifiers",
  .hidden "_locally_permitted_modifiers", .rule "parameter_modifiers",
  .hidden "_non_local_scope_modifier", .hidden "_locally_permitted_modifier",
  .rule "property_behavior_modifier", .rule "type_modifiers", .rule "member_modifier",
  .rule "visibility_modifier", .rule "type_parameter_modifiers", .rule "function_modifier",
  .rule "mutation_modifier", .rule "property_modifier"]

def kindsFrom480 : List NodeKind := [
  .rule "inheritance_modifier", .rule "parameter_modifier", .rule "ownership_modifier",
  .hidden "_parameter_ownership_modifier", .hidden "source_file_repeat1",
  .hidden "identifier_repeat1", .hidden "line_string_literal_repeat1",
  .hidden "multi_line_string_literal_repeat1", .hidden "raw_string_literal_repeat1",
  .hidden "_interpolation_contents_repeat1", .hidden "user_type_repeat1",
  .hidden "tuple_type_repeat1", .hidden "optional_type_repeat1",
  .hidden "protocol_composition_type_repeat1", .hidden "_constructor_value_arguments_repeat1",
  .hidden "_fn_call_lambda_arguments_repeat1", .hidden "type_arguments_repeat1",
  .hidden "value_argument_repeat1", .hidden "tuple_expression_repeat1",
  .hidden "array_literal_repeat1", .hidden "dictionary_literal_repeat1",
  .hidden "_playground_literal_repeat1", .hidden "_lambda_type_declaration_repeat1",
  .hidden "capture_list_repeat1", .hidden "lambda_function_type_parameters_repeat1",
  .hidden "if_statement_repeat1", .hidden "switch_statement_repeat1",
  .hidden "switch_entry_repeat1", .hidden "do_statement_repeat1",
  .hidden "key_path_expression_repeat1", .hidden "_key_path_component_repeat1",
  .hidden "statements_repeat1", .hidden "repeat_while_statement_repeat1",
  .hidden "availability_condition_repeat1", .hidden "_availability_argument_repeat1",
  .hidden "protocol_property_requirements_repeat1",
  .hidden "_modifierless_property_declaration_repeat1",
  .hidden "_inheritance_specifiers_repeat1", .hidden "type_parameters_repeat1",
  .hidden "type_constraints_repeat1", .hidden "_constrained_type_repeat1",
  .hidden "_class_member_declarations_repeat1", .hidden "_function_value_parameters_repeat1",
  .hidden "enum_class_body_repeat1", .hidden "enum_entry_repeat1",
  .hidden "enum_type_parameters_repeat1", .hidden "_protocol_member_declarations_repeat1",
  .hidden "computed_property_repeat1", .hidden "deprecated_operator_declaration_body_repeat1",
  .hidden "precedence_group_attributes_repeat1", .hidden "attribute_repeat1",
  .hidden "_attribute_argument_repeat1", .hidden "_attribute_argument_repeat2",
  .hidden "_tuple_pattern_repeat1", .hidden "modifiers_repeat1",
  .hidden "parameter_modifiers_repeat1", .rule "_expression", .rule "fully_open_range",
  .rule "interpolated_expression", .rule "protocol_function_declaration"]

def kindsFrom540 : List NodeKind := [
  .rule "type_identifier"]

def kinds : List NodeKind :=
  List.flatten [
    kindsFrom0, kindsFrom60, kindsFrom120, kindsFrom180, kindsFrom240, kindsFrom300,
    kindsFrom360, kindsFrom420, kindsFrom480, kindsFrom540]

end SyntaxReport.Language.Swift
