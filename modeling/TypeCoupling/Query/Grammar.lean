import TypeCoupling.Language

/-!
# Node kinds and fields

The names that a pattern for a language may use. A pattern with any other node kind or field is
no pattern of that language.
-/

namespace TypeCoupling.Query

/-- The node kinds and fields of a language's grammar. -/
structure Grammar where
  kinds : List String
  fields : List String
  /-- Fields that exist but not for the given kind, so that a pattern never matches. -/
  absent : List (String × String)

namespace Grammar

def csharp : Grammar where
  kinds :=
    ["accessor_declaration", "accessor_list", "alias_qualified_name", "and_pattern",
     "anonymous_method_expression", "anonymous_object_creation_expression", "argument",
     "argument_list", "array_creation_expression", "array_rank_specifier", "array_type",
     "arrow_expression_clause", "as_expression", "assignment_expression", "attribute",
     "attribute_argument", "attribute_argument_list", "attribute_list", "await_expression",
     "base_list", "binary_expression", "block", "boolean_literal", "bracketed_argument_list",
     "bracketed_parameter_list", "break_statement", "cast_expression", "catch_clause",
     "catch_declaration", "catch_filter_clause", "character_literal", "checked_expression",
     "checked_statement", "class_declaration", "comment", "compilation_unit",
     "conditional_access_expression", "conditional_expression", "constant_pattern",
     "constructor_constraint", "constructor_declaration", "constructor_initializer",
     "continue_statement", "conversion_operator_declaration", "declaration",
     "declaration_expression", "declaration_list", "declaration_pattern", "default_expression",
     "delegate_declaration", "destructor_declaration", "discard", "do_statement",
     "element_access_expression", "element_binding_expression", "empty_statement",
     "enum_declaration", "enum_member_declaration", "enum_member_declaration_list",
     "event_declaration", "event_field_declaration", "explicit_interface_specifier", "expression",
     "expression_statement", "extern_alias_directive", "field_declaration",
     "file_scoped_namespace_declaration", "finally_clause", "fixed_statement", "for_statement",
     "foreach_statement", "from_clause", "function_pointer_type", "generic_name",
     "global_attribute", "global_statement", "goto_statement", "group_clause", "identifier",
     "if_statement", "implicit_array_creation_expression", "implicit_object_creation_expression",
     "implicit_parameter", "implicit_type", "indexer_declaration", "initializer_expression",
     "integer_literal", "interface_declaration", "interpolated_string_expression",
     "interpolation", "invocation_expression", "is_expression", "is_pattern_expression",
     "join_clause", "labeled_statement", "lambda_expression", "let_clause", "literal",
     "local_declaration_statement", "local_function_statement", "lock_statement",
     "member_access_expression", "member_binding_expression", "method_declaration", "modifier",
     "namespace_declaration", "negated_pattern", "null_literal", "nullable_type",
     "object_creation_expression", "operator_declaration", "or_pattern", "order_by_clause",
     "parameter", "parameter_list", "parenthesized_expression", "parenthesized_pattern",
     "pattern", "pointer_type", "postfix_unary_expression", "predefined_type",
     "prefix_unary_expression", "primary_constructor_base_type", "property_declaration",
     "property_pattern_clause", "qualified_name", "query_expression", "range_expression",
     "raw_string_literal", "real_literal", "record_declaration", "recursive_pattern",
     "ref_expression", "ref_type", "relational_pattern", "return_statement", "scoped_type",
     "select_clause", "simple_base_type", "sizeof_expression", "statement", "string_literal",
     "struct_declaration", "subpattern", "switch_body", "switch_expression",
     "switch_expression_arm", "switch_section", "switch_statement", "throw_expression",
     "throw_statement", "try_statement", "tuple_element", "tuple_expression", "tuple_type", "type",
     "type_argument_list", "type_parameter", "type_parameter_constraint",
     "type_parameter_constraints_clause", "type_parameter_list", "type_pattern",
     "typeof_expression", "unsafe_statement", "using_directive", "using_statement", "var_pattern",
     "variable_declaration", "variable_declarator", "verbatim_string_literal", "when_clause",
     "where_clause", "while_statement", "with_expression", "yield_statement"]
  fields :=
    ["accessors", "alias", "alternative", "arguments", "bases", "body", "condition",
     "consequence", "constraints", "expression", "function", "initializer", "left", "name",
     "operator", "parameters", "qualifier", "rank", "returns", "right", "subscript", "type",
     "type_arguments", "type_parameters", "update", "value"]
  absent := [("method_declaration", "type")]

def php : Grammar where
  kinds :=
    ["abstract_modifier", "anonymous_class", "anonymous_function", "anonymous_function_use_clause",
     "argument", "arguments", "array_creation_expression", "array_element_initializer",
     "arrow_function", "assignment_expression", "attribute", "attribute_group", "attribute_list",
     "augmented_assignment_expression", "base_clause", "binary_expression", "boolean",
     "bottom_type", "break_statement", "by_ref", "case_statement", "cast_expression", "cast_type",
     "catch_clause", "class_constant_access_expression", "class_declaration",
     "class_interface_clause", "class_modifier", "clone_expression", "colon_block", "comment",
     "compound_statement", "conditional_expression", "const_declaration", "const_element",
     "continue_statement", "declaration_list", "declare_directive", "declare_statement",
     "default_statement", "do_statement", "echo_statement", "else_clause", "else_if_clause",
     "empty_statement", "encapsed_string", "enum_case", "enum_declaration",
     "enum_declaration_list", "error_suppression_expression", "escape_sequence",
     "exit_statement", "expression", "expression_statement", "final_modifier", "finally_clause",
     "float", "for_statement", "foreach_statement", "formal_parameters",
     "function_call_expression", "function_definition", "function_static_declaration",
     "global_declaration", "goto_statement", "heredoc", "if_statement", "include_expression",
     "include_once_expression", "integer", "interface_declaration", "intersection_type",
     "list_literal", "literal", "match_block", "match_condition_list",
     "match_conditional_expression", "match_default_expression", "match_expression",
     "member_access_expression", "member_call_expression", "method_declaration", "name",
     "named_label_statement", "named_type", "namespace_definition", "namespace_name",
     "namespace_use_clause", "namespace_use_declaration", "namespace_use_group", "nowdoc", "null",
     "nullsafe_member_access_expression", "nullsafe_member_call_expression",
     "object_creation_expression", "optional_type", "pair", "parenthesized_expression",
     "php_tag", "primary_expression", "primitive_type", "print_intrinsic", "program",
     "property_declaration", "property_element", "property_promotion_parameter",
     "qualified_name", "readonly_modifier", "reference_assignment_expression",
     "reference_modifier", "relative_scope", "require_expression", "require_once_expression",
     "return_statement", "scoped_call_expression", "scoped_property_access_expression",
     "sequence_expression", "shell_command_expression", "simple_parameter", "statement",
     "static_modifier", "static_variable_declaration", "string", "string_content",
     "subscript_expression", "switch_block", "switch_statement", "text", "text_interpolation",
     "throw_expression", "trait_declaration", "try_statement", "type", "type_list",
     "unary_op_expression", "union_type", "unset_statement", "update_expression",
     "use_as_clause", "use_declaration", "use_instead_of_clause", "use_list", "var_modifier",
     "variable_name", "variadic_parameter", "variadic_placeholder", "variadic_unpacking",
     "visibility_modifier", "while_statement", "yield_expression"]
  fields :=
    ["alias", "alternative", "arguments", "attributes", "block", "body", "class", "condition",
     "condition_expressions", "conditional_expressions", "default_value", "end_tag", "function",
     "identifier", "increment", "index", "initialize", "left", "name", "namespace", "object",
     "operator", "parameters", "prefix", "readonly", "reference_modifier", "return_expression",
     "return_type", "right", "scope", "static_modifier", "type", "update", "value", "visibility"]
  absent := []

def ofLanguage : Language → Grammar
  | .csharp => csharp
  | .php => php

/-- Whether a node of the kind may have the field. -/
def hasField (g : Grammar) (kind : Option String) (field : String) : Bool :=
  g.fields.contains field &&
    !g.absent.any fun (k, f) => kind == some k && f == field

end Grammar

end TypeCoupling.Query
