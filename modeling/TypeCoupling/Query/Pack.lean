import TypeCoupling.Query.Build

/-!
# Query packs

The query texts of each language. A pack may hold patterns for several revisions of a grammar;
those that the grammar at hand refuses are dropped when the query is built.
-/

namespace TypeCoupling.Query

/-- The four query texts of a language; an empty text stands for a construct that the language
does not have. -/
structure Pack where
  imports : String
  groupedImports : String
  usages : String
  declarations : String

namespace Pack

def csharp : Pack where
  imports := "(using_directive
  !name
  [(qualified_name) (identifier)] @namespace_use)
(using_directive
  name: (identifier) @namespace_use_alias_prefix
  [(qualified_name) (identifier)] @namespace_use)
(using_directive
  (name_equals (identifier) @namespace_use_alias_prefix)
  [(qualified_name) (identifier)] @namespace_use)"
  groupedImports := ""
  usages := "(generic_name
  (identifier) @qualified_name
  (type_argument_list (_) @qualified_name))
(method_declaration
  returns: (_) @qualified_name)
(method_declaration
  type: (_) @qualified_name)
(method_declaration
  parameters: (parameter_list
    (parameter type: (_) @qualified_name)))
(constructor_declaration
  parameters: (parameter_list
    (parameter type: (_) @qualified_name)))
(property_declaration
  type: (_) @qualified_name)
(variable_declaration
  type: (_) @qualified_name)
(object_creation_expression
  type: (_) @qualified_name)
(member_access_expression) @call_expression"
  declarations := "(namespace_declaration
  name: (_) @namespace_definition_name) @namespace_definition
(file_scoped_namespace_declaration
  name: (_) @file_namespace_name)
(class_declaration
  name: (identifier) @class_name) @class_definition
(interface_declaration
  name: (identifier) @class_name) @class_definition
(struct_declaration
  name: (identifier) @class_name) @class_definition
(record_declaration
  name: (identifier) @class_name) @class_definition
(enum_declaration
  name: (identifier) @class_name) @class_definition
(class_declaration
  (base_list (_) @base_class))
(record_declaration
  (base_list (_) @base_class))
(interface_declaration
  (base_list (_) @implemented_class))
(struct_declaration
  (base_list (_) @implemented_class))
(method_declaration
  (modifier) @accessor_modifier
  returns: (_) @accessor_return_type
  name: (identifier) @accessor_name
  (#eq? @accessor_modifier \"public\")) @accessor_definition
(method_declaration
  (modifier) @accessor_modifier
  type: (_) @accessor_return_type
  name: (identifier) @accessor_name
  (#eq? @accessor_modifier \"public\")) @accessor_definition
(property_declaration
  (modifier) @accessor_modifier
  type: (_) @accessor_return_type
  name: (identifier) @accessor_name
  (#eq? @accessor_modifier \"public\")) @accessor_definition"

def php : Pack where
  imports := "(namespace_use_declaration
  (namespace_use_clause
    .
    [(qualified_name) (name)] @namespace_use
    (namespace_aliasing_clause (name) @namespace_use_alias_suffix)?))
(namespace_use_declaration
  (namespace_use_clause
    !alias
    .
    [(qualified_name) (name)] @namespace_use))
(namespace_use_declaration
  (namespace_use_clause
    .
    [(qualified_name) (name)] @namespace_use
    alias: (name) @namespace_use_alias_suffix))"
  groupedImports := "(namespace_use_declaration
  (namespace_name) @namespace_use_group_name
  (namespace_use_group))
(namespace_use_group_clause
  .
  (namespace_name) @namespace_use_item_name)
(namespace_use_group_clause
  (namespace_aliasing_clause) @namespace_use_alias_suffix)
(namespace_use_group
  (namespace_use_clause
    .
    [(qualified_name) (name)] @namespace_use_item_name))
(namespace_use_group
  (namespace_use_clause
    alias: (name) @namespace_use_alias_suffix))"
  usages := "(object_creation_expression
  [(qualified_name) (name)] @qualified_name)
(scoped_call_expression
  scope: [(qualified_name) (name)] @qualified_name)
(class_constant_access_expression
  .
  [(qualified_name) (name)] @qualified_name)
(simple_parameter
  type: (named_type) @qualified_name)
(simple_parameter
  type: (optional_type (named_type) @qualified_name))
(property_declaration
  type: (named_type) @qualified_name)
(method_declaration
  return_type: (named_type) @qualified_name)
(function_definition
  return_type: (named_type) @qualified_name)
(function_call_expression
  function: (qualified_name) @call_expression)"
  declarations := "(namespace_definition
  name: (namespace_name) @file_namespace_name
  !body)
(namespace_definition
  name: (namespace_name) @namespace_definition_name
  body: (compound_statement)) @namespace_definition
(class_declaration
  name: (name) @class_name) @class_definition
(interface_declaration
  name: (name) @class_name) @class_definition
(trait_declaration
  name: (name) @class_name) @class_definition
(enum_declaration
  name: (name) @class_name) @class_definition
(class_declaration
  (base_clause [(qualified_name) (name)] @extended_class))
(class_declaration
  (class_interface_clause [(qualified_name) (name)] @implemented_class))
(interface_declaration
  (base_clause [(qualified_name) (name)] @implemented_class))
(method_declaration
  (visibility_modifier) @accessor_modifier
  name: (name) @accessor_name
  return_type: (_) @accessor_return_type
  (#eq? @accessor_modifier \"public\")) @accessor_definition
(property_declaration
  (visibility_modifier) @accessor_modifier
  type: (_) @accessor_return_type
  (property_element (variable_name (name) @accessor_name))
  (#eq? @accessor_modifier \"public\")) @accessor_definition"

def ofLanguage : Language → Pack
  | .csharp => csharp
  | .php => php

end Pack

/-- The query of a text in a language. -/
def ofText? (language : Language) (text : String) : Option Summary :=
  build? (.ofLanguage language) (splitPatterns text)

end TypeCoupling.Query
