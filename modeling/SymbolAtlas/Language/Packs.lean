import SymbolAtlas.Language.Pack

/-!
The shipped packs. A definition is tagged on the identifier it introduces, a reference on the
identifier that a call or a use of a type points at.
-/

set_option autoImplicit false

namespace SymbolAtlas.Packs

def defined (tag kind : String) : Pattern := .node kind [] ["name.definition." ++ tag]

def referred (tag kind : String) : Pattern := .node kind [] ["name.reference." ++ tag]

def any (kind : String) : Pattern := .node kind [] []

def field (kind name : String) (child : Pattern) : Pattern := .node kind [(some name, child)] []

def fields (kind name : String) (child : Pattern) (name' : String) (child' : Pattern) : Pattern :=
  .node kind [(some name, child), (some name', child')] []

def holding (kind : String) (child : Pattern) : Pattern := .node kind [(none, child)] []

def typescriptTags : TagQuery :=
  [field "function_declaration" "name" (defined "function" "identifier"),
   field "generator_function_declaration" "name" (defined "function" "identifier"),
   field "function_signature" "name" (defined "function" "identifier"),
   fields "variable_declarator" "name" (defined "function" "identifier")
     "value" (any "arrow_function"),
   field "class_declaration" "name" (defined "class" "type_identifier"),
   field "abstract_class_declaration" "name" (defined "class" "type_identifier"),
   field "interface_declaration" "name" (defined "interface" "type_identifier"),
   field "method_definition" "name" (defined "method" "property_identifier"),
   field "method_signature" "name" (defined "method" "property_identifier"),
   field "abstract_method_signature" "name" (defined "method" "property_identifier"),
   field "call_expression" "function" (referred "call" "identifier"),
   field "call_expression" "function"
     (field "member_expression" "property" (referred "call" "property_identifier")),
   field "new_expression" "constructor" (referred "class" "identifier"),
   holding "type_annotation" (referred "type" "type_identifier")]

def javascriptTags : TagQuery :=
  [field "function_declaration" "name" (defined "function" "identifier"),
   field "generator_function_declaration" "name" (defined "function" "identifier"),
   fields "variable_declarator" "name" (defined "function" "identifier")
     "value" (any "arrow_function"),
   field "class_declaration" "name" (defined "class" "identifier"),
   field "method_definition" "name" (defined "method" "property_identifier"),
   field "call_expression" "function" (referred "call" "identifier"),
   field "call_expression" "function"
     (field "member_expression" "property" (referred "call" "property_identifier")),
   field "new_expression" "constructor" (referred "class" "identifier")]

def pythonTags : TagQuery :=
  [field "class_definition" "name" (defined "class" "identifier"),
   field "function_definition" "name" (defined "function" "identifier"),
   field "call" "function" (referred "call" "identifier"),
   field "call" "function" (field "attribute" "attribute" (referred "call" "identifier"))]

def javaTags : TagQuery :=
  [field "class_declaration" "name" (defined "class" "identifier"),
   field "interface_declaration" "name" (defined "interface" "identifier"),
   field "enum_declaration" "name" (defined "enum" "identifier"),
   field "record_declaration" "name" (defined "class" "identifier"),
   field "method_declaration" "name" (defined "method" "identifier"),
   field "method_invocation" "name" (referred "call" "identifier"),
   field "object_creation_expression" "type" (referred "class" "type_identifier"),
   holding "superclass" (referred "class" "type_identifier"),
   holding "type_list" (referred "implementation" "type_identifier")]

def csharpTags : TagQuery :=
  [field "class_declaration" "name" (defined "class" "identifier"),
   field "interface_declaration" "name" (defined "interface" "identifier"),
   field "struct_declaration" "name" (defined "struct" "identifier"),
   field "enum_declaration" "name" (defined "enum" "identifier"),
   field "record_declaration" "name" (defined "class" "identifier"),
   field "method_declaration" "name" (defined "method" "identifier"),
   field "invocation_expression" "function" (referred "call" "identifier"),
   field "invocation_expression" "function"
     (field "member_access_expression" "name" (referred "call" "identifier")),
   field "object_creation_expression" "type" (referred "class" "identifier")]

def cppTags : TagQuery :=
  [field "function_definition" "declarator"
     (field "function_declarator" "declarator" (defined "function" "identifier")),
   field "function_definition" "declarator"
     (field "function_declarator" "declarator" (defined "method" "field_identifier")),
   field "function_definition" "declarator"
     (field "function_declarator" "declarator"
       (field "qualified_identifier" "name" (defined "method" "identifier"))),
   field "field_declaration" "declarator"
     (field "function_declarator" "declarator" (defined "method" "field_identifier")),
   field "class_specifier" "name" (defined "class" "type_identifier"),
   field "struct_specifier" "name" (defined "struct" "type_identifier"),
   field "call_expression" "function" (referred "call" "identifier"),
   field "call_expression" "function"
     (field "field_expression" "field" (referred "call" "field_identifier")),
   field "call_expression" "function"
     (field "qualified_identifier" "name" (referred "call" "identifier")),
   field "new_expression" "type" (referred "class" "type_identifier")]

def rustTags : TagQuery :=
  [field "function_item" "name" (defined "function" "identifier"),
   field "function_signature_item" "name" (defined "function" "identifier"),
   field "struct_item" "name" (defined "class" "type_identifier"),
   field "enum_item" "name" (defined "class" "type_identifier"),
   field "trait_item" "name" (defined "interface" "type_identifier"),
   field "mod_item" "name" (defined "module" "identifier"),
   field "call_expression" "function" (referred "call" "identifier"),
   field "call_expression" "function"
     (field "field_expression" "field" (referred "call" "field_identifier")),
   field "call_expression" "function"
     (field "scoped_identifier" "name" (referred "call" "identifier")),
   field "scoped_identifier" "path" (referred "class" "identifier"),
   field "macro_invocation" "macro" (referred "call" "identifier"),
   field "struct_expression" "name" (referred "class" "type_identifier"),
   field "impl_item" "trait" (referred "implementation" "type_identifier")]

/-- A call without parentheses or arguments is a bare identifier in these places. -/
def rubyTags : TagQuery :=
  [field "method" "name" (defined "method" "identifier"),
   field "singleton_method" "name" (defined "method" "identifier"),
   field "class" "name" (defined "class" "constant"),
   field "module" "name" (defined "module" "constant"),
   field "call" "method" (referred "call" "identifier"),
   field "call" "receiver" (referred "class" "constant"),
   holding "body_statement" (referred "call" "identifier"),
   holding "program" (referred "call" "identifier"),
   holding "then" (referred "call" "identifier"),
   holding "else" (referred "call" "identifier"),
   holding "argument_list" (referred "call" "identifier"),
   field "assignment" "right" (referred "call" "identifier")]

def goTags : TagQuery :=
  [field "function_declaration" "name" (defined "function" "identifier"),
   field "method_declaration" "name" (defined "method" "field_identifier"),
   fields "type_spec" "name" (defined "class" "type_identifier") "type" (any "struct_type"),
   fields "type_spec" "name" (defined "interface" "type_identifier")
     "type" (any "interface_type"),
   field "call_expression" "function" (referred "call" "identifier"),
   field "call_expression" "function"
     (field "selector_expression" "field" (referred "call" "field_identifier")),
   field "composite_literal" "type" (referred "class" "type_identifier")]

def shipped : List Pack :=
  [⟨.typescript, "tree-sitter-typescript", "tree_sitter_typescript", some "language_typescript",
     [".ts"], .patterns typescriptTags⟩,
   ⟨.tsx, "tree-sitter-typescript", "tree_sitter_typescript", some "language_tsx",
     [".tsx"], .patterns typescriptTags⟩,
   ⟨.javascript, "tree-sitter-javascript", "tree_sitter_javascript", none,
     [".js", ".jsx"], .patterns javascriptTags⟩,
   ⟨.python, "tree-sitter-python", "tree_sitter_python", none, [".py"], .patterns pythonTags⟩,
   ⟨.java, "tree-sitter-java", "tree_sitter_java", none, [".java"], .patterns javaTags⟩,
   ⟨.csharp, "tree-sitter-c-sharp", "tree_sitter_c_sharp", none, [".cs"], .patterns csharpTags⟩,
   ⟨.cpp, "tree-sitter-cpp", "tree_sitter_cpp", none, [".cpp", ".hpp"], .patterns cppTags⟩,
   ⟨.rust, "tree-sitter-rust", "tree_sitter_rust", none, [".rs"], .patterns rustTags⟩,
   ⟨.ruby, "tree-sitter-ruby", "tree_sitter_ruby", none, [".rb"], .patterns rubyTags⟩,
   ⟨.go, "tree-sitter-go", "tree_sitter_go", none, [".go"], .patterns goTags⟩]

def table : PackTable := PackTable.ofPacks shipped

def byExtension : Table String Pack :=
  Table.ofList (table.entries.flatMap fun row => row.2.extensions.map fun e => (e, row.2))

def extensions : List String := byExtension.keys.mergeSort (· ≤ ·)

def forExtension (e : String) : Option Pack := byExtension.get? e

def forPath (path : String) : Option Pack := forExtension (Path.suffix path)

end SymbolAtlas.Packs
