import CodeIndex.Path

/-!
The languages an index knows, told apart by file extension. Six have a grammar and are cut along their
declarations; files of the others are cut into line windows.
-/

namespace CodeIndex

inductive Language where
  | rust
  | python
  | javascript
  | typescript
  | go
  | java
  | bash
  | toml
  | json
  | yaml
  | markdown
  deriving DecidableEq, Repr

/-- The part a top-level node plays between files. -/
inductive Xref.Role where
  | imported
  | exported
  deriving DecidableEq, Repr

namespace Language

def all : List Language :=
  [.rust, .python, .javascript, .typescript, .go, .java, .bash, .toml, .json, .yaml, .markdown]

def id : Language → String
  | rust => "rust"
  | python => "python"
  | javascript => "javascript"
  | typescript => "typescript"
  | go => "go"
  | java => "java"
  | bash => "bash"
  | toml => "toml"
  | json => "json"
  | yaml => "yaml"
  | markdown => "markdown"

def ofId? (s : String) : Option Language := all.find? (·.id == s)

theorem ofId?_id (l : Language) : ofId? l.id = some l := by cases l <;> decide

/-- Kinds of syntax nodes that become symbols, and chunks when they are large. -/
def chunkableKinds : Language → List String
  | rust =>
    ["function_item", "struct_item", "enum_item", "trait_item", "impl_item", "type_item", "mod_item",
      "macro_definition"]
  | python => ["function_definition", "class_definition", "decorated_definition"]
  | javascript =>
    ["function_declaration", "generator_function_declaration", "class_declaration", "method_definition"]
  | typescript =>
    ["function_declaration", "generator_function_declaration", "class_declaration",
      "abstract_class_declaration", "method_definition", "interface_declaration", "type_alias_declaration",
      "enum_declaration"]
  | go => ["function_declaration", "method_declaration", "type_declaration"]
  | java =>
    ["class_declaration", "interface_declaration", "enum_declaration", "record_declaration",
      "method_declaration", "constructor_declaration"]
  | _ => []

def hasGrammar : Language → Bool
  | rust | python | javascript | typescript | go | java => true
  | _ => false

/-- Kinds of top-level nodes that import or export something. -/
def xrefKinds : Language → List (String × Xref.Role)
  | rust => [("use_declaration", .imported)]
  | python => [("import_statement", .imported), ("import_from_statement", .imported)]
  | javascript | typescript => [("import_statement", .imported), ("export_statement", .exported)]
  | go => [("import_declaration", .imported)]
  | java => [("import_declaration", .imported)]
  | _ => []

def ofExtension? (ext : String) : Option Language :=
  match ext with
  | "rs" => some rust
  | "py" | "pyi" => some python
  | "js" | "jsx" | "mjs" | "cjs" => some javascript
  | "ts" | "tsx" | "mts" | "cts" => some typescript
  | "go" => some go
  | "java" => some java
  | "sh" | "bash" | "zsh" => some bash
  | "toml" => some toml
  | "json" | "jsonc" => some json
  | "yaml" | "yml" => some yaml
  | "md" | "markdown" => some markdown
  | _ => none

/-- Extensions are compared without regard to the case of ASCII letters. -/
def ofPath? (path : String) : Option Language :=
  (Path.extension? path).bind fun ext => ofExtension? (ext.map Char.toLower)

end Language

end CodeIndex
