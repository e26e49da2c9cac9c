import CodeIndex.Chunk.Declaration

/-!
What a file imports and exports, read off the top-level nodes of its syntax tree.
-/

namespace CodeIndex.Chunk

open Syntax Text

def stripQuotes (s : String) : String :=
  .ofList (strip (fun c => c == '"' || c == '\'' || c == '`') s.toList)

/-- The name after the keywords of an import declaration, without its semicolons. -/
def importedName (text : String) : String :=
  let text := trim text
  let text := trim ((dropPrefix? "import" text).getD text)
  let text := trim ((dropPrefix? "static" text).getD text)
  trim (.ofList (stripEnd (· == ';') text.toList))

/-- What an export statement exports: a declaration, another module, or the names it lists. -/
def exportTargets (src : Source) (n : Node) : List String :=
  match n.child? .declaration with
  | some d => (symbolName? src d).toList
  | none =>
    match n.child? .source with
    | some s => [stripQuotes (s.text src)]
    | none =>
      match n.ofKind "export_specifier" with
      | [] => ["default"]
      | specs => (specs.filterMap (·.child? .name)).map (·.text src)

/-- The modules or names that a top-level node refers to. -/
def targets (src : Source) (language : Language) (n : Node) : List String :=
  match n.kind with
  | "use_declaration" => (n.child? .argument).toList.map (·.text src)
  | "import_from_statement" => (n.child? .moduleName).toList.map (·.text src)
  | "import_statement" =>
    if language = .python then
      (n.childrenIn .name).map fun c => ((c.child? .name).getD c).text src
    else (n.child? .source).toList.map fun c => stripQuotes (c.text src)
  | "export_statement" => exportTargets src n
  | "import_declaration" =>
    if language = .go then
      ((n.ofKind "import_spec").filterMap (·.child? .path)).map fun c => stripQuotes (c.text src)
    else [importedName (n.text src)]
  | _ => []

/-- An import that is made public counts as an export. -/
def roleOf (src : Source) (n : Node) : Xref.Role → Xref.Role
  | .exported => .exported
  | .imported => if "pub ".toList.isPrefixOf (n.text src).toList then .exported else .imported

/-- The references of a whole tree; empty names are left out. -/
def references (src : Source) (language : Language) (root : Node) : List Xref :=
  root.namedChildren.flatMap fun n =>
    match language.xrefKinds.find? (·.1 == n.kind) with
    | none => []
    | some (_, role) =>
      ((targets src language n).filter (!·.isEmpty)).map fun t => ⟨roleOf src n role, t, n.startRow src + 1⟩

end CodeIndex.Chunk
