import CodeIndex.Command.Arguments

/-!
Help on the command line.
-/

namespace CodeIndex.Command

/-- The name under which the program goes. -/
def programName : String := "quarry"

def programVersion : String := "0.3.0"

def versionLine : String := programName ++ " " ++ programVersion ++ "\n"

/-- Each command with what it does. -/
def abouts : List (String × String) :=
  [ ("index", "Index a project; unchanged files are skipped"),
    ("watch", "Index a project, then keep it fresh until interrupted"),
    ("search", "Search an indexed project"),
    ("stats", "Show index statistics and provider health"),
    ("help", "Print this message or the help of the given subcommand(s)") ]

/-- How a command is written after the name of the program. -/
def usageOf (topic : Option String) : String :=
  programName ++ match topic with
    | none => " [OPTIONS] <COMMAND>"
    | some "search" => " search [OPTIONS] <QUERY>"
    | some "help" => " help [COMMAND]..."
    | some name => " " ++ name ++ " [OPTIONS] [PATH]"

def padRight (width : Nat) (s : String) : String := s ++ .ofList (List.replicate (width - s.length) ' ')

/-- Rows of two columns. -/
def rows (items : List (String × String)) : String :=
  let width := ((items.map (·.1.length)).max?).getD 0
  String.join (items.map fun (name, about) => "  " ++ padRight width name ++ "  " ++ about ++ "\n")

def configRow : String × String := ("    --config <CONFIG>", "Config file (default: $QUARRY_CONFIG, then ./quarry.toml)")

def jsonRow : String × String := ("    --json", "Print machine-readable JSON on stdout")

def helpRow : String × String := ("-h, --help", "Print help")

/-- The switches of a command, or of all. -/
def switchRows : Option String → List (String × String)
  | none => [configRow, jsonRow, helpRow, ("-V, --version", "Print version")]
  | some "index" =>
    [configRow, ("    --force", "Re-embed every file even if its content is unchanged"), jsonRow, helpRow]
  | some "search" =>
    [configRow, ("-p, --path <PATH>", "Any directory inside the project [default: .]"), jsonRow,
      ("-k, --limit <LIMIT>", "[default: 10]"), ("    --context", "Print results as an XML context block"), helpRow]
  | some "help" => []
  | some _ => [configRow, jsonRow, helpRow]

/-- What stands at the places of a command. -/
def placeRows : Option String → List (String × String)
  | none => []
  | some "search" => [("<QUERY>", "")]
  | some "help" => [("[COMMAND]...", "Print help for the subcommand(s)")]
  | some _ => [("[PATH]", "[default: .]")]

/-- A list under a heading; an empty one is left out. -/
def block (heading : String) (items : List (String × String)) : String :=
  if items.isEmpty then "" else "\n" ++ heading ++ ":\n" ++ rows items

/-- The help text on a command, or on all. -/
def helpText (topic : Option String) : String :=
  let about := match topic with
    | none => "Incremental semantic code index with lexical fallback"
    | some name => ((abouts.find? (·.1 == name)).map (·.2)).getD ""
  about ++ "\n\nUsage: " ++ usageOf topic ++ "\n" ++ block "Commands" (if topic.isNone then abouts else []) ++
    block "Arguments" (placeRows topic) ++ block "Options" (switchRows topic)

end CodeIndex.Command
