import CodeIndex.Number.Decimal

/-!
Reading a command line: switches with their values, the name of a command, and what stands at the command's places.
A switch is given once at most, on either side of the command's name for those that hold for all commands. After two
dashes nothing is a switch.
-/

namespace CodeIndex

inductive Command where
  | index (path : String) (force : Bool)
  | watch (path : String)
  | search (query path : String) (limit : Nat) (context : Bool)
  | stats (path : String)
  deriving DecidableEq, Repr

structure Invocation where
  config : Option String
  json : Bool
  command : Command
  deriving DecidableEq, Repr

/-- What a command line comes to that asks for no command. -/
inductive Aside where
  | help (topic : Option String)
  | version
  | refused
  deriving DecidableEq, Repr

namespace Command

structure Switch where
  name : String
  letter : Option Char := none
  /-- The values that it takes, for one that takes any. -/
  value? : Option (String → Bool) := none

structure Grammar where
  topic : Option String
  switches : List Switch
  /-- The texts that may stand at each place. -/
  places : List (String → Bool)

def isPath (s : String) : Bool := !s.isEmpty

def limit? (s : String) : Option Nat := Number.ofText? (Nat.pow 2 64) s

def globalSwitches : List Switch := [{ name := "config", value? := some isPath }, { name := "json" }]

def topGrammar : Grammar := ⟨none, globalSwitches, []⟩

/-- What each command takes beside the switches that hold for all. -/
def grammars : List (String × List Switch × List (String → Bool)) :=
  [ ("index", [{ name := "force" }], [isPath]),
    ("watch", [], [isPath]),
    ("search",
      [ { name := "path", letter := some 'p', value? := some isPath },
        { name := "limit", letter := some 'k', value? := some fun s => (limit? s).isSome },
        { name := "context" } ],
      [fun _ => true]),
    ("stats", [], [isPath]) ]

def grammar? (name : String) : Option Grammar :=
  (grammars.find? (·.1 == name)).map fun (_, switches, places) => ⟨some name, globalSwitches ++ switches, places⟩

/-- What was read of a command line. -/
structure Draft where
  given : List (String × String) := []
  places : List String := []
  deriving DecidableEq, Repr

namespace Draft

def isGiven (d : Draft) (name : String) : Bool := d.given.any (·.1 == name)

def value? (d : Draft) (name : String) : Option String := (d.given.find? (·.1 == name)).map (·.2)

/-- Notes a switch with a value that it takes, unless it was given before. -/
def give (d : Draft) (s : Switch) (value : String) : Except Aside Draft :=
  if d.isGiven s.name || !(s.value?.getD fun _ => true) value then .error .refused
  else .ok { d with given := (s.name, value) :: d.given }

/-- Puts a word at the next place. -/
def place (g : Grammar) (d : Draft) (word : String) : Except Aside Draft :=
  match g.places[d.places.length]? with
  | some fits => if fits word then .ok { d with places := d.places ++ [word] } else .error .refused
  | none => .error .refused

end Draft

inductive Word where
  | plain
  | escape
  | long (name : List Char) (value : Option (List Char))
  | short (letter : Char) (rest : List Char)
  deriving DecidableEq, Repr

/-- What a word is: a dash alone is plain. -/
def Word.ofText (word : String) : Word :=
  match word.toList with
  | ['-', '-'] => escape
  | '-' :: '-' :: rest =>
    long (rest.takeWhile (· ≠ '=')) (if rest.contains '=' then some ((rest.dropWhile (· ≠ '=')).drop 1) else none)
  | '-' :: c :: rest => short c rest
  | _ => plain

/-- A draft, and the switch whose value is the next word. -/
abbrev Step := Except Aside (Draft × Option Switch)

/-- Reads a switch with its value, if one is written with it. -/
def takeSwitch (d : Draft) (s : Switch) (value : Option (List Char)) : Step :=
  match s.value?, value with
  | some _, none => .ok (d, some s)
  | none, some _ => .error .refused
  | _, value => (d.give s (.ofList (value.getD []))).map (·, none)

def takeLong (g : Grammar) (d : Draft) (name : String) (value : Option (List Char)) : Step :=
  if name = "help" then .error (if value.isNone then .help g.topic else .refused)
  else if name = "version" ∧ g.topic = none then .error (if value.isNone then .version else .refused)
  else match g.switches.find? (·.name == name) with
    | some s => takeSwitch d s value
    | none => .error .refused

/-- A letter with what follows it in its word, which is its value. -/
def takeShort (g : Grammar) (d : Draft) (letter : Char) (rest : List Char) : Step :=
  if letter = 'h' then .error (.help g.topic)
  else if letter = 'V' ∧ g.topic = none then .error .version
  else match g.switches.find? (·.letter == some letter), rest with
    | some s, [] => takeSwitch d s none
    | some s, '=' :: value => takeSwitch d s (some value)
    | some s, value => takeSwitch d s (some value)
    | none, _ => .error .refused

/-- Reads words; if the grammar has no places, up to the first plain one. -/
def read (g : Grammar) (d : Draft) : List String → Except Aside (Draft × List String)
  | [] => .ok (d, [])
  | word :: rest =>
    let step : Step := match Word.ofText word with
      | .long name value => takeLong g d (.ofList name) value
      | .short letter value => takeShort g d letter value
      | _ => .ok (d, none)
    match Word.ofText word, step, rest with
    | .plain, _, rest =>
      if g.places.isEmpty then .ok (d, word :: rest)
      else match d.place g word with
        | .ok d => read g d rest
        | .error a => .error a
    | .escape, _, rest => (rest.foldlM (Draft.place g) d).map (·, [])
    | _, .error a, _ => .error a
    | _, .ok (d, none), rest => read g d rest
    | _, .ok (d, some s), value :: rest =>
      if Word.ofText value = .plain then
        match d.give s value with
        | .ok d => read g d rest
        | .error a => .error a
      else .error .refused
    | _, .ok (_, some _), [] => .error .refused

/-- The command of a name, from what was read for it. -/
def ofDraft? (name : String) (d : Draft) : Option Command :=
  match name, d.places with
  | "index", places => some (index (places.head?.getD ".") (d.isGiven "force"))
  | "watch", places => some (watch (places.head?.getD "."))
  | "search", query :: _ =>
    some (search query ((d.value? "path").getD ".") (((d.value? "limit").bind limit?).getD 10) (d.isGiven "context"))
  | "stats", places => some (stats (places.head?.getD "."))
  | _, _ => none

/-- Help on a command, or on all. -/
def helpOn : List String → Aside
  | [] => .help none
  | [topic] => if topic = "help" ∨ (grammar? topic).isSome then .help (some topic) else .refused
  | _ => .refused

end Command

open Command in
/-- What the words of a command line ask for. -/
def Invocation.ofWords (words : List String) : Except Aside Invocation := do
  match ← Command.read topGrammar {} words with
  | (_, []) => throw .refused
  | (top, name :: rest) =>
    if name = "help" then throw (helpOn rest)
    match grammar? name with
    | none => throw .refused
    | some g =>
      let (d, _) ← Command.read g {} rest
      match ofDraft? name d with
      | none => throw .refused
      | some command =>
        return { config := (d.value? "config").or (top.value? "config")
                 json := top.isGiven "json" || d.isGiven "json", command }

end CodeIndex
