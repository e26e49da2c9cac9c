import CodeIndex.Toml.Quoted

/-!
The grammar of TOML: a text is a list of sections, each with a header, save for the first, and with entries. What the
entries amount to is left to `Toml.Table`, but tables in braces are put together here.
-/

namespace CodeIndex.Toml

abbrev Key := List String

/-- Drops blanks within a line. -/
def dropBlanks (cs : List Char) : List Char := cs.dropWhile fun c => c == ' ' || c == '\t'

/-- Drops blanks, ends of lines and comments. -/
def gap? (comment : Bool) : List Char → Option (List Char)
  | [] => some []
  | '\n' :: cs => gap? false cs
  | '\r' :: '\n' :: cs => gap? false cs
  | c :: cs =>
    if comment then if isPlain c then gap? true cs else none
    else if c = ' ' ∨ c = '\t' then gap? false cs
    else if c = '#' then gap? true cs
    else some (c :: cs)

/-- What follows the end of a line, with blanks and a comment before it. -/
def lineEnd? (comment : Bool) : List Char → Option (List Char)
  | [] => some []
  | '\n' :: cs => some cs
  | '\r' :: '\n' :: cs => some cs
  | c :: cs =>
    if comment then if isPlain c then lineEnd? true cs else none
    else if c = ' ' ∨ c = '\t' then lineEnd? false cs
    else if c = '#' then lineEnd? true cs
    else none

def isBare (c : Char) : Bool := c.isAlphanum || c == '_' || c == '-'

/-- One part of a key. -/
def keyPart? (cs : List Char) : Rest String :=
  match cs with
  | '"' :: cs => basicFrom [] 0 cs
  | '\'' :: cs => literalFrom [] cs
  | cs =>
    let name := cs.takeWhile isBare
    if name.isEmpty then none else some (.ofList name, cs.dropWhile isBare)

/-- A key, with dots between its parts, and blanks about it dropped. -/
def key? (fuel : Nat) (cs : List Char) : Rest Key :=
  match fuel with
  | 0 => none
  | fuel + 1 =>
    match keyPart? (dropBlanks cs) with
    | none => none
    | some (part, cs) =>
      match dropBlanks cs with
      | '.' :: cs => (key? fuel cs).map fun (parts, cs) => (part :: parts, cs)
      | cs => some ([part], cs)

/-- A scalar ends before a blank, a comma, a closing bracket or brace, or a comment. -/
def endsToken (c : Char) : Bool :=
  c == ' ' || c == '\t' || c == '\n' || c == '\r' || c == ',' || c == ']' || c == '\x7d' || c == '#'

/-- A token; one blank may stand between a date and its time. -/
def token (cs : List Char) : List Char × List Char :=
  let first := cs.takeWhile (!endsToken ·)
  let rest := cs.dropWhile (!endsToken ·)
  match rest with
  | ' ' :: more =>
    if date? first == some [] ∧ (more.head?.any Char.isDigit) then
      (first ++ ' ' :: more.takeWhile (!endsToken ·), more.dropWhile (!endsToken ·))
    else (first, rest)
  | _ => (first, rest)

/-- The table at the end of a path, as it is now and to be changed by `f`. Tables that are missing come about on the
way. A table in braces takes nothing more, and a dotted key does not enter a table with a header of its own. -/
def descend (dotted : Bool) (f : Origin → Members → Option Members) (origin : Origin) (members : Members) :
    Key → Option Members
  | [] => f origin members
  | k :: path =>
    let change (o : Origin) (ms : Members) := (descend dotted f o ms path).map fun ms => table o ms
    match lookup k members with
    | none => (change (if dotted then .dotted else .implied) []).map (put k · members)
    | some (table o ms) =>
      if o = .inline ∨ (dotted ∧ o = .header) then none else (change o ms).map (put k · members)
    | some (array true items) =>
      match items.getLast? with
      | some (table o ms) => (change o ms).map fun t => put k (array true (items.dropLast ++ [t])) members
      | _ => none
    | some _ => none

/-- Adds an entry. A key with dots adds to tables that dotted keys made, and only such a key does. -/
def addEntry (members : Members) (key : Key) (v : Toml) : Option Members :=
  let path := key.dropLast
  descend (!path.isEmpty) (fun o ms =>
    match key.getLast? with
    | none => none
    | some name =>
      if (o == .dotted) == path.isEmpty ∨ (lookup name ms).isSome then none else some (ms ++ [(name, v)]))
    .header members path

/-- Levels of brackets and braces that a text may nest. -/
def maxDepth : Nat := 80

mutual

/-- One value. -/
def value? (fuel depth : Nat) (cs : List Char) : Rest Toml :=
  match fuel with
  | 0 => none
  | fuel + 1 =>
    match cs with
    | '"' :: '"' :: '"' :: cs => (blockFrom [] 0 (dropLineEnd cs)).map fun (s, cs) => (.str s, cs)
    | '"' :: cs => (basicFrom [] 0 cs).map fun (s, cs) => (.str s, cs)
    | '\'' :: '\'' :: '\'' :: cs => (rawFrom [] (dropLineEnd cs)).map fun (s, cs) => (.str s, cs)
    | '\'' :: cs => (literalFrom [] cs).map fun (s, cs) => (.str s, cs)
    | '[' :: cs =>
      match depth with
      | 0 => none
      | depth + 1 => items? fuel depth [] cs
    | '\x7b' :: cs =>
      match depth with
      | 0 => none
      | depth + 1 => members? fuel depth [] cs
    | cs =>
      let (t, cs) := token cs
      (ofToken? t).map (·, cs)

/-- The items of an array from here on; those read stand backwards in `out`. -/
def items? (fuel depth : Nat) (out : List Toml) (cs : List Char) : Rest Toml :=
  match fuel with
  | 0 => none
  | fuel + 1 =>
    match gap? false cs with
    | none => none
    | some (']' :: cs) => some (.array false out.reverse, cs)
    | some cs =>
      match value? fuel depth cs with
      | none => none
      | some (v, cs) =>
        match gap? false cs with
        | some (',' :: cs) => items? fuel depth (v :: out) cs
        | some (']' :: cs) => some (.array false (v :: out).reverse, cs)
        | _ => none

/-- The members of a table in braces from here on. -/
def members? (fuel depth : Nat) (out : Members) (cs : List Char) : Rest Toml :=
  match fuel with
  | 0 => none
  | fuel + 1 =>
    match gap? false cs with
    | none => none
    | some ('\x7d' :: cs) => some (.table .inline out, cs)
    | some cs =>
      match key? (cs.length + 1) cs with
      | some (key, '=' :: cs) =>
        match value? fuel depth (dropBlanks cs) with
        | none => none
        | some (v, cs) =>
          match addEntry out key v with
          | none => none
          | some out =>
            match gap? false cs with
            | some (',' :: cs) => members? fuel depth out cs
            | some ('\x7d' :: cs) => some (.table .inline out, cs)
            | _ => none
      | _ => none

end

inductive Header where
  | table (key : Key)
  /-- One more table of an array. -/
  | item (key : Key)

structure Section where
  header : Option Header
  entries : List (Key × Toml)

/-- A header, after its first bracket, up to the end of its line. -/
def header? (cs : List Char) : Rest Header :=
  match cs with
  | '[' :: cs =>
    match key? (cs.length + 1) cs with
    | some (key, ']' :: ']' :: cs) => (lineEnd? false cs).map (.item key, ·)
    | _ => none
  | cs =>
    match key? (cs.length + 1) cs with
    | some (key, ']' :: cs) => (lineEnd? false cs).map (.table key, ·)
    | _ => none

/-- One entry up to the end of its line. -/
def entry? (cs : List Char) : Rest (Key × Toml) :=
  match key? (cs.length + 1) cs with
  | some (key, '=' :: cs) =>
    match value? (2 * cs.length + 2) maxDepth (dropBlanks cs) with
    | some (v, cs) => (lineEnd? false cs).map ((key, v), ·)
    | none => none
  | _ => none

/-- The sections from here on; `current` is the one being read, its entries backwards. -/
def sections? (fuel : Nat) (current : Section) (cs : List Char) : Option (List Section) :=
  let closed : Section := { current with entries := current.entries.reverse }
  match fuel with
  | 0 => none
  | fuel + 1 =>
    match gap? false cs with
    | none => none
    | some [] => some [closed]
    | some ('[' :: cs) =>
      match header? cs with
      | none => none
      | some (h, cs) => (sections? fuel ⟨some h, []⟩ cs).map (closed :: ·)
    | some cs =>
      match entry? cs with
      | none => none
      | some (e, cs) => sections? fuel { current with entries := e :: current.entries } cs

end CodeIndex.Toml
