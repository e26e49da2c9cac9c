import CodeIndex.Glob.Basic

/-!
Reading globs. Stars that do not stand for whole components, at the ends or between slashes, are plain stars. A
bracket that is never closed stands for itself, as do all brackets that open after it.
-/

namespace CodeIndex.Glob

inductive GlobError where
  /-- A backslash with nothing after it. -/
  | danglingEscape
  | unclosedBrace
  | unopenedBrace
  /-- A range whose end comes before its start. -/
  | invalidRange (first last : Char)
  deriving DecidableEq, Repr

/-- A group of braces that is still open: what came before it, and the branches that are complete. -/
structure Group where
  outer : List Token
  branches : List (List Token)

/-- What was read so far; lists have the latest in front. -/
structure Draft where
  tokens : List Token := []
  groups : List Group := []
  /-- The character read last. -/
  last : Option Char := none
  /-- A bracket was found that is never closed. -/
  unclosed : Bool := false

namespace Draft

def push (d : Draft) (t : Token) (last : Char) : Draft := { d with tokens := t :: d.tokens, last := some last }

def openGroup (d : Draft) : Draft :=
  { d with tokens := [], groups := ⟨d.tokens, []⟩ :: d.groups, last := some '\x7b' }

/-- A comma ends a branch within braces, and is a literal elsewhere. -/
def comma (d : Draft) : Draft :=
  match d.groups with
  | [] => d.push (.literal ',') ','
  | g :: gs => { d with tokens := [], groups := ⟨g.outer, d.tokens.reverse :: g.branches⟩ :: gs, last := some ',' }

/-- Whether tokens stand for the empty text alone. -/
def isVoid (tokens : List Token) : Bool :=
  tokens.all fun
    | .oneOf [] => true
    | _ => false

/-- Ends a group. Empty branches do not count. -/
def closeGroup (d : Draft) : Except GlobError Draft :=
  match d.groups with
  | [] => .error .unopenedBrace
  | g :: gs =>
    let branches := (d.tokens.reverse :: g.branches).reverse
    .ok { d with
      tokens := .oneOf (branches.filter (!isVoid ·)) :: g.outer, groups := gs, last := some '\x7d' }

/-- Two stars that stand for themselves. -/
def plainStars (d : Draft) : Draft := (d.push .star '*').push .star '*'

/-- Two stars after a slash, or after what counts as one, take the place of the token before them. -/
def components (d : Draft) (kind : Token) (last : Char) : Draft :=
  match d.tokens with
  | .leading :: _ => { d with last := some last }
  | .trailing :: _ => { d with last := some last }
  | _ :: ts => { d with tokens := kind :: ts, last := some last }
  | [] => { d with tokens := [kind], last := some last }

/-- A star; `rest` is what follows it. Also tells how many further characters are used up. -/
def star (d : Draft) (rest : List Char) : Draft × Nat :=
  match rest with
  | '*' :: rest =>
    if d.tokens.isEmpty then
      match rest with
      | [] => (d.push .leading '*', 1)
      | '/' :: _ => (d.push .leading '/', 2)
      | _ => (d.plainStars, 1)
    else if decide (d.last = some '/') || (!d.groups.isEmpty && (d.last == some ',' || d.last == some '\x7b')) then
      match rest with
      | [] => (d.components .trailing '*', 1)
      | '/' :: _ => (d.components .between '/', 2)
      | c :: _ =>
        if !d.groups.isEmpty && (c == ',' || c == '\x7d') then (d.components .trailing '*', 1)
        else (d.plainStars, 1)
    else (d.plainStars, 1)
  | _ => (d.push .star '*', 0)

end Draft

/-- Reads the members of a bracket up to where it is closed, if it is; `ranges` are those read so far, the latest
in front, and `used` counts characters. After a hyphen a range is pending. -/
def bracketFrom (ranges : List (Char × Char)) (pending : Bool) (used : Nat) :
    List Char → Except GlobError (Option (List (Char × Char) × Nat))
  | [] => .ok none
  | c :: rest =>
    if c = ']' ∧ ranges ≠ [] then
      .ok (some ((if pending then ('-', '-') :: ranges else ranges).reverse, used + 1))
    else
      match pending, ranges with
      | true, (a, _) :: ranges =>
        if c < a then .error (.invalidRange a c) else bracketFrom ((a, c) :: ranges) false (used + 1) rest
      | _, _ =>
        if c = '-' ∧ ranges ≠ [] then bracketFrom ranges true (used + 1) rest
        else bracketFrom ((c, c) :: ranges) false (used + 1) rest

/-- A bracket, given what follows its opening, and how many characters it uses up; nothing if it is never closed. -/
def bracket? (rest : List Char) : Except GlobError (Option (Token × Nat)) := do
  let (negated, skip) := match rest with
    | '!' :: _ | '^' :: _ => (true, 1)
    | _ => (false, 0)
  let r ← bracketFrom [] false skip (rest.drop skip)
  return r.map fun (ranges, used) => (.set negated ranges, used)

def parseFrom (d : Draft) (text : List Char) : Except GlobError (List Token) :=
  match text with
  | [] => if d.groups.isEmpty then .ok d.tokens.reverse else .error .unclosedBrace
  | '?' :: rest => parseFrom (d.push .any '?') rest
  | '*' :: rest =>
    let (d, used) := d.star rest
    parseFrom d (rest.drop used)
  | '[' :: rest =>
    if d.unclosed then parseFrom (d.push (.literal '[') '[') rest
    else
      match bracket? rest with
      | .error e => .error e
      | .ok none => parseFrom { d.push (.literal '[') '[' with unclosed := true } rest
      | .ok (some (t, used)) => parseFrom (d.push t ']') (rest.drop used)
  | '\x7b' :: rest => parseFrom d.openGroup rest
  | '\x7d' :: rest =>
    match d.closeGroup with
    | .error e => .error e
    | .ok d => parseFrom d rest
  | ',' :: rest => parseFrom d.comma rest
  | '\\' :: rest =>
    match rest with
    | [] => .error .danglingEscape
    | c :: rest => parseFrom (d.push (.literal c) c) rest
  | c :: rest => parseFrom (d.push (.literal c) c) rest
termination_by text.length
decreasing_by all_goals simp +arith [List.length_drop]

def parse (text : String) : Except GlobError (List Token) := parseFrom {} text.toList

end CodeIndex.Glob
