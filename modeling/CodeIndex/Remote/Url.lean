import CodeIndex.Text.Blank

/-!
Absolute URLs, as far as is needed to tell whether a text is one and names a host that can be asked under a port.
-/

namespace CodeIndex.Url

/-- Schemes whose URLs always name a host, however many slashes stand before it. -/
def specialSchemes : List String := ["http", "https", "ws", "wss", "ftp"]

/-- A URL without what is dropped before reading: blanks and controls about it, tabs and line ends within. -/
def tidy (url : String) : List Char :=
  (Text.strip (· ≤ ' ') url.toList).filter fun c => c != '\t' && c != '\n' && c != '\r'

/-- The scheme in lower case, and what follows its colon. -/
def scheme? (cs : List Char) : Option (String × List Char) :=
  let isPart (c : Char) := c.isAlphanum || c == '+' || c == '-' || c == '.'
  let name := cs.takeWhile isPart
  match cs.dropWhile isPart with
  | ':' :: rest => if name.head?.any Char.isAlpha then some (.ofList (name.map Char.toLower), rest) else none
  | _ => none

def hex? (c : Char) : Option Nat :=
  if c.isDigit then some (c.toNat - '0'.toNat)
  else if 'a' ≤ c.toLower ∧ c.toLower ≤ 'f' then some (c.toLower.toNat - 'a'.toNat + 10)
  else none

/-- Spelled characters of ASCII put in the place of their spelling. -/
def decodePercent : List Char → List Char
  | '%' :: a :: b :: cs =>
    match hex? a, hex? b with
    | some x, some y => if x < 8 then .ofNat (x * 16 + y) :: decodePercent cs else '%' :: a :: b :: decodePercent cs
    | _, _ => '%' :: decodePercent (a :: b :: cs)
  | c :: cs => c :: decodePercent cs
  | [] => []

/-- Characters that no name of a host holds. -/
def isForbidden (c : Char) : Bool := c ≤ ' ' || "#/:<>?@[\\]^|".toList.contains c

/-- The number that a part of an address writes: decimal, or octal or hexadecimal after the usual marks. -/
def addressPart? (cs : List Char) : Option Nat :=
  let read (base : Nat) (ds : List Char) : Option Nat :=
    ds.foldl (fun n d => n.bind fun n => (hex? d).bind fun d => if d < base then some (n * base + d) else none) (some 0)
  match cs with
  | [] => none
  | '0' :: 'x' :: ds => read 16 ds
  | '0' :: 'X' :: ds => read 16 ds
  | '0' :: d :: ds => read 8 (d :: ds)
  | ds => read 10 ds

/-- An address of four parts; the last may stand for those left out. -/
def isAddress4 (parts : List (List Char)) : Bool :=
  parts.length ≤ 4 && match parts.mapM addressPart? with
    | none => false
    | some ns => ns.dropLast.all (· ≤ 255) && decide (ns.getLast?.getD 0 < Nat.pow 256 (5 - ns.length))

/-- A name of a host. One whose last label is a number has to be an address. -/
def isDomain (host : List Char) : Bool :=
  let host := decodePercent host
  let labels := host.splitOn '.'
  let labels := if labels.getLast? = some [] ∧ 1 < labels.length then labels.dropLast else labels
  let last := labels.getLast?.getD []
  let numeric := !last.isEmpty && (last.all Char.isDigit ||
    ((last.take 2 == ['0', 'x'] || last.take 2 == ['0', 'X']) && (addressPart? last).isSome))
  !host.isEmpty && !host.any (fun c => isForbidden c || c == '%' || c == '\x7f') && (!numeric || isAddress4 labels)

/-- Groups of an address in brackets, on one side of a pair of colons. -/
def groups? (cs : List Char) : Option Nat :=
  if cs.isEmpty then some 0
  else
    let parts := cs.splitOn ':'
    let isGroup (p : List Char) := !p.isEmpty && decide (p.length ≤ 4) && p.all fun c => (hex? c).isSome
    let isQuad (p : List Char) :=
      (p.splitOn '.').length == 4 && (p.splitOn '.').all fun d =>
        !d.isEmpty && d.all Char.isDigit && decide ((addressPart? d).any (· ≤ 255)) &&
          (d.length == 1 || d.head? != some '0')
    if parts.all isGroup then some parts.length
    else if parts.dropLast.all isGroup && isQuad (parts.getLast?.getD []) then some (parts.length + 1)
    else none

/-- The sides of the first pair of colons. -/
def splitPair (seen : List Char) : List Char → Option (List Char × List Char)
  | ':' :: ':' :: cs => some (seen.reverse, cs)
  | c :: cs => splitPair (c :: seen) cs
  | [] => none

/-- An address of eight groups, of which a pair of colons stands for those that are zero. -/
def isAddress6 (cs : List Char) : Bool :=
  match splitPair [] cs with
  | none => groups? cs == some 8
  | some (a, b) =>
    match groups? a, groups? b with
    | some m, some n => !a.contains '.' && decide (m + n ≤ 7)
    | _, _ => false

/-- A port of sixteen bits, or nothing at all. -/
def isPort (cs : List Char) : Bool :=
  cs.all Char.isDigit && decide (cs.foldl (fun n c => n * 10 + (c.toNat - '0'.toNat)) 0 < 65536)

/-- A host that is not empty, and perhaps a port. -/
def isHostPort (special : Bool) (cs : List Char) : Bool :=
  match cs with
  | '[' :: cs =>
    isAddress6 (cs.takeWhile (· ≠ ']')) && match cs.dropWhile (· ≠ ']') with
      | [']'] => true
      | ']' :: ':' :: port => isPort port
      | _ => false
  | cs =>
    let host := cs.takeWhile (· ≠ ':')
    let port := (cs.dropWhile (· ≠ ':')).drop 1
    isPort port && if special then isDomain host else !host.isEmpty && !host.any isForbidden

/-- What follows the name and password before a host, if there are any. -/
def dropUser (cs : List Char) : List Char := (cs.reverse.takeWhile (· ≠ '@')).reverse

/-- Whether a text is an absolute URL with a host, so that a port can be given to it. -/
def takesPort (url : String) : Bool :=
  match scheme? (tidy url) with
  | none => false
  | some (scheme, rest) =>
    if specialSchemes.contains scheme then
      let isSlash (c : Char) := c == '/' || c == '\\'
      isHostPort true (dropUser ((rest.dropWhile isSlash).takeWhile fun c => !isSlash c && c != '?' && c != '#'))
    else
      match rest with
      | '/' :: '/' :: rest =>
        scheme != "file" && isHostPort false (dropUser (rest.takeWhile fun c => c != '/' && c != '?' && c != '#'))
      | _ => false

end CodeIndex.Url
