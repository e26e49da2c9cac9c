/-!
Lines of a text. A line ends at a line feed, or at the pair of carriage return and line feed; the last line
needs no end, and a line feed at the very end of the text opens no further line.
-/

namespace CodeIndex.Text

/-- Cuts at every line feed; the last piece is what follows the last line feed, perhaps nothing. -/
def cutLines (cs : List Char) : List (List Char) :=
  cs.foldr (fun c pieces =>
    if c = '\n' then [] :: pieces
    else match pieces with
      | [] => [[c]]
      | p :: ps => (c :: p) :: ps) [[]]

/-- Takes the carriage return off a line that ended in a line feed. -/
def dropReturn (line : List Char) : List Char :=
  if line.getLast? = some '\r' then line.dropLast else line

/-- The pieces before the last, each ended by a line feed, and the last if there is anything in it. -/
def closeLines (pieces : List (List Char)) : List (List Char) :=
  let ended := pieces.dropLast.map dropReturn
  match pieces.getLast? with
  | none | some [] => ended
  | some last => ended ++ [last]

def lines (s : String) : List String := (closeLines (cutLines s.toList)).map .ofList

/-- Lines put back together, with a line feed between neighbours and none at the end. -/
def joinLines (ls : List String) : String := "\n".intercalate ls

@[simp] theorem cutLines_nil : cutLines [] = [[]] := rfl

theorem cutLines_newline (cs : List Char) : cutLines ('\n' :: cs) = [] :: cutLines cs := by
  simp [cutLines]

theorem cutLines_ne_nil (cs : List Char) : cutLines cs ≠ [] := by
  induction cs with
  | nil => simp
  | cons c cs ih =>
    simp only [cutLines, List.foldr_cons] at ih ⊢
    split
    · simp
    · split <;> simp

end CodeIndex.Text
