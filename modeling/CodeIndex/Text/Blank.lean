/-!
White space: the twenty-five characters that Unicode calls so, trimming them at the ends of a text and
splitting a text at them.
-/

namespace CodeIndex.Text

/-- The white space of Unicode, which holds the no-break spaces but no zero-width ones. -/
def isBlank (c : Char) : Bool :=
  let n := c.toNat
  (9 ≤ n && n ≤ 13) || n == 0x20 || n == 0x85 || n == 0xa0 || n == 0x1680 || (0x2000 ≤ n && n ≤ 0x200a) ||
    n == 0x2028 || n == 0x2029 || n == 0x202f || n == 0x205f || n == 0x3000

/-- Drops what satisfies `p` at both ends. -/
def strip (p : α → Bool) (cs : List α) : List α :=
  ((cs.dropWhile p).reverse.dropWhile p).reverse

/-- Drops what satisfies `p` at the end. -/
def stripEnd (p : α → Bool) (cs : List α) : List α :=
  (cs.reverse.dropWhile p).reverse

theorem length_stripEnd_le (p : α → Bool) (cs : List α) : (stripEnd p cs).length ≤ cs.length := by
  simpa [stripEnd] using (List.dropWhile_sublist p (l := cs.reverse)).length_le

def trim (s : String) : String := .ofList (strip isBlank s.toList)

def trimEnd (s : String) : String := .ofList (stripEnd isBlank s.toList)

/-- A text is blank when it holds nothing but white space. -/
def isBlankText (s : String) : Bool := s.toList.all isBlank

/-- The stretches of characters that fail `p`, in order; empty stretches are left out. -/
def fields (p : Char → Bool) (cs : List Char) : List (List Char) :=
  (cs.splitOnP p).filter (!·.isEmpty)

/-- The words of a text between its white space. -/
def words (s : String) : List String := (fields isBlank s.toList).map .ofList

end CodeIndex.Text
