import TreeScript.Value.Text
import TreeScript.Text.Blank
import TreeScript.Text.Pieces

/-!
# Tables as comma-separated text

A table is a header line of field names separated by commas and one line of cells per row in the
same order.  There is no quoting, so a cell with a comma or a line feed cannot be represented.

**Reading** (`parse`).  A byte-order mark at the front is dropped, and so are blank lines before
the header.  After it a blank line is a row with one empty cell if the table has one column, and is
skipped if it has more, since a row of several cells always has a comma.  A row shorter than the
header gets empty cells; cells beyond the header are dropped.

**Writing** (`render`).  Absence is written as an empty cell and every other value as its text.
-/

namespace TreeScript.Table

/-! ## 1. Reading -/

/-- The fields with their cells; a missing cell is empty. -/
def pairCells : List (List Char) → List (List Char) → List (String × Value)
  | [], _ => []
  | field :: fields, [] => (String.ofList field, .text "") :: pairCells fields []
  | field :: fields, cell :: cells =>
    (String.ofList field, .text (String.ofList cell)) :: pairCells fields cells

/-- The row of one line under a header. -/
def row (fields : List (List Char)) (line : List Char) : List (String × Value) :=
  Entries.ofPairs (pairCells fields (Text.splitOn ',' line))

/-- The rows of the lines after a header. -/
def rows (fields : List (List Char)) (body : List (List Char)) : List (List (String × Value)) :=
  (body.filter fun line => fields.length == 1 || !Text.isBlankText line).map (row fields)

/-- The rows of a text. -/
def parseChars (cs : List Char) : List (List (String × Value)) :=
  match (Text.lines (Text.dropMark cs)).dropWhile Text.isBlankText with
  | [] => []
  | header :: body => rows (Text.splitOn ',' header) body

/-- **The rows of a table**, one mapping from field names to texts per row. -/
def parse (s : String) : List (List (String × Value)) := parseChars s.toList

/-! ## 2. Writing -/

/-- The text of a cell. -/
def cellText : Value → List Char
  | .absence => []
  | v => v.chars

/-- The cell of a row under a field; it is empty if the row lacks the field. -/
def cell (entries : List (String × Value)) (field : String) : List Char :=
  match Entries.get? entries field with
  | some v => cellText v
  | none => []

/-- The line of a row. -/
def renderRow (fields : List String) (entries : List (String × Value)) : List Char :=
  Text.join ',' (fields.map (cell entries)) ++ ['\n']

/-- The text of a table, as characters. -/
def renderChars (fields : List String) (rows : List (List (String × Value))) : List Char :=
  Text.join ',' (fields.map String.toList) ++ '\n' :: rows.flatMap (renderRow fields)

/-- **The text of a table.** -/
def render (fields : List String) (rows : List (List (String × Value))) : String :=
  String.ofList (renderChars fields rows)

/-- Whether a cell's text has a comma or a line feed. -/
def isUnfaithful (v : Value) : Bool :=
  let cs := cellText v
  cs.contains ',' || cs.contains '\n'

/-- How many values in the rows would not be read back as they are written. -/
def countUnfaithful (rows : List (List (String × Value))) : Nat :=
  (rows.flatMap fun entries => entries.filter fun entry => isUnfaithful entry.2).length

end TreeScript.Table
