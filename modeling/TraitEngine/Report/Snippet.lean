import TraitEngine.Diagnostic
import TraitEngine.Text.CharClass
import TraitEngine.Text.Width
/-!
# Annotated source lines

One line of source as a report shows it: a gutter with its number, a column for
each label that spans several lines, the text, and below it the carets and
messages of the labels. Labels within the line hang their messages under the
carets, except that the last one may stand beside them.
-/

namespace TraitEngine.Report

set_option autoImplicit false

/-- A label within one line; offsets are from the start of the line. -/
structure Mark where
  style : LabelStyle
  start : Nat
  stop : Nat
  message : String

/-- What a label over several lines shows on one of them. -/
inductive Edge where
  | top (start : Nat)
  | inside
  | bottom (stop : Nat) (message : String)

/-- The part on one line of a label over several lines; `column` is its place in
the gutter. -/
structure Strand where
  column : Nat
  style : LabelStyle
  edge : Edge

/-- A line with all that is shown on it. -/
structure AnnotatedLine where
  number : Nat
  source : List Char
  marks : List Mark
  strands : List Strand

/-- How wide the line numbers are, and how many gutter columns there are. -/
structure Frame where
  numberWidth : Nat
  columns : Nat

def tabWidth : Nat := 4

/-- A character with its offset and the columns it takes. -/
structure Cell where
  offset : Nat
  char : Char
  width : Nat

namespace Cell

def stop (c : Cell) : Nat := c.offset + c.char.utf8Size

end Cell

/-- The cells of a line from an offset and a display column on. A tab reaches to
the next tab stop. -/
def cellsFrom (offset column : Nat) : List Char → List Cell
  | [] => []
  | c :: cs =>
    let width := if c == '\t' then tabWidth - column % tabWidth else columnWidth c
    ⟨offset, c, width⟩ :: cellsFrom (offset + c.utf8Size) (column + width) cs

def cells (source : List Char) : List Cell := cellsFrom 0 0 source

def byteLength (source : List Char) : Nat := (String.ofList source).utf8ByteSize

def repeated (n : Nat) (c : Char) : String := String.ofList (List.replicate n c)

def isLineEnd (c : Char) : Bool := c == '\n' || c == '\r' || c == '\x00'

/-- The text of a line without what ends it. -/
def trimmed (source : List Char) : List Char :=
  (source.reverse.dropWhile isLineEnd).reverse

namespace Frame

def gutter (f : Frame) : String := repeated (f.numberWidth + 1) ' '

def numbered (f : Frame) (n : Nat) : String :=
  let digits := toString n
  repeated (f.numberWidth - digits.length) ' ' ++ digits ++ " "

/-- The row that names the place. -/
def start (f : Frame) (place : String) : String := f.gutter ++ "┌─ " ++ place

def empty (f : Frame) : String := f.gutter ++ "│" ++ repeated (2 * f.columns) ' '

end Frame

def strandAt (strands : List Strand) (column : Nat) : Option Strand :=
  strands.find? fun s => s.column == column

/-- Gutter columns, two characters each. -/
def gutterColumns (f : Frame) (column : Nat → String) : String :=
  String.join ((List.range f.columns).map column)

/-- The gutter columns of a row between the lines of a label. -/
def strandColumns (f : Frame) (strands : List Strand) : String :=
  gutterColumns f fun column =>
    match strandAt strands column with
    | some ⟨_, _, .inside⟩ | some ⟨_, _, .bottom ..⟩ => " │"
    | _ => "  "

def indentation (source : List Char) : Nat := byteLength (source.takeWhile isBlank)

/-- A label that starts within the indentation is opened beside the text. -/
def opensBeside (source : List Char) (start : Nat) : Bool := start ≤ indentation source

def sourceRow (f : Frame) (line : AnnotatedLine) : String :=
  let columns := gutterColumns f fun column =>
    match strandAt line.strands column with
    | some ⟨_, _, .top start⟩ => if opensBeside line.source start then " ╭" else "  "
    | some _ => " │"
    | none => "  "
  let text := (cells line.source).map fun c =>
    if c.char == '\t' then repeated c.width ' ' else c.char.toString
  f.numbered line.number ++ "│" ++ columns ++ " " ++ String.join text

def overlaps (start stop start' stop' : Nat) : Bool := max start start' < min stop stop'

def Mark.covers (m : Mark) (c : Cell) : Bool := overlaps m.start m.stop c.offset c.stop

def caretChar (marks : List Mark) (c : Cell) : Option Char :=
  let covering := marks.filter fun m => m.covers c
  if covering.any fun m => m.style == .primary then some '^'
  else if covering.isEmpty then none
  else some '-'

/-- The label whose message stands beside the carets: the last of those that
reach furthest, if its message is not empty and no other label overlaps it. -/
def besideIndex? (marks : List Mark) : Option Nat :=
  let furthest := marks.foldl (fun n m => max n m.stop) 0
  match (marks.zipIdx.filter fun (m, _) => m.stop == furthest).getLast? with
  | none => none
  | some (m, i) =>
    let overlapped := marks.zipIdx.any fun (n, j) =>
      j != i && overlaps m.start m.stop n.start n.stop
    if m.message.isEmpty || overlapped then none else some i

/-- The labels whose messages hang below the carets. -/
def hanging (marks : List Mark) (beside : Option Nat) : List Mark :=
  (marks.zipIdx.filter fun (m, i) => !m.message.isEmpty && beside != some i).map Prod.fst

def caretRow (marks : List Mark) (source : List Char) : String :=
  let furthest := (marks.map Mark.stop).foldl max 0
  let sentinel : Cell := ⟨byteLength source, '\x00', 1⟩
  String.join ((cells source ++ [sentinel]).map fun c =>
    match caretChar marks c with
    | some caret => repeated c.width caret
    | none => if c.offset < furthest then repeated c.width ' ' else "")

/-- Vertical lines under the starts of hanging labels, over the given cells. -/
def pointers (hanging : List Mark) (lastStart : Nat) (cs : List Cell) : String :=
  String.join (cs.map fun c =>
    let pad (n : Nat) : String := if c.offset ≤ lastStart then repeated n ' ' else ""
    if hanging.any fun m => c.offset ≤ m.start && m.start < c.stop then "│" ++ pad (c.width - 1)
    else pad c.width)

/-- The rows below the text for the labels within the line. -/
def markRows (f : Frame) (line : AnnotatedLine) : List String :=
  if line.marks.isEmpty then []
  else
    let lead := f.gutter ++ "│" ++ strandColumns f line.strands ++ " "
    let beside := besideIndex? line.marks
    let message := ((beside.bind fun i => line.marks[i]?).map fun m => " " ++ m.message).getD ""
    let lastStart := (line.marks.map Mark.start).foldl max 0
    let cs := cells line.source
    let below := hanging line.marks beside
    let hangingRows :=
      if below.isEmpty then []
      else
        pointers below lastStart cs ::
          below.reverse.map fun m =>
            pointers below lastStart (cs.takeWhile fun c => c.offset < m.start) ++ m.message
    ((caretRow line.marks line.source ++ message) :: hangingRows).map (lead ++ ·)

/-- The gutter columns of the row that draws the end of the strand at `own`. From
that column on a horizontal line is drawn. -/
def endColumns (f : Frame) (strands : List Strand) (own : Strand) : String :=
  gutterColumns f fun column =>
    let drawn := own.column < column
    let beam := (if drawn then "─" else " ") ++ "│"
    let blank := if drawn then "──" else "  "
    match strandAt strands column with
    | none => blank
    | some s =>
      match s.edge with
      | .inside => beam
      | .top _ =>
        if s.column == own.column then " ╭" else if s.column < own.column then beam else blank
      | .bottom .. =>
        if s.column == own.column then " ╰" else if own.column < s.column then beam else blank

def endCaret : LabelStyle → String
  | .primary => "^"
  | .secondary => "'"

/-- A horizontal line over the cells that start before an offset. -/
def beamTo (source : List Char) (offset : Nat) : String :=
  String.join (((cells source).takeWhile fun c => c.offset < offset).map fun c =>
    repeated c.width '─')

/-- The row that draws where a label over several lines starts or stops. -/
def endRow? (f : Frame) (line : AnnotatedLine) (s : Strand) : Option String :=
  let lead := f.gutter ++ "│" ++ endColumns f line.strands s
  match s.edge with
  | .inside => none
  | .top start =>
    if opensBeside line.source start then none
    else some (lead ++ beamTo line.source (start + 1) ++ endCaret s.style)
  | .bottom stop message =>
    let message := if message.isEmpty then "" else " " ++ message
    some (lead ++ beamTo line.source stop ++ endCaret s.style ++ message)

def lineRows (f : Frame) (line : AnnotatedLine) : List String :=
  sourceRow f line :: markRows f line ++ line.strands.filterMap (endRow? f line)

/-- The row in place of lines that are left out after a line. -/
def breakRow (f : Frame) (strands : List Strand) : String :=
  f.gutter ++ "·" ++ strandColumns f strands

end TraitEngine.Report
