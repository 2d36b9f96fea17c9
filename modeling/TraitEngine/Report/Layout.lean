import TraitEngine.Report.Snippet
import TraitEngine.Source
/-!
# Reports

The text of a diagnostic: its heading, for each file the lines that its labels
touch, and its notes. Of a label over many lines only the first few and the last
two are shown; lines left out are marked by a dot, except that a single one is
shown after all.
-/

namespace TraitEngine.Report

set_option autoImplicit false

/-- A label in a registered file. -/
structure FileLabel where
  style : LabelStyle
  message : String
  file : FileId
  start : Nat
  stop : Nat

/-- The labels that point into registered files. -/
def fileLabels (files : SourceFiles) (d : Diagnostic) : List FileLabel :=
  d.labels.filterMap fun l => do
    let span ← l.span
    let _ ← files.file? span.file
    return ⟨l.style, l.message, span.file, span.start, span.stop⟩

/-- How many lines of a label are shown after its first line and before its last. -/
def linesAfterStart : Nat := 3
def linesBeforeStop : Nat := 1

/-- A label with the lines that it starts and stops on. -/
structure PlacedLabel where
  label : FileLabel
  first : Nat
  last : Nat

/-- Labels by their range; one goes before the last of those with its own range. -/
def insertMark (m : Mark) (marks : List Mark) : List Mark :=
  let range (n : Mark) : Nat × Nat := (n.start, n.stop)
  let before := marks.filter fun n =>
    n.start < m.start || (n.start == m.start && n.stop ≤ m.stop)
  let after := marks.drop before.length
  match before.getLast? with
  | some n =>
    if range n == range m then before.dropLast ++ m :: n :: after else before ++ m :: after
  | none => m :: after

/-- The excerpt of one file. -/
structure Excerpt where
  file : SourceFile
  lines : Array SourceLine
  within : List PlacedLabel
  /-- The labels over several lines, in the order of their gutter columns. -/
  across : List PlacedLabel
  focus : Location

def lineStart (lines : Array SourceLine) (i : Nat) : Nat :=
  (lines[i]?.map SourceLine.start).getD 0

/-- A primary label takes precedence over a secondary one, then the earlier one. -/
def leads (a b : FileLabel) : Bool :=
  if a.style == b.style then a.start < b.start else a.style == .primary

def focusLabel (first : FileLabel) (rest : List FileLabel) : FileLabel :=
  rest.foldl (fun best l => if leads l best then l else best) first

def excerpt (file : SourceFile) (first : FileLabel) (rest : List FileLabel) : Excerpt :=
  let lines := file.lines
  let placed := (first :: rest).map fun l =>
    ⟨l, lineIndex lines l.start, lineIndex lines l.stop⟩
  { file, lines
    within := placed.filter fun p => p.first == p.last
    across := placed.filter fun p => p.first != p.last
    focus := locate lines (focusLabel first rest).start }

namespace Excerpt

def marks (e : Excerpt) (i : Nat) : List Mark :=
  let origin := lineStart e.lines i
  (e.within.filter fun p => p.first == i).foldl (fun marks p =>
    let start := p.label.start - origin
    insertMark ⟨p.label.style, start, max (p.label.stop - origin) (start + 1), p.label.message⟩
      marks) []

def strands (e : Excerpt) (i : Nat) : List Strand :=
  let origin := lineStart e.lines i
  e.across.zipIdx.filterMap fun (p, column) =>
    if p.first == i then some ⟨column, p.label.style, .top (p.label.start - origin)⟩
    else if p.last == i then
      some ⟨column, p.label.style, .bottom (p.label.stop - origin) p.label.message⟩
    else if p.first < i && i < p.last then some ⟨column, p.label.style, .inside⟩
    else none

/-- Whether a line has to be shown for a label over several lines. -/
def showsAcross (i : Nat) (p : PlacedLabel) : Bool :=
  p.first ≤ i && i ≤ p.last && (i - p.first ≤ linesAfterStart || p.last - i ≤ linesBeforeStop)

def shown (e : Excerpt) : List Nat :=
  (List.range e.lines.size).filter fun i =>
    (e.within.any fun p => p.first == i) || e.across.any (showsAcross i)

def annotated (e : Excerpt) (i : Nat) : AnnotatedLine where
  number := i + 1
  source := trimmed ((e.lines[i]?.map SourceLine.chars).getD [])
  marks := e.marks i
  strands := e.strands i

/-- The rows of lines in ascending order, and of what lies between them. -/
def rows (e : Excerpt) (f : Frame) : List Nat → List String
  | [] => []
  | [i] => lineRows f (e.annotated i)
  | i :: j :: rest =>
    let between :=
      if j == i + 1 then []
      else if j == i + 2 then lineRows f (e.annotated (i + 1))
      else [breakRow f (e.strands i)]
    lineRows f (e.annotated i) ++ between ++ rows e f (j :: rest)

def place (e : Excerpt) : String :=
  e.file.name ++ ":" ++ toString e.focus.line ++ ":" ++ toString e.focus.column

end Excerpt

/-- The labels file by file, in the order in which the files first come. -/
def excerpts (files : SourceFiles) (labels : List FileLabel) : List Excerpt :=
  (labels.map FileLabel.file).eraseDups.filterMap fun id =>
    match files.file? id, labels.filter (·.file == id) with
    | some file, first :: rest => some (excerpt file first rest)
    | _, _ => none

def numberWidth (es : List Excerpt) : Nat :=
  let width (p : PlacedLabel) : Nat := (toString (p.last + 1)).length
  ((es.flatMap fun e => (e.within ++ e.across).map width).foldl max 0)

/-- The rows of the excerpts. One that something follows ends with an empty row. -/
def excerptRows (width : Nat) (hasNotes : Bool) : List Excerpt → List String
  | [] => []
  | e :: rest =>
    let f : Frame := ⟨width, e.across.length⟩
    let tail := if rest.isEmpty && !hasNotes then [] else [f.empty]
    f.start e.place :: f.empty :: e.rows f e.shown ++ tail ++ excerptRows width hasNotes rest

/-- The lines of a note; a line break at its end starts no new line. -/
def noteLines (note : String) : List (List Char) :=
  let lines := (linesFrom 0 note.toList).map SourceLine.chars
  let lines := if lines.getLast? == some [] then lines.dropLast else lines
  lines.map fun cs =>
    match cs.reverse with
    | '\n' :: '\r' :: rest => rest.reverse
    | '\n' :: rest => rest.reverse
    | _ => cs

def noteRows (width : Nat) (note : String) : List String :=
  (noteLines note).mapIdx fun i cs =>
    repeated (width + 1) ' ' ++ (if i = 0 then "=" else " ") ++ " " ++ String.ofList cs

def heading (d : Diagnostic) : String :=
  d.severity.text ++ "[" ++ d.code.text ++ "]: " ++ d.message

def diagnosticRows (files : SourceFiles) (d : Diagnostic) : List String :=
  let es := excerpts files (fileLabels files d)
  let width := numberWidth es
  heading d :: excerptRows width (!d.notes.isEmpty) es ++ d.notes.flatMap (noteRows width) ++ [""]

/-- The report of several diagnostics, one after the other. -/
def text (files : SourceFiles) (ds : List Diagnostic) : String :=
  String.join ((ds.flatMap (diagnosticRows files)).map (· ++ "\n"))

end TraitEngine.Report
