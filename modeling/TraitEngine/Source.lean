import TraitEngine.Index
/-!
# Sources

The registered source files with their lines, and spans into them. A span is a
range of bytes in one file. Spans are ordered by file, then by start, then by end;
the least one is the empty span at the start of the first file, which synthesized
nodes carry. Positions are byte offsets into the UTF-8 form of a text; a position
past the end belongs to the last line.
-/

namespace TraitEngine

set_option autoImplicit false

structure Span where
  file : FileId
  start : Nat
  stop : Nat
  start_le_stop : start ≤ stop := by omega
  deriving DecidableEq, Repr

namespace Span

/-- The empty span at the start of a file. -/
def detached (file : FileId) : Span := ⟨file, 0, 0, Nat.le_refl 0⟩

instance : Inhabited Span := ⟨detached ⟨0⟩⟩

/-- Offsets that run backwards delimit nothing. -/
def ofOffsets? (file : FileId) (start stop : Nat) : Option Span :=
  if h : start ≤ stop then some ⟨file, start, stop, h⟩ else none

/-- The smallest span that covers both; the file of the first one wins. -/
def cover (a b : Span) : Span where
  file := a.file
  start := min a.start b.start
  stop := max a.stop b.stop
  start_le_stop := by
    have := a.start_le_stop
    omega

instance : Ord Span where
  compare a b :=
    (compare a.file.index b.file.index).then
      ((compare a.start b.start).then (compare a.stop b.stop))

end Span

structure SourceFile where
  name : String
  text : String
  deriving DecidableEq, Repr

abbrev SourceFiles := Array SourceFile

namespace SourceFiles

def file? (files : SourceFiles) (id : FileId) : Option SourceFile := files[id.index]?

end SourceFiles

/-- A line with its line break, and the offset at which it starts. -/
structure SourceLine where
  start : Nat
  chars : List Char

/-- The characters with their offsets from `start`. -/
def offsets (start : Nat) : List Char → List (Nat × Char)
  | [] => []
  | c :: cs => (start, c) :: offsets (start + c.utf8Size) cs

/-- The lines of a text that starts at an offset. There is always one, and the
last one has no line break. -/
def linesFrom (start : Nat) : List Char → List SourceLine
  | [] => [⟨start, []⟩]
  | '\n' :: cs => ⟨start, ['\n']⟩ :: linesFrom (start + 1) cs
  | c :: cs =>
    match linesFrom (start + c.utf8Size) cs with
    | [] => []
    | line :: lines => ⟨start, c :: line.chars⟩ :: lines

namespace SourceFile

def lines (f : SourceFile) : Array SourceLine := (linesFrom 0 f.text.toList).toArray

end SourceFile

/-- The line and column of a position, both counted from one. -/
structure Location where
  line : Nat
  column : Nat
  deriving DecidableEq, Repr

/-- The index of the line that a position lies in. -/
def lineIndex (lines : Array SourceLine) (offset : Nat) : Nat :=
  lines.foldl (fun n line => if line.start ≤ offset then n + 1 else n) 0 - 1

def locate (lines : Array SourceLine) (offset : Nat) : Location :=
  let index := lineIndex lines offset
  let before := match lines[index]? with
    | some line =>
      (offsets line.start line.chars).countP fun (place, c) => place + c.utf8Size ≤ offset
    | none => 0
  ⟨index + 1, before + 1⟩

end TraitEngine
