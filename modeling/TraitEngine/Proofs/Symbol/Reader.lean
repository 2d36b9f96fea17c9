import TraitEngine.Proofs.Symbol.Numeral
import TraitEngine.Proofs.Symbol.Shape
/-!
# Reading structural symbols

Shapes can be read back from symbols (`read_symbol`), so two paths have one symbol exactly
if they have one shape. No part of a symbol needs a look ahead of more than one character:
the first character of a path or type tells its form; a list ends where an `E` stands in
place of an element; the digits of a number end at the first character that is none.

The fuel of the reader is twice the length of the text, since a path that stands for a type
takes two calls before its first character is gone.
-/

namespace TraitEngine.Structural

set_option autoImplicit false

/-! ## The reader -/

/-- Whether the text starts with the mark, and what is left behind it. -/
def skipMark (mark : Char) : List Char → Bool × List Char
  | [] => (false, [])
  | c :: cs => if c = mark then (true, cs) else (false, c :: cs)

/-- Zero is the mark alone; any other number is one more than the numeral before the mark. -/
def readInteger (cs : List Char) : Option (Nat × List Char) :=
  match skipMark '_' cs with
  | (true, cs) => some (0, cs)
  | (false, cs) =>
    let (n, cs) := readNumeral 62 Char.isAlphanum cs
    match skipMark '_' cs with
    | (true, cs) => some (n + 1, cs)
    | (false, _) => none

/-- What is not written is zero. -/
def readDisambiguator (cs : List Char) : Option (Nat × List Char) :=
  match skipMark 's' cs with
  | (true, cs) => readInteger cs
  | (false, cs) => some (0, cs)

/-- A name is as long as its length says. -/
def readName (cs : List Char) : Option (SymbolName × List Char) :=
  let (altered, cs) := skipMark 'u' cs
  let (length, cs) := readNumeral 10 Char.isDigit cs
  let (_, cs) := skipMark '_' cs
  let chars := cs.take length
  if valid : chars ≠ [] ∧ chars.all isIdentifierChar = true then
    some (⟨chars, altered, valid⟩, cs.drop length)
  else none

def namespace? : Char → Option Namespace
  | 't' => some .type
  | 'v' => some .value
  | _ => none

def primitive? : Char → Option Primitive
  | 'b' => some .bool
  | 'c' => some .char
  | 'e' => some .str
  | 'a' => some (.int .w8)
  | 's' => some (.int .w16)
  | 'l' => some (.int .w32)
  | 'x' => some (.int .w64)
  | 'n' => some (.int .w128)
  | 'i' => some (.int .size)
  | 'h' => some (.uint .w8)
  | 't' => some (.uint .w16)
  | 'm' => some (.uint .w32)
  | 'y' => some (.uint .w64)
  | 'o' => some (.uint .w128)
  | 'j' => some (.uint .size)
  | 'f' => some (.float .w32)
  | 'd' => some (.float .w64)
  | _ => none

def pointer? : Char → Option (PointerKind × Mutability)
  | 'R' => some (.reference, .shared)
  | 'Q' => some (.reference, .unique)
  | 'P' => some (.raw, .shared)
  | 'O' => some (.raw, .unique)
  | _ => none

/-- The length of an array, between its marks. -/
def readLength (cs : List Char) : Option (Nat × List Char) :=
  match skipMark 'j' cs with
  | (false, _) => none
  | (true, cs) =>
    let (length, cs) := readNumeral 16 Char.isAlphanum cs
    match skipMark '_' cs with
    | (true, cs) => some (length, cs)
    | (false, _) => none

mutual

/-- A path by its first letter. The fuel bounds how deep paths and types nest. -/
def readPath : Nat → List Char → Option (PathShape × List Char)
  | _ + 1, 'C' :: cs => do
    let (dis, cs) ← readDisambiguator cs
    let (name, cs) ← readName cs
    return (.root name dis, cs)
  | fuel + 1, 'N' :: c :: cs => do
    let ns ← namespace? c
    let (parent, cs) ← readPath fuel cs
    let (dis, cs) ← readDisambiguator cs
    let (name, cs) ← readName cs
    return (.named parent ns dis name [], cs)
  | fuel + 1, 'I' :: cs => do
    let (path, cs) ← readPath fuel cs
    let (args, cs) ← readTys fuel cs
    return (path.withArgs args, cs)
  | fuel + 1, 'X' :: cs => do
    let (dis, cs) ← readDisambiguator cs
    let (parent, cs) ← readPath fuel cs
    let (self, cs) ← readTy fuel cs
    let (trait, cs) ← readPath fuel cs
    return (.traitImpl parent dis self trait, cs)
  | _, _ => none

/-- A type by its first letter; a letter of no type begins a path. -/
def readTy : Nat → List Char → Option (TyShape × List Char)
  | fuel + 1, c :: cs =>
    match primitive? c, pointer? c, c with
    | some p, _, _ => some (.prim p, cs)
    | _, some (k, m), _ => do
      let (inner, cs) ← readTy fuel cs
      return (.pointer k m inner, cs)
    | _, _, 'z' => some (.never, cs)
    | _, _, 'u' => some (.tuple [], cs)
    | _, _, 'p' => some (.unnamed, cs)
    | _, _, 'T' => do
      let (elems, cs) ← readTys fuel cs
      return (.tuple elems, cs)
    | _, _, 'A' => do
      let (elem, cs) ← readTy fuel cs
      let (length, cs) ← readLength cs
      return (.array elem length, cs)
    | _, _, 'S' => do
      let (elem, cs) ← readTy fuel cs
      return (.slice elem, cs)
    | _, _, 'F' => do
      let (params, cs) ← readTys fuel cs
      let (ret, cs) ← readTy fuel cs
      return (.fn params ret, cs)
    | _, _, 'D' => do
      let (bounds, cs) ← readPaths fuel cs
      match cs with
      | 'L' :: '_' :: cs => return (.dyn bounds, cs)
      | _ => none
    | _, _, _ => do
      let (path, cs) ← readPath fuel (c :: cs)
      return (.path path, cs)
  | _, _ => none

/-- Types up to an `E`. -/
def readTys : Nat → List Char → Option (List TyShape × List Char)
  | 0, _ => none
  | fuel + 1, cs =>
    match skipMark 'E' cs with
    | (true, cs) => some ([], cs)
    | (false, cs) => do
      let (t, cs) ← readTy fuel cs
      let (ts, cs) ← readTys fuel cs
      return (t :: ts, cs)

/-- Paths up to an `E`. -/
def readPaths : Nat → List Char → Option (List PathShape × List Char)
  | 0, _ => none
  | fuel + 1, cs =>
    match skipMark 'E' cs with
    | (true, cs) => some ([], cs)
    | (false, cs) => do
      let (p, cs) ← readPath fuel cs
      let (ps, cs) ← readPaths fuel cs
      return (p :: ps, cs)

end

/-- The shape that a whole text is the symbol of. -/
def read? (symbol : String) : Option PathShape :=
  match symbol.toList with
  | '_' :: 'R' :: cs =>
    match readPath (2 * cs.length) cs with
    | some (path, []) => some path
    | _ => none
  | _ => none

/-! ## Marks, numbers and names -/

theorem skipMark_cons (mark : Char) (cs : List Char) : skipMark mark (mark :: cs) = (true, cs) :=
  if_pos rfl

theorem skipMark_of_outside {mark : Char} {cs : List Char}
    (other : StartsOutside (· == mark) cs) : skipMark mark cs = (false, cs) := by
  cases cs with
  | nil => rfl
  | cons c cs => exact if_neg (by simpa using other c rfl)

theorem startsOutside_append {isMark : Char → Bool} {cs : List Char} (some : cs ≠ [])
    (other : ∀ c ∈ cs, isMark c = false) (rest : List Char) :
    StartsOutside isMark (cs ++ rest) := by
  obtain ⟨c, tail, rfl⟩ := List.exists_cons_of_ne_nil some
  exact startsOutside_cons (other c List.mem_cons_self)

/-- No mark is among characters that are all of a class that it is not of. -/
theorem ne_mark {cs : List Char} {isOf : Char → Bool} (all : ∀ c ∈ cs, isOf c = true)
    {mark : Char} (other : isOf mark = false) : ∀ c ∈ cs, (c == mark) = false := by
  intro c mem
  refine beq_false_of_ne fun same => ?_
  rw [← same, all c mem] at other
  cases other

/-- A number is read back, with what follows it. -/
theorem readInteger_append (n : Nat) (rest : List Char) :
    readInteger (integer n ++ rest) = some (n, rest) := by
  cases n with
  | zero => rfl
  | succ n =>
      have digits := all_isAlphanum_numeral (show 2 ≤ 62 by omega) (by omega) n
      have first : StartsOutside (· == '_') (numeral 62 n ++ '_' :: rest) :=
        startsOutside_append (numeral_ne_nil 62 n) (ne_mark digits rfl) _
      have stops : StartsOutside Char.isAlphanum ('_' :: rest) := startsOutside_cons rfl
      simp only [readInteger, integer, List.append_assoc, List.singleton_append,
        skipMark_of_outside first, readNumeral_append (by omega) (by omega) digits stops,
        skipMark_cons]

theorem readDisambiguator_append (n : Nat) {rest : List Char}
    (other : StartsOutside (· == 's') rest) :
    readDisambiguator (disambiguator n ++ rest) = some (n, rest) := by
  unfold disambiguator
  split
  · next zero => simp only [readDisambiguator, List.nil_append, skipMark_of_outside other, zero]
  · simp only [readDisambiguator, List.cons_append, skipMark_cons, readInteger_append]

theorem readLength_append (n : Nat) (rest : List Char) :
    readLength ('j' :: (numeral 16 n ++ '_' :: rest)) = some (n, rest) := by
  have digits := all_isAlphanum_numeral (show 2 ≤ 16 by omega) (by omega) n
  have stops : StartsOutside Char.isAlphanum ('_' :: rest) := startsOutside_cons rfl
  simp only [readLength, skipMark_cons, readNumeral_append (by omega) (by omega) digits stops]

/-- A name starts with its mark or with its length. -/
theorem startsOutside_name (name : SymbolName) (mark : Char) (marked : 'u' ≠ mark)
    (digit : mark.isDigit = false) (rest : List Char) :
    StartsOutside (· == mark) (name.write ++ rest) := by
  unfold SymbolName.write
  split
  · exact startsOutside_cons (by simpa using marked)
  · have first := startsOutside_append (numeral_ne_nil 10 name.chars.length)
      (ne_mark (all_isDigit_numeral name.chars.length) digit)
    simpa only [List.nil_append, List.append_assoc] using first _

/-- The separator is there if and only if the name could be taken for more of its length,
or for a separator. -/
theorem skipMark_separator {chars : List Char} (some : chars ≠ []) (rest : List Char) :
    StartsOutside Char.isDigit (separator chars ++ (chars ++ rest)) ∧
      (skipMark '_' (separator chars ++ (chars ++ rest))).2 = chars ++ rest := by
  obtain ⟨c, cs, rfl⟩ := List.exists_cons_of_ne_nil some
  unfold separator
  split
  · exact ⟨startsOutside_cons rfl, congrArg Prod.snd (skipMark_cons '_' _)⟩
  · next plain =>
      simp only [List.head?_cons, Option.any_some, Bool.or_eq_true, not_or, Bool.not_eq_true]
        at plain
      exact ⟨startsOutside_cons plain.2,
        congrArg Prod.snd (skipMark_of_outside (startsOutside_cons plain.1))⟩

/-- A name is read back: the mark keeps its length apart from its digits. -/
theorem readName_append (name : SymbolName) (rest : List Char) :
    readName (name.write ++ rest) = some (name, rest) := by
  obtain ⟨outside, skipped⟩ := skipMark_separator name.valid.1 rest
  have digits := all_isDigit_numeral name.chars.length
  have length := readNumeral_append (by omega) (by omega) digits outside
  have mark : skipMark 'u' (name.write ++ rest) =
      (name.altered, numeral 10 name.chars.length ++ (separator name.chars ++
        (name.chars ++ rest))) := by
    unfold SymbolName.write
    cases altered : name.altered with
    | true => simp [skipMark_cons]
    | false =>
        have first := startsOutside_append (numeral_ne_nil 10 name.chars.length)
          (ne_mark digits (show 'u'.isDigit = false from rfl))
        simpa only [Bool.false_eq_true, if_false, List.nil_append, List.append_assoc]
          using skipMark_of_outside (first _)
  simp only [readName, mark, length, skipped, List.take_left, List.drop_left]
  exact dif_pos name.valid

/-! ## First characters -/

theorem primitive?_primitiveChar (p : Primitive) : primitive? (primitiveChar p) = some p := by
  cases p with
  | int w => cases w <;> rfl
  | uint w => cases w <;> rfl
  | float w => cases w <;> rfl
  | _ => rfl

theorem primitive?_pointerChar (k : PointerKind) (m : Mutability) :
    primitive? (pointerChar k m) = none := by
  cases k <;> cases m <;> rfl

theorem pointer?_pointerChar (k : PointerKind) (m : Mutability) :
    pointer? (pointerChar k m) = some (k, m) := by
  cases k <;> cases m <;> rfl

theorem namespace?_namespaceChar (ns : Namespace) : namespace? (namespaceChar ns) = some ns := by
  cases ns <;> rfl

/-- A path begins with one of four letters. -/
theorem PathShape.write_cons (p : PathShape) :
    ∃ c cs, p.write = c :: cs ∧ (c = 'C' ∨ c = 'N' ∨ c = 'I' ∨ c = 'X') := by
  cases p with
  | root crate dis => exact ⟨_, _, rfl, .inl rfl⟩
  | named parent ns dis name args =>
      cases args with
      | nil => exact ⟨_, _, rfl, .inr (.inl rfl)⟩
      | cons t ts => exact ⟨_, _, rfl, .inr (.inr (.inl rfl))⟩
  | traitImpl parent dis self trait => exact ⟨_, _, rfl, .inr (.inr (.inr rfl))⟩

/-- No type begins like the end of a list. -/
theorem TyShape.write_cons (t : TyShape) : ∃ c cs, t.write = c :: cs ∧ c ≠ 'E' := by
  cases t with
  | prim p =>
      refine ⟨_, _, rfl, fun same => ?_⟩
      have known := primitive?_primitiveChar p
      rw [same] at known
      cases known
  | pointer k m t => exact ⟨_, _, rfl, by cases k <;> cases m <;> simp [pointerChar]⟩
  | tuple ts => cases ts <;> exact ⟨_, _, rfl, by simp⟩
  | path p =>
      obtain ⟨c, cs, write, first⟩ := p.write_cons
      exact ⟨c, cs, write, by rcases first with rfl | rfl | rfl | rfl <;> simp⟩
  | _ => exact ⟨_, _, rfl, by simp⟩

theorem PathShape.startsOutside (p : PathShape) (mark : Char)
    (other : mark ≠ 'C' ∧ mark ≠ 'N' ∧ mark ≠ 'I' ∧ mark ≠ 'X') (rest : List Char) :
    StartsOutside (· == mark) (p.write ++ rest) := by
  obtain ⟨c, cs, write, first⟩ := p.write_cons
  rw [write]
  refine startsOutside_cons (beq_false_of_ne ?_)
  rcases first with rfl | rfl | rfl | rfl <;> simp [other, Ne.symm]

theorem TyShape.startsOutside (t : TyShape) (rest : List Char) :
    StartsOutside (· == 'E') (t.write ++ rest) := by
  obtain ⟨c, cs, write, first⟩ := t.write_cons
  rw [write]
  exact startsOutside_cons (beq_false_of_ne first)

/-! ## Shapes are read back -/

/-- No other type starts as paths do. -/
theorem readTy_path (p : PathShape) (fuel : Nat) (rest : List Char) :
    readTy (fuel + 1) (p.write ++ rest) =
      (readPath fuel (p.write ++ rest)).bind fun (path, rest) => some (.path path, rest) := by
  obtain ⟨c, cs, write, first⟩ := p.write_cons
  rw [write, List.cons_append]
  rcases first with rfl | rfl | rfl | rfl <;> rfl

/-- A path whose last name has no arguments is read as soon as its parent is. -/
theorem readPath_named {fuel : Nat} {parent : PathShape}
    (read : ∀ rest, readPath fuel (parent.write ++ rest) = some (parent, rest)) (ns : Namespace)
    (dis : Nat) (name : SymbolName) (rest : List Char) :
    readPath (fuel + 1) ((PathShape.named parent ns dis name []).write ++ rest) =
      some (.named parent ns dis name [], rest) := by
  have other := startsOutside_name name 's' (by simp) rfl rest
  simp [readPath, PathShape.write, instantiated, namespace?_namespaceChar, read,
    readDisambiguator_append _ other, readName_append]

mutual

/-- A path is read back, if there is fuel for it. -/
theorem readPath_write : ∀ (p : PathShape) (fuel : Nat), 2 * p.write.length ≤ fuel →
    ∀ rest, readPath fuel (p.write ++ rest) = some (p, rest)
  | p, 0, enough, rest => by
      obtain ⟨c, cs, write, -⟩ := p.write_cons
      simp [write] at enough
  | .root crate dis, fuel + 1, enough, rest => by
      have other := startsOutside_name crate 's' (by simp) rfl rest
      simp [readPath, PathShape.write, readDisambiguator_append _ other, readName_append]
  | .named parent ns dis name [], fuel + 1, enough, rest => by
      simp [PathShape.write, instantiated] at enough
      exact readPath_named (readPath_write parent fuel (by omega)) ns dis name rest
  | .named parent ns dis name (t :: ts), fuel + 2, enough, rest => by
      have whole : (PathShape.named parent ns dis name (t :: ts)).write ++ rest =
          'I' :: ((PathShape.named parent ns dis name []).write ++
            (TyShape.writeAll (t :: ts) ++ 'E' :: rest)) := by
        simp [PathShape.write, instantiated]
      simp [PathShape.write, instantiated] at enough
      have path := readPath_named (readPath_write parent fuel (by omega)) ns dis name
      have args := readTys_write (t :: ts) (fuel + 1) (by omega)
      rw [whole]
      simp [readPath, path, args, PathShape.withArgs]
  | .named parent ns dis name (t :: ts), 1, enough, rest => by
      simp [PathShape.write, instantiated] at enough
      omega
  | .traitImpl parent dis self trait, fuel + 1, enough, rest => by
      simp [PathShape.write] at enough
      have other := parent.startsOutside 's' (by decide)
        (self.write ++ (trait.write ++ rest))
      simp [readPath, PathShape.write, readDisambiguator_append _ other,
        readPath_write parent fuel (by omega),
        readTy_write self fuel (by omega), readPath_write trait fuel (by omega)]

theorem readTy_write : ∀ (t : TyShape) (fuel : Nat), 2 * t.write.length + 1 ≤ fuel →
    ∀ rest, readTy fuel (t.write ++ rest) = some (t, rest)
  | .prim p, fuel + 1, _, rest => by
      simp [readTy, TyShape.write, primitive?_primitiveChar]
  | .never, fuel + 1, _, rest | .unnamed, fuel + 1, _, rest | .tuple [], fuel + 1, _, rest => rfl
  | .tuple (t :: ts), fuel + 1, enough, rest => by
      simp [TyShape.write] at enough
      simp [readTy, TyShape.write, readTys_write (t :: ts) fuel (by omega)]
  | .path p, fuel + 1, enough, rest => by
      have read := readPath_write p fuel (by simpa [TyShape.write] using enough) rest
      simp [TyShape.write, readTy_path, read]
  | .pointer k m t, fuel + 1, enough, rest => by
      simp [TyShape.write] at enough
      simp [readTy, TyShape.write, primitive?_pointerChar, pointer?_pointerChar,
        readTy_write t fuel (by omega)]
  | .array t length, fuel + 1, enough, rest => by
      simp [TyShape.write] at enough
      simp [readTy, TyShape.write, readLength_append,
        readTy_write t fuel (by omega)]
  | .slice t, fuel + 1, enough, rest => by
      simp [TyShape.write] at enough
      simp [readTy, TyShape.write, readTy_write t fuel (by omega)]
  | .fn params ret, fuel + 1, enough, rest => by
      simp [TyShape.write] at enough
      simp [readTy, TyShape.write, readTys_write params fuel (by omega),
        readTy_write ret fuel (by omega)]
  | .dyn bounds, fuel + 1, enough, rest => by
      simp [TyShape.write] at enough
      simp [readTy, TyShape.write, readPaths_write bounds fuel (by omega)]

theorem readTys_write : ∀ (ts : List TyShape) (fuel : Nat),
    2 * (TyShape.writeAll ts).length + 2 ≤ fuel →
    ∀ rest, readTys fuel (TyShape.writeAll ts ++ 'E' :: rest) = some (ts, rest)
  | [], fuel + 1, _, rest => by
      simp [readTys, TyShape.writeAll, skipMark_cons]
  | t :: ts, fuel + 1, enough, rest => by
      obtain ⟨c, cs, write, -⟩ := t.write_cons
      have length : t.write.length = cs.length + 1 := by rw [write, List.length_cons]
      simp [TyShape.writeAll] at enough
      have other := t.startsOutside (TyShape.writeAll ts ++ 'E' :: rest)
      simp [readTys, TyShape.writeAll, skipMark_of_outside other,
        readTy_write t fuel (by omega), readTys_write ts fuel (by omega)]

theorem readPaths_write : ∀ (ps : List PathShape) (fuel : Nat),
    2 * (PathShape.writeAll ps).length + 2 ≤ fuel →
    ∀ rest, readPaths fuel (PathShape.writeAll ps ++ 'E' :: rest) = some (ps, rest)
  | [], fuel + 1, _, rest => by
      simp [readPaths, PathShape.writeAll, skipMark_cons]
  | p :: ps, fuel + 1, enough, rest => by
      obtain ⟨c, cs, write, -⟩ := p.write_cons
      have length : p.write.length = cs.length + 1 := by rw [write, List.length_cons]
      simp [PathShape.writeAll] at enough
      have other := p.startsOutside 'E' (by decide) (PathShape.writeAll ps ++ 'E' :: rest)
      simp [readPaths, PathShape.writeAll, skipMark_of_outside other,
        readPath_write p fuel (by omega), readPaths_write ps fuel (by omega)]

end

/-! ## Symbols are read back -/

/-- The reader takes a symbol apart into the shape that it was written from. -/
theorem read?_write (p : PathShape) : read? (String.ofList ("_R".toList ++ p.write)) = some p := by
  have read := readPath_write p (2 * p.write.length) le_rfl []
  rw [List.append_nil] at read
  simp [read?, read]

theorem symbol_eq_ok_iff {tree : ItemTree} {p : CanonicalPath} {s : String} :
    symbol tree p = .ok s ↔
      ∃ shape, pathShape? tree p = some shape ∧ String.ofList ("_R".toList ++ shape.write) = s := by
  rw [← Option.map_eq_some_iff, ← symbol_eq]
  cases symbol tree p <;> simp [Except.toOption]

/-- What a symbol is read as is the shape of its path. -/
theorem read?_symbol {tree : ItemTree} {p : CanonicalPath} {s : String}
    (named : symbol tree p = .ok s) : read? s = pathShape? tree p := by
  obtain ⟨shape, known, rfl⟩ := symbol_eq_ok_iff.1 named
  rw [known, read?_write]

example : read? "_RNvC7example8__private" =
    some (.named (.root ⟨"example".toList, false, by decide⟩ 0) .value 0
      ⟨"_private".toList, false, by decide⟩ []) := rfl

/-- A symbol tells the shape of its path, and no more: two paths have a symbol in common
exactly if they have a shape in common. -/
theorem same_symbol_iff (tree : ItemTree) (p q : CanonicalPath) :
    (∃ s, symbol tree p = .ok s ∧ symbol tree q = .ok s) ↔
      ∃ shape, pathShape? tree p = some shape ∧ pathShape? tree q = some shape := by
  constructor
  · rintro ⟨s, left, right⟩
    obtain ⟨shape, known, rfl⟩ := symbol_eq_ok_iff.1 left
    obtain ⟨other, known', same⟩ := symbol_eq_ok_iff.1 right
    have read := congrArg read? same
    rw [read?_write, read?_write] at read
    cases read
    exact ⟨shape, known, known'⟩
  · rintro ⟨shape, left, right⟩
    exact ⟨_, symbol_eq_ok_iff.2 ⟨shape, left, rfl⟩, symbol_eq_ok_iff.2 ⟨shape, right, rfl⟩⟩

end TraitEngine.Structural
