import TraitEngine.Symbol.Structural
/-!
# What a structural symbol tells

A structural symbol tells less than the path that it is made for. The shape of a path
is what it does tell: the disambiguators and namespaces, the names in their ASCII form,
and the shapes of the generic arguments. A struct, an enum or the trait of a trait object
is there as its canonical path; the receiver of a function is its first parameter; and
parameters, placeholders, projections, inference variables and the error type are all
alike. A trait implementation has no namespace, no text and no generic arguments.

A symbol is the shape of its path, written down (`encodePath_eq`): a path has a symbol
exactly if it has a shape.
-/

namespace TraitEngine.Structural

set_option autoImplicit false

/-- A name as symbols carry it: in ASCII, with a mark if that is not how it was given. -/
structure SymbolName where
  chars : List Char
  altered : Bool
  valid : chars ≠ [] ∧ chars.all isIdentifierChar = true
  deriving DecidableEq

namespace SymbolName

/-- The ASCII form of a name, unless it is empty or has other characters. -/
def of? (name : String) : Option SymbolName :=
  (asciiName? name.toList).bind fun (chars, altered) =>
    if valid : chars ≠ [] ∧ chars.all isIdentifierChar = true then
      some ⟨chars, altered, valid⟩
    else none

/-- The mark of an altered name, the length, what keeps the length apart, and the characters.
-/
def write (name : SymbolName) : List Char :=
  (if name.altered then ['u'] else []) ++ numeral 10 name.chars.length ++
    separator name.chars ++ name.chars

end SymbolName

mutual

/-- The productions of a path. A trait implementation is under the path that it stands in. -/
inductive PathShape where
  | root (crate : SymbolName) (disambiguator : Nat)
  | named (parent : PathShape) (ns : Namespace) (disambiguator : Nat) (name : SymbolName)
      (args : List TyShape)
  | traitImpl (parent : PathShape) (disambiguator : Nat) (self : TyShape) (trait : PathShape)

/-- `unnamed` stands for all types that have no form of their own in symbols. -/
inductive TyShape where
  | prim (p : Primitive)
  | never
  | tuple (elems : List TyShape)
  | path (p : PathShape)
  | pointer (kind : PointerKind) (m : Mutability) (inner : TyShape)
  | array (elem : TyShape) (length : Nat)
  | slice (elem : TyShape)
  | fn (params : List TyShape) (ret : TyShape)
  | dyn (bounds : List PathShape)
  | unnamed

end

namespace PathShape

/-- Generic arguments belong to the last name of a path. -/
def withArgs (args : List TyShape) : PathShape → PathShape
  | .named parent ns dis name _ => .named parent ns dis name args
  | p => p

end PathShape

/-! ## The shape of a path -/

/-- A crate has no parent. -/
def rootShape? (crate : String) (dis : Nat) : Option PathShape :=
  (SymbolName.of? crate).map fun name => .root name dis

def namedShape? (ns : Namespace) (parent : PathShape) (dis : Nat) (name : String)
    (args : List TyShape) : Option PathShape :=
  (SymbolName.of? name).map fun name => .named parent ns dis name args

/-- The shape of the canonical path of a declared item. -/
def definitionShape? (tree : ItemTree) (id : DefId) : Option PathShape := do
  let item ← tree.item? id
  (item.modules ++ [item.name]).foldlM (namedShape? .type · 0 · []) (← rootShape? tree.crate 0)

section

variable (tree : ItemTree)

mutual

/-- The shape of a type; a struct, an enum or a bound has it from where it is declared. -/
def tyShape? : Ty → Option TyShape
  | .prim p => some (.prim p)
  | .never => some .never
  | .tuple ts => (tyShapes? ts).map .tuple
  | .adt id _ args => do
    let path ← definitionShape? tree id
    return .path (path.withArgs (← tyShapes? args))
  | .pointer k m t => (tyShape? t).map (.pointer k m)
  | .array t length => (tyShape? t).map (.array · length)
  | .slice t => (tyShape? t).map .slice
  | .fn _ receiver params ret _ => do
    let receiver ← receiverShapes? receiver
    let params ← tyShapes? params
    return .fn (receiver ++ params) (← tyShape? ret)
  | .dyn bounds => (boundShapes? bounds).map .dyn
  | .param _ | .placeholder .. | .projection .. | .infer _ | .error => some .unnamed

def tyShapes? : List Ty → Option (List TyShape)
  | [] => some []
  | t :: ts => do return (← tyShape? t) :: (← tyShapes? ts)

def receiverShapes? : Option Ty → Option (List TyShape)
  | none => some []
  | some t => (tyShape? t).map ([·])

def boundShapes? : List DynBound → Option (List PathShape)
  | [] => some []
  | .mk id _ args :: rest => do
    let path ← definitionShape? tree id
    let head := path.withArgs (← tyShapes? args)
    return head :: (← boundShapes? rest)

end

mutual

/-- The shape of a path is built from the crate on. -/
def pathShape? : CanonicalPath → Option PathShape
  | .mk crate dis segments => do segmentsShape? (← rootShape? crate dis) segments

def segmentsShape? (parent : PathShape) : List CanonicalSegment → Option PathShape
  | [] => some parent
  | segment :: rest => do segmentsShape? (← segmentShape? parent segment) rest

def segmentShape? (parent : PathShape) : CanonicalSegment → Option PathShape
  | .named name ns dis args => do namedShape? ns parent dis name (← tyShapes? tree args)
  | .traitImpl self trait dis _ => do
    let self ← tyShape? tree self
    return .traitImpl parent dis self (← pathShape? trait)

end

end

/-! ### Declared items are canonical paths -/

/-- A path that is built name by name. -/
theorem foldl_join (names : List String) (p : CanonicalPath) :
    names.foldl (·.join · .type) p =
      .mk p.crate p.disambiguator (p.segments ++ names.map (.named · .type 0 [])) := by
  induction names generalizing p with
  | nil => cases p; simp [CanonicalPath.crate, CanonicalPath.disambiguator, CanonicalPath.segments]
  | cons name names ih =>
      rw [List.foldl_cons, ih]
      simp [CanonicalPath.join, CanonicalPath.push, CanonicalPath.crate,
        CanonicalPath.disambiguator, CanonicalPath.segments]

section

variable {tree : ItemTree} {id : DefId}

/-- Plain names nest, one under the other. -/
theorem segmentsShape?_names (names : List String) (last : CanonicalSegment)
    (parent : PathShape) :
    segmentsShape? tree parent (names.map (.named · .type 0 []) ++ [last]) =
      (names.foldlM (namedShape? .type · 0 · []) parent).bind (segmentShape? tree · last) := by
  induction names generalizing parent with
  | nil => simp [segmentsShape?]
  | cons name names ih =>
      simp only [List.map_cons, List.cons_append, segmentsShape?, segmentShape?, tyShapes?,
        List.foldlM_cons, Option.bind_eq_bind, Option.bind_some]
      cases namedShape? .type parent 0 name [] with
      | none => rfl
      | some below => exact ih below

/-- The canonical path of an item, with arguments behind its last name, has the shape that
the item and these arguments have as a type. -/
theorem pathShape?_withArgs {path : CanonicalPath} (canonical : tree.canonicalPath? id = some path)
    (args : List Ty) :
    pathShape? tree (path.withArgs args) = (do
      let path ← definitionShape? tree id
      return path.withArgs (← tyShapes? tree args)) := by
  unfold ItemTree.canonicalPath? at canonical
  unfold definitionShape?
  cases found : tree.item? id with
  | none => rw [found] at canonical; cases canonical
  | some item =>
      rw [found] at canonical
      cases canonical
      simp only [foldl_join, CanonicalPath.withArgs, CanonicalPath.modifyLast,
        CanonicalPath.segments, CanonicalPath.crateRoot, CanonicalPath.crate,
        CanonicalPath.disambiguator, CanonicalSegment.withArgs, List.map_append, List.nil_append,
        List.map_cons, List.map_nil, List.getLast?_concat, List.dropLast_concat, pathShape?,
        segmentsShape?_names, Option.bind_eq_bind, Option.bind_some, List.foldlM_append,
        List.foldlM_cons, List.foldlM_nil, Option.bind_assoc, segmentShape?, namedShape?]
      cases rootShape? tree.crate 0 with
      | none => rfl
      | some root =>
          cases item.modules.foldlM (namedShape? .type · 0 · []) root <;>
            cases SymbolName.of? item.name <;> cases tyShapes? tree args <;> rfl

/-- A declared item as a type has the shape of its canonical path with its arguments. -/
theorem tyShape?_adt {path : CanonicalPath} (canonical : tree.canonicalPath? id = some path)
    (name : String) (args : List Ty) :
    tyShape? tree (.adt id name args) = (pathShape? tree (path.withArgs args)).map .path := by
  rw [pathShape?_withArgs canonical, tyShape?]
  cases definitionShape? tree id <;> cases tyShapes? tree args <;> rfl

/-- So has the trait of a trait object. -/
theorem boundShapes?_cons {path : CanonicalPath} (canonical : tree.canonicalPath? id = some path)
    (name : String) (args : List Ty) (rest : List DynBound) :
    boundShapes? tree (.mk id name args :: rest) = (do
      let head ← pathShape? tree (path.withArgs args)
      return head :: (← boundShapes? tree rest)) := by
  rw [pathShape?_withArgs canonical, boundShapes?]
  cases definitionShape? tree id <;> cases tyShapes? tree args <;> rfl

end

/-! ## Writing a shape -/

mutual

/-- A path in prefix form: the arguments come after the whole path, the name after its parent.
-/
def PathShape.write : PathShape → List Char
  | .root crate dis => 'C' :: disambiguator dis ++ crate.write
  | .named parent ns dis name args =>
    instantiated ('N' :: namespaceChar ns :: parent.write ++ disambiguator dis ++ name.write)
      (!args.isEmpty) (TyShape.writeAll args)
  | .traitImpl parent dis self trait =>
    'X' :: disambiguator dis ++ parent.write ++ self.write ++ trait.write

def TyShape.write : TyShape → List Char
  | .prim p => [primitiveChar p]
  | .never => ['z']
  | .tuple [] => ['u']
  | .tuple (t :: ts) => 'T' :: TyShape.writeAll (t :: ts) ++ ['E']
  | .path p => p.write
  | .pointer k m t => pointerChar k m :: t.write
  | .array t length => 'A' :: t.write ++ 'j' :: numeral 16 length ++ ['_']
  | .slice t => 'S' :: t.write
  | .fn params ret => 'F' :: TyShape.writeAll params ++ 'E' :: ret.write
  | .dyn bounds => 'D' :: PathShape.writeAll bounds ++ "EL_".toList
  | .unnamed => ['p']

def TyShape.writeAll : List TyShape → List Char
  | [] => []
  | t :: ts => t.write ++ TyShape.writeAll ts

def PathShape.writeAll : List PathShape → List Char
  | [] => []
  | p :: ps => p.write ++ PathShape.writeAll ps

end

/-! ## Symbols are written shapes -/

theorem toOption_bind {ε α β : Type} (x : Except ε α) (f : α → Except ε β) :
    (x >>= f).toOption = x.toOption.bind fun a => (f a).toOption := by
  cases x <;> rfl

theorem toOption_map {ε α β : Type} (f : α → β) (x : Except ε α) :
    (f <$> x).toOption = x.toOption.map f := by
  cases x <;> rfl

theorem toOption_pure {ε α : Type} (a : α) : (pure a : Except ε α).toOption = some a := rfl

/-- A name is written exactly if it has an ASCII form. -/
theorem identifier_eq (name : String) :
    (identifier name).toOption = (SymbolName.of? name).map SymbolName.write := by
  unfold identifier SymbolName.of?
  cases asciiName? name.toList with
  | none => rfl
  | some out =>
      obtain ⟨chars, altered⟩ := out
      by_cases valid : chars ≠ [] ∧ chars.all isIdentifierChar = true
      · simp [valid, SymbolName.write, Except.toOption, -List.all_eq_true]
      · have invalid : (chars.isEmpty || !chars.all isIdentifierChar) = true := by
          cases chars with
          | nil => rfl
          | cons c cs => simpa [-List.all_eq_true, -List.all_cons] using valid
        simp [valid, invalid, Except.toOption, -List.all_eq_true]

/-- The crate is written as its shape is. -/
theorem crateRoot_eq (crate : String) (dis : Nat) :
    (crateRoot crate dis).toOption = (rootShape? crate dis).map PathShape.write := by
  simp [crateRoot, rootShape?, toOption_map, identifier_eq, PathShape.write, Function.comp_def]

/-- A name below a path likewise. -/
theorem nested_eq (ns : Namespace) (parent : PathShape) (dis : Nat) (name : String) :
    (nested ns parent.write dis name).toOption =
      (namedShape? ns parent dis name []).map PathShape.write := by
  simp [nested, namedShape?, toOption_map, identifier_eq, PathShape.write, instantiated,
    Function.comp_def]

/-! ### Declared items -/

theorem foldlM_nested_eq (names : List String) (parent : PathShape) :
    (names.foldlM (nested .type · 0 ·) parent.write).toOption =
      (names.foldlM (namedShape? .type · 0 · []) parent).map PathShape.write := by
  induction names generalizing parent with
  | nil => rfl
  | cons name names ih =>
      rw [List.foldlM_cons, List.foldlM_cons, toOption_bind, nested_eq]
      cases namedShape? .type parent 0 name [] with
      | none => rfl
      | some below => exact ih below

/-- A declaration is written as its canonical path. -/
theorem definition_eq (tree : ItemTree) (id : DefId) (name : String) :
    (definition tree id name).toOption = (definitionShape? tree id).map PathShape.write := by
  unfold definition definitionShape?
  cases tree.item? id with
  | none => rfl
  | some item =>
      simp only [Option.bind_eq_bind, Option.bind_some, toOption_bind, crateRoot_eq]
      cases rootShape? tree.crate 0 with
      | none => rfl
      | some root => exact foldlM_nested_eq _ root

/-- The path of a declared item ends with a name, so arguments have a place there. -/
theorem write_withArgs {tree : ItemTree} {id : DefId} {path : PathShape}
    (shape : definitionShape? tree id = some path) (args : List TyShape) :
    (path.withArgs args).write =
      instantiated path.write (!args.isEmpty) (TyShape.writeAll args) := by
  obtain ⟨parent, name, rfl⟩ : ∃ parent name, path = .named parent .type 0 name [] := by
    simp only [definitionShape?, Option.bind_eq_bind, Option.bind_eq_some_iff, List.foldlM_append,
      List.foldlM_cons, List.foldlM_nil, namedShape?, Option.map_eq_some_iff, Option.pure_def,
      Option.some.injEq] at shape
    obtain ⟨-, -, -, -, parent, -, -, ⟨name, -, rfl⟩, rfl⟩ := shape
    exact ⟨parent, name, rfl⟩
  simp [PathShape.withArgs, PathShape.write, instantiated]

/-! ### Types and paths -/

section

variable {tree : ItemTree}

theorem isEmpty_of_tyShapes {ts : List Ty} {shapes : List TyShape}
    (shape : tyShapes? tree ts = some shapes) : shapes.isEmpty = ts.isEmpty := by
  cases ts with
  | nil => cases shape; rfl
  | cons t ts =>
      simp only [tyShapes?, Option.bind_eq_bind, Option.bind_eq_some_iff, Option.pure_def,
        Option.some.injEq] at shape
      obtain ⟨-, -, -, -, rfl⟩ := shape
      rfl

theorem writeAll_append (ts us : List TyShape) :
    TyShape.writeAll (ts ++ us) = TyShape.writeAll ts ++ TyShape.writeAll us := by
  induction ts with
  | nil => rfl
  | cons t ts ih => simp [TyShape.writeAll, ih]

mutual

/-- A type is written exactly if it has a shape, and then as its shape is. -/
theorem encodeTy_eq : ∀ t : Ty, (encodeTy tree t).toOption = (tyShape? tree t).map TyShape.write
  | .prim _ | .never | .tuple [] | .param _ | .placeholder .. | .projection .. | .infer _
  | .error => rfl
  | .tuple (t :: ts) => by
      simp only [encodeTy, tyShape?, toOption_bind, encodeTys_eq (t :: ts), tyShapes?]
      cases tyShape? tree t <;> cases tyShapes? tree ts <;> rfl
  | .adt id name args => by
      simp only [encodeTy, tyShape?, toOption_bind, definition_eq, encodeTys_eq args]
      cases path : definitionShape? tree id with
      | none => rfl
      | some path' =>
          cases shapes : tyShapes? tree args with
          | none => rfl
          | some shapes' =>
              simp [TyShape.write, write_withArgs path, isEmpty_of_tyShapes shapes, toOption_pure]
  | .pointer k m t => by
      simp only [encodeTy, tyShape?, toOption_bind, encodeTy_eq t]
      cases tyShape? tree t <;> rfl
  | .array t length => by
      simp only [encodeTy, tyShape?, toOption_bind, encodeTy_eq t]
      cases tyShape? tree t <;> rfl
  | .slice t => by
      simp only [encodeTy, tyShape?, toOption_bind, encodeTy_eq t]
      cases tyShape? tree t <;> rfl
  | .fn _ receiver params ret _ => by
      simp only [encodeTy, tyShape?, toOption_bind, encodeReceiver_eq receiver,
        encodeTys_eq params, encodeTy_eq ret]
      cases receiverShapes? tree receiver <;> cases tyShapes? tree params <;>
        cases tyShape? tree ret <;>
        simp [toOption_pure, TyShape.write, writeAll_append]
  | .dyn bounds => by
      simp only [encodeTy, tyShape?, toOption_bind, encodeBounds_eq bounds]
      cases boundShapes? tree bounds <;> rfl

theorem encodeTys_eq : ∀ ts : List Ty,
    (encodeTys tree ts).toOption = (tyShapes? tree ts).map TyShape.writeAll
  | [] => rfl
  | t :: ts => by
      simp only [encodeTys, tyShapes?, toOption_bind, encodeTy_eq t, encodeTys_eq ts]
      cases tyShape? tree t <;> cases tyShapes? tree ts <;> rfl

theorem encodeReceiver_eq : ∀ receiver : Option Ty,
    (encodeReceiver tree receiver).toOption =
      (receiverShapes? tree receiver).map TyShape.writeAll
  | none => rfl
  | some t => by
      simp only [encodeReceiver, receiverShapes?, encodeTy_eq t]
      cases tyShape? tree t <;> simp [TyShape.writeAll]

theorem encodeBounds_eq : ∀ bounds : List DynBound,
    (encodeBounds tree bounds).toOption = (boundShapes? tree bounds).map PathShape.writeAll
  | [] => rfl
  | .mk id name args :: rest => by
      simp only [encodeBounds, boundShapes?, toOption_bind, definition_eq, encodeTys_eq args,
        encodeBounds_eq rest]
      cases path : definitionShape? tree id with
      | none => rfl
      | some path' =>
          cases shapes : tyShapes? tree args with
          | none => rfl
          | some shapes' =>
              cases boundShapes? tree rest <;>
                simp [PathShape.writeAll, write_withArgs path, isEmpty_of_tyShapes shapes,
                  toOption_pure]

end

mutual

/-- A path is written exactly if it has a shape, and then as its shape is. -/
theorem encodePath_eq : ∀ p : CanonicalPath,
    (encodePath tree p).toOption = (pathShape? tree p).map PathShape.write
  | .mk crate dis segments => by
      simp only [encodePath, pathShape?, toOption_bind, crateRoot_eq]
      cases rootShape? crate dis with
      | none => rfl
      | some root => exact encodeSegments_eq root segments

theorem encodeSegments_eq : ∀ (parent : PathShape) (segments : List CanonicalSegment),
    (encodeSegments tree parent.write segments).toOption =
      (segmentsShape? tree parent segments).map PathShape.write
  | _, [] => rfl
  | parent, segment :: rest => by
      simp only [encodeSegments, segmentsShape?, toOption_bind, encodeSegment_eq parent segment]
      cases segmentShape? tree parent segment with
      | none => rfl
      | some below => exact encodeSegments_eq below rest

theorem encodeSegment_eq : ∀ (parent : PathShape) (segment : CanonicalSegment),
    (encodeSegment tree parent.write segment).toOption =
      (segmentShape? tree parent segment).map PathShape.write
  | parent, .named name ns dis args => by
      simp only [encodeSegment, segmentShape?, toOption_bind, nested_eq, encodeTys_eq args]
      cases shapes : tyShapes? tree args with
      | none => cases namedShape? ns parent dis name [] <;> rfl
      | some shapes' =>
          rw [← isEmpty_of_tyShapes shapes]
          cases named : SymbolName.of? name <;>
            simp [namedShape?, named, toOption_pure, PathShape.write, instantiated]
  | parent, .traitImpl self trait dis _ => by
      simp only [encodeSegment, segmentShape?, toOption_bind, encodeTy_eq self,
        encodePath_eq trait]
      cases tyShape? tree self <;> cases pathShape? tree trait <;>
        simp [toOption_pure, PathShape.write]

end

end

/-- The symbol of a path is its shape, written down. -/
theorem symbol_eq (tree : ItemTree) (p : CanonicalPath) :
    (symbol tree p).toOption =
      (pathShape? tree p).map fun shape => String.ofList ("_R".toList ++ shape.write) := by
  simp only [symbol, toOption_bind, encodePath_eq]
  cases pathShape? tree p <;> rfl

end TraitEngine.Structural
