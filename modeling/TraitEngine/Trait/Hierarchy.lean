import TraitEngine.Context
/-!
# The super-trait hierarchy

Searches along cached super-traits: which traits a trait implies, whether it may
stand behind `dyn`, and which trait declares an associated type. The graph may
have cycles and shared ancestors; a search remembers the traits it has visited,
so it nests at most as deep as there are cached traits.
-/

namespace TraitEngine

set_option autoImplicit false

/-- Whether `f` holds of some element, tried in order while the traits visited
are handed on. -/
def anyVisiting {α : Type} (f : α → List DefId → Bool × List DefId) :
    List α → List DefId → Bool × List DefId
  | [], seen => (false, seen)
  | x :: xs, seen =>
    match f x seen with
    | (true, seen) => (true, seen)
    | (false, seen) => anyVisiting f xs seen

def allVisiting {α : Type} (f : α → List DefId → Bool × List DefId) :
    List α → List DefId → Bool × List DefId
  | [], seen => (true, seen)
  | x :: xs, seen =>
    match f x seen with
    | (true, seen) => allVisiting f xs seen
    | (false, seen) => (false, seen)

namespace TraitRef

/-- A depth-first search for `goal`, nested at most `depth` times. -/
def reaches (cx : Context) (goal : TraitRef) : Nat → TraitRef → List DefId → Bool × List DefId
  | 0, _, seen => (false, seen)
  | depth + 1, t, seen =>
    if t.isEqual goal then (true, seen)
    else
      match t.id with
      | none => (false, seen)
      | some id =>
        if id ∈ seen then (false, seen)
        else
          anyVisiting (fun p seen =>
            match p.get? cx with
            | none => (false, seen)
            | some s => reaches cx goal depth s seen) t.supers (id :: seen)

/-- Whether an implementation of `t` implies one of `goal`. -/
def satisfies (t : TraitRef) (cx : Context) (goal : TraitRef) : Bool :=
  (reaches cx goal (cx.cache.size + 2) t []).1

/-- Whether nothing at or above `t` that is not yet visited offends. -/
def safeAbove (cx : Context) : Nat → TraitRef → List DefId → Bool × List DefId
  | 0, _, seen => (true, seen)
  | depth + 1, t, seen =>
    if t.id.any (· ∈ seen) then (true, seen)
    else
      let seen := t.id.toList ++ seen
      if !t.violations.isEmpty then (false, seen)
      else
        allVisiting (fun p seen =>
          match p.get? cx with
          | none => (true, seen)
          | some s => safeAbove cx depth s seen) t.supers seen

/-- The names of the direct super-traits that are found to offend. What one of
them visits is not searched again for the next. -/
def unsafeSupers (cx : Context) : List Predicate → List DefId → List String
  | [], _ => []
  | p :: ps, seen =>
    match p.get? cx with
    | none => unsafeSupers cx ps seen
    | some s =>
      let (safe, seen) := safeAbove cx (cx.cache.size + 1) s seen
      if safe then unsafeSupers cx ps seen else s.name :: unsafeSupers cx ps seen

/-- The reason why the trait cannot stand behind `dyn` at `span`, if there is one. -/
def objectSafetyProblem? (t : TraitRef) (cx : Context) (span : Span) : Option Problem :=
  let supers := unsafeSupers cx t.supers []
  if t.violations.isEmpty && supers.isEmpty then none
  else some (.notObjectSafe span t.name t.violations supers)

/-- Decides object safety and reports a failure if `emit` asks for it. -/
def checkObjectSafety (t : TraitRef) (emit : Bool) (span : Span) (cx : Context) :
    Bool × Context :=
  match t.objectSafetyProblem? cx span with
  | none => (true, cx)
  | some problem => (false, if emit then cx.report problem else cx)

end TraitRef

namespace Predicate

def checkObjectSafety (p : Predicate) (emit : Bool) (span : Span) (cx : Context) :
    Bool × Context :=
  match p.getChecked? cx with
  | some t => t.checkObjectSafety emit span cx
  | none => (false, cx)

end Predicate

namespace Context

/-- The traits named by the super-traits of a cached trait, in order. -/
def superIds (cx : Context) (id : DefId) : List DefId :=
  ((cx.trait? id).map fun t => t.supers.filterMap Predicate.trait).getD []

/-- How many super-traits the cached traits have together. -/
def superCount (cx : Context) : Nat :=
  (cx.cache.values.flatMap TraitRef.supers).length

/-- Takes traits off a stack, the first one first, until one declares the
associated type; the super-traits of a trait that does not go on top. -/
def searchAssocType (tree : ItemTree) (cx : Context) (name : String) :
    Nat → List DefId → List DefId → Option TraitDecl
  | 0, _, _ => none
  | _ + 1, [], _ => none
  | steps + 1, id :: rest, seen =>
    if id ∈ seen then searchAssocType tree cx name steps rest seen
    else
      match tree.trait? id with
      | none => searchAssocType tree cx name steps rest (id :: seen)
      | some decl =>
        if decl.declaresType name then some decl
        else searchAssocType tree cx name steps (cx.superIds id ++ rest) (id :: seen)

/-- The trait that declares the associated type, searched from the given traits
upwards. Every cached trait is expanded once, which bounds the steps. -/
def findAssocType? (tree : ItemTree) (cx : Context) (start : List DefId) (name : String) :
    Option TraitDecl :=
  searchAssocType tree cx name (start.length + cx.superCount + 1) start []

end Context

end TraitEngine
