import TraitEngine.Session
/-!
# Workloads

What is done to a session, as data: declarations, and requests to the analysis. The
two may come in any order. A request answers what it is asked for into the context;
the problems that it hands out, and that the context then no longer holds, are its
result here.
-/

namespace TraitEngine

set_option autoImplicit false

inductive Declaration where
  | trait (path : String) (clauses : List TraitClause)
  | wholeTrait (path : String) (decl : TraitDecl)
  | adt (kind : AdtKind) (path : String) (params : List String)
  | impl (self : TypeExpr) (clauses : List ImplClause)

inductive Request where
  | resolve (path : TypePath)
  | resolveDef (id : DefId) (span : Span)
  | lookup (path : TypePath)
  | lowerTy (scope : Scope) (t : TypeExpr)
  | lowerBound (scope : Scope) (isSuper : Bool) (path : TypePath)
  | lowerGenerics (generics : List GenericParam)
  | lowerItem (scope : Scope) (id : DefId) (self : Ty) (params : List TraitParam)
      (item : TraitItem)
  | checkBound (p : Predicate) (emit : Bool) (span : Span)
  | checkTrait (t : TraitRef) (emit : Bool) (span : Span)
  | implHeader (block : ImplBlock)
  | checkImpl (block : ImplBlock)
  | probe (receiver : Ty)
  | runPasses (passes : List Pass)
  | takeProblems

inductive Step where
  | declare (declaration : Declaration)
  | request (request : Request)

namespace ItemTree

def declare (tree : ItemTree) : Declaration → ItemTree
  | .trait path clauses => tree.addTrait path clauses
  | .wholeTrait path decl => tree.insertTrait path decl
  | .adt kind path params => tree.addAdt kind path params
  | .impl self clauses => tree.addImpl self clauses

def declareAll (tree : ItemTree) (declarations : List Declaration) : ItemTree :=
  declarations.foldl declare tree

end ItemTree

namespace Request

/-- Makes the request and returns the problems that it hands out. -/
def run (tree : ItemTree) : Request → Check (List Problem)
  | .resolve path => do
    let _ ← tree.resolveTrait path
    return []
  | .resolveDef id span => do
    let _ ← tree.resolveDef id span
    return []
  | .lookup path => do
    let _ ← tree.lookupTrait path
    return []
  | .lowerTy scope t => do
    let _ ← tree.lowerTy scope t
    return []
  | .lowerBound scope isSuper path => do
    let _ ← tree.lowerBound scope isSuper path
    return []
  | .lowerGenerics generics => do
    let _ ← tree.lowerGenerics generics
    return []
  | .lowerItem scope id self params item => do
    let _ ← Lowering.lowerItem tree tree.resolveDef scope id self params item
    return []
  | .checkBound p emit span => do
    let _ ← modifyGet (p.checkObjectSafety emit span)
    return []
  | .checkTrait t emit span => do
    let _ ← modifyGet (t.checkObjectSafety emit span)
    return []
  | .implHeader block => do
    let _ ← tree.lowerImplHeader block
    return []
  | .checkImpl block => do
    tree.checkImpl block
    return []
  | .probe receiver => do
    let _ ← tree.probe receiver
    return []
  | .runPasses passes => tree.runPasses passes
  | .takeProblems => Check.takeProblems

/-- Makes requests in order and returns all problems that they hand out. -/
def runAll (tree : ItemTree) : List Request → Check (List Problem)
  | [] => return []
  | request :: rest => do
    let handed ← request.run tree
    return handed ++ (← runAll tree rest)

end Request

namespace Session

def perform (s : Session) : Step → Except Fault (List Problem × Session)
  | .declare declaration => .ok ([], { s with tree := s.tree.declare declaration })
  | .request request => s.run (request.run s.tree)

/-- Performs steps in order and returns all problems that they hand out. -/
def performAll (s : Session) : List Step → Except Fault (List Problem × Session)
  | [] => .ok ([], s)
  | step :: rest => do
    let (handed, s) ← s.perform step
    let (later, s) ← s.performAll rest
    return (handed ++ later, s)

end Session

end TraitEngine
