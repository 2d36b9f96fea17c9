import TraitEngine.Impl
/-!
# Analysis passes

A pass goes over the whole crate; its problems are collected and taken from the
context before the next pass starts.
-/

namespace TraitEngine

set_option autoImplicit false

inductive Pass where
  | implHeaders
  | traits
  | impls
  deriving DecidableEq, Repr

namespace Pass

/-- The passes of a full analysis: the self types of implementations are known
before anything is checked against them. -/
def standard : List Pass := [.implHeaders, .traits, .impls]

def run (tree : ItemTree) : Pass → Check Unit
  | .implHeaders => for block in tree.impls do
      let _ ← tree.lowerImplHeader block
  | .traits => for id in tree.ids do
      if let some decl := tree.trait? id then
        let _ ← tree.resolveDef id decl.span
  | .impls => for block in tree.impls do
      tree.checkImpl block

end Pass

namespace Check

/-- The problems reported so far, which are dropped from the context. -/
def takeProblems : Check (List Problem) :=
  modifyGet fun cx => (cx.problems, { cx with problems := [] })

end Check

namespace ItemTree

/-- Runs the passes in order and returns what they report, pass by pass. -/
def runPasses (tree : ItemTree) : List Pass → Check (List Problem)
  | [] => return []
  | pass :: rest => do
    pass.run tree
    let reported ← Check.takeProblems
    return reported ++ (← tree.runPasses rest)

end ItemTree

end TraitEngine
