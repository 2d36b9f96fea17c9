import TraitEngine.Proofs.Asks.Basic
import TraitEngine.Proofs.Application
/-!
# Parameters that defaults leave open

The defaults of a trait are types over all of its parameters. When a bound is applied, the
arguments that are missing are filled from the defaults one after the other, each for the
arguments before it. So a default may name a parameter that has no argument yet: one that
comes at or after the place that is filled, or the receiver. Such a parameter is left open
(`TraitDecl.LeavesOpen`) and stays in the filled argument.

Nothing else does: if the written arguments keep to some parameters, the filled ones have
those and the parameters left open (`Predicate.within_fillSlots`).
-/

namespace TraitEngine

set_option autoImplicit false

/-! ## Where parameters come from -/

/-- How a parameter can get into a type: by its name, or through a trait object, whose missing
arguments are filled from defaults. -/
inductive TypeSource where
  | named (name : String)
  | object
  deriving DecidableEq, Repr

namespace TypeExpr

mutual

def sources : TypeExpr → List TypeSource
  | .path p => pathSources p
  | .ref _ t | .ptr _ t | .array t _ | .slice t => sources t
  | .tuple ts => listSources ts
  | .traitObject bounds => .object :: boundSources bounds
  | .never | .infer => []

def listSources : List TypeExpr → List TypeSource
  | [] => []
  | t :: ts => sources t ++ listSources ts

/-- A path of one name may be a parameter, one of two a projection on a parameter. -/
def pathSources : TypePath → List TypeSource
  | .mk segments _ => headSources segments ++ lastSources segments

def headSources : List PathSegment → List TypeSource
  | [.mk name _] | [.mk name _, _] => [.named name]
  | _ => []

def boundSources : List TypePath → List TypeSource
  | [] => []
  | .mk segments _ :: rest => lastSources segments ++ boundSources rest

def lastSources : List PathSegment → List TypeSource
  | [] => []
  | [.mk _ args] => optionalSources args
  | _ :: s :: rest => lastSources (s :: rest)

def optionalSources : Option GenericArgs → List TypeSource
  | none => []
  | some args => argsSources args

def argsSources : GenericArgs → List TypeSource
  | .mk args _ _ => argListSources args

def argListSources : List GenericArg → List TypeSource
  | [] => []
  | .lifetime _ :: rest => argListSources rest
  | .type t :: rest => sources t ++ argListSources rest

end

/-- The expression names the parameter, as the scope has it. -/
def Names (t : TypeExpr) (scope : Scope) (q : Param) : Prop :=
  .named q.name ∈ t.sources ∧ scope.lookup q.name = some q

end TypeExpr

/-! ## What defaults leave open -/

/-- A default names the parameter, and is filled in before the parameter has an argument. -/
def TraitDecl.LeavesOpen (decl : TraitDecl) (q : Param) : Prop :=
  ∃ receiver before p after e, decl.orderedParams = receiver :: (before ++ p :: after) ∧
    p.fallback = some e ∧ e.Names decl.scope q ∧
    (q.node = receiver.node ∨ ∀ b ∈ before, b.node ≠ q.node)

/-- Some declared trait leaves the parameter open. -/
def ItemTree.Leaks (tree : ItemTree) (q : Param) : Prop :=
  ∃ id decl, tree.trait? id = some decl ∧ decl.LeavesOpen q

instance (t : TypeExpr) (scope : Scope) (q : Param) : Decidable (t.Names scope q) :=
  inferInstanceAs (Decidable (_ ∧ _))

theorem TraitDecl.leavesOpen_iff {decl : TraitDecl} {q : Param} :
    decl.LeavesOpen q ↔ ∃ receiver ∈ decl.orderedParams.head?,
      ∃ i ∈ List.range decl.orderedParams.tail.length, ∃ p ∈ decl.orderedParams.tail[i]?,
        ∃ e ∈ p.fallback, e.Names decl.scope q ∧
          (q.node = receiver.node ∨ ∀ b ∈ decl.orderedParams.tail.take i, b.node ≠ q.node) := by
  constructor
  · rintro ⟨receiver, before, p, after, e, order, written, names, unbound⟩
    refine ⟨receiver, by simp [order], before.length, by simp [order], p, by simp [order], e,
      written, names, ?_⟩
    simpa [order] using unbound
  · rintro ⟨receiver, first, i, -, p, there, e, written, names, unbound⟩
    obtain ⟨others, order⟩ : ∃ others, decl.orderedParams = receiver :: others :=
      ⟨_, (List.cons_head?_tail first).symm⟩
    rw [order, List.tail_cons] at there unbound
    obtain ⟨bound, rfl⟩ := List.getElem?_eq_some_iff.1 there
    refine ⟨receiver, others.take i, others[i], others.drop (i + 1), e, ?_, written, names, unbound⟩
    rw [order, List.getElem_cons_drop, List.take_append_drop]

instance (decl : TraitDecl) (q : Param) : Decidable (decl.LeavesOpen q) :=
  decidable_of_iff _ TraitDecl.leavesOpen_iff.symm

theorem ItemTree.leaks_iff {tree : ItemTree} {q : Param} :
    tree.Leaks q ↔ ∃ id ∈ tree.ids, ∃ decl ∈ tree.trait? id, decl.LeavesOpen q :=
  ⟨fun ⟨id, decl, declared, opened⟩ => ⟨id, mem_ids_of_trait? declared, decl, declared, opened⟩,
    fun ⟨id, _, decl, declared, opened⟩ => ⟨id, decl, declared, opened⟩⟩

instance (tree : ItemTree) (q : Param) : Decidable (tree.Leaks q) :=
  decidable_of_iff _ ItemTree.leaks_iff.symm

/-- A parameter with its default lowered: what occurs in it the default names, or it leaked
into it. -/
structure TraitParam.Lowers (tree : ItemTree) (decl : TraitDecl) (p : TypeParam)
    (own : TraitParam) : Prop where
  param : own.param = p.toParam
  fallback : ∀ ty, own.fallback = some ty → ∃ e, p.fallback = some e ∧
    ∀ q ∈ ty.occurring, e.Names decl.scope q ∨ tree.Leaks q

/-- Parameters of a declared trait, their defaults lowered. -/
def ItemTree.Lowered (tree : ItemTree) (params : List TraitParam) : Prop :=
  ∃ id decl, tree.trait? id = some decl ∧
    List.Forall₂ (TraitParam.Lowers tree decl) decl.orderedParams params

/-! ## Filling the slots -/

/-- Whatever is bound keeps to some parameters. -/
def Within (ok : Param → Prop) (slots : List ArgSlot) : Prop :=
  ∀ slot ∈ slots, ∀ ty, slot.ty = some ty → ∀ q ∈ ty.occurring, ok q

/-- The slots of the first parameters, of which only the receiver has no argument. -/
structure Started (receiver : TypeParam) (before : List TypeParam) (done : List ArgSlot) :
    Prop where
  head : done.head? = some ⟨receiver.toParam, none⟩
  params : done.tail.map ArgSlot.param = before.map TypeParam.toParam
  bound : ∀ slot ∈ done.tail, slot.ty.isSome

section

variable {tree : ItemTree} {decl : TraitDecl} {receiver : TypeParam} {before : List TypeParam}
  {done : List ArgSlot} {ok : Param → Prop}

theorem Started.bind (started : Started receiver before done) {p : TypeParam} {own : TraitParam}
    (param : own.param = p.toParam) (ty : Ty) :
    Started receiver (before ++ [p]) (done ++ [own.bind ty]) := by
  obtain ⟨head, params, bound⟩ := started
  cases done with
  | nil => cases head
  | cons first rest =>
      refine ⟨head, ?_, ?_⟩
      · simpa [TraitParam.bind, param] using params
      · intro slot mem
        rcases List.mem_append.1 mem with mem | mem
        · exact bound slot mem
        · rw [List.mem_singleton.1 mem]
          rfl

/-- A parameter without an argument is the receiver, or none of those before. -/
theorem Started.lookup_eq_none (started : Started receiver before done) {q : Param}
    {span : Option Span} (unbound : (ArgList.of done span).lookup q = none) :
    q.node = receiver.node ∨ ∀ b ∈ before, b.node ≠ q.node := by
  obtain ⟨head, params, bound⟩ := started
  cases done with
  | nil => cases head
  | cons first rest =>
      obtain rfl := Option.some.inj head
      by_cases same : receiver.node = q.node
      · exact Or.inl same.symm
      · right
        simp only [ArgList.lookup, ArgList.toList, List.find?_cons] at unbound
        rw [show (receiver.toParam.node == q.node) = false from by
          simpa [TypeParam.toParam] using same] at unbound
        intro b mem there
        have named : b.toParam ∈ rest.map ArgSlot.param := by
          rw [show rest.map ArgSlot.param = _ from params]
          exact List.mem_map_of_mem mem
        obtain ⟨slot, mem, own⟩ := List.mem_map.1 named
        have found : (rest.find? fun slot => slot.param.node == q.node).isSome := by
          rw [List.find?_isSome]
          exact ⟨slot, mem, by simp [own, TypeParam.toParam, there]⟩
        obtain ⟨slot, found⟩ := Option.isSome_iff_exists.1 found
        rw [found] at unbound
        have some := bound slot (List.mem_of_find?_eq_some found)
        rw [show slot.ty = none from unbound] at some
        cases some

/-- What is bound to a parameter keeps to what the slots keep to. -/
theorem Within.lookup (within : Within ok done) {p : Param} {span : Option Span} {ty : Ty}
    (found : (ArgList.of done span).lookup p = some ty) : ∀ q ∈ ty.occurring, ok q := by
  obtain ⟨slot, first, bound⟩ := Option.bind_eq_some_iff.1 found
  exact within slot (List.mem_of_find?_eq_some first) ty bound

/-- An argument, written or filled from its default. -/
theorem within_argument (declared : ∃ id, tree.trait? id = some decl)
    (leaks : ∀ q, tree.Leaks q → ok q) (started : Started receiver before done)
    (within : Within ok done) {p : TypeParam} {after : List TypeParam}
    (order : decl.orderedParams = receiver :: (before ++ p :: after)) {own : TraitParam}
    (lowers : own.Lowers tree decl p) (written : Option Ty)
    (fine : ∀ ty, written = some ty → ∀ q ∈ ty.occurring, ok q) :
    ∀ q ∈ (own.argument done written).occurring, ok q := by
  cases written with
  | some ty => exact fine ty rfl
  | none =>
      intro q mem
      rw [TraitParam.argument, Option.getD_none] at mem
      cases default : own.fallback with
      | none =>
          rw [default] at mem
          cases mem
      | some d =>
          rw [default] at mem
          obtain ⟨e, written, named⟩ := lowers.fallback d default
          obtain ⟨r, occurs, mem⟩ := (Ty.mem_occurring_replace d).1 mem
          cases found : (ArgList.of done none).lookup r with
          | some ty =>
              rw [Ty.image, found] at mem
              exact within.lookup found q mem
          | none =>
              rw [Ty.image, found] at mem
              obtain rfl := List.mem_singleton.1 mem
              rcases named q occurs with named | leak
              · obtain ⟨id, declared⟩ := declared
                exact leaks q ⟨id, decl, declared, receiver, before, p, after, e, order, written,
                  named, started.lookup_eq_none found⟩
              · exact leaks q leak

/-- The arguments of a bound, written and filled, have the parameters of the written ones and
those that are left open. -/
theorem Predicate.within_fillSlots (declared : ∃ id, tree.trait? id = some decl)
    (leaks : ∀ q, tree.Leaks q → ok q) :
    ∀ (declParams : List TypeParam) (params : List TraitParam) (types : List Ty)
      {before : List TypeParam} {done : List ArgSlot},
      List.Forall₂ (TraitParam.Lowers tree decl) declParams params →
      decl.orderedParams = receiver :: (before ++ declParams) → Started receiver before done →
      Within ok done → (∀ ty ∈ types, ∀ q ∈ ty.occurring, ok q) →
      Within ok (fillSlots done params types)
  | [], _, _, _, _, .nil, _, _, within, _ => within
  | p :: declParams, own :: params, types, before, done, .cons lowers rest, order, started, within,
      written => by
      have fine := within_argument declared leaks started within order lowers types.head?
        fun ty first => written ty (List.mem_of_mem_head? first)
      rw [fillSlots_cons]
      refine within_fillSlots declared leaks declParams params types.tail rest (by rw [order]; simp)
        (started.bind lowers.param _) ?_ fun ty mem => written ty (List.mem_of_mem_tail mem)
      intro slot mem ty bound
      rcases List.mem_append.1 mem with mem | mem
      · exact within slot mem ty bound
      · obtain rfl := List.mem_singleton.1 mem
        obtain rfl := Option.some.inj bound
        exact fine

/-- Of a fresh predicate nothing is bound. -/
theorem Predicate.within_ofParams (id : DefId) (params : List TraitParam) (span : Span) :
    Within ok (ofParams id params span).args.toList := by
  intro slot mem ty bound
  unfold ofParams at mem
  split at mem
  · cases mem
  · obtain ⟨param, -, rfl⟩ := List.mem_map.1 mem
    cases bound

/-- Applying arguments to a fresh predicate. -/
theorem Predicate.within_apply {id : DefId} {params : List TraitParam} {span : Span}
    {applied : AppliedArgs} {p : Predicate} {mismatch : Option ArgMismatch}
    (lowered : tree.Lowered params) (leaks : ∀ q, tree.Leaks q → ok q)
    (written : ∀ ty, .type ty ∈ applied.args → ∀ q ∈ ty.occurring, ok q)
    (applies : (ofParams id params span).apply applied = .ok (p, mismatch)) :
    Within ok p.args.toList := by
  obtain ⟨own, decl, declared, lowers⟩ := lowered
  cases mismatch with
  | some cause =>
      obtain ⟨_, -, none, -⟩ | ⟨-, rfl⟩ := apply_cases applies
      · cases none
      · exact within_ofParams id params span
  | none =>
      cases order : decl.orderedParams with
      | nil =>
          rw [order] at lowers
          cases lowers
          cases applies
      | cons receiver others =>
          rw [order] at lowers
          cases lowers with
          | @cons _ self _ others' first rest =>
              obtain ⟨types, new, typed, -, -, filled, -, args⟩ :=
                apply_accepted (o := .ofParams id (self :: others') span) rfl applies
              rw [args]
              show Within ok (self.unbound :: new)
              rw [← filled]
              -- Filling starts with the receiver alone, and nothing put in for it.
              have started : Started receiver [] [self.unbound] := by
                refine ⟨?_, rfl, nofun⟩
                rw [TraitParam.unbound, first.param]
                rfl
              have fresh : Within ok [self.unbound] := by
                intro slot mem ty bound
                rw [List.mem_singleton.1 mem] at bound
                cases bound
              exact within_fillSlots ⟨own, declared⟩ leaks others others' types rest order started
                fresh fun ty mem => written ty (AppliedArgs.mem_types_iff typed |>.1 mem)

end

end TraitEngine
