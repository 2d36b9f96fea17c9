import TraitEngine.Proofs.Resolved.Signatures
/-!
# Items that keep a trait from standing behind `dyn`

Whether an item offends is decided on the resolved item, by its kind and its type. Both are read
off the declaration (`TraitItem.violation?`), whatever else the item names: a constant offends, a
function without a receiver does, and so does a method with type parameters of its own, not one
with lifetimes only. An item without a name becomes an error and does not count, and neither does
a second item of a name. So the offending items of a cached trait are those of its declaration
(`performAll_violations`).
-/

namespace TraitEngine

set_option autoImplicit false

/-! ## Resolved items -/

/-- The item is an associated constant, a function without a receiver or a method with type
parameters of its own. -/
inductive ItemRef.Offends (i : ItemRef) : Prop where
  | const (kind : i.kind = .const)
  | noReceiver {name : String} {params : List Ty} {ret : Ty} {own : List Param}
      (kind : i.kind = .fn) (ty : i.ty = .fn name none params ret own)
  | generic {name : String} {receiver : Ty} {params : List Ty} {ret : Ty} {p : Param}
      {own : List Param} (kind : i.kind = .fn)
      (ty : i.ty = .fn name (some receiver) params ret (p :: own))

namespace ItemRef

theorem isSome_violation?_iff (i : ItemRef) : i.violation?.isSome = true ↔ i.Offends := by
  constructor
  · intro found
    simp only [violation?] at found
    split at found
    · rename_i kind
      exact .const kind
    · rename_i kind ty
      exact .noReceiver kind ty
    · rename_i kind ty
      exact .generic kind ty
    · cases found
  · intro offends
    cases offends with
    | const kind => simp only [violation?, kind, Option.isSome_some]
    | noReceiver kind ty => simp only [violation?, kind, ty, Option.isSome_some]
    | generic kind ty => simp only [violation?, kind, ty, Option.isSome_some]

end ItemRef

theorem TraitRef.violations_ne_nil_iff (t : TraitRef) :
    t.violations ≠ [] ↔ ∃ i ∈ t.items, i.Offends := by
  simp only [violations, ne_eq, List.filterMap_eq_nil_iff, not_forall, exists_prop,
    ← ItemRef.isSome_violation?_iff, Option.isSome_iff_ne_none]

/-! ## Declared items -/

/-- The declared item is an associated constant, a function without a receiver or a method with
type parameters of its own, and has a name. -/
inductive TraitItem.Offends (item : TraitItem) : Prop where
  | const {t : TypeExpr} {body : Option Body} (named : item.name ≠ "")
      (kind : item.kind = .const t body)
  | noReceiver {decl : FnDecl} (named : item.name ≠ "") (kind : item.kind = .fn decl)
      (none : decl.self = none)
  | generic {decl : FnDecl} {p : TypeParam} (named : item.name ≠ "") (kind : item.kind = .fn decl)
      (own : .type p ∈ decl.generics)

namespace TraitItem

/-- What keeps the declared item from being used behind `dyn`. -/
def violation? (item : TraitItem) : Option Violation :=
  if item.name = "" then none
  else match item.kind with
    | .type .. => none
    | .const .. => some ⟨.assocConst, item.name, item.span⟩
    | .fn decl =>
      if decl.self.isNone then some ⟨.noReceiver, item.name, item.span⟩
      else if (decl.generics.filterMap GenericParam.type?).isEmpty then none
      else some ⟨.genericMethod, item.name, item.span⟩

theorem generics_isEmpty_iff {decl : FnDecl} :
    (decl.generics.filterMap GenericParam.type?).isEmpty = false ↔
      ∃ p, GenericParam.type p ∈ decl.generics := by
  rw [← Bool.not_eq_true, List.isEmpty_iff, List.filterMap_eq_nil_iff, not_forall]
  constructor
  · rintro ⟨generic, own⟩
    cases generic with
    | lifetime => exact absurd (fun _ => rfl) own
    | type p => exact ⟨p, of_not_not fun absent => own fun mem => absurd mem absent⟩
  · rintro ⟨p, mem⟩
    exact ⟨.type p, fun none => Option.some_ne_none p (none mem)⟩

theorem isSome_violation?_iff (item : TraitItem) :
    item.violation?.isSome = true ↔ item.Offends := by
  by_cases named : item.name = ""
  · have fine : ¬ item.Offends := by
      intro offends
      cases offends <;> contradiction
    simp [violation?, named, fine]
  · cases kind : item.kind with
    | type bounds fallback =>
        have fine : ¬ item.Offends := by
          intro offends
          cases offends with
          | const _ other | noReceiver _ other _ | generic _ other _ =>
              rw [kind] at other
              cases other
        simp [violation?, named, kind, fine]
    | const t body =>
        simp only [violation?, if_neg named, kind, Option.isSome_some, true_iff]
        exact .const named kind
    | fn decl =>
        cases self : decl.self with
        | none =>
            simp only [violation?, if_neg named, kind, self, Option.isNone_none, if_true,
              Option.isSome_some, true_iff]
            exact .noReceiver named kind self
        | some receiver =>
            have generic : item.Offends ↔ ∃ p, GenericParam.type p ∈ decl.generics := by
              constructor
              · intro offends
                cases offends with
                | const _ other =>
                    rw [kind] at other
                    cases other
                | noReceiver _ same none =>
                    cases kind.symm.trans same
                    rw [self] at none
                    cases none
                | @generic _ p _ same own =>
                    cases kind.symm.trans same
                    exact ⟨p, own⟩
              · rintro ⟨p, own⟩
                exact .generic named kind own
            rw [generic, ← generics_isEmpty_iff]
            simp only [violation?, if_neg named, kind, self, Option.isNone_some]
            cases (decl.generics.filterMap GenericParam.type?).isEmpty <;> simp

end TraitItem

/-- The offending items of the declaration, the first item of each name only. -/
def TraitDecl.violations (decl : TraitDecl) : List Violation :=
  (TraitItem.firsts decl.items).filterMap TraitItem.violation?

theorem TraitDecl.violations_ne_nil_iff (decl : TraitDecl) :
    decl.violations ≠ [] ↔ ∃ item ∈ TraitItem.firsts decl.items, item.Offends := by
  simp only [violations, ne_eq, List.filterMap_eq_nil_iff, not_forall, exists_prop,
    ← TraitItem.isSome_violation?_iff, Option.isSome_iff_ne_none]

/-! ## Every cached trait -/

/-- Whether a resolved item offends is seen from its declaration. -/
theorem ItemRef.Renders.violation? {params : List TraitParam} {self : Ty} {item : TraitItem}
    {i : ItemRef} (h : i.Renders params self item) : i.violation? = item.violation? := by
  obtain ⟨resolves, signature⟩ := h
  cases resolves with
  | error nameless => simp [TraitItem.violation?, nameless, ItemRef.violation?, ItemRef.error]
  | ok named ty =>
      cases kind : item.kind with
      | type bounds fallback | const t body =>
          simp [ItemRef.violation?, TraitItemKind.resolved, TraitItem.violation?, named, kind]
      | fn decl =>
          obtain ⟨params', ret, rfl⟩ := signature decl named kind
          simp only [ItemRef.violation?, TraitItemKind.resolved, TraitItem.violation?,
            if_neg named, kind]
          cases decl.self with
          | none => rfl
          | some receiver => cases decl.generics.filterMap GenericParam.type? <;> rfl

/-- The offending items of the trait are those of its declaration. -/
def ItemTree.OffendsAsDeclared (tree : ItemTree) (id : DefId) (t : TraitRef) : Prop :=
  ∃ decl, tree.trait? id = some decl ∧ t.violations = decl.violations

/-- After any declarations and requests, the offending items of a cached trait are those of its
declaration. -/
theorem Session.performAll_violations {config : Config} {steps : List Step}
    {handed : List Problem} {s : Session}
    (ran : (ofConfig config).performAll steps = .ok (handed, s)) {id : DefId}
    {t : TraitRef} (found : s.context.trait? id = some t) : s.tree.OffendsAsDeclared id t := by
  obtain ⟨decl, _, _, declared, -, -, each⟩ := performAll_renders ran found
  refine ⟨decl, declared, ?_⟩
  rw [TraitRef.violations, TraitDecl.violations]
  generalize TraitItem.firsts decl.items = firsts, t.items = items at each
  induction each with
  | nil => rfl
  | cons first _ ih => rw [List.filterMap_cons, List.filterMap_cons, first.violation?, ih]

end TraitEngine
