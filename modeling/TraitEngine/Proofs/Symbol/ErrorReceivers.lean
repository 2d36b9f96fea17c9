import TraitEngine.Proofs.Resolved.Signatures
import TraitEngine.Proofs.Specialization
import TraitEngine.Proofs.Symbol.Receivers
/-!
# Symbols and receivers with errors

A symbol is refused if the type of the item has an error. The receiver goes into the symbol in
two ways: into that type, for the trait's own receiver, and into the implementation segment of
the path. Only the type is looked at. So a receiver with an error is refused for the items whose
type depends on the receiver (`hasError_typeFor`), which all methods are; for the others the
symbol is made as if the receiver were fine (`Session.performAll_errorReceiver`).

Those others are the associated types, and each constant and function without `self` whose type
does not name `Self`. Either scheme writes the error into the symbol (`errorReceiver_mangled`).
-/

namespace TraitEngine

set_option autoImplicit false

open Predicate

namespace OfferedItem

/-- The type of the item is taken as declared: it is an associated type, or does not name the
receiver. -/
def IgnoresReceiver (o : OfferedItem) : Prop :=
  o.item.kind = .type ∨ ∀ p ∈ o.item.ty.occurring, p.node ≠ o.self.node

instance (o : OfferedItem) : Decidable o.IgnoresReceiver := inferInstanceAs (Decidable (_ ∨ _))

variable {o : OfferedItem} {receiver : Ty}

theorem typeFor_of_ignoresReceiver (ignores : o.IgnoresReceiver) :
    o.typeFor receiver = o.item.ty := by
  unfold typeFor
  split
  · rfl
  · rename_i other
    have unnamed := ignores.resolve_left fun kind => other (by simp [kind])
    exact (specialize_receiverArgs_eq_self_iff _ _ _).2 fun p mem own => absurd own (unnamed p mem)

/-- A receiver with an error brings it into every type that depends on the receiver. -/
theorem hasError_typeFor (bad : receiver.hasError = true) (depends : ¬ o.IgnoresReceiver) :
    (o.typeFor receiver).hasError = true := by
  simp only [IgnoresReceiver, not_or, not_forall, not_not] at depends
  obtain ⟨kind, p, mem, own⟩ := depends
  rw [typeFor, if_neg (by simpa using kind)]
  refine (Ty.hasError_replace _).2 (Or.inr ⟨p, mem, ?_⟩)
  rwa [image_receiverArgs, if_pos own]

theorem not_ignoresReceiver
    (named : o.item.kind = .fn ∧ o.self ∈ o.item.ty.occurring) : ¬ o.IgnoresReceiver := by
  rintro (type | unnamed)
  · rw [named.1] at type
    cases type
  · exact unnamed o.self named.2 rfl

end OfferedItem

/-- A method names the receiver of its trait in its `self`. -/
theorem ItemRef.Renders.receiver_occurs {params : List TraitParam} {receiver : Param}
    {item : TraitItem} {i : ItemRef} (renders : i.Renders params (.param receiver) item)
    (fine : i.isError = false) {f : FnDecl} (method : item.kind = .fn f)
    (self : f.self.isSome = true) : i.kind = .fn ∧ receiver ∈ i.ty.occurring := by
  obtain ⟨own, written⟩ := Option.isSome_iff_exists.1 self
  obtain ⟨resolves, signature⟩ := renders
  cases resolves with
  | error nameless => cases fine
  | ok named ty =>
      obtain ⟨params', ret, rfl⟩ := signature f named method
      refine ⟨by rw [method]; rfl, ?_⟩
      cases own <;> simp [written, Lowering.receiverTy, Ty.ref, Ty.refMut, Ty.occurring,
        Ty.occurringOption]

namespace Session

variable {s : Session}

theorem symbol_of_hasError {ty : Ty} (bad : ty.hasError = true) (path : CanonicalPath) :
    s.symbol ty path = .error (.errorType path.text) :=
  if_pos bad

/-- For a receiver with an error, the symbol of an item that is offered. -/
theorem memberSymbol_errorReceiver {receiver : Ty} (bad : receiver.hasError = true)
    (path : TypePath) {name : String} {t : TraitRef} {o : OfferedItem}
    (offered : s.offers? t name = some o) :
    s.memberSymbol receiver path name t =
      if o.IgnoresReceiver then s.symbol o.item.ty (o.pathFor s.config.crate receiver name)
      else .error (.errorType (o.pathFor s.config.crate receiver name).text) := by
  have made := memberSymbol_eq (s := s) receiver path name t
  rw [offered] at made
  rw [made]
  split
  · rename_i ignores
    rw [OfferedItem.typeFor_of_ignoresReceiver ignores]
  · rename_i depends
    exact symbol_of_hasError (OfferedItem.hasError_typeFor bad depends) _

section

variable {config : Config} {steps : List Step} {handed : List Problem}
  (ran : (ofConfig config).performAll steps = .ok (handed, s)) (settled : s.Settled)
  (receivers : s.tree.HasReceivers) {path : TypePath} {t : TraitRef} {cx : Context}
  (resolved : s.tree.resolveTrait path s.context = .ok (t, cx))

include ran settled receivers resolved

/-- After any steps, the reference that a path is resolved to is that of its trait, and has the
items that the trait declares. -/
theorem resolveTrait_renders (fine : t.isError = false) :
    ∃ id, s.tree.resolveTraitPath path = .ok id ∧ cx.trait? id = some t ∧ t.id = some id ∧
      s.tree.Renders id t := by
  obtain ⟨id, named, cached⟩ := ItemTree.resolveTrait_caches resolved fine
  obtain ⟨t', cx', resolved', performed, settled'⟩ := settled.perform_resolve receivers path
  cases resolved.symm.trans resolved'
  -- Asked for as one more step, the reference is among those that the steps leave in the cache.
  have last : s.performAll [.request (.resolve path)] = .ok ([], { s with context := cx }) := by
    simp only [performAll, performed, bind, Except.bind]
    rfl
  obtain ⟨own, -⟩ := settled'.idle.coherent.cached_shape _ (Table.mem_entries_of_get? cached)
  exact ⟨id, named, cached, own, performAll_renders (performAll_append ran last) cached⟩

/-- After any steps, an item that is offered is what the trait of that path declares under its
name. -/
theorem offers?_renders {name : String} {o : OfferedItem}
    (offered : { s with context := cx }.offers? t name = some o) :
    ∃ id decl item, s.tree.resolveTraitPath path = .ok id ∧ s.tree.trait? id = some decl ∧
      decl.item? name = some item ∧ o.item.Renders t.params (.param o.self) item := by
  obtain ⟨own, -, same, receiver, found, -⟩ := offers?_eq_some_iff.1 offered
  obtain ⟨id, named, cached, same', renders⟩ :=
    resolveTrait_renders ran settled receivers resolved (isError_of_offers? offered)
  cases same.symm.trans same'
  rw [cached, Option.bind_some] at found
  obtain ⟨decl, item, declared, asked, made⟩ := renders.item receiver found
  exact ⟨own, decl, item, named, declared, asked, made⟩

end

/-- After any steps, an item has a symbol for a receiver with an error only if its type ignores
the receiver; the symbol is then that of the declared type, at the path for this receiver. For
every other item the type is refused, so for each method that takes `self`. -/
theorem performAll_errorReceiver (config : Config) (steps : List Step)
    (receivers : ((ItemTree.empty config.crate).after steps).HasReceivers) {receiver : Ty}
    (bad : receiver.hasError = true) (path : TypePath) (name : String) :
    ∃ handed s t cx r, (ofConfig config).performAll steps = .ok (handed, s) ∧
      s.tree.resolveTrait path s.context = .ok (t, cx) ∧
      s.traitItemSymbol receiver path name = .ok (r, { s with context := cx }) ∧
      ({ s with context := cx }.offers? t name = none →
        r = .error (.unresolvedTrait path.plain) ∨ r = .error (.unknownItem t.name name)) ∧
      (∀ o, { s with context := cx }.offers? t name = some o → r =
        if o.IgnoresReceiver then s.symbol o.item.ty (o.pathFor s.config.crate receiver name)
        else .error (.errorType (o.pathFor s.config.crate receiver name).text)) ∧
      ∀ id decl item f, s.tree.resolveTraitPath path = .ok id → s.tree.trait? id = some decl →
        decl.item? name = some item → item.kind = .fn f → f.self.isSome = true →
          ∃ e, r = .error e := by
  obtain ⟨handed, s, ran, settled, own⟩ := performAll_settled config steps receivers
  obtain ⟨t, cx, resolved, -⟩ := settled.perform_resolve own path
  have missing (none : { s with context := cx }.offers? t name = none) :
      { s with context := cx }.memberSymbol receiver path name t =
          .error (.unresolvedTrait path.plain) ∨
        { s with context := cx }.memberSymbol receiver path name t =
          .error (.unknownItem t.name name) := by
    have refused := memberSymbol_eq (s := { s with context := cx }) receiver path name t
    rwa [none] at refused
  have made (o : OfferedItem) (offered : { s with context := cx }.offers? t name = some o) :=
    memberSymbol_errorReceiver bad path offered
  refine ⟨handed, s, t, cx, _, ran, resolved, traitItemSymbol_of_resolved resolved receiver name,
    missing, made, fun id decl item f named declared found method self => ?_⟩
  cases offered : { s with context := cx }.offers? t name with
  | none => exact (missing offered).elim (⟨_, ·⟩) (⟨_, ·⟩)
  | some o =>
      obtain ⟨id', decl', item', named', declared', found', renders⟩ :=
        offers?_renders ran settled own resolved offered
      cases named.symm.trans named'
      cases declared.symm.trans declared'
      cases found.symm.trans found'
      obtain ⟨-, -, -, -, -, fine, -⟩ := offers?_eq_some_iff.1 offered
      have depends := OfferedItem.not_ignoresReceiver (renders.receiver_occurs fine method self)
      exact ⟨_, (made o offered).trans (if_neg depends)⟩

/-- A trait with an item of each kind. -/
def kinds : List Step := [.declare (.trait "T" [.assocType "Out" [] none,
  .assocConst "N" (.ofText "u8") none, .method "make" [], .method "f" [.self .ref]])]

/-- The method is refused for a reference to the error type. -/
theorem performAll_errorReceiver_kinds :
    ((ItemTree.empty "main").after kinds).HasReceivers ∧ (Ty.ref .error).hasError = true ∧
      ∃ handed s cx, (ofConfig {}).performAll kinds = .ok (handed, s) ∧
        s.traitItemSymbol (.ref .error) (.ofText "T") "f" = .ok
          (.error (.errorType "main::<&<error> as main::T>::f"), { s with context := cx }) := by
  have receivers : ((ItemTree.empty "main").after kinds).HasReceivers := by decide +kernel
  have bad : (Ty.ref .error).hasError = true := rfl
  obtain ⟨handed, s, t, cx, r, ran, resolved, made, -, told, -⟩ :=
    performAll_errorReceiver {} kinds receivers bad (.ofText "T") "f"
  have seen : ((ofConfig {}).performAll kinds).toOption.bind (fun out =>
      (out.2.tree.resolveTrait (.ofText "T") out.2.context).toOption.bind fun found =>
        ({ out.2 with context := found.2 }.offers? found.1 "f").map fun o : OfferedItem =>
          (decide o.IgnoresReceiver, (o.pathFor out.2.config.crate (.ref .error) "f").text)) =
      some (false, "main::<&<error> as main::T>::f") := by
    decide +kernel
  rw [ran] at seen
  simp only [Except.toOption, Option.bind_some, resolved] at seen
  obtain ⟨o, offered, seen⟩ := Option.map_eq_some_iff.1 seen
  obtain ⟨depends, text⟩ := Prod.mk.inj seen
  refine ⟨receivers, bad, handed, s, cx, ran, ?_⟩
  rw [made, told o offered, if_neg (of_decide_eq_false depends), text]

/-- In both schemes an associated type, a constant and a function without `self` have symbols for
the error type. -/
theorem errorReceiver_mangled :
    let s (scheme : SymbolScheme) : Session :=
      { ofConfig { scheme } with tree := (ItemTree.empty "main").after kinds }
    Ty.error.hasError = true ∧ ∀ scheme,
      (ofConfig { scheme }).performAll kinds = .ok ([], s scheme) ∧
      ∀ name ∈ ["Out", "N", "make"], ∃ x s',
        (s scheme).traitItemSymbol .error (.ofText "T") name = .ok (.ok x, s') := by
  refine ⟨rfl, fun scheme => ⟨rfl, ?_⟩⟩
  simp only [List.forall_mem_cons, List.not_mem_nil, false_imp_iff, implies_true, and_true]
  cases scheme with
  | legacy =>
      exact ⟨⟨"_ZN4main41_$LT$$LT$error$GT$$u20$as$u20$main..T$GT$3Out17h836dbc792a1285a7E",
          symbol_of_observed (by decide +kernel)⟩,
        ⟨"_ZN4main41_$LT$$LT$error$GT$$u20$as$u20$main..T$GT$1N17h5aa0733055c91bb0E",
          symbol_of_observed (by decide +kernel)⟩,
        ⟨"_ZN4main41_$LT$$LT$error$GT$$u20$as$u20$main..T$GT$4make17h509e08de287c8dc4E",
          symbol_of_observed (by decide +kernel)⟩⟩
  | v0 =>
      exact ⟨⟨"_RNvXC4mainpNtC4main1T3Out", symbol_of_observed (by decide +kernel)⟩,
        ⟨"_RNvXC4mainpNtC4main1T1N", symbol_of_observed (by decide +kernel)⟩,
        ⟨"_RNvXC4mainpNtC4main1T4make", symbol_of_observed (by decide +kernel)⟩⟩

end Session

end TraitEngine
