import TraitEngine.Proofs.Symbol.Receivers
/-!
# Symbols and instantiations of a trait

The path of a trait, as it is given for a symbol, names the trait and nothing else: what a
symbol is made of is known from the receiver and from the reference that the trait's
declaration resolves to. In the implementation segment the trait's own parameters stand
where its arguments would be, and so they do in the type of the item.

All instantiations of a trait have the same symbols therefore
(`Session.traitItemSymbol_instantiations`), whatever the arguments are and in either scheme.
-/

namespace TraitEngine.Session

set_option autoImplicit false

variable {s s₁ s₂ : Session} {receiver : Ty} {path path' : TypePath} {name x : String} {id : DefId}

theorem trait_of_offers? {t : TraitRef} {o : OfferedItem} (offered : s.offers? t name = some o) :
    ∃ canonical, t.id.bind s.tree.canonicalPath? = some canonical ∧
      o.trait = canonical.withArgs (t.params.tail.map TraitParam.ty) := by
  obtain ⟨id, canonical, own, -, -, -, path, args⟩ := offers?_eq_some_iff.1 offered
  exact ⟨canonical, by rw [own, Option.bind_some, path], args⟩

theorem traitItemSymbol_of_cached {t : TraitRef} (named : s.tree.resolveTraitPath path = .ok id)
    (cached : s.context.trait? id = some t) :
    s.traitItemSymbol receiver path name = .ok (s.memberSymbol receiver path name t, s) :=
  traitItemSymbol_of_resolved (ItemTree.resolveTrait_cached named cached) receiver name

/-- A symbol of an item is the symbol for every path that names the trait, now and later. Its
path has the trait's own parameters for arguments. -/
theorem traitItemSymbol_instantiations (named : s.tree.resolveTraitPath path = .ok id)
    (named' : s.tree.resolveTraitPath path' = .ok id)
    (made : s.traitItemSymbol receiver path name = .ok (.ok x, s₁)) (between : s₁.Later s₂) :
    s₂.traitItemSymbol receiver path' name = .ok (.ok x, s₂) ∧
      ∃ t o canonical, s₁.context.trait? id = some t ∧ s₁.offers? t name = some o ∧
        t.id.bind s.tree.canonicalPath? = some canonical ∧
        o.trait = canonical.withArgs (t.params.tail.map TraitParam.ty) ∧
        s.symbol (o.typeFor receiver) (o.pathFor s.config.crate receiver name) = .ok x := by
  obtain ⟨t, resolved, config, tree, symbol⟩ := traitItemSymbol_eq_ok made
  obtain ⟨o, offered, own⟩ := memberSymbol_eq_ok_iff.1 symbol
  obtain ⟨_, found, cached⟩ := ItemTree.resolveTrait_caches resolved (isError_of_offers? offered)
  cases named.symm.trans found
  obtain ⟨canonical, declared, written⟩ := trait_of_offers? offered
  constructor
  · have later : s₂.tree.resolveTraitPath path' = .ok id := by
      rw [between.tree, tree]
      exact named'
    have again : s₂.memberSymbol receiver path' name t = .ok x := by
      refine memberSymbol_eq_ok_iff.2 ⟨o, between.offers? offered, ?_⟩
      rw [Session.symbol, between.config, between.tree]
      exact own
    rw [traitItemSymbol_of_cached later (between.cached cached), again]
  · refine ⟨t, o, canonical, cached, offered, tree ▸ declared, written, ?_⟩
    rw [Session.symbol, ← config, ← tree]
    exact own

/-- A trait `Into<T>` with a method `f`, and a struct `R`. -/
def intoTrait (scheme : SymbolScheme) : Session where
  config := { scheme }
  tree := (ItemTree.empty "main").declareAll [.trait "Into" [.typeParam "T" [] none,
    .method "f" [.self .ref]], .adt .struct "R" []]
  context := { limit := 128 }
  files := #[]

/-- The path `Into<arg>`. -/
def intoPath (arg : TypeExpr) : TypePath := (TypePath.ofText "Into").withArgs [.type arg] []

theorem traitItemSymbol_instantiations_into :
    let s := intoTrait .v0
    ∃ x s₁, s.traitItemSymbol (.adt ⟨1⟩ "R" []) (intoPath (.ofText "u8")) "f" = .ok (.ok x, s₁) ∧
      s₁.traitItemSymbol (.adt ⟨1⟩ "R" []) (intoPath (.ofText "u16")) "f" = .ok (.ok x, s₁) := by
  intro s
  obtain ⟨⟨symbol, s₁⟩, made, seen⟩ := ok_of_observed
    (show (s.traitItemSymbol (.adt ⟨1⟩ "R" []) (intoPath (.ofText "u8")) "f").toOption.map
      (·.1.toOption) = some (some "_RNvXC4mainNtC4main1RINtC4main4IntopE1f") by decide +kernel)
  cases symbol with
  | error e => cases seen
  | ok x => exact ⟨x, s₁, made, (traitItemSymbol_instantiations rfl rfl made (.refl s₁)).1⟩

/-- The arguments `u8` and `u16` are different types, written and encoded differently, and give
one symbol under either scheme. -/
theorem traitItemSymbol_uninstantiated :
    let s := intoTrait .legacy
    let t := intoTrait .v0
    (∃ a b, s.tree.lowerTy {} (.ofText "u8") s.context = .ok (a, s.context) ∧
      s.tree.lowerTy {} (.ofText "u16") s.context = .ok (b, s.context) ∧ a.text ≠ b.text ∧
      (Structural.encodeTy s.tree a).toOption ≠ (Structural.encodeTy s.tree b).toOption) ∧
    (∃ x s₁ s₂,
      s.traitItemSymbol (.adt ⟨1⟩ "R" []) (intoPath (.ofText "u8")) "f" = .ok (.ok x, s₁) ∧
      s₁.traitItemSymbol (.adt ⟨1⟩ "R" []) (intoPath (.ofText "u16")) "f" = .ok (.ok x, s₂)) ∧
    ∃ x t₁ t₂,
      t.traitItemSymbol (.adt ⟨1⟩ "R" []) (intoPath (.ofText "u8")) "f" = .ok (.ok x, t₁) ∧
      t₁.traitItemSymbol (.adt ⟨1⟩ "R" []) (intoPath (.ofText "u16")) "f" = .ok (.ok x, t₂) := by
  intro s t
  refine ⟨⟨.prim (.uint .w8), .prim (.uint .w16), rfl, rfl, by decide, by decide⟩, ?_, ?_⟩
  · exact ⟨"_ZN4main41_$LT$R$u20$as$u20$main..Into$LT$T$GT$$GT$1f17h878a045e7aeeb2d8E",
      traitItemSymbol_of_observed (by decide +kernel)⟩
  · exact ⟨"_RNvXC4mainNtC4main1RINtC4main4IntopE1f",
      traitItemSymbol_of_observed (by decide +kernel)⟩

end TraitEngine.Session
