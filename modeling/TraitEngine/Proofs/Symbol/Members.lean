import TraitEngine.Proofs.Lifecycle
import TraitEngine.Proofs.WrittenArgs
import TraitEngine.Session
/-!
# Symbols of trait items

What goes into the symbol of a trait's item for a receiver: the item, the receiver's own
parameter and the trait's path are the same for all receivers (`Session.offers?`), the type
of the item and the implementation segment of the path are made from them
(`memberSymbol_eq_ok_iff`).

The trait is resolved anew for each symbol. Once that has given a reference, it gives the
same one ever after (`resolveTrait_again`), as long as nothing is declared (`Session.Later`).
-/

namespace TraitEngine

set_option autoImplicit false

open Check

/-- An item of a trait as it is before there is a receiver for it. -/
structure OfferedItem where
  self : Param
  item : ItemRef
  trait : CanonicalPath

namespace OfferedItem

/-- The declared type of an associated type stays as it is. -/
def typeFor (o : OfferedItem) (receiver : Ty) : Ty :=
  if o.item.kind == .type then o.item.ty
  else o.item.ty.specialize (Predicate.receiverArgs o.self receiver)

def pathFor (o : OfferedItem) (crate : String) (receiver : Ty) (name : String) : CanonicalPath :=
  ((CanonicalPath.crateRoot crate).joinTraitImpl receiver o.trait).join name .value

end OfferedItem

namespace Predicate

/-- A trait for a receiver, its other parameters open. -/
def forReceiver (id : DefId) (self : TraitParam) (others : List TraitParam) (span : Span)
    (receiver : Ty) : Predicate where
  trait := some id
  params := self :: others
  args := .of (⟨self.param, some receiver⟩ :: others.map TraitParam.unbound) (some span)
  bindings := []
  span
  failed := false

section

variable {t : TraitRef} {id : DefId} (own : t.id = some id) (span : Span) (receiver : Ty)
include own

theorem bindReceiver_ofTrait {self : TraitParam} {others : List TraitParam}
    (params : t.params = self :: others) :
    (ofTrait t span).bindReceiver receiver = forReceiver id self others span receiver := by
  simp [ofTrait, own, params, ofParams, bindReceiver, forReceiver, ArgList.rebind,
    ArgList.mapSlots, ArgList.specializeReceiver, ArgList.mapArgs, TraitParam.unbound]

theorem bindReceiver_ofTrait_nil (params : t.params = []) :
    (ofTrait t span).bindReceiver receiver = error := by
  simp [ofTrait, own, params, ofParams, bindReceiver, error]

end

section

variable (id : DefId) (self : TraitParam) (others : List TraitParam) (span : Span) (receiver : Ty)

theorem member?_forReceiver (cx : Context) (name : String) :
    (forReceiver id self others span receiver).member? cx name =
      ((cx.trait? id).bind (·.item? name)).map
        (.mk (forReceiver id self others span receiver)) := by
  rw [Option.map_bind]
  rfl

/-- Open parameters change nothing. -/
theorem lookup_forReceiver (q : Param) :
    (forReceiver id self others span receiver).args.lookup q =
      (receiverArgs self.param receiver).lookup q := by
  simp only [forReceiver, ArgList.lookup, receiverArgs, ArgList.toList, List.find?_cons,
    List.find?_map, List.find?_nil]
  cases self.param.node == q.node <;> cases others.find? _ <;> rfl

theorem typeFor_forReceiver {item : ItemRef} (fine : item.isError = false)
    (trait : CanonicalPath) :
    (Member.mk (forReceiver id self others span receiver) item).typeFor receiver =
      (OfferedItem.mk self.param item trait).typeFor receiver := by
  have again :
      ((forReceiver id self others span receiver).args.rebind 0 receiver).specializeReceiver =
        (forReceiver id self others span receiver).args := by
    simp [forReceiver, ArgList.rebind, ArgList.mapSlots, ArgList.specializeReceiver,
      ArgList.mapArgs, TraitParam.unbound]
  have specialize : item.ty.specialize (forReceiver id self others span receiver).args =
      item.ty.specialize (receiverArgs self.param receiver) :=
    congrArg (Ty.replace · item.ty) (funext (lookup_forReceiver id self others span receiver))
  have some : (forReceiver id self others span receiver).args.isEmpty = false := rfl
  simp only [Member.typeFor, OfferedItem.typeFor, fine, again, specialize, some, Bool.false_or,
    Bool.false_eq_true, if_false]

theorem writtenArgs_forReceiver :
    Session.writtenArgs (forReceiver id self others span receiver) = others.map TraitParam.ty := by
  simp [Session.writtenArgs, forReceiver, ArgList.written, ArgList.toList, TraitParam.unbound,
    TraitParam.ty, Function.comp_def]

end

end Predicate

namespace Session

variable {s : Session}

/-- The item of that name as symbols of it use it, unless it is in error. -/
def offers? (s : Session) (t : TraitRef) (name : String) : Option OfferedItem := do
  let id ← t.id
  let self ← t.receiver?
  let item ← (s.context.trait? id).bind (·.item? name)
  let trait ← s.tree.canonicalPath? id
  if item.isError then none
  else some ⟨self, item, trait.withArgs (t.params.tail.map TraitParam.ty)⟩

theorem offers?_eq_some_iff {t : TraitRef} {name : String} {o : OfferedItem} :
    s.offers? t name = some o ↔ ∃ id canonical, t.id = some id ∧ t.receiver? = some o.self ∧
      (s.context.trait? id).bind (·.item? name) = some o.item ∧ o.item.isError = false ∧
      s.tree.canonicalPath? id = some canonical ∧
      o.trait = canonical.withArgs (t.params.tail.map TraitParam.ty) := by
  simp only [offers?, Option.bind_eq_bind, Option.bind_eq_some_iff]
  constructor
  · rintro ⟨id, own, self, first, item, found, canonical, path, rest⟩
    split at rest
    · cases rest
    · rename_i fine
      cases rest
      exact ⟨id, canonical, own, first, found, Bool.not_eq_true _ ▸ fine, path, rfl⟩
  · rintro ⟨id, canonical, own, first, found, fine, path, args⟩
    exact ⟨id, own, o.self, first, o.item, found, canonical, path, by rw [fine, ← args]; rfl⟩

theorem isError_of_offers? {t : TraitRef} {name : String} {o : OfferedItem}
    (offered : s.offers? t name = some o) : t.isError = false := by
  obtain ⟨id, -, own, -⟩ := offers?_eq_some_iff.1 offered
  rw [TraitRef.isError, own, Option.isNone_some]

section

variable (receiver : Ty) (path : TypePath) (name : String) (t : TraitRef)

/-- An item that is offered has the symbol of its type and its path, and any other has none. -/
theorem memberSymbol_eq : match s.offers? t name with
    | some o => s.memberSymbol receiver path name t =
        s.symbol (o.typeFor receiver) (o.pathFor s.config.crate receiver name)
    | none => s.memberSymbol receiver path name t = .error (.unresolvedTrait path.plain) ∨
        s.memberSymbol receiver path name t = .error (.unknownItem t.name name) := by
  cases own : t.id with
  | none => simp [memberSymbol, offers?, own, throw, throwThe, MonadExceptOf.throw]
  | some id =>
      cases params : t.params with
      | nil =>
          have none : Predicate.error.member? s.context name = none := rfl
          simp [memberSymbol, offers?, own, params, Predicate.bindReceiver_ofTrait_nil own,
            none, TraitRef.receiver?, throw, throwThe, MonadExceptOf.throw]
      | cons self others =>
          have first : t.receiver? = some self.param := by simp [TraitRef.receiver?, params]
          simp only [memberSymbol, own, Predicate.bindReceiver_ofTrait own _ _ params,
            Predicate.member?_forReceiver, offers?, first, params]
          cases found : (s.context.trait? id).bind (·.item? name) with
          | none => simp [found, throw, throwThe, MonadExceptOf.throw]
          | some item =>
              cases bad : item.isError with
              | true =>
                  cases s.tree.canonicalPath? id <;>
                    simp [found, bad, throw, throwThe, MonadExceptOf.throw, bind, Except.bind]
              | false =>
                  cases canonical : s.tree.canonicalPath? id with
                  | none => simp [found, bad, canonical, throw, throwThe, MonadExceptOf.throw]
                  | some trait =>
                      simp [found, bad, canonical, traitItemPath, OfferedItem.pathFor,
                        Predicate.writtenArgs_forReceiver,
                        ← Predicate.typeFor_forReceiver id self others path.span receiver bad]

end

theorem memberSymbol_eq_ok_iff {receiver : Ty} {path : TypePath} {name : String} {t : TraitRef}
    {x : String} : s.memberSymbol receiver path name t = .ok x ↔
      ∃ o, s.offers? t name = some o ∧
        s.symbol (o.typeFor receiver) (o.pathFor s.config.crate receiver name) = .ok x := by
  have own := memberSymbol_eq (s := s) receiver path name t
  cases offered : s.offers? t name with
  | none => rcases (offered ▸ own) with refused | refused <;> simp [refused]
  | some o =>
      rw [offered] at own
      simp [own]

end Session

/-! ## One symbol after another -/

namespace Lowering

variable {tree : ItemTree} {cx : Context}

/-- A reference that resolution gives is in the cache from then on. -/
theorem resolveWithin_caches (depth : Nat) (id : DefId) (span : Span) :
    Ends AnyFault (resolveWithin tree depth id span) cx fun t cx' =>
      t.isError = false → cx'.trait? id = some t := by
  cases depth with
  | zero => exact trivial
  | succ depth =>
      have wrong {found : Option TraitRef} (fine : TraitRef.error.isError = false) :
          found = some .error := by
        cases fine
      refine ends_resolveWithin span (fun t cached _ => cached) (fun _ => wrong) (fun _ => wrong)
        (fun _ => wrong) fun decl _ _ _ _ => ?_
      simp only [resolveNew, ends_bind, ends_modify]
      refine (ends_any _).mono fun t cx₁ _ => (ends_any _).mono fun _ cx₂ _ => ?_
      simp only [ends_get, ends_pure]
      cases cx₂.trait? id with
      | none => exact wrong
      | some cached => exact fun _ => rfl

end Lowering

namespace ItemTree

variable {tree : ItemTree} {cx cx₁ cx₂ : Context}

theorem resolveTrait_caches {path : TypePath} {t : TraitRef}
    (ran : tree.resolveTrait path cx = .ok (t, cx₁)) (fine : t.isError = false) :
    ∃ id, tree.resolveTraitPath path = .ok id ∧ cx₁.trait? id = some t := by
  unfold resolveTrait at ran
  cases found : tree.resolveTraitPath path with
  | error problem =>
      simp only [found] at ran
      cases ran
      cases fine
  | ok id =>
      simp only [found] at ran
      exact ⟨id, rfl, (Lowering.resolveWithin_caches _ id path.span).of_eq_ok ran fine⟩

theorem resolveTrait_cached {path : TypePath} {id : DefId} {t : TraitRef}
    (named : tree.resolveTraitPath path = .ok id) (cached : cx.trait? id = some t) :
    tree.resolveTrait path cx = .ok (t, cx) := by
  simp only [resolveTrait, named, resolveDef, Lowering.resolveWithin, bind, StateT.bind, get,
    getThe, MonadStateOf.get, StateT.get, pure, Except.pure, Except.bind, cached]
  rfl

theorem resolveTrait_again {path : TypePath} {t : TraitRef}
    (ran : tree.resolveTrait path cx = .ok (t, cx₁)) (fine : t.isError = false)
    (kept : ∀ {id t}, cx₁.trait? id = some t → cx₂.trait? id = some t) :
    tree.resolveTrait path cx₂ = .ok (t, cx₂) := by
  obtain ⟨id, named, cached⟩ := resolveTrait_caches ran fine
  exact resolveTrait_cached named (kept cached)

end ItemTree

namespace Session

variable {s s₁ s₂ s₃ : Session}

/-- Nothing was declared since, and nothing was forgotten. -/
structure Later (s s' : Session) : Prop where
  config : s'.config = s.config
  tree : s'.tree = s.tree
  cached {id : DefId} {t : TraitRef} : s.context.trait? id = some t → s'.context.trait? id = some t

theorem Later.refl (s : Session) : s.Later s := ⟨rfl, rfl, id⟩

theorem Later.trans (first : s.Later s₁) (second : s₁.Later s₂) : s.Later s₂ where
  config := second.config.trans first.config
  tree := second.tree.trans first.tree
  cached found := second.cached (first.cached found)

theorem Later.offers? (later : s.Later s₁) {t : TraitRef} {name : String} {o : OfferedItem}
    (offered : s.offers? t name = some o) : s₁.offers? t name = some o := by
  obtain ⟨id, canonical, own, first, found, rest⟩ := offers?_eq_some_iff.1 offered
  obtain ⟨_, cached, there⟩ := Option.bind_eq_some_iff.1 found
  refine offers?_eq_some_iff.2 ⟨id, canonical, own, first, ?_, later.tree ▸ rest⟩
  rw [later.cached cached, Option.bind_some, there]

theorem Settled.later_request (settled : s.Settled) (receivers : s.tree.HasReceivers)
    (request : Request) : ∃ handed s', s.perform (.request request) = .ok (handed, s') ∧
      s'.Settled ∧ s.Later s' := by
  obtain ⟨handed, s', performed, tree, settled', run⟩ :=
    settled.perform receivers (.request request)
  refine ⟨handed, s', performed, settled', ?_, tree, fun found =>
    Context.trait?_of_grown (run.advances settled.idle.coherent).cache_grows found⟩
  simp only [Session.perform, Session.run, bind, Except.bind] at performed
  split at performed
  · cases performed
  · exact (Prod.mk.inj (Except.ok.inj performed)).2 ▸ rfl

/-- Requests lead to a later session, whatever they are. -/
theorem Settled.later (settled : s.Settled) (receivers : s.tree.HasReceivers)
    (requests : List Request) : ∃ handed s',
      s.performAll (requests.map .request) = .ok (handed, s') ∧ s.Later s' := by
  induction requests generalizing s with
  | nil => exact ⟨[], s, rfl, .refl s⟩
  | cons request rest ih =>
      obtain ⟨handed, s₁, performed, settled₁, first⟩ := settled.later_request receivers request
      obtain ⟨more, s₂, rested, second⟩ := ih settled₁ (first.tree ▸ receivers)
      refine ⟨handed ++ more, s₂, ?_, first.trans second⟩
      simp only [List.map_cons, Session.performAll, performed, rested, bind, Except.bind]
      rfl

theorem traitItemSymbol_of_resolved {path : TypePath} {t : TraitRef} {cx : Context}
    (resolved : s.tree.resolveTrait path s.context = .ok (t, cx)) (receiver : Ty) (name : String) :
    s.traitItemSymbol receiver path name =
      .ok ({ s with context := cx }.memberSymbol receiver path name t, { s with context := cx }) := by
  rw [traitItemSymbol, run, resolved]
  rfl

theorem traitItemSymbol_eq_ok {receiver : Ty} {path : TypePath} {name x : String}
    (ran : s.traitItemSymbol receiver path name = .ok (.ok x, s₁)) :
    ∃ t, s.tree.resolveTrait path s.context = .ok (t, s₁.context) ∧ s₁.config = s.config ∧
      s₁.tree = s.tree ∧ s₁.memberSymbol receiver path name t = .ok x := by
  cases resolved : s.tree.resolveTrait path s.context with
  | error fault =>
      rw [traitItemSymbol, run, resolved] at ran
      cases ran
  | ok out =>
      rw [traitItemSymbol_of_resolved resolved] at ran
      obtain ⟨symbol, rfl⟩ := Prod.mk.inj (Except.ok.inj ran)
      exact ⟨out.1, rfl, rfl, rfl, symbol⟩

/-- With receivers, a request for the trait leads to the session in which the symbol is made. -/
theorem Settled.perform_resolve (settled : s.Settled) (receivers : s.tree.HasReceivers)
    (path : TypePath) : ∃ t cx, s.tree.resolveTrait path s.context = .ok (t, cx) ∧
      s.perform (.request (.resolve path)) = .ok ([], { s with context := cx }) ∧
      { s with context := cx }.Settled := by
  obtain ⟨handed, s', performed, -, settled', -⟩ :=
    settled.perform receivers (.request (.resolve path))
  simp only [Session.perform, Session.run, Request.run, bind, StateT.bind] at performed ⊢
  cases resolved : s.tree.resolveTrait path s.context with
  | error fault =>
      rw [resolved] at performed
      cases performed
  | ok out =>
      rw [resolved] at performed
      cases performed
      exact ⟨out.1, out.2, rfl, rfl, settled'⟩

/-- The symbols of a trait's item for two receivers come from one item. -/
theorem traitItemSymbol_later {receiver receiver' : Ty} {path : TypePath} {name x y : String}
    (first : s.traitItemSymbol receiver path name = .ok (.ok x, s₁)) (between : s₁.Later s₂)
    (second : s₂.traitItemSymbol receiver' path name = .ok (.ok y, s₃)) : ∃ o : OfferedItem,
      s.symbol (o.typeFor receiver) (o.pathFor s.config.crate receiver name) = .ok x ∧
      s.symbol (o.typeFor receiver') (o.pathFor s.config.crate receiver' name) = .ok y := by
  obtain ⟨t, resolved, config, tree, symbol⟩ := traitItemSymbol_eq_ok first
  obtain ⟨t', resolved', config', tree', symbol'⟩ := traitItemSymbol_eq_ok second
  obtain ⟨o, offered, made⟩ := memberSymbol_eq_ok_iff.1 symbol
  obtain ⟨o', offered', made'⟩ := memberSymbol_eq_ok_iff.1 symbol'
  have again := ItemTree.resolveTrait_again resolved (isError_of_offers? offered) between.cached
  rw [between.tree, tree, again] at resolved'
  obtain ⟨rfl, unchanged⟩ := Prod.mk.inj (Except.ok.inj resolved')
  have since : s₁.Later s₃ := between.trans ⟨config', tree', fun found => unchanged ▸ found⟩
  obtain rfl : o = o' := Option.some.inj ((since.offers? offered).symm.trans offered')
  have same : s₁.symbol = s.symbol := by
    funext ty path
    rw [Session.symbol, Session.symbol, config, tree]
  have same' : s₃.symbol = s.symbol := by
    funext ty path
    rw [Session.symbol, Session.symbol, since.config, since.tree, config, tree]
  rw [same, config] at made
  rw [same', since.config, config] at made'
  exact ⟨o, made, made'⟩

end Session

end TraitEngine
