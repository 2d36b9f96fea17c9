import TraitEngine.Proofs.Ends
import TraitEngine.Proofs.Mentions
import TraitEngine.Resolve.Trait
import Mathlib.Data.List.Forall2
import Mathlib.Data.List.Nodup
/-!
# Parameters and items of a resolved trait

What the parts of a resolved trait are, each next to the part of the declaration that it comes
from, whatever the requests on the way answer.

* The receiver is the first type parameter with its name; it is moved in front of the others
  (`TraitDecl.splits_of_split`).
* Each parameter has a default exactly if it is declared with one (`lowerFallbacks_resolves`).
* Of each name the first item stays (`TraitItem.firsts`). An item without a name becomes an
  error, any other has the parameters of its trait (`lowerItem_resolves`). So looking up a name
  finds the item of the declaration that this name finds there (`item?_resolves`).
-/

namespace TraitEngine

set_option autoImplicit false

open Check

/-! ## The declaration -/

namespace TraitDecl

/-- `receiver` is the first type parameter with the name of the receiver, and `others` are the
other type parameters in order. -/
structure Splits (decl : TraitDecl) (receiver : TypeParam) (others : List TypeParam) : Prop where
  named : receiver.name = receiverName
  parts : ∃ before after, decl.typeParams = before ++ receiver :: after ∧
    others = before ++ after ∧ ∀ p ∈ before, p.name ≠ receiverName

theorem splits_of_split {decl : TraitDecl} {receiver : TypeParam} {others : List TypeParam}
    (split : decl.splitReceiver? = some (receiver, others)) : decl.Splits receiver others := by
  simp only [splitReceiver?, Option.map_eq_some_iff, Prod.mk.injEq] at split
  obtain ⟨p, found, rfl, rfl⟩ := split
  obtain ⟨named, before, after, whole, earlier⟩ := List.find?_eq_some_iff_append.1 found
  have isReceiver (q : TypeParam) : q.toParam.isReceiver = true ↔ q.name = receiverName :=
    beq_iff_eq
  have other : ∀ q ∈ before, q.name ≠ receiverName := by
    intro q mem same
    have not := earlier q mem
    rw [(isReceiver q).2 same] at not
    cases not
  have none : ¬ before.any (fun q => q.toParam.isReceiver) = true := by
    rw [List.any_eq_true]
    rintro ⟨q, mem, is⟩
    exact other q mem ((isReceiver q).1 is)
  refine ⟨(isReceiver p).1 named, before, after, whole, ?_, other⟩
  rw [whole, List.eraseP_append, if_neg none]
  exact congrArg (before ++ ·) (List.eraseP_cons_of_pos named)

end TraitDecl

namespace TraitItem

/-- The first item of each name, in order. -/
def firsts (items : List TraitItem) : List TraitItem :=
  items.eraseDupsBy fun later first => later.name == first.name

/-- The first item stays, in front of the first ones with other names. -/
theorem firsts_cons (item : TraitItem) (rest : List TraitItem) :
    firsts (item :: rest) = item :: firsts (rest.filter fun later => later.name ≠ item.name) := by
  rw [firsts, List.eraseDupsBy_cons, firsts]
  congr 2
  exact List.filter_congr fun later _ => by simp

theorem firsts_induction {motive : List TraitItem → Prop} (nil : motive [])
    (cons : ∀ item rest, motive (rest.filter fun later => later.name ≠ item.name) →
      motive (item :: rest)) : ∀ items, motive items
  | [] => nil
  | item :: rest => cons item rest
      (firsts_induction nil cons (rest.filter fun later => later.name ≠ item.name))
termination_by items => items.length
decreasing_by exact Nat.lt_succ_of_le (List.length_filter_le _ _)

theorem firsts_sublist (items : List TraitItem) : (firsts items).Sublist items := by
  induction items using firsts_induction with
  | nil => exact .slnil
  | cons item rest ih =>
      rw [firsts_cons]
      exact (ih.trans List.filter_sublist).cons_cons item

theorem firsts_names_nodup (items : List TraitItem) : ((firsts items).map name).Nodup := by
  induction items using firsts_induction with
  | nil => exact List.nodup_nil
  | cons item rest ih =>
      rw [firsts_cons, List.map_cons, List.nodup_cons]
      refine ⟨fun mem => ?_, ih⟩
      obtain ⟨later, there, same⟩ := List.mem_map.1 mem
      have other := (List.mem_filter.1 ((firsts_sublist _).subset there)).2
      simp [same] at other

/-- The first items have the declared names, each once. -/
theorem firsts_names (items : List TraitItem) :
    (firsts items).map name = (items.map name).eraseDups := by
  induction items using firsts_induction with
  | nil => rfl
  | cons item rest ih =>
      have others : (rest.filter fun later => later.name ≠ item.name) =
          rest.filter ((fun later => !later == item.name) ∘ name) :=
        List.filter_congr fun later _ => by simp [Bool.beq_eq_decide_eq]
      rw [firsts_cons, List.map_cons, ih, List.map_cons, List.eraseDups_cons, List.filter_map,
        others]

/-- A name finds the same among all items as among the first of each name. -/
theorem find?_firsts (name : String) (items : List TraitItem) :
    (firsts items).find? (fun item => item.name == name) =
      items.find? fun item => item.name == name := by
  induction items using firsts_induction with
  | nil => rfl
  | cons item rest ih =>
      rw [firsts_cons, List.find?_cons, List.find?_cons]
      by_cases own : item.name = name
      · rw [show (item.name == name) = true by simpa using own]
      · rw [show (item.name == name) = false by simpa using own]
        simp only [ih, List.find?_filter]
        refine congrArg (List.find? · rest) (funext fun later => ?_)
        by_cases same : later.name = name <;> simp [same, Ne.symm own]

end TraitItem

/-! ## Parameters and items -/

/-- A parameter as it is declared, with its default lowered. -/
structure TraitParam.Resolves (p : TypeParam) (own : TraitParam) : Prop where
  param : own.param = p.toParam
  span : own.span = p.span
  fallback : own.fallback.isSome = p.fallback.isSome

theorem TraitParam.Resolves.params {ps : List TypeParam} {params : List TraitParam}
    (h : List.Forall₂ TraitParam.Resolves ps params) :
    params.map TraitParam.param = ps.map TypeParam.toParam := by
  induction h with
  | nil => rfl
  | cons first _ ih => rw [List.map_cons, List.map_cons, first.param, ih]

theorem TraitParam.Resolves.defaults {ps : List TypeParam} {params : List TraitParam}
    (h : List.Forall₂ TraitParam.Resolves ps params) :
    (params.map fun q => q.fallback.isSome) = ps.map fun q => q.fallback.isSome := by
  induction h with
  | nil => rfl
  | cons first _ ih => rw [List.map_cons, List.map_cons, first.fallback, ih]

/-- The kind of a declared item after resolution. -/
def TraitItemKind.resolved : TraitItemKind → ItemKind
  | .type .. => .type
  | .const .. => .const
  | .fn .. => .fn

/-- What a declared item of a trait with these parameters becomes: an error if it has no name. -/
inductive ItemRef.Resolves (params : List TraitParam) (self : Ty) (item : TraitItem) :
    ItemRef → Prop where
  | error (nameless : item.name = "") : Resolves params self item (.error item.name item.span)
  | ok (named : item.name ≠ "") (ty : Ty) : Resolves params self item {
      name := item.name, optional := item.kind.hasDefault, kind := item.kind.resolved
      node := some item.node, ty, self, params, span := item.span }

namespace ItemRef

variable {params : List TraitParam} {self : Ty} {item : TraitItem} {i : ItemRef}

theorem Resolves.name (h : Resolves params self item i) : i.name = item.name := by
  cases h <;> rfl

/-- An item with a name keeps its node. -/
theorem Resolves.node (h : Resolves params self item i) (named : item.name ≠ "") :
    i.node = some item.node := by
  cases h with
  | error nameless => exact absurd nameless named
  | ok => rfl

variable {items : List TraitItem} {refs : List ItemRef}

theorem Resolves.names (h : List.Forall₂ (Resolves params self) items refs) :
    refs.map ItemRef.name = items.map TraitItem.name := by
  induction h with
  | nil => rfl
  | cons first _ ih => rw [List.map_cons, List.map_cons, first.name, ih]

/-- A name finds corresponding items, or none. -/
theorem find?_of_names {made : TraitItem → ItemRef → Prop}
    (names : ∀ {item i}, made item i → i.name = item.name) (h : List.Forall₂ made items refs)
    (name : String) : Option.Rel made (items.find? fun item => item.name == name)
      (refs.find? fun i => i.name == name) := by
  induction h with
  | nil => exact .none
  | @cons item i _ _ first _ ih =>
      rw [List.find?_cons, List.find?_cons, names first]
      cases item.name == name with
      | true => exact .some first
      | false => exact ih

end ItemRef

namespace TraitRef

variable {t : TraitRef} {decl : TraitDecl}

/-- The items of a resolved trait are found by the names of the declared ones. -/
theorem item?_of_names {made : TraitItem → ItemRef → Prop}
    (names : ∀ {item i}, made item i → i.name = item.name)
    (items : List.Forall₂ made (TraitItem.firsts decl.items) t.items) (name : String) :
    Option.Rel made (decl.item? name) (t.item? name) := by
  rw [TraitDecl.item?, ← TraitItem.find?_firsts]
  exact ItemRef.find?_of_names names items name

theorem item?_resolves {self : Ty}
    (items : List.Forall₂ (ItemRef.Resolves t.params self) (TraitItem.firsts decl.items) t.items)
    (name : String) :
    Option.Rel (ItemRef.Resolves t.params self) (decl.item? name) (t.item? name) :=
  item?_of_names ItemRef.Resolves.name items name

/-- A name finds the node that it finds in the declaration. Without a name there is no node. -/
theorem node_of_item? {self : Ty}
    (items : List.Forall₂ (ItemRef.Resolves t.params self) (TraitItem.firsts decl.items) t.items)
    (name : String) (some : name ≠ "") :
    (t.item? name).bind ItemRef.node = (decl.item? name).map TraitItem.node := by
  have own := item?_resolves items name
  generalize t.item? name = i? at own ⊢
  cases found : decl.item? name with
  | none =>
      rw [found] at own
      cases own
      rfl
  | some item =>
      have named : item.name = name := by simpa using List.find?_some found
      rw [found] at own
      cases own with
      | some resolves => exact resolves.node (named ▸ some)

end TraitRef

/-! ## Lowering -/

namespace Lowering

variable {tree : ItemTree} {resolve : Resolver} {cx : Context}

theorem lowerFallbacks_resolves (scope : Scope) : ∀ (ps : List TypeParam) {cx : Context},
    Ends AnyFault (lowerFallbacks tree resolve scope ps) cx fun params _ =>
      List.Forall₂ TraitParam.Resolves ps params
  | [], _ => .nil
  | p :: rest, cx => by
      rw [lowerFallbacks]
      cases written : p.fallback with
      | none =>
          simp only [ends_bind, ends_pure]
          refine (lowerFallbacks_resolves scope rest).mono fun params _ others => ?_
          exact .cons ⟨rfl, rfl, by rw [written]; rfl⟩ others
      | some t =>
          simp only [ends_bind, ends_map, ends_pure]
          refine (ends_any _).mono fun ty _ _ => ?_
          refine (lowerFallbacks_resolves scope rest).mono fun params _ others => ?_
          exact .cons ⟨rfl, rfl, by rw [written]; rfl⟩ others

theorem buildSupers_resolves (scope : Scope) (decl : TraitDecl) (receiver : TypeParam)
    (declared : List TypeParam) :
    Ends AnyFault (buildSupers tree resolve scope decl receiver declared) cx fun out _ =>
      List.Forall₂ TraitParam.Resolves declared out.1 := by
  simp only [buildSupers, ends_bind, ends_modify, ends_pure]
  refine (ends_any _).mono fun _ _ _ => ?_
  refine (lowerFallbacks_resolves scope declared).mono fun params _ resolves => ?_
  exact (ends_any _).mono fun _ _ _ => resolves

theorem lowerItemKind_kind (scope : Scope) (id : DefId) (self : Ty) (name : String)
    (kind : TraitItemKind) :
    Ends AnyFault (lowerItemKind tree resolve scope id self name kind) cx fun out _ =>
      out.1 = kind.resolved := by
  cases kind with
  | type bounds fallback =>
      rw [lowerItemKind, ends_bind]
      refine (ends_any _).mono fun _ _ _ => ?_
      cases fallback with
      | none => exact rfl
      | some t =>
          simp only [ends_bind]
          exact (ends_any _).mono fun _ _ _ => rfl
  | const t body =>
      simp only [lowerItemKind, ends_bind, ends_pure]
      exact (ends_any _).mono fun _ _ _ => rfl
  | fn decl =>
      simp only [lowerItemKind, ends_bind, ends_pure]
      exact (ends_any _).mono fun _ _ _ => rfl

theorem lowerItem_resolves (scope : Scope) (id : DefId) (self : Ty) {params : List TraitParam}
    (some : params ≠ []) (item : TraitItem) :
    Ends AnyFault (lowerItem tree resolve scope id self params item) cx fun i _ =>
      ItemRef.Resolves params self item i := by
  rw [lowerItem]
  split
  · rename_i error
    have nameless : item.name = "" := by simpa [some] using error
    exact .error nameless
  · rename_i fine
    have named : item.name ≠ "" := by
      intro nameless
      simp [nameless] at fine
    rw [ends_bind]
    refine (lowerItemKind_kind scope id self item.name item.kind).mono fun out _ kind => ?_
    obtain ⟨_, ty⟩ := out
    obtain rfl : _ = item.kind.resolved := kind
    simp only [ends_bind, ends_modify, ends_pure]
    exact .ok named ty

/-- Besides the items that were seen, the first item of each name is lowered, and no other. -/
theorem lowerItems_firsts {scope : Scope} {decl : TraitDecl} {self : Ty}
    {params : List TraitParam} {made : TraitItem → ItemRef → Prop}
    (one : ∀ (item : TraitItem) (cx : Context),
      Ends AnyFault (lowerItem tree resolve scope decl.id self params item) cx fun i _ =>
        made item i) :
    ∀ (items seen : List TraitItem) {cx : Context},
      Ends AnyFault (lowerItems tree resolve scope decl self params seen items) cx fun lowered _ =>
        List.Forall₂ made
          (TraitItem.firsts (items.filter fun item => ∀ first ∈ seen, first.name ≠ item.name))
          lowered
  | [], _, _ => .nil
  | item :: rest, seen, cx => by
      rw [lowerItems]
      split
      · rename_i first taken
        have seen_ : ¬ ∀ first ∈ seen, first.name ≠ item.name := by
          intro fresh
          exact fresh first (List.mem_of_find?_eq_some taken) (by simpa using List.find?_some taken)
        rw [List.filter_cons_of_neg (by simpa using seen_)]
        simp only [ends_bind, ends_report]
        exact lowerItems_firsts one rest seen
      · rename_i new
        have fresh : ∀ first ∈ seen, first.name ≠ item.name := by
          simpa using List.find?_eq_none.1 new
        rw [List.filter_cons_of_pos (by simpa using fresh), TraitItem.firsts_cons, List.filter_filter]
        simp only [ends_bind, ends_pure]
        refine (one item cx).mono fun i _ own => ?_
        refine (lowerItems_firsts one rest (item :: seen)).mono fun lowered _ others => ?_
        have later : (rest.filter fun later => ∀ first ∈ item :: seen, first.name ≠ later.name) =
            rest.filter fun later => decide (later.name ≠ item.name) &&
              decide (∀ first ∈ seen, first.name ≠ later.name) :=
          List.filter_congr fun later _ => by
            simp only [List.forall_mem_cons, ne_comm, Bool.decide_and]
        exact .cons own (later ▸ others)

/-- The items of a trait are the first of each name. -/
theorem buildItems_firsts {scope : Scope} {decl : TraitDecl} {receiver : TypeParam}
    {params : List TraitParam} {made : TraitItem → ItemRef → Prop}
    (one : ∀ (item : TraitItem) (cx : Context),
      Ends AnyFault (lowerItem tree resolve scope decl.id (.param receiver.toParam) params item) cx
        fun i _ => made item i) :
    Ends AnyFault (buildItems tree resolve scope decl receiver params) cx fun items _ =>
      List.Forall₂ made (TraitItem.firsts decl.items) items := by
  simp only [buildItems, ends_bind]
  refine (ends_any _).mono fun _ cx₁ _ => ?_
  have all : (decl.items.filter fun item => ∀ first ∈ ([] : List TraitItem),
      first.name ≠ item.name) = decl.items := List.filter_eq_self.2 fun _ _ => by simp
  refine (lowerItems_firsts one decl.items []).mono fun items _ resolved => ?_
  rwa [all] at resolved

theorem buildItems_resolves (scope : Scope) (decl : TraitDecl) (receiver : TypeParam)
    {params : List TraitParam} (some : params ≠ []) :
    Ends AnyFault (buildItems tree resolve scope decl receiver params) cx fun items _ =>
      List.Forall₂ (ItemRef.Resolves params (.param receiver.toParam))
        (TraitItem.firsts decl.items) items :=
  buildItems_firsts fun item _ => lowerItem_resolves scope decl.id _ some item

end Lowering

end TraitEngine
