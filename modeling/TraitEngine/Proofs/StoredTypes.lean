import TraitEngine.Proofs.Sound.Session
/-!
# What the stored types are like

The types that a context stores are those of its cached traits, of the parameters of
traits on the stack and of the bounds of parameters (`storedTypes`), and those of nodes
(`nodeTypes`). Two results, for all declarations and requests in any order:

* No silent failure (`performAll_noError`): if the traits have receivers and their items
  names, and if no problem was ever reported, there is no error type in any of them, no
  predicate has failed, and neither has what is lowered next.
* Conformance (`performAll_conforms`): whatever is reported, every struct, enum, bound of
  a trait object and projection in them is as declared, and so it is in every type that
  is lowered next. A fault is the one way not to get there, and it needs a trait without
  a receiver.

A caller may hand in a self type for an item; it is stored among the types of nodes as
it is, so those are only as good as what was handed in.
-/

namespace TraitEngine

set_option autoImplicit false

/-! ## Types by place -/

def TraitParam.fallbacks (params : List TraitParam) : List Ty := params.filterMap TraitParam.fallback

/-- The types in the slots, the bindings and the defaults of the parameters. -/
def Predicate.types (p : Predicate) : List Ty :=
  p.args.toList.filterMap ArgSlot.ty ++ p.bindings.map Prod.snd ++ TraitParam.fallbacks p.params

def ItemRef.types (item : ItemRef) : List Ty :=
  item.ty :: item.self :: TraitParam.fallbacks item.params

def TraitRef.types (t : TraitRef) : List Ty :=
  TraitParam.fallbacks t.params ++ t.items.flatMap ItemRef.types ++
    t.supers.flatMap Predicate.types

namespace Context

/-- The bounds of parameters and the super-traits of cached traits. -/
def storedPredicates (cx : Context) : List Predicate :=
  cx.bounds.entries.flatMap (fun e => e.2.toList) ++ cx.cache.entries.flatMap fun e => e.2.supers

def storedTypes (cx : Context) : List Ty :=
  cx.cache.entries.flatMap (fun e => e.2.types) ++
    cx.bounds.entries.flatMap (fun e => e.2.toList.flatMap Predicate.types) ++
    cx.pending.entries.flatMap fun e => TraitParam.fallbacks e.2

def nodeTypes (cx : Context) : List Ty := cx.types.entries.map Prod.snd

end Context

/-! ## Sound is sound in every place -/

section

variable {tree : ItemTree} {test : NodeTest} {t : Ty}

theorem DefaultsPass.every {params : List TraitParam} (h : DefaultsPass test params)
    (mem : t ∈ TraitParam.fallbacks params) : t.Every test := by
  obtain ⟨p, there, own⟩ := List.mem_filterMap.1 mem
  exact h p there t own

theorem Predicate.Sound.every {p : Predicate} (h : p.Sound tree test) (mem : t ∈ p.types) :
    t.Every test := by
  rcases List.mem_append.1 mem with mem | mem
  · rcases List.mem_append.1 mem with mem | mem
    · obtain ⟨slot, there, own⟩ := List.mem_filterMap.1 mem
      exact h.args slot there t own
    · obtain ⟨b, there, rfl⟩ := List.mem_map.1 mem
      exact h.bindings b there
  · exact h.defaults.every mem

theorem Predicate.Sound.not_failed {p : Predicate} (h : p.Sound tree test) (none : ¬ test.error) :
    p.failed = false ∧ p.trait.isSome := by
  have fine : p.failed = false := by
    cases failed : p.failed with
    | false => rfl
    | true => exact absurd (h.failed failed) none
  obtain ⟨id, decl, own, -⟩ := h.covers fine
  exact ⟨fine, by rw [own]; rfl⟩

theorem ItemRef.Sound.every {item : ItemRef} (h : item.Sound test) (mem : t ∈ item.types) :
    t.Every test := by
  simp only [types, List.mem_cons] at mem
  rcases mem with rfl | rfl | mem
  · exact h.ty
  · exact h.self
  · exact h.defaults.every mem

theorem TraitRef.Sound.every {id : DefId} {ref : TraitRef} (h : ref.Sound tree test id)
    (mem : t ∈ ref.types) : t.Every test := by
  rcases List.mem_append.1 mem with mem | mem
  · rcases List.mem_append.1 mem with mem | mem
    · exact h.params.defaults.every mem
    · obtain ⟨item, there, mem⟩ := List.mem_flatMap.1 mem
      exact (h.items item there).every mem
  · obtain ⟨p, there, mem⟩ := List.mem_flatMap.1 mem
    exact (h.supers p there).2.every mem

namespace Context.Sound

variable {trusted : Prop} {cx : Context} (h : cx.Sound tree trusted test)

include h

theorem every (mem : t ∈ cx.storedTypes) : t.Every test := by
  rcases List.mem_append.1 mem with mem | mem
  · rcases List.mem_append.1 mem with mem | mem
    · obtain ⟨e, there, mem⟩ := List.mem_flatMap.1 mem
      exact (h.cache e there).every mem
    · obtain ⟨e, there, mem⟩ := List.mem_flatMap.1 mem
      obtain ⟨p, bound, mem⟩ := List.mem_flatMap.1 mem
      exact (h.bounds e there p bound).every mem
  · obtain ⟨e, there, mem⟩ := List.mem_flatMap.1 mem
    exact (h.pending e there).defaults.every mem

theorem predicate {p : Predicate} (mem : p ∈ cx.storedPredicates) : p.Sound tree test := by
  rcases List.mem_append.1 mem with mem | mem
  · obtain ⟨e, there, mem⟩ := List.mem_flatMap.1 mem
    exact h.bounds e there p mem
  · obtain ⟨e, there, mem⟩ := List.mem_flatMap.1 mem
    exact ((h.cache e there).supers p mem).2

theorem every_node (trust : trusted) (mem : t ∈ cx.nodeTypes) : t.Every test := by
  obtain ⟨e, there, rfl⟩ := List.mem_map.1 mem
  exact h.types trust e there

end Context.Sound

end

/-! ## Sessions -/

namespace Session

open Check

variable {s : Session} {handed : List Problem}

/-- What holds of a session after any steps, by a standard that is regular for its final
tree. -/
theorem performAll_standard (config : Config) (steps : List Step) (std : Standard)
    (conforming : ((ItemTree.empty config.crate).after steps).conformance.Le (std.test True))
    (tidy : std.excused ∨ (((ItemTree.empty config.crate).after steps).HasReceivers ∧
      ((ItemTree.empty config.crate).after steps).NamesItems))
    (supplied : std.trusted → ∀ t ∈ steps.flatMap Step.supplied, t.Every (std.test std.excused))
    (ran : (ofConfig config).performAll steps = .ok (handed, s)) :
    ((std.handing handed).inTree s.tree).Regular ∧
      ((std.handing handed).inTree s.tree).Holds s.context := by
  have numbered := ItemTree.numbered_empty config.crate
  have adts := ItemTree.adtsNumbered_empty config.crate
  refine performAll_sound steps numbered adts ?_ supplied (Standard.holds_start _ config.limit) ran
  exact ⟨numbered.after steps, adts.after steps, conforming, tidy⟩

/-- With receivers the steps give a settled session. -/
theorem performAll_settled (config : Config) (steps : List Step)
    (receivers : ((ItemTree.empty config.crate).after steps).HasReceivers) :
    ∃ handed s, (ofConfig config).performAll steps = .ok (handed, s) ∧ s.Settled ∧
      s.tree.HasReceivers := by
  obtain ⟨handed, s, ran, tree, settled, -⟩ := (settled_ofConfig config).performAll
    (fun _ _ => True) (fun _ => trivial) (fun _ _ => trivial) (fun _ _ => trivial) steps receivers
  refine ⟨handed, s, ran, settled, ?_⟩
  rw [tree]
  exact receivers

/-- What does not fault in a tree with receivers gives a result. -/
theorem exists_ok (receivers : s.tree.HasReceivers) {α : Type} {x : Check α}
    {post : α → Context → Prop} (ends : Ends s.tree.Faults x s.context post) :
    ∃ a cx, x s.context = .ok (a, cx) := by
  obtain ⟨a, cx, ran, -⟩ := (ends.mono_faults fun _ fault => receivers.no_fault fault).exists_ok
  exact ⟨a, cx, ran⟩

/-! ## No silent failure -/

/-- The standard by which no type may have an error in it. -/
def flawless (tree : ItemTree) (trusted : Prop) : Standard where
  tree
  nodes := .noError
  excused := False
  trusted

/-- While nothing is reported, what passes has no error in it. -/
theorem flawless_testAt {tree tree' : ItemTree} {trusted : Prop} {cx : Context}
    (quiet : handed ++ cx.problems = []) :
    ((((flawless tree trusted).handing handed).inTree tree').testAt cx).Le .noError where
  adt := fun _ _ _ _ => trivial
  bound := fun _ _ _ _ => trivial
  projection := fun _ _ _ _ => trivial
  error := by
    obtain ⟨none, empty⟩ := List.append_eq_nil_iff.1 quiet
    rintro ((excused | some) | some)
    · exact excused
    · exact some none
    · exact some empty

/-- Suppose every trait has a receiver and its items have names. Then any declarations
and requests give a session; and if until then no problem was ever reported, there is no
error type in what it stores, and all its predicates stand for traits. The same is true
of what is lowered next, if that does not report anything either. -/
theorem performAll_noError (config : Config) (steps : List Step)
    (receivers : ((ItemTree.empty config.crate).after steps).HasReceivers)
    (named : ((ItemTree.empty config.crate).after steps).NamesItems) :
    ∃ handed s, (ofConfig config).performAll steps = .ok (handed, s) ∧
      (handed ++ s.context.problems = [] →
        (∀ t ∈ s.context.storedTypes, t.hasError = false) ∧
        (∀ p ∈ s.context.storedPredicates, p.failed = false ∧ p.trait.isSome) ∧
        ((∀ t ∈ steps.flatMap Step.supplied, t.hasError = false) →
          ∀ t ∈ s.context.nodeTypes, t.hasError = false)) ∧
      (∀ scope t, ∃ ty cx, s.tree.lowerTy scope t s.context = .ok (ty, cx) ∧
        (handed ++ cx.problems = [] → ty.hasError = false)) ∧
      (∀ block, ∃ ty cx, s.tree.lowerImplHeader block s.context = .ok (ty, cx) ∧
        (handed ++ cx.problems = [] → ty.hasError = false)) ∧
      ∀ scope isSuper path, ∃ p cx, s.tree.lowerBound scope isSuper path s.context = .ok (p, cx) ∧
        (handed ++ cx.problems = [] →
          p.failed = false ∧ p.trait.isSome ∧ ∀ t ∈ p.types, t.hasError = false) := by
  obtain ⟨handed, s, ran, settled, own⟩ := performAll_settled config steps receivers
  have here : s.tree.Trip s.context s.context := .refl s.context
  -- The standard excuses no error, so nothing that passes it has one while nothing is reported.
  obtain ⟨regular, holds⟩ := performAll_standard config steps
    (flawless s.tree (∀ t ∈ steps.flatMap Step.supplied, t.hasError = false))
    ⟨fun _ _ _ _ => trivial, fun _ _ _ _ => trivial, fun _ _ _ _ => trivial, id⟩
    (Or.inr ⟨receivers, named⟩) (fun trust t mem => (Ty.every_noError_iff t).2 (trust t mem)) ran
  refine ⟨handed, s, ran, fun quiet => ?_, fun scope t => ?_, fun block => ?_,
    fun scope isSuper path => ?_⟩
  · have sound := holds.mono (flawless_testAt quiet)
    refine ⟨fun t mem => ?_, fun p mem => ?_, fun trust t mem => ?_⟩
    · exact (Ty.every_noError_iff t).1 (sound.every mem)
    · exact (sound.predicate mem).not_failed id
    · exact (Ty.every_noError_iff t).1 (sound.every_node trust mem)
  · obtain ⟨ty, cx, lowered⟩ := exists_ok own
      (ItemTree.lowerTy_ends settled.numbered settled.idle here scope t)
    have fine := ((ItemTree.lowerTy_sound regular (.refl holds) scope t).of_eq_ok lowered).2
    exact ⟨ty, cx, lowered, fun quiet => (Ty.every_noError_iff ty).1 (fine.mono
      (flawless_testAt quiet))⟩
  · obtain ⟨ty, cx, lowered⟩ := exists_ok own
      (ItemTree.lowerImplHeader_ends settled.numbered settled.idle here block)
    have fine := ((ItemTree.lowerImplHeader_sound regular (.refl holds) block).of_eq_ok lowered).2
    exact ⟨ty, cx, lowered, fun quiet => (Ty.every_noError_iff ty).1 (fine.mono
      (flawless_testAt quiet))⟩
  · obtain ⟨p, cx, lowered⟩ := exists_ok own
      (ItemTree.lowerBound_ends settled.numbered settled.idle here scope isSuper path)
    have sound := ((ItemTree.lowerBound_sound regular (.refl holds) scope isSuper path).of_eq_ok
      lowered).2
    refine ⟨p, cx, lowered, fun quiet => ?_⟩
    have sound := sound.mono (flawless_testAt quiet)
    obtain ⟨fine, known⟩ := sound.not_failed id
    exact ⟨fine, known, fun t mem => (Ty.every_noError_iff t).1 (sound.every mem)⟩

/-- A struct; a trait with a default that mentions it and a trait object over itself,
lowered before the trait is cached; and a trait whose method takes a projection. -/
def library : List Step := [
  .declare (.adt .struct "Pair" ["A", "B"]),
  .declare (.trait "Source" [
    .typeParam "K" [] (some (.path ((TypePath.ofText "Pair").withArgs
      [.type (.ofText "u8"), .type (.ofText "bool")] []))),
    .assocType "Item" [] none,
    .method "next" [.self .ref, .param "other" (.traitObject [.ofText "Source"])]]),
  .declare (.trait "Sink" [.typeParam "S" [.ofText "Source"] none,
    .method "take" [.self .refMut, .param "item" (.ofText "S::Item")]]),
  .request (.runPasses Pass.standard)]

theorem performAll_noError_library :
    ((ItemTree.empty "main").after library).HasReceivers ∧
      ((ItemTree.empty "main").after library).NamesItems ∧
      ∃ handed s, (ofConfig {}).performAll library = .ok (handed, s) ∧
        handed ++ s.context.problems = [] ∧ s.context.cache.keys = [⟨1⟩, ⟨2⟩] ∧
        (∀ t ∈ s.context.storedTypes, t.hasError = false) ∧
        ∀ t ∈ s.context.nodeTypes, t.hasError = false := by
  have receivers : ((ItemTree.empty "main").after library).HasReceivers := by decide +kernel
  have named : ((ItemTree.empty "main").after library).NamesItems := by decide +kernel
  have observed : ((ofConfig {}).performAll library).toOption.map (fun out =>
      (out.1 ++ out.2.context.problems, out.2.context.cache.keys)) = some ([], [⟨1⟩, ⟨2⟩]) := by
    decide +kernel
  obtain ⟨handed, s, ran, stored, -⟩ := performAll_noError {} library receivers named
  obtain ⟨out, same, seen⟩ := ok_of_observed observed
  obtain rfl : (handed, s) = out := Except.ok.inj (ran.symm.trans same)
  obtain ⟨quiet, keys⟩ := Prod.mk.inj seen
  obtain ⟨types, -, nodes⟩ := stored quiet
  exact ⟨receivers, named, handed, s, ran, quiet, keys, types, nodes nofun⟩

/-! ## Conformance -/

/-- The standard by which nodes have to conform to the tree, reported problems or not. -/
def conforming (tree : ItemTree) (trusted : Prop) : Standard where
  tree
  nodes := tree.conformance
  excused := True
  trusted

theorem conforming_testAt {tree tree' : ItemTree} {trusted : Prop} {cx : Context} :
    ((((conforming tree trusted).handing handed).inTree tree').testAt cx).Le tree.conformance where
  adt := fun _ _ _ h => h
  bound := fun _ _ _ h => h
  projection := fun _ _ _ h => h
  error := fun _ => trivial

/-- With receivers, any declarations and requests give a session, and it lowers any type
expression in any scope. And whenever there is such a session and such a type, with
receivers or not, the nodes of the type and of all stored types conform to what is
declared by then. -/
theorem performAll_conforms (config : Config) (steps : List Step) :
    (((ItemTree.empty config.crate).after steps).HasReceivers →
      ∃ handed s, (ofConfig config).performAll steps = .ok (handed, s) ∧
        ∀ scope t, ∃ ty cx, s.tree.lowerTy scope t s.context = .ok (ty, cx)) ∧
    ∀ handed s, (ofConfig config).performAll steps = .ok (handed, s) →
      (∀ t ∈ s.context.storedTypes, t.Every s.tree.conformance) ∧
      ((∀ t ∈ steps.flatMap Step.supplied, t.Every s.tree.conformance) →
        ∀ t ∈ s.context.nodeTypes, t.Every s.tree.conformance) ∧
      ∀ scope t ty cx, s.tree.lowerTy scope t s.context = .ok (ty, cx) →
        ty.Every s.tree.conformance := by
  constructor
  · intro receivers
    obtain ⟨handed, s, ran, settled, own⟩ := performAll_settled config steps receivers
    exact ⟨handed, s, ran, fun scope t => exists_ok own
      (ItemTree.lowerTy_ends settled.numbered settled.idle (.refl s.context) scope t)⟩
  · intro handed s ran
    have tree : s.tree = (ItemTree.empty config.crate).after steps := tree_of_performAll ran
    obtain ⟨regular, holds⟩ := performAll_standard config steps
      (conforming s.tree (∀ t ∈ steps.flatMap Step.supplied, t.Every s.tree.conformance))
      (by rw [tree]; exact .refl _) (Or.inl trivial) (fun trust t mem => trust t mem) ran
    have sound := holds.mono conforming_testAt
    refine ⟨fun t mem => sound.every mem, fun trust t mem => sound.every_node trust mem, ?_⟩
    intro scope t ty cx lowered
    have fine := ((ItemTree.lowerTy_sound regular (.refl holds) scope t).of_eq_ok lowered).2
    exact fine.mono conforming_testAt

/-- In the method of `Source`, `dyn Source` got the default for `K`; in that of `Sink`,
`S::Item` was found in `Source`. -/
theorem performAll_conforms_library :
    ∃ handed s, (ofConfig {}).performAll library = .ok (handed, s) ∧
      s.context.types.get? ⟨5⟩ = some (.fn "next" (some (.ref (.param ⟨⟨2⟩, "Self"⟩)))
        [.dyn [.mk ⟨1⟩ "Source" [.adt ⟨0⟩ "Pair" [.prim (.uint .w8), .prim .bool]]]] .unit []) ∧
      s.context.types.get? ⟨8⟩ = some (.fn "take" (some (.refMut (.param ⟨⟨6⟩, "Self"⟩)))
        [.projection (.param ⟨⟨7⟩, "S"⟩) ⟨1⟩ "Source" "Item"] .unit []) ∧
      ∀ t ∈ s.context.nodeTypes, t.Every s.tree.conformance := by
  have receivers : ((ItemTree.empty "main").after library).HasReceivers := by decide +kernel
  have observed : ((ofConfig {}).performAll library).toOption.map (fun out =>
      (out.2.context.types.get? ⟨5⟩, out.2.context.types.get? ⟨8⟩)) =
      some (some (.fn "next" (some (.ref (.param ⟨⟨2⟩, "Self"⟩)))
          [.dyn [.mk ⟨1⟩ "Source" [.adt ⟨0⟩ "Pair" [.prim (.uint .w8), .prim .bool]]]] .unit []),
        some (.fn "take" (some (.refMut (.param ⟨⟨6⟩, "Self"⟩)))
          [.projection (.param ⟨⟨7⟩, "S"⟩) ⟨1⟩ "Source" "Item"] .unit [])) := by
    decide +kernel
  obtain ⟨returns, conform⟩ := performAll_conforms {} library
  obtain ⟨handed, s, ran, -⟩ := returns receivers
  obtain ⟨out, same, seen⟩ := ok_of_observed observed
  obtain rfl : (handed, s) = out := Except.ok.inj (ran.symm.trans same)
  obtain ⟨next, take⟩ := Prod.mk.inj seen
  exact ⟨handed, s, ran, next, take, (conform handed s ran).2.1 nofun⟩

end Session

end TraitEngine
