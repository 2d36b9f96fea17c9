import TraitEngine.Proofs.Sessions
import TraitEngine.Proofs.Sound.Resolution
/-!
# Sessions hold sound contexts

Every operation of a tree goes from a sound context to a sound one, and so does every
step of a session: a request keeps to the standard of its tree, a declaration only adds
to what the standard refers to. Problems that are handed out leave the context, so what
they were reported for is excused from then on (`Standard.handing`).

So after any steps the context is sound, and what is lowered next passes
(`Session.performAll_sound`).
-/

namespace TraitEngine

set_option autoImplicit false

open Check

/-! ## The operations of a tree -/

namespace ItemTree

variable {std : Standard} {cx cx₁ : Context}

section

variable (regular : std.Regular) (onward : std.Onward cx cx₁)

include regular onward

/-- A request of the session, at full depth. -/
theorem resolveDef_sound (id : DefId) (span : Span) :
    Ends AnyFault (std.tree.resolveDef id span) cx₁ fun _ cx₂ => std.Onward cx cx₂ :=
  (Lowering.resolveWithin_answering regular _ id span cx₁ onward.sound).mono fun _ _ answer =>
    onward.trans answer.onward

theorem resolveTrait_sound (path : TypePath) :
    Ends AnyFault (std.tree.resolveTrait path) cx₁ fun _ cx₂ => std.Onward cx cx₂ := by
  rw [resolveTrait]
  split
  · exact resolveDef_sound regular onward _ path.span
  · simp only [ends_bind, ends_report, ends_pure]
    exact onward.report _

omit regular in
theorem lookupTrait_sound (path : TypePath) :
    Ends AnyFault (std.tree.lookupTrait path) cx₁ fun _ cx₂ => std.Onward cx cx₂ := by
  rw [lookupTrait]
  split
  · exact onward
  · simp only [ends_bind, ends_report, ends_pure]
    exact onward.report _

/-- What a session lowers passes. -/
theorem lowerTy_sound (scope : Scope) (t : TypeExpr) :
    Ends AnyFault (std.tree.lowerTy scope t) cx₁ fun ty cx₂ =>
      std.Onward cx cx₂ ∧ ty.Every (std.testAt cx₂) :=
  (Lowering.lowerTy_sound regular (Lowering.resolveWithin_answering regular _) scope t
    onward.sound).mono fun _ _ lowered => ⟨onward.trans lowered.1, lowered.2⟩

theorem lowerBound_sound (scope : Scope) (isSuper : Bool) (path : TypePath) :
    Ends AnyFault (std.tree.lowerBound scope isSuper path) cx₁ fun p cx₂ =>
      std.Onward cx cx₂ ∧ p.Sound std.tree (std.testAt cx₂) :=
  (Lowering.lowerBound_sound regular (Lowering.resolveWithin_answering regular _) scope isSuper
    path onward.sound).mono fun _ _ lowered => ⟨onward.trans lowered.1, lowered.2.sound⟩

theorem lowerGenerics_sound (generics : List GenericParam) :
    Ends AnyFault (std.tree.lowerGenerics generics) cx₁ fun _ cx₂ => std.Onward cx cx₂ := by
  simp only [lowerGenerics, ends_bind, ends_pure]
  exact (Lowering.lowerGenerics_sound regular (Lowering.resolveWithin_answering regular _) {}
    generics onward.sound).mono fun _ _ later => onward.trans later

theorem lowerImplHeader_sound (block : ImplBlock) :
    Ends AnyFault (std.tree.lowerImplHeader block) cx₁ fun ty cx₂ =>
      std.Onward cx cx₂ ∧ ty.Every (std.testAt cx₂) := by
  simp only [lowerImplHeader, ends_bind, ends_modify, ends_pure]
  refine (lowerGenerics_sound regular onward block.params).mono fun scope cx₂ onward => ?_
  refine (lowerTy_sound regular onward scope block.self).mono fun self cx₃ lowered => ?_
  exact ⟨lowered.1.insertType block.selfNode fun _ => lowered.2, lowered.2⟩

omit regular in
/-- A review only reports. -/
theorem reviewImpl_sound (block : ImplBlock) (p : Predicate) :
    Ends AnyFault (reviewImpl block p) cx₁ fun _ cx₂ => std.Onward cx cx₂ := by
  simp only [reviewImpl, ends_bind, ends_get]
  split
  · rename_i t _
    have missing : Ends AnyFault (reportMissing cx₁ block p t) cx₁ fun _ cx₂ =>
        std.Onward cx cx₂ := by
      rw [reportMissing]
      split
      · exact onward
      · rw [ends_report]
        exact onward.report _
    rw [ends_bind]
    refine missing.mono fun _ cx₂ onward => ?_
    simp only [reportStrangers, ends_bind, ends_pure]
    refine ends_forIn _ _ onward fun item _ cx₃ onward => ?_
    split
    · exact ⟨rfl, onward⟩
    · simp only [ends_bind, ends_report, ends_pure]
      exact ⟨trivial, onward.report _⟩
  · exact onward

/-- An implementation is lowered and reviewed; nothing unsound is recorded. -/
theorem checkImpl_sound (block : ImplBlock) :
    Ends AnyFault (std.tree.checkImpl block) cx₁ fun _ cx₂ => std.Onward cx cx₂ := by
  rw [checkImpl]
  split
  · rename_i path _
    have bound (self : Ty) {cx₂ : Context} (onward : std.Onward cx cx₂) :
        Ends AnyFault (std.tree.lowerBound (implScope cx₂ block) false path) cx₂ fun p cx₃ =>
          Ends AnyFault (reviewImpl block (p.bindReceiver self)) cx₃ fun _ cx₄ =>
            std.Onward cx cx₄ :=
      (lowerBound_sound regular onward _ false path).mono fun p _ lowered =>
        reviewImpl_sound lowered.1 block (p.bindReceiver self)
    simp only [ends_bind, ends_get]
    split
    · simp only [ends_bind, ends_get, ends_pure]
      exact bound _ onward
    · simp only [ends_bind, ends_get]
      exact (lowerImplHeader_sound regular onward block).mono fun self _ lowered =>
        bound self lowered.1
  · exact onward

/-- A probe resolves traits and compares types. -/
theorem probe_sound (receiver : Ty) :
    Ends AnyFault (std.tree.probe receiver) cx₁ fun _ cx₂ => std.Onward cx cx₂ := by
  simp only [probe, ends_bind, ends_pure]
  refine ends_mapM _ _ onward fun block _ cx₂ onward => ?_
  rw [probeBlock]
  split
  · simp only [ends_bind, ends_get]
    split
    · split
      · simp only [ends_bind, ends_pure]
        exact resolveTrait_sound regular onward _
      · exact onward
    · exact onward
  · exact onward

theorem pass_sound (pass : Pass) :
    Ends AnyFault (pass.run std.tree) cx₁ fun _ cx₂ => std.Onward cx cx₂ := by
  cases pass with
  | implHeaders =>
      simp only [Pass.run, ← Array.forIn_toList, ends_bind, ends_pure]
      refine ends_forIn _ _ onward fun block _ cx₂ onward => ?_
      simp only [ends_bind, ends_pure]
      exact (lowerImplHeader_sound regular onward block).mono fun _ _ lowered =>
        ⟨trivial, lowered.1⟩
  | traits =>
      simp only [Pass.run, ends_bind, ends_pure]
      refine ends_forIn _ _ onward fun id _ cx₂ onward => ?_
      split
      · simp only [ends_bind, ends_pure]
        exact (resolveDef_sound regular onward id _).mono fun _ _ onward => ⟨trivial, onward⟩
      · exact ⟨rfl, onward⟩
  | impls =>
      simp only [Pass.run, ← Array.forIn_toList, ends_bind, ends_pure]
      refine ends_forIn _ _ onward fun block _ cx₂ onward => ?_
      simp only [ends_bind, ends_pure]
      exact (checkImpl_sound regular onward block).mono fun _ _ onward => ⟨trivial, onward⟩

end

end ItemTree

/-! ## Handing out problems and declaring items -/

namespace Standard

/-- The standard after problems were handed out: nobody finds them in the context any
more, so errors are excused. -/
def handing (std : Standard) (handed : List Problem) : Standard :=
  { std with excused := std.excused ∨ handed ≠ [] }

/-- The standard for another tree. -/
def inTree (std : Standard) (tree : ItemTree) : Standard := { std with tree }

variable {std : Standard} {cx : Context}

@[simp] theorem handing_nil (std : Standard) : std.handing [] = std := by
  simp [handing]

/-- Problems handed out in two goes excuse what they do in one. -/
theorem handing_append (std : Standard) (first later : List Problem) :
    std.handing (first ++ later) = (std.handing first).handing later := by
  simp only [handing, ne_eq, List.append_eq_nil_iff, not_and_or, or_assoc]

theorem Regular.handing (regular : std.Regular) (handed : List Problem) :
    (std.handing handed).Regular where
  numbered := regular.numbered
  adts := regular.adts
  conforming := regular.conforming
  tidy := regular.tidy.imp_left Or.inl

/-- What a problem in the context accounts for is accounted for when it is handed out. -/
theorem Holds.handOut (holds : std.Holds cx) :
    (std.handing cx.problems).Holds { cx with problems := [] } :=
  (holds.mono (test_le Or.inl)).of_eq rfl rfl rfl rfl rfl

theorem Holds.inTree (holds : std.Holds cx) {tree : ItemTree}
    (more : std.tree.items.toList <+: tree.items.toList) : (std.inTree tree).Holds cx := by
  have declared (id : DefId) (decl : TraitDecl) (h : std.tree.trait? id = some decl) :
      tree.trait? id = some decl := ItemTree.trait?_of_extends more h
  have params {id : DefId} {ps : List TraitParam} (h : ParamsSound std.tree (std.testAt cx) id ps) :
      ParamsSound tree (std.testAt cx) id ps := by
    obtain ⟨decl, known, count⟩ := h.counted
    exact ⟨⟨decl, declared id decl known, count⟩, h.defaults⟩
  exact {
    types := holds.types
    bounds := fun e mem p there => (holds.bounds e mem p there).of_tree declared
    cache := fun e mem => {
      own := (holds.cache e mem).own
      params := params (holds.cache e mem).params
      items := (holds.cache e mem).items
      supers := fun p there =>
        ((holds.cache e mem).supers p there).imp_right fun sound => sound.of_tree declared }
    pending := fun e mem => params (holds.pending e mem)
    stack := fun id mem => (holds.stack id mem).imp (declared id) }

/-- A standard that is regular for a tree is regular for an earlier one. -/
theorem Regular.earlier {tree : ItemTree} (regular : std.Regular) (numbered : tree.Numbered)
    (adts : tree.AdtsNumbered) (more : tree.items.toList <+: std.tree.items.toList) :
    (std.inTree tree).Regular where
  numbered := numbered
  adts := adts
  conforming := {
    adt := fun id name args h => regular.conforming.adt id name args
      (h.imp fun _ => And.imp_left (ItemTree.adt?_of_extends more))
    bound := fun id name args h => regular.conforming.bound id name args
      (h.imp fun _ => And.imp_left (ItemTree.trait?_of_extends more))
    projection := fun id traitName name h => regular.conforming.projection id traitName name
      (h.imp fun _ => And.imp_left (ItemTree.trait?_of_extends more))
    error := id }
  tidy := regular.tidy.imp_right fun tidy =>
    ⟨fun item mem => tidy.1 item (more.subset mem), fun item mem => tidy.2 item (more.subset mem)⟩

/-- A new context has nothing in it that would have to pass. -/
theorem holds_start (std : Standard) (limit : Nat) : std.Holds { limit } where
  types := fun _ => nofun
  bounds := nofun
  cache := nofun
  pending := nofun
  stack := nofun

end Standard

/-! ## Requests -/

/-- The types that a request has the context store as they are. -/
def Request.supplied : Request → List Ty
  | .lowerItem _ _ self _ _ => [self]
  | _ => []

def Step.supplied : Step → List Ty
  | .declare _ => []
  | .request r => r.supplied

namespace ItemTree

variable {std : Standard} {cx : Context}

/-- What the passes hand out goes on excusing errors. -/
theorem runPasses_sound : ∀ (passes : List Pass) {std : Standard} {cx : Context}, std.Regular →
    std.Holds cx → Ends AnyFault (std.tree.runPasses passes) cx fun handed cx' =>
      (std.handing handed).Holds cx'
  | [], std, cx, _, holds => by
      rw [runPasses, ends_pure, Standard.handing_nil]
      exact holds
  | pass :: rest, std, cx, regular, holds => by
      simp only [runPasses, ends_bind, Check.takeProblems, ends_modifyGet, ends_pure]
      refine (pass_sound regular (.refl holds) pass).mono fun _ cx₁ onward => ?_
      refine (runPasses_sound rest (regular.handing cx₁.problems) onward.sound.handOut).mono
        fun later cx₂ kept => ?_
      rw [Standard.handing_append]
      exact kept

/-- A request keeps the context sound, if what it supplies passes where that matters. -/
theorem run_sound (regular : std.Regular) (holds : std.Holds cx) (request : Request)
    (supplied : std.trusted → ∀ t ∈ request.supplied, t.Every (std.testAt cx)) :
    Ends AnyFault (request.run std.tree) cx fun handed cx' => (std.handing handed).Holds cx' := by
  have here : std.Onward cx cx := .refl holds
  have nothing {α : Type} {x : Check α} (h : Ends AnyFault x cx fun _ cx' => std.Onward cx cx') :
      Ends AnyFault (do let _ ← x; return ([] : List Problem)) cx fun handed cx' =>
        (std.handing handed).Holds cx' := by
    simp only [ends_bind, ends_pure, Standard.handing_nil]
    exact h.mono fun _ _ onward => onward.sound
  cases request with
  | resolve path => exact nothing (resolveTrait_sound regular here path)
  | resolveDef id span => exact nothing (resolveDef_sound regular here id span)
  | lookup path => exact nothing (lookupTrait_sound here path)
  | lowerTy scope t =>
      exact nothing ((lowerTy_sound regular here scope t).mono fun _ _ lowered => lowered.1)
  | lowerBound scope isSuper path =>
      exact nothing ((lowerBound_sound regular here scope isSuper path).mono
        fun _ _ lowered => lowered.1)
  | lowerGenerics generics => exact nothing (lowerGenerics_sound regular here generics)
  | lowerItem scope id self params item =>
      exact nothing ((Lowering.lowerItem_sound regular (Lowering.resolveWithin_answering regular _)
        scope id self params item holds fun trust => supplied trust self List.mem_cons_self).mono
        fun _ _ lowered => lowered.1)
  | checkBound p emit span =>
      refine nothing ?_
      rw [ends_modifyGet, Predicate.checkObjectSafety]
      split
      · exact here.checkObjectSafety _ emit span
      · exact here
  | checkTrait t emit span =>
      refine nothing ?_
      rw [ends_modifyGet]
      exact here.checkObjectSafety t emit span
  | implHeader block =>
      exact nothing ((lowerImplHeader_sound regular here block).mono fun _ _ lowered => lowered.1)
  | checkImpl block => exact nothing (checkImpl_sound regular here block)
  | probe receiver => exact nothing (probe_sound regular here receiver)
  | runPasses passes => exact runPasses_sound passes regular holds
  | takeProblems =>
      simp only [Request.run, Check.takeProblems, ends_modifyGet]
      exact holds.handOut

end ItemTree

/-! ## Sessions -/

namespace Session

variable {s s' : Session} {handed : List Problem}

/-- Steps one by one: the first, and the others from where it left off. -/
theorem performAll_cons {step : Step} {rest : List Step}
    (ran : s.performAll (step :: rest) = .ok (handed, s')) :
    ∃ first s₁ later, s.perform step = .ok (first, s₁) ∧ s₁.performAll rest = .ok (later, s') ∧
      handed = first ++ later := by
  simp only [performAll, bind, Except.bind] at ran
  split at ran
  · cases ran
  · rename_i out performed
    split at ran
    · cases ran
    · rename_i out' rested
      cases ran
      exact ⟨out.1, out.2, out'.1, performed, rested, rfl⟩

/-- Steps may be performed in two goes. -/
theorem performAll_append {steps later : List Step} {s₁ : Session} {handed' : List Problem}
    (first : s.performAll steps = .ok (handed, s₁))
    (second : s₁.performAll later = .ok (handed', s')) :
    s.performAll (steps ++ later) = .ok (handed ++ handed', s') := by
  induction steps generalizing s handed with
  | nil =>
      cases first
      exact second
  | cons step rest ih =>
      obtain ⟨own, s₂, others, performed, rested, rfl⟩ := performAll_cons first
      simp only [List.cons_append, performAll, performed, ih rested, bind, Except.bind,
        List.append_assoc]
      rfl

/-- Which declarations there are after a step does not depend on the context. -/
theorem tree_of_perform {step : Step} (performed : s.perform step = .ok (handed, s')) :
    s'.tree = step.treeAfter s.tree := by
  cases step with
  | declare declaration =>
      cases performed
      rfl
  | request request =>
      simp only [perform, run, bind, Except.bind] at performed
      split at performed <;> cases performed
      rfl

theorem tree_of_performAll {steps : List Step} {s s' : Session} {handed : List Problem}
    (ran : s.performAll steps = .ok (handed, s')) : s'.tree = s.tree.after steps := by
  induction steps generalizing s handed with
  | nil =>
      cases ran
      rfl
  | cons step rest ih =>
      obtain ⟨first, s₁, later, performed, rested, -⟩ := performAll_cons ran
      rw [ih rested, tree_of_perform performed]
      rfl

/-- A step keeps the context sound for the tree after it. -/
theorem perform_sound {std : Standard} (regular : (std.inTree s.tree).Regular) (step : Step)
    (supplied : std.trusted → ∀ t ∈ step.supplied, t.Every (std.test std.excused))
    (holds : (std.inTree s.tree).Holds s.context) (performed : s.perform step = .ok (handed, s')) :
    ((std.handing handed).inTree s'.tree).Holds s'.context := by
  cases step with
  | declare declaration =>
      cases performed
      rw [Standard.handing_nil]
      exact holds.inTree (s.tree.declare_extends declaration)
  | request request =>
      have kept := ItemTree.run_sound regular holds request fun trust t mem =>
        (supplied trust t mem).mono (Standard.test_le Or.inl)
      simp only [perform, run, bind, Except.bind] at performed
      split at performed
      · cases performed
      · rename_i out ran
        cases performed
        exact kept.of_eq_ok ran

/-- After any steps the context is sound for the tree that they give, up to the problems
that were handed out. -/
theorem performAll_sound (steps : List Step) : ∀ {std : Standard} {s : Session},
    s.tree.Numbered → s.tree.AdtsNumbered → (std.inTree (s.tree.after steps)).Regular →
    (std.trusted → ∀ t ∈ steps.flatMap Step.supplied, t.Every (std.test std.excused)) →
    (std.inTree s.tree).Holds s.context → s.performAll steps = .ok (handed, s') →
    ((std.handing handed).inTree s'.tree).Regular ∧
      ((std.handing handed).inTree s'.tree).Holds s'.context := by
  induction steps generalizing handed with
  | nil =>
      intro std s _ _ regular _ holds ran
      cases ran
      rw [Standard.handing_nil]
      exact ⟨regular, holds⟩
  | cons step rest ih =>
      intro std s numbered adts regular supplied holds ran
      obtain ⟨first, s₁, later, performed, rested, rfl⟩ := performAll_cons ran
      have tree₁ := tree_of_perform performed
      have now : (std.inTree s.tree).Regular :=
        regular.earlier numbered adts (s.tree.after_extends (step :: rest))
      have holds₁ := perform_sound now step
        (fun trust t mem => supplied trust t (List.mem_flatMap.2 ⟨step, List.mem_cons_self, mem⟩))
        holds performed
      have whole : s₁.tree.after rest = s.tree.after (step :: rest) := by
        rw [tree₁]
        rfl
      rw [Standard.handing_append]
      refine ih (tree₁ ▸ numbered.treeAfter step) (tree₁ ▸ adts.treeAfter step) ?_ ?_ holds₁ rested
      · rw [whole]
        exact regular.handing first
      · exact fun trust t mem => (supplied trust t (List.mem_append_right _ mem)).mono
          (Standard.test_le Or.inl)

end Session

end TraitEngine
