import TraitEngine.Proofs.Requests
/-!
# Sessions

Declarations and requests in any order: each request starts on an idle context and
leaves one, whatever was declared in between. If every trait has a receiver, no
step of a session faults (`performAll_isOk`), however deep its declarations refer
to each other and whatever the recursion limit is.
-/

namespace TraitEngine

set_option autoImplicit false

open Check

namespace ItemTree

variable {tree : ItemTree} {cx cx' : Context}

theorem HasReceivers.no_fault (receivers : tree.HasReceivers) {f : Fault} :
    ¬ tree.Faults f := by
  rintro ⟨id, decl, declared, missing, -⟩
  have receiver := receivers.split declared
  rw [missing] at receiver
  exact Bool.noConfusion receiver

/-- With receivers, a request on an idle context gives a result. -/
theorem run_ok (numbered : tree.Numbered) (receivers : tree.HasReceivers) (idle : tree.Idle cx)
    (request : Request) : ∃ handed cx', request.run tree cx = .ok (handed, cx') ∧
      tree.Run cx handed cx' ∧ tree.Idle cx' :=
  ((run_ends numbered idle request).mono_faults fun _ fault => receivers.no_fault fault).exists_ok

end ItemTree

namespace Session

/-- A session between two steps. -/
structure Settled (s : Session) : Prop where
  numbered : s.tree.Numbered
  idle : s.tree.Idle s.context

theorem settled_ofConfig (config : Config) : (ofConfig config).Settled where
  numbered := ItemTree.numbered_empty config.crate
  idle := .start config.limit

variable {s : Session}

/-- A step of a settled session in a tree with receivers gives a settled session. Its
context has gone through a run, in the tree of the session or not at all. -/
theorem Settled.perform (settled : s.Settled) (receivers : s.tree.HasReceivers) (step : Step) :
    ∃ handed s', s.perform step = .ok (handed, s') ∧ s'.tree = step.treeAfter s.tree ∧
      s'.Settled ∧ s.tree.Run s.context handed s'.context := by
  cases step with
  | declare declaration =>
      exact ⟨_, _, rfl, rfl, ⟨settled.numbered.declare declaration, settled.idle.of_tree _⟩, .refl⟩
  | request request =>
      obtain ⟨handed, cx, ran, run, idle⟩ :=
        ItemTree.run_ok settled.numbered receivers settled.idle request
      refine ⟨handed, { s with context := cx }, ?_, rfl, ⟨settled.numbered, idle⟩, run⟩
      simp only [Session.perform, Session.run, ran]
      rfl

/-- Steps one after the other, and what holds along each of their runs. -/
theorem Settled.performAll (along : Context → Context → Prop) (refl : ∀ cx, along cx cx)
    (trans : ∀ {cx cx₁ cx₂}, along cx cx₁ → along cx₁ cx₂ → along cx cx₂)
    (run : ∀ {tree : ItemTree} {cx handed cx'}, tree.Coherent cx → tree.Run cx handed cx' →
      along cx cx') (steps : List Step) (settled : s.Settled)
    (receivers : (s.tree.after steps).HasReceivers) :
    ∃ handed s', s.performAll steps = .ok (handed, s') ∧ s'.tree = s.tree.after steps ∧
      s'.Settled ∧ along s.context s'.context := by
  induction steps generalizing s with
  | nil => exact ⟨[], s, rfl, rfl, settled, refl s.context⟩
  | cons step rest ih =>
      obtain ⟨handed, s₁, performed, tree₁, settled₁, run₁⟩ :=
        settled.perform receivers.of_after step
      obtain ⟨later, s₂, rested, tree₂, settled₂, along₂⟩ := ih settled₁ (tree₁ ▸ receivers)
      refine ⟨handed ++ later, s₂, ?_, ?_, settled₂, trans (run settled.idle.coherent run₁) along₂⟩
      · simp only [Session.performAll, performed, rested, bind, Except.bind]
        rfl
      · rw [tree₂, tree₁]
        rfl

/-- No sequence of declarations and requests faults if every declared trait has a
receiver. Above all, resolution ends before the bound on its nesting is reached,
whatever the traits name in their super-traits, bounds, defaults, items and bodies. -/
theorem performAll_isOk (config : Config) (steps : List Step)
    (receivers : ((ItemTree.empty config.crate).after steps).HasReceivers) :
    ∃ handed s, (ofConfig config).performAll steps = .ok (handed, s) := by
  obtain ⟨handed, s, performed, -⟩ := (settled_ofConfig config).performAll (fun _ _ => True)
    (fun _ => trivial) (fun _ _ => trivial) (fun _ _ => trivial) steps receivers
  exact ⟨handed, s, performed⟩

/-- Two traits that refer to each other in every way: as super-traits, in a bound on a
method, in a trait object and in default bodies. -/
def entangled : List Step := [
  .declare (.trait "A" [.super (.ofText "B"), .typeParam "T" [] (some (.traitObject [.ofText "B"])),
    .method "f" [.self .ref, .typeParam "U" [.ofText "A"], .body ⟨[.bound (.ofText "A")]⟩]]),
  .declare (.trait "B" [.super (.ofText "A"), .assocType "N" [.ofText "B"] none,
    .method "g" [.self .ref, .param "x" (.traitObject [.ofText "A"]),
      .body ⟨[.item (.ofText "A") "f", .bound (.ofText "B")]⟩]]),
  .request (.lowerTy {} (.traitObject [.ofText "B"])),
  .request (.runPasses Pass.standard)]

/-- A trait that extends both, declared when they are resolved. -/
def extended : List Step := [
  .declare (.trait "C" [.super (.ofText "A"), .super (.ofText "B"),
    .typeParam "T" [.ofText "C"] none]),
  .request (.resolve (.ofText "C"))]

theorem performAll_isOk_entangled :
    ((ItemTree.empty "main").after entangled).HasReceivers ∧
      ∃ handed s, (ofConfig { limit := 18446744073709551615 }).performAll entangled =
        .ok (handed, s) := by
  have receivers : ((ItemTree.empty "main").after entangled).HasReceivers := by decide +kernel
  exact ⟨receivers, performAll_isOk { limit := 18446744073709551615 } entangled receivers⟩

end Session

end TraitEngine
