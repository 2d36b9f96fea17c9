import TraitEngine.Proofs.Resolved.Building
import TraitEngine.Proofs.Resolved.Receiver
import TraitEngine.Proofs.StoredTypes
/-!
# The shape of resolved traits

After any declarations and requests every cached trait mirrors its declaration, its super-traits
are cached, and the bounds of its receiver are the trait itself and its super-traits
(`performAll_mirrors`).

There are two exceptions (`performAll_mirrors_exceptions`). An item without a name becomes an
error, which has no node. And a request to which the receiver is handed as a parameter attaches
bounds of its own to it.
-/

namespace TraitEngine

set_option autoImplicit false

open Check

namespace Session

/-- A session between two steps: it is settled, all cached traits mirror their declarations, and
their super-traits are cached. -/
structure Mirroring (handed : List Problem) (s : Session) : Prop where
  settled : s.Settled
  mirrored : (s.tree.mirroring handed).Holds s.context
  begun : ∀ x y, s.context.SuperEdge x y → s.context.Begun y

variable {s s' : Session} {handed later : List Problem}

theorem mirroring_ofConfig (config : Config) : (ofConfig config).Mirroring [] where
  settled := settled_ofConfig config
  mirrored := fun _ mem => absurd mem List.not_mem_nil
  begun := ItemTree.superEdge_begun_start config.limit

/-- What is known of every trait once it is built, whatever the tree, and is not undone by later
declarations, is known of every cached trait between two steps. -/
theorem perform_lasting {good : ItemTree → List Problem → DefId → TraitRef → Prop}
    (lasting : ∀ tree : ItemTree, tree.Lasting (good tree))
    (carries : ∀ {tree tree' : ItemTree} {problems id t}, good tree problems id t →
      tree.items.toList <+: tree'.items.toList → good tree' problems id t)
    (settled : s.Settled)
    (known : ∀ e ∈ s.context.cache.entries, good s.tree (handed ++ s.context.problems) e.1 e.2)
    {step : Step} (performed : s.perform step = .ok (later, s')) :
    s'.Settled ∧ ∀ e ∈ s'.context.cache.entries,
      good s'.tree (handed ++ later ++ s'.context.problems) e.1 e.2 := by
  cases step with
  | declare declaration =>
      cases performed
      rw [List.append_nil]
      refine ⟨⟨settled.numbered.declare declaration, settled.idle.of_tree _⟩, fun e mem => ?_⟩
      exact carries (known e mem) (s.tree.declare_extends declaration)
  | request request =>
      simp only [Session.perform, run, bind, Except.bind] at performed
      split at performed
      · cases performed
      · rename_i out requested
        cases performed
        have ended := (ItemTree.run_performed settled.numbered
          (fun handed => Lowering.resolveWithin_lasting (lasting s.tree) handed _)
          (fun {handed cx} known e mem => (lasting s.tree).mono (known e mem)
            (List.subset_append_left _ []))
          settled.idle handed request).of_eq_ok requested
        exact ⟨⟨settled.numbered, ended.idle⟩, ended.kept known⟩

theorem performAll_lasting {good : ItemTree → List Problem → DefId → TraitRef → Prop}
    (lasting : ∀ tree : ItemTree, tree.Lasting (good tree))
    (carries : ∀ {tree tree' : ItemTree} {problems id t}, good tree problems id t →
      tree.items.toList <+: tree'.items.toList → good tree' problems id t)
    (steps : List Step) : ∀ (handed : List Problem) {s s' : Session} {later : List Problem},
    s.Settled →
    (∀ e ∈ s.context.cache.entries, good s.tree (handed ++ s.context.problems) e.1 e.2) →
    s.performAll steps = .ok (later, s') →
    ∀ e ∈ s'.context.cache.entries,
      good s'.tree (handed ++ later ++ s'.context.problems) e.1 e.2 := by
  induction steps with
  | nil =>
      intro handed s s' later _ known ran
      cases ran
      rwa [List.append_nil]
  | cons step rest ih =>
      intro handed s s' later settled known ran
      obtain ⟨first, s₁, others, performed, rested, rfl⟩ := performAll_cons ran
      rw [← List.append_assoc]
      obtain ⟨settled₁, known₁⟩ := perform_lasting lasting carries settled known performed
      exact ih _ settled₁ known₁ rested

/-- A declaration keeps what is resolved, and a request resolves in the tree as it is. -/
theorem Mirroring.perform (h : s.Mirroring handed) {step : Step}
    (performed : s.perform step = .ok (later, s')) : s'.Mirroring (handed ++ later) := by
  obtain ⟨settled, mirrored⟩ := perform_lasting ItemTree.lasting_mirrored
    (fun mirrored extends_ => mirrored.mono (List.Subset.refl _) extends_) h.settled h.mirrored
    performed
  refine ⟨settled, mirrored, ?_⟩
  cases step with
  | declare declaration =>
      cases performed
      exact h.begun
  | request request =>
      simp only [Session.perform, run, bind, Except.bind] at performed
      split at performed
      · cases performed
      · rename_i out requested
        cases performed
        have ended := (ItemTree.run_ends h.settled.numbered h.settled.idle request).of_eq_ok
          requested
        exact ended.1.superEdge_begun h.begun

theorem performAll_mirroring (steps : List Step) : ∀ {s s' : Session} {handed later : List Problem},
    s.Mirroring handed → s.performAll steps = .ok (later, s') →
    s'.Mirroring (handed ++ later) := by
  induction steps with
  | nil =>
      intro s s' handed later h ran
      cases ran
      rwa [List.append_nil]
  | cons step rest ih =>
      intro s s' handed later h ran
      obtain ⟨first, s₁, others, performed, rested, rfl⟩ := performAll_cons ran
      rw [← List.append_assoc]
      exact ih (h.perform performed) rested

/-- Between two steps the super-traits of a cached trait are cached. -/
theorem Mirroring.super_cached (h : s.Mirroring handed) {id super : DefId} {t : TraitRef}
    (found : s.context.trait? id = some t) {p : Predicate} (mem : p ∈ t.supers)
    (own : p.trait = some super) : super ∈ s.context.cache.keys := by
  refine (h.begun id super (Context.superEdge_iff.2 ⟨t, found, p, mem, own⟩)).resolve_left ?_
  exact h.settled.idle.notOpen super

/-- The receiver of a cached trait is bounded by the trait and its super-traits, unless a step has
brought it along as a parameter. -/
theorem bounds_of_performAll {config : Config} {steps : List Step}
    (ran : (ofConfig config).performAll steps = .ok (handed, s)) {id : DefId} {t : TraitRef}
    (found : s.context.trait? id = some t) {decl : TraitDecl} {receiver : TypeParam}
    {others : List TypeParam} (declared : s.tree.trait? id = some decl)
    (split : decl.splitReceiver? = some (receiver, others))
    (unbrought : receiver.node ∉ steps.flatMap Step.brought) :
    s.context.bounds.get? receiver.node =
      some ⟨(t.asBound (.param receiver.toParam) :: t.supers).eraseDups⟩ := by
  rw [tree_of_performAll ran] at declared
  have receives := ItemTree.receives_of_split
    ((ItemTree.housed_empty config.crate).after steps)
    ((ItemTree.parted_empty config.crate).after steps) declared split
  have start : (ofConfig config).context.Fitting id receiver.toParam :=
    .fresh (by simp [Context.Begun, ofConfig, Table.keys]) rfl
  cases performAll_fitting steps receives unbrought start ran with
  | fresh notBegun bare => exact absurd (Or.inr (Table.mem_keys_of_get? found)) notBegun
  | built steady =>
      obtain rfl := Option.some.inj (steady.cached.symm.trans found)
      rw [← Bounds.toList_addAll_empty]
      exact steady.bounds

/-- With receivers, any declarations and requests give a session. And whenever they give one, with
receivers or not, every cached trait mirrors its declaration. Its items have different names, and
a name finds the item that it finds in the declaration. Its super-traits have its receiver and all
their arguments, and they are cached. What bounds its receiver is the trait itself and then its
super-traits, each once, if no request has brought the receiver along. -/
theorem performAll_mirrors (config : Config) (steps : List Step) :
    (((ItemTree.empty config.crate).after steps).HasReceivers →
      ∃ handed s, (ofConfig config).performAll steps = .ok (handed, s)) ∧
    ∀ handed s, (ofConfig config).performAll steps = .ok (handed, s) →
      ∀ id t, s.context.trait? id = some t → ∃ decl receiver others,
        s.tree.trait? id = some decl ∧
        s.tree.Mirrors (handed ++ s.context.problems) t decl receiver others ∧
        (t.items.map ItemRef.name).Nodup ∧
        (∀ name, Option.Rel (ItemRef.Resolves t.params (.param receiver.toParam))
          (decl.item? name) (t.item? name)) ∧
        (∀ name, name ≠ "" →
          (t.item? name).bind ItemRef.node = (decl.item? name).map TraitItem.node) ∧
        (∀ p ∈ t.supers, p.failed = false ∧ p.Covers s.tree ∧
          p.receiver? = some (.param receiver.toParam) ∧ p.Applied ∧
          ∃ super, p.trait = some super ∧ super ∈ s.context.cache.keys) ∧
        (t.asBound (.param receiver.toParam)).trait = some id ∧
        (t.asBound (.param receiver.toParam)).receiver? = some (.param receiver.toParam) ∧
        (receiver.node ∉ steps.flatMap Step.brought →
          s.context.bounds.get? receiver.node =
            some ⟨(t.asBound (.param receiver.toParam) :: t.supers).eraseDups⟩) := by
  refine ⟨performAll_isOk config steps, fun handed s ran id t found => ?_⟩
  have ended : s.Mirroring handed := performAll_mirroring steps (mirroring_ofConfig config) ran
  obtain ⟨decl, receiver, others, declared, split, mirrors⟩ :
      s.tree.Mirrored (handed ++ s.context.problems) id t :=
    ended.mirrored _ (Table.mem_entries_of_get? found)
  obtain ⟨-, sound⟩ := performAll_standard config steps (conforming s.tree False)
    (by rw [tree_of_performAll ran]; exact .refl _) (Or.inl trivial) nofun ran
  obtain ⟨cachedAs, some⟩ := ended.settled.idle.coherent.cached_shape _
    (Table.mem_entries_of_get? found)
  obtain ⟨bound, self⟩ := TraitRef.asBound_spec cachedAs some (.param receiver.toParam)
  refine ⟨decl, receiver, others, declared, mirrors, ?_, TraitRef.item?_resolves mirrors.items,
    TraitRef.node_of_item? mirrors.items, fun p mem => ?_, bound, self,
    bounds_of_performAll ran found declared split⟩
  · rw [ItemRef.Resolves.names mirrors.items]
    exact TraitItem.firsts_names_nodup decl.items
  · obtain ⟨fine, receiver, applied⟩ := mirrors.super mem
    have covers := ((sound.trait? found).supers p mem).2.covers fine
    have ⟨super, _, own, _⟩ := covers
    exact ⟨fine, covers, receiver, applied, super, own, ended.super_cached found mem own⟩

/-- `trait Shape<T, Self: Base, 'a>: Sub + Base + Missing` with the constant `N` declared twice, put
together by hand, and `trait Sub: Shape {}`. -/
def shapes : List Step := [
  .declare (.trait "Base" []),
  .declare (.wholeTrait "Shape" {
    id := ⟨0⟩, name := "Shape", span := default
    params := [typeParam ⟨0⟩ "T" [] none default, typeParam ⟨0⟩ "Self" [.ofText "Base"] none default,
      .lifetime ⟨0⟩ "a" default]
    supers := [.trait (.ofText "Sub"), .trait (.ofText "Base"), .trait (.ofText "Missing")]
    items := [⟨⟨0⟩, "N", .const (.path (.ofText "u8")) none, default⟩,
      ⟨⟨0⟩, "f", .fn { self := some .ref, body := some ⟨[]⟩ }, default⟩,
      ⟨⟨0⟩, "N", .const (.path (.ofText "T")) (some ⟨[]⟩), default⟩] }),
  .declare (.trait "Sub" [.super (.ofText "Shape")]),
  .request (.resolve (.ofText "Shape"))]

/-- The receiver is in front, the second `N` is dropped, and so is the bound that names nothing. The
bound on `Base` stands twice among the super-traits and once among the bounds of the receiver. -/
theorem performAll_mirrors_shapes :
    let self : Param := ⟨⟨2⟩, "Self"⟩
    ((ItemTree.empty "main").after shapes).HasReceivers ∧
      ∃ handed s t, (ofConfig {}).performAll shapes = .ok (handed, s) ∧
        s.context.trait? ⟨1⟩ = some t ∧
        t.params.map TraitParam.param = [self, ⟨⟨1⟩, "T"⟩] ∧
        t.items.map ItemRef.name = ["N", "f"] ∧
        (t.item? "N").bind ItemRef.node = some ⟨4⟩ ∧
        t.supers.map Predicate.trait = [some ⟨2⟩, some ⟨0⟩, some ⟨0⟩] ∧
        (∀ p ∈ t.supers, p.receiver? = some (.param self)) ∧
        s.context.bounds.get? self.node =
          some ⟨(t.asBound (.param self) :: t.supers).eraseDups⟩ ∧
        (s.context.bounds.get? self.node).map (fun b => b.toList.map Predicate.trait) =
          some [some ⟨1⟩, some ⟨2⟩, some ⟨0⟩] := by
  intro self
  have receivers : ((ItemTree.empty "main").after shapes).HasReceivers := by decide +kernel
  have parts : ((ofConfig {}).performAll shapes).toOption.map (fun out =>
      (out.2.context.trait? ⟨1⟩).map fun t => (t.params.map TraitParam.param,
        t.items.map ItemRef.name)) = some (some ([self, ⟨⟨1⟩, "T"⟩], ["N", "f"])) := by
    decide +kernel
  have supers : ((ofConfig {}).performAll shapes).toOption.map (fun out =>
      ((out.2.context.trait? ⟨1⟩).map fun t => t.supers.map Predicate.trait,
        (out.2.context.bounds.get? self.node).map fun b => b.toList.map Predicate.trait)) =
      some (some [some ⟨2⟩, some ⟨0⟩, some ⟨0⟩], some [some ⟨1⟩, some ⟨2⟩, some ⟨0⟩]) := by
    decide +kernel
  have declaredNode : (((ItemTree.empty "main").after shapes).trait? ⟨1⟩).map
      (fun decl => (decl.item? "N").map TraitItem.node) = some (some ⟨4⟩) := by
    decide +kernel
  obtain ⟨⟨handed, s⟩, ran, seen⟩ := ok_of_observed parts
  obtain ⟨t, found, seen⟩ := Option.map_eq_some_iff.1 seen
  obtain ⟨params, names⟩ := Prod.mk.inj seen
  simp only [ran, Except.toOption, Option.map_some, found, Option.some.injEq,
    Prod.mk.injEq] at supers
  obtain ⟨decl, receiver, others, declared, mirrors, -, -, nodes, super, -, -, bounds⟩ :=
    (performAll_mirrors {} shapes).2 handed s ran ⟨1⟩ t found
  have own : receiver.toParam = self :=
    (List.cons.inj ((TraitParam.Resolves.params mirrors.params).symm.trans params)).1
  have node : receiver.node = self.node := congrArg Param.node own
  rw [own, node] at bounds
  have declared : ((ItemTree.empty "main").after shapes).trait? ⟨1⟩ = some decl :=
    tree_of_performAll ran ▸ declared
  rw [declared] at declaredNode
  refine ⟨receivers, handed, s, t, ran, found, params, names, ?_, supers.1, fun p mem => ?_,
    bounds List.not_mem_nil, supers.2⟩
  · rw [nodes "N" (by decide)]
    exact Option.some.inj declaredNode
  · rw [← own]
    exact (super p mem).2.2.1

/-- `trait Gap { const : u8; }`: the constant has no name. -/
def gap : List Step := [
  .declare (.trait "Gap" [.assocConst "" (.path (.ofText "u8")) none]),
  .request (.resolve (.ofText "Gap"))]

/-- `trait Shape<Self: Base>`, whose receiver is first lowered as a parameter of its own. -/
def borrowed : List Step := [
  .declare (.trait "Base" []),
  .declare (.wholeTrait "Shape" {
    id := ⟨0⟩, name := "Shape", span := default, supers := [], items := []
    params := [typeParam ⟨0⟩ "Self" [.ofText "Base"] none default] }),
  .request (.lowerGenerics [typeParam ⟨1⟩ "Self" [.ofText "Base"] none default]),
  .request (.resolve (.ofText "Shape"))]

/-- The item without a name has a node in the declaration, and none after resolution. The receiver
that was brought along has a bound before those of its trait. -/
theorem performAll_mirrors_exceptions :
    (∃ handed s t decl, (ofConfig {}).performAll gap = .ok (handed, s) ∧
      s.context.trait? ⟨0⟩ = some t ∧ s.tree.trait? ⟨0⟩ = some decl ∧
      (decl.item? "").map TraitItem.node = some ⟨1⟩ ∧ (t.item? "").bind ItemRef.node = none) ∧
    ∃ handed s t, (ofConfig {}).performAll borrowed = .ok (handed, s) ∧
      s.context.trait? ⟨1⟩ = some t ∧
      s.context.bounds.get? ⟨1⟩ ≠
        some ⟨(t.asBound (.param ⟨⟨1⟩, "Self"⟩) :: t.supers).eraseDups⟩ := by
  constructor
  · have observed : ((ofConfig {}).performAll gap).toOption.map (fun out =>
        ((out.2.tree.trait? ⟨0⟩).map fun decl => (decl.item? "").map TraitItem.node,
          (out.2.context.trait? ⟨0⟩).map fun t => (t.item? "").bind ItemRef.node)) =
        some (some (some ⟨1⟩), some none) := by
      decide +kernel
    obtain ⟨⟨handed, s⟩, ran, seen⟩ := ok_of_observed observed
    obtain ⟨inTree, inCache⟩ := Prod.mk.inj seen
    obtain ⟨decl, declared, node⟩ := Option.map_eq_some_iff.1 inTree
    obtain ⟨t, found, none⟩ := Option.map_eq_some_iff.1 inCache
    exact ⟨handed, s, t, decl, ran, found, declared, node, none⟩
  · have observed : ((ofConfig {}).performAll borrowed).toOption.map (fun out =>
        (out.2.context.trait? ⟨1⟩).map fun t => decide (out.2.context.bounds.get? ⟨1⟩ =
          some ⟨(t.asBound (.param ⟨⟨1⟩, "Self"⟩) :: t.supers).eraseDups⟩)) =
        some (some false) := by
      decide +kernel
    obtain ⟨⟨handed, s⟩, ran, seen⟩ := ok_of_observed observed
    obtain ⟨t, found, other⟩ := Option.map_eq_some_iff.1 seen
    exact ⟨handed, s, t, ran, found, of_decide_eq_false other⟩

end Session

end TraitEngine
