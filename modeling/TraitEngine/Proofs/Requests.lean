import TraitEngine.Proofs.Resolution
import TraitEngine.Workload
/-!
# Requests at the top level

Between requests an analysis is idle: no trait is on the stack, nothing waits, and
every cached trait is done. From an idle context every request runs to its end and
leaves the context idle; what it does is a `Run`: moves, between which problems are
handed out. No request faults but on a trait without a receiver.
-/

namespace TraitEngine

set_option autoImplicit false

open Check

namespace ItemTree

variable (tree : ItemTree)

/-- A context between requests: nothing is on the stack, no check waits, and no trait is
cached with its bodies unchecked. -/
structure Idle (cx : Context) : Prop where
  coherent : tree.Coherent cx
  stack : cx.stack.entries = []
  deferred : cx.deferred = []
  done : ∀ id, cx.states.get? id ≠ some .cached

/-- A run of moves in which the problems of an idle context may be handed out. -/
inductive Run (cx : Context) : List Problem → Context → Prop where
  | refl : Run cx [] cx
  | move {handed : List Problem} {cx₁ cx₂ : Context} (before : Run cx handed cx₁)
      (move : tree.Move cx₁ cx₂) : Run cx handed cx₂
  | handOut {handed : List Problem} {cx₁ : Context} (before : Run cx handed cx₁)
      (idle : cx₁.stack.entries = []) :
      Run cx (handed ++ cx₁.problems) { cx₁ with problems := [] }

variable {tree} {cx cx₁ cx₂ : Context} {handed later : List Problem}

/-! ## Runs -/

/-- Runs one after the other, with what they hand out in this order. -/
theorem Run.trans (first : tree.Run cx handed cx₁) (second : tree.Run cx₁ later cx₂) :
    tree.Run cx (handed ++ later) cx₂ := by
  induction second with
  | refl => simpa only [List.append_nil] using first
  | move before move ih => exact ih.move move
  | handOut before idle ih =>
      rw [← List.append_assoc]
      exact ih.handOut idle

/-- Moves alone hand out nothing. -/
theorem Run.moves (moves : tree.Moves cx cx₁) : tree.Run cx [] cx₁ := by
  induction moves with
  | refl => exact .refl
  | tail _ move ih => exact ih.move move

theorem Coherent.handOut (h : tree.Coherent cx) :
    tree.Coherent { cx with problems := [] } :=
  h.of_eq rfl rfl rfl rfl rfl rfl

/-- A run keeps contexts coherent. -/
theorem Run.coherent (run : tree.Run cx handed cx₁) (h : tree.Coherent cx) :
    tree.Coherent cx₁ := by
  induction run with
  | refl => exact h
  | move _ move ih => exact move.coherent ih
  | handOut _ _ ih => exact ih.handOut

/-- A run only adds to the cache, at its end. -/
theorem Run.cache (run : tree.Run cx handed cx₁) : cx.cache.entries <+: cx₁.cache.entries := by
  induction run with
  | refl => exact List.prefix_rfl
  | move before move ih => exact ih.trans move.cache
  | handOut before idle ih => exact ih

/-- A problem is handed out at most once, and until then it is kept. -/
theorem Run.problems (run : tree.Run cx handed cx₁) : cx.problems ⊆ handed ++ cx₁.problems := by
  induction run with
  | refl => exact List.Subset.refl _
  | @move handed cx₁ cx₂ before move ih =>
      refine List.Subset.trans ih (List.append_subset.2 ⟨List.subset_append_left handed _, ?_⟩)
      exact List.subset_append_of_subset_right handed move.problems
  | handOut before idle ih => simpa using ih

/-! ## Being idle -/

/-- Parameters are pending for traits on the stack only. -/
theorem Coherent.pending_eq_nil (h : tree.Coherent cx) (idle : cx.stack.keys = []) :
    cx.pending.entries = [] := by
  refine List.eq_nil_iff_forall_not_mem.2 fun e mem => ?_
  have waits := (h.pending_shape e mem).1
  rw [idle] at waits
  exact List.not_mem_nil waits

namespace Idle

theorem start (limit : Nat) : tree.Idle { limit } where
  coherent := {
    nested := .nil
    stack_declared := nofun
    cached_shape := nofun
    pending_shape := nofun
    deferred_waits := nofun }
  stack := rfl
  deferred := rfl
  done := nofun

theorem keys (h : tree.Idle cx) : cx.stack.keys = [] := by rw [Table.keys, h.stack, List.map_nil]

theorem notOpen (h : tree.Idle cx) (id : DefId) : id ∉ cx.stack.keys := by
  rw [h.keys]
  exact List.not_mem_nil

theorem pending (h : tree.Idle cx) : cx.pending.entries = [] :=
  h.coherent.pending_eq_nil h.keys

/-- What is idle in one tree is idle in any. -/
theorem of_tree (h : tree.Idle cx) (tree' : ItemTree) : tree'.Idle cx where
  coherent := {
    nested := h.coherent.nested
    stack_declared := by
      intro id waits
      exact absurd waits (h.notOpen id)
    cached_shape := h.coherent.cached_shape
    pending_shape := h.coherent.pending_shape
    deferred_waits := h.coherent.deferred_waits }
  stack := h.stack
  deferred := h.deferred
  done := h.done

theorem handOut (h : tree.Idle cx) : tree.Idle { cx with problems := [] } where
  coherent := h.coherent.handOut
  stack := h.stack
  deferred := h.deferred
  done := h.done

/-- What a request does between its start and its end leaves the context idle. -/
theorem trip (h : tree.Idle cx) (trip : tree.Trip cx cx₁) : tree.Idle cx₁ where
  coherent := trip.coherent h.coherent
  stack := by rw [trip.stack, h.stack]
  deferred := by
    refine List.eq_nil_iff_forall_not_mem.2 fun e mem => ?_
    rcases trip.deferred e mem with mem | waits
    · rw [h.deferred] at mem
      exact List.not_mem_nil mem
    · exact h.notOpen _ waits
  done := fun id waits => h.done id ((trip.unfinished id).1 waits)

/-- While nothing is on the stack, every trait may be asked for. -/
theorem admitsAll (h : tree.Idle cx) (paths : List TypePath) : tree.AdmitsAll cx paths :=
  fun id _ => admits_of_idle h.stack id

theorem atSuperBound (h : tree.Idle cx) (path : TypePath) : tree.AtSuperBound cx path := by
  intro e top
  rw [h.stack] at top
  exact absurd top (by simp)

/-- The depth at which a session resolves is enough. -/
theorem ready (h : tree.Idle cx) (numbered : tree.Numbered) :
    tree.Ready (tree.items.size + 1) cx where
  numbered := numbered
  coherent := h.coherent
  few := by
    refine Nat.lt_succ_of_le (List.countP_le_length.trans ?_)
    simp [ids]

/-- A cached trait is done, and a done trait is cached. -/
theorem mem_cache_iff (h : tree.Idle cx) (id : DefId) :
    id ∈ cx.cache.keys ↔ cx.states.get? id = some .bodiesResolved := by
  have notOpen := h.notOpen id
  constructor
  · intro cached
    obtain ⟨waits, -⟩ | done := h.coherent.nested.get?_of_closed cached
    · exact absurd waits (h.done id)
    · exact done
  · intro done
    by_contra notCached
    rw [h.coherent.nested.get?_eq_none notOpen notCached] at done
    cases done

end Idle

/-- At the top level everything may be asked for, and no super-trait bound is in its place. -/
theorem Idle.free {inv : Upkeep} (idle : tree.Idle cx) (numbered : tree.Numbered)
    (serves : tree.Serves inv (tree.items.size + 1) tree.resolveDef) :
    serves.passage.Free cx where
  asks := fun id => ⟨idle.ready numbered, admits_of_idle idle.stack id⟩
  atSuper := idle.atSuperBound

/-- Tours go on across the reports of implementations, as across all but those of cycles and of
default bodies. -/
theorem Serves.reports {inv : Upkeep} {depth : Nat} {resolve : Resolver}
    (serves : tree.Serves inv depth resolve) (p : Problem) (strange : p.isOfImpl = true) :
    serves.passage.Reports p :=
  fun cx => (Tour.refl cx).report (Problem.ordinary_of_isOfImpl strange)

/-! ## Requests -/

/-- What requests do to an idle context, and to an invariant that may tell of all problems
handed out so far. -/
structure Performed (tree : ItemTree) (inv : List Problem → Upkeep) (earlier : List Problem)
    (cx : Context) (handed : List Problem) (cx₁ : Context) : Prop where
  run : tree.Run cx handed cx₁
  idle : tree.Idle cx₁
  kept : (inv earlier).Holds cx → (inv (earlier ++ handed)).Holds cx₁

/-- A request that hands out nothing, between idle contexts. -/
theorem Tour.performed {inv : List Problem → Upkeep} {earlier : List Problem}
    (tour : tree.Tour (inv earlier) cx cx₁) (idle : tree.Idle cx) :
    tree.Performed inv earlier cx [] cx₁ where
  run := .moves tour.trip.moves
  idle := idle.trip tour.trip
  kept := by simpa using tour.kept

/-- The invariant of the second part starts where the first part has handed out its problems.
-/
theorem Performed.trans {inv : List Problem → Upkeep} {earlier : List Problem}
    (first : tree.Performed inv earlier cx handed cx₁)
    (second : tree.Performed inv (earlier ++ handed) cx₁ later cx₂) :
    tree.Performed inv earlier cx (handed ++ later) cx₂ where
  run := first.run.trans second.run
  idle := second.idle
  kept := by simpa using second.kept ∘ first.kept

section

variable {inv : List Problem → Upkeep} (numbered : tree.Numbered)
  (serves : ∀ handed, tree.Serves (inv handed) (tree.items.size + 1) tree.resolveDef)
  (handOut : ∀ {handed : List Problem} {cx : Context}, (inv handed).Holds cx →
    (inv (handed ++ cx.problems)).Holds { cx with problems := [] })

include handOut in
/-- Handing the problems out keeps what each of them was promised to satisfy. -/
theorem performed_handOut (idle : tree.Idle cx) (earlier : List Problem) :
    tree.Performed inv earlier cx cx.problems { cx with problems := [] } :=
  ⟨Run.refl.handOut idle.stack, idle.handOut, handOut⟩

include numbered serves handOut

/-- Each pass hands out what it has reported, before the next one starts. -/
theorem runPasses_performed :
    ∀ (passes : List Pass) (earlier : List Problem) {cx : Context}, tree.Idle cx →
      Ends tree.Faults (tree.runPasses passes) cx fun handed cx₁ =>
        tree.Performed inv earlier cx handed cx₁
  | [], _, cx, idle => Tour.performed (.refl cx) idle
  | pass :: rest, earlier, cx, idle => by
      simp only [runPasses, ends_bind, Check.takeProblems, ends_modifyGet, ends_pure]
      have passed : Ends tree.Faults (pass.run tree) cx fun _ cx₁ =>
          tree.Tour (inv earlier) cx cx₁ :=
        Passage.pass_goes (idle.free numbered (serves earlier)) (serves earlier).reports
          (fun _ _ n _ => (serves earlier).records n) pass
      refine passed.mono fun _ cx₁ tour => ?_
      have first := tour.performed idle
      have taken : tree.Performed inv (earlier ++ []) cx₁ cx₁.problems _ :=
        performed_handOut handOut first.idle _
      have done : tree.Performed inv earlier cx cx₁.problems { cx₁ with problems := [] } := by
        simpa using first.trans taken
      exact (runPasses_performed rest _ taken.idle).mono fun later cx₂ others => done.trans others

/-- The requests that hand problems out do so between idle contexts; all others are tours. -/
theorem run_performed (idle : tree.Idle cx) (earlier : List Problem) (request : Request) :
    Ends tree.Faults (request.run tree) cx fun handed cx₁ =>
      tree.Performed inv earlier cx handed cx₁ := by
  cases hands : request.handsOut with
  | false =>
      refine (Passage.run_goes (idle.free numbered (serves earlier)) (serves earlier).reports hands
        fun n _ => (serves earlier).records n).mono fun handed cx₁ ended => ?_
      obtain ⟨rfl, tour⟩ := ended
      exact Tour.performed tour idle
  | true =>
      cases request with
      | runPasses passes => exact runPasses_performed numbered serves handOut passes earlier idle
      | takeProblems =>
          simp only [Request.run, Check.takeProblems, ends_modifyGet]
          exact performed_handOut handOut idle earlier
      | _ => cases hands

/-- Requests one after the other, each starting in the idle context that the last one left. -/
theorem runAll_performed :
    ∀ (requests : List Request) (earlier : List Problem) {cx : Context}, tree.Idle cx →
      Ends tree.Faults (Request.runAll tree requests) cx fun handed cx₁ =>
        tree.Performed inv earlier cx handed cx₁
  | [], _, cx, idle => Tour.performed (.refl cx) idle
  | request :: rest, earlier, cx, idle => by
      simp only [Request.runAll, ends_bind, ends_pure]
      refine (run_performed numbered serves handOut idle earlier request).mono
        fun handed cx₁ first => ?_
      exact (runAll_performed rest _ first.idle).mono fun later cx₂ others => first.trans others

end

/-! ## Trips and runs alone -/

/-- Resolution serves even if nothing is demanded of the problems. -/
theorem serves_none (tree : ItemTree) :
    tree.Serves .none (tree.items.size + 1) tree.resolveDef :=
  (Lowering.resolveWithin_resolves _).serves

section

variable (numbered : tree.Numbered) (idle : tree.Idle cx)

include numbered idle

/-- A request after a trip makes it a longer one. -/
theorem resolveDef_ends (trip : tree.Trip cx cx₁) (id : DefId) (span : Span) :
    Ends tree.Faults (tree.resolveDef id span) cx₁ fun _ cx₂ => tree.Trip cx cx₂ :=
  (Passage.resolveDef_goes ((idle.trip trip).free numbered tree.serves_none) id span).mono
    fun _ _ tour => trip.trans tour.trip

theorem lowerTy_ends (trip : tree.Trip cx cx₁) (scope : Scope) (t : TypeExpr) :
    Ends tree.Faults (tree.lowerTy scope t) cx₁ fun _ cx₂ => tree.Trip cx cx₂ :=
  (tree.serves_none.passage.lowerTy_goes scope t
    (((idle.trip trip).free numbered tree.serves_none).asksAll _)).mono
    fun _ _ tour => trip.trans tour.trip

theorem lowerBound_ends (trip : tree.Trip cx cx₁) (scope : Scope) (isSuper : Bool)
    (path : TypePath) :
    Ends tree.Faults (tree.lowerBound scope isSuper path) cx₁ fun _ cx₂ => tree.Trip cx cx₂ :=
  (Passage.lowerBoundAt_goes ((idle.trip trip).free numbered tree.serves_none) scope isSuper
    path).mono fun _ _ tour => trip.trans tour.trip

theorem lowerImplHeader_ends (trip : tree.Trip cx cx₁) (block : ImplBlock) :
    Ends tree.Faults (tree.lowerImplHeader block) cx₁ fun _ cx₂ => tree.Trip cx cx₂ :=
  (Passage.lowerImplHeader_goes ((idle.trip trip).free numbered tree.serves_none)
    fun n _ => tree.serves_none.records n).mono fun _ _ tour => trip.trans tour.trip

/-- Every request is a run between idle contexts. -/
theorem run_ends (request : Request) :
    Ends tree.Faults (request.run tree) cx fun handed cx₁ =>
      tree.Run cx handed cx₁ ∧ tree.Idle cx₁ := by
  have performed : Ends tree.Faults (request.run tree) cx fun handed cx₁ =>
      tree.Performed (fun _ => .none) [] cx handed cx₁ :=
    run_performed numbered (fun _ => tree.serves_none) (fun _ => trivial) idle [] request
  exact performed.mono fun _ _ ended => ⟨ended.run, ended.idle⟩

end

/-- A sequence of requests is a run between idle contexts. -/
theorem runAll_ends (numbered : tree.Numbered) (requests : List Request) (idle : tree.Idle cx) :
    Ends tree.Faults (Request.runAll tree requests) cx fun handed cx₁ =>
      tree.Run cx handed cx₁ ∧ tree.Idle cx₁ := by
  have performed : Ends tree.Faults (Request.runAll tree requests) cx fun handed cx₁ =>
      tree.Performed (fun _ => .none) [] cx handed cx₁ :=
    runAll_performed numbered (fun _ => tree.serves_none) (fun _ => trivial) requests [] idle
  exact performed.mono fun _ _ ended => ⟨ended.run, ended.idle⟩

end ItemTree

end TraitEngine
