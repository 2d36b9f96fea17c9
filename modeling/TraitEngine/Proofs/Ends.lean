import TraitEngine.Context
/-!
# How a step of an analysis ends

`Check.Ends faults x cx post` says that `x`, run on `cx`, returns with an answer
and a context as `post` describes, unless it faults with one of `faults`. With no
fault allowed it is total correctness.

The rules below follow the constructors of a step: `pure`, `>>=`, reading and
changing the context, and loops over a list. All but the loop are equivalences,
so `simp` runs a step symbolically down to the calls that it makes.
-/

namespace TraitEngine

set_option autoImplicit false

/-- What is observed of a result that there is. -/
theorem ok_of_observed {α β : Type} {x : Except Fault α} {f : α → β} {b : β}
    (h : x.toOption.map f = some b) : ∃ a, x = .ok a ∧ f a = b := by
  cases x with
  | error fault => cases h
  | ok a => exact ⟨a, rfl, Option.some.inj h⟩

namespace Check

variable {α β : Type} {faults : Fault → Prop} {cx : Context} {post : α → Context → Prop}

def Ends (faults : Fault → Prop) (x : Check α) (cx : Context) (post : α → Context → Prop) :
    Prop :=
  match x cx with
  | .ok (a, cx') => post a cx'
  | .error f => faults f

/-- Any fault is allowed: `Ends AnyFault` is partial correctness. -/
abbrev AnyFault : Fault → Prop := fun _ => True

/-! ## Reading an ending -/

theorem ends_of_eq_ok {x : Check α} {a : α} {cx' : Context} (ran : x cx = .ok (a, cx')) :
    Ends faults x cx post ↔ post a cx' := by
  simp only [Ends, ran]

theorem Ends.of_eq_ok {x : Check α} (h : Ends faults x cx post) {a : α} {cx' : Context}
    (ran : x cx = .ok (a, cx')) : post a cx' :=
  (ends_of_eq_ok ran).1 h

theorem Ends.exists_ok {x : Check α} (h : Ends (fun _ => False) x cx post) :
    ∃ a cx', x cx = .ok (a, cx') ∧ post a cx' := by
  cases ran : x cx with
  | error f => simp only [Ends, ran] at h
  | ok out => exact ⟨out.1, out.2, rfl, h.of_eq_ok ran⟩

theorem Ends.mono {x : Check α} {post' : α → Context → Prop} (h : Ends faults x cx post)
    (weaken : ∀ a cx', post a cx' → post' a cx') : Ends faults x cx post' := by
  cases ran : x cx with
  | error f => simpa only [Ends, ran] using h
  | ok out => simpa only [Ends, ran] using weaken _ _ (h.of_eq_ok ran)

/-- Two statements about an ending, whatever faults the second one allows. -/
theorem Ends.and {x : Check α} {faults' : Fault → Prop} {post' : α → Context → Prop}
    (h : Ends faults x cx post) (h' : Ends faults' x cx post') :
    Ends faults x cx fun a cx' => post a cx' ∧ post' a cx' := by
  cases ran : x cx with
  | error f => simpa only [Ends, ran] using h
  | ok out => simpa only [Ends, ran] using And.intro (h.of_eq_ok ran) (h'.of_eq_ok ran)

/-- Fewer faults are a stronger statement. -/
theorem Ends.mono_faults {x : Check α} {faults' : Fault → Prop} (h : Ends faults x cx post)
    (weaken : ∀ f, faults f → faults' f) : Ends faults' x cx post := by
  cases ran : x cx with
  | error f =>
      simp only [Ends, ran] at h ⊢
      exact weaken f h
  | ok out => simpa only [Ends, ran] using h

/-- Of any answer nothing is known. -/
theorem ends_any (x : Check α) : Ends AnyFault x cx fun _ _ => True := by
  unfold Ends
  split <;> exact trivial

/-- Whatever a step does, it does. -/
theorem ends_self (x : Check α) (cx : Context) :
    Ends AnyFault x cx fun a cx' => x cx = .ok (a, cx') := by
  unfold Ends
  cases x cx <;> trivial

/-- More may be known of the ending under a condition. -/
theorem Ends.and_if {x : Check α} {post' : α → Context → Prop} {c : Prop}
    (h : Ends faults x cx post) (h' : c → Ends AnyFault x cx post') :
    Ends faults x cx fun a cx' => post a cx' ∧ (c → post' a cx') := by
  cases ran : x cx with
  | error f => simpa only [Ends, ran] using h
  | ok out =>
      simp only [Ends, ran]
      exact ⟨h.of_eq_ok ran, fun given => (h' given).of_eq_ok ran⟩

/-! ## Running the constructors of a step -/

@[simp] theorem ends_pure (a : α) : Ends faults (pure a) cx post ↔ post a cx := Iff.rfl

@[simp] theorem ends_bind (x : Check α) (f : α → Check β) {post : β → Context → Prop} :
    Ends faults (x >>= f) cx post ↔
      Ends faults x cx fun a cx' => Ends faults (f a) cx' post := by
  simp only [Ends, bind, StateT.bind, Except.bind]
  cases x cx <;> rfl

@[simp] theorem ends_map (f : α → β) (x : Check α) {post : β → Context → Prop} :
    Ends faults (f <$> x) cx post ↔ Ends faults x cx fun a cx' => post (f a) cx' := by
  simp only [Ends, Functor.map, StateT.map, bind, Except.bind, pure, Except.pure]
  cases x cx <;> rfl

@[simp] theorem ends_throw (f : Fault) :
    Ends faults (throw f : Check α) cx post ↔ faults f := Iff.rfl

@[simp] theorem ends_get {post : Context → Context → Prop} :
    Ends faults (get : Check Context) cx post ↔ post cx cx := Iff.rfl

@[simp] theorem ends_modify (f : Context → Context) {post : PUnit → Context → Prop} :
    Ends faults (modify f : Check PUnit) cx post ↔ post ⟨⟩ (f cx) := Iff.rfl

@[simp] theorem ends_modifyGet (f : Context → α × Context) :
    Ends faults (modifyGet f : Check α) cx post ↔ post (f cx).1 (f cx).2 := Iff.rfl

@[simp] theorem ends_report (p : Problem) {post : Unit → Context → Prop} :
    Ends faults (Check.report p) cx post ↔ post () (cx.report p) := Iff.rfl

@[simp] theorem ends_liftM_ok (a : α) :
    Ends faults (liftM (.ok a : Except Fault α) : Check α) cx post ↔ post a cx := Iff.rfl

/-! ## Loops -/

/-- A loop keeps what each of its rounds keeps. -/
theorem ends_forIn {keeps : Context → Prop} (body : α → Check (ForInStep PUnit)) :
    ∀ (l : List α) {cx : Context}, keeps cx →
      (∀ a ∈ l, ∀ cx, keeps cx →
        Ends faults (body a) cx fun r cx' => r = .yield ⟨⟩ ∧ keeps cx') →
      Ends faults (forIn l PUnit.unit fun a _ => body a) cx fun _ cx' => keeps cx'
  | [], cx, kept, _ => by
      simpa only [List.forIn_nil, ends_pure] using kept
  | a :: l, cx, kept, round => by
      rw [List.forIn_cons, ends_bind]
      refine (round a List.mem_cons_self cx kept).mono fun r cx' h => ?_
      obtain ⟨rfl, kept'⟩ := h
      exact ends_forIn body l kept' fun b hb => round b (List.mem_cons_of_mem a hb)

/-- A loop does what its rounds do, if no round undoes what another has done. -/
theorem ends_forIn_each (keeps : Context → Prop) (did : α → Context → Prop)
    (body : α → Check (ForInStep PUnit)) :
    ∀ (l : List α) {cx : Context}, keeps cx →
      (∀ a ∈ l, ∀ cx, keeps cx → Ends faults (body a) cx fun r cx' =>
        r = .yield ⟨⟩ ∧ keeps cx' ∧ did a cx' ∧ ∀ b, did b cx → did b cx') →
      Ends faults (forIn l PUnit.unit fun a _ => body a) cx fun _ cx' =>
        keeps cx' ∧ (∀ a ∈ l, did a cx') ∧ ∀ b, did b cx → did b cx'
  | [], cx, kept, _ => by
      simpa only [List.forIn_nil, ends_pure] using
        ⟨kept, fun _ mem => absurd mem List.not_mem_nil, fun _ done => done⟩
  | a :: l, cx, kept, round => by
      rw [List.forIn_cons, ends_bind]
      refine (round a List.mem_cons_self cx kept).mono fun r cx' h => ?_
      obtain ⟨rfl, kept', done, stays⟩ := h
      refine (ends_forIn_each keeps did body l kept' fun b mem =>
        round b (List.mem_cons_of_mem a mem)).mono fun _ cx'' ended => ?_
      obtain ⟨kept'', all, stays'⟩ := ended
      refine ⟨kept'', fun b mem => ?_, fun b old => stays' b (stays b old)⟩
      rcases List.mem_cons.1 mem with rfl | mem
      · exact stays' b done
      · exact all b mem

/-- A loop whose rounds all go through is a fold. -/
theorem ends_forIn_foldl (step : Context → α → Context) (body : α → Check (ForInStep PUnit))
    (round : ∀ a cx, body a cx = .ok (.yield ⟨⟩, step cx a)) {post : PUnit → Context → Prop} :
    ∀ (l : List α) {cx : Context},
      Ends faults (forIn l PUnit.unit fun a _ => body a) cx post ↔ post ⟨⟩ (l.foldl step cx)
  | [], cx => by
      rw [List.forIn_nil, ends_pure, List.foldl_nil]
  | a :: l, cx => by
      rw [List.forIn_cons, ends_bind, ends_of_eq_ok (round a cx)]
      exact ends_forIn_foldl step body round l

theorem ends_mapM {keeps : Context → Prop} (f : α → Check β) :
    ∀ (l : List α) {cx : Context}, keeps cx →
      (∀ a ∈ l, ∀ cx, keeps cx → Ends faults (f a) cx fun _ cx' => keeps cx') →
      Ends faults (l.mapM f) cx fun _ cx' => keeps cx'
  | [], _, kept, _ => by
      simpa only [List.mapM_nil, ends_pure] using kept
  | a :: l, cx, kept, round => by
      simp only [List.mapM_cons, ends_bind, ends_pure]
      refine (round a List.mem_cons_self cx kept).mono fun _ cx' kept' => ?_
      exact ends_mapM f l kept' fun b hb => round b (List.mem_cons_of_mem a hb)

end Check

end TraitEngine
