import TraitEngine.Context
/-!
# Two runs in lockstep

`Check.Lockstep R x y a b post` compares a run of `x` on `a` with a run of `y` on `b`: if
both end, their answers are the same, the contexts are again related by `R`, and `post`
holds of the answer and of the second context, whose cache has not lost a trait.

The rules follow the constructors of a step, so that two runs of one definition are
compared by going through it once.
-/

namespace TraitEngine

set_option autoImplicit false

namespace Check

variable {α β : Type} {R : Context → Context → Prop} {a b : Context}

def Lockstep (R : Context → Context → Prop) (x y : Check α) (a b : Context)
    (post : α → Context → Prop) : Prop :=
  ∀ r a' s b', x a = .ok (r, a') → y b = .ok (s, b') →
    r = s ∧ R a' b' ∧ b.cache.keys ⊆ b'.cache.keys ∧ post s b'

/-- No more is said than that the answers are the same. -/
abbrev Whatever {α : Type} : α → Context → Prop := fun _ _ => True

/-- A sequence that ends has a first part that ends, and the rest from there on. -/
theorem bind_eq_ok {x : Check α} {f : α → Check β} {r : β} {a' : Context}
    (ran : (x >>= f) a = .ok (r, a')) : ∃ q c, x a = .ok (q, c) ∧ f q c = .ok (r, a') := by
  simp only [bind, StateT.bind, Except.bind] at ran
  cases first : x a with
  | error fault =>
      rw [first] at ran
      cases ran
  | ok out =>
      rw [first] at ran
      exact ⟨out.1, out.2, rfl, ran⟩

variable {post : α → Context → Prop} {post' : β → Context → Prop}

theorem Lockstep.bind {x y : Check α} {f g : α → Check β} (first : Lockstep R x y a b post)
    (next : ∀ r a' b', R a' b' → b.cache.keys ⊆ b'.cache.keys → post r b' →
      Lockstep R (f r) (g r) a' b' post') : Lockstep R (x >>= f) (y >>= g) a b post' := by
  intro r a' s b' left right
  obtain ⟨q, c, ran, left⟩ := bind_eq_ok left
  obtain ⟨q', d, ran', right⟩ := bind_eq_ok right
  obtain ⟨rfl, rel, grows, known⟩ := first q c q' d ran ran'
  obtain ⟨same, rel', grows', known'⟩ := next q c d rel grows known r a' s b' left right
  exact ⟨same, rel', List.Subset.trans grows grows', known'⟩

theorem lockstep_pure {r : α} (rel : R a b) (known : post r b) :
    Lockstep R (pure r) (pure r) a b post := by
  rintro _ _ _ _ ⟨⟩ ⟨⟩
  exact ⟨rfl, rel, List.Subset.refl _, known⟩

theorem lockstep_throw (f g : Fault) : Lockstep R (throw f) (throw g) a b post :=
  fun _ _ _ _ left _ => nomatch left

/-- An answer may be made into another one. -/
theorem Lockstep.map {x y : Check α} {f : α → β} (h : Lockstep R x y a b post)
    (known : ∀ r b', post r b' → post' (f r) b') :
    Lockstep R (x >>= fun r => pure (f r)) (y >>= fun r => pure (f r)) a b post' :=
  h.bind fun r _ b' rel _ seen => lockstep_pure rel (known r b' seen)

@[simp] theorem get_bind (f : Context → Check α) : (get >>= f) a = f a a := rfl

/-- Reading the context is no step; what is read has to be compared afterwards. -/
theorem lockstep_get {f g : Context → Check β} (h : Lockstep R (f a) (g b) a b post') :
    Lockstep R (get >>= f) (get >>= g) a b post' := h

theorem lockstep_modify {f : Context → Context} {post : PUnit → Context → Prop}
    (rel : R (f a) (f b)) (grows : b.cache.keys ⊆ (f b).cache.keys) (known : post ⟨⟩ (f b)) :
    Lockstep R (modify f) (modify f) a b post := by
  rintro _ _ _ _ ⟨⟩ ⟨⟩
  exact ⟨rfl, rel, grows, known⟩

theorem lockstep_modifyGet {f : Context → α × Context} (same : (f a).1 = (f b).1)
    (rel : R (f a).2 (f b).2) (grows : b.cache.keys ⊆ (f b).2.cache.keys)
    (known : post (f b).1 (f b).2) : Lockstep R (modifyGet f) (modifyGet f) a b post := by
  intro r a' s b' left right
  have left : f a = (r, a') := Except.ok.inj left
  have right : f b = (s, b') := Except.ok.inj right
  rw [left, right] at same rel
  rw [right] at grows known
  exact ⟨same, rel, grows, known⟩

/-- A loop is in lockstep if each of its rounds is. -/
theorem lockstep_forIn {ι : Type} {body body' : ι → Check (ForInStep PUnit)} :
    ∀ (l : List ι) {a b : Context}, R a b →
      (∀ i ∈ l, ∀ a b, R a b → Lockstep R (body i) (body' i) a b fun r _ => r = .yield ⟨⟩) →
      Lockstep R (forIn l PUnit.unit fun i _ => body i) (forIn l PUnit.unit fun i _ => body' i) a b
        Whatever
  | [], _, _, rel, _ => by
      rw [List.forIn_nil, List.forIn_nil]
      exact lockstep_pure rel trivial
  | i :: l, a, b, rel, round => by
      rw [List.forIn_cons, List.forIn_cons]
      refine (round i List.mem_cons_self a b rel).bind fun r a' b' rel' _ next => ?_
      subst next
      exact lockstep_forIn l rel' fun j mem => round j (List.mem_cons_of_mem i mem)

end Check

end TraitEngine
