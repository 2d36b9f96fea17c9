import TraitEngine.Ty.Substitution
/-!
# Parameters in a type

`Ty.occurring` lists the generic parameters of a type from left to right. It tells what
replacing parameters does: which parameters occur afterwards (`mem_occurring_replace`),
when two replacements agree (`replace_congr`), when a type stays as it is
(`replace_eq_self_iff`), and what two replacements in a row come to (`replace_replace`).

The parameters of a function's own are names of the binder, not occurrences.
-/

namespace TraitEngine

set_option autoImplicit false

namespace Ty

mutual

/-- The generic parameters that occur in the type, from left to right. -/
def occurring : Ty → List Param
  | .param p => [p]
  | .tuple ts | .adt _ _ ts => occurringList ts
  | .pointer _ _ t | .array t _ | .slice t | .projection t .. => occurring t
  | .fn _ r ps t _ => occurringOption r ++ (occurringList ps ++ occurring t)
  | .dyn bs => occurringBounds bs
  | .prim _ | .never | .placeholder .. | .infer _ | .error => []

def occurringList : List Ty → List Param
  | [] => []
  | t :: ts => occurring t ++ occurringList ts

def occurringOption : Option Ty → List Param
  | none => []
  | some t => occurring t

def occurringBounds : List DynBound → List Param
  | [] => []
  | b :: bs => occurringBound b ++ occurringBounds bs

def occurringBound : DynBound → List Param
  | .mk _ _ ts => occurringList ts

end

theorem occurringList_eq (ts : List Ty) : occurringList ts = ts.flatMap occurring := by
  induction ts with
  | nil => rfl
  | cons t ts ih => rw [occurringList, ih, List.flatMap_cons]

theorem occurringBounds_eq (bs : List DynBound) :
    occurringBounds bs = bs.flatMap occurringBound := by
  induction bs with
  | nil => rfl
  | cons b bs ih => rw [occurringBounds, ih, List.flatMap_cons]

/-- What stands for a parameter after the replacement. -/
def image (lookup : Param → Option Ty) (p : Param) : Ty := (lookup p).getD (.param p)

section

variable {lookup : Param → Option Ty} {q : Param}

/-! ## Which parameters occur after a replacement -/

mutual

/-- The parameters of a replaced type are those of the images of its parameters. -/
theorem mem_occurring_replace : ∀ t : Ty,
    q ∈ (t.replace lookup).occurring ↔ ∃ p ∈ t.occurring, q ∈ (image lookup p).occurring
  | .param p => by simp [replace, occurring, image]
  | .tuple ts | .adt _ _ ts => by
      simpa only [replace, occurring] using mem_occurringList_replace ts
  | .pointer _ _ t | .array t _ | .slice t | .projection t .. => by
      simpa only [replace, occurring] using mem_occurring_replace t
  | .fn _ r ps t _ => by
      simp only [replace, occurring, List.mem_append, mem_occurringOption_replace r,
        mem_occurringList_replace ps, mem_occurring_replace t, or_and_right, exists_or]
  | .dyn bs => by
      simpa only [replace, occurring] using mem_occurringBounds_replace bs
  | .prim _ | .never | .placeholder .. | .infer _ | .error => by simp [replace, occurring]

theorem mem_occurringList_replace : ∀ ts : List Ty,
    q ∈ occurringList (replaceList lookup ts) ↔
      ∃ p ∈ occurringList ts, q ∈ (image lookup p).occurring
  | [] => by simp [replaceList, occurringList]
  | t :: ts => by
      simp only [replaceList, occurringList, List.mem_append, mem_occurring_replace t,
        mem_occurringList_replace ts, or_and_right, exists_or]

theorem mem_occurringOption_replace : ∀ t : Option Ty,
    q ∈ occurringOption (replaceOption lookup t) ↔
      ∃ p ∈ occurringOption t, q ∈ (image lookup p).occurring
  | none => by simp [replaceOption, occurringOption]
  | some t => by
      simpa only [replaceOption, occurringOption] using mem_occurring_replace t

theorem mem_occurringBounds_replace : ∀ bs : List DynBound,
    q ∈ occurringBounds (replaceBounds lookup bs) ↔
      ∃ p ∈ occurringBounds bs, q ∈ (image lookup p).occurring
  | [] => by simp [replaceBounds, occurringBounds]
  | b :: bs => by
      simp only [replaceBounds, occurringBounds, List.mem_append, mem_occurringBound_replace b,
        mem_occurringBounds_replace bs, or_and_right, exists_or]

theorem mem_occurringBound_replace : ∀ b : DynBound,
    q ∈ occurringBound (replaceBound lookup b) ↔
      ∃ p ∈ occurringBound b, q ∈ (image lookup p).occurring
  | .mk _ _ ts => by
      simpa only [replaceBound, occurringBound] using mem_occurringList_replace ts

end

end

/-! ## Replacements that agree -/

section

variable {f g : Param → Option Ty}

mutual

/-- Two replacements give one type exactly if they agree on what occurs. -/
theorem replace_congr : ∀ t : Ty,
    t.replace f = t.replace g ↔ ∀ p ∈ t.occurring, image f p = image g p
  | .param p => by simp [replace, occurring, image]
  | .tuple ts | .adt _ _ ts => by simp [replace, occurring, replaceList_congr ts]
  | .pointer _ _ t | .array t _ | .slice t | .projection t .. => by
      simp [replace, occurring, replace_congr t]
  | .fn _ r ps t _ => by
      simp [replace, occurring, replaceOption_congr r, replaceList_congr ps, replace_congr t,
        or_imp, forall_and]
  | .dyn bs => by simp [replace, occurring, replaceBounds_congr bs]
  | .prim _ | .never | .placeholder .. | .infer _ | .error => by simp [replace, occurring]

theorem replaceList_congr : ∀ ts : List Ty,
    replaceList f ts = replaceList g ts ↔ ∀ p ∈ occurringList ts, image f p = image g p
  | [] => by simp [replaceList, occurringList]
  | t :: ts => by
      simp [replaceList, occurringList, replace_congr t, replaceList_congr ts, or_imp, forall_and]

theorem replaceOption_congr : ∀ t : Option Ty,
    replaceOption f t = replaceOption g t ↔ ∀ p ∈ occurringOption t, image f p = image g p
  | none => by simp [replaceOption, occurringOption]
  | some t => by simp [replaceOption, occurringOption, replace_congr t]

theorem replaceBounds_congr : ∀ bs : List DynBound,
    replaceBounds f bs = replaceBounds g bs ↔ ∀ p ∈ occurringBounds bs, image f p = image g p
  | [] => by simp [replaceBounds, occurringBounds]
  | b :: bs => by
      simp [replaceBounds, occurringBounds, replaceBound_congr b, replaceBounds_congr bs, or_imp,
        forall_and]

theorem replaceBound_congr : ∀ b : DynBound,
    replaceBound f b = replaceBound g b ↔ ∀ p ∈ occurringBound b, image f p = image g p
  | .mk _ _ ts => by simp [replaceBound, occurringBound, replaceList_congr ts]

end

mutual

/-- Without replacements a type stays as it is. -/
theorem replace_none : ∀ t : Ty, t.replace (fun _ => none) = t
  | .param p => rfl
  | .tuple ts | .adt _ _ ts => by rw [replace, replaceList_none]
  | .pointer _ _ t | .array t _ | .slice t | .projection t .. => by rw [replace, replace_none]
  | .fn _ r ps t _ => by rw [replace, replaceOption_none, replaceList_none, replace_none]
  | .dyn bs => by rw [replace, replaceBounds_none]
  | .prim _ | .never | .placeholder .. | .infer _ | .error => rfl

theorem replaceList_none : ∀ ts : List Ty, replaceList (fun _ => none) ts = ts
  | [] => rfl
  | t :: ts => by rw [replaceList, replace_none, replaceList_none]

theorem replaceOption_none : ∀ t : Option Ty, replaceOption (fun _ => none) t = t
  | none => rfl
  | some t => by rw [replaceOption, replace_none]

theorem replaceBounds_none : ∀ bs : List DynBound, replaceBounds (fun _ => none) bs = bs
  | [] => rfl
  | b :: bs => by rw [replaceBounds, replaceBound_none, replaceBounds_none]

theorem replaceBound_none : ∀ b : DynBound, replaceBound (fun _ => none) b = b
  | .mk _ _ ts => by rw [replaceBound, replaceList_none]

end

/-- A type stays as it is exactly if each parameter in it stands for itself. -/
theorem replace_eq_self_iff {t : Ty} :
    t.replace f = t ↔ ∀ p ∈ t.occurring, image f p = .param p := by
  have congr := replace_congr (f := f) (g := fun _ => none) t
  rwa [replace_none] at congr

/-! ## Two replacements in a row -/

mutual

/-- Two replacements are the one that replaces in the images. -/
theorem replace_replace_eq : ∀ t : Ty,
    (t.replace f).replace g = t.replace fun p => some ((image f p).replace g)
  | .param p => by simp [replace, image]
  | .tuple ts | .adt _ _ ts => by simp only [replace, replaceList_replaceList_eq ts]
  | .pointer _ _ t | .array t _ | .slice t | .projection t .. => by
      simp only [replace, replace_replace_eq t]
  | .fn _ r ps t _ => by
      simp only [replace, replaceOption_replaceOption_eq r, replaceList_replaceList_eq ps,
        replace_replace_eq t]
  | .dyn bs => by simp only [replace, replaceBounds_replaceBounds_eq bs]
  | .prim _ | .never | .placeholder .. | .infer _ | .error => rfl

theorem replaceList_replaceList_eq : ∀ ts : List Ty,
    replaceList g (replaceList f ts) = replaceList (fun p => some ((image f p).replace g)) ts
  | [] => rfl
  | t :: ts => by simp only [replaceList, replace_replace_eq t, replaceList_replaceList_eq ts]

theorem replaceOption_replaceOption_eq : ∀ t : Option Ty,
    replaceOption g (replaceOption f t) = replaceOption (fun p => some ((image f p).replace g)) t
  | none => rfl
  | some t => by simp only [replaceOption, replace_replace_eq t]

theorem replaceBounds_replaceBounds_eq : ∀ bs : List DynBound,
    replaceBounds g (replaceBounds f bs) = replaceBounds (fun p => some ((image f p).replace g)) bs
  | [] => rfl
  | b :: bs => by
      simp only [replaceBounds, replaceBound_replaceBound_eq b, replaceBounds_replaceBounds_eq bs]

theorem replaceBound_replaceBound_eq : ∀ b : DynBound,
    replaceBound g (replaceBound f b) = replaceBound (fun p => some ((image f p).replace g)) b
  | .mk _ _ ts => by simp only [replaceBound, replaceList_replaceList_eq ts]

end

/-- Two replacements in a row are one, if it gives what they give for each parameter. -/
theorem replace_replace {h : Param → Option Ty} (t : Ty)
    (composed : ∀ p, (image f p).replace g = image h p) :
    (t.replace f).replace g = t.replace h := by
  rw [replace_replace_eq, replace_congr]
  exact fun p _ => composed p

end

end Ty

end TraitEngine
