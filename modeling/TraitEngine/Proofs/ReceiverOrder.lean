import TraitEngine.Proofs.Application
import TraitEngine.Proofs.Specialization
/-!
# When the receiver is bound

A predicate is given arguments and a receiver, in this order or in the other. With the
receiver bound first, each default is filled in for the receiver at once; with the receiver
bound last, it is put into what the defaults have become. The slots come out the same
(`fillSlots_boundSlot`), as long as the receiver does not get into a type that was written:
`apply_bindReceiver` says that this is the only difference there can be.

An item is typed for a receiver of its own, which takes the place of the one that the
predicate has. But the arguments that were filled for the earlier receiver are not filled
again: once it is bound, nothing tells that they came from defaults. So the type of an item
may still depend on the receiver that was bound first, and `typeFor_bindReceiver` says when
it does.
-/

namespace TraitEngine

set_option autoImplicit false

namespace Predicate

/-! ## Arguments and receiver in either order -/

section

variable {self : Param} {receiver : Ty}

/-- The receiver may be put into an argument that was filled from a default, or into the slots
that it is filled for. -/
theorem boundSlot_argument (p : TraitParam) (before : List ArgSlot) {written : Option Ty}
    (kept : ∀ t ∈ written, t.specialize (receiverArgs self receiver) = t) :
    boundSlot self receiver (p.bind (p.argument (⟨self, none⟩ :: before) written)) =
      p.bind (p.argument (⟨self, some receiver⟩ :: before.map (boundSlot self receiver))
        written) := by
  cases written with
  | some t => simp [boundSlot, TraitParam.bind, TraitParam.argument, kept t rfl]
  | none =>
      cases default : p.fallback with
      | none =>
          simp [boundSlot, TraitParam.bind, TraitParam.argument, default]
          rfl
      | some d =>
          simp [boundSlot, TraitParam.bind, TraitParam.argument, default,
            ← specialize_boundSlot]

theorem fillSlots_boundSlot (params : List TraitParam) :
    ∀ (types : List Ty) (done new : List ArgSlot),
      (∀ t ∈ types, t.specialize (receiverArgs self receiver) = t) →
      fillSlots (⟨self, none⟩ :: done) params types = ⟨self, none⟩ :: new →
      fillSlots (⟨self, some receiver⟩ :: done.map (boundSlot self receiver)) params types =
        ⟨self, some receiver⟩ :: new.map (boundSlot self receiver) := by
  induction params with
  | nil =>
      intro types done new _ filled
      cases filled
      rfl
  | cons p ps ih =>
      intro types done new kept filled
      rw [fillSlots_cons, List.cons_append] at filled ⊢
      have rest := ih types.tail _ new (fun t mem => kept t (List.mem_of_mem_tail mem)) filled
      rwa [List.map_append, List.map_singleton, boundSlot_argument p done
        fun t first => kept t (List.mem_of_mem_head? first)] at rest

/-- A written type is in its slot as it is. -/
theorem fillSlots_written {first : ArgSlot} {params : List TraitParam} {types : List Ty}
    {new : List ArgSlot} (filled : fillSlots [first] params types = first :: new) {i : Nat}
    {q : TraitParam} {t : Ty} (own : params[i]? = some q) (written : types[i]? = some t) :
    new[i]? = some (q.bind t) := by
  have slot := fillSlots_getElem? params [first] types own
  rwa [filled, List.length_singleton, Nat.add_comm, List.getElem?_cons_succ, written] at slot

/-- The two orders agree exactly if the receiver changes no written type. -/
theorem fillSlots_boundSlot_iff {params : List TraitParam} {types : List Ty} {new : List ArgSlot}
    (fits : types.length ≤ params.length)
    (filled : fillSlots [⟨self, none⟩] params types = ⟨self, none⟩ :: new) :
    fillSlots [⟨self, some receiver⟩] params types =
        ⟨self, some receiver⟩ :: new.map (boundSlot self receiver) ↔
      ∀ t ∈ types, t.specialize (receiverArgs self receiver) = t := by
  constructor
  · intro same t mem
    obtain ⟨i, small, rfl⟩ := List.mem_iff_getElem.1 mem
    have own : params[i]? = some params[i] := List.getElem?_eq_getElem (by omega)
    have written : types[i]? = some types[i] := List.getElem?_eq_getElem small
    have early := fillSlots_written same own written
    have late := fillSlots_written filled own written
    rw [List.getElem?_map, late] at early
    simpa [boundSlot, TraitParam.bind] using early
  · intro kept
    exact fillSlots_boundSlot params types [] new kept filled

end

/-- Arguments that a predicate takes as it comes from its trait are also taken once a receiver is
bound. Binding the receiver after them gives the same predicate exactly if in each type that was
written the trait's own receiver parameter does not occur, or stands for itself. Whatever else the
receiver, the written types and the defaults mention makes no difference, nor do parameters that
share a node. -/
theorem apply_bindReceiver {o : Origin} {self : TraitParam} {others : List TraitParam}
    (own : o.predicate.params = self :: others) {applied : AppliedArgs} {p : Predicate}
    (accepted : o.predicate.apply applied = .ok (p, none)) (receiver : Ty) :
    ∃ q, (o.predicate.bindReceiver receiver).apply applied = .ok (q, none) ∧
      (q = p.bindReceiver receiver ↔ ∀ t, .type t ∈ applied.args →
        ∀ r ∈ t.occurring, r.node = self.param.node → receiver = .param r) := by
  obtain ⟨written, new, typed, fits, enough, filled, fine, args⟩ := apply_accepted own accepted
  obtain ⟨unfailed, span, fresh⟩ := Origin.fresh own
  have early := bindReceiver_eq unfailed fresh receiver
  have late := bindReceiver_eq fine args receiver
  have kept : (∀ t, .type t ∈ applied.args →
        ∀ r ∈ t.occurring, r.node = self.param.node → receiver = .param r) ↔
      ∀ t ∈ written, t.specialize (receiverArgs self.param receiver) = t := by
    simp only [AppliedArgs.mem_types_iff typed, specialize_receiverArgs_eq_self_iff]
  have taken := apply_of_types own (by rw [fresh]; rfl) typed fits enough
  rw [accepted] at taken
  cases taken
  have params : (o.predicate.bindReceiver receiver).params = self :: others :=
    (bindReceiver_onward _ receiver).params.trans own
  have slot : (o.predicate.bindReceiver receiver).args.get? 0 =
      some ⟨self.param, some receiver⟩ := by
    rw [early]
    rfl
  refine ⟨_, apply_of_types params slot typed fits enough, ?_⟩
  rw [kept, ← fillSlots_boundSlot_iff fits filled, early, late]
  simp only [Predicate.mk.injEq, ArgList.of.injEq, true_and, and_true]
  rfl

/-- `trait Build<A, B = (A, Self), C = [B]>`, applied to `[B]` for the receiver `(A,)`: both are
written in terms of the trait's own parameters, and neither gets into the other. -/
theorem apply_bindReceiver_capturing :
    let self : Param := ⟨⟨0⟩, "Self"⟩
    let a : Param := ⟨⟨1⟩, "A"⟩
    let b : Param := ⟨⟨2⟩, "B"⟩
    let build := Origin.ofParams ⟨0⟩ [⟨self, none, default⟩, ⟨a, none, default⟩,
      ⟨b, some (.tuple [.param a, .param self]), default⟩,
      ⟨⟨⟨3⟩, "C"⟩, some (.slice (.param b)), default⟩] default
    let applied : AppliedArgs := ⟨[.type (.slice (.param b))], [], default⟩
    let receiver : Ty := .tuple [.param a]
    let pair : Ty := .tuple [.slice (.param b), receiver]
    ∃ p q, build.predicate.apply applied = .ok (p, none) ∧
      (build.predicate.bindReceiver receiver).apply applied = .ok (q, none) ∧
      q = p.bindReceiver receiver ∧ q.args.toList.map ArgSlot.ty =
        [some receiver, some (.slice (.param b)), some pair, some (.slice pair)] := by
  intro self a b build applied receiver pair
  obtain ⟨p, accepted, slots⟩ : ∃ p, build.predicate.apply applied = .ok (p, none) ∧
      (p.bindReceiver receiver).args.toList.map ArgSlot.ty =
        [some receiver, some (.slice (.param b)), some pair, some (.slice pair)] :=
    ⟨_, rfl, rfl⟩
  obtain ⟨q, taken, same⟩ := apply_bindReceiver rfl accepted receiver
  have agree : q = p.bindReceiver receiver := by
    apply same.2
    intro t mem r occurs node
    obtain rfl : t = .slice (.param b) := by simpa [applied] using mem
    obtain rfl : r = b := by simpa [Ty.occurring] using occurs
    cases node
  exact ⟨p, q, accepted, taken, agree, agree ▸ slots⟩

/-! ## A receiver after another -/

section

variable (self : Param)

/-- Once the receiver is replaced by a type without parameters, it is not there to be replaced
again. -/
theorem boundSlot_boundSlot {first : Ty} (closed : first.hasParam = false) (receiver : Ty)
    (slot : ArgSlot) :
    boundSlot self receiver (boundSlot self first slot) = boundSlot self first slot := by
  obtain ⟨param, _ | t⟩ := slot
  · rfl
  · have gone : (t.specialize (receiverArgs self first)).specialize (receiverArgs self receiver) =
        t.specialize (receiverArgs self first) := by
      apply (specialize_receiverArgs_eq_self_iff _ receiver self).2
      intro q mem same
      obtain ⟨r, -, mem⟩ := (Ty.mem_occurring_replace t).1 mem
      rw [image_receiverArgs] at mem
      split at mem
      · exact absurd mem (Ty.not_mem_occurring closed q)
      · rename_i other
        rw [List.mem_singleton.1 mem] at same
        exact absurd same other
    simp [boundSlot, gone]

theorem specialize_receiverArgs_congr (t first receiver : Ty) :
    t.specialize (receiverArgs self first) = t.specialize (receiverArgs self receiver) ↔
      first = receiver ∨ ∀ r ∈ t.occurring, r.node ≠ self.node := by
  show t.replace (receiverArgs self first).lookup = t.replace (receiverArgs self receiver).lookup ↔ _
  rw [Ty.replace_congr]
  simp only [image_receiverArgs]
  constructor
  · intro agree
    by_cases same : first = receiver
    · exact .inl same
    · right
      intro r occurs node
      have put := agree r occurs
      rw [if_pos node, if_pos node] at put
      exact same put
  · rintro (rfl | absent) r occurs
    · rfl
    · rw [if_neg (absent r occurs), if_neg (absent r occurs)]

end

/-- The declared type `t` of an item with `receiver` for the receiver parameter `self`, and with its
argument for every other parameter, as it was filled for the receiver `filled`. -/
def itemType (p : Predicate) (self : Param) (t filled receiver : Ty) : Ty :=
  t.replace fun q =>
    if q.node = self.node then some receiver
    else (p.args.lookup q).map (·.specialize (receiverArgs self filled))

theorem itemType_congr {p : Predicate} {self : Param}
    (opened : ∀ q, q.node = self.node → p.args.lookup q = none) (t first receiver : Ty) :
    p.itemType self t first receiver = p.itemType self t receiver receiver ↔
      first = receiver ∨ ∀ q ∈ t.occurring, ∀ u, p.args.lookup q = some u →
        ∀ r ∈ u.occurring, r.node ≠ self.node := by
  unfold itemType
  rw [Ty.replace_congr]
  have each (q : Param) :
      Ty.image (fun q => if q.node = self.node then some receiver
          else (p.args.lookup q).map (·.specialize (receiverArgs self first))) q =
        Ty.image (fun q => if q.node = self.node then some receiver
          else (p.args.lookup q).map (·.specialize (receiverArgs self receiver))) q ↔
      first = receiver ∨ ∀ u, p.args.lookup q = some u → ∀ r ∈ u.occurring, r.node ≠ self.node := by
    by_cases own : q.node = self.node
    · simp [Ty.image, own, opened q own]
    · cases found : p.args.lookup q with
      | none => simp [Ty.image, own, found]
      | some u => simp [Ty.image, own, found, specialize_receiverArgs_congr]
  simp only [each]
  constructor
  · intro agree
    by_cases same : first = receiver
    · exact .inl same
    · right
      intro q occurs
      exact (agree q occurs).resolve_left same
  · rintro (rfl | absent) q occurs
    · exact .inl rfl
    · exact .inr (absent q occurs)

theorem specialize_boundSlots {p : Predicate} {self : Param} {slots : List ArgSlot}
    {span : Option Span} (args : p.args = .of (⟨self, none⟩ :: slots) span) (t filled receiver : Ty)
    (span' : Option Span) :
    t.specialize (.of (⟨self, some receiver⟩ :: slots.map (boundSlot self filled)) span') =
      p.itemType self t filled receiver := by
  rw [Ty.specialize_of_valid rfl, itemType]
  congr 1
  funext q
  rw [lookup_boundSlot self q filled receiver slots span' span, args]

end Predicate

namespace Member

theorem typeFor_of_args (m : Member) (fine : m.item.isError = false) (kind : m.item.kind ≠ .type)
    {first : ArgSlot} {slots : List ArgSlot} {span : Option Span}
    (args : m.bound.args = .of (first :: slots) span) (receiver : Ty) :
    m.typeFor receiver = m.item.ty.specialize (.of (⟨first.param, some receiver⟩ ::
      slots.map (Predicate.boundSlot first.param receiver)) span) := by
  have some : m.bound.args.isEmpty = false := by
    rw [args]
    rfl
  rw [typeFor_of_slots fine kind some, args, Predicate.specializeReceiver_rebind]

end Member

namespace Predicate

theorem member?_bindReceiver (p : Predicate) (receiver : Ty) (cx : Context) (name : String) :
    (p.bindReceiver receiver).member? cx name =
      (p.member? cx name).map fun m => ⟨p.bindReceiver receiver, m.item⟩ := by
  have checked : (p.bindReceiver receiver).getChecked? cx = p.getChecked? cx := by
    simp [getChecked?, get?]
  rw [member?, member?, checked, Option.map_bind]
  congr 1
  funext t
  rw [Function.comp_apply, Option.map_map]
  rfl

theorem bound_of_member? {p : Predicate} {cx : Context} {name : String} {m : Member}
    (found : p.member? cx name = some m) : m.bound = p := by
  obtain ⟨t, -, own⟩ := Option.bind_eq_some_iff.1 found
  obtain ⟨item, -, rfl⟩ := Option.map_eq_some_iff.1 own
  rfl

/-- An item of a trait with applied arguments, looked up after the receiver is bound to `first` and
looked up while it is open, each typed for `receiver`. The arguments keep what `first` made of them,
in the one case, and follow `receiver` in the other. So the types are the same exactly if the
receivers are, or if the receiver does not occur in the argument of any parameter of the item's
type, be it written or filled from a default. -/
theorem typeFor_bindReceiver {o : Origin} {self : TraitParam} {others : List TraitParam}
    (own : o.predicate.params = self :: others) {applied : AppliedArgs} {p : Predicate}
    (accepted : o.predicate.apply applied = .ok (p, none)) {cx : Context} {name : String}
    {m : Member} (found : p.member? cx name = some m) (kind : m.item.kind ≠ .type) {first : Ty}
    (closed : first.hasParam = false) (receiver : Ty) :
    ∃ m', (p.bindReceiver first).member? cx name = some m' ∧ m'.item = m.item ∧
      (m.item.isError = false →
        m'.typeFor receiver = p.itemType self.param m.item.ty first receiver ∧
        m.typeFor receiver = p.itemType self.param m.item.ty receiver receiver) ∧
      (m'.typeFor receiver = m.typeFor receiver ↔ m.item.isError = true ∨ first = receiver ∨
        ∀ q ∈ m.item.ty.occurring, ∀ t, p.args.lookup q = some t →
          ∀ r ∈ t.occurring, r.node ≠ self.param.node) := by
  obtain ⟨written, new, -, -, -, -, fine, args⟩ := apply_accepted own accepted
  have later : (p.bindReceiver first).member? cx name = some ⟨p.bindReceiver first, m.item⟩ := by
    rw [member?_bindReceiver, found, Option.map_some]
  -- Before a receiver is bound the slot of the receiver parameter is open.
  have opened (q : Param) (node : q.node = self.param.node) : p.args.lookup q = none :=
    args ▸ lookup_openReceiver node new (some applied.span)
  have types (sound : m.item.isError = false) :
      (Member.mk (p.bindReceiver first) m.item).typeFor receiver =
          p.itemType self.param m.item.ty first receiver ∧
        m.typeFor receiver = p.itemType self.param m.item.ty receiver receiver := by
    have bound : (p.bindReceiver first).args = .of (⟨self.param, some first⟩ ::
        new.map (boundSlot self.param first)) (some applied.span) := by
      rw [bindReceiver_eq fine args]
      rfl
    have late := Member.typeFor_of_args ⟨p.bindReceiver first, m.item⟩ sound kind bound receiver
    have early := m.typeFor_of_args sound kind (bound_of_member? found ▸ args) receiver
    constructor
    · rw [late, List.map_map, Function.comp_def]
      simp only [boundSlot_boundSlot _ closed]
      exact specialize_boundSlots args m.item.ty first receiver _
    · rw [early]
      exact specialize_boundSlots args m.item.ty receiver receiver _
  refine ⟨_, later, rfl, types, ?_⟩
  cases bad : m.item.isError with
  | true => simp [Member.typeFor, bad]
  | false =>
      obtain ⟨bound, open_⟩ := types bad
      rw [bound, open_, itemType_congr opened]
      simp

/-- `trait Scale<By, Into = Self> { fn scale(&self, by: [By]); }`, applied to `u8`: the argument of
`Into` is for the first receiver, but it is not in the type of `scale`. -/
theorem typeFor_bindReceiver_scale :
    let self : Param := ⟨⟨0⟩, "Self"⟩
    let by_ : Param := ⟨⟨1⟩, "By"⟩
    let params : List TraitParam := [⟨self, none, default⟩, ⟨by_, none, default⟩,
      ⟨⟨⟨2⟩, "Into"⟩, some (.param self), default⟩]
    let scale : TraitRef := {
      id := some ⟨0⟩, name := "Scale", span := default, supers := [], params
      items := [⟨"scale", false, .fn, some ⟨3⟩,
        .fn "scale" (some (.ref (.param self))) [.slice (.param by_)] .unit [], .param self, params,
        default⟩] }
    let cx : Context := ({ limit := 1 } : Context).insertTrait ⟨0⟩ scale
    let byte : Ty := .prim (.uint .w8)
    let bool : Ty := .prim .bool
    ∃ p m m', (Origin.ofTrait scale default).predicate.apply ⟨[.type byte], [], default⟩ =
        .ok (p, none) ∧ (p.bindReceiver bool).args.toList.map ArgSlot.ty =
        [some bool, some byte, some bool] ∧ p.member? cx "scale" = some m ∧
      (p.bindReceiver bool).member? cx "scale" = some m' ∧
      m'.typeFor .never = m.typeFor .never := by
  intro self by_ params scale cx byte bool
  obtain ⟨p, m, accepted, slots, found, kind, occurring, own, written⟩ : ∃ p m,
      (Origin.ofTrait scale default).predicate.apply ⟨[.type byte], [], default⟩ =
        .ok (p, none) ∧ (p.bindReceiver bool).args.toList.map ArgSlot.ty =
        [some bool, some byte, some bool] ∧ p.member? cx "scale" = some m ∧
      m.item.kind = .fn ∧ m.item.ty.occurring = [self, by_] ∧ p.args.lookup self = none ∧
      p.args.lookup by_ = some byte :=
    ⟨_, _, rfl, rfl, rfl, rfl, rfl, rfl, rfl⟩
  obtain ⟨m', later, -, -, same⟩ := typeFor_bindReceiver rfl accepted found (by simp [kind])
    (show bool.hasParam = false from rfl) .never
  refine ⟨p, m, m', accepted, slots, found, later, same.2 (.inr (.inr ?_))⟩
  intro q occurs t bound r mem
  rw [occurring] at occurs
  rcases List.mem_pair.1 occurs with rfl | rfl
  · rw [own] at bound
    cases bound
  · rw [written] at bound
    cases bound
    cases mem

end Predicate

/-- `trait Add<Rhs = Self> { fn add(self, rhs: Rhs); }`. -/
def ItemTree.addition : ItemTree := (empty "main").declareAll [
  .trait "Add" [.typeParam "Rhs" [] (some (.path (.ofText "Self"))),
    .method "add" [.self .value, .param "rhs" (.path (.ofText "Rhs"))]]]

/-- With the receiver open, `add` is typed for `char` as `fn(char, char)`. After the receiver was
bound to `bool` it is typed for `char` as `fn(char, bool)`: the argument that the default of `Rhs`
gave stays what it was for `bool`. -/
theorem ItemTree.typeFor_keeps_firstReceiver :
    let bool : Ty := .prim .bool
    let char : Ty := .prim .char
    ∃ handed cx t p m m', Request.runAll addition [.runPasses [.traits]] { limit := 128 } =
        .ok (handed, cx) ∧ handed ++ cx.problems = [] ∧ cx.trait? ⟨0⟩ = some t ∧
      (Predicate.ofTrait t default).apply (.none default) = .ok (p, none) ∧
      p.member? cx "add" = some m ∧ (p.bindReceiver bool).member? cx "add" = some m' ∧
      m.item.kind = .fn ∧ bool.hasParam = false ∧ char.hasParam = false ∧
      m.typeFor char = .fn "add" (some char) [char] .unit [] ∧
      m'.typeFor char = .fn "add" (some char) [bool] .unit [] := by
  intro bool char
  have observed :
      (Request.runAll addition [.runPasses [.traits]] { limit := 128 }).toOption.map (fun out =>
        (out.1 ++ out.2.problems, (out.2.trait? ⟨0⟩).bind fun t =>
          (((Predicate.ofTrait t default).apply (.none default)).toOption.filter
              (·.2.isNone)).map fun applied =>
            [applied.1.member? out.2 "add", (applied.1.bindReceiver bool).member? out.2 "add"].map
              (·.map fun m => (m.item.kind, m.typeFor char)))) =
      some ([], some [some (.fn, .fn "add" (some char) [char] .unit []),
        some (.fn, .fn "add" (some char) [bool] .unit [])]) := by
    decide +kernel
  obtain ⟨⟨handed, cx⟩, ran, seen⟩ := ok_of_observed observed
  obtain ⟨silent, seen⟩ := Prod.mk.inj seen
  obtain ⟨t, found, seen⟩ := Option.bind_eq_some_iff.1 seen
  obtain ⟨⟨p, mismatch⟩, kept, seen⟩ := Option.map_eq_some_iff.1 seen
  obtain ⟨outcome, fits⟩ := Option.filter_eq_some_iff.1 kept
  obtain rfl : mismatch = none := Option.isNone_iff_eq_none.1 fits
  obtain ⟨_, accepted, rfl⟩ := ok_of_observed (Option.map_id'.trans outcome)
  simp only [List.map_cons, List.map_nil, List.cons.injEq, Option.map_eq_some_iff,
    Prod.mk.injEq] at seen
  obtain ⟨⟨m, early, kind, open_⟩, ⟨m', late, -, bound⟩, -⟩ := seen
  exact ⟨handed, cx, t, p, m, m', ran, silent, found, accepted, early, late, kind, rfl, rfl, open_,
    bound⟩

end TraitEngine
