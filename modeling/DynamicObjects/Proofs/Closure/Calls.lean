import DynamicObjects.Collections.Kind
import DynamicObjects.Proofs.World.Equations
import DynamicObjects.Proofs.World.Mentions

/-!
# Properties of all that scripts compute

Some properties of computations go through every way to put computations together: what
a computation may change, say, or what it may depend on. A computation has such a property
given what is known: it acts on known classes and instances, and what it answers is known
afterwards, when more may be known than before. Such a property is `Closed`. It is `Supplied`
if some functions of a host, its foreign containers and the iterable instances of some worlds
have it, and all that is built on these has it too. If moreover all bodies that a host runs have
it, it is `Hosted`.
The modules beside this one follow the model upwards: calls of members here, containers in
`Closure.Collections`, named operations in `Closure.Builtins`, and evaluation in
`Closure.Scripts`.

* `Eval.Closed`: properties that go through.
* `Eval.Supplied`: moreover, some functions and all that is iterable have the property.
* `Eval.Hosted`: moreover, the host's bodies and functions have the property.
* `Eval.Hosted.invoke`: members have it when they are called.
* `Eval.Hosted.supplied`: what is hosted is supplied with all functions and instances.
-/

namespace DynamicObjects

open Script

/-- A property that goes through every way to put computations together, given what is known.
What is read is read apart from reports, and a failure that is reported on its way is one
part with its report, so that the property may be one that forgets reports. -/
structure Eval.Closed (P : ∀ {α : Type} [Mentions α], Set Node → Eval α → Prop) : Prop where
  /-- More may be known. -/
  mono : ∀ {α : Type} [Mentions α] {s s' : Set Node} {x : Eval α}, P s x → s ⊆ s' → P s' x
  pure : ∀ {α : Type} [Mentions α] {s : Set Node} {a : α}, Known s a → P s (pure a : Eval α)
  fail : ∀ {α : Type} [Mentions α] {s : Set Node} (e : Failure), P s (Eval.fail e : Eval α)
  stuck : ∀ {α : Type} [Mentions α] {s : Set Node} (reason : Stuck),
    P s (Eval.stuck reason : Eval α)
  bind : ∀ {α β : Type} [Mentions α] [Mentions β] {s : Set Node} {x : Eval α} {f : α → Eval β},
    P s x → (∀ s' a, s ⊆ s' → Known s' a → P s' (f a)) → P s (x >>= f)
  attempt : ∀ {α : Type} [Mentions α] {s : Set Node} {x : Eval α}, P s x → P s x.attempt
  reporting : ∀ {α : Type} [Mentions α] {s : Set Node} {x : Eval α}, P s x → P s (reporting x)
  holding : ∀ {α : Type} [Mentions α] {s : Set Node} {x : Eval α} (h : Held), P s x →
    P s (Eval.holding h x)
  reads : ∀ {α : Type} [Mentions α] {s : Set Node} (f : World → α),
    (∀ w seen, f { w with diagnostics := seen } = f w) → (∀ w, Known s (f w)) →
      P s (Eval.reads f)
  properties : ∀ {s : Set Node} {i : InstanceRef}, Known s i →
    P s (Eval.reads fun w => w.properties i)
  isAlive : ∀ {s : Set Node} (target : Node), P s (Eval.isAlive target)
  report : ∀ {s : Set Node} {level : Level}, level ≠ .exception → ∀ message : String,
    P s (Eval.report level message)

/-- A view whose length and elements have a property. -/
structure View.Has {α : Type} [Mentions α] (P : ∀ {α : Type} [Mentions α], Set Node → Eval α → Prop)
    (s : Set Node) (view : View α) : Prop where
  length : P s view.length
  element : ∀ i, P s (view.element i)

/-- A function is among some functions, and what it mentions is known. -/
structure Callable (functions : Set Function) (s : Set Node) (f : Function) : Prop where
  mem : f ∈ functions
  known : Known s f

theorem Callable.mono {functions : Set Function} {s s' : Set Node} {f : Function}
    (h : Callable functions s f) (hs : s ⊆ s') : Callable functions s' f :=
  ⟨h.mem, h.known.mono hs⟩

/-- A closed property that some functions of a host have, the views of its foreign containers,
and those of instances that are iterables in some worlds, which are the ones where computations
run. -/
structure Eval.Supplied [Host] (P : ∀ {α : Type} [Mentions α], Set Node → Eval α → Prop)
    (functions : Set Function) (worlds : Set World) : Prop extends Eval.Closed P where
  call : ∀ {s : Set Node} {f : Function} {args : List Value}, Callable functions s f →
    Known s args → P s (Host.call f args)
  opens : ∀ {s : Set Node} {w : World} {i : InstanceRef}, w ∈ worlds → Known s i →
    w.isGeneric i.cls = true → (View.ofInstance i).Has P s
  foreign : ∀ {s : Set Node} {i : InstanceRef}, Known s i → (Host.foreign i).Has P s
  /-- What is done with something read needs the property only for what can be read. -/
  reads_bind : ∀ {α β : Type} [Mentions β] {s : Set Node} {f : World → α} {g : α → Eval β},
    (∀ w seen, f { w with diagnostics := seen } = f w) →
      (∀ w ∈ worlds, P s (g (f w))) → P s (Eval.reads f >>= g)

/-- A closed property that the bodies, the functions and the foreign containers of a host have. -/
structure Eval.Hosted [Host] (P : ∀ {α : Type} [Mentions α], Set Node → Eval α → Prop) : Prop
    extends Eval.Closed P where
  request : ∀ {s : Set Node} {i : InstanceRef} (name : String) (appendsReceiver : Bool),
    Known s i → P s (i.bind name appendsReceiver)
  call : ∀ {s : Set Node} {f : Function} {args : List Value}, Known s f → Known s args →
    P s (Host.call f args)
  run : ∀ {s : Set Node} (body : Expr) {frame : Frame}, Known s frame → P s (Host.run body frame)
  foreign : ∀ {s : Set Node} {i : InstanceRef}, Known s i → (Host.foreign i).Has P s

namespace Eval

variable {P : ∀ {α : Type} [Mentions α], Set Node → Eval α → Prop} {α β : Type} [Mentions α]
  [Mentions β] {s : Set Node}

theorem has_ite {c : Prop} [Decidable c] {x y : Eval α} (hx : P s x) (hy : P s y) :
    P s (if c then x else y) := by
  split
  · exact hx
  · exact hy

theorem Closed.map (hP : Closed @P) {x : Eval α} {f : α → β} (hx : P s x)
    (hf : ∀ s' a, s ⊆ s' → Known s' a → Known s' (f a)) : P s (do return f (← x)) :=
  hP.bind hx fun s' a hs ha => hP.pure (hf s' a hs ha)

/-- A computation answers a value somewhere. -/
def Answers {α : Type} (x : Eval α) (a : α) : Prop := ∃ scope w after, x scope w = .done a after

/-- What comes after a computation needs the property only for what it can answer. -/
theorem Closed.bind_answers (hP : Closed @P) {x : Eval α} {f : α → Eval β} (hx : P s x)
    (hf : ∀ s' a, s ⊆ s' → Known s' a → x.Answers a → P s' (f a)) : P s (x >>= f) := by
  classical
  -- the part of `f` that is never reached is replaced by a computation that has the property
  have heq : (x >>= f) = x >>= fun a => if x.Answers a then f a else Eval.stuck .illFormed := by
    funext scope w
    rw [bind_apply, bind_apply]
    cases hreply : x scope w with
    | done a after =>
      have hanswer : x.Answers a := ⟨scope, w, after, hreply⟩
      exact (congrFun (congrFun (if_pos hanswer) scope) after).symm
    | failed e after | stuck reason => rfl
  rw [heq]
  refine hP.bind hx fun s' a hs ha => ?_
  split
  · exact hf s' a hs ha ‹_›
  · exact hP.stuck _

/-- What is done with something read needs the property only for what can be read. -/
theorem Closed.reads_bind (hP : Closed @P) {α : Type} {f : World → α} {g : α → Eval β}
    (hinsensitive : ∀ w seen, f { w with diagnostics := seen } = f w)
    (hg : ∀ w, P s (g (f w))) : P s (Eval.reads f >>= g) := by
  -- nothing is asked of what the reading mentions, since more is known of what is done with it
  let _ : Mentions α := .nothing α
  refine hP.bind_answers (hP.reads f hinsensitive fun _ => known_nothing _)
    fun s' a hs _ hanswer => ?_
  obtain ⟨scope, w, after, hdone⟩ := hanswer
  cases hdone
  exact hP.mono (hg w) hs

theorem Closed.property (hP : Closed @P) {i : InstanceRef} (hi : Known s i) (name : String) :
    P s (Eval.reads fun w => w.property i name) := by
  have hproperty : (Eval.reads fun w => w.property i name) =
      (do return (Entries.find? name (← Eval.reads fun w => w.properties i)).getD .undefined) := rfl
  rw [hproperty]
  exact hP.map (hP.properties hi) fun _ _ _ h => (h.find? name).getD known_undefined

theorem Closed.ofOption (hP : Closed @P) {a? : Option α} (h : Known s a?) :
    P s (Eval.ofOption a?) := by
  cases a? with
  | some a => exact hP.pure (known_some.mp h)
  | none => exact hP.stuck _

/-! ## Members -/

namespace Hosted

variable [Host] (hP : Hosted @P) {i : InstanceRef} {args : List Value}
include hP

theorem memberInvoke (member : Member) {c : ClassRef} (hi : Known s i) (hc : Known s c)
    (hargs : Known s args) : P s (member.invoke i c args) := by
  cases member with
  | method routine => exact hP.run _ (by simp [hi, hargs])
  | operation routine => exact hP.run _ (by simp [hc, hargs])

theorem callBound (name : String) (appendsReceiver : Bool) (hi : Known s i)
    (hargs : Known s args) : P s (callBound i name appendsReceiver args) := by
  refine hP.bind (hP.isAlive _) fun s₁ alive hs₁ _ => ?_
  cases alive with
  | false => exact hP.fail _
  | true =>
    refine hP.bind (hP.reads _ (fun _ _ => rfl) (by simp)) fun s₂ member? hs₂ _ => ?_
    cases member? with
    | none => exact hP.fail _
    | some member =>
      have hi := (hi.mono hs₁).mono hs₂
      have hargs := (hargs.mono hs₁).mono hs₂
      refine hP.holding _ (hP.memberInvoke _ hi hi.classOf ?_)
      cases appendsReceiver <;> simp [hi, hargs]

theorem invoke (name : String) (hi : Known s i) (hargs : Known s args) :
    P s (i.invoke name args) := by
  refine hP.holding _ (hP.bind (hP.request name false hi) fun s' b hs hb => ?_)
  exact hP.callBound _ _ hb (hargs.mono hs)

theorem ofInstance (hi : Known s i) : (View.ofInstance i).Has @P s := by
  refine ⟨hP.bind (hP.invoke lengthMember hi known_nil) fun s' answer hs _ => ?_, fun n => ?_⟩
  · split
    · split
      · exact hP.pure (known_nothing _)
      · exact hP.fail _
    · exact hP.fail _
  · exact hP.invoke _ hi (by simp)

/-- A host whose bodies and functions have a property supplies all functions and instances. -/
theorem supplied : Supplied @P Set.univ Set.univ where
  toClosed := hP.toClosed
  call hf := hP.call hf.known
  opens _ hi _ := hP.ofInstance hi
  foreign hi := hP.foreign hi
  reads_bind hinsensitive hg := hP.toClosed.reads_bind hinsensitive fun w => hg w trivial

end Hosted

end Eval

end DynamicObjects
