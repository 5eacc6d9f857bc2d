import DynamicObjects.Proofs.Collections.Turns
import DynamicObjects.Proofs.World.Yields
import Mathlib.Data.Set.Basic

/-!
# What may become of a computation

`Circumstances` say where computations run: in which scopes and worlds, and what the callbacks
they run may report. `x.KeepsTo c terms` says what becomes of `x` in all of
them: it is never stuck, it answers or fails as the terms allow, it leaves a world that belongs
to the circumstances, and everything it reports is a note or a report of a callback, except for
the one report with which it may refuse its arguments in the end.

There is one lemma for each way to make a computation. What answers, without failing or
refusing, `Succeeds`; it can be put in front of everything else.

* `Circumstances`, `Circumstances.Becomes`: what may change.
* `Eval.KeepsTo`, `Eval.Succeeds`: what may become of a computation.
-/

namespace DynamicObjects

open Script

variable {α β : Type}

/-- What may be the case where computations run. -/
structure Circumstances where
  scopes : Set Scope
  worlds : Set World
  /-- What callbacks may report. -/
  reports : Set Diagnostic
  holding : ∀ scope ∈ scopes, ∀ h : Held, scope.holding h ∈ scopes
  reported : ∀ w ∈ worlds, ∀ seen : Array Diagnostic, { w with diagnostics := seen } ∈ worlds

namespace Circumstances

/-- No circumstances, in which all that is demanded holds. -/
def empty : Circumstances where
  scopes := ∅
  worlds := ∅
  reports := ∅
  holding := fun _ h => h.elim
  reported := fun _ h => h.elim

/-- All scopes and worlds, where callbacks report nothing. -/
def everywhere : Circumstances where
  scopes := Set.univ
  worlds := Set.univ
  reports := ∅
  holding := fun _ _ _ => trivial
  reported := fun _ _ _ => trivial

end Circumstances

/-- A world may become another one: by what callbacks do, and by reports, each of which is a
note or one that callbacks may make. -/
structure Circumstances.Becomes (c : Circumstances) (w w' : World) : Prop where
  mem : w' ∈ c.worlds
  reports : ∃ more : Array Diagnostic, (∀ d ∈ more, d.level = .debug ∨ d ∈ c.reports) ∧
    w'.diagnostics = w.diagnostics ++ more

namespace Circumstances.Becomes

variable {c : Circumstances} {w w' w'' : World}

theorem refl (h : w ∈ c.worlds) : c.Becomes w w :=
  ⟨h, #[], by simp, by simp⟩

theorem trans (h : c.Becomes w w') (h' : c.Becomes w' w'') : c.Becomes w w'' := by
  obtain ⟨more, hmore, hreports⟩ := h.reports
  obtain ⟨more', hmore', hreports'⟩ := h'.reports
  refine ⟨h'.mem, more ++ more', ?_, by rw [hreports', hreports, Array.append_assoc]⟩
  intro d hd
  rcases Array.mem_append.mp hd with hd | hd
  · exact hmore d hd
  · exact hmore' d hd

/-- Notes may be added. -/
theorem note (h : w ∈ c.worlds) {notes : Array Diagnostic}
    (hnotes : ∀ note ∈ notes, note.level = .debug) :
    c.Becomes w { w with diagnostics := w.diagnostics ++ notes } :=
  ⟨c.reported w h _, notes, fun d hd => .inl (hnotes d hd), rfl⟩

end Circumstances.Becomes

/-- The terms of a computation: what it may answer, how it may fail, and how it may refuse,
with a report of its own and an answer after it. -/
structure Terms (α : Type) where
  answers : α → Prop
  fails : Failure → Prop := fun _ => False
  refuses : Option (Diagnostic × α) := none

/-- A reply on such terms. -/
inductive Reply.OnTerms (c : Circumstances) (terms : Terms α) (scope : Scope) (w : World) :
    Reply α → Prop
  | done {a : α} {w' : World} (h : c.Becomes w w') (ha : terms.answers a) :
      OnTerms c terms scope w (.done a w')
  | failed {e : Failure} {w' : World} (h : c.Becomes w w') (he : terms.fails e) :
      OnTerms c terms scope w (.failed e w')
  | refused {d : Diagnostic} {a : α} {w' : World} (h : c.Becomes w w')
      (hrefuses : terms.refuses = some (d, a)) :
      OnTerms c terms scope w
        (.done a { w' with diagnostics := w'.diagnostics ++ scope.kept #[d] })

theorem Reply.OnTerms.mono {c : Circumstances} {terms terms' : Terms α} {scope : Scope}
    {w : World} {reply : Reply α} (h : reply.OnTerms c terms scope w)
    (hanswers : ∀ a, terms.answers a → terms'.answers a)
    (hfails : ∀ e, terms.fails e → terms'.fails e)
    (hrefuses : ∀ refusal, terms.refuses = some refusal → terms'.refuses = some refusal) :
    reply.OnTerms c terms' scope w := by
  cases h with
  | done h ha => exact .done h (hanswers _ ha)
  | failed h he => exact .failed h (hfails _ he)
  | refused h hr => exact .refused h (hrefuses _ hr)

namespace Eval

/-- A computation ends on some terms wherever it runs. -/
def KeepsTo (x : Eval α) (c : Circumstances) (terms : Terms α) : Prop :=
  ∀ scope ∈ c.scopes, ∀ w ∈ c.worlds, (x scope w).OnTerms c terms scope w

/-- A computation answers wherever it runs. -/
def Succeeds (x : Eval α) (c : Circumstances) (answers : α → Prop) : Prop :=
  x.KeepsTo c { answers }

variable {c : Circumstances} {terms : Terms α}

/-! ## Ways to make computations -/

theorem Succeeds.done {x : Eval α} {p : α → Prop} (h : x.Succeeds c p) {scope : Scope}
    (hscope : scope ∈ c.scopes) {w : World} (hw : w ∈ c.worlds) :
    ∃ a w', x scope w = .done a w' ∧ c.Becomes w w' ∧ p a := by
  have hreply := h scope hscope w hw
  generalize hx : x scope w = reply at hreply
  cases hreply with
  | done h ha => exact ⟨_, _, rfl, h, ha⟩
  | failed _ he => exact he.elim
  | refused _ hrefuses => cases hrefuses

theorem KeepsTo.mono {terms' : Terms α} {x : Eval α} (hx : x.KeepsTo c terms)
    (hanswers : ∀ a, terms.answers a → terms'.answers a)
    (hfails : ∀ e, terms.fails e → terms'.fails e)
    (hrefuses : ∀ refusal, terms.refuses = some refusal → terms'.refuses = some refusal) :
    x.KeepsTo c terms' :=
  fun scope hscope w hw => (hx scope hscope w hw).mono hanswers hfails hrefuses

theorem Succeeds.imp {p q : α → Prop} {x : Eval α} (hx : x.Succeeds c p)
    (hpq : ∀ a, p a → q a) : x.Succeeds c q :=
  hx.mono hpq (fun _ he => he) fun _ hr => hr

/-- What answers keeps to all terms that allow for its answers. -/
theorem Succeeds.keepsTo {p : α → Prop} {x : Eval α} (hx : x.Succeeds c p)
    (h : ∀ a, p a → terms.answers a) : x.KeepsTo c terms :=
  hx.mono h (fun _ he => he.elim) fun _ hr => nomatch hr

theorem keepsTo_pure {a : α} (h : terms.answers a) : (pure a : Eval α).KeepsTo c terms :=
  fun _ _ _ hw => .done (.refl hw) h

theorem succeeds_pure {p : α → Prop} {a : α} (h : p a) : (pure a : Eval α).Succeeds c p :=
  keepsTo_pure h

theorem keepsTo_fail {e : Failure} (h : terms.fails e) : (fail e : Eval α).KeepsTo c terms :=
  fun _ _ _ hw => .failed (.refl hw) h

/-- One computation after another, where the first one runs in a certain world. -/
theorem onTerms_bind {p : α → Prop} {terms : Terms β} {x : Eval α} {f : α → Eval β} {scope : Scope}
    {w : World} (hscope : scope ∈ c.scopes)
    (hx : (x scope w).OnTerms c { answers := p, fails := terms.fails } scope w)
    (hf : ∀ a, p a → (f a).KeepsTo c terms) :
    ((x >>= f) scope w).OnTerms c terms scope w := by
  rw [bind_apply]
  generalize x scope w = reply at hx
  cases hx with
  | failed h he => exact .failed h he
  | refused _ hr => cases hr
  | @done a w' h ha =>
    have hnext := hf a ha scope hscope w' h.mem
    dsimp only
    generalize f a scope w' = reply at hnext
    cases hnext with
    | done h' hb => exact .done (h.trans h') hb
    | failed h' he => exact .failed (h.trans h') he
    | refused h' hr => exact .refused (h.trans h') hr

/-- One computation after another, which may fail in the same ways. -/
theorem KeepsTo.bind {p : α → Prop} {terms : Terms β} {x : Eval α} {f : α → Eval β}
    (hx : x.KeepsTo c { answers := p, fails := terms.fails })
    (hf : ∀ a, p a → (f a).KeepsTo c terms) : (x >>= f).KeepsTo c terms :=
  fun scope hscope w hw => onTerms_bind hscope (hx scope hscope w hw) hf

theorem Succeeds.bind {p : α → Prop} {terms : Terms β} {x : Eval α} {f : α → Eval β}
    (hx : x.Succeeds c p) (hf : ∀ a, p a → (f a).KeepsTo c terms) : (x >>= f).KeepsTo c terms :=
  KeepsTo.bind (hx.keepsTo fun _ h => h) hf

/-- What is made of an answer. -/
theorem Succeeds.map {p : α → Prop} {q : β → Prop} {x : Eval α} {f : α → β} (hx : x.Succeeds c p)
    (h : ∀ a, p a → q (f a)) : (do return f (← x) : Eval β).Succeeds c q :=
  hx.bind fun a ha => succeeds_pure (h a ha)

theorem KeepsTo.holding {x : Eval α} (h : Held) (hx : x.KeepsTo c terms) :
    (holding h x).KeepsTo c terms := by
  intro scope hscope w hw
  have hreply := hx (scope.holding h) (c.holding scope hscope h) w hw
  rw [holding_apply]
  generalize x (scope.holding h) w = reply at hreply
  cases hreply with
  | done h ha => exact .done h ha
  | failed h he => exact .failed h he
  | refused h hr => exact .refused h hr

theorem Succeeds.holding {p : α → Prop} {x : Eval α} (h : Held) (hx : x.Succeeds c p) :
    (Eval.holding h x).Succeeds c p :=
  KeepsTo.holding h hx

/-- What answers leaves a walk without a report. -/
theorem Succeeds.reporting {p : α → Prop} {x : Eval α} (hx : x.Succeeds c p) :
    (reporting x).Succeeds c p := by
  intro scope hscope w hw
  obtain ⟨a, w', hdone, h, ha⟩ := hx.done hscope hw
  rw [reporting_apply, hdone]
  exact .done h ha

theorem succeeds_reads (f : World → α) :
    (reads f).Succeeds c fun a => ∃ w ∈ c.worlds, f w = a :=
  fun _ _ w hw => .done (.refl hw) ⟨w, hw, rfl⟩

theorem succeeds_note (message : String) : (report .debug message).Succeeds c fun _ => True := by
  intro scope _ w hw
  rw [report_apply]
  split
  · rw [Array.push_eq_append]
    exact .done (.note hw (by simp)) trivial
  · exact .done (.refl hw) trivial

/-- A report with which a computation refuses its arguments. -/
theorem keepsTo_report {level : Level} {message : String} {a : α}
    (h : terms.refuses = some (⟨level, message⟩, a)) :
    (do report level message; return a : Eval α).KeepsTo c terms := by
  intro scope _ w hw
  have hkept : (do report level message; return a : Eval α) scope w =
      .done a { w with diagnostics := w.diagnostics ++ scope.kept #[⟨level, message⟩] } := by
    rw [bind_apply, report_apply, Scope.kept]
    cases scope.recording
    · simp [pure_apply]
    · simp [pure_apply]
  rw [hkept]
  exact .refused (.refl hw) h

/-- What only answers and makes notes. -/
theorem succeeds_of_yields {p : α → Prop} {x : Eval α}
    (h : ∀ w ∈ c.worlds, ∃ a, p a ∧ x.Yields w a) : x.Succeeds c p := by
  intro scope _ w hw
  obtain ⟨a, ha, hyields⟩ := h w hw
  obtain ⟨notes, hnotes, hdone⟩ := hyields scope w.diagnostics
  rw [hdone]
  exact .done (.note hw hnotes) ha

end Eval

end DynamicObjects
