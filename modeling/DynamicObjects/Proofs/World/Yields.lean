import DynamicObjects.World.Eval

/-!
# Computations that only answer

`x.Yields w a` says that `x` answers `a` in the world `w`, whatever its scope and whatever
has been reported before, and that it leaves the world as it was apart from further
reports, all of them of the level `debug`. There is one lemma for each way to make a
computation.
-/

namespace DynamicObjects.Eval

open Script

variable {α β : Type} {w : World}

/-- The computation answers in a world and adds nothing to it but notes. -/
def Yields (x : Eval α) (w : World) (a : α) : Prop :=
  ∀ scope seen, ∃ notes : Array Diagnostic, (∀ note ∈ notes, note.level = .debug) ∧
    x scope { w with diagnostics := seen } = .done a { w with diagnostics := seen ++ notes }

/-- There is one answer only. -/
theorem Yields.unique {x : Eval α} {a b : α} (ha : x.Yields w a) (hb : x.Yields w b) : a = b := by
  obtain ⟨_, -, hdone⟩ := ha {} #[]
  obtain ⟨_, -, hdone'⟩ := hb {} #[]
  exact (Reply.done.inj (hdone.symm.trans hdone')).1

theorem yields_pure (a : α) : (pure a : Eval α).Yields w a :=
  fun _ seen => ⟨#[], by simp, by rw [Array.append_empty]; rfl⟩

theorem yields_bind {x : Eval α} {f : α → Eval β} {a : α} {b : β} (hx : x.Yields w a)
    (hf : (f a).Yields w b) : (x >>= f).Yields w b := by
  intro scope seen
  obtain ⟨notes, hnotes, hdone⟩ := hx scope seen
  obtain ⟨more, hmore, hdone'⟩ := hf scope (seen ++ notes)
  refine ⟨notes ++ more, ?_, ?_⟩
  · intro note hnote
    rcases Array.mem_append.mp hnote with hnote | hnote
    · exact hnotes note hnote
    · exact hmore note hnote
  · change Eval.bind x f scope _ = _
    rw [Eval.bind, hdone, ← Array.append_assoc]
    exact hdone'

theorem yields_reads {f : World → α} {a : α}
    (hf : ∀ seen, f { w with diagnostics := seen } = a) : (reads f).Yields w a := by
  intro scope seen
  refine ⟨#[], by simp, ?_⟩
  rw [Array.append_empty, ← hf seen]
  rfl

theorem yields_world_bind {f : World → Eval β} {b : β}
    (hf : ∀ seen, (f { w with diagnostics := seen }).Yields w b) : (world >>= f).Yields w b :=
  fun scope seen => hf seen scope seen

theorem yields_within {x : Eval α} {a : α} (f : Scope → Scope) (hx : x.Yields w a) :
    (within f x).Yields w a :=
  fun scope seen => hx (f scope) seen

theorem yields_holding {x : Eval α} {a : α} (h : Held) (hx : x.Yields w a) :
    (holding h x).Yields w a :=
  yields_within _ hx

theorem yields_attempt {x : Eval α} {a : α} (hx : x.Yields w a) :
    x.attempt.Yields w (.ok a) := by
  intro scope seen
  obtain ⟨notes, hnotes, hdone⟩ := hx scope seen
  exact ⟨notes, hnotes, by rw [attempt, hdone]⟩

theorem yields_attempt_fail (e : Failure) : (fail e : Eval α).attempt.Yields w (.error e) :=
  fun _ seen => ⟨#[], by simp, by rw [Array.append_empty]; rfl⟩

/-- What is reported at the level `debug` is a note. -/
theorem yields_report_debug (message : String) : (report .debug message).Yields w () := by
  intro scope seen
  unfold report
  cases scope.recording with
  | false => exact ⟨#[], by simp, by rw [Array.append_empty]; rfl⟩
  | true => exact ⟨#[⟨.debug, message⟩], by simp, by rw [Array.append_singleton]; rfl⟩

end DynamicObjects.Eval
