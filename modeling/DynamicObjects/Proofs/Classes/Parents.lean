import DynamicObjects.Proofs.Classes.Inheritance
import DynamicObjects.Proofs.Runs.References

/-!
# Parents

A class gets its parent when it is declared and keeps it. In a run with a grounded history
the parent was handed out before, so going from a class to its parent leads to classes
declared earlier, and comes to an end.

* `Path.parent_eq`: parents do not change.
* `Run.parent_handedOut`: parents were declared earlier.
-/

namespace DynamicObjects

open Script

variable {w w' : World} {event : Event} {history events : List Event}

/-- A class gets its parent when it is declared, and no other one later. -/
theorem Step.parent_eq (h : Step w event w') (c : ClassRef) :
    (w'.classState c).parent =
      match event.origin? c with
      | some (plan, _) => plan.parent
      | none => (w.classState c).parent := by
  rw [h.classState_eq c]
  cases h with
  | @declare _ scope plan d h =>
    by_cases hindex : c.index = d.index
    · rw [Event.onClass, if_pos hindex, Event.origin?, if_pos hindex.symm]
      rfl
    · have hother : ¬d.index = c.index := fun heq => hindex heq.symm
      rw [Event.onClass, if_neg hindex, Event.origin?, if_neg hother]
  | addMethod _ _ | addOperation _ _ | setShared _ _ | getOperation _ _ =>
    rw [Event.onClass]
    split <;> rfl
  | construct _ | set _ _ | bind _ _ | getSuper _ _ | elsewhere _ _ _ => rfl

/-- A class that is there is not declared again. -/
theorem Step.origin?_eq_none (h : Step w event w') {c : ClassRef} (hc : w.Stores (.cls c)) :
    event.origin? c = none := by
  cases h with
  | @declare _ scope plan d h =>
    have hplace := (Step.declare h).place_of_makes (n := .cls d) rfl
    rw [Event.origin?, if_neg]
    intro hindex
    exact hplace.1 ((World.stores_congr (n := .cls d) (m := .cls c) hindex).mpr hc)
  | _ => rfl

theorem Path.parent_eq (path : Path w events w') {c : ClassRef} (hc : w.Stores (.cls c)) :
    (w'.classState c).parent = (w.classState c).parent := by
  induction path with
  | refl => rfl
  | step path h ih =>
    have hstored := path.rec (motive := fun _ w' _ => w'.Stores (.cls c)) hc
      fun _ h ih => h.stores ih
    rw [h.parent_eq, h.origin?_eq_none hstored]
    exact ih

/-- **Parents were declared earlier.** -/
theorem Run.parent_handedOut (run : Run history w) (grounded : Grounded history)
    {c parent : ClassRef} (h : (w.classState c).parent = some parent) :
    HandedOut history (.cls parent) ∧ parent.index < c.index := by
  induction run with
  | refl => cases h
  | @step earlier event middle after path hstep ih =>
    cases grounded with
    | cons hrefers grounded =>
      rw [hstep.parent_eq] at h
      cases horigin : event.origin? c with
      | none =>
        rw [horigin] at h
        obtain ⟨hparent, hless⟩ := ih grounded h
        exact ⟨handedOut_cons.mpr (.inr hparent), hless⟩
      | some origin =>
        obtain ⟨plan, id⟩ := origin
        rw [horigin] at h
        cases event with
        | declared d plan' id' =>
          rw [Event.origin?] at horigin
          split at horigin
          · rename_i hindex
            cases horigin
            have hparent : HandedOut earlier (.cls parent) :=
              hrefers _ (List.mem_map_of_mem (Option.mem_toList.mpr h))
            refine ⟨handedOut_cons.mpr (.inr hparent), ?_⟩
            have hstored := Run.stores path hparent
            have hplace := hstep.place_of_makes (n := .cls d) rfl
            simp only [World.Stores] at hstored hplace
            omega
          · cases horigin
        | _ => cases horigin

end DynamicObjects
