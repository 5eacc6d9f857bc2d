import DynamicObjects.Proofs.Order.Spelling
import DynamicObjects.Script.Evaluate

/-!
# The order is a total preorder

Since data compares as its words do (`ranks_compareBy`), the laws of the order are those
of words. Numbers of functions and places of instances stand for their addresses: they
are whatever they are in the values compared, so nothing depends on how they are given
out.

Values that a script has to be run for are not data; among them the order can be
anything.

* `yields_compare`, `yields_equals`: comparing data answers, and by words.
* `compare_total_preorder`: the laws.
-/

namespace DynamicObjects

open Number

/-- How the words of two values compare. -/
def Value.order (a b : Value) : Ordering := Ord.compare a.spell b.spell

namespace Value

variable (a b c : Value)

theorem order_self : a.order a = .eq := Std.ReflOrd.compare_self

theorem order_swap : b.order a = (a.order b).swap := Std.OrientedOrd.eq_swap

variable {a b c}

theorem order_trans (hab : (a.order b).isLE) (hbc : (b.order c).isLE) : (a.order c).isLE :=
  Std.TransOrd.isLE_trans hab hbc

/-- Values that tie have the same word, so nothing tells them apart. -/
theorem order_eq_iff : a.order b = .eq ↔ a.spell = b.spell := by
  rw [order, Std.LawfulEqCmp.compare_eq_iff_eq]

theorem order_congr_left (h : a.order b = .eq) (c : Value) : a.order c = b.order c := by
  rw [order, order, order_eq_iff.mp h]

end Value

section Laws

variable [Host] {w : World} {a b c : Value}

theorem ranks_compare (ha : w.IsData a) : w.Ranks a.compare a.spell := by
  unfold Value.compare
  cases Host.fuel with
  | zero => exact ranks_compareBy _ ha
  | succ fuel => exact ranks_compareBy _ ha

theorem yields_compare (ha : w.IsData a) (hb : w.IsData b) :
    (a.compare b).Yields w (a.order b) := by
  obtain ⟨o, ho, hdecides⟩ := ranks_compare ha b hb
  rw [Value.order, hdecides.compare_eq]
  exact ho

theorem yields_equals (ha : w.IsData a) (hb : w.IsData b) :
    (a.equals b).Yields w (a.order b == .eq) :=
  Eval.yields_bind (yields_compare ha hb) (Eval.yields_pure _)

/-- **The order is a total preorder.** Any three pieces of data can be compared; each
equals itself, turning a comparison round reverses it, the order is transitive, and so is
being equal. So being equal is an equivalence, and equal data compares alike with
everything, from either side. -/
theorem compare_total_preorder (ha : w.IsData a) (hb : w.IsData b) (hc : w.IsData c) :
    ∃ ab bc ac : Ordering,
      ((a.compare b).Yields w ab ∧ (b.compare c).Yields w bc ∧ (a.compare c).Yields w ac) ∧
      ((a.compare a).Yields w .eq ∧ (b.compare a).Yields w ab.swap) ∧
      ((ab.isLE → bc.isLE → ac.isLE) ∧ (ab = .eq → bc = .eq → ac = .eq)) ∧
      ((a.equals a).Yields w true ∧ (a.equals b).Yields w (ab == .eq) ∧
        (b.equals a).Yields w (ab == .eq) ∧ (b.equals c).Yields w (bc == .eq) ∧
        (a.equals c).Yields w (ac == .eq)) ∧
      ((c.compare b).Yields w bc.swap ∧ (c.compare a).Yields w ac.swap ∧
        (ab = .eq → ac = bc)) := by
  have hself : a.order a = .eq := a.order_self
  have hab : b.order a = (a.order b).swap := Value.order_swap a b
  have hbc : c.order b = (b.order c).swap := Value.order_swap b c
  have hac : c.order a = (a.order c).swap := Value.order_swap a c
  refine ⟨a.order b, b.order c, a.order c, ⟨yields_compare ha hb, yields_compare hb hc,
    yields_compare ha hc⟩, ⟨?_, ?_⟩, ⟨Value.order_trans, ?_⟩, ⟨?_, yields_equals ha hb, ?_,
    yields_equals hb hc, yields_equals ha hc⟩, ⟨?_, ?_, ?_⟩⟩
  · rw [← hself]
    exact yields_compare ha ha
  · rw [← hab]
    exact yields_compare hb ha
  · intro htie htie'
    rw [Value.order_congr_left htie, htie']
  · have hequals := yields_equals ha ha
    rwa [hself] at hequals
  · have hequals := yields_equals hb ha
    rwa [hab, show ((a.order b).swap == .eq) = (a.order b == .eq) by
      cases a.order b <;> rfl] at hequals
  · rw [← hbc]
    exact yields_compare hc hb
  · rw [← hac]
    exact yields_compare hc ha
  · exact fun htie => Value.order_congr_left htie c

end Laws

/-- An array with what is no number and an entry without a value, a foreign table that
fails in its second place, and a typed array with the other zero. -/
theorem compare_total_preorder_mixed :
    let a : Value := .array [.float .nan, .map [("k", .undefined)]]
    let b : Value := .iterable 0 "iterable" 2 [.float .nan] none [(1, .string "gone")]
    let c : Value := .typed (.float64 [⟨0x8000000000000000⟩])
    (({} : World).IsData a ∧ ({} : World).IsData b ∧ ({} : World).IsData c) ∧
    letI := Script.hostWithin 0
    ∃ ab bc ac : Ordering,
      ((a.compare b).Yields {} ab ∧ (b.compare c).Yields {} bc ∧ (a.compare c).Yields {} ac) ∧
      (ab.isLE → bc.isLE → ac.isLE) := by
  intro a b c
  have hnan : ({} : World).IsData (.float .nan) := .atom trivial
  have hmap : ({} : World).IsData (.map [("k", .undefined)]) := .map fun entry hentry => by
    rw [List.mem_singleton.mp hentry]
    exact .atom trivial
  have ha : ({} : World).IsData a := .array fun v hv => by
    rcases List.mem_cons.mp hv with rfl | hv
    · exact hnan
    · rw [List.mem_singleton.mp hv]
      exact hmap
  have hb : ({} : World).IsData b := .iterable fun v hv => by
    rw [List.mem_singleton.mp hv]
    exact hnan
  have hc : ({} : World).IsData c := .typed _
  let _ := Script.hostWithin 0
  obtain ⟨ab, bc, ac, hyields, -, ⟨htrans, -⟩, -⟩ := compare_total_preorder ha hb hc
  exact ⟨⟨ha, hb, hc⟩, ab, bc, ac, hyields, htrans⟩

end DynamicObjects
