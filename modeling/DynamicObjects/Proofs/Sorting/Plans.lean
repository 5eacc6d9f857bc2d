import DynamicObjects.Proofs.World.Yields
import DynamicObjects.Sorting.Insertion
import DynamicObjects.Sorting.Merge
import DynamicObjects.Proofs.Sorting.Arrangement
import Mathlib.Order.Basic
import Mathlib.Tactic.SplitIfs

/-!
# What plans give

A plan that is answered by ranks comes to one result. `Plan.Gives` says that it has a
property, and that only certain elements are compared on the way: it is read off the plan,
one clause for each way to make one. What a plan gives is what comes out when it is carried
out, as long as those elements can be compared (`Plan.Gives.run`).

The plans that insert elements into a run and merge two runs give stable arrangements. Each
proof finds the cut that one comparison makes.
-/

namespace DynamicObjects.Sorting

variable {α β γ δ : Type} [LinearOrder β]

namespace Plan

/-- Answered by ranks, the plan asks only about elements of a kind, and its result has a
property. -/
def Gives (rank : α → β) (among : α → Prop) : Plan α γ → (γ → Prop) → Prop
  | done c, post => post c
  | ask x y next, post =>
    among x ∧ among y ∧ (next (decide (rank x < rank y))).Gives rank among post
  | contradiction, _ => False

variable {rank : α → β} {among : α → Prop} {p : Plan α γ} {post post' : γ → Prop}

@[simp]
theorem gives_pure {c : γ} : (pure c : Plan α γ).Gives rank among post ↔ post c := Iff.rfl

theorem gives_less {x y : α} {post : Bool → Prop} :
    (less x y).Gives rank among post ↔
      among x ∧ among y ∧ post (decide (rank x < rank y)) := Iff.rfl

@[simp]
theorem gives_bind {f : γ → Plan α δ} {post : δ → Prop} :
    (p >>= f).Gives rank among post ↔
      p.Gives rank among fun c => (f c).Gives rank among post := by
  change (p.bind f).Gives rank among post ↔ _
  induction p with
  | done c => rfl
  | ask x y next ih => exact and_congr_right' (and_congr_right' (ih _))
  | contradiction => rfl

theorem Gives.mono (h : p.Gives rank among post) (himp : ∀ c, post c → post' c) :
    p.Gives rank among post' := by
  induction p with
  | done c => exact himp c h
  | ask x y next ih => exact ⟨h.1, h.2.1, ih _ h.2.2⟩
  | contradiction => exact h

/-- What a plan gives comes out when it is carried out, if comparing answers by ranks. -/
theorem Gives.run {w : World} {isLess : α → α → Eval Bool} (h : p.Gives rank among post)
    (hless : ∀ x y, among x → among y →
      (isLess x y).Yields w (decide (rank x < rank y))) :
    ∃ c, post c ∧ (p.run isLess).Yields w c := by
  induction p with
  | done c => exact ⟨c, h, Eval.yields_pure c⟩
  | ask x y next ih =>
    obtain ⟨hx, hy, hnext⟩ := h
    obtain ⟨c, hc, hyields⟩ := ih _ hnext
    exact ⟨c, hc, Eval.yields_bind (hless x y hx hy) hyields⟩
  | contradiction => exact h.elim

end Plan

variable {rank : α → β} {among : α → Prop}

/-! ## Insertion -/

/-- A run kept from the last to the first takes in one more element, behind the others. -/
theorem gives_insertBackwards {x : α} {run : List α} (hx : among x) (hamong : ∀ y ∈ run, among y)
    (hrun : run.reverse.Pairwise (rank · ≤ rank ·)) :
    (insertBackwards x run).Gives rank among fun out =>
      Arranges rank (run.reverse ++ [x]) out.reverse := by
  induction run with
  | nil => exact Arranges.of_short (by simp)
  | cons y rest ih =>
    rw [List.reverse_cons] at hrun
    have hparts := List.pairwise_append.mp hrun
    have hbelow : ∀ z ∈ rest.reverse, rank z ≤ rank y := fun z hz => hparts.2.2 z hz y (by simp)
    rw [insertBackwards, Plan.gives_bind, Plan.gives_less]
    refine ⟨hx, hamong y (by simp), ?_⟩
    split_ifs with hless
    · rw [decide_eq_true_eq] at hless
      rw [Plan.gives_bind]
      refine (ih (fun z hz => hamong z (by simp [hz])) hparts.1).mono fun out hout => ?_
      have hcut : Cut rank (rest.reverse ++ [y]) [x] rest.reverse [y] [x] [] :=
        ⟨rfl, rfl, by simp, by simpa using hless⟩
      rw [Plan.gives_pure, List.reverse_cons, List.reverse_cons]
      exact hcut.arranges hrun (by simp) hout (.of_short (by simp))
    · rw [decide_eq_true_eq, not_lt] at hless
      rw [Plan.gives_pure]
      have hordered : ((y :: rest).reverse ++ [x]).Pairwise (rank · ≤ rank ·) := by
        rw [List.reverse_cons]
        refine List.pairwise_append.mpr ⟨hrun, by simp, ?_⟩
        intro z hz x' hx'
        rw [List.mem_singleton.mp hx']
        rcases List.mem_append.mp hz with hz | hz
        · exact (hbelow z hz).trans hless
        · rwa [List.mem_singleton.mp hz]
      have hreverse : (x :: y :: rest).reverse = (y :: rest).reverse ++ [x] := List.reverse_cons
      rw [hreverse]
      exact .of_ordered hordered

theorem gives_insertAll {items run : List α} (hitems : ∀ x ∈ items, among x)
    (hamong : ∀ y ∈ run, among y) (hrun : run.reverse.Pairwise (rank · ≤ rank ·)) :
    (insertAll items run).Gives rank among fun out =>
      Arranges rank (run.reverse ++ items) out.reverse := by
  induction items generalizing run with
  | nil =>
    rw [insertAll, Plan.gives_pure, List.append_nil]
    exact .of_ordered hrun
  | cons x rest ih =>
    rw [insertAll, Plan.gives_bind]
    refine (gives_insertBackwards (hitems x (by simp)) hamong hrun).mono fun grown hgrown => ?_
    have hmem : ∀ y ∈ grown, among y := by
      intro y hy
      have : y ∈ run.reverse ++ [x] := hgrown.mem_iff.mp (List.mem_reverse.mpr hy)
      rcases List.mem_append.mp this with hy | hy
      · exact hamong y (List.mem_reverse.mp hy)
      · exact hitems y (by simp [List.mem_singleton.mp hy])
    refine (ih (fun y hy => hitems y (by simp [hy])) hmem hgrown.ordered).mono fun out hout => ?_
    rw [List.append_cons]
    exact hout.of_alike (hgrown.alike.append (.refl rest))

theorem gives_insertionSort {items : List α} (hitems : ∀ x ∈ items, among x) :
    (insertionSort items).Gives rank among (Arranges rank items) := by
  rw [insertionSort, Plan.gives_bind]
  exact gives_insertAll hitems (by simp) (by simp)

/-! ## Merging from one end -/

theorem gives_mergeOnto {merged left right : List α} (hleft : ∀ x ∈ left, among x)
    (hright : ∀ y ∈ right, among y) (hleft' : left.Pairwise (rank · ≤ rank ·))
    (hright' : right.Pairwise (rank · ≤ rank ·)) :
    (mergeOnto merged left right).Gives rank among fun out =>
      ∃ rest, out = merged.reverse ++ rest ∧ Arranges rank (left ++ right) rest := by
  fun_induction mergeOnto merged left right with
  | case1 merged right => exact ⟨right, rfl, .of_ordered hright'⟩
  | case2 merged left _ =>
    refine ⟨left, rfl, ?_⟩
    rw [List.append_nil]
    exact .of_ordered hleft'
  | case3 merged l left r right ih₁ ih₂ =>
    have hl := (List.pairwise_cons.mp hleft').1
    have hr := (List.pairwise_cons.mp hright').1
    rw [Plan.gives_bind, Plan.gives_less]
    refine ⟨hright r (by simp), hleft l (by simp), ?_⟩
    split_ifs with hless
    · rw [decide_eq_true_eq] at hless
      refine (ih₁ hleft (fun y hy => hright y (by simp [hy])) hleft' hright'.of_cons).mono ?_
      rintro out ⟨rest, rfl, hrest⟩
      refine ⟨r :: rest, by simp, ?_⟩
      have hcut : Cut rank (l :: left) (r :: right) [] (l :: left) [r] right := by
        refine ⟨rfl, rfl, by simp, ?_⟩
        intro y hy x hx
        rw [List.mem_singleton.mp hy]
        rcases List.mem_cons.mp hx with rfl | hx
        · exact hless
        · exact hless.trans_le (hl x hx)
      exact hcut.arranges hleft' hright' (.of_short (by simp)) hrest
    · rw [decide_eq_true_eq, not_lt] at hless
      refine (ih₂ (fun x hx => hleft x (by simp [hx])) hright hleft'.of_cons hright').mono ?_
      rintro out ⟨rest, rfl, hrest⟩
      refine ⟨l :: rest, by simp, ?_⟩
      have hcut : Cut rank (l :: left) (r :: right) [l] left [] (r :: right) := by
        refine ⟨rfl, rfl, ?_, by simp⟩
        intro x hx y hy
        rw [List.mem_singleton.mp hx]
        rcases List.mem_cons.mp hy with rfl | hy
        · exact hless
        · exact hless.trans (hr y hy)
      exact hcut.arranges hleft' hright' (.of_short (by simp)) hrest

theorem gives_merge {left right : List α} (hleft : ∀ x ∈ left, among x)
    (hright : ∀ y ∈ right, among y) (hleft' : left.Pairwise (rank · ≤ rank ·))
    (hright' : right.Pairwise (rank · ≤ rank ·)) :
    (merge left right).Gives rank among (Arranges rank (left ++ right)) := by
  refine (gives_mergeOnto hleft hright hleft' hright').mono ?_
  rintro out ⟨rest, rfl, hrest⟩
  exact hrest

theorem gives_mergeBackwards {merged left right : List α} (hleft : ∀ x ∈ left, among x)
    (hright : ∀ y ∈ right, among y) (hleft' : left.reverse.Pairwise (rank · ≤ rank ·))
    (hright' : right.reverse.Pairwise (rank · ≤ rank ·)) :
    (mergeBackwards merged left right).Gives rank among fun out =>
      ∃ rest, out = rest ++ merged ∧ Arranges rank (left.reverse ++ right.reverse) rest := by
  fun_induction mergeBackwards merged left right with
  | case1 merged right => exact ⟨right.reverse, rfl, .of_ordered hright'⟩
  | case2 merged left _ =>
    refine ⟨left.reverse, rfl, ?_⟩
    rw [List.reverse_nil, List.append_nil]
    exact .of_ordered hleft'
  | case3 merged l left r right ih₁ ih₂ =>
    rw [List.reverse_cons] at hleft' hright'
    have hl := List.pairwise_append.mp hleft'
    have hr := List.pairwise_append.mp hright'
    rw [Plan.gives_bind, Plan.gives_less]
    refine ⟨hright r (by simp), hleft l (by simp), ?_⟩
    split_ifs with hless
    · rw [decide_eq_true_eq] at hless
      refine (ih₁ (fun x hx => hleft x (by simp [hx])) hright hl.1 (by simpa using hright')).mono ?_
      rintro out ⟨rest, rfl, hrest⟩
      refine ⟨rest ++ [l], by simp, ?_⟩
      have hcut : Cut rank (left.reverse ++ [l]) (right.reverse ++ [r]) left.reverse [l]
          (right.reverse ++ [r]) [] := by
        refine ⟨rfl, by simp, by simp, ?_⟩
        intro y hy x hx
        rw [List.mem_singleton.mp hx]
        rcases List.mem_append.mp hy with hy | hy
        · exact (hr.2.2 y hy r (by simp)).trans_lt hless
        · rwa [List.mem_singleton.mp hy]
      rw [List.reverse_cons, List.reverse_cons]
      exact hcut.arranges hleft' hright' (by simpa using hrest) (.of_short (by simp))
    · rw [decide_eq_true_eq, not_lt] at hless
      refine (ih₂ hleft (fun y hy => hright y (by simp [hy])) (by simpa using hleft') hr.1).mono ?_
      rintro out ⟨rest, rfl, hrest⟩
      refine ⟨rest ++ [r], by simp, ?_⟩
      have hcut : Cut rank (left.reverse ++ [l]) (right.reverse ++ [r]) (left.reverse ++ [l]) []
          right.reverse [r] := by
        refine ⟨by simp, rfl, ?_, by simp⟩
        intro x hx y hy
        rw [List.mem_singleton.mp hy]
        rcases List.mem_append.mp hx with hx | hx
        · exact (hl.2.2 x hx l (by simp)).trans hless
        · rwa [List.mem_singleton.mp hx]
      rw [List.reverse_cons, List.reverse_cons]
      exact hcut.arranges hleft' hright' (by simpa using hrest) (.of_short (by simp))

/-- From whichever end two runs are merged, the same comes out. -/
theorem gives_mergeAlong {left right : List α} (hleft : ∀ x ∈ left, among x)
    (hright : ∀ y ∈ right, among y) (hleft' : left.Pairwise (rank · ≤ rank ·))
    (hright' : right.Pairwise (rank · ≤ rank ·)) :
    (mergeAlong left right).Gives rank among (Arranges rank (left ++ right)) := by
  unfold mergeAlong
  split_ifs
  · exact gives_merge hleft hright hleft' hright'
  · have hbackwards : (mergeBackwards [] left.reverse right.reverse).Gives rank among fun out =>
        ∃ rest, out = rest ++ [] ∧
          Arranges rank (left.reverse.reverse ++ right.reverse.reverse) rest :=
      gives_mergeBackwards (by simpa using hleft) (by simpa using hright) (by simpa using hleft')
        (by simpa using hright')
    refine hbackwards.mono ?_
    rintro out ⟨rest, rfl, hrest⟩
    simpa using hrest

theorem gives_mergeSort {items : List α} (hitems : ∀ x ∈ items, among x) :
    (mergeSort items).Gives rank among (Arranges rank items) := by
  fun_induction mergeSort items with
  | case1 items hshort => exact .of_short hshort
  | case2 items _ ihLeft ihRight =>
    have htake : ∀ x ∈ items.take (items.length / 2), among x :=
      fun x hx => hitems x (List.mem_of_mem_take hx)
    have hdrop : ∀ x ∈ items.drop (items.length / 2), among x :=
      fun x hx => hitems x (List.mem_of_mem_drop hx)
    simp only [Plan.gives_bind]
    refine (ihLeft htake).mono fun left hleft => (ihRight hdrop).mono fun right hright => ?_
    refine (gives_merge (fun x hx => htake x (hleft.mem_iff.mp hx))
      (fun y hy => hdrop y (hright.mem_iff.mp hy)) hleft.ordered hright.ordered).mono ?_
    intro out hout
    have halike := hleft.alike.append hright.alike
    rw [List.take_append_drop] at halike
    exact hout.of_alike halike

end DynamicObjects.Sorting
