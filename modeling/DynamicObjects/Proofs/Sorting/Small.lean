import DynamicObjects.Proofs.Sorting.Plans
import DynamicObjects.Sorting.Small
import Mathlib.Tactic.Order

/-!
# A few elements are sorted

Merging from both ends makes two cuts through the two runs, one from the front and one from
the back (`Inward.Fits`). Were the ends to overlap, one element would have to go both before
and behind another. So they meet, with at most one element between them, and all is merged
(`gives_mergeHalves`).

* `gives_sortFew`: a few elements are sorted.
-/

namespace DynamicObjects.Sorting

variable {α β : Type} [LinearOrder β] {rank : α → β} {among : α → Prop}

/-! ## Merging from both ends -/

section Halves

variable {left right left₁ left₂ right₁ right₂ out : List α} {l r : α}

/-- Taking the smaller of two first elements to the front. -/
theorem Cut.advance (h : Cut rank left right left₁ (l :: left₂) right₁ (r :: right₂))
    (hleft : left.Pairwise (rank · ≤ rank ·)) (hright : right.Pairwise (rank · ≤ rank ·))
    (hout : Arranges rank (left₁ ++ right₁) out) :
    if rank r < rank l then
      Cut rank left right left₁ (l :: left₂) (right₁ ++ [r]) right₂ ∧
        Arranges rank (left₁ ++ (right₁ ++ [r])) (out ++ [r])
    else
      Cut rank left right (left₁ ++ [l]) left₂ right₁ (r :: right₂) ∧
        Arranges rank (left₁ ++ [l] ++ right₁) (out ++ [l]) := by
  obtain ⟨rfl, rfl, hle, hlt⟩ := h
  have hleft' := List.pairwise_append.mp hleft
  have hright' := List.pairwise_append.mp hright
  have hl := (List.pairwise_cons.mp hleft'.2.1).1
  have hr := (List.pairwise_cons.mp hright'.2.1).1
  split_ifs with hless
  · have hcut : Cut rank left₁ (right₁ ++ [r]) left₁ [] right₁ [r] :=
      ⟨by simp, rfl, fun x hx y hy => hle x hx y (by simp_all), by simp⟩
    refine ⟨⟨rfl, by simp, fun x hx y hy => hle x hx y (by simp [hy]), ?_⟩, ?_⟩
    · intro y hy x hx
      rcases List.mem_append.mp hy with hy | hy
      · exact hlt y hy x hx
      · rw [List.mem_singleton.mp hy]
        rcases List.mem_cons.mp hx with rfl | hx
        · exact hless
        · exact hless.trans_le (hl x hx)
    · refine hcut.arranges hleft'.1 ?_ hout (.of_short (by simp))
      exact hright.sublist (by simp)
  · have hcut : Cut rank (left₁ ++ [l]) right₁ left₁ [l] right₁ [] :=
      ⟨rfl, by simp, by simp, fun y hy x hx => hlt y hy x (by simp_all)⟩
    refine ⟨⟨by simp, rfl, ?_, fun y hy x hx => hlt y hy x (by simp [hx])⟩, ?_⟩
    · intro x hx y hy
      rcases List.mem_append.mp hx with hx | hx
      · exact hle x hx y hy
      · rw [List.mem_singleton.mp hx]
        rcases List.mem_cons.mp hy with rfl | hy
        · exact not_lt.mp hless
        · exact (not_lt.mp hless).trans (hr y hy)
    · refine hcut.arranges ?_ hright'.1 hout (.of_short (by simp))
      exact hleft.sublist (by simp)

/-- Taking the greater of two last elements to the back. -/
theorem Cut.retreat (h : Cut rank left right (left₁ ++ [l]) left₂ (right₁ ++ [r]) right₂)
    (hleft : left.Pairwise (rank · ≤ rank ·)) (hright : right.Pairwise (rank · ≤ rank ·))
    (hout : Arranges rank (left₂ ++ right₂) out) :
    if rank r < rank l then
      Cut rank left right left₁ (l :: left₂) (right₁ ++ [r]) right₂ ∧
        Arranges rank (l :: left₂ ++ right₂) (l :: out)
    else
      Cut rank left right (left₁ ++ [l]) left₂ right₁ (r :: right₂) ∧
        Arranges rank (left₂ ++ r :: right₂) (r :: out) := by
  obtain ⟨rfl, rfl, hle, hlt⟩ := h
  have hleft' := List.pairwise_append.mp hleft
  have hright' := List.pairwise_append.mp hright
  have hl := (List.pairwise_append.mp hleft'.1).2.2
  have hr := (List.pairwise_append.mp hright'.1).2.2
  split_ifs with hless
  · have hcut : Cut rank (l :: left₂) right₂ [l] left₂ [] right₂ :=
      ⟨rfl, rfl, fun x hx y hy => hle x (by simp_all) y hy, by simp⟩
    refine ⟨⟨by simp, rfl, fun x hx y hy => hle x (by simp [hx]) y hy, ?_⟩, ?_⟩
    · intro y hy x hx
      rcases List.mem_cons.mp hx with rfl | hx
      · rcases List.mem_append.mp hy with hy | hy
        · exact (hr y hy r (by simp)).trans_lt hless
        · rwa [List.mem_singleton.mp hy]
      · exact hlt y hy x hx
    · refine hcut.arranges ?_ hright'.2.1 (.of_short (by simp)) hout
      exact hleft.sublist (by simp)
  · have hcut : Cut rank left₂ (r :: right₂) [] left₂ [r] right₂ :=
      ⟨rfl, rfl, by simp, fun y hy x hx => hlt y (by simp_all) x hx⟩
    refine ⟨⟨rfl, by simp, ?_, fun y hy x hx => hlt y (by simp [hy]) x hx⟩, ?_⟩
    · intro x hx y hy
      rcases List.mem_cons.mp hy with rfl | hy
      · rcases List.mem_append.mp hx with hx | hx
        · exact (hl x hx l (by simp)).trans (not_lt.mp hless)
        · rw [List.mem_singleton.mp hx]
          exact not_lt.mp hless
      · exact hle x hx y hy
    · refine hcut.arranges hleft'.2.1 ?_ (.of_short (by simp)) hout
      exact hright.sublist (by simp)

/-- Two runs on the way to being merged from both ends: the elements taken to the front are
those before a cut, those taken to the back are those behind a cut, and there are as many
of the ones as of the others. -/
structure Inward.Fits (rank : α → β) (left right : List α) (taken : Nat) (state : Inward α) :
    Prop where
  front : ∃ left₁ right₁, Cut rank left right left₁ state.left right₁ state.right ∧
    Arranges rank (left₁ ++ right₁) state.front.reverse
  back : ∃ left₂ right₂,
    Cut rank left right state.leftBack.reverse left₂ state.rightBack.reverse right₂ ∧
      Arranges rank (left₂ ++ right₂) state.back
  front_length : state.front.length = taken
  back_length : state.back.length = taken

theorem Inward.fits_start {leftBack rightBack : List α} :
    (Inward.start leftBack rightBack).Fits rank leftBack.reverse rightBack.reverse 0 where
  front := ⟨[], [], ⟨rfl, rfl, by simp, by simp⟩, .of_short (by simp)⟩
  back := ⟨[], [], ⟨by simp [start], by simp [start], by simp, by simp⟩,
    .of_short (by simp)⟩
  front_length := rfl
  back_length := rfl

theorem Inward.Fits.step {left' right' leftBack' rightBack' front back : List α} {l' r' : α}
    {taken : Nat}
    (h : Inward.Fits rank left right taken
      ⟨l :: left', r :: right', l' :: leftBack', r' :: rightBack', front, back⟩)
    (hleft : left.Pairwise (rank · ≤ rank ·)) (hright : right.Pairwise (rank · ≤ rank ·)) :
    Inward.Fits rank left right (taken + 1)
      { left := if rank r < rank l then l :: left' else left'
        right := if rank r < rank l then right' else r :: right'
        leftBack := if rank r' < rank l' then leftBack' else l' :: leftBack'
        rightBack := if rank r' < rank l' then r' :: rightBack' else rightBack'
        front := (if rank r < rank l then r else l) :: front
        back := (if rank r' < rank l' then l' else r') :: back } := by
  obtain ⟨⟨left₁, right₁, hfront, hout⟩, ⟨left₂, right₂, hback, hout'⟩, hlen, hlen'⟩ := h
  refine ⟨?_, ?_, by simpa using hlen, by simpa using hlen'⟩
  · have hnext := hfront.advance hleft hright hout
    dsimp only
    split_ifs at hnext ⊢ with hless
    · exact ⟨left₁, right₁ ++ [r], hnext.1, by simpa using hnext.2⟩
    · exact ⟨left₁ ++ [l], right₁, hnext.1, by simpa using hnext.2⟩
  · simp only [List.reverse_cons] at hback
    have hnext := hback.retreat hleft hright hout'
    dsimp only
    split_ifs at hnext ⊢ with hless
    · exact ⟨l' :: left₂, right₂, by simpa using hnext.1, hnext.2⟩
    · exact ⟨left₂, r' :: right₂, by simpa using hnext.1, hnext.2⟩

/-- As long as fewer elements are taken from each end than the left run has, each run has
elements left, from the front and from the back. -/
theorem Inward.Fits.exists_cons {state : Inward α} {taken : Nat}
    (h : state.Fits rank left right taken) (htaken : taken < left.length)
    (hlength : left.length ≤ right.length) :
    ∃ l left' r right' l' leftBack' r' rightBack' front back,
      state = ⟨l :: left', r :: right', l' :: leftBack', r' :: rightBack', front, back⟩ := by
  obtain ⟨left₀, right₀, leftBack, rightBack, front, back⟩ := state
  obtain ⟨⟨left₁, right₁, hfront, hout⟩, ⟨left₂, right₂, hback, hout'⟩, hlen, hlen'⟩ := h
  have hfront₁ := congrArg List.length hfront.left_eq
  have hfront₂ := congrArg List.length hfront.right_eq
  have hback₁ := congrArg List.length hback.left_eq
  have hback₂ := congrArg List.length hback.right_eq
  have hout₁ := hout.length_eq
  have hout₂ := hout'.length_eq
  simp only [List.length_append, List.length_reverse] at *
  obtain ⟨l, left', rfl⟩ := List.exists_cons_of_length_pos (l := left₀) (by omega)
  obtain ⟨r, right', rfl⟩ := List.exists_cons_of_length_pos (l := right₀) (by omega)
  obtain ⟨l', leftBack', rfl⟩ := List.exists_cons_of_length_pos (l := leftBack) (by omega)
  obtain ⟨r', rightBack', rfl⟩ := List.exists_cons_of_length_pos (l := rightBack) (by omega)
  exact ⟨l, left', r, right', l', leftBack', r', rightBack', front, back, rfl⟩

theorem gives_mergeInward {state : Inward α} {taken count : Nat}
    (h : state.Fits rank left right taken) (hcount : taken + count ≤ left.length)
    (hlength : left.length ≤ right.length) (hamong : ∀ x ∈ left ++ right, among x)
    (hleft : left.Pairwise (rank · ≤ rank ·)) (hright : right.Pairwise (rank · ≤ rank ·)) :
    (mergeInward count state).Gives rank among
      (Inward.Fits rank left right (taken + count)) := by
  induction count generalizing state taken with
  | zero =>
    rw [mergeInward]
    · exact h
    · simp
  | succ count ih =>
    obtain ⟨l, left', r, right', l', leftBack', r', rightBack', front, back, rfl⟩ :=
      h.exists_cons (by omega) hlength
    obtain ⟨⟨left₁, right₁, hfront, -⟩, ⟨left₂, right₂, hback, -⟩, -, -⟩ := id h
    have hl : among l := hamong l (by simp [hfront.left_eq])
    have hr : among r := hamong r (by simp [hfront.right_eq])
    have hl' : among l' := hamong l' (by simp [hback.left_eq])
    have hr' : among r' := hamong r' (by simp [hback.right_eq])
    have hnext := ih (h.step hleft hright) (by omega)
    rw [Nat.add_assoc, Nat.add_comm 1] at hnext
    rw [mergeInward, Plan.gives_bind, Plan.gives_less]
    refine ⟨hr, hl, ?_⟩
    rw [Plan.gives_bind, Plan.gives_less]
    refine ⟨hr', hl', ?_⟩
    simpa only [decide_eq_true_eq] using hnext

/-- Of two cuts, the one with fewer elements in front of it lies before the other. -/
theorem Cut.meets {left₁' left₂' right₁' right₂' : List α}
    (h : Cut rank left right left₁ left₂ right₁ right₂)
    (h' : Cut rank left right left₁' left₂' right₁' right₂')
    (hlength : left₁.length + right₁.length ≤ left₁'.length + right₁'.length) :
    ∃ middle middle', (left₁' = left₁ ++ middle ∧ left₂ = middle ++ left₂') ∧
      (right₁' = right₁ ++ middle' ∧ right₂ = middle' ++ right₂') := by
  have hleft := List.append_eq_append_iff.mp (h.left_eq.symm.trans h'.left_eq)
  have hright := List.append_eq_append_iff.mp (h.right_eq.symm.trans h'.right_eq)
  rcases hleft with ⟨middle, hleft⟩ | ⟨overlap, rfl, rfl⟩ <;>
    rcases hright with ⟨middle', hright⟩ | ⟨overlap', rfl, rfl⟩
  · exact ⟨middle, middle', hleft, hright⟩
  · -- The right runs overlap, so there is something in the middle of the left ones.
    obtain ⟨rfl, rfl⟩ := hleft
    cases overlap' with
    | nil => exact ⟨middle, [], ⟨rfl, rfl⟩, by simp⟩
    | cons y overlap' =>
      simp only [List.length_append, List.length_cons] at hlength
      obtain ⟨x, rest, rfl⟩ := List.exists_cons_of_length_pos (l := middle) (by omega)
      have hlt := h.right_lt y (by simp) x (by simp)
      have hle := h'.left_le x (by simp) y (by simp)
      exact absurd hlt (not_lt.mpr hle)
  · obtain ⟨rfl, rfl⟩ := hright
    cases overlap with
    | nil => exact ⟨[], middle', by simp, ⟨rfl, rfl⟩⟩
    | cons x overlap =>
      simp only [List.length_append, List.length_cons] at hlength
      obtain ⟨y, rest, rfl⟩ := List.exists_cons_of_length_pos (l := middle') (by omega)
      have hle := h.left_le x (by simp) y (by simp)
      have hlt := h'.right_lt y (by simp) x (by simp)
      exact absurd hlt (not_lt.mpr hle)
  · simp only [List.length_append] at hlength
    have hnil : overlap = [] := List.eq_nil_of_length_eq_zero (by omega)
    have hnil' : overlap' = [] := List.eq_nil_of_length_eq_zero (by omega)
    exact ⟨[], [], by simp [hnil], by simp [hnil']⟩

theorem Inward.Fits.gives_finish {state : Inward α}
    (h : state.Fits rank left right left.length) (hlength : left.length ≤ right.length)
    (hlength' : right.length ≤ left.length + 1)
    (hleft : left.Pairwise (rank · ≤ rank ·)) (hright : right.Pairwise (rank · ≤ rank ·)) :
    (state.finish left.length right.length).Gives rank among
      (Arranges rank (left ++ right)) := by
  obtain ⟨left₀, right₀, leftBack, rightBack, front, back⟩ := state
  obtain ⟨⟨left₁, right₁, hfront, hout⟩, ⟨left₂, right₂, hback, hout'⟩, hlen, hlen'⟩ := h
  dsimp only at *
  have hout₁ := hout.length_eq
  have hout₂ := hout'.length_eq
  have hfront₁ := congrArg List.length hfront.left_eq
  have hfront₂ := congrArg List.length hfront.right_eq
  have hback₁ := congrArg List.length hback.left_eq
  have hback₂ := congrArg List.length hback.right_eq
  simp only [List.length_append, List.length_reverse] at hout₁ hout₂ hfront₁ hfront₂ hback₁ hback₂
  obtain ⟨middle, middle', ⟨hmiddle, rfl⟩, ⟨hmiddle', rfl⟩⟩ :=
    hfront.meets hback (by simp only [List.length_reverse]; omega)
  have hlen₁ := congrArg List.length hmiddle
  have hlen₂ := congrArg List.length hmiddle'
  simp only [List.length_append, List.length_reverse] at hlen₁ hlen₂ hfront₁ hfront₂
  have htake : (middle ++ left₂).take
      ((middle ++ left₂).length + leftBack.length - left.length) = middle :=
    List.take_left' (by simp only [List.length_append]; omega)
  have htake' : (middle' ++ right₂).take
      ((middle' ++ right₂).length + rightBack.length - right.length) = middle' :=
    List.take_left' (by simp only [List.length_append]; omega)
  -- What is between the cuts is at most one element.
  have hbetween : Arranges rank (middle ++ middle') (middle ++ middle') :=
    .of_short (by simp only [List.length_append]; omega)
  have hcut : Cut rank (middle ++ left₂) (middle' ++ right₂) middle left₂ middle' right₂ :=
    ⟨rfl, rfl, fun x hx y hy => hback.left_le x (by simp [hmiddle, hx]) y hy,
      fun y hy x hx => hback.right_lt y (by simp [hmiddle', hy]) x hx⟩
  have hrest := hcut.arranges (hleft.sublist (by simp [hfront.left_eq]))
    (hright.sublist (by simp [hfront.right_eq])) hbetween hout'
  have hall := hfront.arranges hleft hright hout hrest
  rw [finish]
  dsimp only
  rw [htake, htake', List.append_assoc, if_pos, Plan.gives_pure]
  · exact hall
  · simpa only [List.length_append] using hall.length_eq

/-- Two runs of about the same length are merged from both ends. -/
theorem gives_mergeHalves {leftBack rightBack : List α}
    (hamong : ∀ x ∈ leftBack ++ rightBack, among x)
    (hlength : leftBack.length ≤ rightBack.length)
    (hlength' : rightBack.length ≤ leftBack.length + 1)
    (hleft : leftBack.reverse.Pairwise (rank · ≤ rank ·))
    (hright : rightBack.reverse.Pairwise (rank · ≤ rank ·)) :
    (mergeHalves leftBack rightBack).Gives rank among
      (Arranges rank (leftBack.reverse ++ rightBack.reverse)) := by
  rw [mergeHalves, Plan.gives_bind]
  refine (gives_mergeInward Inward.fits_start (by simp) (by simpa using hlength)
    (by simpa using hamong) hleft hright).mono fun state hstate => ?_
  rw [Nat.zero_add, ← List.length_reverse] at hstate
  have hfinish : Plan.Gives rank among _ _ := hstate.gives_finish (by simpa using hlength)
    (by simpa using hlength') hleft hright
  simpa only [List.length_reverse] using hfinish

end Halves

/-! ## Few elements -/

/-- A pair is ordered by one comparison, in whichever order it stood. -/
theorem exists_ordered_pair (rank : α → β) {v₀ v₁ : α} (h₀ : among v₀) (h₁ : among v₁) :
    ∃ a b, (if decide (rank v₁ < rank v₀) = true then (v₁, v₀) else (v₀, v₁)) = (a, b) ∧
      among a ∧ among b ∧ Arranges rank [v₀, v₁] [a, b] := by
  by_cases hless : rank v₁ < rank v₀
  · have hswapped : Arranges rank [v₀, v₁] [v₁, v₀] :=
      ⟨alike_reverse (by simpa using ne_of_gt hless), by simpa using le_of_lt hless⟩
    exact ⟨v₁, v₀, by simp [hless], h₁, h₀, hswapped⟩
  · exact ⟨v₀, v₁, by simp [hless], h₀, h₁, .of_ordered (by simpa using hless)⟩

theorem gives_sortFour {v₀ v₁ v₂ v₃ : α} (h₀ : among v₀) (h₁ : among v₁) (h₂ : among v₂)
    (h₃ : among v₃) :
    (sortFour v₀ v₁ v₂ v₃).Gives rank among (Arranges rank [v₀, v₁, v₂, v₃]) := by
  rw [sortFour, Plan.gives_bind, Plan.gives_less]
  refine ⟨h₁, h₀, ?_⟩
  rw [Plan.gives_bind, Plan.gives_less]
  refine ⟨h₃, h₂, ?_⟩
  obtain ⟨a, b, hfirst, ha, hb, hab⟩ := exists_ordered_pair rank h₀ h₁
  obtain ⟨c, d, hsecond, hc, hd, hcd⟩ := exists_ordered_pair rank h₂ h₃
  rw [hfirst, hsecond]
  have hle : rank a ≤ rank b := by simpa using hab.ordered
  have hle' : rank c ≤ rank d := by simpa using hcd.ordered
  have hab' : Arranges rank [a, b] [a, b] := .of_ordered hab.ordered
  have hcd' : Arranges rank [c, d] [c, d] := .of_ordered hcd.ordered
  have hall {out : List α} (hout : Arranges rank ([a, b] ++ [c, d]) out) :
      Arranges rank [v₀, v₁, v₂, v₃] out :=
    hout.of_alike (hab.alike.append hcd.alike)
  dsimp only
  rw [Plan.gives_bind, Plan.gives_less]
  refine ⟨hc, ha, ?_⟩
  rw [Plan.gives_bind, Plan.gives_less]
  refine ⟨hd, hb, ?_⟩
  by_cases hca : rank c < rank a <;> by_cases hdb : rank d < rank b <;>
    simp only [hca, hdb, decide_true, decide_false, Plan.gives_bind, Plan.gives_less]
  · -- The second pair has the least, the first one the greatest.
    refine ⟨hd, ha, ?_⟩
    split_ifs with hda
    · have hcut : Cut rank [a, b] [c, d] [] [a, b] [c, d] [] :=
        ⟨rfl, rfl, by simp, by grind⟩
      exact hall (hcut.arranges hab.ordered hcd.ordered hcd' hab')
    · have hcut : Cut rank [a, b] [c, d] [] [a, b] [c] [d] := ⟨rfl, rfl, by simp, by grind⟩
      have hcut' : Cut rank [a, b] [d] [a] [b] [d] [] := ⟨rfl, rfl, by simp, by grind⟩
      have hback := hcut'.arranges hab.ordered (by simp) (.of_ordered (by grind))
        (.of_short (by simp))
      exact hall (hcut.arranges hab.ordered hcd.ordered (.of_short (by simp)) hback)
  · -- The second pair has the least and the greatest.
    refine ⟨hb, ha, ?_⟩
    rw [if_neg (by simpa using hle)]
    have hcut : Cut rank [a, b] [c, d] [] [a, b] [c] [d] := ⟨rfl, rfl, by simp, by grind⟩
    exact hall (hcut.arranges hab.ordered hcd.ordered (.of_short (by simp))
      (.of_ordered (by grind)))
  · -- The first pair has the least and the greatest.
    refine ⟨hd, hc, ?_⟩
    rw [if_neg (by simpa using hle')]
    have hcut : Cut rank [a, b] [c, d] [a] [b] [c, d] [] := ⟨rfl, rfl, by simp, by grind⟩
    exact hall (hcut.arranges hab.ordered hcd.ordered (.of_ordered (by grind))
      (.of_short (by simp)))
  · -- The first pair has the least, the second one the greatest.
    refine ⟨hc, hb, ?_⟩
    split_ifs with hcb
    · have hcut : Cut rank [a, b] [c, d] [a] [b] [c] [d] := ⟨rfl, rfl, by grind, by grind⟩
      exact hall (hcut.arranges hab.ordered hcd.ordered (.of_ordered (by grind))
        (.of_ordered (by grind)))
    · exact hall (.of_ordered (by grind))

/-- A sorted start of a list is set apart. -/
theorem gives_sortStart {four : Bool} {items : List α} (hitems : ∀ x ∈ items, among x) :
    (sortStart four items).Gives rank among fun parts =>
      ∃ start, items = start ++ parts.2 ∧ Arranges rank start parts.1 := by
  unfold sortStart
  split
  · rename_i v₀ v₁ v₂ v₃ rest
    rw [Plan.gives_bind]
    refine (gives_sortFour (hitems v₀ (by simp)) (hitems v₁ (by simp)) (hitems v₂ (by simp))
      (hitems v₃ (by simp))).mono fun out hout => ?_
    exact ⟨[v₀, v₁, v₂, v₃], rfl, hout⟩
  · exact ⟨items.take 1, (List.take_append_drop 1 items).symm, .of_short (by simp)⟩

/-- The rest of a list is put into its sorted start. -/
theorem gives_insertAll_rest {items start rest sorted : List α} (hitems : ∀ x ∈ items, among x)
    (heq : items = start ++ rest) (hsorted : Arranges rank start sorted) :
    (insertAll rest sorted.reverse).Gives rank among fun out =>
      Arranges rank items out.reverse := by
  subst heq
  have hsorted' : ∀ y ∈ sorted.reverse, among y := by
    intro y hy
    exact hitems y (List.mem_append_left _ (hsorted.mem_iff.mp (List.mem_reverse.mp hy)))
  refine (gives_insertAll (fun x hx => hitems x (List.mem_append_right _ hx)) hsorted'
    (by simpa using hsorted.ordered)).mono fun out hout => ?_
  rw [List.reverse_reverse] at hout
  exact hout.of_alike (hsorted.alike.append (.refl rest))

theorem gives_sortFew {items : List α} (hitems : ∀ x ∈ items, among x) :
    (sortFew items).Gives rank among (Arranges rank items) := by
  unfold sortFew
  split_ifs with hshort
  · exact .of_short (by omega)
  · have htake : ∀ x ∈ items.take (items.length / 2), among x :=
      fun x hx => hitems x (List.mem_of_mem_take hx)
    have hdrop : ∀ x ∈ items.drop (items.length / 2), among x :=
      fun x hx => hitems x (List.mem_of_mem_drop hx)
    dsimp only
    rw [Plan.gives_bind]
    refine (gives_sortStart htake).mono ?_
    rintro ⟨left, leftRest⟩ ⟨leftStart, hleftEq, hleft⟩
    rw [Plan.gives_bind]
    refine (gives_sortStart hdrop).mono ?_
    rintro ⟨right, rightRest⟩ ⟨rightStart, hrightEq, hright⟩
    rw [Plan.gives_bind]
    refine (gives_insertAll_rest htake hleftEq hleft).mono fun leftBack hleftBack => ?_
    rw [Plan.gives_bind]
    refine (gives_insertAll_rest hdrop hrightEq hright).mono fun rightBack hrightBack => ?_
    have hlength : leftBack.length = items.length / 2 := by
      have := hleftBack.length_eq
      rw [List.length_reverse, List.length_take] at this
      omega
    have hlength' : rightBack.length = items.length - items.length / 2 := by
      have := hrightBack.length_eq
      rwa [List.length_reverse, List.length_drop] at this
    have hamong : ∀ x ∈ leftBack ++ rightBack, among x := by
      intro x hx
      rcases List.mem_append.mp hx with hx | hx
      · exact htake x (hleftBack.mem_iff.mp (List.mem_reverse.mpr hx))
      · exact hdrop x (hrightBack.mem_iff.mp (List.mem_reverse.mpr hx))
    refine (gives_mergeHalves hamong (by omega) (by omega) hleftBack.ordered
      hrightBack.ordered).mono fun out hout => ?_
    have halike := hleftBack.alike.append hrightBack.alike
    rw [List.take_append_drop] at halike
    exact hout.of_alike halike

end DynamicObjects.Sorting
