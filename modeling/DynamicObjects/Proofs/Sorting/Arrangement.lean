import Mathlib.Data.List.Basic
import Mathlib.Order.Lattice

/-!
# Stable arrangements

Elements have ranks, and elements of one rank tie. Two lists are alike when, for each rank,
they have the same elements of that rank in the same order. So a list that is alike and in
order is what a stable sort has to give, and there is only one (`Arranges.unique`).

Every way of merging two runs cuts both of them in two, sorts what is in front of the cuts
and what is behind them, and puts the one before the other. When this is right is said once
(`Cut`, `Cut.arranges`).
-/

namespace DynamicObjects.Sorting

variable {α β : Type} [LinearOrder β] {rank : α → β}

/-! ## Lists with the same ties -/

/-- For each rank, the elements of that rank are the same, in the same order. -/
def Alike (rank : α → β) (xs ys : List α) : Prop :=
  ∀ r, xs.filter (rank · = r) = ys.filter (rank · = r)

namespace Alike

variable {xs ys zs xs' ys' : List α}

theorem refl (xs : List α) : Alike rank xs xs := fun _ => rfl

theorem symm (h : Alike rank xs ys) : Alike rank ys xs := fun r => (h r).symm

theorem trans (h : Alike rank xs ys) (h' : Alike rank ys zs) : Alike rank xs zs :=
  fun r => (h r).trans (h' r)

theorem append (h : Alike rank xs ys) (h' : Alike rank xs' ys') :
    Alike rank (xs ++ xs') (ys ++ ys') := by
  intro r
  rw [List.filter_append, List.filter_append, h r, h' r]

theorem perm (h : Alike rank xs ys) : xs.Perm ys := by
  classical
  rw [List.perm_iff_count]
  intro x
  have hcount (zs : List α) : (zs.filter (rank · = rank x)).count x = zs.count x :=
    List.count_filter (decide_eq_true rfl)
  rw [← hcount xs, ← hcount ys, h (rank x)]

end Alike

/-- Lists without a tie between them can change places. -/
theorem alike_append_comm {xs ys : List α} (h : ∀ x ∈ xs, ∀ y ∈ ys, rank x ≠ rank y) :
    Alike rank (xs ++ ys) (ys ++ xs) := by
  intro r
  rw [List.filter_append, List.filter_append]
  by_cases hr : ∃ x ∈ xs, rank x = r
  · obtain ⟨x, hx, rfl⟩ := hr
    have hys : ys.filter (rank · = rank x) = [] := by
      rw [List.filter_eq_nil_iff]
      intro y hy
      simpa using (h x hx y hy).symm
    rw [hys, List.append_nil, List.nil_append]
  · have hxs : xs.filter (rank · = r) = [] := by
      rw [List.filter_eq_nil_iff]
      intro x hx
      simpa using fun hxr => hr ⟨x, hx, hxr⟩
    rw [hxs, List.append_nil, List.nil_append]

theorem alike_reverse {xs : List α} (h : xs.Pairwise (rank · ≠ rank ·)) :
    Alike rank xs xs.reverse := by
  induction xs with
  | nil => exact .refl _
  | cons x xs ih =>
    rw [List.pairwise_cons] at h
    have hmoved : Alike rank ([x] ++ xs) (xs ++ [x]) := by
      apply alike_append_comm
      intro x' hx' y hy
      rw [List.mem_singleton.mp hx']
      exact h.1 y hy
    rw [List.reverse_cons]
    exact hmoved.trans ((ih h.2).append (.refl _))

/-- Among the elements of one rank, a question about ranks is answered the same for all. -/
theorem filter_filter_rank (q : β → Bool) (xs : List α) (r : β) :
    (xs.filter (fun x => q (rank x))).filter (rank · = r) =
      if q r then xs.filter (rank · = r) else [] := by
  rw [List.filter_filter]
  split
  · rename_i hq
    apply List.filter_congr
    intro x _
    by_cases hr : rank x = r <;> simp [hr, hq]
  · rename_i hq
    rw [List.filter_eq_nil_iff]
    intro x _
    by_cases hr : rank x = r <;> simp [hr, hq]

/-- Elements can be divided by a question about their ranks. -/
theorem alike_divide (q : β → Bool) (xs : List α) :
    Alike rank xs (xs.filter (fun x => q (rank x)) ++ xs.filter (fun x => !q (rank x))) := by
  intro r
  rw [List.filter_append, filter_filter_rank q, filter_filter_rank (fun r => !q r)]
  cases q r with
  | true => exact (List.append_nil _).symm
  | false => rfl

/-! ## Arrangements -/

/-- A list is what a stable sort of the elements gives. -/
structure Arranges (rank : α → β) (items out : List α) : Prop where
  alike : Alike rank items out
  ordered : out.Pairwise (rank · ≤ rank ·)

namespace Arranges

variable {items items' out out' : List α}

theorem of_ordered (h : items.Pairwise (rank · ≤ rank ·)) : Arranges rank items items :=
  ⟨.refl _, h⟩

theorem of_short (h : items.length ≤ 1) : Arranges rank items items := by
  apply of_ordered
  match items, h with
  | [], _ => exact .nil
  | [x], _ => exact List.pairwise_singleton _ x

theorem of_alike (h : Arranges rank items out) (halike : Alike rank items' items) :
    Arranges rank items' out :=
  ⟨halike.trans h.alike, h.ordered⟩

theorem mem_iff (h : Arranges rank items out) {x : α} : x ∈ out ↔ x ∈ items :=
  h.alike.perm.mem_iff.symm

theorem length_eq (h : Arranges rank items out) : out.length = items.length :=
  h.alike.perm.length_eq.symm

/-- Two lists arranged one before the other. -/
theorem append (h : Arranges rank items out) (h' : Arranges rank items' out')
    (hle : ∀ x ∈ items, ∀ y ∈ items', rank x ≤ rank y) :
    Arranges rank (items ++ items') (out ++ out') := by
  refine ⟨h.alike.append h'.alike, List.pairwise_append.mpr ⟨h.ordered, h'.ordered, ?_⟩⟩
  intro x hx y hy
  exact hle x (h.mem_iff.mp hx) y (h'.mem_iff.mp hy)

/-- What is arranged with something attached to the elements is arranged without it. -/
theorem map {α' : Type} {rank' : α' → β} (f : α → α') (hrank : ∀ x, rank' (f x) = rank x)
    (h : Arranges rank items out) : Arranges rank' (items.map f) (out.map f) := by
  have hfilter (r : β) (xs : List α) :
      (xs.map f).filter (rank' · = r) = (xs.filter (rank · = r)).map f := by
    rw [List.filter_map]
    simp only [Function.comp_def, hrank]
  refine ⟨fun r => by rw [hfilter, hfilter, h.alike r], List.pairwise_map.mpr ?_⟩
  simpa only [hrank] using h.ordered

end Arranges

theorem Alike.eq_of_ordered {xs ys : List α} (h : Alike rank xs ys)
    (hxs : xs.Pairwise (rank · ≤ rank ·)) (hys : ys.Pairwise (rank · ≤ rank ·)) : xs = ys := by
  induction xs generalizing ys with
  | nil => exact (List.nil_perm.mp h.perm).symm
  | cons x xs ih =>
    cases ys with
    | nil => exact absurd (List.perm_nil.mp h.perm) (List.cons_ne_nil x xs)
    | cons y ys =>
      rw [List.pairwise_cons] at hxs hys
      have hxy : rank x ≤ rank y := by
        rcases List.mem_cons.mp (h.perm.mem_iff.mpr List.mem_cons_self) with heq | hy
        · exact le_of_eq (congrArg rank heq).symm
        · exact hxs.1 y hy
      have hyx : rank y ≤ rank x := by
        rcases List.mem_cons.mp (h.perm.mem_iff.mp List.mem_cons_self) with heq | hx
        · exact le_of_eq (congrArg rank heq).symm
        · exact hys.1 x hx
      have htie : rank y = rank x := le_antisymm hyx hxy
      -- The two heads tie, so they are the first elements of their rank.
      have heads := h (rank x)
      rw [List.filter_cons_of_pos (by simp), List.filter_cons_of_pos (by simpa using htie)]
        at heads
      obtain ⟨rfl, -⟩ := List.cons.inj heads
      have htails : Alike rank xs ys := by
        intro r
        have hr := h r
        by_cases hx : rank x = r
        · rw [List.filter_cons_of_pos (by simpa using hx),
            List.filter_cons_of_pos (by simpa using hx)] at hr
          exact List.cons.inj hr |>.2
        · rwa [List.filter_cons_of_neg (by simpa using hx),
            List.filter_cons_of_neg (by simpa using hx)] at hr
      rw [ih htails hxs.2 hys.2]

/-- **There is only one stable arrangement.** -/
theorem Arranges.unique {items out out' : List α} (h : Arranges rank items out)
    (h' : Arranges rank items out') : out = out' :=
  (h.alike.symm.trans h'.alike).eq_of_ordered h.ordered h'.ordered

/-! ## Cuts through two runs -/

/-- Two runs are cut so that what is in front of the cuts goes before what is behind them:
of elements that tie, the one of the left run goes first. -/
structure Cut (rank : α → β) (left right left₁ left₂ right₁ right₂ : List α) : Prop where
  left_eq : left = left₁ ++ left₂
  right_eq : right = right₁ ++ right₂
  left_le : ∀ x ∈ left₁, ∀ y ∈ right₂, rank x ≤ rank y
  right_lt : ∀ y ∈ right₁, ∀ x ∈ left₂, rank y < rank x

/-- What is in front of the cuts and what is behind them are arranged separately. -/
theorem Cut.arranges {left right left₁ left₂ right₁ right₂ front back : List α}
    (h : Cut rank left right left₁ left₂ right₁ right₂)
    (hleft : left.Pairwise (rank · ≤ rank ·)) (hright : right.Pairwise (rank · ≤ rank ·))
    (hfront : Arranges rank (left₁ ++ right₁) front)
    (hback : Arranges rank (left₂ ++ right₂) back) :
    Arranges rank (left ++ right) (front ++ back) := by
  obtain ⟨rfl, rfl, hle, hlt⟩ := h
  have hleft' := (List.pairwise_append.mp hleft).2.2
  have hright' := (List.pairwise_append.mp hright).2.2
  have hmoved : Alike rank (left₂ ++ right₁) (right₁ ++ left₂) :=
    alike_append_comm fun x hx y hy => ne_of_gt (hlt y hy x hx)
  have halike : Alike rank (left₁ ++ left₂ ++ (right₁ ++ right₂))
      (left₁ ++ right₁ ++ (left₂ ++ right₂)) := by
    have hsame : Alike rank left₁ left₁ := .refl left₁
    simpa only [List.append_assoc] using (hsame.append hmoved).append (.refl right₂)
  refine (hfront.append hback ?_).of_alike halike
  intro x hx y hy
  rcases List.mem_append.mp hx with hx | hx <;> rcases List.mem_append.mp hy with hy | hy
  · exact hleft' x hx y hy
  · exact hle x hx y hy
  · exact le_of_lt (hlt x hx y hy)
  · exact hright' x hx y hy

end DynamicObjects.Sorting
