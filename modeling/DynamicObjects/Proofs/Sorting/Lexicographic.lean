import DynamicObjects.Proofs.Sorting.Comparators

/-!
# One order after another

Elements can be sorted by one order first and then, stably, by a second one. Those that tie by the
second order stay as the first one has put them, so what comes out is in the second order, and in
the first where that one ties. This is how sorts make a dictionary: the order that counts least
goes first.

* `StableBy.unique`: a stable sort by a total preorder leaves no choice.
* `StableBy.thenBy`: one stable sort after another is one by both orders.
-/

namespace DynamicObjects.Sorting

variable {α : Type} {cmp cmp' : α → α → Ordering} {items mid out out' : List α}

theorem preordersOn_of_transCmp [Std.TransCmp cmp] (items : List α) : PreordersOn cmp items where
  swap _ _ _ _ := Std.OrientedCmp.eq_swap
  trans _ _ _ _ _ _ := Std.TransCmp.isLE_trans

theorem PreordersOn.of_perm (h : PreordersOn cmp items) (hperm : mid.Perm items) :
    PreordersOn cmp mid where
  swap x hx y hy := h.swap x (hperm.mem_iff.mp hx) y (hperm.mem_iff.mp hy)
  trans x hx y hy z hz :=
    h.trans x (hperm.mem_iff.mp hx) y (hperm.mem_iff.mp hy) z (hperm.mem_iff.mp hz)

theorem StableBy.mem_iff (h : StableBy cmp items out) {x : α} : x ∈ out ↔ x ∈ items :=
  h.perm.mem_iff

theorem StableBy.unique (hcmp : PreordersOn cmp items) (h : StableBy cmp items out)
    (h' : StableBy cmp items out') : out = out' :=
  (hcmp.arranges_iff.mpr h).unique (hcmp.arranges_iff.mpr h')

theorem stableBy_ties (items : List α) : StableBy (fun _ _ => .eq) items items where
  perm := .refl items
  ordered := List.pairwise_of_forall fun _ _ => rfl
  ties _ _ := rfl

/-! ## Two orders -/

/-- What ties by two orders ties by the second of them among those that tie by the first. -/
theorem filter_compareLex (cmp cmp' : α → α → Ordering) (x : α) (those : List α) :
    those.filter (compareLex cmp cmp' x · == .eq) =
      (those.filter (cmp x · == .eq)).filter (cmp' x · == .eq) := by
  rw [List.filter_filter]
  refine List.filter_congr fun y _ => ?_
  rw [compareLex]
  cases cmp x y <;> simp

/-- Elements that tie are as they were. -/
theorem StableBy.sublist_of_tie (hcmp : PreordersOn cmp items) (h : StableBy cmp items out)
    {x y : α} (hxy : [x, y].Sublist out) (htie : cmp x y = .eq) : [x, y].Sublist items := by
  have hx : x ∈ items := h.mem_iff.mp (hxy.subset List.mem_cons_self)
  have hboth : [x, y].filter (cmp x · == .eq) = [x, y] :=
    List.filter_eq_self.mpr (by simp [hcmp.self hx, htie])
  rw [← hboth]
  exact (hxy.filter _).trans (h.ties x hx ▸ List.filter_sublist)

/-- **One stable sort after another.** After a stable sort by an order, a stable sort by a second
one is a stable sort by both, the second one counting more. -/
theorem StableBy.thenBy (hcmp : PreordersOn cmp items) (h' : StableBy cmp' items mid)
    (h : StableBy cmp mid out) : StableBy (compareLex cmp cmp') items out where
  perm := h.perm.trans h'.perm
  ordered := by
    have hmid : PreordersOn cmp mid := hcmp.of_perm h'.perm
    rw [List.pairwise_iff_forall_sublist]
    intro x y hxy
    have hle : (cmp x y).isLE := List.pairwise_iff_forall_sublist.mp h.ordered hxy
    rw [compareLex]
    cases hfirst : cmp x y with
    | lt => rfl
    | eq => exact List.pairwise_iff_forall_sublist.mp h'.ordered (h.sublist_of_tie hmid hxy hfirst)
    | gt =>
      rw [hfirst] at hle
      cases hle
  ties x hx := by
    have hmid : x ∈ mid := h'.mem_iff.mpr hx
    calc out.filter (compareLex cmp cmp' x · == .eq)
        = (out.filter (cmp x · == .eq)).filter (cmp' x · == .eq) := filter_compareLex ..
      _ = (mid.filter (cmp x · == .eq)).filter (cmp' x · == .eq) := by rw [h.ties x hmid]
      _ = (mid.filter (cmp' x · == .eq)).filter (cmp x · == .eq) := List.filter_comm ..
      _ = (items.filter (cmp' x · == .eq)).filter (cmp x · == .eq) := by rw [h'.ties x hx]
      _ = (items.filter (cmp x · == .eq)).filter (cmp' x · == .eq) := List.filter_comm ..
      _ = items.filter (compareLex cmp cmp' x · == .eq) := (filter_compareLex ..).symm

end DynamicObjects.Sorting
