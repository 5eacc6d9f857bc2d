import DynamicObjects.Proofs.Sorting.Small
import DynamicObjects.Sorting.Runs
import Mathlib.Data.List.Chain

/-!
# A list is sorted by its runs

A run stands for a stretch of the list: sorted, it arranges the stretch; waiting, it is the
stretch (`Run.StandsFor`). A stack of runs stands for the stretches one behind the other
(`StacksUpTo`). Joining neighbours keeps that, at whatever depths the joins are made, so
after the last one a single run is left that stands for the whole list.

* `gives_sortByRuns`: the list is sorted, if those that wait are sorted later.
-/

namespace DynamicObjects.Sorting

variable {α β : Type} [LinearOrder β] {rank : α → β} {among : α → Prop}

/-! ## Finding runs -/

/-- The elements counted go on in one direction: each answers the same when it is compared
with the one before it. -/
theorem gives_countOn {descends : Bool} {count : Nat} {last : α} {items : List α}
    (hlast : among last) (hitems : ∀ x ∈ items, among x) :
    (countOn descends count last items).Gives rank among fun total =>
      ∃ more ≤ items.length, total = count + more ∧
        (last :: items.take more).IsChain fun x y => decide (rank y < rank x) = descends := by
  induction items generalizing count last with
  | nil => exact ⟨0, le_rfl, rfl, List.isChain_singleton _⟩
  | cons x rest ih =>
    have hx := hitems x (by simp)
    rw [countOn, Plan.gives_bind, Plan.gives_less]
    refine ⟨hx, hlast, ?_⟩
    split_ifs with hgoes
    · refine (ih hx fun y hy => hitems y (by simp [hy])).mono ?_
      rintro total ⟨more, hmore, rfl, hchain⟩
      refine ⟨more + 1, by simpa using hmore, by omega, ?_⟩
      rw [List.take_succ_cons]
      exact List.isChain_cons_cons.mpr ⟨by simpa using hgoes, hchain⟩
    · exact ⟨0, by omega, rfl, List.isChain_singleton _⟩

/-- A run that strictly descends is turned round. -/
theorem arranges_reverse {items : List α} (h : items.Pairwise fun x y => rank y < rank x) :
    Arranges rank items items.reverse :=
  ⟨alike_reverse (h.imp ne_of_gt), List.pairwise_reverse.mpr (h.imp le_of_lt)⟩

/-- The elements found are in order, or strictly against it. -/
theorem gives_existingRun {first : α} {rest : List α} (hfirst : among first)
    (hrest : ∀ x ∈ rest, among x) :
    (existingRun first rest).Gives rank among fun (count, descends) =>
      count ≤ rest.length ∧
        Arranges rank (first :: rest.take count)
          (if descends then (first :: rest.take count).reverse else first :: rest.take count) := by
  cases rest with
  | nil => exact ⟨le_rfl, .of_short (by simp)⟩
  | cons x rest =>
    have hx := hrest x (by simp)
    rw [existingRun, Plan.gives_bind, Plan.gives_less]
    refine ⟨hx, hfirst, ?_⟩
    rw [Plan.gives_bind]
    refine (gives_countOn hx fun y hy => hrest y (by simp [hy])).mono ?_
    rintro count ⟨more, hmore, rfl, hchain⟩
    refine ⟨by simpa [Nat.add_comm 1] using hmore, ?_⟩
    rw [Nat.add_comm 1, List.take_succ_cons]
    have hchain' : (first :: x :: rest.take more).IsChain fun a b =>
        decide (rank b < rank a) = decide (rank x < rank first) :=
      List.isChain_cons_cons.mpr ⟨rfl, hchain⟩
    by_cases hless : rank x < rank first
    · simp only [hless, decide_true, decide_eq_true_eq] at hchain' ⊢
      exact arranges_reverse hchain'.pairwise
    · simp only [hless, decide_false, decide_eq_false_iff_not, not_lt] at hchain' ⊢
      exact .of_ordered hchain'.pairwise

/-! ## Stretches -/

/-- What is given as the later sort is a sort. -/
def SortsLater (rank : α → β) (among : α → Prop)
    (later : Option (List α → Plan α (List α))) : Prop :=
  ∀ sort, later = some sort → ∀ items : List α, (∀ x ∈ items, among x) →
    (sort items).Gives rank among (Arranges rank items)

variable {later : Option (List α → Plan α (List α))}

/-- A run stands for a stretch of the list. Runs wait only when there is a later sort. -/
def Run.StandsFor (rank : α → β) (later : Option (List α → Plan α (List α)))
    (stretch : List α) : Run α → Prop
  | sorted items => Arranges rank stretch items
  | waiting items => items = stretch ∧ later.isSome

theorem Run.StandsFor.length_eq {run : Run α} {stretch : List α}
    (h : run.StandsFor rank later stretch) : run.items.length = stretch.length := by
  cases run with
  | sorted items => exact Arranges.length_eq h
  | waiting items => exact congrArg List.length h.1

/-- Runs, given from the last to the first, stand for what lies in front. -/
def StacksUpTo (rank : α → β) (later : Option (List α → Plan α (List α))) :
    List (Run α × Nat) → List α → Prop
  | [], front => front = []
  | (run, _) :: before, front => ∃ further stretch, front = further ++ stretch ∧
      StacksUpTo rank later before further ∧ run.StandsFor rank later stretch

/-! ## Joining -/

theorem gives_settle {run : Run α} {stretch : List α} (hlater : SortsLater rank among later)
    (hstretch : ∀ x ∈ stretch, among x) (hrun : run.StandsFor rank later stretch) :
    (run.settle later).Gives rank among (Arranges rank stretch) := by
  cases run with
  | sorted items => exact hrun
  | waiting items =>
    obtain ⟨rfl, hsome⟩ := hrun
    obtain ⟨sort, rfl⟩ := Option.isSome_iff_exists.mp hsome
    exact hlater sort rfl items hstretch

/-- Runs that do not both wait are joined in order. -/
theorem gives_merged {left right : Run α} {stretch stretch' : List α}
    (hlater : SortsLater rank among later) (hstretch : ∀ x ∈ stretch, among x)
    (hstretch' : ∀ x ∈ stretch', among x) (hleft : left.StandsFor rank later stretch)
    (hright : right.StandsFor rank later stretch') :
    (do
      let left ← left.settle later
      let right ← right.settle later
      return Run.sorted (← mergeAlong left right) : Plan α (Run α)).Gives rank among
        (Run.StandsFor rank later (stretch ++ stretch')) := by
  simp only [Plan.gives_bind]
  refine (gives_settle hlater hstretch hleft).mono fun out hout => ?_
  refine (gives_settle hlater hstretch' hright).mono fun out' hout' => ?_
  refine (gives_mergeAlong (fun x hx => hstretch x (hout.mem_iff.mp hx))
    (fun x hx => hstretch' x (hout'.mem_iff.mp hx)) hout.ordered hout'.ordered).mono ?_
  intro merged hmerged
  exact hmerged.of_alike (hout.alike.append hout'.alike)

theorem gives_join {left right : Run α} {stretch stretch' : List α}
    (hlater : SortsLater rank among later) (hstretch : ∀ x ∈ stretch, among x)
    (hstretch' : ∀ x ∈ stretch', among x) (hleft : left.StandsFor rank later stretch)
    (hright : right.StandsFor rank later stretch') :
    (left.join later right).Gives rank among
      (Run.StandsFor rank later (stretch ++ stretch')) := by
  unfold Run.join
  split
  · obtain ⟨rfl, hsome⟩ := hleft
    obtain ⟨rfl, -⟩ := hright
    exact ⟨rfl, hsome⟩
  · exact gives_merged hlater hstretch hstretch' hleft hright

/-- Joining moves the border between the runs before the last one and the last one. At depth
zero no run is left before it. -/
theorem gives_joinDeeper {depth : Nat} {before : List (Run α × Nat)} {last : Run α}
    {front stretch : List α} (hlater : SortsLater rank among later)
    (hamong : ∀ x ∈ front ++ stretch, among x) (hbefore : StacksUpTo rank later before front)
    (hlast : last.StandsFor rank later stretch) :
    (joinDeeper later depth before last).Gives rank among fun (before', last') =>
      (∃ front' stretch', front' ++ stretch' = front ++ stretch ∧
        StacksUpTo rank later before' front' ∧ last'.StandsFor rank later stretch') ∧
      (depth = 0 → before' = []) := by
  induction before generalizing last front stretch with
  | nil => exact ⟨⟨front, stretch, rfl, hbefore, hlast⟩, fun _ => rfl⟩
  | cons entry before ih =>
    obtain ⟨run, d⟩ := entry
    rw [joinDeeper]
    split_ifs with hdeep
    · obtain ⟨further, stretch', rfl, hfurther, hrun⟩ := hbefore
      rw [Plan.gives_bind]
      refine (gives_join hlater (fun x hx => hamong x (by simp [hx]))
        (fun x hx => hamong x (by simp [hx])) hrun hlast).mono fun joined hjoined => ?_
      rw [List.append_assoc] at hamong ⊢
      exact ih hamong hfurther hjoined
    · exact ⟨⟨front, stretch, rfl, hbefore, hlast⟩, fun hzero => absurd (Nat.zero_le d)
        (hzero ▸ hdeep)⟩

/-! ## The sort -/

/-- Something of the list is made a run. -/
def RunStarts (rank : α → β) (later : Option (List α → Plan α (List α))) (items : List α)
    (run : Run α) : Prop :=
  ∃ stretch rest, items = stretch ++ rest ∧ stretch ≠ [] ∧ run.StandsFor rank later stretch

theorem gives_shortRun {good : Nat} {items : List α} (hitems : ∀ x ∈ items, among x)
    (hnonempty : items ≠ []) (hgood : 0 < good) :
    (shortRun later good items).Gives rank among (RunStarts rank later items) := by
  unfold shortRun
  cases later with
  | none =>
    have htake : items.take fewElements ≠ [] := by
      rw [ne_eq, List.take_eq_nil_iff]
      exact not_or_intro (by decide) hnonempty
    simp only [Plan.gives_bind]
    refine (gives_sortFew fun x hx => hitems x (List.mem_of_mem_take hx)).mono fun out hout => ?_
    exact ⟨_, _, (List.take_append_drop fewElements items).symm, htake, hout⟩
  | some sort =>
    have htake : items.take good ≠ [] := by
      rw [ne_eq, List.take_eq_nil_iff]
      exact not_or_intro hgood.ne' hnonempty
    exact ⟨_, _, (List.take_append_drop good items).symm, htake, rfl, rfl⟩

theorem gives_firstRun {good : Nat} {first : α} {rest : List α}
    (hitems : ∀ x ∈ first :: rest, among x) :
    (firstRun later good first rest).Gives rank among
      (RunStarts rank later (first :: rest)) := by
  unfold firstRun
  split_ifs with hshort
  · exact gives_shortRun hitems (by simp) (by omega)
  · rw [Plan.gives_bind]
    refine (gives_existingRun (hitems first (by simp))
      fun x hx => hitems x (by simp [hx])).mono ?_
    rintro ⟨count, descends⟩ ⟨-, hrun⟩
    dsimp only at hrun ⊢
    by_cases hshort' : count + 1 < good
    · rw [if_pos hshort']
      exact gives_shortRun hitems (by simp) (by omega)
    · rw [if_neg hshort']
      exact ⟨first :: rest.take count, rest.drop count, by simp, by simp, hrun⟩

/-- What is behind the first run of a list. -/
theorem RunStarts.exists_drop {first : α} {rest : List α} {run : Run α}
    (h : RunStarts rank later (first :: rest) run) :
    ∃ stretch, first :: rest = stretch ++ rest.drop (run.items.length - 1) ∧
      run.StandsFor rank later stretch := by
  obtain ⟨stretch, behind, heq, hnonempty, hrun⟩ := h
  refine ⟨stretch, ?_, hrun⟩
  obtain ⟨x, stretch, rfl⟩ := List.exists_cons_of_ne_nil hnonempty
  obtain ⟨rfl, rfl⟩ := List.cons.inj heq
  rw [hrun.length_eq]
  simp

theorem gives_joinRuns {total start : Nat} {before : List (Run α × Nat)} {last : Run α}
    {front stretch items : List α} (hlater : SortsLater rank among later)
    (hamong : ∀ x ∈ front ++ stretch ++ items, among x)
    (hbefore : StacksUpTo rank later before front)
    (hlast : last.StandsFor rank later stretch) :
    (joinRuns later total before last start items).Gives rank among
      (Arranges rank (front ++ stretch ++ items)) := by
  fun_induction joinRuns later total before last start items generalizing front stretch with
  | case1 before last start =>
    rw [List.append_nil] at hamong ⊢
    rw [Plan.gives_bind]
    refine (gives_joinDeeper hlater hamong hbefore hlast).mono ?_
    rintro ⟨before', last'⟩ ⟨⟨front', stretch', heq, hbefore', hlast'⟩, hall⟩
    obtain rfl := hall rfl
    obtain rfl : front' = [] := hbefore'
    rw [← heq] at hamong ⊢
    exact gives_settle hlater hamong hlast'
  | case2 before last start first rest ih =>
    rw [Plan.gives_bind]
    refine (gives_firstRun fun x hx => hamong x (List.mem_append_right _ hx)).mono
      fun next hnext => ?_
    obtain ⟨following, heq, hfollowing⟩ := hnext.exists_drop
    dsimp only
    rw [Plan.gives_bind]
    refine (gives_joinDeeper hlater (fun x hx => hamong x (List.mem_append_left _ hx)) hbefore
      hlast).mono ?_
    rintro ⟨before', joined⟩ ⟨⟨front', stretch', heq', hbefore', hjoined⟩, -⟩
    rw [← heq', heq, ← List.append_assoc] at hamong ⊢
    exact ih next before' joined hamong ⟨front', stretch', rfl, hbefore', hjoined⟩ hfollowing

/-- **Sorting by runs sorts**, if what waits is sorted later. -/
theorem gives_sortByRuns {items : List α} (hlater : SortsLater rank among later)
    (hitems : ∀ x ∈ items, among x) :
    (sortByRuns later items).Gives rank among (Arranges rank items) := by
  cases items with
  | nil => exact .of_short (by simp)
  | cons first rest =>
    rw [sortByRuns, Plan.gives_bind]
    refine (gives_firstRun hitems).mono fun run hrun => ?_
    obtain ⟨stretch, heq, hstands⟩ := hrun.exists_drop
    have hstack : StacksUpTo rank later [] [] := rfl
    rw [heq] at hitems ⊢
    exact gives_joinRuns hlater hitems hstack hstands

end DynamicObjects.Sorting
