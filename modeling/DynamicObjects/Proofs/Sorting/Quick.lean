import DynamicObjects.Proofs.Sorting.Runs
import DynamicObjects.Sorting.Quick

/-!
# Sorting by pivots, and the whole sort

Dividing a list by a question about ranks keeps ties together and in order
(`alike_divide`). When nothing is less than the pivot, those that tie with it are divided
off; that this is right when it is read off the pivot the list lies behind is what the sort
has to carry along (`LiesBehind`).

* `gives_stableSort`: whatever way its length makes it take, the sort gives the stable
  arrangement.
-/

namespace DynamicObjects.Sorting

variable {α β : Type} [LinearOrder β] {rank : α → β} {among : α → Prop}

/-! ## Pivots -/

theorem gives_lessAt {items : Array α} {i j : Nat} (hitems : ∀ x ∈ items, among x) :
    (lessAt items i j).Gives rank among fun _ => True := by
  unfold lessAt
  split
  · rename_i x y hx hy
    exact ⟨hitems x (Array.mem_of_getElem? hx), hitems y (Array.mem_of_getElem? hy), trivial⟩
  · trivial

theorem gives_medianOfThree {items : Array α} {a b c : Nat} (hitems : ∀ x ∈ items, among x) :
    (medianOfThree items a b c).Gives rank among fun place =>
      place = a ∨ place = b ∨ place = c := by
  unfold medianOfThree
  rw [Plan.gives_bind]
  refine (gives_lessAt hitems).mono fun first _ => ?_
  rw [Plan.gives_bind]
  refine (gives_lessAt hitems).mono fun second _ => ?_
  split_ifs
  · rw [Plan.gives_bind]
    refine (gives_lessAt hitems).mono fun third _ => ?_
    split_ifs
    · exact .inr (.inl rfl)
    · exact .inr (.inr rfl)
  · exact .inl rfl

/-- The place found lies in one of the stretches looked at. -/
theorem gives_medianOfStretches {items : Array α} {length a b c : Nat}
    (hitems : ∀ x ∈ items, among x) (hlength : 0 < length) (ha : a + length ≤ items.size)
    (hb : b + length ≤ items.size) (hc : c + length ≤ items.size) :
    (medianOfStretches items length a b c).Gives rank among (· < items.size) := by
  fun_induction medianOfStretches items length a b c with
  | case1 length a b c hlong eighth ihA ihB ihC =>
    simp only [Plan.gives_bind]
    refine (ihA (by omega) (by omega) (by omega) (by omega)).mono fun a' ha' => ?_
    refine (ihB (by omega) (by omega) (by omega) (by omega)).mono fun b' hb' => ?_
    refine (ihC (by omega) (by omega) (by omega) (by omega)).mono fun c' hc' => ?_
    refine (gives_medianOfThree hitems).mono fun place hplace => ?_
    rcases hplace with rfl | rfl | rfl <;> assumption
  | case2 length a b c _ =>
    refine (gives_medianOfThree hitems).mono fun place hplace => ?_
    rcases hplace with rfl | rfl | rfl <;> omega

theorem gives_pivotPlace {items : List α} (hitems : ∀ x ∈ items, among x)
    (hlength : 8 ≤ items.length) :
    (pivotPlace items).Gives rank among (· < items.length) :=
  gives_medianOfStretches (by simpa using hitems) (by omega) (by rw [List.size_toArray]; omega)
    (by rw [List.size_toArray]; omega) (by rw [List.size_toArray]; omega)

/-! ## Divisions -/

theorem gives_divideOnto {passes : α → Plan α Bool} {q : β → Bool} {passed others items : List α}
    (hpasses : ∀ x ∈ items, (passes x).Gives rank among (· = q (rank x))) :
    (divideOnto passes passed others items).Gives rank among fun parts =>
      parts = (passed.reverse ++ items.filter (fun x => q (rank x)),
        others.reverse ++ items.filter (fun x => !q (rank x))) := by
  induction items generalizing passed others with
  | nil => simp [divideOnto]
  | cons x rest ih =>
    have hrest : ∀ y ∈ rest, (passes y).Gives rank among (· = q (rank y)) :=
      fun y hy => hpasses y (by simp [hy])
    rw [divideOnto, Plan.gives_bind]
    refine (hpasses x (by simp)).mono fun answer hanswer => ?_
    subst hanswer
    split_ifs with hx
    · refine (ih hrest).mono fun parts hparts => ?_
      rw [hparts]
      simp [hx]
    · refine (ih hrest).mono fun parts hparts => ?_
      rw [hparts]
      simp [hx]

theorem gives_divide {passes : α → Plan α Bool} {q : β → Bool} {items : List α}
    (hpasses : ∀ x ∈ items, (passes x).Gives rank among (· = q (rank x))) :
    (divide passes items).Gives rank among fun parts =>
      parts = (items.filter (fun x => q (rank x)), items.filter (fun x => !q (rank x))) :=
  gives_divideOnto hpasses

theorem gives_divideBelow {before behind : List α} {pivot : α}
    (hitems : ∀ x ∈ before ++ pivot :: behind, among x) :
    (divideBelow before pivot behind).Gives rank among fun parts =>
      parts = ((before ++ pivot :: behind).filter (fun x => decide (rank x < rank pivot)),
        (before ++ pivot :: behind).filter (fun x => !decide (rank x < rank pivot))) := by
  have hpasses (x : α) (hx : x ∈ before ++ pivot :: behind) :
      (Plan.less x pivot).Gives rank among (· = decide (rank x < rank pivot)) :=
    ⟨hitems x hx, hitems pivot (by simp), rfl⟩
  rw [divideBelow, Plan.gives_bind]
  refine (gives_divide (q := fun r => decide (r < rank pivot))
    fun x hx => hpasses x (by simp [hx])).mono ?_
  rintro _ rfl
  rw [Plan.gives_bind]
  refine (gives_divide (q := fun r => decide (r < rank pivot))
    fun x hx => hpasses x (by simp [hx])).mono ?_
  rintro _ rfl
  simp

/-- The elements lie behind a pivot, if there is one: none is less than it. -/
def LiesBehind (rank : α → β) (among : α → Prop) (behindPivot : Option α) (items : List α) :
    Prop :=
  ∀ earlier, behindPivot = some earlier → among earlier ∧ ∀ x ∈ items, rank earlier ≤ rank x

/-- The elements less than the pivot are divided off; when there are none, the pivot is one
of the least. -/
theorem gives_divideLess {behindPivot : Option α} {before behind : List α} {pivot : α}
    (hitems : ∀ x ∈ before ++ pivot :: behind, among x)
    (hbehind : LiesBehind rank among behindPivot (before ++ pivot :: behind)) :
    (divideLess behindPivot before pivot behind).Gives rank among fun parts =>
      (parts.1 = [] → ∀ x ∈ before ++ pivot :: behind, rank pivot ≤ rank x) ∧
      (parts.1 ≠ [] → parts =
        ((before ++ pivot :: behind).filter (fun x => decide (rank x < rank pivot)),
          (before ++ pivot :: behind).filter (fun x => !decide (rank x < rank pivot)))) := by
  have hrepeats : (repeatsPivot behindPivot pivot).Gives rank among fun repeats =>
      repeats = true → ∀ x ∈ before ++ pivot :: behind, rank pivot ≤ rank x := by
    cases behindPivot with
    | none => simp [repeatsPivot]
    | some earlier =>
      obtain ⟨hearlier, hle⟩ := hbehind earlier rfl
      refine ⟨hearlier, hitems pivot (by simp), fun hrepeats x hx => ?_⟩
      have hpivot : rank pivot ≤ rank earlier := by simpa using hrepeats
      exact hpivot.trans (hle x hx)
  rw [divideLess, Plan.gives_bind]
  refine hrepeats.mono fun repeats hleast => ?_
  split_ifs with hrepeats
  · exact ⟨fun _ => hleast hrepeats, fun h => absurd rfl h⟩
  · refine (gives_divideBelow hitems).mono ?_
    rintro _ rfl
    refine ⟨fun hempty x hx => ?_, fun _ => rfl⟩
    simpa using List.filter_eq_nil_iff.mp hempty x hx

theorem gives_divideUpTo {before behind : List α} {pivot : α}
    (hitems : ∀ x ∈ before ++ pivot :: behind, among x) :
    (divideUpTo before pivot behind).Gives rank among fun parts =>
      parts = ((before ++ pivot :: behind).filter (fun x => !decide (rank pivot < rank x)),
        (before ++ pivot :: behind).filter (fun x => !!decide (rank pivot < rank x))) := by
  have hpasses (x : α) (hx : x ∈ before ++ pivot :: behind) :
      (do return !(← Plan.less pivot x)).Gives rank among (· = !decide (rank pivot < rank x)) :=
    ⟨hitems pivot (by simp), hitems x hx, rfl⟩
  rw [divideUpTo]
  dsimp only
  rw [Plan.gives_bind]
  refine (gives_divide (q := fun r => !decide (rank pivot < r))
    fun x hx => hpasses x (by simp [hx])).mono ?_
  rintro _ rfl
  rw [Plan.gives_bind]
  refine (gives_divide (q := fun r => !decide (rank pivot < r))
    fun x hx => hpasses x (by simp [hx])).mono ?_
  rintro _ rfl
  simp

/-! ## The sorts -/

theorem arranges_divided {items low high : List α} {pivot : α}
    (hlow : Arranges rank (items.filter (fun x => decide (rank x < rank pivot))) low)
    (hhigh : Arranges rank (items.filter (fun x => !decide (rank x < rank pivot))) high) :
    Arranges rank items (low ++ high) := by
  refine (hlow.append hhigh ?_).of_alike (alike_divide (fun r => decide (r < rank pivot)) items)
  intro x hx y hy
  have hxp : rank x < rank pivot := by simpa using (List.mem_filter.mp hx).2
  have hyp : rank pivot ≤ rank y := by simpa using (List.mem_filter.mp hy).2
  exact hxp.le.trans hyp

/-- Elements that tie with the least one stand before the others as they are. -/
theorem arranges_least {items greater : List α} {pivot : α}
    (hleast : ∀ x ∈ items, rank pivot ≤ rank x)
    (hgreater : Arranges rank (items.filter (fun x => !!decide (rank pivot < rank x))) greater) :
    Arranges rank items (items.filter (fun x => !decide (rank pivot < rank x)) ++ greater) := by
  have htie : ∀ x ∈ items.filter (fun x => !decide (rank pivot < rank x)),
      rank x = rank pivot := by
    intro x hx
    obtain ⟨hx, hle⟩ := List.mem_filter.mp hx
    exact le_antisymm (by simpa using hle) (hleast x hx)
  have hequal : (items.filter (fun x => !decide (rank pivot < rank x))).Pairwise
      (rank · ≤ rank ·) :=
    List.pairwise_of_forall_mem_list fun x hx y hy => by rw [htie x hx, htie y hy]
  refine ((Arranges.of_ordered hequal).append hgreater ?_).of_alike
    (alike_divide (fun r => !decide (rank pivot < r)) items)
  intro x hx y hy
  rw [htie x hx]
  exact hleast y (List.mem_filter.mp hy).1

theorem gives_quickSort {divisions : Nat} {behindPivot : Option α} {items : List α}
    (hitems : ∀ x ∈ items, among x) (hbehind : LiesBehind rank among behindPivot items) :
    (quickSort divisions behindPivot items).Gives rank among (Arranges rank items) := by
  -- on the divisions that are left, for every pivot that the list may lie behind
  induction divisions generalizing behindPivot items with
  | zero =>
    unfold quickSort
    split_ifs
    · exact gives_sortFew hitems
    · exact gives_sortByRuns (fun _ h => absurd h (by simp)) hitems
  | succ divisions ih =>
    unfold quickSort
    split_ifs with hfew
    · exact gives_sortFew hitems
    dsimp only
    rw [Plan.gives_bind]
    refine (gives_pivotPlace hitems (by unfold fewElements at hfew; omega)).mono
      fun place hplace => ?_
    obtain ⟨pivot, behind, hdrop⟩ :=
      List.exists_cons_of_length_pos (l := items.drop place) (by rw [List.length_drop]; omega)
    have hsplit : items.take place ++ pivot :: behind = items := by
      rw [← hdrop, List.take_append_drop]
    have hpivot : among pivot := hitems pivot (hsplit ▸ by simp)
    have hfilter (p : α → Bool) : ∀ x ∈ items.filter p, among x :=
      fun x hx => hitems x (List.mem_filter.mp hx).1
    rw [hdrop]
    dsimp only
    rw [Plan.gives_bind]
    refine (gives_divideLess (by rwa [hsplit]) (by rwa [hsplit])).mono ?_
    rintro ⟨low, high⟩ ⟨hnoLess, hparts⟩
    rw [hsplit] at hnoLess hparts
    dsimp only at hnoLess hparts ⊢
    split_ifs with hempty
    · rw [List.isEmpty_iff] at hempty
      rw [Plan.gives_bind]
      refine (gives_divideUpTo (by rwa [hsplit])).mono ?_
      rintro _ rfl
      rw [hsplit]
      dsimp only
      rw [Plan.gives_bind]
      refine (ih (hfilter _) fun _ h => absurd h (by simp)).mono fun greater hgreater => ?_
      exact arranges_least (hnoLess hempty) hgreater
    · rw [List.isEmpty_iff] at hempty
      obtain ⟨rfl, rfl⟩ := Prod.mk.inj (hparts hempty)
      have hhigh : LiesBehind rank among (some pivot)
          (items.filter (fun x => !decide (rank x < rank pivot))) := by
        intro earlier hearlier
        obtain rfl := Option.some.inj hearlier
        exact ⟨hpivot, fun x hx => by simpa using (List.mem_filter.mp hx).2⟩
      have hlow : LiesBehind rank among behindPivot
          (items.filter (fun x => decide (rank x < rank pivot))) :=
        fun earlier hearlier => ⟨(hbehind earlier hearlier).1,
          fun x hx => (hbehind earlier hearlier).2 x (List.mem_filter.mp hx).1⟩
      rw [Plan.gives_bind]
      refine (ih (hfilter _) hhigh).mono fun high' hhigh' => ?_
      rw [Plan.gives_bind]
      refine (ih (hfilter _) hlow).mono fun low' hlow' => ?_
      exact arranges_divided hlow' hhigh'

theorem sortsLater_quickSortAll : SortsLater rank among (some quickSortAll) := by
  intro sort hsort items hitems
  obtain rfl := Option.some.inj hsort
  exact gives_quickSort hitems fun _ h => absurd h (by simp)

/-- **The sort gives the stable arrangement.** -/
theorem gives_stableSort {items : List α} (hitems : ∀ x ∈ items, among x) :
    (stableSort items).Gives rank among (Arranges rank items) := by
  unfold stableSort
  split_ifs
  · exact gives_insertionSort hitems
  · exact gives_sortByRuns (fun _ h => absurd h (by simp)) hitems
  · exact gives_sortByRuns sortsLater_quickSortAll hitems

end DynamicObjects.Sorting
