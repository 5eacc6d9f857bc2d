import DynamicObjects.Sorting.Quick

/-!
# What sorts ask about and give

A sort asks about elements of the list only, and gives a list of such elements, whatever the
answers are and even if they fit no order. This is said of elements with any property: a plan
`Handles` such elements when it asks about nothing else and what comes out is made of them.

* `Plan.Handles`: plans that ask about some elements only.
* `handles_mergeSort`, `handles_stableSort`: the sorts.
* `Plan.Settles`, `settles_mergeSort`: what comes to a result whatever the answers are.
-/

namespace DynamicObjects.Sorting

variable {α β γ : Type} {p : α → Prop}

/-- A plan asks about elements with a property only, and what comes out is as it should be. -/
def Plan.Handles (p : α → Prop) (q : β → Prop) : Plan α β → Prop
  | .done result => q result
  | .ask x y next => (p x ∧ p y) ∧ ∀ answer, (next answer).Handles p q
  | .contradiction => True

/-- Every element of a list has a property. -/
abbrev All (p : α → Prop) (items : List α) : Prop := ∀ x ∈ items, p x

namespace Plan

theorem handles_pure {q : β → Prop} {b : β} (h : q b) : (pure b : Plan α β).Handles p q := h

theorem handles_less {x y : α} (hx : p x) (hy : p y) : (less x y).Handles p fun _ => True :=
  ⟨⟨hx, hy⟩, fun _ => trivial⟩

theorem handles_bind {q : β → Prop} {r : γ → Prop} {plan : Plan α β} {f : β → Plan α γ}
    (h : plan.Handles p q) (hf : ∀ b, q b → (f b).Handles p r) : (plan >>= f).Handles p r := by
  change (plan.bind f).Handles p r
  induction plan with
  | done result => exact hf result h
  | ask x y next ih => exact ⟨h.1, fun answer => ih answer (h.2 answer)⟩
  | contradiction => trivial

theorem Handles.imp {q r : β → Prop} {plan : Plan α β} (h : plan.Handles p q)
    (hqr : ∀ b, q b → r b) : plan.Handles p r := by
  induction plan with
  | done result => exact hqr result h
  | ask x y next ih => exact ⟨h.1, fun answer => ih answer (h.2 answer)⟩
  | contradiction => trivial

/-- What is done with the answer to a question. -/
theorem handles_ask {q : β → Prop} {x y : α} {f : Bool → Plan α β} (hx : p x) (hy : p y)
    (hf : ∀ answer, (f answer).Handles p q) : (less x y >>= f).Handles p q :=
  handles_bind (handles_less hx hy) fun answer _ => hf answer

theorem handles_ite {q : β → Prop} {c : Prop} [Decidable c] {plan plan' : Plan α β}
    (h : plan.Handles p q) (h' : plan'.Handles p q) :
    (if c then plan else plan').Handles p q := by
  split
  · exact h
  · exact h'

end Plan

open Plan

theorem All.append {items more : List α} (h : All p items) (h' : All p more) :
    All p (items ++ more) :=
  fun x hx => (List.mem_append.mp hx).elim (h x) (h' x)

theorem All.cons {x : α} {items : List α} (hx : p x) (h : All p items) : All p (x :: items) :=
  List.forall_mem_cons.mpr ⟨hx, h⟩

theorem All.reverse {items : List α} (h : All p items) : All p items.reverse :=
  fun x hx => h x (List.mem_reverse.mp hx)

theorem All.take {items : List α} (h : All p items) (n : Nat) : All p (items.take n) :=
  fun x hx => h x (List.mem_of_mem_take hx)

theorem All.drop {items : List α} (h : All p items) (n : Nat) : All p (items.drop n) :=
  fun x hx => h x (List.mem_of_mem_drop hx)

theorem All.head {x : α} {items : List α} (h : All p (x :: items)) : p x := h x List.mem_cons_self

theorem All.tail {x : α} {items : List α} (h : All p (x :: items)) : All p items :=
  fun y hy => h y (List.mem_cons_of_mem x hy)

theorem all_nil : All p [] := fun _ h => nomatch h

/-! ## Insertion and merging -/

theorem handles_insertBackwards {x : α} (hx : p x) {run : List α} (hrun : All p run) :
    (insertBackwards x run).Handles p (All p) := by
  induction run with
  | nil => exact handles_pure (all_nil.cons hx)
  | cons y rest ih =>
    refine handles_ask hx hrun.head fun answer => handles_ite ?_ ?_
    · exact handles_bind (ih hrun.tail) fun _ hrest => handles_pure (hrest.cons hrun.head)
    · exact handles_pure (hrun.cons hx)

theorem handles_insertAll {items run : List α} (hitems : All p items) (hrun : All p run) :
    (insertAll items run).Handles p (All p) := by
  induction items generalizing run with
  | nil => exact handles_pure hrun
  | cons x rest ih =>
    exact handles_bind (handles_insertBackwards hitems.head hrun) fun _ hrun => ih hitems.tail hrun

theorem handles_insertionSort {items : List α} (hitems : All p items) :
    (insertionSort items).Handles p (All p) :=
  handles_bind (handles_insertAll hitems all_nil) fun _ hrun => handles_pure hrun.reverse

theorem handles_mergeOnto {merged left right : List α} (hmerged : All p merged)
    (hleft : All p left) (hright : All p right) :
    (mergeOnto merged left right).Handles p (All p) := by
  fun_induction mergeOnto merged left right with
  | case1 merged right => exact handles_pure (hmerged.reverse.append hright)
  | case2 merged left => exact handles_pure (hmerged.reverse.append hleft)
  | case3 merged l left r right ihRight ihLeft =>
    refine handles_ask hright.head hleft.head fun answer => handles_ite ?_ ?_
    · exact ihRight (hmerged.cons hright.head) hleft hright.tail
    · exact ihLeft (hmerged.cons hleft.head) hleft.tail hright

theorem handles_merge {left right : List α} (hleft : All p left) (hright : All p right) :
    (merge left right).Handles p (All p) :=
  handles_mergeOnto all_nil hleft hright

theorem handles_mergeBackwards {merged left right : List α} (hmerged : All p merged)
    (hleft : All p left) (hright : All p right) :
    (mergeBackwards merged left right).Handles p (All p) := by
  fun_induction mergeBackwards merged left right with
  | case1 merged right => exact handles_pure (hright.reverse.append hmerged)
  | case2 merged left => exact handles_pure (hleft.reverse.append hmerged)
  | case3 merged l left r right ihLeft ihRight =>
    refine handles_ask hright.head hleft.head fun answer => handles_ite ?_ ?_
    · exact ihLeft (hmerged.cons hleft.head) hleft.tail hright
    · exact ihRight (hmerged.cons hright.head) hleft hright.tail

theorem handles_mergeAlong {left right : List α} (hleft : All p left) (hright : All p right) :
    (mergeAlong left right).Handles p (All p) :=
  handles_ite (handles_merge hleft hright)
    (handles_mergeBackwards all_nil hleft.reverse hright.reverse)

theorem handles_mergeSort {items : List α} (hitems : All p items) :
    (mergeSort items).Handles p (All p) := by
  fun_induction mergeSort items with
  | case1 items => exact handles_pure hitems
  | case2 items _ ihLeft ihRight =>
    refine handles_bind (ihLeft (hitems.take _)) fun left hleft => ?_
    exact handles_bind (ihRight (hitems.drop _)) fun right hright => handles_merge hleft hright

/-- Two runs on the way to being merged are made of elements with a property. -/
structure Inward.Of (p : α → Prop) (state : Inward α) : Prop where
  left : All p state.left
  right : All p state.right
  leftBack : All p state.leftBack
  rightBack : All p state.rightBack
  front : All p state.front
  back : All p state.back

theorem handles_mergeInward (count : Nat) {state : Inward α} (h : state.Of p) :
    (mergeInward count state).Handles p (Inward.Of p) := by
  fun_induction mergeInward count state with
  | case1 front back count l left r right l' leftBack r' rightBack ih =>
    refine handles_ask h.right.head h.left.head fun rightFirst => ?_
    refine handles_ask h.rightBack.head h.leftBack.head fun leftLast => ?_
    refine ih rightFirst leftLast ⟨?_, ?_, ?_, ?_, ?_, ?_⟩
    · exact rightFirst.rec h.left.tail h.left
    · exact rightFirst.rec h.right h.right.tail
    · exact leftLast.rec h.leftBack h.leftBack.tail
    · exact leftLast.rec h.rightBack.tail h.rightBack
    · exact h.front.cons (rightFirst.rec h.left.head h.right.head)
    · exact h.back.cons (leftLast.rec h.rightBack.head h.leftBack.head)
  | case2 => exact handles_pure h

theorem handles_mergeHalves {leftBack rightBack : List α} (hleft : All p leftBack)
    (hright : All p rightBack) : (mergeHalves leftBack rightBack).Handles p (All p) := by
  have hstart : (Inward.start leftBack rightBack).Of p :=
    ⟨hleft.reverse, hright.reverse, hleft, hright, all_nil, all_nil⟩
  refine handles_bind (handles_mergeInward _ hstart) fun state h => handles_ite ?_ trivial
  exact handles_pure ((h.front.reverse.append ((h.left.take _).append (h.right.take _))).append h.back)

/-! ## Few elements -/

theorem handles_sortFour {v₀ v₁ v₂ v₃ : α} (h₀ : p v₀) (h₁ : p v₁) (h₂ : p v₂) (h₃ : p v₃) :
    (sortFour v₀ v₁ v₂ v₃).Handles p (All p) := by
  refine handles_ask h₁ h₀ fun swapFirst => handles_ask h₃ h₂ fun swapSecond => ?_
  cases swapFirst <;> cases swapSecond <;>
  · dsimp only
    refine handles_ask (by assumption) (by assumption) fun leastIsSecond => ?_
    refine handles_ask (by assumption) (by assumption) fun greatestIsFirst => ?_
    cases leastIsSecond <;> cases greatestIsFirst <;>
    · refine handles_ask (by assumption) (by assumption) fun answer => ?_
      cases answer <;> exact handles_pure (by simp [All, h₀, h₁, h₂, h₃])

theorem handles_sortStart (four : Bool) {items : List α} (h : All p items) :
    (sortStart four items).Handles p fun parts => All p parts.1 ∧ All p parts.2 := by
  unfold sortStart
  split
  · rename_i v₀ v₁ v₂ v₃ rest
    have hsort : (sortFour v₀ v₁ v₂ v₃).Handles p (All p) :=
      handles_sortFour h.head h.tail.head h.tail.tail.head h.tail.tail.tail.head
    exact handles_bind hsort fun sorted hsorted => handles_pure ⟨hsorted, h.tail.tail.tail.tail⟩
  · exact handles_pure ⟨h.take 1, h.drop 1⟩

theorem handles_sortFew {items : List α} (h : All p items) :
    (sortFew items).Handles p (All p) := by
  refine handles_ite (handles_pure h) ?_
  refine handles_bind (handles_sortStart _ (h.take _)) fun left hleft => ?_
  refine handles_bind (handles_sortStart _ (h.drop _)) fun right hright => ?_
  refine handles_bind (handles_insertAll hleft.2 hleft.1.reverse) fun leftBack hleftBack => ?_
  refine handles_bind (handles_insertAll hright.2 hright.1.reverse) fun rightBack hrightBack => ?_
  exact handles_mergeHalves hleftBack hrightBack

/-! ## Runs -/

theorem handles_countOn (descends : Bool) (count : Nat) {last : α} {items : List α}
    (hlast : p last) (h : All p items) :
    (countOn descends count last items).Handles p fun _ => True := by
  induction items generalizing count last with
  | nil => trivial
  | cons x rest ih =>
    exact handles_ask h.head hlast fun answer =>
      handles_ite (ih (count + 1) h.head h.tail) (handles_pure trivial)

theorem handles_existingRun {first : α} {items : List α} (hfirst : p first) (h : All p items) :
    (existingRun first items).Handles p fun _ => True := by
  cases items with
  | nil => trivial
  | cons x rest =>
    exact handles_ask h.head hfirst fun descends =>
      handles_bind (handles_countOn descends 1 h.head h.tail) fun _ _ => handles_pure trivial

section Later

variable {later : Option (List α → Plan α (List α))}
  (hlater : ∀ sort ∈ later, ∀ items, All p items → (sort items).Handles p (All p))

include hlater

theorem handles_settle {run : Run α} (h : All p run.items) :
    (run.settle later).Handles p (All p) := by
  cases run with
  | sorted items => exact handles_pure h
  | waiting items =>
    cases later with
    | none => exact handles_pure h
    | some sort => exact hlater sort rfl items h

theorem handles_join {left right : Run α} (hleft : All p left.items) (hright : All p right.items) :
    (left.join later right).Handles p fun run => All p run.items := by
  have hmerged : (do
      let left ← left.settle later
      let right ← right.settle later
      return Run.sorted (← mergeAlong left right) : Plan α (Run α)).Handles p
        fun run => All p run.items :=
    handles_bind (handles_settle hlater hleft) fun left hleft =>
      handles_bind (handles_settle hlater hright) fun right hright =>
        handles_bind (handles_mergeAlong hleft hright) fun merged hmerged => handles_pure hmerged
  cases left with
  | sorted left => exact hmerged
  | waiting left =>
    cases right with
    | sorted right => exact hmerged
    | waiting right => exact handles_pure (hleft.append hright)

theorem handles_joinDeeper (depth : Nat) {before : List (Run α × Nat)} {last : Run α}
    (hbefore : ∀ run ∈ before, All p run.1.items) (hlast : All p last.items) :
    (joinDeeper later depth before last).Handles p fun joined =>
      (∀ run ∈ joined.1, All p run.1.items) ∧ All p joined.2.items := by
  induction before generalizing last with
  | nil => exact handles_pure ⟨fun _ h => (nomatch h), hlast⟩
  | cons entry before ih =>
    obtain ⟨run, d⟩ := entry
    have hrest : ∀ run ∈ before, All p run.1.items :=
      fun run hrun => hbefore run (List.mem_cons_of_mem _ hrun)
    refine handles_ite ?_ (handles_pure ⟨hbefore, hlast⟩)
    exact handles_bind (handles_join hlater (hbefore _ List.mem_cons_self) hlast)
      fun joined hjoined => ih hrest hjoined

omit hlater in
theorem handles_shortRun (good : Nat) {items : List α} (h : All p items) :
    (shortRun later good items).Handles p fun run => All p run.items := by
  cases later with
  | none => exact handles_bind (handles_sortFew (h.take _)) fun sorted hsorted => handles_pure hsorted
  | some sort => exact handles_pure (h.take good)

omit hlater in
theorem handles_firstRun (good : Nat) {first : α} {rest : List α} (hfirst : p first)
    (hrest : All p rest) :
    (firstRun later good first rest).Handles p fun run => All p run.items := by
  have hshort : (shortRun later good (first :: rest)).Handles p fun run => All p run.items :=
    handles_shortRun good (hrest.cons hfirst)
  refine handles_ite hshort (handles_bind (handles_existingRun hfirst hrest) fun run _ => ?_)
  obtain ⟨count, descends⟩ := run
  have hitems : All p (first :: rest.take count) := (hrest.take count).cons hfirst
  refine handles_ite hshort (handles_pure ?_)
  cases descends with
  | false => exact hitems
  | true => exact hitems.reverse

theorem handles_joinRuns (total : Nat) {before : List (Run α × Nat)} {last : Run α}
    (start : Nat) {items : List α} (hbefore : ∀ run ∈ before, All p run.1.items)
    (hlast : All p last.items) (hitems : All p items) :
    (joinRuns later total before last start items).Handles p (All p) := by
  fun_induction joinRuns later total before last start items with
  | case1 before last start =>
    exact handles_bind (handles_joinDeeper hlater 0 hbefore hlast) fun joined hjoined =>
      handles_settle hlater hjoined.2
  | case2 before last start first rest ih =>
    refine handles_bind (handles_firstRun _ hitems.head hitems.tail) fun next hnext => ?_
    refine handles_bind (handles_joinDeeper hlater _ hbefore hlast) fun joined hjoined => ?_
    refine ih next joined.1 joined.2 (fun run hrun => ?_) hnext (hitems.tail.drop _)
    rcases List.mem_cons.mp hrun with rfl | hrun
    · exact hjoined.2
    · exact hjoined.1 run hrun

theorem handles_sortByRuns {items : List α} (h : All p items) :
    (sortByRuns later items).Handles p (All p) := by
  cases items with
  | nil => exact handles_pure all_nil
  | cons first rest =>
    exact handles_bind (handles_firstRun _ h.head h.tail) fun run hrun =>
      handles_joinRuns hlater _ _ (fun _ h => (nomatch h)) hrun (h.tail.drop _)

end Later

/-! ## Pivots -/

theorem handles_lessAt {items : Array α} (h : ∀ x ∈ items, p x) (i j : Nat) :
    (lessAt items i j).Handles p fun _ => True := by
  unfold lessAt
  split
  · rename_i hi hj
    exact handles_less (h _ (Array.mem_of_getElem? hi)) (h _ (Array.mem_of_getElem? hj))
  · exact handles_pure trivial

theorem handles_medianOfThree {items : Array α} (h : ∀ x ∈ items, p x) (a b c : Nat) :
    (medianOfThree items a b c).Handles p fun _ => True :=
  handles_bind (handles_lessAt h a b) fun _ _ => handles_bind (handles_lessAt h a c) fun _ _ =>
    handles_ite (handles_bind (handles_lessAt h b c) fun _ _ => handles_pure trivial)
      (handles_pure trivial)

theorem handles_medianOfStretches {items : Array α} (h : ∀ x ∈ items, p x) (length a b c : Nat) :
    (medianOfStretches items length a b c).Handles p fun _ => True := by
  fun_induction medianOfStretches items length a b c with
  | case1 length a b c _ eighth ih₁ ih₂ ih₃ =>
    exact handles_bind ih₁ fun _ _ => handles_bind ih₂ fun _ _ => handles_bind ih₃ fun _ _ =>
      handles_medianOfThree h _ _ _
  | case2 length a b c _ => exact handles_medianOfThree h a b c

theorem handles_divideOnto {passes : α → Plan α Bool} {q : Bool → Prop}
    (hpasses : ∀ x, p x → (passes x).Handles p q) {passed others items : List α}
    (hpassed : All p passed) (hothers : All p others) (h : All p items) :
    (divideOnto passes passed others items).Handles p fun parts =>
      All p parts.1 ∧ All p parts.2 := by
  induction items generalizing passed others with
  | nil => exact handles_pure ⟨hpassed.reverse, hothers.reverse⟩
  | cons x rest ih =>
    refine handles_bind (hpasses x h.head) fun answer _ => handles_ite ?_ ?_
    · exact ih (hpassed.cons h.head) hothers h.tail
    · exact ih hpassed (hothers.cons h.head) h.tail

theorem handles_divide {passes : α → Plan α Bool} {q : Bool → Prop}
    (hpasses : ∀ x, p x → (passes x).Handles p q) {items : List α} (h : All p items) :
    (divide passes items).Handles p fun parts => All p parts.1 ∧ All p parts.2 :=
  handles_divideOnto hpasses all_nil all_nil h

section Divisions

variable {before behind : List α} {pivot : α} (hbefore : All p before) (hpivot : p pivot)
  (hbehind : All p behind)
include hbefore hpivot hbehind

theorem handles_divideBelow : (divideBelow before pivot behind).Handles p fun parts =>
    All p parts.1 ∧ All p parts.2 := by
  have hless (x : α) (hx : p x) : (less x pivot).Handles p fun _ => True := handles_less hx hpivot
  refine handles_bind (handles_divide hless hbefore) fun first hfirst => ?_
  refine handles_bind (handles_divide hless hbehind) fun second hsecond => handles_pure ?_
  exact ⟨hfirst.1.append hsecond.1, hfirst.2.append (hsecond.2.cons hpivot)⟩

theorem handles_divideLess {behindPivot : Option α} (hearlier : ∀ x ∈ behindPivot, p x) :
    (divideLess behindPivot before pivot behind).Handles p fun parts =>
      All p parts.1 ∧ All p parts.2 := by
  have hrepeats : (repeatsPivot behindPivot pivot).Handles p fun _ => True := by
    cases behindPivot with
    | none => trivial
    | some earlier =>
      exact handles_ask (hearlier earlier rfl) hpivot fun _ => handles_pure trivial
  refine handles_bind hrepeats fun repeats _ => handles_ite (handles_pure ?_) ?_
  · exact ⟨all_nil, hbefore.append (hbehind.cons hpivot)⟩
  · exact handles_divideBelow hbefore hpivot hbehind

theorem handles_divideUpTo : (divideUpTo before pivot behind).Handles p fun parts =>
    All p parts.1 ∧ All p parts.2 := by
  have hupTo (x : α) (hx : p x) :
      (do return !(← less pivot x) : Plan α Bool).Handles p fun _ => True :=
    handles_ask hpivot hx fun _ => handles_pure trivial
  refine handles_bind (handles_divide hupTo hbefore) fun first hfirst => ?_
  refine handles_bind (handles_divide hupTo hbehind) fun second hsecond => handles_pure ?_
  exact ⟨hfirst.1.append (hsecond.1.cons hpivot), hfirst.2.append hsecond.2⟩

end Divisions

theorem handles_quickSort (divisions : Nat) {behindPivot : Option α} {items : List α}
    (hearlier : ∀ x ∈ behindPivot, p x) (h : All p items) :
    (quickSort divisions behindPivot items).Handles p (All p) := by
  induction divisions generalizing behindPivot items with
  | zero => exact handles_ite (handles_sortFew h) (handles_sortByRuns (by simp) h)
  | succ divisions ih =>
    rw [quickSort]
    refine handles_ite (handles_sortFew h) ?_
    have harray : ∀ x ∈ items.toArray, p x := fun x hx => h x (List.mem_toArray.mp hx)
    refine handles_bind (handles_medianOfStretches harray _ _ _ _) fun place _ => ?_
    have hbefore := h.take place
    have hfrom := h.drop place
    dsimp only
    split
    · exact handles_pure h
    · rename_i pivot behind hdrop
      rw [hdrop] at hfrom
      refine handles_bind (handles_divideLess hbefore hfrom.head hfrom.tail hearlier)
        fun parts hparts => handles_ite ?_ ?_
      · refine handles_bind (handles_divideUpTo hbefore hfrom.head hfrom.tail) fun upTo hupTo => ?_
        refine handles_bind (ih (fun _ h => (nomatch h)) hupTo.2) fun greater hgreater => ?_
        exact handles_pure (hupTo.1.append hgreater)
      · have hpivot : ∀ x ∈ some pivot, p x := fun x hx => Option.some.inj hx ▸ hfrom.head
        refine handles_bind (ih hpivot hparts.2) fun high hhigh => ?_
        exact handles_bind (ih hearlier hparts.1) fun low hlow => handles_pure (hlow.append hhigh)

theorem handles_stableSort {items : List α} (h : All p items) :
    (stableSort items).Handles p (All p) := by
  refine handles_ite (handles_insertionSort h) (handles_ite ?_ ?_)
  · exact handles_sortByRuns (by simp) h
  · refine handles_sortByRuns (fun sort hsort items h => ?_) h
    cases hsort
    exact handles_quickSort _ (fun _ h => (nomatch h)) h

/-! ## Coming to a result -/

/-- A plan comes to a result, whatever the answers are. -/
def Plan.Settles : Plan α β → Prop
  | .done _ => True
  | .ask _ _ next => ∀ answer, (next answer).Settles
  | .contradiction => False

theorem settles_bind {plan : Plan α β} {f : β → Plan α γ} (h : plan.Settles)
    (hf : ∀ b, (f b).Settles) : (plan >>= f).Settles := by
  change (plan.bind f).Settles
  induction plan with
  | done result => exact hf result
  | ask x y next ih => exact fun answer => ih answer (h answer)
  | contradiction => exact h.elim

theorem settles_mergeOnto (merged left right : List α) :
    (mergeOnto merged left right).Settles := by
  fun_induction mergeOnto merged left right with
  | case1 => trivial
  | case2 => trivial
  | case3 merged l left r right ihRight ihLeft =>
    refine settles_bind (fun _ => trivial) fun answer => ?_
    split
    · exact ihRight
    · exact ihLeft

/-- Merging halves comes to a result even if the answers fit no order. -/
theorem settles_mergeSort (items : List α) : (mergeSort items).Settles := by
  fun_induction mergeSort items with
  | case1 => trivial
  | case2 items _ ihLeft ihRight =>
    exact settles_bind ihLeft fun left => settles_bind ihRight fun right =>
      settles_mergeOnto [] left right

end DynamicObjects.Sorting
