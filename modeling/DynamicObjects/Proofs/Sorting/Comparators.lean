import DynamicObjects.Proofs.Errors.Sorting
import Mathlib.Data.Nat.Log

/-!
# Sorting by a function that may do anything

A comparison may answer what it likes, change the world and fail. Which comparisons a sort
makes, in which order and in which worlds, is read off its plan (`Plan.calls`), and nothing
else of the comparison counts (`sortBy_congr`).

Merging halves asks boundedly many questions and gives a rearrangement, whatever the answers
are (`within_mergeSort`). So either all comparisons answer and a rearrangement comes out, or
the first one that does not is the last one made, and the sort ends as it did. When the
comparison is a total preorder without effects, elements rank by how many are below them
(`PreordersOn.rank_lt_iff`), and what is known of ranks applies.

* `MergesBy`, `mergesBy`: what becomes of merging halves by a comparison.
* `sorted_by_function`: the same of sorted copies by a function of scripts.
-/

namespace DynamicObjects

/-- A reply ends without an answer, and another one in the same way. -/
inductive Reply.BreaksOff {α β : Type} : Reply α → Reply β → Prop
  | failed (e : Failure) (w : World) : BreaksOff (.failed e w) (.failed e w)
  | stuck (reason : Stuck) : BreaksOff (.stuck reason) (.stuck reason)

namespace Sorting

variable {α β γ : Type} {compare compare' : α → α → Eval Ordering} {scope : Scope} {w : World}

/-! ## The comparisons that are made -/

/-- A comparison that is made: of what, in which world, and how it ends. -/
structure Call (α : Type) where
  left : α
  right : α
  before : World
  reply : Reply Ordering

/-- The comparison answers. -/
def Call.Answers (call : Call α) : Prop := ∃ o after, call.reply = .done o after

/-- Each comparison is made in the world that the one before it leaves. -/
def Leads : World → List (Call α) → World → Prop
  | w, [], after => after = w
  | w, call :: rest, after =>
    call.before = w ∧ ∃ o next, call.reply = .done o next ∧ Leads next rest after

/-- The comparisons that are made when a plan is carried out, in order. -/
def Plan.calls (compare : α → α → Eval Ordering) (scope : Scope) : Plan α β → World → List (Call α)
  | done _, _ => []
  | ask x y next, w =>
    ⟨x, y, w, compare x y scope w⟩ ::
      match compare x y scope w with
      | .done o after => (next (o == .lt)).calls compare scope after
      | _ => []
  | contradiction, _ => []

section Ask

variable {x y : α} {next : Bool → Plan α β} {o : Ordering} {after : World}

theorem sortBy_ask_of_done (h : compare x y scope w = .done o after) :
    sortBy compare (.ask x y next) scope w = sortBy compare (next (o == .lt)) scope after := by
  rw [sortBy, Plan.run, Eval.bind_apply, Eval.bind_apply, h]
  rfl

theorem sortBy_ask_breaksOff (h : ∀ o after, compare x y scope w ≠ .done o after) :
    (compare x y scope w).BreaksOff (sortBy compare (.ask x y next) scope w) := by
  rw [sortBy, Plan.run, Eval.bind_apply, Eval.bind_apply]
  cases hreply : compare x y scope w with
  | done o after => exact absurd hreply (h o after)
  | failed e after => exact .failed e after
  | stuck reason => exact .stuck reason

theorem calls_ask_of_done (h : compare x y scope w = .done o after) :
    (Plan.ask x y next).calls compare scope w =
      ⟨x, y, w, .done o after⟩ :: (next (o == .lt)).calls compare scope after := by
  rw [Plan.calls, h]

theorem calls_ask_of_not_done (h : ∀ o after, compare x y scope w ≠ .done o after) :
    (Plan.ask x y next).calls compare scope w = [⟨x, y, w, compare x y scope w⟩] := by
  rw [Plan.calls]
  cases hreply : compare x y scope w with
  | done o after => exact absurd hreply (h o after)
  | _ => rfl

end Ask

/-- A comparison that is made is one of elements that the plan asks about. -/
theorem made_of_mem_calls {p : α → Prop} {q : β → Prop} {plan : Plan α β} (h : plan.Handles p q)
    {call : Call α} (hcall : call ∈ plan.calls compare scope w) :
    (p call.left ∧ p call.right) ∧
      call.reply = compare call.left call.right scope call.before := by
  induction plan generalizing w with
  | done b => exact absurd hcall List.not_mem_nil
  | contradiction => exact absurd hcall List.not_mem_nil
  | ask x y next ih =>
    rw [Plan.calls] at hcall
    rcases List.mem_cons.mp hcall with rfl | hcall
    · exact ⟨h.1, rfl⟩
    · split at hcall
      · exact ih _ (h.2 _) hcall
      · exact absurd hcall List.not_mem_nil

/-- Only the comparisons that are made count: a sort by a comparison that ends alike in
them is the same sort. -/
theorem sortBy_congr {plan : Plan α β}
    (h : ∀ call ∈ plan.calls compare scope w,
      compare' call.left call.right scope call.before = call.reply) :
    sortBy compare' plan scope w = sortBy compare plan scope w := by
  induction plan generalizing w with
  | done b => rfl
  | contradiction => rfl
  | ask x y next ih =>
    by_cases hanswers : ∃ o after, compare x y scope w = .done o after
    · obtain ⟨o, after, hreply⟩ := hanswers
      rw [calls_ask_of_done hreply] at h
      obtain ⟨hfirst, hrest⟩ := List.forall_mem_cons.mp h
      rw [sortBy_ask_of_done hreply, sortBy_ask_of_done hfirst, ih _ hrest]
    · push Not at hanswers
      rw [calls_ask_of_not_done hanswers] at h
      have hfirst : compare' x y scope w = compare x y scope w := h _ (List.mem_singleton_self _)
      have hbroken : (compare x y scope w).BreaksOff (sortBy compare (.ask x y next) scope w) :=
        sortBy_ask_breaksOff hanswers
      have hbroken' : (compare' x y scope w).BreaksOff (sortBy compare' (.ask x y next) scope w) :=
        sortBy_ask_breaksOff fun o after heq => hanswers o after (hfirst ▸ heq)
      rw [hfirst] at hbroken'
      generalize compare x y scope w = reply at hbroken hbroken'
      generalize sortBy compare _ scope w = result at hbroken ⊢
      generalize sortBy compare' _ scope w = result' at hbroken' ⊢
      cases hbroken <;> cases hbroken' <;> rfl

/-- A comparison that does not answer is the last one, and the sort ends as it does. -/
theorem breaksOff_of_calls {plan : Plan α β} {earlier later : List (Call α)} {call : Call α}
    (h : plan.calls compare scope w = earlier ++ call :: later) :
    Leads w earlier call.before ∧
      (¬call.Answers → later = [] ∧ call.reply.BreaksOff (sortBy compare plan scope w)) := by
  induction plan generalizing w earlier with
  | done b => simp [Plan.calls] at h
  | contradiction => simp [Plan.calls] at h
  | ask x y next ih =>
    by_cases hanswers : ∃ o after, compare x y scope w = .done o after
    · obtain ⟨o, after, hreply⟩ := hanswers
      rw [calls_ask_of_done hreply] at h
      rw [sortBy_ask_of_done hreply]
      cases earlier with
      | nil =>
        obtain ⟨rfl, -⟩ := List.cons.inj h
        exact ⟨rfl, fun hnone => absurd ⟨o, after, rfl⟩ hnone⟩
      | cons first earlier =>
        obtain ⟨rfl, hrest⟩ := List.cons.inj h
        obtain ⟨hleads, hbroken⟩ := ih _ hrest
        exact ⟨⟨rfl, o, after, rfl, hleads⟩, hbroken⟩
    · push Not at hanswers
      rw [calls_ask_of_not_done hanswers] at h
      cases earlier with
      | nil =>
        obtain ⟨rfl, rfl⟩ := List.cons.inj h
        exact ⟨rfl, fun _ => ⟨rfl, sortBy_ask_breaksOff hanswers⟩⟩
      | cons first earlier =>
        simp at h

/-! ## Plans within bounds -/

namespace Plan

/-- Whatever the answers are, a plan asks at most so many questions and comes to a result
with a property. -/
def Within (post : β → Prop) : Plan α β → Nat → Prop
  | done b, _ => post b
  | ask _ _ next, bound + 1 => ∀ answer, (next answer).Within post bound
  | ask .., 0 => False
  | contradiction, _ => False

variable {plan : Plan α β} {post post' : β → Prop} {bound bound' : Nat}

theorem Within.mono (h : plan.Within post bound) (hbound : bound ≤ bound')
    (hpost : ∀ b, post b → post' b) : plan.Within post' bound' := by
  induction plan generalizing bound bound' with
  | done b => exact hpost b h
  | contradiction => exact h
  | ask x y next ih =>
    obtain _ | bound := bound
    · exact h.elim
    obtain _ | bound' := bound'
    · exact absurd hbound (Nat.not_succ_le_zero _)
    exact fun answer => ih answer (h answer) (Nat.le_of_succ_le_succ hbound)

theorem within_bind {post : γ → Prop} {f : β → Plan α γ} {q : β → Prop} (h : plan.Within q bound)
    (hf : ∀ b, q b → (f b).Within post bound') : (plan >>= f).Within post (bound + bound') := by
  change (plan.bind f).Within post (bound + bound')
  induction plan generalizing bound with
  | done b => exact (hf b h).mono (Nat.le_add_left _ _) fun _ => id
  | contradiction => exact h
  | ask x y next ih =>
    obtain _ | bound := bound
    · exact h.elim
    rw [Nat.succ_add]
    exact fun answer => ih answer (h answer)

theorem Within.length_calls_le (h : plan.Within post bound) :
    (plan.calls compare scope w).length ≤ bound := by
  induction plan generalizing bound w with
  | done b => exact Nat.zero_le _
  | contradiction => exact Nat.zero_le _
  | ask x y next ih =>
    obtain _ | bound := bound
    · exact h.elim
    by_cases hanswers : ∃ o after, compare x y scope w = .done o after
    · obtain ⟨o, after, hreply⟩ := hanswers
      rw [calls_ask_of_done hreply, List.length_cons]
      exact Nat.succ_le_succ (ih _ (h _))
    · push Not at hanswers
      rw [calls_ask_of_not_done hanswers]
      exact Nat.succ_le_succ (Nat.zero_le _)

/-- When all comparisons answer, something comes out. -/
theorem Within.done_of_answers (h : plan.Within post bound)
    (hanswers : ∀ call ∈ plan.calls compare scope w, call.Answers) :
    ∃ b after, sortBy compare plan scope w = .done b after ∧ post b ∧
      Leads w (plan.calls compare scope w) after := by
  induction plan generalizing bound w with
  | done b => exact ⟨b, w, rfl, h, rfl⟩
  | contradiction => exact h.elim
  | ask x y next ih =>
    obtain _ | bound := bound
    · exact h.elim
    have hfirst := hanswers ⟨x, y, w, compare x y scope w⟩ (by rw [calls]; exact List.mem_cons_self)
    obtain ⟨o, next', hreply⟩ := hfirst
    rw [calls_ask_of_done hreply] at hanswers ⊢
    rw [sortBy_ask_of_done hreply]
    obtain ⟨b, after, hdone, hb, hleads⟩ := ih _ (h _) (List.forall_mem_cons.mp hanswers).2
    exact ⟨b, after, hdone, hb, rfl, o, next', rfl, hleads⟩

end Plan

open Plan

theorem within_mergeOnto (merged left right : List α) :
    (mergeOnto merged left right).Within (fun out => out.Perm (merged ++ (left ++ right)))
      (left.length + right.length) := by
  fun_induction mergeOnto merged left right with
  | case1 merged right => exact (List.reverse_perm merged).append_right right
  | case2 merged left _ =>
    rw [List.append_nil]
    exact (List.reverse_perm merged).append_right left
  | case3 merged l left r right ihRight ihLeft =>
    have hleft : (l :: merged ++ (left ++ r :: right)).Perm (merged ++ (l :: left ++ r :: right)) :=
      List.perm_middle.symm
    have hright : (r :: merged ++ (l :: left ++ right)).Perm
        (merged ++ (l :: left ++ r :: right)) := by
      have hinner : (r :: (l :: left ++ right)).Perm (l :: left ++ r :: right) :=
        List.perm_middle.symm
      exact List.perm_middle.symm.trans (hinner.append_left merged)
    intro answer
    cases answer with
    | true => exact ihRight.mono (Nat.le_refl _) fun out hout => hout.trans hright
    | false =>
      have hbound : left.length + (r :: right).length ≤ (l :: left).length + right.length := by
        rw [List.length_cons, List.length_cons]
        omega
      exact ihLeft.mono hbound fun out hout => hout.trans hleft

/-- What halves of a list ask for and what merging them asks for. -/
theorem halves_le {n : Nat} (h : 1 < n) :
    n / 2 * Nat.clog 2 (n / 2) + (n - n / 2) * Nat.clog 2 (n - n / 2) + n ≤ n * Nat.clog 2 n := by
  have hclog : Nat.clog 2 n = Nat.clog 2 (n - n / 2) + 1 := by
    rw [Nat.clog_of_two_le Nat.one_lt_two h, show (n + 2 - 1) / 2 = n - n / 2 by omega]
  have hshorter : Nat.clog 2 (n / 2) ≤ Nat.clog 2 (n - n / 2) :=
    Nat.clog_mono_right 2 (by omega)
  calc n / 2 * Nat.clog 2 (n / 2) + (n - n / 2) * Nat.clog 2 (n - n / 2) + n
      ≤ n / 2 * Nat.clog 2 (n - n / 2) + (n - n / 2) * Nat.clog 2 (n - n / 2) + n := by
        have := Nat.mul_le_mul_left (n / 2) hshorter
        omega
    _ = n * Nat.clog 2 n := by
        rw [← Nat.add_mul, Nat.add_sub_cancel' (Nat.div_le_self n 2), hclog, Nat.mul_succ]

theorem within_mergeSort (items : List α) :
    (mergeSort items).Within (·.Perm items) (items.length * Nat.clog 2 items.length) := by
  fun_induction mergeSort items with
  | case1 items _ => exact .refl items
  | case2 items hlong ihLeft ihRight =>
    have htake : (items.take (items.length / 2)).length = items.length / 2 := by
      rw [List.length_take, Nat.min_eq_left (Nat.div_le_self _ 2)]
    rw [htake] at ihLeft
    rw [List.length_drop] at ihRight
    refine (within_bind ihLeft fun left hleft => within_bind ihRight fun right hright => ?_).mono
      (Nat.add_assoc .. ▸ halves_le (Nat.lt_of_not_le hlong)) fun _ => id
    have hperm : (left ++ right).Perm items := by
      have hhalves := hleft.append hright
      rwa [List.take_append_drop] at hhalves
    refine (within_mergeOnto [] left right).mono ?_ fun out hout => hout.trans hperm
    rw [← List.length_append, hperm.length_eq]

/-! ## Total preorders without effects -/

/-- On the elements of a list, a comparison is that of a total preorder. -/
structure PreordersOn (cmp : α → α → Ordering) (items : List α) : Prop where
  swap : ∀ x ∈ items, ∀ y ∈ items, cmp y x = (cmp x y).swap
  trans : ∀ x ∈ items, ∀ y ∈ items, ∀ z ∈ items, (cmp x y).isLE → (cmp y z).isLE → (cmp x z).isLE

/-- A list is what a stable sort by a comparison gives: a rearrangement in order, in which the
elements that tie are as they were. -/
structure StableBy (cmp : α → α → Ordering) (items out : List α) : Prop where
  perm : out.Perm items
  ordered : out.Pairwise fun x y => (cmp x y).isLE
  ties : ∀ x ∈ items, out.filter (cmp x · == .eq) = items.filter (cmp x · == .eq)

/-- What is below an element, of those in a list. -/
def below (cmp : α → α → Ordering) (items : List α) (x : α) : List α :=
  items.filter fun y => cmp y x == .lt

namespace PreordersOn

variable {cmp : α → α → Ordering} {items : List α} {x y z : α}

theorem self (h : PreordersOn cmp items) (hx : x ∈ items) : cmp x x = .eq := by
  have hswap := h.swap x hx x hx
  cases hself : cmp x x <;> rw [hself] at hswap <;> first | rfl | cases hswap

theorem lt_of_lt_of_isLE (h : PreordersOn cmp items) (hx : x ∈ items) (hy : y ∈ items)
    (hz : z ∈ items) (hxy : cmp x y = .lt) (hyz : (cmp y z).isLE) : cmp x z = .lt := by
  by_contra hne
  have hzx : (cmp z x).isLE := by
    rw [h.swap x hx z hz]
    cases hxz : cmp x z <;> first | rfl | exact absurd hxz hne
  have hyx := h.trans y hy z hz x hx hyz hzx
  rw [h.swap x hx y hy, hxy] at hyx
  cases hyx

/-- What is not above an element has no more below it. -/
theorem below_sublist (h : PreordersOn cmp items) (hx : x ∈ items) (hy : y ∈ items)
    (hxy : (cmp x y).isLE) : (below cmp items x).Sublist (below cmp items y) := by
  have hbelow : below cmp items x = (below cmp items y).filter fun z => cmp z x == .lt := by
    rw [below, below, List.filter_filter]
    refine List.filter_congr fun z hz => ?_
    rw [Bool.eq_iff_iff, Bool.and_eq_true, beq_iff_eq, beq_iff_eq]
    exact ⟨fun hzx => ⟨hzx, h.lt_of_lt_of_isLE hz hx hy hzx hxy⟩, fun hboth => hboth.1⟩
  rw [hbelow]
  exact List.filter_sublist

/-- Elements are ranked by how many are below them. -/
theorem rank_lt_iff (h : PreordersOn cmp items) (hx : x ∈ items) (hy : y ∈ items) :
    (below cmp items x).length < (below cmp items y).length ↔ cmp x y = .lt := by
  constructor
  · intro hlength
    by_contra hne
    have hyx : (cmp y x).isLE := by
      rw [h.swap x hx y hy]
      cases hxy : cmp x y <;> first | rfl | exact absurd hxy hne
    exact absurd (h.below_sublist hy hx hyx).length_le (Nat.not_le.mpr hlength)
  · intro hxy
    have hsublist := h.below_sublist hx hy (by rw [hxy]; rfl)
    refine Nat.lt_of_le_of_ne hsublist.length_le fun heq => ?_
    -- the element itself makes the difference
    have hmem : x ∈ below cmp items y := List.mem_filter.mpr ⟨hx, beq_iff_eq.mpr hxy⟩
    rw [← hsublist.eq_of_length heq] at hmem
    have hself := beq_iff_eq.mp (List.mem_filter.mp hmem).2
    rw [h.self hx] at hself
    cases hself

theorem rank_eq_iff (h : PreordersOn cmp items) (hx : x ∈ items) (hy : y ∈ items) :
    (below cmp items y).length = (below cmp items x).length ↔ cmp x y = .eq := by
  have hlt := h.rank_lt_iff hx hy
  have hgt := h.rank_lt_iff hy hx
  rw [h.swap x hx y hy] at hgt
  cases hxy : cmp x y <;> rw [hxy] at hlt hgt <;> simp at hlt hgt ⊢ <;> omega

/-- By how many are below them, elements are arranged just when they are sorted stably. -/
theorem arranges_iff (h : PreordersOn cmp items) {out : List α} :
    Arranges (fun x => (below cmp items x).length) items out ↔ StableBy cmp items out := by
  have hties {x : α} (hx : x ∈ items) {those : List α} (hthose : ∀ y ∈ those, y ∈ items) :
      those.filter (cmp x · == .eq) =
        those.filter fun y => (below cmp items y).length = (below cmp items x).length :=
    List.filter_congr fun y hy => by
      rw [Bool.eq_iff_iff, beq_iff_eq, decide_eq_true_eq, h.rank_eq_iff hx (hthose y hy)]
  have hle {x y : α} (hx : x ∈ items) (hy : y ∈ items) :
      (below cmp items x).length ≤ (below cmp items y).length ↔ (cmp x y).isLE := by
    rw [← not_lt, h.rank_lt_iff hy hx, h.swap x hx y hy]
    cases cmp x y <;> decide
  constructor
  · intro harranges
    have hmem {x : α} (hx : x ∈ out) : x ∈ items := harranges.mem_iff.mp hx
    refine ⟨harranges.alike.perm.symm, ?_, fun x hx => ?_⟩
    · exact harranges.ordered.imp_of_mem fun hx hy => (hle (hmem hx) (hmem hy)).mp
    · rw [hties hx fun _ => hmem, hties hx fun _ => id, harranges.alike]
  · rintro ⟨hperm, hordered, hsame⟩
    have hmem {x : α} (hx : x ∈ out) : x ∈ items := hperm.mem_iff.mp hx
    refine ⟨fun r => ?_, hordered.imp_of_mem fun hx hy => (hle (hmem hx) (hmem hy)).mpr⟩
    by_cases hr : ∃ x ∈ items, (below cmp items x).length = r
    · obtain ⟨x, hx, rfl⟩ := hr
      rw [← hties hx fun _ => id, ← hties hx fun _ => hmem, hsame x hx]
    · have hnone {those : List α} (hthose : ∀ y ∈ those, y ∈ items) :
          those.filter (fun y => (below cmp items y).length = r) = [] :=
        List.filter_eq_nil_iff.mpr fun y hy hrank =>
          hr ⟨y, hthose y hy, of_decide_eq_true hrank⟩
      rw [hnone fun _ => id, hnone fun _ => hmem]

end PreordersOn

/-- What a plan gives comes out when comparing answers by ranks and has no effects. -/
theorem Plan.Gives.sortBy_eq {β : Type} [LinearOrder β] {rank : α → β} {among : α → Prop}
    {cmp : α → α → Ordering} {plan : Plan α γ} {post : γ → Prop}
    (h : plan.Gives rank among post)
    (hcompare : ∀ x y, among x → among y → compare x y scope w = .done (cmp x y) w)
    (hrank : ∀ x y, among x → among y → (rank x < rank y ↔ cmp x y = .lt)) :
    ∃ c, post c ∧ sortBy compare plan scope w = .done c w := by
  induction plan with
  | done c => exact ⟨c, h, rfl⟩
  | contradiction => exact h.elim
  | ask x y next ih =>
    obtain ⟨hx, hy, hnext⟩ := h
    rw [sortBy_ask_of_done (hcompare x y hx hy)]
    refine ih _ ?_
    rwa [show (cmp x y == .lt) = decide (rank x < rank y) by
      rw [Bool.eq_iff_iff, beq_iff_eq, decide_eq_true_eq, hrank x y hx hy]]

/-- What becomes of merging halves by a comparison, in a scope and a world. -/
structure MergesBy (compare : α → α → Eval Ordering) (items : List α) (scope : Scope) (w : World) :
    Prop where
  /-- Only boundedly many comparisons are made. -/
  bounded : ((mergeSort items).calls compare scope w).length ≤
    items.length * Nat.clog 2 items.length
  /-- They are made of elements of the list. -/
  made : ∀ call ∈ (mergeSort items).calls compare scope w,
    (call.left ∈ items ∧ call.right ∈ items) ∧
      call.reply = compare call.left call.right scope call.before
  /-- They are all that counts of the comparison. -/
  only : ∀ compare' : α → α → Eval Ordering,
    (∀ call ∈ (mergeSort items).calls compare scope w,
      compare' call.left call.right scope call.before = call.reply) →
    sortBy compare' (mergeSort items) scope w = sortBy compare (mergeSort items) scope w
  /-- When all of them answer, a rearrangement comes out. -/
  permutes : (∀ call ∈ (mergeSort items).calls compare scope w, call.Answers) →
    ∃ out after, sortBy compare (mergeSort items) scope w = .done out after ∧ out.Perm items ∧
      Leads w ((mergeSort items).calls compare scope w) after
  /-- One that does not answer comes after answers only, is the last one, and ends the sort. -/
  breaksOff : ∀ earlier call later,
    (mergeSort items).calls compare scope w = earlier ++ call :: later →
    Leads w earlier call.before ∧
      (¬call.Answers →
        later = [] ∧ call.reply.BreaksOff (sortBy compare (mergeSort items) scope w))
  /-- A total preorder without effects sorts stably. -/
  ordered : ∀ cmp, PreordersOn cmp items →
    (∀ x ∈ items, ∀ y ∈ items, compare x y scope w = .done (cmp x y) w) →
    ∃ out, sortBy compare (mergeSort items) scope w = .done out w ∧ out.Perm items ∧
      out.Pairwise (fun x y => (cmp x y).isLE) ∧
      ∀ x ∈ items, out.filter (cmp x · == .eq) = items.filter (cmp x · == .eq)

theorem mergesBy (compare : α → α → Eval Ordering) (items : List α) (scope : Scope) (w : World) :
    MergesBy compare items scope w where
  bounded := (within_mergeSort items).length_calls_le
  made _ hcall := made_of_mem_calls (handles_mergeSort fun _ hx => hx) hcall
  only _ h := sortBy_congr h
  permutes h := (within_mergeSort items).done_of_answers h
  breaksOff _ _ _ h := breaksOff_of_calls h
  ordered cmp hcmp hcompare := by
    have hplan : (mergeSort items).Gives (fun x => (below cmp items x).length) (· ∈ items)
        (Arranges (fun x => (below cmp items x).length) items) := gives_mergeSort fun _ hx => hx
    obtain ⟨out, hout, hdone⟩ := hplan.sortBy_eq (fun x y hx hy => hcompare x hx y hy)
      fun x y hx hy => hcmp.rank_lt_iff hx hy
    obtain ⟨hperm, hordered, hties⟩ := hcmp.arranges_iff.mp hout
    exact ⟨out, hdone, hperm, hordered, hties⟩

/-- A comparison that fails is the last one, and the sort fails as it does. -/
theorem MergesBy.failed {items : List α} (h : MergesBy compare items scope w)
    {earlier later : List (Call α)} {call : Call α} {e : Failure} {after : World}
    (hcalls : (mergeSort items).calls compare scope w = earlier ++ call :: later)
    (hfailed : call.reply = .failed e after) :
    later = [] ∧ sortBy compare (mergeSort items) scope w = .failed e after := by
  have hnone : ¬call.Answers := by
    rintro ⟨o, next, hdone⟩
    cases hfailed.symm.trans hdone
  obtain ⟨hlast, hbroken⟩ := (h.breaksOff earlier call later hcalls).2 hnone
  rw [hfailed] at hbroken
  generalize sortBy compare (mergeSort items) scope w = result at hbroken ⊢
  cases hbroken
  exact ⟨hlast, rfl⟩

end Sorting

/-! ## Sorted copies by a function -/

open Sorting

section Signs

variable {answer : Value} {scope : Scope} {w : World}

/-- Numbers have a sign. -/
theorem signOf_done (h : answer.isNumber = true) : ∃ o, signOf answer scope w = .done o w := by
  cases answer with
  | integer n => exact ⟨_, rfl⟩
  | float x => exact ⟨_, rfl⟩
  | _ => cases h

/-- What is no number among floats has the sign of zero. -/
theorem signOf_of_isNaN {x : Number.Binary64} (h : x.isNaN = true) :
    signOf (.float x) scope w = .done .eq w := by
  have hread : x.read = .nan := by rw [Number.Binary64.read, if_pos h]
  rw [signOf, hread]
  rfl

theorem signOf_failed (h : answer.isNumber = false) :
    signOf answer scope w = .failed (resultFailure answer) w := by
  cases answer with
  | integer n => cases h
  | float x => cases h
  | _ => rfl

end Signs

section Calls

variable [Host]

/-- The comparison of elements by the sign of what a function answers. -/
def Function.comparison (f : Function) (a b : Value) : Eval Ordering := do
  signOf (← Host.call f [a, b])

theorem comparison_of_done {f : Function} {a b answer : Value} {scope : Scope} {w after : World}
    (h : Host.call f [a, b] scope w = .done answer after) :
    f.comparison a b scope w = signOf answer scope after := by
  rw [Function.comparison, Eval.bind_of_done h]

/-- A container is sorted by a function after its elements are taken out, which are held
meanwhile. -/
theorem sorted_apply_function {v : Value} {f : Function} {rest : List Value} {scope : Scope}
    {w w' : World} {entries : List (Key × Value)} (hrest : rest.length ≤ 1)
    (hkind : (w.kind v).isContainer = true) (hcollect : collect v scope w = .done entries w') :
    Builtin.sorted.apply (v :: .function f :: rest) scope w =
      (do
        let sorted ← sortBy f.comparison (mergeSort (entries.map Prod.snd))
        return Value.array (if flagAt (v :: .function f :: rest) 2 then sorted.reverse else sorted))
      (scope.holding (.values (entries.map Prod.snd))) w' := by
  have hcount : ¬((v :: .function f :: rest).length < Builtin.sorted.fewest ∨
      Builtin.sorted.most < (v :: .function f :: rest).length) := by
    rw [show Builtin.sorted.fewest = 1 from rfl, show Builtin.sorted.most = 3 from rfl,
      List.length_cons, List.length_cons]
    omega
  have hkind' : v.kind scope w = .done (w.kind v) w := Eval.reads_apply _ _ _
  rw [Builtin.apply, Builtin.checkCount, if_neg hcount]
  change sortedCopy v (.comparator f.comparison) (flagAt (v :: .function f :: rest) 2) scope w = _
  rw [sortedCopy, Eval.bind_of_done hkind']
  generalize w.kind v = kind at hkind ⊢
  cases kind with
  | sequence | generic | associative => exact (Eval.bind_of_done hcollect _).trans rfl
  | scalar | undefined | none | function | instanceKind => cases hkind

/-- **Sorting by a function that may do anything.** Whatever a comparison does, merging
halves by it makes boundedly many comparisons, each in the world that the one before leaves;
when all of them answer, a rearrangement comes out, and the first that does not is the last
that is made and decides how the sort ends; a total preorder without effects sorts stably.
Through `sorted`, the comparisons are those of the elements by the function: what is no
number among floats counts as a tie, and the first answer that is no number at all is a
failure of type, after which the function is not called again. -/
theorem sorted_by_function :
    (∀ (compare : Value → Value → Eval Ordering) (items : List Value) (scope : Scope) (w : World),
      MergesBy compare items scope w) ∧
    ∀ (v : Value) (f : Function) (rest : List Value) (scope : Scope) (w w' : World)
      (entries : List (Key × Value)), rest.length ≤ 1 → (w.kind v).isContainer = true →
      collect v scope w = .done entries w' →
      let items := entries.map Prod.snd
      let inner := scope.holding (.values items)
      let calls := (mergeSort items).calls f.comparison inner w'
      let reply := Builtin.sorted.apply (v :: .function f :: rest) scope w
      ((∀ call ∈ calls, call.Answers) → ∃ out after, out.Perm items ∧ Leads w' calls after ∧
        sortBy f.comparison (mergeSort items) inner w' = .done out after ∧
        reply = .done
          (.array (if flagAt (v :: .function f :: rest) 2 then out.reverse else out)) after) ∧
      ∀ earlier call later, calls = earlier ++ call :: later →
        (∀ e after, Host.call f [call.left, call.right] inner call.before = .failed e after →
          later = [] ∧ reply = .failed e after) ∧
        ∀ answer after, Host.call f [call.left, call.right] inner call.before =
            .done answer after →
          (answer.isNumber = true → call.Answers) ∧
          (∀ x, answer = .float x → x.isNaN = true → call.reply = .done .eq after) ∧
          (answer.isNumber = false → (resultFailure answer).kind = "Type" ∧ later = [] ∧
            reply = .failed (resultFailure answer) after) := by
  refine ⟨mergesBy, fun v f rest scope w w' entries hrest hkind hcollect => ?_⟩
  intro items inner calls reply
  have hreply : reply = (do
      let sorted ← sortBy f.comparison (mergeSort items)
      return Value.array (if flagAt (v :: .function f :: rest) 2 then sorted.reverse else sorted))
      inner w' := sorted_apply_function hrest hkind hcollect
  have hmerges := mergesBy f.comparison items inner w'
  constructor
  · intro hanswers
    obtain ⟨out, after, hdone, hperm, hleads⟩ := hmerges.permutes hanswers
    refine ⟨out, after, hperm, hleads, hdone, ?_⟩
    rw [hreply, Eval.bind_of_done hdone]
    rfl
  · intro earlier call later hcalls
    have hcall : call ∈ calls := by
      rw [hcalls]
      exact List.mem_append_right _ List.mem_cons_self
    have hmade : call.reply = f.comparison call.left call.right inner call.before :=
      (hmerges.made call hcall).2
    have hfails {e : Failure} {after : World} (hfailed : call.reply = .failed e after) :
        later = [] ∧ reply = .failed e after := by
      obtain ⟨hlast, hsort⟩ := hmerges.failed hcalls hfailed
      refine ⟨hlast, ?_⟩
      rw [hreply, Eval.bind_apply, hsort]
    constructor
    · intro e after hfailed
      apply hfails
      rw [hmade, Function.comparison, Eval.bind_apply, hfailed]
    · intro answer after hdone
      rw [comparison_of_done hdone] at hmade
      refine ⟨fun hnumber => ?_, fun x hx hnan => ?_, fun hnumber => ⟨rfl, hfails ?_⟩⟩
      · obtain ⟨o, hsign⟩ := signOf_done hnumber
        exact ⟨o, after, hmade.trans hsign⟩
      · rw [hmade, hx, signOf_of_isNaN hnan]
      · rw [hmade, signOf_failed hnumber]

end Calls

/-- Two elements stay in their order when the function answers what is no number among
floats, and are not sorted when it answers a text. -/
theorem sorted_by_function_oddly :
    let v : Value := .array [.integer 2, .integer 1]
    let tie : Function := ⟨0, "tie", .script (.float .nan)⟩
    let text : Function := ⟨1, "text", .script (.string "x")⟩
    letI := Script.hostWithin 2
    Builtin.sorted.apply [v, .function tie] {} {} = .done v {} ∧
      Builtin.sorted.apply [v, .function text] {} {} =
        .failed (resultFailure (.string "x")) {} := by
  intro v tie text
  let _ := Script.hostWithin 2
  obtain ⟨hmerges, hsorted⟩ := sorted_by_function
  have hcollect : collect v {} {} =
      .done [(.index 0, .integer 2), (.index 1, .integer 1)] {} := rfl
  have hcalls (f : Function) : ∃ later, (mergeSort [Value.integer 2, .integer 1]).calls
      f.comparison (Scope.holding {} (.values [.integer 2, .integer 1])) {} =
        ⟨.integer 1, .integer 2, {}, f.comparison (.integer 1) (.integer 2)
          (Scope.holding {} (.values [.integer 2, .integer 1])) {}⟩ :: later := by
    obtain ⟨next, hask⟩ : ∃ next, mergeSort [Value.integer 2, .integer 1] =
        .ask (.integer 1) (.integer 2) next := by
      have hsingle (u : Value) : mergeSort [u] = .done [u] := by
        rw [mergeSort, if_pos (show [u].length ≤ 1 from Nat.le_refl 1)]
        rfl
      rw [mergeSort, if_neg (by decide)]
      change ∃ next, (mergeSort [Value.integer 2] >>= fun left =>
        mergeSort [Value.integer 1] >>= fun right => merge left right) = .ask _ _ next
      rw [hsingle, hsingle]
      change ∃ next, mergeOnto [] [Value.integer 2] [.integer 1] = .ask _ _ next
      rw [mergeOnto]
      exact ⟨_, rfl⟩
    rw [hask, Plan.calls]
    exact ⟨_, rfl⟩
  constructor
  · obtain ⟨hanswers, -⟩ := hsorted v tie [] {} {} {} _ (Nat.zero_le _) rfl hcollect
    have hties := hmerges tie.comparison [.integer 2, .integer 1]
      (Scope.holding {} (.values [.integer 2, .integer 1])) {}
    have htotal : PreordersOn (fun _ _ => .eq) [Value.integer 2, .integer 1] :=
      ⟨fun _ _ _ _ => rfl, fun _ _ _ _ _ _ _ _ => rfl⟩
    obtain ⟨out, hdone, -, -, hstable⟩ := hties.ordered _ htotal fun _ _ _ _ => rfl
    obtain ⟨out', after, -, -, hdone', hreply⟩ := hanswers fun call hcall =>
      ⟨.eq, call.before, (hties.made call hcall).2⟩
    obtain ⟨rfl, rfl⟩ := Reply.done.inj (hdone.symm.trans hdone')
    have hsame : out = [.integer 2, .integer 1] := by
      simpa using hstable (.integer 2) List.mem_cons_self
    rw [hsame] at hreply
    exact hreply
  · obtain ⟨later, hcalls⟩ := hcalls text
    obtain ⟨-, hends⟩ := hsorted v text [] {} {} {} _ (Nat.zero_le _) rfl hcollect
    exact ((hends [] _ later hcalls).2 (.string "x") {} rfl).2.2 rfl |>.2.2

end DynamicObjects
