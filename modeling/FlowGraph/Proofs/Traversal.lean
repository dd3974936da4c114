import Mathlib.Data.List.Forall2
import Mathlib.Data.List.Perm.Basic

/-!
# Lists walked with a chance to fail

Nodes of a superstep, calls of a draft and members of a composer are walked in
order, and the walk ends at the first failure.  These are the laws of such a
walk: it succeeds pointwise, and its failure is that of the earliest element
that fails.
-/

namespace FlowGraph.Traversal

variable {ε ε' α β : Type}

/-- A sequence succeeds iff both of its halves do. -/
theorem bind_eq_ok_iff {x : Except ε α} {f : α → Except ε β} {result : β} :
    x >>= f = .ok result ↔ ∃ a, x = .ok a ∧ f a = .ok result := by
  cases x <;> simp [bind, Except.bind]

/-- A sequence fails in its first half, or in its second. -/
theorem bind_eq_error_iff {x : Except ε α} {f : α → Except ε β} {e : ε} :
    x >>= f = .error e ↔ x = .error e ∨ ∃ a, x = .ok a ∧ f a = .error e := by
  cases x <;> simp [bind, Except.bind]

/-- Two changes of a result are one. -/
theorem map_map {δ : Type*} (f : α → β) (g : β → δ) (x : Except ε α) :
    (x.map f).map g = x.map (g ∘ f) := by
  cases x <;> rfl

/-- A change of errors leaves results. -/
theorem mapError_eq_ok_iff {g : ε → ε'} {x : Except ε α} {a : α} :
    x.mapError g = .ok a ↔ x = .ok a := by
  cases x <;> simp [Except.mapError]

/-- A changed error comes from an error. -/
theorem mapError_eq_error_iff {g : ε → ε'} {x : Except ε α} {e : ε'} :
    x.mapError g = .error e ↔ ∃ cause, x = .error cause ∧ g cause = e := by
  cases x <;> simp [Except.mapError]

/-- **A walk succeeds pointwise.** -/
theorem mapM_eq_ok_iff {f : α → Except ε β} {xs : List α} {ys : List β} :
    xs.mapM f = .ok ys ↔ List.Forall₂ (fun x y => f x = .ok y) xs ys := by
  induction xs generalizing ys with
  | nil => cases ys <;> simp [pure, Except.pure]
  | cons x xs ih =>
      rw [List.mapM_cons, bind_eq_ok_iff]
      constructor
      · intro h
        obtain ⟨y, hhead, hrest⟩ := h
        obtain ⟨tail, htail, hys⟩ := bind_eq_ok_iff.mp hrest
        cases hys
        exact .cons hhead (ih.mp htail)
      · intro h
        cases h with
        | @cons _ y _ tail hhead htail =>
            exact ⟨y, hhead, bind_eq_ok_iff.mpr ⟨tail, ih.mpr htail, rfl⟩⟩

/-- A walk asks nothing but its elements. -/
theorem mapM_congr {f g : α → Except ε β} {xs : List α} (h : ∀ x ∈ xs, f x = g x) :
    xs.mapM f = xs.mapM g := by
  induction xs with
  | nil => rfl
  | cons x xs ih =>
      obtain ⟨hhead, htail⟩ := List.forall_mem_cons.mp h
      rw [List.mapM_cons, List.mapM_cons, hhead, ih htail]

/-- Every element of a walk that succeeds has an answer. -/
theorem exists_answer {f : α → Except ε β} {xs : List α} {ys : List β}
    (h : xs.mapM f = .ok ys) {x : α} (hx : x ∈ xs) : ∃ y ∈ ys, f x = .ok y := by
  induction mapM_eq_ok_iff.mp h with
  | nil => cases hx
  | @cons z y xs ys hhead htail ih =>
      rcases List.mem_cons.mp hx with rfl | hx
      · exact ⟨y, List.mem_cons_self, hhead⟩
      · obtain ⟨w, hw, hfw⟩ := ih (mapM_eq_ok_iff.mpr htail) hx
        exact ⟨w, List.mem_cons_of_mem _ hw, hfw⟩

/-- Every answer of a walk comes from an element. -/
theorem exists_asked {f : α → Except ε β} {xs : List α} {ys : List β}
    (h : xs.mapM f = .ok ys) {y : β} (hy : y ∈ ys) : ∃ x ∈ xs, f x = .ok y := by
  induction mapM_eq_ok_iff.mp h with
  | nil => cases hy
  | @cons x z xs ys hhead htail ih =>
      rcases List.mem_cons.mp hy with rfl | hy
      · exact ⟨x, List.mem_cons_self, hhead⟩
      · obtain ⟨w, hw, hfw⟩ := ih (mapM_eq_ok_iff.mpr htail) hy
        exact ⟨w, List.mem_cons_of_mem _ hw, hfw⟩

/-- Two walks over the same elements in different orders give the same answers,
in different orders. -/
theorem perm_of_mapM {f : α → Except ε β} {xs xs' : List α} {ys ys' : List β}
    (hperm : xs.Perm xs') (h : xs.mapM f = .ok ys) (h' : xs'.mapM f = .ok ys') : ys.Perm ys' := by
  obtain ⟨zs, hzs, hanswers⟩ := List.perm_comp_forall₂ hperm (mapM_eq_ok_iff.mp h')
  have hsame : ys = zs := Except.ok.inj (h.symm.trans (mapM_eq_ok_iff.mpr hzs))
  rw [hsame]
  exact hanswers

/-- What is read off the answers of a walk, one for one, can be read off the elements. -/
theorem flatMap_eq_of_forall₂ {γ : Type} {R : α → β → Prop} {xs : List α} {ys : List β}
    {f : β → List γ} {g : α → List γ} (h : List.Forall₂ R xs ys)
    (hsame : ∀ x y, R x y → f y = g x) : ys.flatMap f = xs.flatMap g := by
  induction h with
  | nil => rfl
  | cons hhead _ ih => rw [List.flatMap_cons, List.flatMap_cons, hsame _ _ hhead, ih]

/-- A walk that succeeds can be cut at any of its elements. -/
theorem mapM_split {f : α → Except ε β} {front back : List α} {x : α} {ys : List β}
    (h : (front ++ x :: back).mapM f = .ok ys) :
    ∃ before y after, front.mapM f = .ok before ∧ f x = .ok y ∧ back.mapM f = .ok after ∧
      ys = before ++ y :: after := by
  induction front generalizing ys with
  | nil =>
      cases mapM_eq_ok_iff.mp h with
      | @cons _ y _ after hx hback => exact ⟨[], y, after, rfl, hx, mapM_eq_ok_iff.mpr hback, rfl⟩
  | cons z front ih =>
      cases mapM_eq_ok_iff.mp h with
      | @cons _ w _ ys hz hrest =>
          obtain ⟨before, y, after, hfront, hx, hback, hys⟩ := ih (mapM_eq_ok_iff.mpr hrest)
          refine ⟨w :: before, y, after, ?_, hx, hback, by rw [hys, List.cons_append]⟩
          exact mapM_eq_ok_iff.mpr (.cons hz (mapM_eq_ok_iff.mp hfront))

/-- **The earliest failure decides.**  A walk fails with the failure of some
element, and everything in front of that element succeeds. -/
theorem mapM_eq_error_iff {f : α → Except ε β} {xs : List α} {e : ε} :
    xs.mapM f = .error e ↔
      ∃ before x after, xs = before ++ x :: after ∧
        (∀ y ∈ before, ∃ z, f y = .ok z) ∧ f x = .error e := by
  induction xs with
  | nil => simp [pure, Except.pure]
  | cons x xs ih =>
      rw [List.mapM_cons, bind_eq_error_iff]
      constructor
      · intro h
        rcases h with hhead | ⟨y, hhead, hrest⟩
        · exact ⟨[], x, xs, rfl, by simp, hhead⟩
        · rcases bind_eq_error_iff.mp hrest with htail | ⟨_, _, hpure⟩
          · obtain ⟨before, z, after, rfl, hbefore, hz⟩ := ih.mp htail
            refine ⟨x :: before, z, after, rfl, ?_, hz⟩
            intro w hw
            rcases List.mem_cons.mp hw with rfl | hw
            · exact ⟨y, hhead⟩
            · exact hbefore w hw
          · cases hpure
      · intro h
        obtain ⟨before, z, after, heq, hbefore, hz⟩ := h
        cases before with
        | nil =>
            cases heq
            exact Or.inl hz
        | cons w before =>
            cases heq
            obtain ⟨y, hhead⟩ := hbefore x List.mem_cons_self
            have htail : (before ++ z :: after).mapM f = .error e :=
              ih.mpr ⟨before, z, after, rfl,
                fun v hv => hbefore v (List.mem_cons_of_mem _ hv), hz⟩
            exact Or.inr ⟨y, hhead, bind_eq_error_iff.mpr (Or.inl htail)⟩

/-- A list that has an element of some kind has a last one. -/
theorem exists_last {P : α → Prop} {xs : List α} (h : ∃ x ∈ xs, P x) :
    ∃ front x back, xs = front ++ x :: back ∧ P x ∧ ∀ y ∈ back, ¬ P y := by
  induction xs with
  | nil => simp at h
  | cons head rest ih =>
      by_cases hrest : ∃ x ∈ rest, P x
      · obtain ⟨front, x, back, hsplit, hx, hback⟩ := ih hrest
        exact ⟨head :: front, x, back, by rw [hsplit, List.cons_append], hx, hback⟩
      · obtain ⟨x, hx, hP⟩ := h
        rcases List.mem_cons.mp hx with hhead | hx
        · exact ⟨[], head, rest, rfl, hhead ▸ hP, fun y hy hPy => hrest ⟨y, hy, hPy⟩⟩
        · exact absurd ⟨x, hx, hP⟩ hrest

/-- **A fold ends at the first element that fails.**  Everything in front of that
element has been folded, and nothing after it matters. -/
theorem foldlM_eq_error_iff {f : β → α → Except ε β} {xs : List α} {start : β} {e : ε} :
    xs.foldlM f start = .error e ↔
      ∃ before x after middle, xs = before ++ x :: after ∧
        before.foldlM f start = .ok middle ∧ f middle x = .error e := by
  induction xs generalizing start with
  | nil => simp [pure, Except.pure]
  | cons x xs ih =>
      rw [List.foldlM_cons, bind_eq_error_iff]
      constructor
      · intro h
        rcases h with hhead | ⟨next, hhead, hrest⟩
        · exact ⟨[], x, xs, start, rfl, rfl, hhead⟩
        · obtain ⟨before, z, after, middle, rfl, hbefore, hz⟩ := ih.mp hrest
          refine ⟨x :: before, z, after, middle, rfl, ?_, hz⟩
          exact bind_eq_ok_iff.mpr ⟨next, hhead, hbefore⟩
      · intro h
        obtain ⟨before, z, after, middle, heq, hbefore, hz⟩ := h
        cases before with
        | nil =>
            cases heq
            cases hbefore
            exact Or.inl hz
        | cons w before =>
            cases heq
            obtain ⟨next, hhead, hrest⟩ := bind_eq_ok_iff.mp hbefore
            exact Or.inr ⟨next, hhead, ih.mpr ⟨before, z, after, middle, rfl, hrest, hz⟩⟩

end FlowGraph.Traversal
