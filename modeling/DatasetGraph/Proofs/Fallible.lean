import Mathlib.Data.List.Forall2

/-!
# Lists of steps that may fail

Reading a store is a list of steps each of which may fail: decode every node, visit every node of a
frontier, expand every root of a page.  A list of steps succeeds exactly when each step does
(`mapM_eq_ok_iff`), and where each step is known to succeed the fallible operation is the plain one
on lists.  If it fails, it does so as the first of its steps that fails (`mapM_eq_error_iff_first`).
A fold of fallible steps is handled by what it keeps: `exists_foldlM_ok`.

Two computations are compared by `Follows`: the first comes to what the second does, or it fails in
one way that is told beforehand, and for a reason.  Sequences and folds of steps that follow others
follow their sequences and folds.
-/

namespace DatasetGraph.Fallible

variable {α β ε ε' : Type}

@[simp] theorem pure_eq_ok_iff {a b : α} : (pure a : Except ε α) = .ok b ↔ a = b :=
  Except.ok.injEq a b ▸ .rfl

@[simp] theorem map_eq_ok_iff {f : α → β} {x : Except ε α} {b : β} :
    f <$> x = .ok b ↔ ∃ a, x = .ok a ∧ f a = b := by
  cases x <;> simp [Functor.map, Except.map]

@[simp] theorem mapError_eq_ok_iff {f : ε → ε'} {x : Except ε α} {a : α} :
    x.mapError f = .ok a ↔ x = .ok a := by
  cases x <;> simp [Except.mapError]

@[simp] theorem mapError_eq_error_iff {f : ε → ε'} {x : Except ε α} {e : ε'} :
    x.mapError f = .error e ↔ ∃ e', x = .error e' ∧ f e' = e := by
  cases x <;> simp [Except.mapError]

/-- A step after another succeeds exactly when both do. -/
theorem bind_eq_ok_iff {x : Except ε α} {f : α → Except ε β} {b : β} :
    (x >>= f) = .ok b ↔ ∃ a, x = .ok a ∧ f a = .ok b := by
  cases x with
  | error e =>
    constructor
    · intro h
      cases h
    · intro hx
      obtain ⟨a, ha, _⟩ := hx
      cases ha
  | ok a =>
    constructor
    · exact fun h => ⟨a, rfl, h⟩
    · intro hx
      obtain ⟨a', ha, h⟩ := hx
      cases ha
      exact h

/-- A step after another fails exactly when one of them does, the second only after the first. -/
theorem bind_eq_error_iff {x : Except ε α} {f : α → Except ε β} {e : ε} :
    (x >>= f) = .error e ↔ x = .error e ∨ ∃ a, x = .ok a ∧ f a = .error e := by
  cases x with
  | error e' =>
    constructor
    · exact fun h => .inl (congrArg _ (Except.error.inj h))
    · rintro (h | ⟨_, ha, _⟩)
      · exact congrArg _ (Except.error.inj h)
      · cases ha
  | ok a =>
    constructor
    · exact fun h => .inr ⟨a, rfl, h⟩
    · rintro (h | ⟨_, ha, h⟩)
      · cases h
      · cases ha
        exact h

/-- A step that fails in one way only, and when. -/
theorem eq_error_iff {x : Except ε α} {e₀ e : ε} {bad : Prop}
    (hbad : bad → x = .error e₀) (hgood : ¬bad → ∃ a, x = .ok a) :
    x = .error e ↔ bad ∧ e = e₀ := by
  by_cases h : bad
  · rw [hbad h, and_iff_right h, Except.error.injEq]
    exact eq_comm
  · obtain ⟨a, ha⟩ := hgood h
    rw [ha]
    exact ⟨nofun, fun hx => absurd hx.1 h⟩

/-- A list of steps succeeds exactly when each of them does, with the results in their order. -/
theorem mapM_eq_ok_iff {f : α → Except ε β} {xs : List α} {ys : List β} :
    xs.mapM f = .ok ys ↔ List.Forall₂ (fun x y => f x = .ok y) xs ys := by
  induction xs generalizing ys with
  | nil =>
    rw [List.mapM_nil, List.forall₂_nil_left_iff]
    exact ⟨fun h => (Except.ok.inj h).symm, fun h => h ▸ rfl⟩
  | cons x xs ih =>
    rw [List.mapM_cons, List.forall₂_cons_left_iff]
    cases hx : f x with
    | error e =>
      constructor
      · intro h
        cases h
      · rintro ⟨y, _, hy, _⟩
        cases hy
    | ok y =>
      cases hxs : xs.mapM f with
      | error e =>
        constructor
        · intro h
          cases h
        · rintro ⟨_, zs, _, hzs, _⟩
          rw [ih.2 hzs] at hxs
          cases hxs
      | ok zs =>
        constructor
        · intro h
          exact ⟨y, zs, rfl, ih.1 hxs, (Except.ok.inj h).symm⟩
        · rintro ⟨_, zs', hy, hzs, rfl⟩
          cases hy
          rw [ih.2 hzs] at hxs
          cases hxs
          rfl

/-- Steps that all succeed make a plain `map`. -/
theorem mapM_eq_ok_map {f : α → Except ε β} {g : α → β} {xs : List α}
    (h : ∀ x ∈ xs, f x = .ok (g x)) : xs.mapM f = .ok (xs.map g) := by
  rw [mapM_eq_ok_iff, List.forall₂_map_right_iff, List.forall₂_same]
  exact h

theorem mapM_congr {f g : α → Except ε β} {xs : List α} (h : ∀ x ∈ xs, f x = g x) :
    xs.mapM f = xs.mapM g := by
  induction xs with
  | nil => rfl
  | cons x xs ih =>
    obtain ⟨hx, hxs⟩ := List.forall_mem_cons.1 h
    rw [List.mapM_cons, List.mapM_cons, hx, ih hxs]

/-- Steps of each of which something is known have results of which all that is known. -/
theorem exists_mapM_ok {f : α → Except ε β} {P : α → β → Prop} {xs : List α}
    (h : ∀ x ∈ xs, ∃ y, f x = .ok y ∧ P x y) : ∃ ys, xs.mapM f = .ok ys ∧ List.Forall₂ P xs ys := by
  induction xs with
  | nil => exact ⟨[], rfl, List.Forall₂.nil⟩
  | cons x xs ih =>
    obtain ⟨y, hy, hP⟩ := h x List.mem_cons_self
    obtain ⟨ys, hys, hPs⟩ := ih fun z hz => h z (List.mem_cons_of_mem _ hz)
    refine ⟨y :: ys, ?_, List.Forall₂.cons hP hPs⟩
    rw [List.mapM_cons, hy, hys]
    rfl

/-- A list of steps succeeds exactly if each of them does. -/
theorem exists_mapM_ok_iff {f : α → Except ε β} {xs : List α} :
    (∃ ys, xs.mapM f = .ok ys) ↔ ∀ x ∈ xs, ∃ y, f x = .ok y := by
  constructor
  · rintro ⟨ys, hys⟩
    rw [mapM_eq_ok_iff] at hys
    induction hys with
    | nil => nofun
    | cons hxy _ ih => exact List.forall_mem_cons.2 ⟨⟨_, hxy⟩, ih⟩
  · intro h
    obtain ⟨ys, hys, _⟩ := exists_mapM_ok (P := fun _ _ => True) fun x hx =>
      (h x hx).imp fun _ hy => ⟨hy, trivial⟩
    exact ⟨ys, hys⟩

theorem mapM_append_eq_ok {f : α → Except ε β} {xs xs' : List α} {ys ys' : List β}
    (h : xs.mapM f = .ok ys) (h' : xs'.mapM f = .ok ys') :
    (xs ++ xs').mapM f = .ok (ys ++ ys') := by
  rw [List.mapM_append, h, h']
  rfl

theorem mem_of_mapM_eq_ok {f : α → Except ε β} {xs : List α} {ys : List β}
    (h : xs.mapM f = .ok ys) {y : β} : y ∈ ys ↔ ∃ x ∈ xs, f x = .ok y := by
  rw [mapM_eq_ok_iff] at h
  induction h with
  | nil => simp
  | @cons x y' xs ys hxy _ ih =>
    rw [List.mem_cons, ih, List.exists_mem_cons_iff, hxy]
    exact or_congr_left ⟨fun h => h ▸ rfl, fun h => (Except.ok.inj h).symm⟩

/-- Steps that have only one way to fail fail together exactly when one of them does. -/
theorem mapM_eq_error_iff {f : α → Except ε β} {e : ε} {xs : List α}
    (h : ∀ x ∈ xs, ∀ e', f x = .error e' → e' = e) :
    xs.mapM f = .error e ↔ ∃ x ∈ xs, f x = .error e := by
  induction xs with
  | nil => exact ⟨nofun, nofun⟩
  | cons x xs ih =>
    obtain ⟨hhead, htail⟩ := List.forall_mem_cons.1 h
    rw [List.mapM_cons, List.exists_mem_cons_iff, ← ih htail]
    cases hx : f x with
    | error e' =>
      cases hhead e' hx
      exact ⟨fun _ => .inl rfl, fun _ => rfl⟩
    | ok y =>
      cases xs.mapM f with
      | error e' => exact ⟨.inr, fun hor => hor.elim nofun fun hxs => hxs⟩
      | ok ys => exact ⟨nofun, fun hor => hor.elim nofun nofun⟩

open Classical in
/-- Steps that would all succeed, but some of which fail in one way. -/
theorem mapM_eq_ite {f g : α → Except ε β} {e : ε} {bad : α → Prop} {xs : List α}
    (hf : ∀ x ∈ xs, f x = if bad x then .error e else g x) (hg : ∃ ys, xs.mapM g = .ok ys) :
    xs.mapM f = if ∃ x ∈ xs, bad x then .error e else xs.mapM g := by
  obtain ⟨ys, hys⟩ := hg
  split
  · next h =>
    obtain ⟨x, hx, hbad⟩ := h
    refine (mapM_eq_error_iff ?_).2 ⟨x, hx, by rw [hf x hx, if_pos hbad]⟩
    intro y hy e' he'
    rw [hf y hy] at he'
    split at he'
    · exact (Except.error.inj he').symm
    · obtain ⟨b, hb⟩ := exists_mapM_ok_iff.1 ⟨ys, hys⟩ y hy
      rw [hb] at he'
      cases he'
  · next h =>
    exact mapM_congr fun x hx => by rw [hf x hx, if_neg fun hbad => h ⟨x, hx, hbad⟩]

/-- A list of steps fails as the first of them that does. -/
theorem mapM_eq_error_iff_first {f : α → Except ε β} {e : ε} {xs : List α} :
    xs.mapM f = .error e ↔ ∃ before x after, xs = before ++ x :: after ∧
      (∀ y ∈ before, ∃ b, f y = .ok b) ∧ f x = .error e := by
  induction xs with
  | nil =>
    constructor
    · nofun
    · rintro ⟨before, x, after, hxs, _⟩
      cases before <;> cases hxs
  | cons x xs ih =>
    rw [List.mapM_cons, bind_eq_error_iff]
    constructor
    · rintro (hx | ⟨b, hx, hrest⟩)
      · exact ⟨[], x, xs, rfl, nofun, hx⟩
      · obtain hrest | ⟨_, _, hnone⟩ := bind_eq_error_iff.1 hrest
        · obtain ⟨before, y, after, rfl, hbefore, hy⟩ := ih.1 hrest
          exact ⟨x :: before, y, after, rfl, List.forall_mem_cons.2 ⟨⟨b, hx⟩, hbefore⟩, hy⟩
        · cases hnone
    · rintro ⟨before, y, after, hxs, hbefore, hy⟩
      cases before with
      | nil =>
        cases hxs
        exact .inl hy
      | cons z before =>
        cases hxs
        obtain ⟨⟨b, hz⟩, hbefore⟩ := List.forall_mem_cons.1 hbefore
        exact .inr ⟨b, hz, bind_eq_error_iff.2 (.inl (ih.2 ⟨before, y, after, rfl, hbefore, hy⟩))⟩

/-- Choices that all succeed make a plain `filter`. -/
theorem filterM_eq_ok_filter {f : α → Except ε Bool} {p : α → Bool} {xs : List α}
    (h : ∀ x ∈ xs, f x = .ok (p x)) : xs.filterM f = .ok (xs.filter p) := by
  -- The definition collects what is kept in reverse, so the induction is on its accumulator.
  have go : ∀ (xs acc : List α), (∀ x ∈ xs, f x = .ok (p x)) →
      xs.filterAuxM f acc = .ok ((xs.filter p).reverse ++ acc) := by
    intro xs
    induction xs with
    | nil => intro acc _; rfl
    | cons x xs ih =>
      intro acc hxs
      have hx := hxs x List.mem_cons_self
      have hrest := fun acc => ih acc fun y hy => hxs y (List.mem_cons_of_mem _ hy)
      show (f x >>= fun b => xs.filterAuxM f (cond b (x :: acc) acc)) = _
      rw [hx]
      show xs.filterAuxM f (cond (p x) (x :: acc) acc) = _
      rw [hrest]
      cases hp : p x <;> simp [hp]
  show (xs.filterAuxM f [] >>= fun kept => pure kept.reverse) = _
  rw [go xs [] h]
  show Except.ok (((xs.filter p).reverse ++ []).reverse) = _
  simp

open Classical in
/-- Choices that would all succeed, but some of which fail in one way. -/
theorem filterM_eq_ite {f g : α → Except ε Bool} {e : ε} {bad : α → Prop} {xs : List α}
    (hf : ∀ x ∈ xs, f x = if bad x then .error e else g x) (hg : ∀ x ∈ xs, ∃ b, g x = .ok b) :
    xs.filterM f = if ∃ x ∈ xs, bad x then .error e else xs.filterM g := by
  -- As above, the induction is on the accumulator of the definition.
  have go : ∀ (xs acc : List α), (∀ x ∈ xs, f x = if bad x then .error e else g x) →
      (∀ x ∈ xs, ∃ b, g x = .ok b) → xs.filterAuxM f acc =
        if ∃ x ∈ xs, bad x then .error e else xs.filterAuxM g acc := by
    intro xs
    induction xs with
    | nil =>
      intro acc _ _
      rw [if_neg (by simp)]
      rfl
    | cons x xs ih =>
      intro acc hf hg
      obtain ⟨hx, hfs⟩ := List.forall_mem_cons.1 hf
      obtain ⟨⟨b, hb⟩, hgs⟩ := List.forall_mem_cons.1 hg
      show (f x >>= fun b => xs.filterAuxM f (cond b (x :: acc) acc)) =
        if _ then _ else (g x >>= fun b => xs.filterAuxM g (cond b (x :: acc) acc))
      rw [hx, hb]
      by_cases hbad : bad x
      · rw [if_pos hbad, if_pos ⟨x, List.mem_cons_self, hbad⟩]
        rfl
      · rw [if_neg hbad]
        show xs.filterAuxM f _ = if _ then _ else xs.filterAuxM g _
        rw [ih _ hfs hgs]
        simp only [List.exists_mem_cons_iff, hbad, false_or]
  show (xs.filterAuxM f [] >>= fun kept => pure kept.reverse) =
    if _ then _ else (xs.filterAuxM g [] >>= fun kept => pure kept.reverse)
  rw [go xs [] hf hg]
  split
  · rfl
  · rfl

/-- A fold of steps succeeds and keeps what each step keeps; what is kept may speak of the steps
that were taken so far. -/
theorem exists_foldlM_ok {f : β → α → Except ε β} (motive : List α → β → Prop) {b : β}
    {xs : List α} (start : motive [] b)
    (step : ∀ done x b, x ∈ xs → motive done b → ∃ b', f b x = .ok b' ∧ motive (done ++ [x]) b') :
    ∃ b', xs.foldlM f b = .ok b' ∧ motive xs b' := by
  have go : ∀ (xs : List α) (done : List α) (b : β), motive done b →
      (∀ done x b, x ∈ xs → motive done b → ∃ b', f b x = .ok b' ∧ motive (done ++ [x]) b') →
      ∃ b', xs.foldlM f b = .ok b' ∧ motive (done ++ xs) b' := by
    intro xs
    induction xs with
    | nil => exact fun done b hb _ => ⟨b, rfl, by rwa [List.append_nil]⟩
    | cons x xs ih =>
      intro done b hb step
      obtain ⟨b₁, hx, hb₁⟩ := step done x b List.mem_cons_self hb
      obtain ⟨b', hxs, hb'⟩ :=
        ih (done ++ [x]) b₁ hb₁ fun d y c hy => step d y c (List.mem_cons_of_mem _ hy)
      refine ⟨b', ?_, by rwa [List.append_assoc] at hb'⟩
      rw [List.foldlM_cons, hx]
      exact hxs
  exact go xs [] b start step

/-- What each step of a fold keeps holds of the result. -/
theorem of_foldlM_eq_ok {f : β → α → Except ε β} (motive : β → Prop) {b b' : β} {xs : List α}
    (h : xs.foldlM f b = .ok b') (start : motive b)
    (step : ∀ x ∈ xs, ∀ b b', motive b → f b x = .ok b' → motive b') : motive b' := by
  induction xs generalizing b with
  | nil =>
    cases h
    exact start
  | cons x xs ih =>
    rw [List.foldlM_cons] at h
    obtain ⟨c, hx, hxs⟩ := bind_eq_ok_iff.1 h
    obtain ⟨hstep, hrest⟩ := List.forall_mem_cons.1 step
    exact ih hxs (hstep b c start hx) hrest

/-- What each step of a fold keeps holds of the result, and what each step needs held of its
member. -/
theorem forall_of_foldlM_eq_ok {f : β → α → Except ε β} (motive : β → Prop) {Q : α → Prop}
    {b b' : β} {xs : List α} (h : xs.foldlM f b = .ok b') (start : motive b)
    (step : ∀ x ∈ xs, ∀ b b', motive b → f b x = .ok b' → motive b' ∧ Q x) :
    motive b' ∧ ∀ x ∈ xs, Q x := by
  induction xs generalizing b with
  | nil =>
    cases h
    exact ⟨start, nofun⟩
  | cons x xs ih =>
    rw [List.foldlM_cons] at h
    obtain ⟨c, hx, hxs⟩ := bind_eq_ok_iff.1 h
    obtain ⟨hstep, hrest⟩ := List.forall_mem_cons.1 step
    obtain ⟨hc, hQ⟩ := hstep b c start hx
    obtain ⟨hb', hQs⟩ := ih hxs hc hrest
    exact ⟨hb', List.forall_mem_cons.2 ⟨hQ, hQs⟩⟩

/-! ## When a computation fails -/

/-- The computation fails in the given way exactly if something is the case. -/
def FailsIf (e : ε) (bad : Prop) (x : Except ε α) : Prop :=
  (bad → x = .error e) ∧ (¬bad → ∃ a, x = .ok a)

namespace FailsIf

variable {e : ε} {bad bad' : Prop} {x : Except ε α}

theorem of_eq_ite [Decidable bad] {y : Except ε α} (hx : x = if bad then .error e else y)
    (hy : ∃ a, y = .ok a) : FailsIf e bad x :=
  ⟨fun h => by rw [hx, if_pos h], fun h => by rwa [hx, if_neg h]⟩

theorem exists_ok (h : FailsIf e bad x) (hgood : ¬bad) : ∃ a, x = .ok a := h.2 hgood

end FailsIf

/-! ## One computation after another -/

/-- The first comes to what the second does, or it fails in the given way for a reason. -/
def Follows (e : ε) (reason : Prop) (x y : Except ε α) : Prop := x = y ∨ x = .error e ∧ reason

namespace Follows

variable {e : ε} {reason reason' : Prop} {x y : Except ε α}

theorem refl (x : Except ε α) : Follows e reason x x := .inl rfl

theorem imp (h : Follows e reason x y) (himp : reason → reason') : Follows e reason' x y :=
  h.imp_right fun hx => ⟨hx.1, himp hx.2⟩

theorem eq_of_ok (h : Follows e reason x y) {a : α} (hx : x = .ok a) : y = .ok a := by
  rcases h with rfl | ⟨herror, _⟩
  · exact hx
  · rw [hx] at herror
    cases herror

theorem bind {f g : α → Except ε β} (h : Follows e reason x y)
    (hfg : ∀ a, y = .ok a → Follows e reason (f a) (g a)) :
    Follows e reason (x >>= f) (y >>= g) := by
  rcases h with rfl | ⟨rfl, hreason⟩
  · cases x with
    | error _ => exact .inl rfl
    | ok a => exact hfg a rfl
  · exact .inr ⟨rfl, hreason⟩

/-- After a step that can only fail in the given way comes what comes after its result. -/
theorem bind_ok {f : α → Except ε β} {a : α} (h : Follows e reason x (.ok a)) :
    Follows e reason (x >>= f) (f a) :=
  h.bind fun _ hb => Except.ok.inj hb ▸ .refl (f a)

/-- What the steps of the second fold keep may be needed for those of the first to follow. -/
theorem foldlM {f g : β → α → Except ε β} (motive : β → Prop) {xs : List α} {b : β}
    (start : motive b) (step : ∀ x ∈ xs, ∀ b, motive b → Follows e reason (f b x) (g b x) ∧
      ∀ b', g b x = .ok b' → motive b') :
    Follows e reason (xs.foldlM f b) (xs.foldlM g b) := by
  induction xs generalizing b with
  | nil => exact .refl _
  | cons x xs ih =>
    obtain ⟨hx, hxs⟩ := List.forall_mem_cons.1 step
    rw [List.foldlM_cons, List.foldlM_cons]
    exact (hx b start).1.bind fun b' hb' => ih ((hx b start).2 b' hb') hxs

/-- A fold of steps each of which follows a plain one. -/
theorem foldlM_pure {f : β → α → Except ε β} {g : β → α → β}
    (h : ∀ b x, Follows e reason (f b x) (.ok (g b x))) (xs : List α) (b : β) :
    Follows e reason (xs.foldlM f b) (.ok (xs.foldl g b)) := by
  induction xs generalizing b with
  | nil => exact .refl _
  | cons x xs ih =>
    rw [List.foldlM_cons]
    rcases h b x with hx | ⟨hx, hreason⟩
    · rw [hx]
      exact ih (g b x)
    · rw [hx]
      exact .inr ⟨rfl, hreason⟩

end Follows

end DatasetGraph.Fallible
