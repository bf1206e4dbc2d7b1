/-!
# Lists without repeats

Labels, marked nodes and the ids of a page are lists in which nothing comes twice and the order of
first occurrence is kept.  `addNew xs ys` extends `xs` by the members of `ys` that are new, and
`distinct` builds such a list from nothing.

The two facts that carry the rest: what is in the result (`mem_addNew`), and that nothing comes
twice (`nodup_addNew`).  Where members count as the same by a key of theirs, `distinctOn` keeps the
first of each key.
-/

namespace DatasetGraph

variable {α : Type} [DecidableEq α]

/-- Put `y` at the end of a list that does not hold it. -/
def insertNew (xs : List α) (y : α) : List α := if y ∈ xs then xs else xs ++ [y]

/-- Extend a list by the members of another that are new. -/
def addNew (xs ys : List α) : List α := ys.foldl insertNew xs

/-- The first occurrences in a list. -/
def distinct (ys : List α) : List α := addNew [] ys

@[simp] theorem addNew_nil (xs : List α) : addNew xs [] = xs := rfl

@[simp] theorem addNew_cons (xs : List α) (y : α) (ys : List α) :
    addNew xs (y :: ys) = addNew (insertNew xs y) ys := rfl

theorem addNew_append (xs ys zs : List α) : addNew xs (ys ++ zs) = addNew (addNew xs ys) zs :=
  List.foldl_append

@[simp] theorem mem_insertNew {xs : List α} {y z : α} : z ∈ insertNew xs y ↔ z ∈ xs ∨ z = y := by
  unfold insertNew
  split
  · next h => exact ⟨.inl, fun hz => hz.elim id (· ▸ h)⟩
  · simp

@[simp] theorem mem_addNew {xs ys : List α} {z : α} : z ∈ addNew xs ys ↔ z ∈ xs ∨ z ∈ ys := by
  induction ys generalizing xs with
  | nil => simp
  | cons y ys ih => simp [ih, or_assoc]

@[simp] theorem mem_distinct {ys : List α} {z : α} : z ∈ distinct ys ↔ z ∈ ys := by
  simp [distinct]

theorem nodup_insertNew {xs : List α} (h : xs.Nodup) (y : α) : (insertNew xs y).Nodup := by
  unfold insertNew
  split
  · exact h
  · next hy => exact List.nodup_append.2 ⟨h, by simp, by grind⟩

theorem nodup_addNew {xs : List α} (h : xs.Nodup) (ys : List α) : (addNew xs ys).Nodup := by
  induction ys generalizing xs with
  | nil => exact h
  | cons y ys ih => exact ih (nodup_insertNew h y)

theorem nodup_distinct (ys : List α) : (distinct ys).Nodup := nodup_addNew List.nodup_nil ys

/-- Members that are all there already change nothing. -/
theorem addNew_of_subset {xs ys : List α} (h : ∀ y ∈ ys, y ∈ xs) : addNew xs ys = xs := by
  induction ys with
  | nil => rfl
  | cons y ys ih =>
    rw [addNew_cons, insertNew, if_pos (h y List.mem_cons_self)]
    exact ih fun z hz => h z (List.mem_cons_of_mem _ hz)

/-- Members that are all new and come once are put at the end. -/
theorem addNew_of_disjoint {xs ys : List α} (hys : ys.Nodup) (h : ∀ y ∈ ys, y ∉ xs) :
    addNew xs ys = xs ++ ys := by
  induction ys generalizing xs with
  | nil => simp
  | cons y ys ih =>
    obtain ⟨hy, hys⟩ := List.nodup_cons.1 hys
    rw [addNew_cons, insertNew, if_neg (h y List.mem_cons_self), ih hys]
    · simp
    · intro z hz hmem
      rcases List.mem_append.1 hmem with hmem | hmem
      · exact h z (List.mem_cons_of_mem _ hz) hmem
      · exact hy (List.mem_singleton.1 hmem ▸ hz)

theorem distinct_of_nodup {ys : List α} (h : ys.Nodup) : distinct ys = ys := by
  rw [distinct, addNew_of_disjoint h fun _ _ => List.not_mem_nil, List.nil_append]

/-! ## By a key -/

variable {β : Type}

/-- The members whose key is not among those seen, nor that of an earlier member. -/
def unseenOn (key : β → α) (seen : List α) : List β → List β
  | [] => []
  | x :: xs =>
    if key x ∈ seen then unseenOn key seen xs else x :: unseenOn key (key x :: seen) xs

/-- The first member of each key. -/
def distinctOn (key : β → α) (xs : List β) : List β := unseenOn key [] xs

theorem unseenOn_sublist (key : β → α) (seen : List α) (xs : List β) :
    (unseenOn key seen xs).Sublist xs := by
  induction xs generalizing seen with
  | nil => exact List.Sublist.slnil
  | cons x xs ih =>
    rw [unseenOn]
    split
    · exact (ih _).cons _
    · exact (ih _).cons_cons _

theorem distinctOn_sublist (key : β → α) (xs : List β) : (distinctOn key xs).Sublist xs :=
  unseenOn_sublist key [] xs

/-- The keys of the members that are kept are those that come and were not seen. -/
theorem mem_map_unseenOn {key : β → α} {seen : List α} {xs : List β} {k : α} :
    k ∈ (unseenOn key seen xs).map key ↔ k ∈ xs.map key ∧ k ∉ seen := by
  induction xs generalizing seen with
  | nil => simp [unseenOn]
  | cons x xs ih =>
    rw [unseenOn]
    split
    · next h => rw [ih]; grind
    · next h => rw [List.map_cons, List.mem_cons, ih]; grind

@[simp] theorem mem_map_distinctOn {key : β → α} {xs : List β} {k : α} :
    k ∈ (distinctOn key xs).map key ↔ k ∈ xs.map key := by
  simp [distinctOn, mem_map_unseenOn, -List.mem_map]

theorem nodup_map_unseenOn (key : β → α) (seen : List α) (xs : List β) :
    ((unseenOn key seen xs).map key).Nodup := by
  induction xs generalizing seen with
  | nil => exact List.nodup_nil
  | cons x xs ih =>
    rw [unseenOn]
    split
    · exact ih _
    · rw [List.map_cons, List.nodup_cons]
      exact ⟨fun h => (mem_map_unseenOn.1 h).2 List.mem_cons_self, ih _⟩

/-- Only which keys were seen matters. -/
theorem unseenOn_congr {key : β → α} {seen seen' : List α} (h : ∀ k, k ∈ seen ↔ k ∈ seen')
    (xs : List β) : unseenOn key seen xs = unseenOn key seen' xs := by
  induction xs generalizing seen seen' with
  | nil => rfl
  | cons x xs ih =>
    rw [unseenOn, unseenOn, ih h]
    have hcons : ∀ k, k ∈ key x :: seen ↔ k ∈ key x :: seen' := by
      intro k
      rw [List.mem_cons, List.mem_cons, h]
    rw [ih hcons]
    by_cases hx : key x ∈ seen'
    · rw [if_pos hx, if_pos ((h _).2 hx)]
    · rw [if_neg hx, if_neg fun hmem => hx ((h _).1 hmem)]

theorem unseenOn_append (key : β → α) (seen : List α) (xs ys : List β) :
    unseenOn key seen (xs ++ ys) = unseenOn key seen xs ++ unseenOn key (xs.map key ++ seen) ys := by
  induction xs generalizing seen with
  | nil => rfl
  | cons x xs ih =>
    rw [List.cons_append, unseenOn, unseenOn, List.map_cons]
    split
    · next h =>
      rw [ih]
      congr 1
      apply unseenOn_congr
      intro k
      rw [List.mem_append, List.mem_append, List.mem_cons]
      constructor
      · exact fun hk => hk.imp .inr id
      · rintro ((rfl | hk) | hk)
        · exact .inr h
        · exact .inl hk
        · exact .inr hk
    · rw [ih, List.cons_append]
      congr 2
      apply unseenOn_congr
      intro k
      simp only [List.mem_append, List.mem_cons]
      exact or_left_comm.trans or_assoc.symm

/-- Of members whose keys come once, those with a new key are left. -/
theorem unseenOn_of_nodup {key : β → α} {xs : List β} (h : (xs.map key).Nodup) (seen : List α) :
    unseenOn key seen xs = xs.filter fun x => key x ∉ seen := by
  induction xs generalizing seen with
  | nil => rfl
  | cons x xs ih =>
    obtain ⟨hx, hxs⟩ := List.nodup_cons.1 h
    rw [unseenOn, ih hxs, ih hxs, List.filter_cons]
    by_cases hseen : key x ∈ seen
    · simp [hseen]
    · rw [if_neg hseen, if_pos (by simpa using hseen)]
      congr 1
      apply List.filter_congr
      intro y hy
      have hne : key y ≠ key x := by
        intro hyx
        exact hx (hyx ▸ List.mem_map_of_mem hy)
      simp [hne]

/-- Where the key tells members apart, only repeats are dropped. -/
theorem mem_distinctOn_of_injOn {key : β → α} {xs : List β}
    (h : ∀ x ∈ xs, ∀ y ∈ xs, key x = key y → x = y) {x : β} : x ∈ distinctOn key xs ↔ x ∈ xs := by
  constructor
  · exact fun hx => (distinctOn_sublist key xs).subset hx
  · intro hx
    have hk : key x ∈ (distinctOn key xs).map key :=
      mem_map_distinctOn.2 (List.mem_map.2 ⟨x, hx, rfl⟩)
    obtain ⟨y, hy, hyx⟩ := List.mem_map.1 hk
    rwa [← h y ((distinctOn_sublist key xs).subset hy) x hx hyx]

theorem nodup_map_distinctOn (key : β → α) (xs : List β) : ((distinctOn key xs).map key).Nodup :=
  nodup_map_unseenOn key [] xs

end DatasetGraph
