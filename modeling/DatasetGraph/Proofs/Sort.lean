import Mathlib.Data.List.Forall2
import Mathlib.Data.List.Perm.Basic
import Mathlib.Order.Basic

/-!
# Sorting by a comparison

What is sorted stays sorted (`sortBy_sortBy`), and two lists have one sort exactly if they are
permutations of each other, if only the comparison tells different members apart (`sortBy_eq_iff`).
Members that it does not tell apart stay in their order (`filter_sortBy`).
-/

namespace DatasetGraph

open Std (TransCmp OrientedCmp)

variable {α : Type}

/-- The members of a list, none before a smaller one. -/
def sortBy (cmp : α → α → Ordering) (xs : List α) : List α :=
  xs.mergeSort fun a b => (cmp a b).isLE

theorem sortBy_perm (cmp : α → α → Ordering) (xs : List α) : (sortBy cmp xs).Perm xs :=
  List.mergeSort_perm xs _

@[simp] theorem mem_sortBy {cmp : α → α → Ordering} {xs : List α} {x : α} :
    x ∈ sortBy cmp xs ↔ x ∈ xs := (sortBy_perm cmp xs).mem_iff

/-- Changed once more in the same way, a sorted list stays as it is. -/
theorem map_sortBy_map (cmp : α → α → Ordering) {f : α → α} (hf : ∀ a, f (f a) = f a)
    (xs : List α) : (sortBy cmp (xs.map f)).map f = sortBy cmp (xs.map f) := by
  refine (List.map_congr_left fun a ha => ?_).trans (List.map_id _)
  obtain ⟨b, -, rfl⟩ := List.mem_map.1 (mem_sortBy.1 ha)
  exact hf b

theorem map_sortBy {β : Type} {f : α → β} {cmp : α → α → Ordering} {cmp' : β → β → Ordering}
    {xs : List α} (h : ∀ a ∈ xs, ∀ b ∈ xs, cmp a b = cmp' (f a) (f b)) :
    (sortBy cmp xs).map f = sortBy cmp' (xs.map f) :=
  List.map_mergeSort fun a ha b hb => by rw [h a ha b hb]

/-- What is sorted by an image is the image of what is sorted. -/
theorem sortBy_map {β : Type} {f : α → β} (cmp : β → β → Ordering) (xs : List α) :
    sortBy cmp (xs.map f) = (sortBy (fun a b => cmp (f a) (f b)) xs).map f :=
  (map_sortBy (f := f) fun _ _ _ _ => rfl).symm

/-- Partners stay partners when both lists are sorted, if members compare as their partners do. -/
theorem forall₂_sortBy {β : Type} {R : α → β → Prop} {cmp : α → α → Ordering}
    {cmp' : β → β → Ordering} {xs : List α} {ys : List β} (h : List.Forall₂ R xs ys)
    (hcmp : ∀ p ∈ xs.zip ys, ∀ q ∈ xs.zip ys, cmp p.1 q.1 = cmp' p.2 q.2) :
    List.Forall₂ R (sortBy cmp xs) (sortBy cmp' ys) := by
  -- Both lists are sorted by sorting the pairs of partners.
  have hfst : (sortBy (fun p q => cmp p.1 q.1) (xs.zip ys)).map Prod.fst =
      sortBy cmp ((xs.zip ys).map Prod.fst) := map_sortBy fun _ _ _ _ => rfl
  have hsnd : (sortBy (fun p q => cmp p.1 q.1) (xs.zip ys)).map Prod.snd =
      sortBy cmp' ((xs.zip ys).map Prod.snd) := map_sortBy hcmp
  rw [List.map_fst_zip (Nat.le_of_eq h.length_eq)] at hfst
  rw [List.map_snd_zip (Nat.le_of_eq h.length_eq.symm)] at hsnd
  rw [← hfst, ← hsnd, List.forall₂_map_left_iff, List.forall₂_map_right_iff, List.forall₂_same]
  exact fun p hp => (List.forall₂_iff_zip.1 h).2 (mem_sortBy.1 hp)

section

variable {cmp : α → α → Ordering} [TransCmp cmp]

theorem isLE_total (a b : α) : ((cmp a b).isLE || (cmp b a).isLE) = true := by
  rw [(OrientedCmp.eq_swap : cmp b a = _)]
  cases cmp a b <;> rfl

theorem pairwise_sortBy (xs : List α) :
    (sortBy cmp xs).Pairwise fun a b => (cmp a b).isLE = true :=
  List.pairwise_mergeSort (fun _ _ _ => TransCmp.isLE_trans) isLE_total xs

theorem sortBy_sortBy (xs : List α) : sortBy cmp (sortBy cmp xs) = sortBy cmp xs :=
  List.mergeSort_of_pairwise (pairwise_sortBy xs)

/-- Where the comparison tells different members apart, a list has one sort with its permutations
and with no other list. -/
theorem sortBy_eq_iff {xs ys : List α} (h : ∀ a ∈ xs, ∀ b ∈ xs, cmp a b = .eq → a = b) :
    sortBy cmp xs = sortBy cmp ys ↔ xs.Perm ys := by
  constructor
  · intro heq
    have hxs := sortBy_perm cmp xs
    rw [heq] at hxs
    exact hxs.symm.trans (sortBy_perm cmp ys)
  · intro hperm
    refine List.Perm.eq_of_pairwise ?_ (pairwise_sortBy xs) (pairwise_sortBy ys)
      ((sortBy_perm cmp xs).trans (hperm.trans (sortBy_perm cmp ys).symm))
    intro a b ha hb hab hba
    refine h a (mem_sortBy.1 ha) b (hperm.mem_iff.2 (mem_sortBy.1 hb)) ?_
    exact OrientedCmp.isLE_antisymm hab hba

/-- Members that compare as equal stay in the order in which they were listed. -/
theorem filter_sortBy {p : α → Bool} {xs : List α}
    (h : ∀ a ∈ xs, ∀ b ∈ xs, p a = true → p b = true → cmp a b = .eq) :
    (sortBy cmp xs).filter p = xs.filter p := by
  have hordered : (xs.filter p).Pairwise fun a b => (cmp a b).isLE = true := by
    refine List.pairwise_of_forall_mem_list fun a ha b hb => ?_
    obtain ⟨ha, hpa⟩ := List.mem_filter.1 ha
    obtain ⟨hb, hpb⟩ := List.mem_filter.1 hb
    rw [h a ha b hb hpa hpb]
    rfl
  have hsub : (xs.filter p).Sublist (sortBy cmp xs) := by
    exact List.sublist_mergeSort (fun _ _ _ => TransCmp.isLE_trans) isLE_total hordered
      List.filter_sublist
  have hfilter := hsub.filter p
  rw [List.filter_filter] at hfilter
  simp only [Bool.and_self] at hfilter
  exact (hfilter.eq_of_length ((sortBy_perm cmp xs).filter p).length_eq.symm).symm

end

end DatasetGraph
