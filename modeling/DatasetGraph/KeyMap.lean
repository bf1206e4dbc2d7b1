/-!
# Maps with text keys

Properties of nodes and edges, and the objects of a document, are finite maps whose keys are texts.
A `KeyMap` keeps its entries in a list with strictly increasing keys, so a map has one
representation and its entries come in one order wherever they are listed or written.

A map is determined by what it holds under each key (`ext_get?`), and each operation has one
equation that says so: `get?_insert`, `get?_erase`, `get?_filter`, `get?_mapValues`.
-/

namespace DatasetGraph

/-- A finite map from texts, its entries in increasing order of their keys. -/
structure KeyMap (α : Type) where
  entries : List (String × α)
  sorted : entries.Pairwise fun a b => a.1 < b.1
deriving DecidableEq

namespace KeyMap

variable {α β : Type}

/-! ## Sorted lists of entries -/

/-- Put an entry in its place, instead of the one with its key if there is one. -/
def insertEntry (k : String) (v : α) : List (String × α) → List (String × α)
  | [] => [(k, v)]
  | (k', v') :: rest =>
    if k < k' then (k, v) :: (k', v') :: rest
    else if k = k' then (k, v) :: rest
    else (k', v') :: insertEntry k v rest

theorem mem_insertEntry {k : String} {v : α} {e : String × α} :
    ∀ {l : List (String × α)}, e ∈ insertEntry k v l → e = (k, v) ∨ e ∈ l
  | [], h => by simpa [insertEntry] using h
  | (k', v') :: rest, h => by
    rw [insertEntry] at h
    split at h
    · simpa using h
    · split at h
      · rcases List.mem_cons.1 h with h | h
        · exact .inl h
        · exact .inr (List.mem_cons_of_mem _ h)
      · rcases List.mem_cons.1 h with h | h
        · exact .inr (h ▸ List.mem_cons_self)
        · rcases mem_insertEntry h with h | h
          · exact .inl h
          · exact .inr (List.mem_cons_of_mem _ h)

theorem lt_of_not_lt_of_ne {a b : String} (h : ¬a < b) (hne : a ≠ b) : b < a := by
  by_cases hba : b < a
  · exact hba
  · exact absurd (String.le_antisymm (String.not_lt.1 hba) (String.not_lt.1 h)) hne

theorem pairwise_insertEntry (k : String) (v : α) :
    ∀ {l : List (String × α)}, l.Pairwise (fun a b => a.1 < b.1) →
      (insertEntry k v l).Pairwise fun a b => a.1 < b.1
  | [], _ => by simp [insertEntry]
  | (k', v') :: rest, h => by
    obtain ⟨hk', hrest⟩ := List.pairwise_cons.1 h
    rw [insertEntry]
    split
    · next hlt =>
      refine List.pairwise_cons.2 ⟨fun e he => ?_, h⟩
      rcases List.mem_cons.1 he with rfl | he
      · exact hlt
      · exact String.lt_trans hlt (hk' e he)
    · next hnlt =>
      split
      · next heq => exact List.pairwise_cons.2 ⟨fun e he => heq ▸ hk' e he, hrest⟩
      · next hne =>
        refine List.pairwise_cons.2 ⟨fun e he => ?_, pairwise_insertEntry k v hrest⟩
        rcases mem_insertEntry he with rfl | he
        · exact lt_of_not_lt_of_ne hnlt hne
        · exact hk' e he

theorem lookup_cons_eq (j k : String) (v : α) (l : List (String × α)) :
    ((k, v) :: l).lookup j = if j = k then some v else l.lookup j := by
  rw [List.lookup_cons]
  by_cases h : j = k
  · simp [h]
  · simp [h, beq_false_of_ne h]

theorem lookup_insertEntry (k j : String) (v : α) (l : List (String × α)) :
    (insertEntry k v l).lookup j = if j = k then some v else l.lookup j := by
  induction l with
  | nil => simp [insertEntry, lookup_cons_eq]
  | cons e rest ih =>
    obtain ⟨k', v'⟩ := e
    rw [insertEntry]
    split
    · rw [lookup_cons_eq]
    · split
      · next heq => subst heq; grind [lookup_cons_eq]
      · next hne => grind [lookup_cons_eq]

/-! ## The operations -/

/-- The map with no entry. -/
def empty : KeyMap α := ⟨[], List.Pairwise.nil⟩

instance : Inhabited (KeyMap α) := ⟨empty⟩

/-- What the map holds under a key. -/
def get? (m : KeyMap α) (k : String) : Option α := m.entries.lookup k

/-- Whether the map holds something under a key. -/
def contains (m : KeyMap α) (k : String) : Bool := (m.get? k).isSome

/-- Whether the map has no entry. -/
def isEmpty (m : KeyMap α) : Bool := m.entries.isEmpty

/-- The keys, in increasing order. -/
def keys (m : KeyMap α) : List String := m.entries.map Prod.fst

/-- Hold `v` under `k`, whatever was there. -/
def insert (m : KeyMap α) (k : String) (v : α) : KeyMap α :=
  ⟨insertEntry k v m.entries, pairwise_insertEntry k v m.sorted⟩

/-- Keep the entries that pass. -/
def filter (m : KeyMap α) (p : String → α → Bool) : KeyMap α :=
  ⟨m.entries.filter fun e => p e.1 e.2, m.sorted.filter _⟩

/-- Hold nothing under `k`. -/
def erase (m : KeyMap α) (k : String) : KeyMap α := m.filter fun j _ => j != k

/-- Replace every value. -/
def mapValues (m : KeyMap α) (f : α → β) : KeyMap β :=
  ⟨m.entries.map fun e => (e.1, f e.2), m.sorted.map _ fun _ _ h => h⟩

/-- Insert entries from left to right, so that the last one for a key wins. -/
def insertAll (m : KeyMap α) (entries : List (String × α)) : KeyMap α :=
  entries.foldl (fun m e => m.insert e.1 e.2) m

/-- The map of a list of entries, of which the last one for a key wins. -/
def ofList (entries : List (String × α)) : KeyMap α := empty.insertAll entries

/-- Lay the entries of `n` over those of `m`. -/
def overlay (m n : KeyMap α) : KeyMap α := m.insertAll n.entries

/-! ## What the operations hold -/

@[simp] theorem get?_empty (k : String) : (empty : KeyMap α).get? k = none := rfl

theorem get?_insert (m : KeyMap α) (k j : String) (v : α) :
    (m.insert k v).get? j = if j = k then some v else m.get? j :=
  lookup_insertEntry k j v m.entries

@[simp] theorem get?_insert_self (m : KeyMap α) (k : String) (v : α) :
    (m.insert k v).get? k = some v := by simp [get?_insert]

theorem lookup_eq_some_iff {l : List (String × α)} (h : l.Pairwise fun a b => a.1 < b.1)
    {k : String} {v : α} : l.lookup k = some v ↔ (k, v) ∈ l := by
  induction l with
  | nil => simp
  | cons e rest ih =>
    obtain ⟨k', v'⟩ := e
    obtain ⟨hk', hrest⟩ := List.pairwise_cons.1 h
    rw [lookup_cons_eq]
    by_cases hk : k = k'
    · subst hk
      simp only [if_true, Option.some.injEq, List.mem_cons, Prod.mk.injEq, true_and]
      refine ⟨fun h => .inl h.symm, fun h => ?_⟩
      rcases h with h | h
      · exact h.symm
      · exact absurd (hk' _ h) (String.lt_irrefl _)
    · simp [hk, ih hrest]

theorem get?_eq_some_iff {m : KeyMap α} {k : String} {v : α} :
    m.get? k = some v ↔ (k, v) ∈ m.entries := lookup_eq_some_iff m.sorted

theorem get?_filter (m : KeyMap α) (p : String → α → Bool) (k : String) :
    (m.filter p).get? k = (m.get? k).filter (p k) := by
  apply Option.ext
  intro v
  rw [get?_eq_some_iff, Option.filter_eq_some_iff, get?_eq_some_iff]
  simp [filter]

theorem get?_erase (m : KeyMap α) (k j : String) :
    (m.erase k).get? j = if j = k then none else m.get? j := by
  rw [erase, get?_filter]
  by_cases h : j = k
  · simp [h]
  · cases m.get? j <;> simp [h]

theorem get?_mapValues (m : KeyMap α) (f : α → β) (k : String) :
    (m.mapValues f).get? k = (m.get? k).map f := by
  obtain ⟨l, h⟩ := m
  simp only [get?, mapValues]
  clear h
  induction l with
  | nil => rfl
  | cons e rest ih =>
    rw [List.map_cons, lookup_cons_eq, ← Prod.eta e, lookup_cons_eq]
    by_cases hk : k = e.1 <;> simp [hk, ih]

theorem get?_insertAll {l : List (String × α)} (h : l.Pairwise fun a b => a.1 < b.1)
    (m : KeyMap α) (k : String) : (m.insertAll l).get? k = (l.lookup k).or (m.get? k) := by
  induction l generalizing m with
  | nil => rfl
  | cons e rest ih =>
    obtain ⟨j, v⟩ := e
    obtain ⟨hj, hrest⟩ := List.pairwise_cons.1 h
    show ((m.insert j v).insertAll rest).get? k = _
    rw [ih hrest, get?_insert, lookup_cons_eq]
    by_cases hk : k = j
    · subst hk
      have hnone : rest.lookup k = none := by
        cases hl : rest.lookup k with
        | none => rfl
        | some w => exact absurd (hj _ ((lookup_eq_some_iff hrest).1 hl)) (String.lt_irrefl _)
      simp [hnone]
    · simp [hk]

/-- Laid over another, a map decides under its own keys. -/
theorem get?_overlay (m n : KeyMap α) (k : String) :
    (m.overlay n).get? k = (n.get? k).or (m.get? k) :=
  get?_insertAll n.sorted m k

/-- Two sorted lists with the same members are the same list. -/
theorem eq_of_mem_iff : ∀ {l m : List (String × α)}, l.Pairwise (fun a b => a.1 < b.1) →
    m.Pairwise (fun a b => a.1 < b.1) → (∀ e, e ∈ l ↔ e ∈ m) → l = m
  | [], [], _, _, _ => rfl
  | [], e :: m, _, _, h => absurd ((h e).2 List.mem_cons_self) (by simp)
  | e :: l, [], _, _, h => absurd ((h e).1 List.mem_cons_self) (by simp)
  | e :: l, f :: m, hl, hm, h => by
    obtain ⟨he, hl'⟩ := List.pairwise_cons.1 hl
    obtain ⟨hf, hm'⟩ := List.pairwise_cons.1 hm
    have hef : e = f := by
      rcases List.mem_cons.1 ((h e).1 List.mem_cons_self) with h1 | h1
      · exact h1
      · rcases List.mem_cons.1 ((h f).2 List.mem_cons_self) with h2 | h2
        · exact h2.symm
        · exact absurd (String.lt_trans (hf e h1) (he f h2)) (String.lt_irrefl _)
    subst hef
    congr 1
    refine eq_of_mem_iff hl' hm' fun g => ⟨fun hg => ?_, fun hg => ?_⟩
    · rcases List.mem_cons.1 ((h g).1 (List.mem_cons_of_mem _ hg)) with rfl | hg'
      · exact absurd (he _ hg) (String.lt_irrefl _)
      · exact hg'
    · rcases List.mem_cons.1 ((h g).2 (List.mem_cons_of_mem _ hg)) with rfl | hg'
      · exact absurd (hf _ hg) (String.lt_irrefl _)
      · exact hg'

/-- A map is determined by what it holds under each key. -/
theorem ext_get? {m n : KeyMap α} (h : ∀ k, m.get? k = n.get? k) : m = n := by
  obtain ⟨l, hl⟩ := m
  obtain ⟨l', hl'⟩ := n
  have : l = l' := eq_of_mem_iff hl hl' fun ⟨k, v⟩ => by
    rw [← lookup_eq_some_iff hl, ← lookup_eq_some_iff hl']
    exact iff_of_eq (congrArg (· = some v) (h k))
  subst this
  rfl

@[simp] theorem overlay_empty (m : KeyMap α) : m.overlay empty = m := rfl

@[simp] theorem empty_overlay (m : KeyMap α) : (empty : KeyMap α).overlay m = m :=
  ext_get? fun k => by rw [get?_overlay, get?_empty, Option.or_none]

/-! ## What holds of all values -/

/-- Every value of the map has a property. -/
def All (P : α → Prop) (m : KeyMap α) : Prop := ∀ k v, m.get? k = some v → P v

variable {P : α → Prop} {m n : KeyMap α}

theorem all_empty : (empty : KeyMap α).All P := fun _ _ h => nomatch h

theorem All.imp {Q : α → Prop} (h : ∀ v, P v → Q v) (hm : m.All P) : m.All Q :=
  fun k v hv => h v (hm k v hv)

theorem All.insert (hm : m.All P) (k : String) {v : α} (hv : P v) : (m.insert k v).All P := by
  intro j w hw
  rw [get?_insert] at hw
  split at hw
  · exact Option.some.inj hw ▸ hv
  · exact hm j w hw

theorem All.overlay (hm : m.All P) (hn : n.All P) : (m.overlay n).All P := by
  intro k v hv
  rw [get?_overlay, Option.or_eq_some_iff] at hv
  rcases hv with hv | ⟨_, hv⟩
  · exact hn k v hv
  · exact hm k v hv

theorem All.filter (hm : m.All P) (p : String → α → Bool) : (m.filter p).All P := by
  intro k v hv
  rw [get?_filter, Option.filter_eq_some_iff] at hv
  exact hm k v hv.1

theorem all_mapValues {Q : β → Prop} {f : α → β} : (m.mapValues f).All Q ↔ m.All fun v => Q (f v) := by
  constructor
  · intro h k v hv
    exact h k (f v) (by rw [get?_mapValues, hv, Option.map_some])
  · intro h k w hw
    rw [get?_mapValues, Option.map_eq_some_iff] at hw
    obtain ⟨v, hv, rfl⟩ := hw
    exact h k v hv

/-- A change that leaves every value of a map as it is leaves the map as it is. -/
theorem mapValues_eq_self {f : α → α} (h : m.All fun v => f v = v) : m.mapValues f = m :=
  ext_get? fun k => by
    rw [get?_mapValues]
    cases hv : m.get? k with
    | none => rfl
    | some v => rw [Option.map_some, h k v hv]

end KeyMap

end DatasetGraph
