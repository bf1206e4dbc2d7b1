import DatasetGraph.Query.Order
import DatasetGraph.Proofs.Double
import DatasetGraph.Proofs.Sort
import Mathlib

/-!
# Sorted roots

Values of any types are ordered by three keys, one after the other: their type, a number and a text
(`Json.order_eq`).  So their order is total and transitive, and it stays so for values that may be
missing, for roots under one key, under several, and in either direction (`TransCmp` instances, one
for each step).  Two roots compare as equal only if they have one id (`compareRoots_eq_eq`).

Hence roots of distinct ids are sorted in one way only, from whatever order they come
(`sortRoots_is_canonical`).  Where a value is missing, and where whole numbers are too large to be
told apart as doubles, the order is not the one that one would expect:

* roots without a value come last on ascending pages but first on descending ones
  (`missing_placed_by_direction`, `descending_puts_missing_first`);
* whole numbers are in numeric order exactly as far as they are rounded to different doubles, and
  else by id (`whole_numbers_placed`, `large_numbers_placed_by_id`).
-/

namespace DatasetGraph

open Std (TransCmp OrientedCmp)

/-! ## Places in a list -/

/-- Each occurrence of `x` is before each occurrence of `y`. -/
def ComesBefore {α : Type} (xs : List α) (x y : α) : Prop :=
  ∀ i j : Nat, xs[i]? = some x → xs[j]? = some y → i < j

theorem comesBefore_of_pairwise {α : Type} {r : α → α → Prop} {xs : List α} {x y : α}
    (h : xs.Pairwise r) (hne : x ≠ y) (hyx : ¬ r y x) : ComesBefore xs x y := by
  intro i j hi hj
  obtain ⟨hilt, hix⟩ := List.getElem?_eq_some_iff.1 hi
  obtain ⟨hjlt, hjy⟩ := List.getElem?_eq_some_iff.1 hj
  rcases Nat.lt_trichotomy i j with hlt | rfl | hgt
  · exact hlt
  · exact absurd (hix.symm.trans hjy) hne
  · have hr := List.pairwise_iff_getElem.1 h j i hjlt hilt hgt
    rw [hix, hjy] at hr
    exact absurd hr hyx

/-! ## The order of values -/

namespace Json

/-- The place of a truth value or a number among those of its type. -/
def numericKey : Json → Int
  | .bool b => b.toNat
  | .num n => n.asDouble.key
  | _ => 0

/-- The text by which a value is placed among those of its type. -/
def textKey : Json → String
  | .bool _ | .num _ => ""
  | .str s => s
  | v => v.compact

/-- Values of two types are ordered by type alone. -/
theorem order_of_typeRank_ne {v w : Json} (h : v.typeRank ≠ w.typeRank) (o : Ordering) :
    order v w = (compare v.typeRank w.typeRank).then o := by
  have hthen : (compare v.typeRank w.typeRank).then (compare v.compact w.compact) =
      (compare v.typeRank w.typeRank).then o := by
    cases hc : compare v.typeRank w.typeRank with
    | eq => exact absurd (compare_eq_iff_eq.1 hc) h
    | lt => rfl
    | gt => rfl
  -- Only these three types have an order of their own.
  cases v <;> cases w
  case bool.bool | num.num | str.str => exact absurd rfl h
  all_goals exact hthen

/-- Values are ordered by type, then by number, then by text. -/
theorem order_eq (v w : Json) : order v w =
    compareLex (compareOn typeRank) (compareLex (compareOn numericKey) (compareOn textKey)) v w := by
  by_cases h : v.typeRank = w.typeRank
  · cases v <;> cases w <;> cases h
    case bool.refl a b => cases a <;> cases b <;> rfl
    all_goals simp [order, compareLex, compareOn, typeRank, numericKey, textKey, Double.compare]
  · exact order_of_typeRank_ne h _

instance : TransCmp order := by
  rw [show order = _ from funext fun v => funext fun w => order_eq v w]
  infer_instance

instance : TransCmp orderMissingLast where
  eq_swap := by
    intro v w
    unfold orderMissingLast
    cases present? v <;> cases present? w
    · rfl
    · rfl
    · rfl
    · exact (OrientedCmp.eq_swap : order _ _ = _)
  isLE_trans := by
    intro u v w huv hvw
    unfold orderMissingLast at *
    cases hu : present? u <;> cases hv : present? v <;> cases hw : present? w <;>
      rw [hu, hv] at huv <;> rw [hv, hw] at hvw
    case some.some.some => exact (TransCmp.isLE_trans huv hvw : (order _ _).isLE = true)
    all_goals simp_all

/-- A value comes before none. -/
theorem orderMissingLast_missing {v : Json} (hv : v ≠ .null) {w : Option Json}
    (hw : w = none ∨ w = some .null) : orderMissingLast (some v) w = .lt := by
  have hpresent : present? (some v) = some v := by
    cases v with
    | null => exact absurd rfl hv
    | _ => rfl
  have hmissing : present? w = none := by rcases hw with rfl | rfl <;> rfl
  rw [orderMissingLast, hpresent, hmissing]

end Json

/-! ## The order of roots -/

/-- Comparing by what is read of two things is as good as comparing the latter. -/
theorem transCmp_on {α β : Type} (f : α → β) (cmp : β → β → Ordering) [TransCmp cmp] :
    TransCmp fun a b => cmp (f a) (f b) where
  eq_swap := by
    intro a b
    exact OrientedCmp.eq_swap
  isLE_trans := by
    intro a b c hab hbc
    exact TransCmp.isLE_trans hab hbc

namespace Node

instance (key : String) : TransCmp (compareBy key) := by
  by_cases h : key = "id"
  · have hid : compareBy key = compareOn Node.id :=
      funext fun a => funext fun b => if_pos h
    rw [hid]
    infer_instance
  · have hvalue : compareBy key = fun a b =>
        Json.orderMissingLast (a.properties.get? key) (b.properties.get? key) :=
      funext fun a => funext fun b => if_neg h
    rw [hvalue]
    exact transCmp_on (fun a : Node => a.properties.get? key) Json.orderMissingLast

instance (keys : List String) : TransCmp (compareByAll keys) := by
  induction keys with
  | nil => exact { eq_swap := rfl, isLE_trans := fun _ _ => rfl }
  | cons key keys ih => exact (inferInstance : TransCmp (compareLex (compareBy key) (compareByAll keys)))

/-- One root comes before another by the first key that tells them apart. -/
inductive LessBy (a b : Node) : List String → Prop where
  | here {key : String} {later : List String} (h : compareBy key a b = .lt) : LessBy a b (key :: later)
  | later {key : String} {later : List String} (h : compareBy key a b = .eq)
      (hlater : LessBy a b later) : LessBy a b (key :: later)

/-- No key tells the roots apart. -/
def TiedBy (a b : Node) (keys : List String) : Prop := ∀ key ∈ keys, compareBy key a b = .eq

theorem compareByAll_eq_eq_iff {keys : List String} {a b : Node} :
    compareByAll keys a b = .eq ↔ TiedBy a b keys := by
  induction keys with
  | nil => exact ⟨fun _ _ h => (List.not_mem_nil h).elim, fun _ => rfl⟩
  | cons key keys ih =>
    show (compareBy key a b).then (compareByAll keys a b) = .eq ↔ _
    rw [Ordering.then_eq_eq, ih, TiedBy, TiedBy, List.forall_mem_cons]

theorem compareByAll_eq_lt_iff {keys : List String} {a b : Node} :
    compareByAll keys a b = .lt ↔ LessBy a b keys := by
  induction keys with
  | nil => exact ⟨nofun, nofun⟩
  | cons key keys ih =>
    show (compareBy key a b).then (compareByAll keys a b) = .lt ↔ _
    rw [Ordering.then_eq_lt, ih]
    constructor
    · rintro (h | ⟨h, hlater⟩)
      · exact .here h
      · exact .later h hlater
    · rintro (h | ⟨h, hlater⟩)
      · exact .inl h
      · exact .inr ⟨h, hlater⟩

end Node

/-- A comparison turned around as a whole is one again. -/
theorem Direction.transCmp_apply {α : Type} (d : Direction) (cmp : α → α → Ordering) [TransCmp cmp] :
    TransCmp fun a b => d.apply (cmp a b) := by
  cases d with
  | ascending => exact (inferInstance : TransCmp cmp)
  | descending =>
    have hswap : (fun a b => Direction.descending.apply (cmp a b)) = fun a b => cmp b a :=
      funext fun a => funext fun b => (OrientedCmp.eq_swap : cmp b a = _).symm
    rw [hswap]
    exact TransCmp.opposite

theorem sortRoots_perm (c : Criteria) (roots : List Node) : (c.sortRoots roots).Perm roots :=
  List.mergeSort_perm roots _

namespace Criteria

instance (c : Criteria) : TransCmp c.compareRoots :=
  have := c.direction.transCmp_apply (Node.compareByAll c.orderBy)
  (inferInstance : TransCmp (compareLex
    (fun a b => c.direction.apply (Node.compareByAll c.orderBy a b)) (compareOn Node.id)))

theorem compareRoots_eq_eq {c : Criteria} {a b : Node} (h : c.compareRoots a b = .eq) :
    a.id = b.id :=
  compare_eq_iff_eq.1 (Ordering.then_eq_eq.1 h).2

/-- One root comes before another on a page: by the keys, which are turned around as a whole on
descending pages, or else by id. -/
def Precedes (c : Criteria) (a b : Node) : Prop :=
  (match c.direction with
    | .ascending => a.LessBy b c.orderBy
    | .descending => b.LessBy a c.orderBy) ∨
  (a.TiedBy b c.orderBy ∧ a.id < b.id)

theorem compareRoots_eq_lt_iff {c : Criteria} {a b : Node} :
    c.compareRoots a b = .lt ↔ c.Precedes a b := by
  rw [compareRoots, Ordering.then_eq_lt, compare_lt_iff_lt, Precedes]
  cases c.direction with
  | ascending =>
    show (Node.compareByAll c.orderBy a b = .lt ∨ Node.compareByAll c.orderBy a b = .eq ∧ _) ↔ _
    rw [Node.compareByAll_eq_lt_iff, Node.compareByAll_eq_eq_iff]
  | descending =>
    show ((Node.compareByAll c.orderBy a b).swap = .lt ∨
      (Node.compareByAll c.orderBy a b).swap = .eq ∧ _) ↔ _
    rw [Ordering.swap_eq_lt, Ordering.swap_eq_eq, OrientedCmp.gt_iff_lt, Node.compareByAll_eq_lt_iff,
      Node.compareByAll_eq_eq_iff]

/-! ## The sort -/

theorem pairwise_sortRoots (c : Criteria) (roots : List Node) :
    (c.sortRoots roots).Pairwise fun a b => (c.compareRoots a b).isLE = true :=
  pairwise_sortBy roots

/-- Roots that come one before the other on a page are sorted so, whatever else is sorted. -/
theorem Precedes.comesBefore {c : Criteria} {a b : Node} (h : c.Precedes a b) (roots : List Node) :
    ComesBefore (c.sortRoots roots) a b := by
  have hlt := compareRoots_eq_lt_iff.2 h
  refine comesBefore_of_pairwise (c.pairwise_sortRoots roots) ?_ ?_
  · rintro rfl
    rw [(Std.ReflCmp.compare_self : c.compareRoots a a = .eq)] at hlt
    cases hlt
  · rw [(OrientedCmp.eq_swap : c.compareRoots b a = _), hlt]
    exact Bool.false_ne_true

/-- Roots of distinct ids are told apart. -/
theorem precedes_or_precedes (c : Criteria) {a b : Node} (h : a.id ≠ b.id) :
    c.Precedes a b ∨ c.Precedes b a := by
  rw [← compareRoots_eq_lt_iff, ← compareRoots_eq_lt_iff]
  cases hc : c.compareRoots a b with
  | eq => exact absurd (compareRoots_eq_eq hc) h
  | lt => exact .inl rfl
  | gt => exact .inr (OrientedCmp.gt_iff_lt.1 hc)

theorem Precedes.asymm {c : Criteria} {a b : Node} (h : c.Precedes a b) : ¬ c.Precedes b a := by
  rw [← compareRoots_eq_lt_iff] at *
  exact OrientedCmp.not_lt_of_lt h

theorem Precedes.trans {c : Criteria} {a b d : Node} (hab : c.Precedes a b) (hbd : c.Precedes b d) :
    c.Precedes a d := by
  rw [← compareRoots_eq_lt_iff] at *
  exact TransCmp.lt_trans hab hbd

theorem pairwise_precedes (c : Criteria) {roots : List Node} (hids : (roots.map Node.id).Nodup) :
    (c.sortRoots roots).Pairwise c.Precedes := by
  have hne : (c.sortRoots roots).Pairwise fun a b => a.id ≠ b.id :=
    List.pairwise_map.1 (((sortRoots_perm c roots).map Node.id).nodup_iff.2 hids)
  refine List.Pairwise.imp₂ ?_ hne (c.pairwise_sortRoots roots)
  intro a b hab hle
  rw [← compareRoots_eq_lt_iff]
  cases hc : c.compareRoots a b with
  | eq => exact absurd (compareRoots_eq_eq hc) hab
  | lt => rfl
  | gt => rw [hc] at hle; cases hle

/-- The sort of roots of distinct ids puts them in a strict total order, whatever order they come in:
by the keys, turned around as a whole on descending pages, and else by id.  This rests on the order
of values of any types, which is transitive and the same from either side. -/
theorem sortRoots_is_canonical (c : Criteria) {roots : List Node}
    (hids : (roots.map Node.id).Nodup) :
    (c.sortRoots roots).Perm roots ∧ (c.sortRoots roots).Pairwise c.Precedes ∧
      (∀ others : List Node, others.Perm roots → c.sortRoots others = c.sortRoots roots) ∧
      (∀ a b : Node, a.id ≠ b.id → c.Precedes a b ∨ c.Precedes b a) ∧
      (∀ a b, c.Precedes a b → ¬ c.Precedes b a) ∧
      (∀ a b d, c.Precedes a b → c.Precedes b d → c.Precedes a d) ∧
      (∀ v w, Json.order v w = (Json.order w v).swap) ∧
      ∀ u v w, (Json.order u v).isLE = true → (Json.order v w).isLE = true →
        (Json.order u w).isLE = true := by
  have hsorted := c.pairwise_precedes hids
  refine ⟨sortRoots_perm c roots, hsorted, ?_, fun a b => c.precedes_or_precedes,
    fun a b => Precedes.asymm, fun a b d => Precedes.trans, fun v w => OrientedCmp.eq_swap,
    fun u v w => TransCmp.isLE_trans⟩
  intro others hperm
  have hothers := c.pairwise_precedes ((hperm.map Node.id).nodup_iff.2 hids)
  refine List.Perm.eq_of_pairwise ?_ hothers hsorted
    ((sortRoots_perm c others).trans (hperm.trans (sortRoots_perm c roots).symm))
  intro a b _ _ hab hba
  exact absurd hba hab.asymm

end Criteria

/-! ## Roots of all kinds -/

/-- A root with one property. -/
def Node.having (id key : String) (v : Json) : Node := ⟨id, ["Dataset"], KeyMap.empty.insert key v⟩

/-- A root of a size. -/
def Node.sized (id : String) (n : Int) : Node := .having id "size" (.num (.int n))

/-- A root without properties. -/
def Node.bare (id : String) : Node := ⟨id, ["Dataset"], .empty⟩

/-- The criteria of a query that only sorts. -/
def Criteria.sorting (keys : List String) (d : Direction) : Criteria :=
  ⟨[], [], none, none, [], [], keys, d⟩

/-- Values of all types, among them two numbers that are equal. -/
def Node.mixed : List Node :=
  [.having "a" "v" (.num (.int 2)), .having "b" "v" .null, .having "c" "v" (.str "x"),
    .having "d" "v" (.num (.double (.ofInt 2))), .bare "e", .having "f" "v" (.arr []),
    .having "g" "v" (.bool true)]

/-- The same roots downwards: those without a value, then by type, and by id where they tie. -/
def Node.mixedDown : List Node :=
  [.having "b" "v" .null, .bare "e", .having "f" "v" (.arr []), .having "c" "v" (.str "x"),
    .having "a" "v" (.num (.int 2)), .having "d" "v" (.num (.double (.ofInt 2))),
    .having "g" "v" (.bool true)]

/-- Roots of all kinds are sorted in one way. -/
theorem sortRoots_mixed :
    (Node.mixed.map Node.id).Nodup ∧
    (Criteria.sorting ["v", "unknown", "v"] .descending).sortRoots Node.mixed = Node.mixedDown ∧
    Node.mixedDown.Pairwise (Criteria.sorting ["v", "unknown", "v"] .descending).Precedes ∧
    (Criteria.sorting ["v", "unknown", "v"] .descending).sortRoots Node.mixed.reverse =
      Node.mixedDown := by
  have hids : (Node.mixed.map Node.id).Nodup := by decide
  generalize hc : Criteria.sorting ["v", "unknown", "v"] .descending = c
  obtain ⟨-, hsorted, hperm, -⟩ := c.sortRoots_is_canonical hids
  have hdown : c.sortRoots Node.mixedDown = Node.mixedDown := by
    rw [← hc]
    exact List.mergeSort_of_pairwise (by decide +kernel)
  have hsort : c.sortRoots Node.mixed = Node.mixedDown := by
    rw [← hperm Node.mixedDown (by decide +kernel), hdown]
  refine ⟨hids, hsort, ?_, ?_⟩
  · rw [← hsort]
    exact hsorted
  · rw [hperm _ (List.reverse_perm _), hsort]

/-! ## Pages sorted by one key -/

/-- The order in the direction of the page: `a` before `b` upwards, `b` before `a` downwards. -/
def Criteria.Places (c : Criteria) (roots : List Node) (a b : Node) : Prop :=
  match c.direction with
  | .ascending => ComesBefore (c.sortRoots roots) a b
  | .descending => ComesBefore (c.sortRoots roots) b a

section

variable {c : Criteria} {key : String} {a b : Node}

theorem places_of_compareBy (horder : c.orderBy = [key]) (h : Node.compareBy key a b = .lt)
    (roots : List Node) : c.Places roots a b := by
  have hless : Node.LessBy a b c.orderBy := horder ▸ .here h
  unfold Criteria.Places
  cases hdirection : c.direction with
  | ascending => exact Criteria.Precedes.comesBefore (.inl (by rwa [hdirection])) roots
  | descending => exact Criteria.Precedes.comesBefore (.inl (by rwa [hdirection])) roots

/-- Roots that the key does not tell apart come by increasing id, upwards and downwards. -/
theorem comesBefore_of_tied (horder : c.orderBy = [key]) (h : Node.compareBy key a b = .eq)
    (hid : a.id < b.id) (roots : List Node) : ComesBefore (c.sortRoots roots) a b := by
  refine Criteria.Precedes.comesBefore (.inr ⟨?_, hid⟩) roots
  rw [horder]
  exact List.forall_mem_singleton.2 h

/-! ### Missing values -/

/-- A root without a value is placed after every root with one on ascending pages, and before it on
descending ones. -/
theorem missing_placed_by_direction (hkey : key ≠ "id") (horder : c.orderBy = [key]) {v : Json}
    (ha : a.properties.get? key = some v) (hv : v ≠ .null)
    (hb : b.properties.get? key = none ∨ b.properties.get? key = some .null) (roots : List Node) :
    c.Places roots a b := by
  refine places_of_compareBy horder ?_ roots
  rw [Node.compareBy, if_neg hkey, ha]
  exact Json.orderMissingLast_missing hv hb

/-- Upwards the root that has a name comes first, downwards the others do, whether they have none or
`null`. -/
theorem missing_placed_of_names :
    "name" ≠ "id" ∧ Json.str "B" ≠ .null ∧
    (Node.having "b" "name" (.str "B")).properties.get? "name" = some (.str "B") ∧
    (Node.bare "a").properties.get? "name" = none ∧
    (Node.having "c" "name" .null).properties.get? "name" = some .null ∧
    ComesBefore ((Criteria.sorting ["name"] .ascending).sortRoots
        [.bare "a", .having "b" "name" (.str "B"), .having "c" "name" .null])
      (.having "b" "name" (.str "B")) (.bare "a") ∧
    ComesBefore ((Criteria.sorting ["name"] .descending).sortRoots
        [.bare "a", .having "b" "name" (.str "B"), .having "c" "name" .null])
      (.having "c" "name" .null) (.having "b" "name" (.str "B")) := by
  have hkey : "name" ≠ "id" := by decide
  have hvalue : Json.str "B" ≠ .null := by decide
  exact ⟨hkey, hvalue, rfl, rfl, rfl,
    missing_placed_by_direction (c := .sorting ["name"] .ascending) hkey rfl rfl hvalue (.inl rfl) _,
    missing_placed_by_direction (c := .sorting ["name"] .descending) hkey rfl rfl hvalue (.inr rfl) _⟩

/-- A descending page starts with the root that has no name. -/
theorem descending_puts_missing_first :
    Query.criteria { orderBy := ["name"], direction := .descending } =
      .ok (.sorting ["name"] .descending) ∧
    (Criteria.sorting ["name"] .descending).sortRoots [.bare "a", .having "b" "name" (.str "B")] =
      [.bare "a", .having "b" "name" (.str "B")] ∧
    ¬ ComesBefore ((Criteria.sorting ["name"] .descending).sortRoots
        [.bare "a", .having "b" "name" (.str "B")])
      (.having "b" "name" (.str "B")) (.bare "a") := by
  have hsort : (Criteria.sorting ["name"] .descending).sortRoots
      [.bare "a", .having "b" "name" (.str "B")] = [.bare "a", .having "b" "name" (.str "B")] :=
    List.mergeSort_of_pairwise (by decide)
  refine ⟨rfl, hsort, ?_⟩
  rw [hsort]
  intro h
  exact absurd (h 1 0 rfl rfl) (by decide)

/-! ### Whole numbers -/

theorem compareBy_of_lt (hkey : key ≠ "id") {m n : Int}
    (ha : a.properties.get? key = some (.num (.int m)))
    (hb : b.properties.get? key = some (.num (.int n))) (h : m < n) :
    Node.compareBy key a b = if Double.ofInt m = Double.ofInt n then .eq else .lt := by
  rw [Node.compareBy, if_neg hkey, ha, hb]
  exact Double.compare_ofInt h

/-- Roots with different whole numbers are placed by them if these are rounded to different doubles,
and else by id.  Whole numbers up to `2^53` stay different, and so do those of 64 bits that are more
than `2^11` apart. -/
theorem whole_numbers_placed (hkey : key ≠ "id") (horder : c.orderBy = [key]) {m n : Int}
    (ha : a.properties.get? key = some (.num (.int m)))
    (hb : b.properties.get? key = some (.num (.int n))) (h : m < n) (roots : List Node) :
    (Double.ofInt m ≠ Double.ofInt n → c.Places roots a b) ∧
      (Double.ofInt m = Double.ofInt n →
        (a.id < b.id → ComesBefore (c.sortRoots roots) a b) ∧
          (b.id < a.id → ComesBefore (c.sortRoots roots) b a)) ∧
      (m.natAbs ≤ 2 ^ 53 → n.natAbs ≤ 2 ^ 53 → Double.ofInt m ≠ Double.ofInt n) ∧
      (-2 ^ 63 ≤ m → n < 2 ^ 64 → m + 2 ^ 11 < n → Double.ofInt m ≠ Double.ofInt n) := by
  have hcompare := compareBy_of_lt hkey ha hb h
  refine ⟨fun hne => ?_, fun heq => ?_, fun hm hn => ?_, fun hm hn hapart => ?_⟩
  · rw [if_neg hne] at hcompare
    exact places_of_compareBy horder hcompare roots
  · rw [if_pos heq] at hcompare
    have hswap : Node.compareBy key b a = .eq := OrientedCmp.eq_symm hcompare
    exact ⟨fun hid => comesBefore_of_tied horder hcompare hid roots,
      fun hid => comesBefore_of_tied horder hswap hid roots⟩
  · exact Double.ofInt_ne_of_small hm hn h
  · exact Double.ofInt_ne_of_apart (by omega) (by omega) hapart

/-- Neighbours up to `2^53` are in numeric order against their ids; so are far larger numbers that are
not neighbours, downwards. -/
theorem whole_numbers_placed_of_sizes :
    "size" ≠ "id" ∧ (2 ^ 53 - 1 : Int) < 2 ^ 53 ∧ (2 ^ 64 - 3000 : Int) < 2 ^ 64 - 1 ∧
    (Node.sized "b" (2 ^ 53 - 1)).properties.get? "size" = some (.num (.int (2 ^ 53 - 1))) ∧
    (Node.sized "a" (2 ^ 53)).properties.get? "size" = some (.num (.int (2 ^ 53))) ∧
    ComesBefore ((Criteria.sorting ["size"] .ascending).sortRoots
        [.sized "a" (2 ^ 53), .sized "b" (2 ^ 53 - 1)])
      (.sized "b" (2 ^ 53 - 1)) (.sized "a" (2 ^ 53)) ∧
    ComesBefore ((Criteria.sorting ["size"] .descending).sortRoots
        [.sized "a" (2 ^ 64 - 3000), .sized "b" (2 ^ 64 - 1)])
      (.sized "b" (2 ^ 64 - 1)) (.sized "a" (2 ^ 64 - 3000)) := by
  have hkey : "size" ≠ "id" := by decide
  obtain ⟨hplaces, -, hsmall, -⟩ := whole_numbers_placed (c := .sorting ["size"] .ascending)
    (a := .sized "b" (2 ^ 53 - 1)) (b := .sized "a" (2 ^ 53)) hkey rfl rfl rfl (by decide)
    [.sized "a" (2 ^ 53), .sized "b" (2 ^ 53 - 1)]
  obtain ⟨hplaces', -, -, hapart⟩ := whole_numbers_placed (c := .sorting ["size"] .descending)
    (a := .sized "a" (2 ^ 64 - 3000)) (b := .sized "b" (2 ^ 64 - 1)) hkey rfl rfl rfl (by decide)
    [.sized "a" (2 ^ 64 - 3000), .sized "b" (2 ^ 64 - 1)]
  exact ⟨hkey, by decide, by decide, rfl, rfl, hplaces (hsmall (by decide) (by decide)),
    hplaces' (hapart (by decide) (by decide) (by decide))⟩

end

/-- Beyond `2^53` the smaller of two neighbours comes after the larger one, if its id does. -/
theorem large_numbers_placed_by_id :
    Query.criteria { orderBy := ["size"] } = .ok (.sorting ["size"] .ascending) ∧
    (2 ^ 53 : Int) < 2 ^ 53 + 1 ∧
    (Criteria.sorting ["size"] .ascending).sortRoots
        [.sized "a" (2 ^ 53 + 1), .sized "b" (2 ^ 53)] =
      [.sized "a" (2 ^ 53 + 1), .sized "b" (2 ^ 53)] ∧
    ¬ ComesBefore ((Criteria.sorting ["size"] .ascending).sortRoots
        [.sized "a" (2 ^ 53 + 1), .sized "b" (2 ^ 53)])
      (.sized "b" (2 ^ 53)) (.sized "a" (2 ^ 53 + 1)) := by
  have hsort : (Criteria.sorting ["size"] .ascending).sortRoots
      [.sized "a" (2 ^ 53 + 1), .sized "b" (2 ^ 53)] =
      [.sized "a" (2 ^ 53 + 1), .sized "b" (2 ^ 53)] :=
    List.mergeSort_of_pairwise (by decide +kernel)
  refine ⟨rfl, by decide, hsort, ?_⟩
  rw [hsort]
  intro h
  exact absurd (h 1 0 rfl rfl) (by decide)

end DatasetGraph
