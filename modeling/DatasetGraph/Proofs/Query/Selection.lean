import DatasetGraph.Proofs.Store.Table
import DatasetGraph.Proofs.Store.Walk
import Mathlib.Data.Nat.Init

/-!
# Queries select exactly what matches

Which datasets match a query is a matter of what is stored (`Contents.Matches`): by itself a root
has to pass, and if labels are asked for, a node with one of them has to be joined to it by a path
of dependent nodes.  A query counts just those roots, and each page expands its slice of them, so
the pages together show every matching root once (`query_selects_exactly`).

The engine decides twice whether something qualifies, when it counts and when it expands.  Both
decisions come down to `hasQualifying_iff`.

It reads all datasets, and walks from those that pass by themselves if labels are asked for, and from
those on the page.  It fails exactly if it comes to something that cannot be read there
(`PageUnreadable`, `Valid.query_eq_ite`).
-/

namespace DatasetGraph

namespace Contents

variable (store : Contents)

/-- Something that is joined to a root by a path of dependent nodes has a label asked for. -/
def HasQualifying (c : Criteria) (root : String) : Prop :=
  ∃ n k, 1 ≤ k ∧ k ≤ maxHops ∧ n.id ≠ root ∧ store.read? n.id = some n ∧
    store.Path Node.isDependent root k n.id ∧ ∃ l ∈ c.typeLabels, n.hasLabel l = true

/-- A dataset that is stored and matches. -/
def Matches (c : Criteria) (root : Node) : Prop :=
  store.read? root.id = some root ∧ root.isDataset = true ∧ c.matchesRoot root = true ∧
    (c.typeLabels ≠ [] → store.HasQualifying c root.id)

end Contents

/-! ## Slices -/

/-- The part of a list that a page shows. -/
def slice {α : Type} (xs : List α) (offset count : Nat) : List α := (xs.drop offset).take count

theorem mem_slice_iff {α : Type} {xs : List α} {offset count : Nat} {x : α} :
    x ∈ slice xs offset count ↔ ∃ i, offset ≤ i ∧ i < offset + count ∧ xs[i]? = some x := by
  rw [slice, List.mem_iff_getElem?]
  constructor
  · intro h
    obtain ⟨i, hi⟩ := h
    rw [List.getElem?_take] at hi
    split at hi
    · next hlt =>
      rw [List.getElem?_drop] at hi
      exact ⟨offset + i, by omega, by omega, hi⟩
    · cases hi
  · intro h
    obtain ⟨i, hle, hlt, hi⟩ := h
    refine ⟨i - offset, ?_⟩
    rw [List.getElem?_take, if_pos (by omega), List.getElem?_drop]
    rwa [Nat.add_sub_cancel' hle]

/-- Of a list without repeats, every member is on exactly one page. -/
theorem exists_unique_page {α : Type} {xs : List α} (h : xs.Nodup) {count : Nat}
    (hcount : 0 < count) {x : α} (hx : x ∈ xs) : ∃! k, x ∈ slice xs (k * count) count := by
  obtain ⟨i, hi⟩ := List.mem_iff_getElem?.1 hx
  refine ⟨i / count, ?_, ?_⟩
  · apply mem_slice_iff.2
    refine ⟨i, Nat.div_mul_le_self i count, ?_, hi⟩
    have hdiv := Nat.div_add_mod i count
    have hmod := Nat.mod_lt i hcount
    rw [Nat.mul_comm] at hdiv
    omega
  · intro k hk
    obtain ⟨j, hle, hlt, hj⟩ := mem_slice_iff.1 hk
    -- The place of the root in the list fixes its page.
    obtain rfl : i = j := by
      obtain ⟨hilt, hix⟩ := List.getElem?_eq_some_iff.1 hi
      obtain ⟨hjlt, hjx⟩ := List.getElem?_eq_some_iff.1 hj
      exact (List.Nodup.getElem_inj_iff h).1 (hix.trans hjx.symm)
    rw [eq_comm, Nat.div_eq_iff hcount]
    omega

theorem forall₂_zipWith {α β γ : Type} {R : α → γ → Prop} {f : α → β → γ} {xs : List α}
    {ys : List β} (h : List.Forall₂ (fun x y => R x (f x y)) xs ys) :
    List.Forall₂ R xs (List.zipWith f xs ys) := by
  induction h with
  | nil => exact List.Forall₂.nil
  | cons hxy _ ih => exact List.Forall₂.cons hxy ih

/-! ## Matching -/

section

variable {store : Contents} {c : Criteria}

theorem restrictsTypes_iff : c.restrictsTypes = true ↔ c.typeLabels ≠ [] := by
  rw [Criteria.restrictsTypes, Bool.not_eq_true', List.isEmpty_eq_false_iff]

theorem qualifies_iff (h : c.typeLabels ≠ []) (n : Node) :
    c.qualifies n = true ↔ ∃ l ∈ c.typeLabels, n.hasLabel l = true := by
  rw [Criteria.qualifies, restrictsTypes_iff.2 h, Bool.not_true, Bool.false_or, List.any_eq_true]
  rfl

/-- What hangs off a root makes it qualify exactly if there is a path to something that does. -/
theorem hasQualifying_iff {hood : Neighborhood}
    (hexact : hood.IsExact store Node.isDependent maxHops) :
    c.hasQualifying hood = true ↔ (c.typeLabels ≠ [] → store.HasQualifying c hood.root) := by
  rw [Criteria.hasQualifying, Bool.or_eq_true, Bool.not_eq_true', List.any_eq_true]
  by_cases hlabels : c.typeLabels = []
  · have hfalse : c.restrictsTypes = false := by
      rw [Criteria.restrictsTypes, hlabels]
      rfl
    exact iff_of_true (.inl hfalse) fun h => absurd hlabels h
  · rw [restrictsTypes_iff.2 hlabels]
    constructor
    · rintro (hfalse | ⟨⟨n, d⟩, hn, hqualifies⟩) _
      · cases hfalse
      · obtain ⟨hread, hpos, hle, hdist⟩ := hexact.mem_nodes_iff.1 hn
        exact ⟨n, d, hpos, hle, hdist.ne_root hpos, hread, hdist.1,
          (qualifies_iff hlabels n).1 hqualifies⟩
    · -- The walk records the distance of the node, which may be less than the length of the path.
      intro h
      obtain ⟨n, k, _, hle, hne, hread, hpath, hlabel⟩ := h hlabels
      obtain ⟨d, hd, hdist⟩ := hpath.exists_distance
      have hpos : 1 ≤ d := by
        by_contra hzero
        obtain rfl : d = 0 := by omega
        exact hne (Contents.path_zero_iff.1 hdist.1)
      exact .inr ⟨(n, d), hexact.mem_nodes_iff.2 ⟨hread, hpos, hd.trans hle, hdist⟩,
        (qualifies_iff hlabels n).2 hlabel⟩

end

section

variable {σ : Type} [LawfulBackend σ] [Backend.ReadsAll σ] {s : σ} {c : Criteria}

/-- What hangs off a stored root is found. -/
theorem Valid.exists_dependents (hs : Valid s) {root : Node}
    (hroot : (contents s).read? root.id = some root) :
    ∃ hood, Store.dependents s root.id = .ok hood ∧ hood.root = root.id ∧
      hood.IsExact (contents s) Node.isDependent maxHops := by
  obtain ⟨hood, hwalk, hid, hexact⟩ := hs.exists_walk_eq_some maxHops Node.isDependent hroot
  refine ⟨hood, ?_, hid, hexact⟩
  rw [Store.dependents, hwalk]
  rfl

open Classical in
theorem Valid.isMatch_eq (hs : Valid s) {root : Node}
    (hroot : (contents s).read? root.id = some root) (hdataset : root.isDataset = true) :
    Store.isMatch s c root = .ok (decide ((contents s).Matches c root)) := by
  rw [Store.isMatch]
  -- The engine walks only where a root passes by itself and labels are asked for.
  by_cases hself : c.matchesRoot root = true
  · rw [hself, if_neg (by decide)]
    obtain ⟨hood, hdependents, hid, hexact⟩ := hs.exists_dependents hroot
    have hmatches : (contents s).Matches c root ↔ c.hasQualifying hood = true := by
      rw [hasQualifying_iff hexact, hid, Contents.Matches]
      simp only [hroot, hdataset, hself, true_and]
    by_cases hrestricts : c.restrictsTypes = true
    · rw [hrestricts, if_neg (by decide), hdependents]
      show Except.ok (c.hasQualifying hood) = _
      rw [Bool.eq_iff_iff.2 (hmatches.symm.trans (decide_eq_true_iff).symm)]
    · have hqualifies : c.hasQualifying hood = true := by
        rw [Criteria.hasQualifying, Bool.eq_false_iff.2 hrestricts]
        rfl
      rw [Bool.eq_false_iff.2 hrestricts, if_pos (by decide), decide_eq_true (hmatches.2 hqualifies)]
  · have hfalse : ¬(contents s).Matches c root := fun h => hself h.2.2.1
    rw [Bool.eq_false_iff.2 hself, if_pos (by decide), decide_eq_false hfalse]

/-- The roots that are counted are those that match, in order of their ids. -/
theorem Valid.exists_matching (hs : Valid s) (c : Criteria) :
    ∃ roots, Store.matching s c = .ok roots ∧ roots.Pairwise (fun m n => m.id < n.id) ∧
      ∀ n, n ∈ roots ↔ (contents s).Matches c n := by
  classical
  obtain ⟨ns, hns, hsorted, hmem⟩ := hs.exists_datasetRoots
  have hfilter : ns.filterM (Store.isMatch s c) =
      .ok (ns.filter fun n => decide ((contents s).Matches c n)) := by
    apply Fallible.filterM_eq_ok_filter
    intro n hn
    obtain ⟨hread, hdataset⟩ := (hmem n).1 hn
    exact hs.isMatch_eq hread hdataset
  refine ⟨ns.filter fun n => decide ((contents s).Matches c n), ?_, hsorted.filter _, ?_⟩
  · rw [Store.matching, hns]
    exact hfilter
  · intro n
    rw [List.mem_filter, hmem, decide_eq_true_eq]
    exact ⟨And.right, fun h => ⟨⟨h.1, h.2.1⟩, h⟩⟩

/-! ## Pages -/

/-- What is returned of a root and what hangs off it. -/
def shown (c : Criteria) (root : Node) (hood : Neighborhood) : List Node × List Edge :=
  (c.project root :: c.included hood, c.includedEdges root hood)

/-- A root that matches is expanded, the second decision agreeing with the first. -/
theorem Valid.exists_expand (hs : Valid s) {root : Node} (h : (contents s).Matches c root) :
    ∃ hood, Store.dependents s root.id = .ok hood ∧ (hood.root = root.id ∧
      hood.IsExact (contents s) Node.isDependent maxHops) ∧
      Store.expand s c root = .ok (shown c root hood) := by
  obtain ⟨hood, hdependents, hid, hexact⟩ := hs.exists_dependents h.1
  have hqualifies : c.hasQualifying hood = true := by
    rw [hasQualifying_iff hexact, hid]
    exact h.2.2.2
  refine ⟨hood, hdependents, ⟨hid, hexact⟩, ?_⟩
  rw [Store.expand, hdependents]
  show (if c.hasQualifying hood = true then _ else _) = _
  rw [if_pos hqualifies]
  rfl

/-- The nodes that are returned of some roots. -/
def shownNodes (c : Criteria) (roots : List Node) (hoods : List Neighborhood) : List Node :=
  distinctNodes ((List.zipWith (shown c) roots hoods).flatMap Prod.fst)

/-- The edges that are returned of some roots. -/
def shownEdges (c : Criteria) (roots : List Node) (hoods : List Neighborhood) : List Edge :=
  distinctEdges ((List.zipWith (shown c) roots hoods).flatMap Prod.snd)

/-- What a page shows of the roots that match. -/
structure Page.Shows (store : Contents) (c : Criteria) (roots : List Node) (offset count : Nat)
    (p : Page) : Prop where
  offset_eq : p.offset = offset
  count_eq : p.count = count
  total_eq : p.total = roots.length
  /-- Every root of the slice is expanded. -/
  expands : ∃ hoods : List Neighborhood,
    List.Forall₂ (fun root hood => hood.root = root.id ∧
      hood.IsExact store Node.isDependent maxHops) (slice (c.sortRoots roots) offset count) hoods ∧
    p.nodes = shownNodes c (slice (c.sortRoots roots) offset count) hoods ∧
    p.edges = shownEdges c (slice (c.sortRoots roots) offset count) hoods
  root_mem : ∀ root ∈ slice (c.sortRoots roots) offset count, ∃ n ∈ p.nodes, n.id = root.id
  nodes_eq_nil_iff : p.nodes = [] ↔ slice (c.sortRoots roots) offset count = []

theorem project_id (c : Criteria) (root : Node) : (c.project root).id = root.id := by
  rw [Criteria.project]
  split
  · rfl
  · rfl

theorem exists_mem_shownNodes {root : Node} {selected : List Node} {hoods : List Neighborhood}
    (hroot : root ∈ selected) (hlength : selected.length = hoods.length) :
    ∃ n ∈ shownNodes c selected hoods, n.id = root.id := by
  have hpart : ∃ hood, shown c root hood ∈ List.zipWith (shown c) selected hoods := by
    obtain ⟨i, hi, rfl⟩ := List.mem_iff_getElem.1 hroot
    refine ⟨hoods[i], List.mem_iff_getElem.2 ⟨i, ?_, ?_⟩⟩
    · rw [List.length_zipWith]
      omega
    · rw [List.getElem_zipWith]
  obtain ⟨hood, hpart⟩ := hpart
  have hmem : root.id ∈ ((List.zipWith (shown c) selected hoods).flatMap Prod.fst).map Node.id :=
    List.mem_map.2 ⟨c.project root, List.mem_flatMap.2 ⟨_, hpart, List.mem_cons_self⟩, project_id c root⟩
  exact List.mem_map.1 (mem_map_distinctOn.2 hmem)

theorem shownNodes_eq_nil_iff {selected : List Node} {hoods : List Neighborhood}
    (hlength : selected.length = hoods.length) :
    shownNodes c selected hoods = [] ↔ selected = [] := by
  constructor
  · intro hnil
    apply List.eq_nil_iff_forall_not_mem.2
    intro root hroot
    obtain ⟨n, hn, _⟩ := exists_mem_shownNodes (c := c) hroot hlength
    rw [hnil] at hn
    cases hn
  · rintro rfl
    rfl

theorem Valid.exists_page (hs : Valid s) {roots : List Node} (hroots : Store.matching s c = .ok roots)
    (hmatches : ∀ n ∈ roots, (contents s).Matches c n) (offset count : Nat) :
    ∃ p, Store.page s c offset count = .ok p ∧ p.Shows (contents s) c roots offset count := by
  have hselected : ∀ root ∈ slice (c.sortRoots roots) offset count,
      (contents s).Matches c root := by
    intro root hroot
    have hsorted := List.mem_of_mem_drop (List.mem_of_mem_take hroot)
    exact hmatches root (List.mem_mergeSort.1 hsorted)
  obtain ⟨hoods, _, hall⟩ := Fallible.exists_mapM_ok
    fun root (hroot : root ∈ slice (c.sortRoots roots) offset count) =>
      hs.exists_expand (hselected root hroot)
  have hparts : (slice (c.sortRoots roots) offset count).mapM (Store.expand s c) =
      .ok (List.zipWith (shown c) (slice (c.sortRoots roots) offset count) hoods) := by
    rw [Fallible.mapM_eq_ok_iff]
    exact forall₂_zipWith (hall.imp fun _ _ h => h.2)
  refine ⟨⟨shownNodes c (slice (c.sortRoots roots) offset count) hoods,
    shownEdges c (slice (c.sortRoots roots) offset count) hoods, offset, count, roots.length⟩, ?_, ?_⟩
  · rw [Store.page, hroots]
    show ((slice (c.sortRoots roots) offset count).mapM (Store.expand s c) >>= _) = _
    rw [hparts]
    rfl
  · constructor
    case offset_eq => rfl
    case count_eq => rfl
    case total_eq => rfl
    case expands => exact ⟨hoods, hall.imp fun _ _ h => h.1, rfl, rfl⟩
    case root_mem =>
      intro root hroot
      exact exists_mem_shownNodes hroot hall.length_eq
    case nodes_eq_nil_iff => exact shownNodes_eq_nil_iff hall.length_eq

/-! ## Queries -/

/-- A query is resolved exactly if each of its names is and its range is none that ends before it
starts. -/
theorem Query.criteria_eq_ok_iff {q : Query} : q.criteria = .ok c ↔
    ∃ types encodings first last, q.types.mapM typeLabel = .ok types ∧
      q.mimeTypes.mapM encodingLabels = .ok encodings ∧ bound? q.publishedFrom = .ok first ∧
      bound? q.publishedTo = .ok last ∧ checkRange first last = .ok () ∧
      c = ⟨q.nodeIds, distinct (types ++ encodings.flatten), first, last, q.status, q.properties,
        q.orderBy, q.direction⟩ := by
  rw [Query.criteria]
  constructor
  · intro hc
    obtain ⟨types, htypes, hc⟩ := Fallible.bind_eq_ok_iff.1 hc
    obtain ⟨encodings, hencodings, hc⟩ := Fallible.bind_eq_ok_iff.1 hc
    obtain ⟨first, hfirst, hc⟩ := Fallible.bind_eq_ok_iff.1 hc
    obtain ⟨last, hlast, hc⟩ := Fallible.bind_eq_ok_iff.1 hc
    obtain ⟨⟨⟩, hrange, hc⟩ := Fallible.bind_eq_ok_iff.1 hc
    exact ⟨types, encodings, first, last, htypes, hencodings, hfirst, hlast, hrange,
      (Except.ok.inj hc).symm⟩
  · rintro ⟨types, encodings, first, last, htypes, hencodings, hfirst, hlast, hrange, rfl⟩
    refine Fallible.bind_eq_ok_iff.2 ⟨types, htypes, ?_⟩
    refine Fallible.bind_eq_ok_iff.2 ⟨encodings, hencodings, ?_⟩
    refine Fallible.bind_eq_ok_iff.2 ⟨first, hfirst, Fallible.bind_eq_ok_iff.2 ⟨last, hlast, ?_⟩⟩
    exact Fallible.bind_eq_ok_iff.2 ⟨(), hrange, rfl⟩

theorem criteria_eq {q : Query} (hc : q.criteria = .ok c) (offset count : Nat)
    (orderBy : List String) (direction : Direction) (properties : List String) :
    ({ q with offset, count, orderBy, direction, properties } : Query).criteria =
      .ok { c with orderBy, direction, properties } := by
  obtain ⟨types, encodings, first, last, htypes, hencodings, hfirst, hlast, hrange, rfl⟩ :=
    Query.criteria_eq_ok_iff.1 hc
  exact Query.criteria_eq_ok_iff.2
    ⟨types, encodings, first, last, htypes, hencodings, hfirst, hlast, hrange, rfl⟩

theorem query_eq_ok {σ : Type} [Backend σ] {s : σ} {q : Query} {c : Criteria} {p : Page}
    (hc : q.criteria = .ok c) (hp : Store.page s c q.offset q.count = .ok p) :
    Store.query s q = .ok p := by
  rw [Store.query, hc]
  dsimp only
  rw [hp]

theorem Valid.exists_query (hs : Valid s) {q : Query} (hc : q.criteria = .ok c) {roots : List Node}
    (hroots : Store.matching s c = .ok roots)
    (hmatches : ∀ n ∈ roots, (contents s).Matches c n) :
    ∃ p, Store.query s q = .ok p ∧ p.Shows (contents s) c roots q.offset q.count := by
  obtain ⟨p, hp, hshows⟩ := hs.exists_page hroots hmatches q.offset q.count
  exact ⟨p, query_eq_ok hc hp, hshows⟩

end

/-! ## Queries that come to what cannot be read -/

section

variable {σ : Type} [LawfulBackend σ] {s : σ} {c : Criteria}

/-- Labels are asked for, and what hangs off a root that passes by itself cannot be read. -/
def MatchUnreadable (s : σ) (c : Criteria) (root : Node) : Prop :=
  c.typeLabels ≠ [] ∧ c.matchesRoot root = true ∧
    WalkUnreadable s root.id maxHops Node.isDependent

/-- A dataset cannot be read, or whether it matches cannot be found out. -/
def SelectionUnreadable (s : σ) (c : Criteria) : Prop :=
  DatasetUnreadable s ∨ ∃ root : Node, (contents s).read? root.id = some root ∧
    root.isDataset = true ∧ MatchUnreadable s c root

/-- A query for a page of the roots that match has to read something that cannot be read, when it
selects them or when it expands the page. -/
def PageUnreadable (s : σ) (c : Criteria) (roots : List Node) (offset count : Nat) : Prop :=
  SelectionUnreadable s c ∨ ∃ root ∈ slice (c.sortRoots roots) offset count,
    WalkUnreadable s root.id maxHops Node.isDependent

theorem Legible.not_pageUnreadable (h : Legible s) (c : Criteria) (roots : List Node)
    (offset count : Nat) : ¬PageUnreadable s c roots offset count := by
  rintro ((hdataset | ⟨root, _, _, _, _, hwalk⟩) | ⟨root, _, hwalk⟩)
  · exact h.not_datasetUnreadable hdataset
  · exact h.not_walkUnreadable _ _ _ hwalk
  · exact h.not_walkUnreadable _ _ _ hwalk

open Classical in
theorem Valid.dependents_eq_ite (hs : Valid s) (root : String) :
    Store.dependents s root =
      if WalkUnreadable s root maxHops Node.isDependent then .error .unreadable
      else Store.dependents (⟨s⟩ : DeepReader σ) root := by
  rw [Store.dependents, Store.dependents, hs.walk_eq_ite]
  split
  · rfl
  · rfl

open Classical in
theorem Valid.isMatch_eq_ite (hs : Valid s) (c : Criteria) (root : Node) :
    Store.isMatch s c root = if MatchUnreadable s c root then .error .unreadable
      else Store.isMatch (⟨s⟩ : DeepReader σ) c root := by
  rw [Store.isMatch, Store.isMatch]
  simp only [MatchUnreadable, ← restrictsTypes_iff]
  cases c.matchesRoot root with
  | false => simp
  | true =>
    cases c.restrictsTypes with
    | false => simp
    | true =>
      simp only [Bool.not_true, Bool.false_eq_true, if_false, true_and]
      rw [hs.dependents_eq_ite]
      split
      · rfl
      · rfl

open Classical in
/-- Selecting roots fails exactly if it comes to something that cannot be read. -/
theorem Valid.matching_eq_ite (hs : Valid s) (c : Criteria) :
    Store.matching s c = if SelectionUnreadable s c then .error .unreadable
      else Store.matching (⟨s⟩ : DeepReader σ) c := by
  obtain ⟨ns, hns, _, hmem⟩ := hs.deepReader.exists_datasetRoots
  have hmatch : ∀ root ∈ ns, _ := fun root _ => hs.isMatch_eq_ite c root
  have hfilter := Fallible.filterM_eq_ite hmatch
    fun root hroot => ⟨_, hs.deepReader.isMatch_eq ((hmem root).1 hroot).1 ((hmem root).1 hroot).2⟩
  have hselection : SelectionUnreadable s c ↔ DatasetUnreadable s ∨
      ∃ root ∈ ns, MatchUnreadable s c root := by
    apply or_congr_right
    refine exists_congr fun root => ?_
    rw [hmem, and_assoc]
    rfl
  simp only [hselection]
  rw [Store.matching, Store.matching, hs.datasetRoots_eq_ite, hns]
  by_cases hdatasets : DatasetUnreadable s
  · rw [if_pos hdatasets, if_pos (.inl hdatasets)]
    rfl
  · rw [if_neg hdatasets]
    show ns.filterM (Store.isMatch s c) = _
    rw [hfilter]
    simp only [hdatasets, false_or]
    rfl

open Classical in
theorem Valid.page_eq_ite (hs : Valid s) {roots : List Node}
    (hroots : Store.matching (⟨s⟩ : DeepReader σ) c = .ok roots) (offset count : Nat) :
    Store.page s c offset count =
      if PageUnreadable s c roots offset count then .error .unreadable
      else Store.page (⟨s⟩ : DeepReader σ) c offset count := by
  obtain ⟨roots', hroots', _, hmem⟩ := hs.deepReader.exists_matching c
  cases Except.ok.inj (hroots.symm.trans hroots')
  have hexpand : ∀ root, Store.expand s c root =
      if WalkUnreadable s root.id maxHops Node.isDependent then .error .unreadable
      else Store.expand (⟨s⟩ : DeepReader σ) c root := by
    intro root
    rw [Store.expand, Store.expand, hs.dependents_eq_ite]
    split
    · rfl
    · rfl
  have hall : ∃ parts, (slice (c.sortRoots roots) offset count).mapM
      (Store.expand (⟨s⟩ : DeepReader σ) c) = .ok parts := by
    rw [Fallible.exists_mapM_ok_iff]
    intro root hroot
    have hsorted := List.mem_of_mem_drop (List.mem_of_mem_take hroot)
    obtain ⟨hood, _, _, hshown⟩ :=
      hs.deepReader.exists_expand ((hmem root).1 (List.mem_mergeSort.1 hsorted))
    exact ⟨_, hshown⟩
  have hparts := Fallible.mapM_eq_ite (fun root _ => hexpand root) hall
  rw [Store.page, Store.page, hs.matching_eq_ite, hroots]
  by_cases hselection : SelectionUnreadable s c
  · rw [if_pos hselection, if_pos (.inl hselection)]
    rfl
  · rw [if_neg hselection]
    show ((slice (c.sortRoots roots) offset count).mapM (Store.expand s c) >>= _) = _
    rw [hparts]
    by_cases hwalk : ∃ root ∈ slice (c.sortRoots roots) offset count,
        WalkUnreadable s root.id maxHops Node.isDependent
    · rw [if_pos hwalk, if_pos (.inr hwalk)]
      rfl
    · have hreadable : ¬PageUnreadable s c roots offset count := not_or.2 ⟨hselection, hwalk⟩
      rw [if_neg hwalk, if_neg hreadable]
      rfl

open Classical in
/-- A query fails exactly if it comes to something that cannot be read. -/
theorem Valid.query_eq_ite (hs : Valid s) {q : Query} (hc : q.criteria = .ok c) {roots : List Node}
    (hroots : Store.matching (⟨s⟩ : DeepReader σ) c = .ok roots) :
    Store.query s q =
      if PageUnreadable s c roots q.offset q.count then .error (.store .unreadable)
      else Store.query (⟨s⟩ : DeepReader σ) q := by
  rw [Store.query, Store.query, hc]
  dsimp only
  rw [hs.page_eq_ite hroots]
  by_cases hunreadable : PageUnreadable s c roots q.offset q.count
  · rw [if_pos hunreadable, if_pos hunreadable]
  · rw [if_neg hunreadable, if_neg hunreadable]

/-- What a query answers if it is not refused: a page, unless it comes to something that cannot be
read. -/
def Store.AnswersWith (s : σ) (q : Query) (c : Criteria) (roots : List Node)
    (answer : Page → Prop) : Prop :=
  (PageUnreadable s c roots q.offset q.count → query s q = .error (.store .unreadable)) ∧
    (¬PageUnreadable s c roots q.offset q.count → ∃ p, query s q = .ok p ∧ answer p)

theorem Store.AnswersWith.of_eq_ok {q : Query} {roots : List Node} {answer : Page → Prop}
    (h : AnswersWith s q c roots answer) {p : Page} (hp : query s q = .ok p) : answer p := by
  obtain ⟨p', hp', hanswer⟩ := h.2 fun hunreadable => by
    rw [h.1 hunreadable] at hp
    cases hp
  rw [hp] at hp'
  exact Except.ok.inj hp' ▸ hanswer

/-- A query answers with what it answers in the hands of a reader that reads everything. -/
theorem Valid.answersWith (hs : Valid s) {q : Query} (hc : q.criteria = .ok c) {roots : List Node}
    (hroots : Store.matching (⟨s⟩ : DeepReader σ) c = .ok roots) {answer : Page → Prop}
    (h : ∃ p, Store.query (⟨s⟩ : DeepReader σ) q = .ok p ∧ answer p) :
    Store.AnswersWith s q c roots answer := by
  rw [Store.AnswersWith, hs.query_eq_ite hc hroots]
  exact ⟨fun hunreadable => if_pos hunreadable, fun hreadable => by rwa [if_neg hreadable]⟩

/-- What a query counts: the roots that match.  Its page says how many they are, unless it comes to
something that cannot be read. -/
structure Store.Counts (s : σ) (q : Query) (c : Criteria) (roots : List Node) : Prop where
  criteria_eq : q.criteria = .ok c
  pairwise : roots.Pairwise fun m n => m.id < n.id
  mem_iff (n : Node) : n ∈ roots ↔ (contents s).Matches c n
  matching_eq : ¬SelectionUnreadable s c → matching s c = .ok roots
  matching_fails : SelectionUnreadable s c → matching s c = .error .unreadable
  answersWith : AnswersWith s q c roots fun p => p.total = roots.length

theorem Valid.exists_counts (hs : Valid s) {q : Query} (hc : q.criteria = .ok c) :
    ∃ roots, Store.Counts s q c roots := by
  classical
  obtain ⟨roots, hroots, hsorted, hmem⟩ := hs.deepReader.exists_matching c
  obtain ⟨p, hp, hshows⟩ := hs.deepReader.exists_query hc hroots fun n hn => (hmem n).1 hn
  refine ⟨roots, hc, hsorted, hmem, fun hreadable => ?_, fun hunreadable => ?_,
    hs.answersWith hc hroots ⟨p, hp, hshows.total_eq⟩⟩
  · rw [hs.matching_eq_ite, if_neg hreadable, hroots]
  · rw [hs.matching_eq_ite, if_pos hunreadable]

/-- A query that is not refused is answered in a reachable store, unless it comes to something that
cannot be read.  The roots that match do not depend on the order and the page; each page shows its
slice of them, and together the pages show each of them once. -/
theorem query_selects_exactly (h : Reachable s) {q : Query} (hc : q.criteria = .ok c) :
    ∃ roots : List Node,
      roots.Pairwise (fun m n => m.id < n.id) ∧
      (∀ n, n ∈ roots ↔ (contents s).Matches c n) ∧
      ∀ (orderBy : List String) (direction : Direction) (properties : List String),
        (∀ offset count, Store.AnswersWith s { q with offset, count, orderBy, direction, properties }
          { c with orderBy, direction, properties } roots fun p =>
            p.Shows (contents s) { c with orderBy, direction, properties } roots offset count) ∧
        (Criteria.sortRoots { c with orderBy, direction, properties } roots).Perm roots ∧
        ∀ count, 0 < count → ∀ root ∈ roots, ∃! k,
          root ∈ slice (Criteria.sortRoots { c with orderBy, direction, properties } roots)
            (k * count) count := by
  obtain ⟨roots, hroots, hsorted, hmem⟩ := h.valid.deepReader.exists_matching c
  refine ⟨roots, hsorted, hmem, ?_⟩
  intro orderBy direction properties
  have hmatching : Store.matching (⟨s⟩ : DeepReader σ) { c with orderBy, direction, properties } =
      .ok roots := hroots
  have hperm : (Criteria.sortRoots { c with orderBy, direction, properties } roots).Perm roots :=
    List.mergeSort_perm roots _
  refine ⟨?_, hperm, ?_⟩
  · intro offset count
    have hcriteria := criteria_eq hc offset count orderBy direction properties
    exact h.valid.answersWith hcriteria hmatching
      (h.valid.deepReader.exists_query hcriteria hmatching fun n hn => (hmem n).1 hn)
  · intro count hcount root hroot
    have hnodup : roots.Nodup := by
      refine hsorted.imp ?_
      rintro m n hlt rfl
      exact String.lt_irrefl _ hlt
    exact exists_unique_page (hperm.nodup_iff.2 hnodup) hcount (hperm.mem_iff.2 hroot)

/-- A dataset is selected by the label of its file. -/
theorem query_selects_by_file :
    Reachable (sharing ["a"] : TableStore) ∧
    Query.criteria { types := ["FileObject"] } =
      .ok ⟨[], [.fileObject], none, none, [], [], [], .ascending⟩ ∧
    ∃ roots : List Node, roots.length = 1 ∧
      (∀ n, n ∈ roots ↔ (contents (sharing ["a"] : TableStore)).Matches
        ⟨[], [.fileObject], none, none, [], [], [], .ascending⟩ n) ∧
      ∃ p, Store.query (sharing ["a"] : TableStore) { types := ["FileObject"] } = .ok p ∧
        p.Shows (contents (sharing ["a"] : TableStore))
          ⟨[], [.fileObject], none, none, [], [], [], .ascending⟩ roots 0 10 := by
  have hcriteria : Query.criteria { types := ["FileObject"] } =
      .ok ⟨[], [.fileObject], none, none, [], [], [], .ascending⟩ := rfl
  have htotal : ((Store.query (sharing ["a"] : TableStore) { types := ["FileObject"] }).map
      Page.total).toOption = some 1 := by decide +kernel
  obtain ⟨roots, _, hmem, hpages⟩ :=
    query_selects_exactly (reachable_sharing (σ := TableStore) ["a"]) hcriteria
  cases hp : Store.query (sharing ["a"] : TableStore) { types := ["FileObject"] } with
  | error fault =>
    rw [hp] at htotal
    cases htotal
  | ok p =>
    have hshows := ((hpages [] .ascending []).1 0 10).of_eq_ok hp
    rw [hp] at htotal
    exact ⟨reachable_sharing _, hcriteria, roots, hshows.total_eq ▸ Option.some.inj htotal, hmem, p,
      rfl, hshows⟩

end

end DatasetGraph
