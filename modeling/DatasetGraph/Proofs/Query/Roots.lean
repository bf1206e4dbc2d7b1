import DatasetGraph.Proofs.Query.Neighborhoods
import DatasetGraph.Proofs.Query.Order
import DatasetGraph.Proofs.Store.Adjacency
import DatasetGraph.Proofs.Store.Legibility
import Mathlib

/-!
# Datasets on a page

One would have the datasets on a page be its roots, in their order, each cut to the properties asked
for (`Page.HoldsRoots`).  A walk enters every dependent node, though, also one that is a dataset
itself.  A root can so bring along another dataset (`Contents.BringsAlong`), which is returned whole,
whether it is on the page or not; and as repeats are dropped from the end, a root of the page that
an earlier one brings along is returned whole too.

The pages that a query answers with hold their roots exactly if none of the roots that match and can
be expanded brings along another dataset (`query_holds_roots_iff`).
-/

namespace DatasetGraph

/-- Another dataset is returned with a root. -/
def Contents.BringsAlong (store : Contents) (c : Criteria) (root id : String) : Prop :=
  id ≠ root ∧ store.ReturnedWith c root id ∧ ∃ n, store.read? id = some n ∧ n.isDataset = true

/-- The datasets on a page are the roots selected for it, cut to the properties asked for. -/
structure Page.HoldsRoots (c : Criteria) (selected : List Node) (p : Page) : Prop where
  ids_eq : (p.nodes.filter Node.isDataset).map Node.id = selected.map Node.id
  length_le : (p.nodes.filter Node.isDataset).length ≤ p.count
  cut : c.properties ≠ [] → ∀ n ∈ p.nodes, n.isDataset = true →
    ∀ k v, n.properties.get? k = some v → k ∈ c.properties

/-- Where no dataset is dependent, no root brings along another one. -/
theorem not_bringsAlong_of_apart {store : Contents} {c : Criteria}
    (h : ∀ n, store.read? n.id = some n → n.isDataset = true → n.isDependent = false)
    (hstore : store.WellFormed) (root id : String) : ¬store.BringsAlong c root id := by
  rintro ⟨hne, hreturned, n, hread, hdataset⟩
  obtain ⟨k, -, hpath⟩ := hreturned.within
  obtain rfl := hstore.read?_id hread
  rcases hpath.read with heq | ⟨m, hm, hdependent⟩
  · exact hne heq
  · obtain rfl := Option.some.inj (hm.symm.trans hread)
    rw [h m hread hdataset] at hdependent
    cases hdependent

/-! ## Choosing among first occurrences -/

section

variable {α β : Type} [DecidableEq α] {key : β → α}

theorem unseenOn_cons_of_not_mem {k : α} {xs : List β} (h : k ∉ xs.map key) (seen : List α) :
    unseenOn key (k :: seen) xs = unseenOn key seen xs := by
  induction xs generalizing seen with
  | nil => rfl
  | cons x xs ih =>
    obtain ⟨hne, hrest⟩ : k ≠ key x ∧ k ∉ xs.map key := by simpa using h
    have hperm : ∀ j, j ∈ key x :: k :: seen ↔ j ∈ k :: key x :: seen := by grind
    have hswap : unseenOn key (key x :: k :: seen) xs = unseenOn key (key x :: seen) xs := by
      rw [unseenOn_congr hperm, ih hrest]
    simp [unseenOn, Ne.symm hne, hswap, ih hrest]

/-- Where members of one key pass or fail together, it is the same to choose before or after repeats
are dropped. -/
theorem filter_unseenOn {p : β → Bool} {xs : List β}
    (h : ∀ x ∈ xs, ∀ y ∈ xs, key x = key y → p x = p y) (seen : List α) :
    (unseenOn key seen xs).filter p = unseenOn key seen (xs.filter p) := by
  induction xs generalizing seen with
  | nil => rfl
  | cons x xs ih =>
    have ih := ih fun y hy z hz => h y (List.mem_cons_of_mem _ hy) z (List.mem_cons_of_mem _ hz)
    by_cases hseen : key x ∈ seen
    · cases hp : p x <;> simp [unseenOn, hseen, hp, ih]
    · cases hp : p x with
      | true => simp [unseenOn, hseen, hp, ih]
      | false =>
        -- No later member of that key passes either.
        have hkey : key x ∉ (xs.filter p).map key := by
          intro hmem
          obtain ⟨y, hy, hyx⟩ := List.mem_map.1 hmem
          obtain ⟨hy, hpy⟩ := List.mem_filter.1 hy
          rw [← h x List.mem_cons_self y (List.mem_cons_of_mem _ hy) hyx.symm, hp] at hpy
          cases hpy
        simp [unseenOn, hseen, hp, ih, unseenOn_cons_of_not_mem hkey]

end

/-! ## Roots -/

section

variable {store : Contents} {c : Criteria}

theorem isDataset_project (root : Node) : (c.project root).isDataset = root.isDataset := by
  unfold Criteria.project
  split <;> rfl

theorem mem_properties_of_project (hc : c.properties ≠ []) {root : Node} {k : String} {v : Json}
    (h : (c.project root).properties.get? k = some v) : k ∈ c.properties := by
  rw [Criteria.project, if_neg (by simpa using hc)] at h
  have hfilter : ((root.properties.get? k).filter fun _ => c.properties.contains k) = some v := by
    rw [← h]
    exact (KeyMap.get?_filter root.properties (fun k _ => c.properties.contains k) k).symm
  simpa using (Option.filter_eq_some_iff.1 hfilter).2

variable {selected : List Node} {hoods : List Neighborhood}

/-- A node that is to be shown is stored with the labels that it is shown with. -/
theorem exists_stored_of_mem_parts (hselected : ∀ root ∈ selected, store.read? root.id = some root)
    (h : List.Forall₂ (Found store) selected hoods) {n : Node}
    (hn : n ∈ (List.zipWith (shown c) selected hoods).flatMap Prod.fst) :
    ∃ m, store.read? n.id = some m ∧ m.isDataset = n.isDataset := by
  obtain ⟨part, hpart, hn⟩ := List.mem_flatMap.1 hn
  obtain ⟨root, hroot, hood, hfound, rfl⟩ := exists_found_of_mem_parts h hpart
  rcases List.mem_cons.1 hn with rfl | hn
  · exact ⟨root, by rw [project_id]; exact hselected root hroot, (isDataset_project root).symm⟩
  · exact ⟨n, (hfound.read?_of_included hn).1, rfl⟩

theorem Found.filter_shown {root : Node} {hood : Neighborhood} (h : Found store root hood)
    (hdataset : root.isDataset = true) (hnone : ∀ id, ¬store.BringsAlong c root.id id) :
    (shown c root hood).1.filter Node.isDataset = [c.project root] := by
  have hincluded : (c.included hood).filter Node.isDataset = [] := by
    rw [List.filter_eq_nil_iff]
    intro n hn hn'
    obtain ⟨hread, hincludes, d, hpos, hle, hdist⟩ := h.read?_of_included hn
    have hreturned : store.ReturnedWith c root.id n.id :=
      .inr ⟨n, d, hread, hincludes, hpos, hle, hdist⟩
    exact hnone n.id ⟨hdist.ne_root hpos, hreturned, n, hread, hn'⟩
  show (c.project root :: c.included hood).filter Node.isDataset = _
  rw [List.filter_cons, isDataset_project, if_pos hdataset, hincluded]

theorem filter_parts (h : List.Forall₂ (Found store) selected hoods)
    (hdataset : ∀ root ∈ selected, root.isDataset = true)
    (hnone : ∀ root ∈ selected, ∀ id, ¬store.BringsAlong c root.id id) :
    ((List.zipWith (shown c) selected hoods).flatMap Prod.fst).filter Node.isDataset =
      selected.map c.project := by
  induction h with
  | nil => rfl
  | @cons root hood _ _ hfound _ ih =>
    have hfirst := hfound.filter_shown (hdataset root List.mem_cons_self)
      (hnone root List.mem_cons_self)
    rw [List.zipWith_cons_cons, List.flatMap_cons, List.filter_append, hfirst,
      ih (fun r hr => hdataset r (List.mem_cons_of_mem _ hr))
        (fun r hr => hnone r (List.mem_cons_of_mem _ hr))]
    rfl

/-! ## Pages -/

theorem filter_shownNodes (hselected : ∀ root ∈ selected, store.read? root.id = some root)
    (hdataset : ∀ root ∈ selected, root.isDataset = true) (hnodup : (selected.map Node.id).Nodup)
    (h : List.Forall₂ (Found store) selected hoods)
    (hnone : ∀ root ∈ selected, ∀ id, ¬store.BringsAlong c root.id id) :
    (shownNodes c selected hoods).filter Node.isDataset = selected.map c.project := by
  -- Nodes of one id are read from one stored node, so they are datasets together.
  have hagree : ∀ m ∈ (List.zipWith (shown c) selected hoods).flatMap Prod.fst,
      ∀ n ∈ (List.zipWith (shown c) selected hoods).flatMap Prod.fst,
        m.id = n.id → m.isDataset = n.isDataset := by
    intro m hm n hn hid
    obtain ⟨m', hm', hmdataset⟩ := exists_stored_of_mem_parts hselected h hm
    obtain ⟨n', hn', hndataset⟩ := exists_stored_of_mem_parts hselected h hn
    rw [hid, hn'] at hm'
    rw [← hmdataset, ← hndataset, Option.some.inj hm']
  have hids : (selected.map c.project).map Node.id = selected.map Node.id := by
    simp [Function.comp_def, project_id]
  rw [shownNodes, distinctNodes, distinctOn, filter_unseenOn hagree, filter_parts h hdataset hnone,
    unseenOn_of_nodup (by rwa [hids])]
  simp

theorem holdsRoots_shown (hselected : ∀ root ∈ selected, store.read? root.id = some root)
    (hdataset : ∀ root ∈ selected, root.isDataset = true) (hnodup : (selected.map Node.id).Nodup)
    (h : List.Forall₂ (Found store) selected hoods)
    (hnone : ∀ root ∈ selected, ∀ id, ¬store.BringsAlong c root.id id) {p : Page}
    (hnodes : p.nodes = shownNodes c selected hoods) (hcount : selected.length ≤ p.count) :
    p.HoldsRoots c selected := by
  have hfilter : p.nodes.filter Node.isDataset = selected.map c.project := by
    rw [hnodes]
    exact filter_shownNodes hselected hdataset hnodup h hnone
  constructor
  case ids_eq => simp [hfilter, Function.comp_def, project_id]
  case length_le => rwa [hfilter, List.length_map]
  case cut =>
    intro hc n hn hn' k v hv
    have hmem : n ∈ p.nodes.filter Node.isDataset := List.mem_filter.2 ⟨hn, hn'⟩
    rw [hfilter] at hmem
    obtain ⟨root, -, rfl⟩ := List.mem_map.1 hmem
    exact mem_properties_of_project hc hv

/-- A dataset that the only root of a page brings along is on the page. -/
theorem not_bringsAlong_of_holdsRoots (hstore : store.WellFormed) {root : Node}
    (h : List.Forall₂ (Found store) [root] hoods) {p : Page}
    (hnodes : p.nodes = shownNodes c [root] hoods) (hholds : p.HoldsRoots c [root]) (id : String) :
    ¬store.BringsAlong c root.id id := by
  rintro ⟨hne, hreturned, n, hread, hdataset⟩
  have hid : id ∈ (shownNodes c [root] hoods).map Node.id :=
    (mem_ids_shownNodes_iff hstore h id).2 ⟨root, List.mem_singleton.2 rfl, hreturned⟩
  obtain ⟨m, hm, rfl⟩ := List.mem_map.1 hid
  have hmdataset : m.isDataset = true := by
    rcases eq_project_or_stored h hm with ⟨root', hroot', rfl⟩ | hread'
    · rw [List.mem_singleton.1 hroot', project_id] at hne
      exact absurd rfl hne
    · rwa [← Option.some.inj (hread.symm.trans hread')]
  have hmem : m.id ∈ (p.nodes.filter Node.isDataset).map Node.id := by
    rw [hnodes]
    exact List.mem_map_of_mem (List.mem_filter.2 ⟨hm, hmdataset⟩)
  rw [hholds.ids_eq] at hmem
  exact hne (by simpa using hmem)

end

theorem slice_sublist {α : Type} (xs : List α) (offset count : Nat) :
    (slice xs offset count).Sublist xs :=
  (List.take_sublist _ _).trans (List.drop_sublist _ _)

theorem slice_one {α : Type} {xs : List α} {i : Nat} {x : α} (h : xs[i]? = some x) :
    slice xs i 1 = [x] := by
  obtain ⟨hlt, rfl⟩ := List.getElem?_eq_some_iff.1 h
  rw [slice, List.drop_eq_getElem_cons hlt]
  rfl

section

variable {σ : Type} [LawfulBackend σ] {s : σ} {c : Criteria}

/-- The pages that a query answers with hold their roots exactly if no root that matches brings along
another dataset, the roots apart that cannot be expanded for what cannot be read. -/
theorem query_holds_roots_iff (h : Reachable s) {q : Query} (hc : q.criteria = .ok c) :
    ∃ roots : List Node, roots.Pairwise (fun m n => m.id < n.id) ∧
      (∀ n, n ∈ roots ↔ (contents s).Matches c n) ∧
      ((∀ offset count, Store.AnswersWith s { q with offset, count } c roots fun p =>
          p.HoldsRoots c (slice (c.sortRoots roots) offset count)) ↔
        ∀ root ∈ roots, ¬SelectionUnreadable s c →
          ¬WalkUnreadable s root.id maxHops Node.isDependent →
          ∀ id, ¬(contents s).BringsAlong c root.id id) := by
  have hs := h.valid
  obtain ⟨roots, hroots, hsorted, hmem⟩ := hs.deepReader.exists_matching c
  have hpage : ∀ offset count, Store.AnswersWith s { q with offset, count } c roots
      fun p => p.Shows (contents s) c roots offset count := fun offset count =>
    hs.answersWith (q := { q with offset, count }) hc hroots
      (hs.deepReader.exists_query (q := { q with offset, count }) hc hroots fun n hn => (hmem n).1 hn)
  refine ⟨roots, hsorted, hmem, ?_, ?_⟩
  · -- Each root has a page of its own.
    intro hholds root hroot hselection hwalk id
    obtain ⟨i, hi⟩ := List.mem_iff_getElem?.1 ((sortRoots_perm c roots).mem_iff.2 hroot)
    have hreadable : ¬PageUnreadable s c roots i 1 := by
      rw [PageUnreadable, slice_one hi]
      simpa using And.intro hselection hwalk
    obtain ⟨p, hp, hshows⟩ := (hpage i 1).2 hreadable
    have hroots' := (hholds i 1).of_eq_ok hp
    obtain ⟨hoods, hfound, hnodes, -⟩ := hshows.expands
    rw [slice_one hi] at hfound hnodes hroots'
    exact not_bringsAlong_of_holdsRoots hs.wellFormed hfound hnodes hroots' id
  · intro hnone offset count
    refine ⟨(hpage offset count).1, fun hreadable => ?_⟩
    obtain ⟨hselection, hwalks⟩ := not_or.1 hreadable
    obtain ⟨p, hp, hshows⟩ := (hpage offset count).2 hreadable
    obtain ⟨hoods, hfound, hnodes, -⟩ := hshows.expands
    have hselected : ∀ root ∈ slice (c.sortRoots roots) offset count, root ∈ roots := fun r hr =>
      (sortRoots_perm c roots).subset ((slice_sublist _ _ _).subset hr)
    have hids : (roots.map Node.id).Nodup := by
      refine (List.pairwise_map.2 hsorted).imp ?_
      rintro x y hlt rfl
      exact String.lt_irrefl _ hlt
    have hnodup : ((slice (c.sortRoots roots) offset count).map Node.id).Nodup :=
      ((slice_sublist _ _ _).map Node.id).nodup (((sortRoots_perm c roots).map Node.id).nodup_iff.2 hids)
    have hlength : (slice (c.sortRoots roots) offset count).length ≤ p.count := by
      rw [hshows.count_eq, slice]
      exact List.length_take_le _ _
    exact ⟨p, hp, holdsRoots_shown (fun r hr => ((hmem r).1 (hselected r hr)).1)
      (fun r hr => ((hmem r).1 (hselected r hr)).2.1) hnodup hfound
      (fun r hr => hnone r (hselected r hr) hselection fun hwalk => hwalks ⟨r, hr, hwalk⟩) hnodes
      hlength⟩

/-- Datasets that share a file are apart, so their pages hold just them. -/
theorem query_holds_roots_of_sharing :
    Reachable (sharing ["a", "b"] : TableStore) ∧
    Query.criteria { properties := ["name"] } =
      .ok ⟨[], [], none, none, [], ["name"], [], .ascending⟩ ∧
    ∃ roots : List Node, ∀ offset count, ∃ p,
      Store.query (sharing ["a", "b"] : TableStore) { properties := ["name"], offset, count } =
          .ok p ∧
        p.HoldsRoots ⟨[], [], none, none, [], ["name"], [], .ascending⟩
          (slice (Criteria.sortRoots ⟨[], [], none, none, [], ["name"], [], .ascending⟩ roots) offset
            count) := by
  have hreach := reachable_sharing (σ := TableStore) ["a", "b"]
  have hcriteria : Query.criteria { properties := ["name"] } =
      .ok ⟨[], [], none, none, [], ["name"], [], .ascending⟩ := rfl
  obtain ⟨ns, hns, -, hmem⟩ := hreach.valid.deepReader.exists_datasetRoots
  have hdependent : ((Store.datasetRoots
      (⟨sharing ["a", "b"]⟩ : DeepReader TableStore)).map fun ns =>
        ns.all fun n => !n.isDependent).toOption = some true := by
    cbv
  rw [hns] at hdependent
  have hall : ∀ n ∈ ns, n.isDependent = false := by simpa using Option.some.inj hdependent
  have hapart : ∀ n, (contents (sharing ["a", "b"] : TableStore)).read? n.id = some n →
      n.isDataset = true → n.isDependent = false := fun n hread hdataset =>
    hall n ((hmem n).2 ⟨hread, hdataset⟩)
  obtain ⟨roots, -, -, hiff⟩ := query_holds_roots_iff hreach hcriteria
  have hanswers := hiff.2 fun root _ _ _ id =>
    not_bringsAlong_of_apart hapart hreach.valid.wellFormed root.id id
  exact ⟨hreach, hcriteria, roots, fun offset count =>
    (hanswers offset count).2 ((legible_sharing _).not_pageUnreadable _ _ _ _)⟩

end

/-! ## A dataset that is a file of another -/

/-- A dataset with a file. -/
def Node.outer : Node := ⟨"a", ["Dataset"], KeyMap.empty.insert "name" (.str "A")⟩

/-- A dataset that is a file itself. -/
def Node.inner : Node :=
  ⟨"b", ["Dataset", "FileObject"],
    (KeyMap.empty.insert "name" (.str "B")).insert "note" (.str "N")⟩

/-- A dataset whose file is a dataset. -/
def Graph.nested : Graph := ⟨[.outer, .inner], [.plain "a" "b" "distribution"]⟩

/-- The store after they are taken in. -/
def nested : AdjacencyStore := ((Operation.ingest .nested).perform Backend.empty).2

/-- Names of datasets are asked for, and their files. -/
def Criteria.names : Criteria := ⟨[], [], none, none, [], ["name", "distribution"], [], .ascending⟩

theorem page_nested_eq (count : Nat) (parts : List (List Node × List Edge))
    (hparts : ([.outer, .inner].take count).mapM (Store.expand nested .names) = .ok parts) :
    Store.page nested .names 0 count = .ok ⟨distinctNodes (parts.flatMap Prod.fst),
      distinctEdges (parts.flatMap Prod.snd), 0, count, 2⟩ := by
  have hroots : Store.matching nested .names = .ok [.outer, .inner] := by cbv
  have hsort : Criteria.names.sortRoots [.outer, .inner] = [.outer, .inner] :=
    List.mergeSort_of_pairwise (by decide)
  rw [Store.page, hroots]
  show (((Criteria.names.sortRoots [.outer, .inner]).take count).mapM
    (Store.expand nested .names) >>= _) = _
  rw [hsort, hparts]
  rfl

/-- Both datasets are roots of the page, and the second is returned with a property that is not asked
for.  A page with room for one root holds both of them too. -/
theorem query_returns_root_whole :
    Reachable nested ∧ Query.criteria { properties := ["name", "distribution"] } = .ok .names ∧
    (∃ p, Store.query nested { properties := ["name", "distribution"] } = .ok p ∧ p.total = 2 ∧
      p.nodes = [Criteria.names.project .outer, .inner] ∧
      ∀ selected, ¬p.HoldsRoots .names selected) ∧
    ∃ p, Store.query nested { properties := ["name", "distribution"], count := 1 } = .ok p ∧
      p.nodes = [Criteria.names.project .outer, .inner] ∧
      ∀ selected, ¬p.HoldsRoots .names selected := by
  have hdistinct : distinctNodes [Criteria.names.project .outer, .inner,
      Criteria.names.project .inner] = [Criteria.names.project .outer, .inner] := by decide
  have hboth := page_nested_eq 10
    [([Criteria.names.project .outer, .inner], [.plain "a" "b" "distribution"]),
      ([Criteria.names.project .inner], [])] (by decide +kernel)
  have hfirst := page_nested_eq 1
    [([Criteria.names.project .outer, .inner], [.plain "a" "b" "distribution"])]
    (by decide +kernel)
  refine ⟨.perform .empty (.ingest .nested), rfl, ?_, ?_⟩
  · refine ⟨_, query_eq_ok rfl hboth, rfl, hdistinct, fun selected hholds => ?_⟩
    have hmem : Node.inner ∈ distinctNodes [Criteria.names.project .outer, .inner,
        Criteria.names.project .inner] := by rw [hdistinct]; decide
    have hnote := hholds.cut (by decide) .inner hmem (by decide) "note" (.str "N") (by decide)
    exact absurd hnote (by decide)
  · refine ⟨_, query_eq_ok rfl hfirst, by decide, fun selected hholds => ?_⟩
    exact absurd hholds.length_le (by decide)

end DatasetGraph
