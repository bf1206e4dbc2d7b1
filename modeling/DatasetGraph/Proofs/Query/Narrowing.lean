import DatasetGraph.Proofs.Date
import DatasetGraph.Proofs.Query.Selection
import Mathlib

/-!
# Narrower queries, and queries for several types

Each list of a query lets through what one of its members asks for, and everything if it is empty
(`Admits`).  So a query is at least as narrow as another in such a part if the other's list is empty, or
if its own is not and has only members of the other's (`Narrower`); an empty list is the widest of all,
and not the narrowest.

A query that is at least as narrow in every part (`Criteria.Narrows`) counts no other roots, and one
whose labels are those of two others, and which is like them in all else, counts the roots of both
(`queries_narrow_and_unite`).  Both are facts about lists that restrict, since the labels that a query
asks for are one of the parts (`Contents.matches_iff`).
-/

namespace DatasetGraph

/-! ## Lists that restrict -/

section

variable {α : Type} {xs ys zs : List α} {P : α → Prop}

/-- A member of the list has the property, or the list is empty and restricts nothing. -/
def Admits (xs : List α) (P : α → Prop) : Prop := xs = [] ∨ ∃ x ∈ xs, P x

/-- A list restricts at least as much as another, which is empty or has all its members; in the latter
case it restricts something. -/
def Narrower (xs ys : List α) : Prop := ys = [] ∨ xs ≠ [] ∧ xs ⊆ ys

theorem Narrower.admits (h : Narrower xs ys) (hxs : Admits xs P) : Admits ys P := by
  rcases h with hnil | ⟨hne, hsub⟩
  · exact .inl hnil
  · rcases hxs with hnil | ⟨x, hx, hP⟩
    · exact absurd hnil hne
    · exact .inr ⟨x, hsub hx, hP⟩

/-- A list put together from two that restrict something admits what one of them does. -/
theorem admits_iff_or (hxs : xs ≠ []) (hys : ys ≠ []) (hzs : ∀ z, z ∈ zs ↔ z ∈ xs ∨ z ∈ ys) :
    Admits zs P ↔ Admits xs P ∨ Admits ys P := by
  have hne : zs ≠ [] := by
    obtain ⟨x, hx⟩ := List.exists_mem_of_ne_nil xs hxs
    exact List.ne_nil_of_mem ((hzs x).2 (.inl hx))
  rw [Admits, Admits, Admits, or_iff_right hxs, or_iff_right hys, or_iff_right hne]
  simp only [hzs, or_and_right, exists_or]

end

/-! ## Criteria -/

namespace Criteria

/-- Criteria are at least as narrow as others in every part.  Where the others have a bound, they have
one as well, which is at least as tight. -/
structure Narrows (c d : Criteria) : Prop where
  ids : Narrower c.ids d.ids
  status : Narrower c.status d.status
  typeLabels : Narrower c.typeLabels d.typeLabels
  publishedFrom {first : Date} : d.publishedFrom = some first →
    ∃ first', c.publishedFrom = some first' ∧ first'.compare first ≠ .lt
  publishedTo {last : Date} : d.publishedTo = some last →
    ∃ last', c.publishedTo = some last' ∧ last'.compare last ≠ .gt

variable {c d : Criteria} {p : Properties}

theorem acceptsId_iff {id : String} : c.acceptsId id = true ↔ Admits c.ids (· = id) := by
  simp [acceptsId, Admits]

theorem acceptsStatus_iff : c.acceptsStatus p = true ↔
    Admits c.status fun s => (p.get? "status").bind Json.text? = some s := by
  simp [acceptsStatus, Admits, Option.any_eq_true, and_comm]

theorem acceptsDay_eq_true_iff {day : Date} : c.acceptsDay day = true ↔
    (∀ first, c.publishedFrom = some first → day.compare first ≠ .lt) ∧
      ∀ last, c.publishedTo = some last → day.compare last ≠ .gt := by
  rw [acceptsDay, Bool.and_eq_true, Option.all_eq_true, Option.all_eq_true]
  simp only [decide_eq_true_eq]

theorem acceptsDate_iff : c.acceptsDate p = true ↔
    c.publishedFrom = none ∧ c.publishedTo = none ∨
      ∃ day, (p.get? "datePublished").bind publicationDay? = some day ∧ c.acceptsDay day = true := by
  rw [acceptsDate, ← Option.any_eq_true]
  split
  · next hbound =>
    have hnone : ¬(c.publishedFrom = none ∧ c.publishedTo = none) := by
      rintro ⟨hfirst, hlast⟩
      simp [hfirst, hlast] at hbound
    rw [or_iff_right hnone]
  · next hbound =>
    refine iff_of_true rfl (.inl ?_)
    simpa using hbound

namespace Narrows

theorem acceptsDay (h : c.Narrows d) {day : Date} (hday : c.acceptsDay day = true) :
    d.acceptsDay day = true := by
  rw [acceptsDay_eq_true_iff] at hday ⊢
  constructor
  · intro first hfirst
    obtain ⟨first', hfirst', hle⟩ := h.publishedFrom hfirst
    exact Ordering.isGE_iff_ne_lt.1 (Std.TransCmp.isGE_trans
      (Ordering.isGE_iff_ne_lt.2 (hday.1 first' hfirst')) (Ordering.isGE_iff_ne_lt.2 hle))
  · intro last hlast
    obtain ⟨last', hlast', hle⟩ := h.publishedTo hlast
    exact Ordering.isLE_iff_ne_gt.1 (Std.TransCmp.isLE_trans
      (Ordering.isLE_iff_ne_gt.2 (hday.2 last' hlast')) (Ordering.isLE_iff_ne_gt.2 hle))

theorem acceptsDate (h : c.Narrows d) (hp : c.acceptsDate p = true) : d.acceptsDate p = true := by
  rw [acceptsDate_iff] at hp ⊢
  rcases hp with ⟨hfirst, hlast⟩ | ⟨day, hday, haccepts⟩
  · -- Without bounds of their own, the criteria narrow only such as have none.
    left
    constructor
    · rw [Option.eq_none_iff_forall_ne_some]
      intro first hd
      obtain ⟨_, hc, -⟩ := h.publishedFrom hd
      rw [hfirst] at hc
      cases hc
    · rw [Option.eq_none_iff_forall_ne_some]
      intro last hd
      obtain ⟨_, hc, -⟩ := h.publishedTo hd
      rw [hlast] at hc
      cases hc
  · exact .inr ⟨day, hday, h.acceptsDay haccepts⟩

theorem matchesRoot (h : c.Narrows d) {root : Node} (hroot : c.matchesRoot root = true) :
    d.matchesRoot root = true := by
  simp only [Criteria.matchesRoot, Bool.and_eq_true, acceptsId_iff, acceptsStatus_iff] at hroot ⊢
  obtain ⟨⟨hid, hdate⟩, hstatus⟩ := hroot
  exact ⟨⟨h.ids.admits hid, h.acceptsDate hdate⟩, h.status.admits hstatus⟩

end Narrows

end Criteria

/-! ## What matches -/

namespace Contents

variable (store : Contents)

/-- Something with the label is joined to the root by a path of dependent nodes. -/
def HasBelow (root : String) (l : Label) : Prop :=
  ∃ n k, 1 ≤ k ∧ k ≤ maxHops ∧ n.id ≠ root ∧ store.read? n.id = some n ∧
    store.Path Node.isDependent root k n.id ∧ n.hasLabel l = true

variable {store} {c d e : Criteria} {root : Node}

theorem hasQualifying_iff_hasBelow {root : String} :
    store.HasQualifying c root ↔ ∃ l ∈ c.typeLabels, store.HasBelow root l := by
  constructor
  · rintro ⟨n, k, hpos, hle, hne, hread, hpath, l, hl, hlabel⟩
    exact ⟨l, hl, n, k, hpos, hle, hne, hread, hpath, hlabel⟩
  · rintro ⟨l, hl, n, k, hpos, hle, hne, hread, hpath, hlabel⟩
    exact ⟨n, k, hpos, hle, hne, hread, hpath, l, hl, hlabel⟩

/-- The labels that are asked for restrict the roots as the other lists do. -/
theorem matches_iff : store.Matches c root ↔
    (store.read? root.id = some root ∧ root.isDataset = true ∧ c.matchesRoot root = true) ∧
      Admits c.typeLabels (store.HasBelow root.id) := by
  rw [Matches, hasQualifying_iff_hasBelow, Admits, ← Classical.or_iff_not_imp_left, and_assoc,
    and_assoc]

theorem Matches.widen (h : c.Narrows d) (hroot : store.Matches c root) : store.Matches d root := by
  rw [matches_iff] at hroot ⊢
  obtain ⟨⟨hread, hdataset, hself⟩, hlabels⟩ := hroot
  exact ⟨⟨hread, hdataset, h.matchesRoot hself⟩, h.typeLabels.admits hlabels⟩

/-- Of criteria that differ in their labels only, those with the labels of two others match what one
of these does. -/
theorem matches_iff_or {ls ms ns : List Label} (hls : ls ≠ []) (hms : ms ≠ [])
    (hns : ∀ l, l ∈ ns ↔ l ∈ ls ∨ l ∈ ms) :
    store.Matches { c with typeLabels := ns } root ↔
      store.Matches { c with typeLabels := ls } root ∨
        store.Matches { c with typeLabels := ms } root := by
  have hself : ∀ typeLabels, ({ c with typeLabels } : Criteria).matchesRoot root =
      c.matchesRoot root := fun _ => rfl
  simp only [matches_iff, hself, admits_iff_or hls hms hns, and_or_left]

end Contents

/-! ## Queries -/

namespace Query

/-- The queries agree in all but the names of types and encodings. -/
def AgreesButForTypes (q r : Query) : Prop := r = { q with types := r.types, mimeTypes := r.mimeTypes }

variable {q r : Query} {c d : Criteria}

/-- The criteria of such queries differ in their labels only. -/
theorem AgreesButForTypes.criteria_eq (h : q.AgreesButForTypes r) (hc : q.criteria = .ok c)
    (hd : r.criteria = .ok d) : d = { c with typeLabels := d.typeLabels } := by
  obtain ⟨types, encodings, first, last, -, -, hfirst, hlast, -, rfl⟩ := criteria_eq_ok_iff.1 hc
  obtain ⟨types', encodings', first', last', -, -, hfirst', hlast', -, rfl⟩ := criteria_eq_ok_iff.1 hd
  rw [h] at hfirst' hlast' ⊢
  obtain rfl := Except.ok.inj (hfirst.symm.trans hfirst')
  obtain rfl := Except.ok.inj (hlast.symm.trans hlast')
  rfl

/-- The query that names the types and encodings of another besides its own. -/
def together (q r : Query) : Query :=
  { q with types := q.types ++ r.types, mimeTypes := q.mimeTypes ++ r.mimeTypes }

/-- It asks for the labels of both, however they are spelled. -/
theorem exists_criteria_together (hc : q.criteria = .ok c) (hd : r.criteria = .ok d) :
    ∃ e, (q.together r).criteria = .ok e ∧
      ∀ l, l ∈ e.typeLabels ↔ l ∈ c.typeLabels ∨ l ∈ d.typeLabels := by
  obtain ⟨types, encodings, first, last, htypes, hencodings, hfirst, hlast, hrange, rfl⟩ :=
    criteria_eq_ok_iff.1 hc
  obtain ⟨types', encodings', -, -, htypes', hencodings', -, -, -, rfl⟩ := criteria_eq_ok_iff.1 hd
  refine ⟨_, criteria_eq_ok_iff.2 ⟨types ++ types', encodings ++ encodings', first, last,
    Fallible.mapM_append_eq_ok htypes htypes', Fallible.mapM_append_eq_ok hencodings hencodings',
    hfirst, hlast, hrange, rfl⟩, fun l => ?_⟩
  simp only [mem_distinct, List.mem_append, List.flatten_append]
  exact or_or_or_comm

end Query

/-! ## What is counted -/

section

variable {σ : Type} [LawfulBackend σ] {s : σ}

/-- In a reachable store, a query that is at least as narrow as another in every part counts only
roots that the other counts, and no more of them; and a query for the labels of two others that ask for
some, and with which it agrees in all else, counts the roots that one of them counts. -/
theorem queries_narrow_and_unite (h : Reachable s) :
    (∀ (wide narrow : Query) (c d : Criteria), wide.criteria = .ok c → narrow.criteria = .ok d →
      d.Narrows c → ∃ more fewer, Store.Counts s wide c more ∧ Store.Counts s narrow d fewer ∧
        fewer.Sublist more ∧ fewer.length ≤ more.length) ∧
    ∀ (both one other : Query) (c d e : Criteria), both.criteria = .ok c → one.criteria = .ok d →
      other.criteria = .ok e → both.AgreesButForTypes one → both.AgreesButForTypes other →
      d.typeLabels ≠ [] → e.typeLabels ≠ [] →
      (∀ l, l ∈ c.typeLabels ↔ l ∈ d.typeLabels ∨ l ∈ e.typeLabels) →
      ∃ roots roots₁ roots₂, Store.Counts s both c roots ∧ Store.Counts s one d roots₁ ∧
        Store.Counts s other e roots₂ ∧ ∀ n, n ∈ roots ↔ n ∈ roots₁ ∨ n ∈ roots₂ := by
  constructor
  · intro wide narrow c d hc hd hnarrows
    obtain ⟨more, hmore⟩ := h.valid.exists_counts hc
    obtain ⟨fewer, hfewer⟩ := h.valid.exists_counts hd
    have hsub : fewer.Sublist more := by
      apply sublist_of_pairwise_key hfewer.pairwise hmore.pairwise
      intro n hn
      exact (hmore.mem_iff n).2 (((hfewer.mem_iff n).1 hn).widen hnarrows)
    exact ⟨more, fewer, hmore, hfewer, hsub, hsub.length_le⟩
  · intro both one other c d e hc hd he hone hother hne₁ hne₂ hlabels
    obtain ⟨roots, hroots⟩ := h.valid.exists_counts hc
    obtain ⟨roots₁, hroots₁⟩ := h.valid.exists_counts hd
    obtain ⟨roots₂, hroots₂⟩ := h.valid.exists_counts he
    refine ⟨roots, roots₁, roots₂, hroots, hroots₁, hroots₂, fun n => ?_⟩
    rw [hroots.mem_iff, hroots₁.mem_iff, hroots₂.mem_iff, hone.criteria_eq hc hd,
      hother.criteria_eq hc he]
    exact Contents.matches_iff_or hne₁ hne₂ hlabels

end

/-! ## Three datasets -/

/-- A dataset with a table, one with a record set and one with nothing. -/
def Graph.shelf : Graph where
  nodes :=
    [⟨"a", ["Dataset"], KeyMap.empty.insert "datePublished" (.str "2024-01-15")⟩,
      ⟨"b", ["Dataset"], KeyMap.empty.insert "datePublished" (.str "2024-02-20T08:00:00Z")⟩,
      ⟨"c", ["Dataset"], .empty⟩, ⟨"f", ["CSV", "DataPart", "FileObject"], .empty⟩,
      ⟨"r", ["RecordSet"], .empty⟩]
  edges := [.plain "a" "f" "distribution", .plain "b" "r" "recordSet"]

/-- The store after these datasets are taken in. -/
def shelf {σ : Type} [Backend σ] : σ := ((Operation.ingest .shelf).perform Backend.empty).2

theorem reachable_shelf {σ : Type} [Backend σ] : Reachable (shelf : σ) :=
  .perform .empty (.ingest .shelf)

theorem datasetRoots_shelf :
    Store.datasetRoots (shelf : TableStore) = .ok (Graph.shelf.nodes.take 3) := by cbv

theorem Store.Counts.map_id {σ : Type} [LawfulBackend σ] {s : σ} {q : Query} {c : Criteria}
    {roots : List Node} {ids : List String} (h : Counts s q c roots)
    (hids : (Store.matching s c).map (List.map Node.id) = .ok ids) : roots.map Node.id = ids := by
  by_cases hunreadable : SelectionUnreadable s c
  · rw [h.matching_fails hunreadable] at hids
    cases hids
  · rw [h.matching_eq hunreadable] at hids
    exact Except.ok.inj hids

/-- With a later bound, and with ids asked for, a query counts the second of two datasets only; one that
asks for tables and record sets counts the dataset with a table and the one with a record set. -/
theorem queries_narrow_and_unite_on_shelf :
    Reachable (shelf : TableStore) ∧
    (∃ c d more fewer,
      Store.Counts (shelf : TableStore) { publishedFrom := some "2024-01-01" } c more ∧
        Store.Counts (shelf : TableStore)
          { publishedFrom := some "2024-02-01", nodeIds := ["c", "b"] } d fewer ∧
        fewer.Sublist more ∧ fewer.map Node.id = ["b"] ∧ more.map Node.id = ["a", "b"]) ∧
    ∃ c d e roots roots₁ roots₂,
      Store.Counts (shelf : TableStore)
          (Query.together { mimeTypes := [" TEXT/csv"] } { types := ["cr:RecordSet"] }) c roots ∧
        Store.Counts (shelf : TableStore) { mimeTypes := [" TEXT/csv"] } d roots₁ ∧
        Store.Counts (shelf : TableStore) { types := ["cr:RecordSet"] } e roots₂ ∧
        (∀ n, n ∈ roots ↔ n ∈ roots₁ ∨ n ∈ roots₂) ∧
        roots₁.map Node.id = ["a"] ∧ roots₂.map Node.id = ["b"] := by
  have hwide : Query.criteria { publishedFrom := some "2024-01-01" } =
      .ok ⟨[], [], some ⟨2024, 1, 1⟩, none, [], [], [], .ascending⟩ := by rfl
  have hnarrow : Query.criteria { publishedFrom := some "2024-02-01", nodeIds := ["c", "b"] } =
      .ok ⟨["c", "b"], [], some ⟨2024, 2, 1⟩, none, [], [], [], .ascending⟩ := by rfl
  have htables : Query.criteria { mimeTypes := [" TEXT/csv"] } =
      .ok ⟨[], [.csv], none, none, [], [], [], .ascending⟩ := by rfl
  have hrecords : Query.criteria { types := ["cr:RecordSet"] } =
      .ok ⟨[], [.recordSet], none, none, [], [], [], .ascending⟩ := by rfl
  obtain ⟨c, hboth, hlabels⟩ := Query.exists_criteria_together htables hrecords
  obtain ⟨hnarrows, hunites⟩ := queries_narrow_and_unite (reachable_shelf (σ := TableStore))
  refine ⟨reachable_shelf, ?_, ?_⟩
  · obtain ⟨more, fewer, hmore, hfewer, hsub, -⟩ := hnarrows _ _ _ _ hwide hnarrow
      { ids := .inl rfl, status := .inl rfl, typeLabels := .inl rfl
        publishedFrom := by
          rintro first ⟨⟩
          exact ⟨_, rfl, by decide⟩
        publishedTo := nofun }
    refine ⟨_, _, more, fewer, hmore, hfewer, hsub, hfewer.map_id ?_, hmore.map_id ?_⟩
    all_goals
      rw [Store.matching, datasetRoots_shelf]
      rfl
  · obtain ⟨roots, roots₁, roots₂, hroots, hroots₁, hroots₂, hmem⟩ := hunites _ _ _ _ _ _ hboth htables
      hrecords rfl rfl (List.cons_ne_nil _ _) (List.cons_ne_nil _ _) hlabels
    refine ⟨_, _, _, roots, roots₁, roots₂, hroots, hroots₁, hroots₂, hmem, hroots₁.map_id ?_,
      hroots₂.map_id ?_⟩
    all_goals
      rw [Store.matching, datasetRoots_shelf]
      cbv

end DatasetGraph
