import DatasetGraph.Proofs.Conversion.Removal
import DatasetGraph.Proofs.Query.Selection

/-!
# Documents and queries speak of the same encodings

A file goes into a store under the kind that the table gives for its encoding, and a query for an
encoding asks for the kinds that the table can give for it.  Both look the encoding up in the same
way, so a dataset is found by the encoding of each of its files, however the document and the query
spell it, and a query is refused for an encoding exactly if the conversion of a document reports it
(`encodings_agree`).

What was stored before does not matter.  An ingest only adds labels to a node, so the file is found
one step from the dataset, with the label of its kind (`Document.Shows.exists_stored`).
-/

namespace DatasetGraph

/-! ## What an encoding stands for -/

namespace Encoding

theorem kind_classify_mem (e : Encoding) (isContained : Bool) :
    (e.classify isContained).kind ∈ e.kinds := by
  obtain ⟨_, standalone, contained, _⟩ := e
  cases isContained with
  | false => exact List.mem_cons_self
  | true =>
    cases contained with
    | none => exact List.mem_cons_self
    | some _ => exact List.mem_cons_of_mem _ (List.mem_singleton_self _)

end Encoding

/-- The kind of a distribution is one of those that its encoding can give. -/
theorem Distribution.kind_mem {x : Distribution} {row : Encoding} (h : x.encoding? = some row) :
    x.labels.kind ∈ row.kinds := by
  rw [x.kind_labels, classification, h]
  exact row.kind_classify_mem _

namespace Query

theorem encodingLabels_eq_ok_iff {text : String} {ls : List Label} :
    encodingLabels text = .ok ls ↔ ∃ row, Encoding.lookup? text = some row ∧
      ls = distinct (row.kinds.map Kind.primary) := by
  rw [encodingLabels, Encoding.labels?]
  cases Encoding.lookup? text with
  | none =>
    constructor
    · nofun
    · rintro ⟨_, hrow, _⟩
      cases hrow
  | some row =>
    constructor
    · intro h
      exact ⟨row, rfl, (Except.ok.inj h).symm⟩
    · rintro ⟨_, hrow, rfl⟩
      cases hrow
      rfl

theorem encodingLabels_eq_error_iff {text : String} {fault : QueryFault} :
    encodingLabels text = .error fault ↔
      Encoding.lookup? text = none ∧ fault = .unknownEncoding text := by
  apply Fallible.eq_error_iff
  · intro h
    rw [encodingLabels, Encoding.labels?, h]
    rfl
  · intro h
    obtain ⟨row, hrow⟩ := Option.ne_none_iff_exists'.1 h
    exact ⟨_, encodingLabels_eq_ok_iff.2 ⟨row, hrow, rfl⟩⟩

/-- Whether an encoding of a row of the table is asked for. -/
def AsksFor (q : Query) (row : Encoding) : Prop :=
  ∃ m ∈ q.mimeTypes, Encoding.lookup? m = some row

/-- Whether nothing is asked of the datasets themselves. -/
structure IsOpen (q : Query) : Prop where
  nodeIds_eq : q.nodeIds = []
  publishedFrom_eq : q.publishedFrom = none
  publishedTo_eq : q.publishedTo = none
  status_eq : q.status = []

variable {q : Query} {c : Criteria}

/-- A query for an encoding asks for the label of every kind that the encoding can give. -/
theorem AsksFor.mem_typeLabels {row : Encoding} (h : q.AsksFor row) (hc : q.criteria = .ok c)
    {k : Kind} (hk : k ∈ row.kinds) : k.primary ∈ c.typeLabels := by
  obtain ⟨m, hm, hrow⟩ := h
  obtain ⟨types, encodings, _, _, _, hencodings, _, _, _, rfl⟩ := criteria_eq_ok_iff.1 hc
  have hlabels : distinct (row.kinds.map Kind.primary) ∈ encodings :=
    (Fallible.mem_of_mapM_eq_ok hencodings).2 ⟨m, hm, encodingLabels_eq_ok_iff.2 ⟨row, hrow, rfl⟩⟩
  apply mem_distinct.2
  apply List.mem_append_right
  exact List.mem_flatten.2 ⟨_, hlabels, mem_distinct.2 (List.mem_map_of_mem hk)⟩

theorem IsOpen.matchesRoot (h : q.IsOpen) (hc : q.criteria = .ok c) (root : Node) :
    c.matchesRoot root = true := by
  obtain ⟨_, _, _, _, _, _, hfirst, hlast, _, rfl⟩ := criteria_eq_ok_iff.1 hc
  rw [h.publishedFrom_eq] at hfirst
  rw [h.publishedTo_eq] at hlast
  cases hfirst
  cases hlast
  simp [Criteria.matchesRoot, Criteria.acceptsId, Criteria.acceptsDate, Criteria.acceptsStatus,
    h.nodeIds_eq, h.status_eq]

end Query

/-! ## Finding the dataset of a file -/

namespace Document

variable {d : Document} {c : Contents} {settle : Json → Json}
  (ht : (c.ingest settle d.graph).WellFormed)

include ht

/-- A dataset is found by the label of a kind of one of its files. -/
theorem HasDistribution.exists_matches {root id : String} {x : Distribution}
    (hx : d.HasDistribution root x id) (hid : id ≠ root) {criteria : Criteria}
    (hroot : ∀ n, criteria.matchesRoot n = true)
    (hlabel : x.labels.kind.primary ∈ criteria.typeLabels) :
    ∃ n, n.id = root ∧ (c.ingest settle d.graph).Matches criteria n := by
  obtain ⟨n, hread, hkept⟩ := (Shows.dataset hx.dataset_eq).exists_stored ht
  have hdataset : n.isDataset = true :=
    hkept .dataset (Node.hasLabel_iff.2 (TaggedKind.primary_mem_withTag? .dataset _))
  obtain rfl : n.id = root := ht.read?_id hread
  refine ⟨n, rfl, hread, hdataset, hroot n, fun _ => ?_⟩
  -- The file is one step away.
  have hfile : d.Shows ⟨id, x.labels.labels, x.properties⟩ := .distribution hx
  obtain ⟨m, hread, hkept⟩ := hfile.exists_stored ht
  obtain rfl : m.id = id := ht.read?_id hread
  have hne : identifier? d.id ≠ some m.id := identifier?_ne_some hx.dataset_eq hid
  have hdependent : m.isDependent = true := by
    obtain ⟨f, l, hl, hhas⟩ := Node.isDependent_iff.1 (hfile.isDependent hne)
    exact Node.isDependent_iff.2 ⟨f, l, hl, hkept l hhas⟩
  have hpath : (c.ingest settle d.graph).Path Node.isDependent n.id 1 m.id :=
    .step .start ((Relates.distribution hx).joined hfile.id_mem) hread hdependent
  exact ⟨m, 1, by decide, by decide, hid, hread, hpath, _, hlabel,
    hkept _ (Node.hasLabel_iff.2 (TaggedKind.primary_mem_labels x.labels))⟩

end Document

/-! ## Unknown encodings -/

namespace Query

theorem exists_typeLabel_iff {text : String} :
    (∃ l, typeLabel text = .ok l) ↔ Label.isAllowed text = true := by
  rw [typeLabel, Label.isAllowed]
  cases Label.resolve? text with
  | none =>
    constructor
    · rintro ⟨_, h⟩
      cases h
    · nofun
  | some l => exact ⟨fun _ => rfl, fun _ => ⟨l, rfl⟩⟩

theorem typeLabel_eq_error_iff {text : String} {fault : QueryFault} :
    typeLabel text = .error fault ↔ Label.isAllowed text = false ∧ fault = .unknownType text := by
  apply Fallible.eq_error_iff
  · intro h
    rw [Label.isAllowed, Option.isSome_eq_false_iff, Option.isNone_iff_eq_none] at h
    rw [typeLabel, h]
  · intro h
    exact exists_typeLabel_iff.2 (by simpa using h)

theorem exists_encodingLabels_iff {text : String} :
    (∃ ls, encodingLabels text = .ok ls) ↔ (Encoding.lookup? text).isSome = true := by
  simp only [encodingLabels_eq_ok_iff, Option.isSome_iff_exists]
  exact ⟨fun ⟨_, row, hrow, _⟩ => ⟨row, hrow⟩, fun ⟨row, hrow⟩ => ⟨_, row, hrow, rfl⟩⟩

theorem bound?_ne_unknownEncoding (o : Option String) (text : String) :
    bound? o ≠ .error (.unknownEncoding text) := by
  cases o with
  | none => nofun
  | some day =>
    rw [bound?, bound]
    split <;> nofun

theorem checkRange_ne_unknownEncoding (first last : Option Date) (text : String) :
    checkRange first last ≠ .error (.unknownEncoding text) := by
  cases first with
  | none => nofun
  | some first =>
    cases last with
    | none => nofun
    | some last =>
      rw [checkRange]
      split <;> nofun

theorem exists_mapM_typeLabel_iff {texts : List String} :
    (∃ types, texts.mapM typeLabel = .ok types) ↔ ∀ type ∈ texts, Label.isAllowed type = true := by
  rw [Fallible.exists_mapM_ok_iff]
  simp only [exists_typeLabel_iff]

theorem mapM_encodingLabels_eq_error_iff {texts : List String} {text : String} :
    texts.mapM encodingLabels = .error (.unknownEncoding text) ↔
      ∃ before after, texts = before ++ text :: after ∧
        (∀ m ∈ before, (Encoding.lookup? m).isSome = true) ∧ Encoding.lookup? text = none := by
  rw [Fallible.mapM_eq_error_iff_first]
  simp only [exists_encodingLabels_iff, encodingLabels_eq_error_iff,
    QueryFault.unknownEncoding.injEq]
  constructor
  · rintro ⟨before, m, after, htexts, hbefore, hm, rfl⟩
    exact ⟨before, after, htexts, hbefore, hm⟩
  · rintro ⟨before, after, htexts, hbefore, hm⟩
    exact ⟨before, text, after, htexts, hbefore, hm, rfl⟩

/-- A query is refused for an encoding exactly if that is the first one that is not in the table,
and its types are known. -/
theorem criteria_eq_unknownEncoding_iff {q : Query} {text : String} :
    q.criteria = .error (.unknownEncoding text) ↔ (∀ type ∈ q.types, Label.isAllowed type = true) ∧
      ∃ before after, q.mimeTypes = before ++ text :: after ∧
        (∀ m ∈ before, (Encoding.lookup? m).isSome = true) ∧ Encoding.lookup? text = none := by
  rw [← exists_mapM_typeLabel_iff, ← mapM_encodingLabels_eq_error_iff, criteria]
  constructor
  · intro h
    rcases Fallible.bind_eq_error_iff.1 h with h | ⟨types, htypes, h⟩
    · obtain ⟨_, _, _, _, _, hfault⟩ := Fallible.mapM_eq_error_iff_first.1 h
      cases (typeLabel_eq_error_iff.1 hfault).2
    refine ⟨⟨types, htypes⟩, ?_⟩
    -- What comes after the encodings is refused for other reasons.
    rcases Fallible.bind_eq_error_iff.1 h with h | ⟨_, _, h⟩
    · exact h
    rcases Fallible.bind_eq_error_iff.1 h with h | ⟨_, _, h⟩
    · exact absurd h (bound?_ne_unknownEncoding _ _)
    rcases Fallible.bind_eq_error_iff.1 h with h | ⟨_, _, h⟩
    · exact absurd h (bound?_ne_unknownEncoding _ _)
    rcases Fallible.bind_eq_error_iff.1 h with h | ⟨_, _, h⟩
    · exact absurd h (checkRange_ne_unknownEncoding _ _ _)
    · cases h
  · rintro ⟨⟨types, htypes⟩, h⟩
    exact Fallible.bind_eq_error_iff.2 (.inr ⟨types, htypes, Fallible.bind_eq_error_iff.2 (.inl h)⟩)

end Query

theorem Distribution.mem_unknownEncodings_iff {x : Distribution} {i : Issue} :
    i ∈ x.unknownEncodings ↔ ∃ id, identifier? x.id = some id ∧ x.encoding? = none ∧
      i = .unknownEncoding id x.encodingFormat := by
  rw [unknownEncodings]
  by_cases h : x.encoding? = none <;> cases identifier? x.id <;> simp [h]

/-- An encoding is reported exactly if it is not in the table. -/
theorem Document.HasDistribution.unknownEncoding_mem_issues_iff {d : Document}
    {root id format : String} {x : Distribution} (hx : d.HasDistribution root x id)
    (hformat : x.encodingFormat = some format) :
    Issue.unknownEncoding id (some format) ∈ d.issues ↔ Encoding.lookup? format = none := by
  have hreported : Issue.unknownEncoding id (some format) ∈ d.issues ↔
      ∃ y ∈ d.distributions, Issue.unknownEncoding id (some format) ∈ y.unknownEncodings := by
    rw [← List.mem_flatMap]
    have hunknown : d.unknownEncodings = d.distributions.flatMap Distribution.unknownEncodings := by
      rw [unknownEncodings, hx.dataset_eq, Option.toList_some, List.flatMap_singleton]
    rw [← hunknown, ← d.unknown_issues, List.mem_filter]
    exact ⟨fun h => ⟨h, rfl⟩, And.left⟩
  rw [hreported]
  constructor
  · rintro ⟨y, _, hy⟩
    obtain ⟨_, _, hnone, hissue⟩ := Distribution.mem_unknownEncodings_iff.1 hy
    -- It may be another distribution that is reported, but it has the same encoding.
    have heq : some format = y.encodingFormat := (Issue.unknownEncoding.inj hissue).2
    rw [Distribution.encoding?, ← heq, Option.bind_some] at hnone
    exact hnone
  · intro hnone
    refine ⟨x, hx.mem, Distribution.mem_unknownEncodings_iff.2 ⟨id, hx.id_eq, ?_, ?_⟩⟩
    · rw [Distribution.encoding?, hformat, Option.bind_some]
      exact hnone
    · rw [hformat]

/-! ## Documents and queries -/

section

variable {σ : Type} [LawfulBackend σ] {s : σ}

/-- Once a document is taken in, its dataset is counted by every query for the row of one of its
files. -/
theorem Valid.exists_ingest_counts (hs : Valid s) {d : Document} {root id : String}
    {x : Distribution} {row : Encoding} (hx : d.HasDistribution root x id) (hid : id ≠ root)
    (hrow : x.encoding? = some row) (hfree : ¬IngestBlocked s d.graph) :
    ∃ written t, Store.ingest s d.graph = (.ok written, t) ∧
      ∀ (q : Query) (c : Criteria), q.criteria = .ok c → q.IsOpen → q.AsksFor row →
        ∃ roots, Store.Counts t q c roots ∧ root ∈ roots.map Node.id := by
  obtain ⟨written, t, hingest, ht, hcontents⟩ := hs.exists_ingest d.isWritable_graph hfree
  refine ⟨written, t, hingest, ?_⟩
  intro q c hc hopen hasks
  have hwellFormed := ht.wellFormed
  rw [hcontents] at hwellFormed
  obtain ⟨n, hn, hmatches⟩ := hx.exists_matches hwellFormed hid (hopen.matchesRoot hc)
    (hasks.mem_typeLabels hc (Distribution.kind_mem hrow))
  rw [← hcontents] at hmatches
  obtain ⟨roots, hcounts⟩ := ht.exists_counts hc
  exact ⟨roots, hcounts, List.mem_map.2 ⟨n, (hcounts.mem_iff n).2 hmatches, hn⟩⟩

/-- An ingest of a document fails only if it would be laid over what cannot be read. -/
theorem Valid.ingest_graph_of_blocked (hs : Valid s) {d : Document} (h : IngestBlocked s d.graph) :
    (Store.ingest s d.graph).1 = .error .unreadable := by
  rcases hs.ingest_of_blocked d.isWritable_graph h with heq | heq
  · rw [heq]
  · rw [heq]

/-- **Documents and queries agree on encodings.**  Once a document is taken in, whatever was stored
before, its dataset is counted by every query for the encoding of one of its files; it is taken in
unless that has to read what cannot be read.  And a query is refused for an encoding exactly if it is
reported of a file that has it. -/
theorem encodings_agree (h : Reachable s) {d : Document} {root id format : String}
    {x : Distribution} (hx : d.HasDistribution root x id) (hformat : x.encodingFormat = some format) :
    (id ≠ root → ∀ row, Encoding.lookup? format = some row →
      (IngestBlocked s d.graph → (Store.ingest s d.graph).1 = .error .unreadable) ∧
      (¬IngestBlocked s d.graph → ∃ written t, Store.ingest s d.graph = (.ok written, t) ∧
        ∀ (q : Query) (c : Criteria), q.criteria = .ok c → q.IsOpen → q.AsksFor row →
          ∃ roots, Store.Counts t q c roots ∧ root ∈ roots.map Node.id)) ∧
    (Query.encodingLabels format = .error (.unknownEncoding format) ↔
      Issue.unknownEncoding id (some format) ∈ d.issues) ∧
    ∀ q : Query, q.criteria = .error (.unknownEncoding format) ↔
      (∀ type ∈ q.types, Label.isAllowed type = true) ∧
      ∃ before after, q.mimeTypes = before ++ format :: after ∧
        (∀ m ∈ before, (Encoding.lookup? m).isSome = true) ∧
        Issue.unknownEncoding id (some format) ∈ d.issues := by
  have hreported := hx.unknownEncoding_mem_issues_iff hformat
  refine ⟨?_, ?_, ?_⟩
  · intro hid row hrow
    refine ⟨h.valid.ingest_graph_of_blocked, h.valid.exists_ingest_counts hx hid ?_⟩
    rw [Distribution.encoding?, hformat, Option.bind_some]
    exact hrow
  · rw [hreported, Query.encodingLabels_eq_error_iff]
    exact and_iff_left rfl
  · intro q
    rw [Query.criteria_eq_unknownEncoding_iff, hreported]

/-- The survey goes in beside another dataset and is found by the encoding of its file.  The encoding
that the file is said to have the second time is reported, and queries for it are refused. -/
theorem encodings_agree_survey :
    (∃ written t, Store.ingest (sharing ["x"] : TableStore) Document.survey.graph =
        (.ok written, t) ∧
      ∃ roots, Store.Counts t { mimeTypes := [" Text/CSV "] }
          ⟨[], [.csv], none, none, [], [], [], .ascending⟩ roots ∧
        "d" ∈ roots.map Node.id) ∧
    Query.criteria { mimeTypes := ["text/csv", "text/plain"] } =
      .error (.unknownEncoding "text/plain") := by
  have hfile : ∃ x, Document.survey.HasDistribution "d" x "csv" ∧
      x.encodingFormat = some "text/csv" := ⟨_, ⟨by decide, List.mem_cons_self, by decide⟩, rfl⟩
  have hagain : ∃ x, Document.survey.HasDistribution "d" x "csv" ∧
      x.encodingFormat = some "text/plain" :=
    ⟨_, ⟨by decide, List.mem_cons_of_mem _ List.mem_cons_self, by decide⟩, rfl⟩
  obtain ⟨x, hx, hcsv⟩ := hfile
  obtain ⟨y, hy, hplain⟩ := hagain
  have hs : Reachable (sharing ["x"] : TableStore) := reachable_sharing ["x"]
  have hlegible : Document.survey.graph.IsLegible TableStore :=
    (Document.isLegible_graph_iff TableStore _).2 (by decide +kernel)
  have hfree : ¬IngestBlocked (sharing ["x"] : TableStore) Document.survey.graph :=
    (legible_sharing ["x"]).not_ingestBlocked hs.valid Document.survey.isWritable_graph.nodes hlegible
  obtain ⟨written, t, hingest, hcounts⟩ := ((encodings_agree hs hx hcsv).1 (by decide)
    ⟨"text/csv", ⟨.csv, .fileObject⟩, none, ["sha256"]⟩ (by decide +kernel)).2 hfree
  refine ⟨⟨written, t, hingest, ?_⟩, ?_⟩
  · exact hcounts _ _ rfl ⟨rfl, rfl, rfl, rfl⟩ ⟨_, List.mem_singleton_self _, by decide +kernel⟩
  · rw [(encodings_agree hs hy hplain).2.2]
    exact ⟨nofun, ["text/csv"], [], rfl, by decide +kernel, by decide +kernel⟩

end

end DatasetGraph
