import DatasetGraph.Conversion
import DatasetGraph.Proofs.Conversion.Merge

/-!
# Conversion says what the document says

The entities of a document that are *mentioned* are the dataset itself and all that stand in a
mentioned entity with an id; statistics only count if they hold a value.  Each mentioned entity is
either a node of the graph or an issue, by whether it has an id (`graph_renders`).

How a document relates two ids is a relation on its own (`Document.Relates`), with one rule for each
way in which a document puts entities together.  The edges are exactly what it relates.
-/

namespace DatasetGraph

/-! ## What is mentioned -/

/-- An entity of a document, and the entity that it stands in. -/
structure Mention where
  entity : EntityKind
  parent : Option String
  id : Option String
deriving DecidableEq

/-- Whether an entity is reported to be without an id. -/
def Issue.isMissing : Issue → Bool
  | missingIdentifier _ _ => true
  | unknownEncoding _ _ => false

/-- What is reported of an entity without an id. -/
def Mention.issue? (m : Mention) : Option Issue :=
  if identifier? m.id = none then some (.missingIdentifier m.entity m.parent) else none

/-- Whether there is any value but `null`. -/
def Statistics.holdsValue (s : Statistics) : Bool := s.values.entries.any fun e => !e.2.isNull

/-- The statistics of a field, if they hold a value. -/
def Statistics.mentions (field : String) (s : Statistics) : List Mention :=
  if s.holdsValue then [⟨.statistics, field, s.id⟩] else []

/-- A field, and its statistics if it has an id. -/
def Field.mentions (recordSet : String) (f : Field) : List Mention :=
  ⟨.field, recordSet, f.id⟩ ::
    (identifier? f.id).toList.flatMap fun id => f.statistics.toList.flatMap (·.mentions id)

/-- A record set, and its fields if it has an id. -/
def RecordSet.mentions (dataset : String) (r : RecordSet) : List Mention :=
  ⟨.recordSet, dataset, r.id⟩ ::
    (identifier? r.id).toList.flatMap fun id => r.fields.flatMap (·.mentions id)

/-- A distribution. -/
def Distribution.mentions (dataset : String) (x : Distribution) : List Mention :=
  [⟨.distribution, dataset, x.id⟩]

/-- The distribution, if it has an id and its encoding is not in the table. -/
def Distribution.unknownEncodings (x : Distribution) : List Issue :=
  (identifier? x.id).toList.flatMap fun id =>
    if x.encoding? = none then [.unknownEncoding id x.encodingFormat] else []

namespace Document

/-- The dataset, and its distributions and record sets if it has an id. -/
def mentions (d : Document) : List Mention :=
  ⟨.dataset, none, d.id⟩ :: (identifier? d.id).toList.flatMap fun id =>
    d.distributions.flatMap (·.mentions id) ++ d.recordSets.flatMap (·.mentions id)

/-- The ids of what is mentioned, in the order of the document. -/
def ids (d : Document) : List String := d.mentions.filterMap fun m => identifier? m.id

/-- The distributions of a dataset with an id that have an id and are of unknown encoding. -/
def unknownEncodings (d : Document) : List Issue :=
  (identifier? d.id).toList.flatMap fun _ =>
    d.distributions.flatMap Distribution.unknownEncodings

/-! ## What is related -/

section

variable (d : Document)

/-- A distribution with an id, of a dataset with an id. -/
structure HasDistribution (dataset : String) (x : Distribution) (id : String) : Prop where
  dataset_eq : identifier? d.id = some dataset
  mem : x ∈ d.distributions
  id_eq : identifier? x.id = some id

/-- A record set with an id, of a dataset with an id. -/
structure HasRecordSet (dataset : String) (r : RecordSet) (id : String) : Prop where
  dataset_eq : identifier? d.id = some dataset
  mem : r ∈ d.recordSets
  id_eq : identifier? r.id = some id

/-- A field with an id, of such a record set. -/
structure HasField (recordSet : String) (f : Field) (id : String) : Prop where
  mem : ∃ dataset r, d.HasRecordSet dataset r recordSet ∧ f ∈ r.fields
  id_eq : identifier? f.id = some id

/-- Statistics with an id that hold a value, of such a field. -/
structure HasStatistics (field : String) (s : Statistics) (id : String) : Prop where
  statistics_eq : ∃ recordSet f, d.HasField recordSet f field ∧ f.statistics = some s
  holdsValue : s.holdsValue = true
  id_eq : identifier? s.id = some id

/-- How the document relates ids. -/
inductive Relates : String → Relationship → String → Prop
  | distribution {dataset id : String} {x : Distribution} (h : d.HasDistribution dataset x id) :
    Relates dataset .distribution id
  | containedIn {dataset id parent : String} {x : Distribution}
    (h : d.HasDistribution dataset x id) (hp : parent ∈ x.parents) : Relates id .containedIn parent
  | recordSet {dataset id : String} {r : RecordSet} (h : d.HasRecordSet dataset r id) :
    Relates dataset .recordSet id
  | field {recordSet id : String} {f : Field} (h : d.HasField recordSet f id) :
    Relates recordSet .field id
  | statistics {field id : String} {s : Statistics} (h : d.HasStatistics field s id) :
    Relates field .statistics id
  | sourceFileObject {recordSet id object : String} {f : Field} (h : d.HasField recordSet f id)
    (ho : f.fileObject? = some object) : Relates id .sourceFileObject object
  -- A set of files is the source only of a field without a file.
  | sourceFileSet {recordSet id set : String} {f : Field} (h : d.HasField recordSet f id)
    (ho : f.fileObject? = none) (hs : f.fileSet? = some set) : Relates id .sourceFileSet set

/-- The nodes that the document gives rise to. -/
inductive Shows : Node → Prop
  | dataset {id : String} (h : identifier? d.id = some id) :
    Shows ⟨id, ((TaggedKind.plain .dataset).withTag? d.type).labels, d.properties⟩
  | distribution {dataset id : String} {x : Distribution} (h : d.HasDistribution dataset x id) :
    Shows ⟨id, x.labels.labels, x.properties⟩
  | recordSet {dataset id : String} {r : RecordSet} (h : d.HasRecordSet dataset r id) :
    Shows ⟨id, ((TaggedKind.plain .recordSet).withTag? r.type).labels, r.properties⟩
  | field {recordSet id : String} {f : Field} (h : d.HasField recordSet f id) :
    Shows ⟨id, ((TaggedKind.plain f.kind).withTag? f.type).labels, f.properties⟩
  | statistics {field id : String} {s : Statistics} (h : d.HasStatistics field s id) :
    Shows ⟨id, ((TaggedKind.plain .statistics).withTag? s.type).labels, s.properties⟩

end

/-- The graph of the document and the issues say what the document says, and no more. -/
structure Renders (d : Document) (g : Graph) (issues : List Issue) : Prop where
  /-- The nodes come in the order in which their ids are first mentioned. -/
  ids_eq : g.nodes.map Node.id = distinct d.ids
  nodup_ids : (g.nodes.map Node.id).Nodup
  mem_edges_iff {e : Edge} : e ∈ g.edges ↔
    ∃ source r target, d.Relates source r target ∧ e = .plain source target r.token
  nodup_edges : (g.edges.map Edge.key).Nodup
  source_mem {e : Edge} : e ∈ g.edges → e.source ∈ g.nodes.map Node.id
  /-- Only what contains a distribution and where the values of a field come from may be missing. -/
  target_mem {source target : String} {r : Relationship} : d.Relates source r target →
    target ∈ g.nodes.map Node.id ∨ r = .containedIn ∨ r = .sourceFileObject ∨ r = .sourceFileSet
  not_null {n : Node} {key : String} {v : Json} :
    n ∈ g.nodes → n.properties.get? key = some v → v ≠ .null
  missing_eq : issues.filter Issue.isMissing = d.mentions.filterMap Mention.issue?
  unknown_eq : issues.filter (fun i => !i.isMissing) = d.unknownEncodings

end Document

/-! ## The order of the ids -/

/-- The ids of the nodes among elements. -/
def idsAmong (xs : List Element) : List String := (Graph.nodesAmong xs).map Node.id

@[simp] theorem idsAmong_nil : idsAmong [] = [] := rfl

@[simp] theorem idsAmong_append (xs ys : List Element) :
    idsAmong (xs ++ ys) = idsAmong xs ++ idsAmong ys := by
  simp [idsAmong]

@[simp] theorem idsAmong_flatMap {α : Type} (xs : List α) (f : α → List Element) :
    idsAmong (xs.flatMap f) = xs.flatMap fun x => idsAmong (f x) := by
  simp [idsAmong, Graph.nodesAmong, List.filterMap_flatMap, List.map_flatMap]

@[simp] theorem idsAmong_cons_node (id : String) (labels : TaggedKind) (p : Properties)
    (xs : List Element) : idsAmong (nodeOf id labels p :: xs) = id :: idsAmong xs := rfl

@[simp] theorem idsAmong_cons_edge (source target : String) (r : Relationship)
    (xs : List Element) : idsAmong (edgeOf source target r :: xs) = idsAmong xs := rfl

theorem Distribution.idsAmong_elements (dataset : String) (x : Distribution) :
    idsAmong (x.elements dataset) =
      (x.mentions dataset).filterMap fun m => identifier? m.id := by
  rw [elements, mentions]
  cases h : identifier? x.id with
  | none => simp [h]
  | some id =>
    have hedges : idsAmong (x.parents.map fun parent => edgeOf id parent .containedIn) = [] := by
      simp [idsAmong, Graph.nodesAmong, edgeOf, Element.node?]
    simp [h, hedges]

theorem Statistics.isEmpty_properties (s : Statistics) : s.properties.isEmpty = !s.holdsValue := by
  rw [Bool.eq_iff_iff]
  simp [properties, KeyMap.isEmpty, KeyMap.filter, holdsValue]

theorem Statistics.idsAmong_elements (field : String) (s : Statistics) :
    idsAmong (s.elements field) = (s.mentions field).filterMap fun m => identifier? m.id := by
  rw [elements, mentions, isEmpty_properties]
  cases s.holdsValue <;> cases h : identifier? s.id <;> simp [h]

theorem Field.idsAmong_sourceElements (id : String) (f : Field) :
    idsAmong (f.sourceElements id) = [] := by
  rw [sourceElements]
  split <;> rfl

theorem Field.idsAmong_elements (recordSet : String) (f : Field) :
    idsAmong (f.elements recordSet) =
      (f.mentions recordSet).filterMap fun m => identifier? m.id := by
  rw [elements, mentions]
  cases h : identifier? f.id with
  | none => simp [h]
  | some id =>
    simp [h, idsAmong_sourceElements, Statistics.idsAmong_elements, List.filterMap_flatMap]

theorem RecordSet.idsAmong_elements (dataset : String) (r : RecordSet) :
    idsAmong (r.elements dataset) =
      (r.mentions dataset).filterMap fun m => identifier? m.id := by
  rw [elements, mentions]
  cases h : identifier? r.id with
  | none => simp [h]
  | some id => simp [h, Field.idsAmong_elements, List.filterMap_flatMap]

/-- The nodes among the elements of a document are what it mentions with an id. -/
theorem Document.idsAmong_elements (d : Document) : idsAmong d.elements = d.ids := by
  rw [elements, ids, mentions]
  cases h : identifier? d.id with
  | none => simp [h]
  | some id =>
    simp [h, Distribution.idsAmong_elements, RecordSet.idsAmong_elements, List.filterMap_flatMap]

/-! ## Issues -/

theorem Statistics.missing_issues (field : String) (s : Statistics) :
    (s.issues field).filter Issue.isMissing = (s.mentions field).filterMap Mention.issue? := by
  rw [issues, mentions, isEmpty_properties]
  cases s.holdsValue <;> cases h : identifier? s.id <;> simp [h, Mention.issue?, Issue.isMissing]

theorem Field.missing_issues (recordSet : String) (f : Field) :
    (f.issues recordSet).filter Issue.isMissing =
      (f.mentions recordSet).filterMap Mention.issue? := by
  rw [issues, mentions]
  cases h : identifier? f.id with
  | none => simp [h, Mention.issue?, Issue.isMissing]
  | some id =>
    simp [h, Mention.issue?, Statistics.missing_issues, List.filterMap_flatMap,
      List.filter_flatMap]

theorem RecordSet.missing_issues (dataset : String) (r : RecordSet) :
    (r.issues dataset).filter Issue.isMissing =
      (r.mentions dataset).filterMap Mention.issue? := by
  rw [issues, mentions]
  cases h : identifier? r.id with
  | none => simp [h, Mention.issue?, Issue.isMissing]
  | some id =>
    simp [h, Mention.issue?, Field.missing_issues, List.filterMap_flatMap, List.filter_flatMap]

theorem Distribution.missing_issues (dataset : String) (x : Distribution) :
    (x.issues dataset).filter Issue.isMissing =
      (x.mentions dataset).filterMap Mention.issue? := by
  rw [issues, mentions]
  cases h : identifier? x.id <;> cases x.encoding? <;> simp [h, Mention.issue?, Issue.isMissing]

theorem Document.missing_issues (d : Document) :
    d.issues.filter Issue.isMissing = d.mentions.filterMap Mention.issue? := by
  rw [issues, mentions]
  cases h : identifier? d.id with
  | none => simp [h, Mention.issue?, Issue.isMissing]
  | some id =>
    simp [h, Mention.issue?, Distribution.missing_issues, RecordSet.missing_issues,
      List.filterMap_flatMap, List.filter_flatMap]

theorem Statistics.unknown_issues (field : String) (s : Statistics) :
    (s.issues field).filter (fun i => !i.isMissing) = [] := by
  rw [issues]
  cases s.properties.isEmpty <;> cases identifier? s.id <;> rfl

theorem Field.unknown_issues (recordSet : String) (f : Field) :
    (f.issues recordSet).filter (fun i => !i.isMissing) = [] := by
  rw [issues]
  cases identifier? f.id with
  | none => rfl
  | some id => simp [List.filter_flatMap, Statistics.unknown_issues]

theorem RecordSet.unknown_issues (dataset : String) (r : RecordSet) :
    (r.issues dataset).filter (fun i => !i.isMissing) = [] := by
  rw [issues]
  cases identifier? r.id with
  | none => rfl
  | some id => simp [List.filter_flatMap, Field.unknown_issues]

theorem Distribution.unknown_issues (dataset : String) (x : Distribution) :
    (x.issues dataset).filter (fun i => !i.isMissing) = x.unknownEncodings := by
  rw [issues, unknownEncodings]
  cases identifier? x.id <;> cases x.encoding? <;> simp [Issue.isMissing]

theorem Document.unknown_issues (d : Document) :
    d.issues.filter (fun i => !i.isMissing) = d.unknownEncodings := by
  rw [issues, unknownEncodings]
  cases identifier? d.id with
  | none => rfl
  | some id =>
    simp [List.filter_flatMap, Distribution.unknown_issues, RecordSet.unknown_issues]

/-! ## Elements -/

theorem Distribution.mem_elements_iff {dataset : String} {x : Distribution} {el : Element} :
    el ∈ x.elements dataset ↔ ∃ id, identifier? x.id = some id ∧
      (el = nodeOf id x.labels x.properties ∨ el = edgeOf dataset id .distribution ∨
        ∃ parent ∈ x.parents, el = edgeOf id parent .containedIn) := by
  rw [elements]
  cases identifier? x.id <;> simp [eq_comm]

theorem Statistics.mem_elements_iff {field : String} {s : Statistics} {el : Element} :
    el ∈ s.elements field ↔ ∃ id, s.holdsValue = true ∧ identifier? s.id = some id ∧
      (el = nodeOf id ((TaggedKind.plain .statistics).withTag? s.type) s.properties ∨
        el = edgeOf field id .statistics) := by
  rw [elements, isEmpty_properties]
  cases s.holdsValue <;> cases identifier? s.id <;> simp

theorem Field.mem_sourceElements_iff {id : String} {f : Field} {el : Element} :
    el ∈ f.sourceElements id ↔
      (∃ object, f.fileObject? = some object ∧ el = edgeOf id object .sourceFileObject) ∨
        ∃ set, f.fileObject? = none ∧ f.fileSet? = some set ∧ el = edgeOf id set .sourceFileSet := by
  rw [sourceElements]
  cases f.fileObject? <;> cases f.fileSet? <;> simp

theorem Field.mem_elements_iff {recordSet : String} {f : Field} {el : Element} :
    el ∈ f.elements recordSet ↔ ∃ id, identifier? f.id = some id ∧
      (el = nodeOf id ((TaggedKind.plain f.kind).withTag? f.type) f.properties ∨
        (∃ s, f.statistics = some s ∧ el ∈ s.elements id) ∨ el ∈ f.sourceElements id ∨
        el = edgeOf recordSet id .field) := by
  rw [elements]
  cases identifier? f.id <;> simp

theorem RecordSet.mem_elements_iff {dataset : String} {r : RecordSet} {el : Element} :
    el ∈ r.elements dataset ↔ ∃ id, identifier? r.id = some id ∧
      (el = nodeOf id ((TaggedKind.plain .recordSet).withTag? r.type) r.properties ∨
        el = edgeOf dataset id .recordSet ∨ ∃ f ∈ r.fields, el ∈ f.elements id) := by
  rw [elements]
  cases identifier? r.id <;> simp

theorem Document.mem_elements_iff {d : Document} {el : Element} :
    el ∈ d.elements ↔ ∃ id, identifier? d.id = some id ∧
      (el = nodeOf id ((TaggedKind.plain .dataset).withTag? d.type) d.properties ∨
        (∃ x ∈ d.distributions, el ∈ x.elements id) ∨ ∃ r ∈ d.recordSets, el ∈ r.elements id) := by
  rw [elements]
  cases identifier? d.id <;> simp

namespace Document

variable {d : Document}

theorem HasDistribution.mem_elements {dataset id : String} {x : Distribution}
    (h : d.HasDistribution dataset x id) {el : Element} (hel : el ∈ x.elements dataset) :
    el ∈ d.elements :=
  mem_elements_iff.2 ⟨dataset, h.dataset_eq, .inr (.inl ⟨x, h.mem, hel⟩)⟩

theorem HasRecordSet.mem_elements {dataset id : String} {r : RecordSet}
    (h : d.HasRecordSet dataset r id) {el : Element} (hel : el ∈ r.elements dataset) :
    el ∈ d.elements :=
  mem_elements_iff.2 ⟨dataset, h.dataset_eq, .inr (.inr ⟨r, h.mem, hel⟩)⟩

theorem HasField.mem_elements {recordSet id : String} {f : Field} (h : d.HasField recordSet f id)
    {el : Element} (hel : el ∈ f.elements recordSet) : el ∈ d.elements := by
  obtain ⟨dataset, r, hr, hf⟩ := h.mem
  exact hr.mem_elements (RecordSet.mem_elements_iff.2 ⟨recordSet, hr.id_eq, .inr (.inr ⟨f, hf, hel⟩)⟩)

theorem HasStatistics.mem_elements {field id : String} {s : Statistics}
    (h : d.HasStatistics field s id) {el : Element} (hel : el ∈ s.elements field) :
    el ∈ d.elements := by
  obtain ⟨recordSet, f, hf, hs⟩ := h.statistics_eq
  exact hf.mem_elements (Field.mem_elements_iff.2 ⟨field, hf.id_eq, .inr (.inl ⟨s, hs, hel⟩)⟩)

theorem shows_or_relates {el : Element} (h : el ∈ d.elements) :
    (∃ n, d.Shows n ∧ el = .node n) ∨
      ∃ source r target, d.Relates source r target ∧ el = edgeOf source target r := by
  obtain ⟨dataset, hdataset, rfl | ⟨x, hx, h⟩ | ⟨r, hr, h⟩⟩ := mem_elements_iff.1 h
  · exact .inl ⟨_, .dataset hdataset, rfl⟩
  · obtain ⟨id, hid, h⟩ := Distribution.mem_elements_iff.1 h
    have hx : d.HasDistribution dataset x id := ⟨hdataset, hx, hid⟩
    rcases h with rfl | rfl | ⟨parent, hp, rfl⟩
    · exact .inl ⟨_, .distribution hx, rfl⟩
    · exact .inr ⟨_, _, _, .distribution hx, rfl⟩
    · exact .inr ⟨_, _, _, .containedIn hx hp, rfl⟩
  · obtain ⟨recordSet, hid, h⟩ := RecordSet.mem_elements_iff.1 h
    have hr : d.HasRecordSet dataset r recordSet := ⟨hdataset, hr, hid⟩
    rcases h with rfl | rfl | ⟨f, hf, h⟩
    · exact .inl ⟨_, .recordSet hr, rfl⟩
    · exact .inr ⟨_, _, _, .recordSet hr, rfl⟩
    obtain ⟨field, hid, h⟩ := Field.mem_elements_iff.1 h
    have hf : d.HasField recordSet f field := ⟨⟨dataset, r, hr, hf⟩, hid⟩
    rcases h with rfl | ⟨s, hs, h⟩ | h | rfl
    · exact .inl ⟨_, .field hf, rfl⟩
    · obtain ⟨id, hvalue, hid, h⟩ := Statistics.mem_elements_iff.1 h
      have hs : d.HasStatistics field s id := ⟨⟨recordSet, f, hf, hs⟩, hvalue, hid⟩
      rcases h with rfl | rfl
      · exact .inl ⟨_, .statistics hs, rfl⟩
      · exact .inr ⟨_, _, _, .statistics hs, rfl⟩
    · rcases Field.mem_sourceElements_iff.1 h with ⟨object, ho, rfl⟩ | ⟨set, ho, hs, rfl⟩
      · exact .inr ⟨_, _, _, .sourceFileObject hf ho, rfl⟩
      · exact .inr ⟨_, _, _, .sourceFileSet hf ho hs, rfl⟩
    · exact .inr ⟨_, _, _, .field hf, rfl⟩

theorem Shows.mem_elements {n : Node} (h : d.Shows n) : Element.node n ∈ d.elements := by
  cases h with
  | dataset h => exact mem_elements_iff.2 ⟨_, h, .inl rfl⟩
  | distribution h => exact h.mem_elements (Distribution.mem_elements_iff.2 ⟨_, h.id_eq, .inl rfl⟩)
  | recordSet h => exact h.mem_elements (RecordSet.mem_elements_iff.2 ⟨_, h.id_eq, .inl rfl⟩)
  | field h => exact h.mem_elements (Field.mem_elements_iff.2 ⟨_, h.id_eq, .inl rfl⟩)
  | statistics h =>
    exact h.mem_elements (Statistics.mem_elements_iff.2 ⟨_, h.holdsValue, h.id_eq, .inl rfl⟩)

theorem Relates.mem_elements {source target : String} {r : Relationship}
    (h : d.Relates source r target) : edgeOf source target r ∈ d.elements := by
  cases h with
  | distribution h =>
    exact h.mem_elements (Distribution.mem_elements_iff.2 ⟨_, h.id_eq, .inr (.inl rfl)⟩)
  | containedIn h hp =>
    exact h.mem_elements
      (Distribution.mem_elements_iff.2 ⟨_, h.id_eq, .inr (.inr ⟨_, hp, rfl⟩)⟩)
  | recordSet h =>
    exact h.mem_elements (RecordSet.mem_elements_iff.2 ⟨_, h.id_eq, .inr (.inl rfl)⟩)
  | field h =>
    exact h.mem_elements (Field.mem_elements_iff.2 ⟨_, h.id_eq, .inr (.inr (.inr rfl))⟩)
  | statistics h =>
    exact h.mem_elements (Statistics.mem_elements_iff.2 ⟨_, h.holdsValue, h.id_eq, .inr rfl⟩)
  | sourceFileObject h ho =>
    exact h.mem_elements (Field.mem_elements_iff.2 ⟨_, h.id_eq,
      .inr (.inr (.inl (Field.mem_sourceElements_iff.2 (.inl ⟨_, ho, rfl⟩))))⟩)
  | sourceFileSet h ho hs =>
    exact h.mem_elements (Field.mem_elements_iff.2 ⟨_, h.id_eq,
      .inr (.inr (.inl (Field.mem_sourceElements_iff.2 (.inr ⟨_, ho, hs, rfl⟩))))⟩)

theorem node_mem_elements_iff {n : Node} : Element.node n ∈ d.elements ↔ d.Shows n := by
  constructor
  · intro h
    rcases shows_or_relates h with ⟨m, hm, heq⟩ | ⟨_, _, _, _, heq⟩
    · cases heq
      exact hm
    · cases heq
  · exact Shows.mem_elements

theorem edge_mem_elements_iff {e : Edge} : Element.edge e ∈ d.elements ↔
    ∃ source r target, d.Relates source r target ∧ e = .plain source target r.token := by
  constructor
  · intro h
    rcases shows_or_relates h with ⟨_, _, heq⟩ | ⟨source, r, target, hr, heq⟩
    · cases heq
    · cases heq
      exact ⟨source, r, target, hr, rfl⟩
  · rintro ⟨source, r, target, hr, rfl⟩
    exact hr.mem_elements

end Document

/-! ## Properties -/

/-- The values that a distribution holds. -/
def Distribution.Holds (x : Distribution) (v : Json) : Prop := ∃ k, x.attributes.get? k = some v

/-- The values that statistics hold. -/
def Statistics.Holds (s : Statistics) (v : Json) : Prop := ∃ k, s.values.get? k = some v

/-- The value that an extract holds. -/
def Extract.Holds (x : Extract) (v : Json) : Prop := x.column = some v

/-- The value that a source holds. -/
def FieldSource.Holds (s : FieldSource) (v : Json) : Prop := ∃ x, s.extract = some x ∧ x.Holds v

/-- The values that a field holds. -/
inductive Field.Holds (f : Field) (v : Json) : Prop
  | source {s : FieldSource} (source_eq : f.source = some s) (h : s.Holds v)
  | statistics {s : Statistics} (statistics_eq : f.statistics = some s) (h : s.Holds v)
  | other {k : String} (h : f.attributes.get? k = some v)

/-- The values that a record set holds. -/
inductive RecordSet.Holds (r : RecordSet) (v : Json) : Prop
  | field {f : Field} (mem : f ∈ r.fields) (h : f.Holds v)
  | other {k : String} (h : r.attributes.get? k = some v)

/-- The values that a document holds. -/
inductive Document.Holds (d : Document) (v : Json) : Prop
  | distribution {x : Distribution} (mem : x ∈ d.distributions) (h : x.Holds v)
  | recordSet {r : RecordSet} (mem : r ∈ d.recordSets) (h : r.Holds v)
  | metadata {k : String} (h : d.metadata.get? k = some v)

section

variable {P : Json → Prop} (htext : ∀ s, P (.str s))

namespace Properties

variable {p : Properties}

/-- Values that are copied are not `null`. -/
theorem all_withValue? (hp : p.All P) (key : String) {v : Option Json}
    (hv : ∀ w, v = some w → w.isNull = false → P w) : (p.withValue? key v).All P := by
  cases v with
  | none => exact hp
  | some v =>
    rw [Properties.withValue?]
    split
    · exact hp
    · next hnull => exact hp.insert key (hv v rfl (Bool.not_eq_true _ ▸ hnull))

theorem all_withKeys (hp : p.All P) {attributes : KeyMap Json}
    (ha : ∀ k v, attributes.get? k = some v → v.isNull = false → P v) (keys : List String) :
    (p.withKeys attributes keys).All P :=
  List.foldlRecOn keys _ hp fun _ hq k _ => all_withValue? hq k (ha k)

include htext

theorem all_withText? (hp : p.All P) (key : String) (s : Option String) :
    (p.withText? key s).All P := by
  cases s with
  | none => exact hp
  | some s => exact hp.insert key (htext s)

theorem all_ofType (type : Option String) : (ofType type).All P :=
  all_withText? htext KeyMap.all_empty "type" type

end Properties

open Properties

theorem Statistics.all_properties {s : Statistics}
    (h : ∀ v, s.Holds v → v.isNull = false → P v) : s.properties.All P := by
  intro k v hv
  rw [properties, KeyMap.get?_filter, Option.filter_eq_some_iff] at hv
  exact h v ⟨k, hv.1⟩ (by simpa using hv.2)

include htext

theorem Distribution.all_properties {x : Distribution}
    (h : ∀ v, x.Holds v → v.isNull = false → P v) : x.properties.All P := by
  have hattributes (k : String) (v : Json) (hv : x.attributes.get? k = some v) := h v ⟨k, hv⟩
  have common := all_withKeys
    (all_withText? htext (all_ofType htext x.type) "encodingFormat" x.encodingFormat) hattributes keys
  rw [properties]
  split
  · exact all_withKeys common hattributes _
  · exact common

theorem Field.all_properties {f : Field} (h : ∀ v, f.Holds v → v.isNull = false → P v) :
    f.properties.All P := by
  have hattributes (k : String) (v : Json) (hv : f.attributes.get? k = some v) := h v (.other hv)
  rw [properties]
  split
  · refine all_withValue? (all_withKeys (all_ofType htext f.type) hattributes _) _ fun v hv => h v ?_
    obtain ⟨x, hx, hcolumn⟩ := Option.bind_eq_some_iff.1 hv
    obtain ⟨s, hs, hx⟩ := Option.bind_eq_some_iff.1 hx
    exact .source hs ⟨x, hx, hcolumn⟩
  · exact all_withKeys (all_ofType htext f.type) hattributes _

/-- A node says nothing but texts and values of the document, and no `null`. -/
theorem Document.Shows.all_properties {d : Document}
    (hd : ∀ v, d.Holds v → v.isNull = false → P v) {n : Node} (h : d.Shows n) :
    n.properties.All P := by
  cases h with
  | dataset =>
    exact all_withKeys (all_ofType htext _) (fun k v hv => hd v (.metadata hv)) _
  | distribution h => exact Distribution.all_properties htext fun v hv => hd v (.distribution h.mem hv)
  | recordSet h =>
    exact all_withKeys (all_ofType htext _) (fun k v hv => hd v (.recordSet h.mem (.other hv))) _
  | field h =>
    obtain ⟨_, _, hr, hf⟩ := h.mem
    exact Field.all_properties htext fun v hv => hd v (.recordSet hr.mem (.field hf hv))
  | statistics h =>
    obtain ⟨_, _, hf, hs⟩ := h.statistics_eq
    obtain ⟨_, _, hr, hf⟩ := hf.mem
    exact Statistics.all_properties fun v hv =>
      hd v (.recordSet hr.mem (.field hf (.statistics hs hv)))

end

namespace Properties

/-- No value is `null`. -/
def NotNull (p : Properties) : Prop := p.All fun v => v ≠ .null

end Properties

theorem Document.Shows.notNull_properties {d : Document} {n : Node} (h : d.Shows n) :
    n.properties.NotNull := by
  refine h.all_properties (fun _ => nofun) fun v _ hnull => ?_
  rintro rfl
  cases hnull

/-! ## The graph -/

namespace Document

variable {d : Document}

theorem map_id_nodes_graph (d : Document) : d.graph.nodes.map Node.id = distinct d.ids := by
  rw [graph, Graph.map_id_nodes, ← idsAmong_elements, idsAmong]

theorem edges_graph (d : Document) : d.graph.edges = distinct (Graph.edgesAmong d.elements) := by
  rw [graph, Graph.edges_ofElements]
  intro e he
  obtain ⟨source, r, target, _, rfl⟩ := edge_mem_elements_iff.1 he
  exact ⟨source, target, r.token, rfl⟩

theorem mem_edges_graph_iff {e : Edge} : e ∈ d.graph.edges ↔
    ∃ source r target, d.Relates source r target ∧ e = .plain source target r.token := by
  rw [edges_graph, mem_distinct, Graph.mem_edgesAmong, edge_mem_elements_iff]

theorem mem_ids_graph_iff {id : String} :
    id ∈ d.graph.nodes.map Node.id ↔ ∃ n, d.Shows n ∧ n.id = id := by
  rw [graph, Graph.map_id_nodes, mem_distinct, List.mem_map]
  simp only [Graph.mem_nodesAmong, node_mem_elements_iff]

theorem Shows.id_mem {n : Node} (h : d.Shows n) : n.id ∈ d.graph.nodes.map Node.id :=
  mem_ids_graph_iff.2 ⟨n, h, rfl⟩

theorem Relates.source_mem {source target : String} {r : Relationship}
    (h : d.Relates source r target) : source ∈ d.graph.nodes.map Node.id := by
  cases h with
  | distribution h => exact (Shows.dataset h.dataset_eq).id_mem
  | containedIn h => exact (Shows.distribution h).id_mem
  | recordSet h => exact (Shows.dataset h.dataset_eq).id_mem
  | field h =>
    obtain ⟨_, _, hr, _⟩ := h.mem
    exact (Shows.recordSet hr).id_mem
  | statistics h =>
    obtain ⟨_, _, hf, _⟩ := h.statistics_eq
    exact (Shows.field hf).id_mem
  | sourceFileObject h => exact (Shows.field h).id_mem
  | sourceFileSet h => exact (Shows.field h).id_mem

theorem Relates.target_mem {source target : String} {r : Relationship}
    (h : d.Relates source r target) : target ∈ d.graph.nodes.map Node.id ∨
      r = .containedIn ∨ r = .sourceFileObject ∨ r = .sourceFileSet := by
  cases h with
  | distribution h => exact .inl (Shows.distribution h).id_mem
  | recordSet h => exact .inl (Shows.recordSet h).id_mem
  | field h => exact .inl (Shows.field h).id_mem
  | statistics h => exact .inl (Shows.statistics h).id_mem
  | containedIn => exact .inr (.inl rfl)
  | sourceFileObject => exact .inr (.inr (.inl rfl))
  | sourceFileSet => exact .inr (.inr (.inr rfl))

theorem nodup_keys_graph (d : Document) : (d.graph.edges.map Edge.key).Nodup := by
  have hnodup : d.graph.edges.Nodup := by
    rw [edges_graph]
    exact nodup_distinct _
  -- A plain edge is determined by its key.
  apply hnodup.map_on
  intro e he f hf hkey
  obtain ⟨_, _, _, _, rfl⟩ := mem_edges_graph_iff.1 he
  obtain ⟨_, _, _, _, rfl⟩ := mem_edges_graph_iff.1 hf
  exact Edge.key_plain_inj.1 hkey

/-- **A document and its graph say the same**, and what the graph leaves out is reported. -/
theorem graph_renders (d : Document) : d.Renders d.graph d.issues where
  ids_eq := d.map_id_nodes_graph
  nodup_ids := Graph.nodup_map_id_nodes d.elements
  mem_edges_iff := mem_edges_graph_iff
  nodup_edges := d.nodup_keys_graph
  source_mem := by
    intro e he
    obtain ⟨source, r, target, h, rfl⟩ := mem_edges_graph_iff.1 he
    exact h.source_mem
  target_mem := Relates.target_mem
  not_null := by
    intro n key v hn hv
    exact Graph.all_properties (fun m hm => (node_mem_elements_iff.1 hm).notNull_properties) hn key v hv
  missing_eq := d.missing_issues
  unknown_eq := d.unknown_issues

end Document

end DatasetGraph
