import DatasetGraph.Distinct
import DatasetGraph.Label

/-!
# Kinds and families of nodes

A *kind* is what a node can be.  It asks for a few labels, the first of which is its own; a node is
of every kind whose labels it carries, and `Kind.classify?` picks the one that asks for most.

A *family* gathers the labels of the entities that hang off a dataset: what holds the data, and what
describes its records.  A node with a label of either family is *dependent*: it is returned with its
dataset and deleted with it.
-/

namespace DatasetGraph

/-- What a node can be. -/
inductive Kind where
  | dataset
  /-- A collection of files of no more special kind. -/
  | data
  /-- A single file of no more special kind. -/
  | dataPart
  | relationalDatabase
  | table
  | csv
  | column
  | pdf
  | textSet
  | imageSet
  | recordSet
  | statistics
  | user
  | task
  | analyticalPattern
  | operator
deriving DecidableEq

namespace Kind

/-- Every kind, in the order of the register. -/
def all : List Kind :=
  [.dataset, .data, .dataPart, .relationalDatabase, .table, .csv, .column, .pdf, .textSet,
    .imageSet, .recordSet, .statistics, .user, .task, .analyticalPattern, .operator]

/-- The name of the kind. -/
def name : Kind → String
  | .dataset => "Dataset"
  | .data => "Data"
  | .dataPart => "DataPart"
  | .relationalDatabase => "RelationalDatabase"
  | .table => "Table"
  | .csv => "Csv"
  | .column => "Column"
  | .pdf => "Pdf"
  | .textSet => "TextSet"
  | .imageSet => "ImageSet"
  | .recordSet => "RecordSet"
  | .statistics => "Statistics"
  | .user => "User"
  | .task => "Task"
  | .analyticalPattern => "AnalyticalPattern"
  | .operator => "Operator"

/-- The kind of a name. -/
def ofName? (name : String) : Option Kind := all.find? fun k => k.name = name

/-- The kind's own label. -/
def primary : Kind → Label
  | .dataset => .dataset
  | .data => .data
  | .dataPart => .dataPart
  | .relationalDatabase => .relationalDatabase
  | .table => .table
  | .csv => .csv
  | .column => .column
  | .pdf => .pdf
  | .textSet => .textSet
  | .imageSet => .imageSet
  | .recordSet => .recordSet
  | .statistics => .statistics
  | .user => .user
  | .task => .task
  | .analyticalPattern => .analyticalPattern
  | .operator => .operator

/-- The labels that come with the kind's own. -/
def shared : Kind → List Label
  | .data => [.fileSet]
  | .dataPart => [.fileObject]
  | .relationalDatabase => [.databaseConnection, .data]
  | .table | .csv => [.dataPart, .fileObject]
  | .column | .pdf => [.dataPart, .field]
  | .textSet | .imageSet => [.data, .fileSet]
  | _ => []

/-- The labels that a node of the kind carries. -/
def required (k : Kind) : List Label := k.primary :: k.shared

/-- Whether labels include all that the kind asks for. -/
def isSatisfiedBy (k : Kind) (labels : List String) : Bool :=
  k.required.all fun l => labels.contains l.token

/-- The kinds that labels satisfy, in the order of the register. -/
def satisfied (labels : List String) : List Kind := all.filter (·.isSatisfiedBy labels)

/-- Keep the kind that asks for more labels, the later one if both ask for as many. -/
def moreSpecific (best : Option Kind) (k : Kind) : Option Kind :=
  match best with
  | none => some k
  | some b => if b.required.length ≤ k.required.length then some k else some b

/-- The most specific kind that labels satisfy. -/
def classify? (labels : List String) : Option Kind := (satisfied labels).foldl moreSpecific none

theorem mem_all (k : Kind) : k ∈ all := by cases k <;> decide

theorem isSatisfiedBy_iff {k : Kind} {labels : List String} :
    k.isSatisfiedBy labels = true ↔ ∀ l ∈ k.required, l.token ∈ labels := by
  simp [isSatisfiedBy]

end Kind

/-! ## Families -/

/-- The families of labels of what hangs off a dataset. -/
inductive Family where
  /-- Files, sets of files and databases. -/
  | distribution
  /-- Record sets, fields and their statistics. -/
  | recordSet
deriving DecidableEq

namespace Family

/-- The labels of the family. -/
def labels : Family → List Label
  | .distribution =>
    [.fileObject, .fileSet, .databaseConnection, .csv, .table, .textSet, .imageSet,
      .relationalDatabase]
  | .recordSet => [.recordSet, .field, .column, .pdf, .statistics]

/-- The name by which a query asks for the family. -/
def grouping : Family → String
  | .distribution => "distribution"
  | .recordSet => "recordSet"

/-- The family of a grouping name. -/
def ofGrouping? (name : String) : Option Family :=
  [distribution, recordSet].find? fun f => f.grouping = name

/-- Whether one of the labels belongs to the family. -/
def covers (f : Family) (labels : List String) : Bool :=
  labels.any fun text => f.labels.any fun l => l.token = text

/-- The family of labels.  What describes records comes first, since a field also carries the label
of a part of the data. -/
def of? (labels : List String) : Option Family :=
  [recordSet, distribution].find? (·.covers labels)

/-- Whether labels belong to a family. -/
def isDependent (labels : List String) : Bool := (of? labels).isSome

theorem isDependent_iff {labels : List String} :
    isDependent labels = true ↔ ∃ f : Family, ∃ l ∈ f.labels, l.token ∈ labels := by
  have hall : ∀ f : Family, f ∈ [recordSet, distribution] := by
    intro f
    cases f <;> decide
  have hcovers : ∀ f : Family, f.covers labels = true ↔ ∃ l ∈ f.labels, l.token ∈ labels := by
    intro f
    simp only [covers, List.any_eq_true, decide_eq_true_eq]
    constructor
    · rintro ⟨_, htoken, l, hl, rfl⟩
      exact ⟨l, hl, htoken⟩
    · rintro ⟨l, hl, htoken⟩
      exact ⟨_, htoken, l, hl, rfl⟩
  rw [isDependent, of?, List.find?_isSome]
  simp only [hcovers]
  exact ⟨fun ⟨f, _, hf⟩ => ⟨f, hf⟩, fun ⟨f, hf⟩ => ⟨f, hall f, hf⟩⟩

end Family

/-! ## The labels of a new node -/

/-- A kind, and further labels of a node of that kind. -/
structure TaggedKind where
  kind : Kind
  /-- Not empty, without repeats, in the order in which they were added. -/
  tags : List String
deriving DecidableEq

namespace TaggedKind

/-- A kind alone. -/
def plain (kind : Kind) : TaggedKind := ⟨kind, []⟩

/-- Add a tag, unless it is empty. -/
def withTag (t : TaggedKind) (tag : String) : TaggedKind :=
  if tag = "" then t else { t with tags := insertNew t.tags tag }

/-- Add a tag if there is one. -/
def withTag? (t : TaggedKind) : Option String → TaggedKind
  | some tag => t.withTag tag
  | none => t

@[simp] theorem kind_plain (k : Kind) : (plain k).kind = k := rfl

@[simp] theorem tags_plain (k : Kind) : (plain k).tags = [] := rfl

@[simp] theorem kind_withTag (t : TaggedKind) (tag : String) : (t.withTag tag).kind = t.kind := by
  rw [withTag]
  split <;> rfl

@[simp] theorem kind_withTag? (t : TaggedKind) (tag : Option String) :
    (t.withTag? tag).kind = t.kind := by
  cases tag with
  | none => rfl
  | some tag => exact t.kind_withTag tag

@[simp] theorem mem_tags_withTag {t : TaggedKind} {tag s : String} :
    s ∈ (t.withTag tag).tags ↔ s ∈ t.tags ∨ s = tag ∧ tag ≠ "" := by
  rw [withTag]
  split
  · next h => simp [h]
  · next h => simp [h]

@[simp] theorem mem_tags_withTag? {t : TaggedKind} {tag : Option String} {s : String} :
    s ∈ (t.withTag? tag).tags ↔ s ∈ t.tags ∨ tag = some s ∧ s ≠ "" := by
  cases tag with
  | none => simp [withTag?]
  | some tag =>
    rw [withTag?, mem_tags_withTag, Option.some.injEq]
    exact or_congr_right ⟨fun ⟨h, hne⟩ => ⟨h.symm, h ▸ hne⟩, fun ⟨h, hne⟩ => ⟨h.symm, h ▸ hne⟩⟩

/-- The labels of the node: the kind's own, the tags, and what else the kind asks for. -/
def labels (t : TaggedKind) : List String :=
  distinct (t.kind.primary.token :: t.tags ++ t.kind.required.map Label.token)

theorem mem_labels {t : TaggedKind} {s : String} :
    s ∈ t.labels ↔ s ∈ t.tags ∨ ∃ l ∈ t.kind.required, l.token = s := by
  simp only [labels, mem_distinct, List.cons_append, List.mem_cons, List.mem_append, List.mem_map]
  constructor
  · rintro (rfl | h | h)
    · exact .inr ⟨_, List.mem_cons_self, rfl⟩
    · exact .inl h
    · exact .inr h
  · rintro (h | h)
    · exact .inr (.inl h)
    · exact .inr (.inr h)

end TaggedKind

end DatasetGraph
