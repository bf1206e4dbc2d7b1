import DatasetGraph.Proofs.Conversion.Exact

/-!
# The labels of converted entities

No label of a converted entity is empty.  Every entity but the dataset carries a label of a family
(`Document.Shows.isDependent`), and it is called a dataset only if its own type says so
(`Document.Shows.isDataset_eq_false`).
-/

namespace DatasetGraph

theorem Label.token_ne (l : Label) : l.token ≠ "" := by cases l <;> decide

theorem Relationship.token_ne (r : Relationship) : r.token ≠ "" := by cases r <;> decide

theorem Kind.dataset_not_mem_required {k : Kind} (h : k ≠ .dataset) :
    Label.dataset ∉ k.required := by
  cases k with
  | dataset => exact absurd rfl h
  | _ => decide

namespace TaggedKind

variable {t : TaggedKind}

theorem primary_mem_labels (t : TaggedKind) : t.kind.primary.token ∈ t.labels :=
  mem_labels.2 (.inr ⟨_, List.mem_cons_self, rfl⟩)

theorem empty_not_mem_labels (h : "" ∉ t.tags) : "" ∉ t.labels := by
  rw [mem_labels]
  rintro (htag | ⟨l, _, hl⟩)
  · exact h htag
  · exact l.token_ne hl

theorem dataset_not_mem_labels (hkind : t.kind ≠ .dataset) (h : Label.dataset.token ∉ t.tags) :
    Label.dataset.token ∉ t.labels := by
  rw [mem_labels]
  rintro (htag | ⟨l, hl, heq⟩)
  · exact h htag
  · exact Kind.dataset_not_mem_required hkind (Label.token_injective heq ▸ hl)

theorem primary_mem_withTag? (k : Kind) (type : Option String) :
    k.primary.token ∈ ((plain k).withTag? type).labels := by
  simpa using primary_mem_labels ((plain k).withTag? type)

theorem dataset_not_mem_withTag? {k : Kind} {type : Option String} (hk : k ≠ .dataset)
    (h : type ≠ some Label.dataset.token) :
    Label.dataset.token ∉ ((plain k).withTag? type).labels := by
  apply dataset_not_mem_labels
  · simpa using hk
  · simpa using fun htype => absurd htype h

end TaggedKind

/-- A distribution is held in files or in a database, and is no dataset. -/
theorem Distribution.classification_spec (x : Distribution) :
    x.classification.structural ∈ Family.distribution.labels ∧ x.classification.kind ≠ .dataset := by
  have table : ∀ e ∈ Encoding.table, ∀ contained,
      (e.classify contained).structural ∈ Family.distribution.labels ∧
        (e.classify contained).kind ≠ .dataset := by decide
  have fallback : ∀ collection, (Encoding.fallback collection).structural ∈
      Family.distribution.labels ∧ (Encoding.fallback collection).kind ≠ .dataset := by decide
  rw [classification]
  split
  · next e he =>
    obtain ⟨_, _, hlookup⟩ := Option.bind_eq_some_iff.1 he
    exact table e (List.mem_of_find?_eq_some hlookup) _
  · exact fallback _

theorem Distribution.kind_labels (x : Distribution) : x.labels.kind = x.classification.kind := by
  simp [labels]

theorem Distribution.mem_tags {x : Distribution} {s : String} : s ∈ x.labels.tags ↔
    s = Label.data.token ∨ s = x.classification.structural.token ∨ x.type = some s ∧ s ≠ "" := by
  simp [labels, Label.token_ne, or_assoc]

/-- What a field and its statistics say that they are. -/
def Field.types (f : Field) : List String :=
  f.type.toList ++ f.statistics.toList.flatMap (·.type.toList)

/-- What a record set and its fields say that they are. -/
def RecordSet.types (r : RecordSet) : List String := r.type.toList ++ r.fields.flatMap Field.types

namespace Document

/-- What the entries below the dataset say that they are, whether they have ids or not. -/
def types (d : Document) : List String :=
  d.distributions.flatMap (·.type.toList) ++ d.recordSets.flatMap RecordSet.types

variable {d : Document}

theorem HasDistribution.mem_types {dataset id type : String} {x : Distribution}
    (h : d.HasDistribution dataset x id) (htype : x.type = some type) : type ∈ d.types :=
  List.mem_append_left _ (List.mem_flatMap.2 ⟨x, h.mem, by simp [htype]⟩)

theorem HasRecordSet.mem_types {dataset id type : String} {r : RecordSet}
    (h : d.HasRecordSet dataset r id) (hr : type ∈ r.types) :
    type ∈ d.types :=
  List.mem_append_right _ (List.mem_flatMap.2 ⟨r, h.mem, hr⟩)

theorem HasField.mem_types {recordSet id type : String} {f : Field} (h : d.HasField recordSet f id)
    (hf : type ∈ f.types) : type ∈ d.types := by
  obtain ⟨_, _, hr, hmem⟩ := h.mem
  exact hr.mem_types (List.mem_append_right _ (List.mem_flatMap.2 ⟨f, hmem, hf⟩))

theorem HasStatistics.mem_types {field id type : String} {s : Statistics}
    (h : d.HasStatistics field s id) (htype : s.type = some type) : type ∈ d.types := by
  obtain ⟨_, _, hf, hs⟩ := h.statistics_eq
  exact hf.mem_types (by simp [Field.types, hs, htype])

namespace Shows

variable {n : Node}

theorem empty_not_mem_labels (h : d.Shows n) : "" ∉ n.labels := by
  cases h with
  | distribution =>
    apply TaggedKind.empty_not_mem_labels
    simp [Distribution.mem_tags, (Label.token_ne _).symm]
  | _ =>
    apply TaggedKind.empty_not_mem_labels
    simp

/-- What is not the dataset belongs to a family. -/
theorem isDependent (h : d.Shows n) (hid : identifier? d.id ≠ some n.id) : n.isDependent = true := by
  rw [Node.isDependent_iff]
  simp only [Node.hasLabel_iff]
  cases h with
  | dataset h => exact absurd h hid
  | @distribution _ _ x h =>
    refine ⟨.distribution, _, x.classification_spec.1, TaggedKind.mem_labels.2 (.inl ?_)⟩
    exact Distribution.mem_tags.2 (.inr (.inl rfl))
  | recordSet =>
    exact ⟨.recordSet, .recordSet, by decide, TaggedKind.primary_mem_withTag? .recordSet _⟩
  | @field _ _ f =>
    refine ⟨.recordSet, f.kind.primary, ?_, TaggedKind.primary_mem_withTag? f.kind _⟩
    rw [Field.kind]
    split <;> decide
  | statistics =>
    exact ⟨.recordSet, .statistics, by decide, TaggedKind.primary_mem_withTag? .statistics _⟩

/-- What is not the dataset is no dataset, as long as no entry says that it is. -/
theorem isDataset_eq_false (h : d.Shows n) (hid : identifier? d.id ≠ some n.id)
    (htypes : Label.dataset.token ∉ d.types) : n.isDataset = false := by
  rw [Bool.eq_false_iff, Node.isDataset, Ne, Node.hasLabel_iff]
  cases h with
  | dataset h => exact absurd h hid
  | @distribution _ _ x h =>
    apply TaggedKind.dataset_not_mem_labels
    · rw [x.kind_labels]
      exact x.classification_spec.2
    rw [Distribution.mem_tags]
    rintro (heq | heq | ⟨htype, _⟩)
    · cases Label.token_injective heq
    · have hmem := x.classification_spec.1
      rw [← Label.token_injective heq] at hmem
      revert hmem
      decide
    · exact htypes (h.mem_types htype)
  | recordSet h =>
    exact TaggedKind.dataset_not_mem_withTag? nofun fun htype =>
      htypes (h.mem_types (by simp [RecordSet.types, htype]))
  | @field _ _ f h =>
    refine TaggedKind.dataset_not_mem_withTag? ?_ fun htype =>
      htypes (h.mem_types (by simp [Field.types, htype]))
    rw [Field.kind]
    split <;> decide
  | statistics h =>
    exact TaggedKind.dataset_not_mem_withTag? nofun fun htype => htypes (h.mem_types htype)

end Shows

end Document

end DatasetGraph
