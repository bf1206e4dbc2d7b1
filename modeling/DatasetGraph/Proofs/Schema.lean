import DatasetGraph.Schema

/-!
# Meeting the schema

A node meets the schema exactly if all its labels are allowed and they satisfy some kind
(`Node.meetsSchema_iff`); that there is a label at all follows, since every kind asks for one.  So it
is a matter of the set of labels, and labels put together from nodes that meet the schema meet it
too (`Node.meetsSchema_of_union`).

A strict report is valid exactly if every node of the graph meets the schema
(`Graph.isValid_strict_iff`).

What the checks look for can be said without them: which texts name a label (`Label.Names`), and what
a node lacks that is of no kind (`Node.FitsNoKind`).  A report lists just the nodes of which that is
so (`Graph.validate_decides_schema`).
-/

namespace DatasetGraph

/-! ## What names a label -/

namespace Label

/-- The text is the token of the label, by itself or behind the name of a known vocabulary and a
colon. -/
def Names (l : Label) (text : String) : Prop :=
  text = l.token ∨ ∃ v ∈ vocabularies, text = v ++ ":" ++ l.token

theorem colon_not_mem_vocabulary : ∀ v ∈ vocabularies, ':' ∉ v.toList := by decide

theorem colon_not_mem_token (l : Label) : ':' ∉ l.token.toList := by cases l <;> decide

theorem toList_append_colon (before after : String) :
    (before ++ ":" ++ after).toList = before.toList ++ ':' :: after.toList := by
  rw [String.toList_append, String.toList_append, List.append_assoc]
  rfl

/-- Cut at its first colon, a text falls into what stands before that and what stands behind it. -/
theorem splitAtColon?_eq_some_iff {text before after : String} :
    splitAtColon? text = some (before, after) ↔
      ':' ∉ before.toList ∧ text = before ++ ":" ++ after := by
  rw [splitAtColon?]
  constructor
  · intro h
    split at h
    · next c rest hrest =>
      cases h
      have hstop := List.head?_dropWhile_not (· ≠ ':') text.toList
      rw [hrest] at hstop
      obtain rfl : c = ':' := by simpa using hstop
      constructor
      · intro hmem
        rw [String.toList_ofList] at hmem
        simpa using List.all_eq_true.1 List.all_takeWhile _ hmem
      · rw [← String.toList_inj, toList_append_colon, String.toList_ofList, String.toList_ofList,
          ← hrest, List.takeWhile_append_dropWhile]
    · cases h
  · rintro ⟨hcolon, rfl⟩
    have hbefore : ∀ c ∈ before.toList, decide (c ≠ ':') = true := by
      intro c hc
      exact decide_eq_true (ne_of_mem_of_not_mem hc hcolon)
    rw [toList_append_colon, List.takeWhile_append_of_pos hbefore,
      List.dropWhile_append_of_pos hbefore, List.takeWhile_cons_of_neg (by decide),
      List.dropWhile_cons_of_neg (by decide)]
    simp

theorem parseQualified?_eq_some_iff {text : String} {l : Label} :
    parseQualified? text = some l ↔ ∃ v ∈ vocabularies, text = v ++ ":" ++ l.token := by
  rw [parseQualified?]
  constructor
  · intro h
    split at h
    · next vocabulary token hsplit =>
      split at h
      · next hv =>
        obtain ⟨-, rfl⟩ := splitAtColon?_eq_some_iff.1 hsplit
        rw [parse?_eq_some_iff.1 h]
        exact ⟨vocabulary, hv, rfl⟩
      · cases h
    · cases h
  · rintro ⟨v, hv, rfl⟩
    have hsplit : splitAtColon? (v ++ ":" ++ l.token) = some (v, l.token) :=
      splitAtColon?_eq_some_iff.2 ⟨colon_not_mem_vocabulary v hv, rfl⟩
    rw [hsplit]
    simp [hv]

/-- A text is resolved to the label that it names; it names one at most. -/
theorem resolve?_eq_some_iff {text : String} {l : Label} : resolve? text = some l ↔ l.Names text := by
  rw [resolve?]
  cases hparse : parse? text with
  | some m =>
    obtain rfl := parse?_eq_some_iff.1 hparse
    -- A token has no colon, so none is what stands behind a vocabulary.
    have hplain : ¬∃ v ∈ vocabularies, m.token = v ++ ":" ++ l.token := by
      rintro ⟨v, -, hv⟩
      apply m.colon_not_mem_token
      rw [hv, toList_append_colon]
      exact List.mem_append_right _ List.mem_cons_self
    rw [Names, or_iff_left hplain, Option.some.injEq]
    exact ⟨congrArg token, token_injective⟩
  | none =>
    have hplain : text ≠ l.token := by
      rintro rfl
      rw [parse?_token] at hparse
      cases hparse
    rw [Names, or_iff_right hplain]
    exact parseQualified?_eq_some_iff

theorem isAllowed_iff {text : String} : isAllowed text = true ↔ ∃ l : Label, l.Names text := by
  simp only [isAllowed, Option.isSome_iff_exists, resolve?_eq_some_iff]

end Label

/-! ## Labels and kinds -/

theorem Label.isAllowed_token (l : Label) : isAllowed l.token = true := by
  rw [isAllowed, resolve?, parse?_token]
  rfl

theorem Label.isAllowed_empty : isAllowed "" = false := by decide

namespace Kind

theorem isSome_foldl_moreSpecific {ks : List Kind} {best : Option Kind} :
    (ks.foldl moreSpecific best).isSome = true ↔ best.isSome = true ∨ ks ≠ [] := by
  induction ks generalizing best with
  | nil => simp
  | cons k ks ih =>
    have hkept : (moreSpecific best k).isSome = true := by
      cases best with
      | none => rfl
      | some b =>
        simp only [moreSpecific]
        split <;> rfl
    rw [List.foldl_cons, ih]
    exact ⟨fun _ => .inr (List.cons_ne_nil k ks), fun _ => .inl hkept⟩

/-- Labels are classified exactly if they satisfy a kind. -/
theorem isSome_classify?_iff {labels : List String} :
    (classify? labels).isSome = true ↔ ∃ k : Kind, k.isSatisfiedBy labels = true := by
  have hmem : ∀ k, k ∈ satisfied labels ↔ k.isSatisfiedBy labels = true := by
    intro k
    rw [satisfied, List.mem_filter, and_iff_right (mem_all k)]
  rw [classify?, isSome_foldl_moreSpecific]
  constructor
  · rintro (hnone | hne)
    · cases hnone
    · obtain ⟨k, hk⟩ := List.exists_mem_of_ne_nil _ hne
      exact ⟨k, (hmem k).1 hk⟩
  · rintro ⟨k, hk⟩
    exact .inr (List.ne_nil_of_mem ((hmem k).2 hk))

theorem isSatisfiedBy_mono {k : Kind} {xs ys : List String} (h : ∀ s ∈ xs, s ∈ ys)
    (hk : k.isSatisfiedBy xs = true) : k.isSatisfiedBy ys = true := by
  rw [isSatisfiedBy_iff] at hk ⊢
  exact fun l hl => h _ (hk l hl)

theorem ne_nil_of_isSatisfiedBy {k : Kind} {labels : List String}
    (hk : k.isSatisfiedBy labels = true) : labels ≠ [] := by
  have hprimary := isSatisfiedBy_iff.1 hk k.primary List.mem_cons_self
  exact List.ne_nil_of_mem hprimary

end Kind

/-! ## Nodes -/

namespace Node

variable {n : Node}

theorem isUnlabelled_iff : n.isUnlabelled = true ↔ n.labels = [] := List.isEmpty_iff

theorem hasUnknownLabel_iff :
    n.hasUnknownLabel = true ↔ ∃ l ∈ n.labels, Label.isAllowed l = false := by
  simp [hasUnknownLabel]

/-- The node has a label that names none of the register. -/
def HasForeignLabel (n : Node) : Prop := ∃ s ∈ n.labels, ∀ l : Label, ¬l.Names s

/-- The node has labels, but for every kind they leave out one that the kind asks for. -/
def FitsNoKind (n : Node) : Prop :=
  n.labels ≠ [] ∧ ∀ k : Kind, ∃ l ∈ k.required, l.token ∉ n.labels

theorem hasUnknownLabel_iff_hasForeignLabel : n.hasUnknownLabel = true ↔ n.HasForeignLabel := by
  simp only [hasUnknownLabel_iff, HasForeignLabel, Bool.eq_false_iff, Ne, Label.isAllowed_iff,
    not_exists]

theorem isKindless_iff : n.isKindless = true ↔ n.FitsNoKind := by
  rw [isKindless, Bool.and_eq_true, Bool.not_eq_true', Bool.eq_false_iff, Ne, isUnlabelled_iff,
    FitsNoKind]
  refine and_congr_right fun _ => ?_
  rw [Option.isNone_iff_eq_none, ← Option.not_isSome_iff_eq_none, Kind.isSome_classify?_iff,
    not_exists]
  simp only [Kind.isSatisfiedBy_iff, Classical.not_forall, exists_prop]

instance (n : Node) : Decidable n.HasForeignLabel :=
  decidable_of_iff (n.hasUnknownLabel = true) hasUnknownLabel_iff_hasForeignLabel

instance (n : Node) : Decidable n.FitsNoKind := decidable_of_iff (n.isKindless = true) isKindless_iff

theorem isKindless_eq_false {k : Kind} (hk : k.isSatisfiedBy n.labels = true) :
    n.isKindless = false := by
  have hsome : (Kind.classify? n.labels).isSome = true := Kind.isSome_classify?_iff.2 ⟨k, hk⟩
  rw [isKindless, Option.isNone_eq_false_iff.2 hsome, Bool.and_false]

theorem isUnlabelled_eq_false {k : Kind} (hk : k.isSatisfiedBy n.labels = true) :
    n.isUnlabelled = false := by
  rw [Bool.eq_false_iff, Ne, isUnlabelled_iff]
  exact Kind.ne_nil_of_isSatisfiedBy hk

theorem meetsSchema_iff : n.meetsSchema = true ↔
    (∀ l ∈ n.labels, Label.isAllowed l = true) ∧ ∃ k : Kind, k.isSatisfiedBy n.labels = true := by
  have hunknown : n.hasUnknownLabel = false ↔ ∀ l ∈ n.labels, Label.isAllowed l = true := by
    simp [hasUnknownLabel]
  simp only [meetsSchema, Bool.and_eq_true, Bool.not_eq_true', hunknown]
  constructor
  · rintro ⟨⟨hlabels, hallowed⟩, hkind⟩
    refine ⟨hallowed, Kind.isSome_classify?_iff.1 ?_⟩
    rw [isKindless, hlabels, Bool.not_false, Bool.true_and] at hkind
    exact Option.isNone_eq_false_iff.1 hkind
  · rintro ⟨hallowed, k, hk⟩
    exact ⟨⟨isUnlabelled_eq_false hk, hallowed⟩, isKindless_eq_false hk⟩

/-- Labels put together from nodes that meet the schema meet it. -/
theorem meetsSchema_of_union {ms : List Node} (hne : ms ≠ [])
    (hms : ∀ m ∈ ms, m.meetsSchema = true)
    (hn : ∀ l, l ∈ n.labels ↔ ∃ m ∈ ms, l ∈ m.labels) : n.meetsSchema = true := by
  rw [meetsSchema_iff]
  constructor
  · intro l hl
    obtain ⟨m, hm, hlm⟩ := (hn l).1 hl
    exact (meetsSchema_iff.1 (hms m hm)).1 l hlm
  · obtain ⟨m, hm⟩ := List.exists_mem_of_ne_nil ms hne
    obtain ⟨k, hk⟩ := (meetsSchema_iff.1 (hms m hm)).2
    exact ⟨k, Kind.isSatisfiedBy_mono (fun s hs => (hn s).2 ⟨m, hm, hs⟩) hk⟩

/-- No label of a node that meets the schema is empty. -/
theorem empty_not_mem_of_meetsSchema (h : n.meetsSchema = true) : "" ∉ n.labels := by
  intro hempty
  have hallowed := (meetsSchema_iff.1 h).1 _ hempty
  rw [Label.isAllowed_empty] at hallowed
  cases hallowed

end Node

/-! ## Reports -/

theorem Report.isValid_iff {r : Report} : r.isValid = true ↔
    r.nodesWithoutLabels = [] ∧ (r.strict = true → r.invalidNodes = [] ∧ r.unknownLabels = []) := by
  simp only [Report.isValid, Report.hasFindings, Bool.and_eq_true, List.isEmpty_iff]
  refine and_congr_right fun hlabels => ?_
  cases r.strict <;> simp [hlabels]

namespace Graph

variable {g : Graph}

theorem isValid_strict_iff :
    (g.validate true).isValid = true ↔ ∀ n ∈ g.nodes, n.meetsSchema = true := by
  have hmeets : ∀ n : Node, n.meetsSchema = true ↔
      n.isUnlabelled = false ∧ n.isKindless = false ∧ n.hasUnknownLabel = false := by
    intro n
    simp only [Node.meetsSchema, Bool.and_eq_true, Bool.not_eq_true', and_assoc]
    exact and_congr_right fun _ => and_comm
  rw [Report.isValid_iff]
  simp only [validate, List.map_eq_nil_iff, List.filter_eq_nil_iff, Bool.not_eq_true, hmeets,
    forall_const]
  constructor
  · rintro ⟨hlabels, hkind, hknown⟩ n hn
    exact ⟨hlabels n hn, hkind n hn, hknown n hn⟩
  · intro h
    exact ⟨fun n hn => (h n hn).1, fun n hn => (h n hn).2.1, fun n hn => (h n hn).2.2⟩

end Graph

/-! ## What reports list -/

/-- The report lists the nodes of the graph with which something is wrong, by what it is, in the order
of the graph and as often as they come. -/
structure Report.Lists (r : Report) (g : Graph) : Prop where
  totalNodes_eq : r.totalNodes = g.nodes.length
  nodesWithoutLabels_eq :
    r.nodesWithoutLabels = (g.nodes.filter fun n => n.labels = []).map Node.id
  unknownLabels_eq :
    r.unknownLabels = (g.nodes.filter fun n => n.HasForeignLabel).map Finding.ofNode
  invalidNodes_eq : r.invalidNodes = (g.nodes.filter fun n => n.FitsNoKind).map Finding.ofNode

/-- A node with these labels and no properties. -/
def Node.ofLabels (id : String) (labels : List String) : Node := ⟨id, labels, .empty⟩

/-- The graph of one node. -/
def Node.alone (n : Node) : Graph := ⟨[n], []⟩

namespace Graph

theorem lists_validate (g : Graph) (strict : Bool) : (g.validate strict).Lists g := by
  have hfilter : ∀ {p : Node → Bool} {P : Node → Prop} [DecidablePred P],
      (∀ n, p n = true ↔ P n) → g.nodes.filter p = g.nodes.filter fun n => P n := by
    intro p P _ h
    exact List.filter_congr fun n _ => Bool.eq_iff_iff.2 ((h n).trans decide_eq_true_iff.symm)
  constructor
  case totalNodes_eq => rfl
  case nodesWithoutLabels_eq =>
    rw [← hfilter fun _ => Node.isUnlabelled_iff]
    rfl
  case unknownLabels_eq =>
    rw [← hfilter fun _ => Node.hasUnknownLabel_iff_hasForeignLabel]
    rfl
  case invalidNodes_eq =>
    rw [← hfilter fun _ => Node.isKindless_iff]
    rfl

theorem isValid_alone_iff {n : Node} :
    (n.alone.validate true).isValid = true ↔ n.meetsSchema = true := by
  rw [isValid_strict_iff, Node.alone, List.forall_mem_singleton]

/-- A report lists what the schema finds wrong with the graph, strict or not.  A strict one is valid
exactly if nothing is listed, a lenient one exactly if every node has a label; and where two nodes
pass a strict validation, a node with the labels of both does. -/
theorem validate_decides_schema :
    (∀ (g : Graph) (strict : Bool), (g.validate strict).Lists g) ∧
    (∀ g : Graph, (g.validate true).isValid = true ↔ (g.validate true).nodesWithoutLabels = [] ∧
      (g.validate true).unknownLabels = [] ∧ (g.validate true).invalidNodes = []) ∧
    (∀ g : Graph, (g.validate false).isValid = true ↔ (g.validate false).nodesWithoutLabels = []) ∧
    ∀ m n both : Node, (m.alone.validate true).isValid = true →
      (n.alone.validate true).isValid = true →
      (∀ l, l ∈ both.labels ↔ l ∈ m.labels ∨ l ∈ n.labels) →
      (both.alone.validate true).isValid = true := by
  refine ⟨lists_validate, fun g => ?_, fun g => ?_, fun m n both hm hn hboth => ?_⟩
  · rw [Report.isValid_iff, and_comm (a := (g.validate true).unknownLabels = [])]
    exact and_congr_right fun _ => forall_prop_of_true rfl
  · rw [Report.isValid_iff]
    exact and_iff_left nofun
  · rw [isValid_alone_iff] at hm hn ⊢
    have hms : ∀ k ∈ [m, n], k.meetsSchema = true := by simp [hm, hn]
    refine Node.meetsSchema_of_union (List.cons_ne_nil m [n]) hms fun l => ?_
    rw [hboth]
    simp

/-- Nodes of which each fails in its own way: no kind asks for a qualified label, nothing may follow a
token, and a node without labels is listed for that alone. -/
def failing : Graph where
  nodes := [.ofLabels "a" ["sc:Dataset"], .ofLabels "b" ["Dataset", "sc:Dataset:"], .ofLabels "c" [],
    .ofLabels "a" ["Table", "FileObject", "cr:"]]
  edges := []

/-- A table and a column, each with labels of its own, may be one node; the nodes that fail are
listed. -/
theorem validate_decides_schema_of_table :
    ((Node.ofLabels "t" ["Table", "FileObject", "DataPart"]).alone.validate true).isValid = true ∧
    ((Node.ofLabels "f" ["Column", "cr:Field", "Field", "DataPart"]).alone.validate true).isValid =
      true ∧
    ((Node.ofLabels "t" ["cr:Field", "DataPart", "Field", "Table", "Column", "DataPart",
      "FileObject"]).alone.validate true).isValid = true ∧
    (failing.validate true).Lists failing ∧ (failing.validate true).isValid = false ∧
    (failing.validate true).nodesWithoutLabels = ["c"] ∧
    (failing.validate true).unknownLabels.map Finding.id = ["b", "a"] ∧
    (failing.validate true).invalidNodes.map Finding.id = ["a", "a"] := by
  obtain ⟨hlists, -, -, hmerged⟩ := validate_decides_schema
  have htable : ((Node.ofLabels "t" ["Table", "FileObject", "DataPart"]).alone.validate true).isValid =
      true := by decide
  have hcolumn : ((Node.ofLabels "f" ["Column", "cr:Field", "Field", "DataPart"]).alone.validate
      true).isValid = true := by decide
  refine ⟨htable, hcolumn, hmerged _ _ _ htable hcolumn fun l => ?_, hlists failing true, by decide,
    by decide, by decide, by decide⟩
  simp only [Node.ofLabels, List.mem_cons, List.not_mem_nil, or_false]
  grind

end Graph

end DatasetGraph
