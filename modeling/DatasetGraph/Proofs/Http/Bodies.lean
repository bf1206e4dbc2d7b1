import DatasetGraph.Http.Service
import DatasetGraph.Proofs.Conversion.Exact
import DatasetGraph.Proofs.Document.Decode
import DatasetGraph.Proofs.Graph.Decode
import DatasetGraph.Proofs.Json.Depth
import DatasetGraph.Proofs.Store.Adjacency
import DatasetGraph.Proofs.Store.Legibility

/-!
# What is sent can be read again

The properties that come with a request are parts of its body, or of the document in it, so they are
nested less deep than a text may be (`Graph.decode_encloses`, `Document.decode_encloses`).  A store
writes them as one object each, which takes up the level that they lie deeper.  So a backend that can
read texts can read again whatever a request brings (`Request.bringsLegible_call`).
-/

namespace DatasetGraph

open Json (Source Fault Ending Decoder)
open Json.Decoder
open LawfulBackend (Fits)

/-! ## Graphs -/

/-- The values that a node holds. -/
def Node.Holds (n : Node) (v : Json) : Prop := ∃ k, n.properties.get? k = some v

/-- The values that an edge holds. -/
def Edge.Holds (e : Edge) (v : Json) : Prop := ∃ k, e.properties.get? k = some v

/-- The values that a graph holds. -/
inductive Graph.Holds (g : Graph) (v : Json) : Prop
  | node {n : Node} (mem : n ∈ g.nodes) (h : n.Holds v)
  | edge {e : Edge} (mem : e ∈ g.edges) (h : e.Holds v)

theorem not_holds_empty {v : Json} : ¬∃ k, (.empty : Properties).get? k = some v := nofun

theorem Node.decode_encloses : Encloses 1 Node.Holds Node.decode := by
  intro s n v hn hv
  cases s with
  | obj ms ending =>
    have hproperties := ((ofMembers_eq_ok_iff ms ending n).1 hn).2.properties
    refine Nat.le_of_succ_le (hproperties.depth_lt map_encloses ?_ hv ending)
    rintro _ ⟨⟩
    exact not_holds_empty
  | arr ss ending =>
    rw [decode, record, ofItems] at hn
    obtain ⟨⟨id, rest⟩, hid, hn⟩ := Fallible.bind_eq_ok_iff.1 hn
    cases id with
    | none => cases hn
    | some id =>
      obtain ⟨⟨labels, rest₁⟩, hlabels, hn⟩ := Fallible.bind_eq_ok_iff.1 hn
      obtain ⟨⟨properties, rest₂⟩, hproperties, hn⟩ := Fallible.bind_eq_ok_iff.1 hn
      obtain ⟨_, _, hn⟩ := Fallible.bind_eq_ok_iff.1 hn
      cases hn
      have hdepth := takeItem_depth_le hproperties map_encloses not_holds_empty hv
      have hrest := depthItems_rest_le hid
      have hrest₁ := depthItems_rest_le hlabels
      rw [Source.depth]
      omega
  | _ => cases hn

theorem Edge.decode_encloses : Encloses 1 Edge.Holds Edge.decode := by
  intro s e v he hv
  cases s with
  | obj ms ending =>
    have hproperties := ((ofMembers_eq_ok_iff ms ending e).1 he).2.properties
    refine Nat.le_of_succ_le (hproperties.depth_lt map_encloses ?_ hv ending)
    rintro _ ⟨⟩
    exact not_holds_empty
  | arr ss ending =>
    rw [decode, record, ofItems] at he
    obtain ⟨⟨source, rest⟩, hsource, he⟩ := Fallible.bind_eq_ok_iff.1 he
    cases source with
    | none => cases he
    | some source =>
      obtain ⟨⟨target, rest₁⟩, htarget, he⟩ := Fallible.bind_eq_ok_iff.1 he
      cases target with
      | none => cases he
      | some target =>
        obtain ⟨⟨labels, rest₂⟩, hlabels, he⟩ := Fallible.bind_eq_ok_iff.1 he
        obtain ⟨⟨properties, rest₃⟩, hproperties, he⟩ := Fallible.bind_eq_ok_iff.1 he
        obtain ⟨_, _, he⟩ := Fallible.bind_eq_ok_iff.1 he
        cases he
        have hdepth := takeItem_depth_le hproperties map_encloses not_holds_empty hv
        have hrest := depthItems_rest_le hsource
        have hrest₁ := depthItems_rest_le htarget
        have hrest₂ := depthItems_rest_le hlabels
        rw [Source.depth]
        omega
  | _ => cases he

theorem Graph.decode_encloses : Encloses 1 Graph.Holds Graph.decode := by
  have hnodes := Node.decode_encloses.list
  have hedges := Edge.decode_encloses.list
  intro s g v hg hv
  cases s with
  | obj ms ending =>
    obtain ⟨_, h⟩ := (ofMembers_eq_ok_iff ms ending g).1 hg
    cases hv with
    | node mem hn =>
      exact Nat.le_trans (by omega) (h.nodes.depth_lt hnodes (by rintro _ ⟨⟩ ⟨_, h, _⟩; cases h)
        ⟨_, mem, hn⟩ ending)
    | edge mem he =>
      exact Nat.le_trans (by omega) (h.edges.depth_lt hedges (by rintro _ ⟨⟩ ⟨_, h, _⟩; cases h)
        ⟨_, mem, he⟩ ending)
  | arr ss ending =>
    rw [decode, record, ofItems] at hg
    obtain ⟨⟨nodes, rest⟩, hn, hg⟩ := Fallible.bind_eq_ok_iff.1 hg
    obtain ⟨⟨edges, rest₁⟩, he, hg⟩ := Fallible.bind_eq_ok_iff.1 hg
    obtain ⟨_, _, hg⟩ := Fallible.bind_eq_ok_iff.1 hg
    cases hg
    have hrest := depthItems_rest_le hn
    rw [Source.depth]
    cases hv with
    | node mem hv =>
      have hdepth := takeItem_depth_le hn hnodes (by rintro ⟨_, h, _⟩; cases h) ⟨_, mem, hv⟩
      omega
    | edge mem hv =>
      have hdepth := takeItem_depth_le he hedges (by rintro ⟨_, h, _⟩; cases h) ⟨_, mem, hv⟩
      omega
  | _ => cases hg

/-! ## Documents -/

theorem Distribution.decode_encloses : Encloses 1 Distribution.Holds Distribution.decode := by
  rintro s x v hx ⟨k, hv⟩
  cases s with
  | obj ms ending => exact ((ofMembers_eq_ok_iff ms ending x).1 hx).2.attributes.depth_lt hv ending
  | _ => cases hx

theorem Statistics.decode_encloses : Encloses 1 Statistics.Holds Statistics.decode := by
  rintro s x v hx ⟨k, hv⟩
  cases s with
  | obj ms ending => exact ((ofMembers_eq_ok_iff ms ending x).1 hx).2.values.depth_lt hv ending
  | _ => cases hx

/-- A part that need not be there holds nothing if it is not. -/
theorem not_holds_none {α : Type} {holds : α → Json → Prop} {v : Json} :
    ∀ y ∈ some (none : Option α), ¬∃ x, y = some x ∧ holds x v := by
  rintro _ ⟨⟩ ⟨_, h, _⟩
  cases h

theorem not_holds_nil {α : Type} {holds : α → Json → Prop} {v : Json} :
    ∀ y ∈ some ([] : List α), ¬∃ x ∈ y, holds x v := by
  rintro _ ⟨⟩ ⟨_, h, _⟩
  cases h

theorem Extract.decode_encloses : Encloses 1 Extract.Holds Extract.decode := by
  have hcolumn := value_encloses.optional
  intro s x v hx hv
  cases s with
  | obj ms ending =>
    exact ((ofMembers_eq_ok_iff ms ending x).1 hx).2.column.depth_lt hcolumn not_holds_none
      ⟨v, hv, rfl⟩ ending
  | arr ss ending =>
    rw [decode, record, ofItems] at hx
    obtain ⟨⟨column, rest⟩, hitem, hx⟩ := Fallible.bind_eq_ok_iff.1 hx
    obtain ⟨_, _, hx⟩ := Fallible.bind_eq_ok_iff.1 hx
    cases hx
    exact Nat.succ_le_succ
      (takeItem_depth_le hitem hcolumn (not_holds_none none rfl) ⟨v, hv, rfl⟩)
  | _ => cases hx

theorem FieldSource.decode_encloses : Encloses 1 FieldSource.Holds FieldSource.decode := by
  have hextract := Extract.decode_encloses.optional
  intro s x v hx hv
  cases s with
  | obj ms ending =>
    exact Nat.le_of_succ_le (((ofMembers_eq_ok_iff ms ending x).1 hx).2.extract.depth_lt hextract
      not_holds_none hv ending)
  | arr ss ending =>
    rw [decode, record, ofItems] at hx
    obtain ⟨⟨object, rest⟩, hobject, hx⟩ := Fallible.bind_eq_ok_iff.1 hx
    obtain ⟨⟨set, rest₁⟩, hset, hx⟩ := Fallible.bind_eq_ok_iff.1 hx
    obtain ⟨⟨extract, rest₂⟩, hitem, hx⟩ := Fallible.bind_eq_ok_iff.1 hx
    obtain ⟨_, _, hx⟩ := Fallible.bind_eq_ok_iff.1 hx
    cases hx
    have hdepth := takeItem_depth_le hitem hextract (not_holds_none none rfl) hv
    have hrest := depthItems_rest_le hobject
    have hrest₁ := depthItems_rest_le hset
    rw [Source.depth]
    omega
  | _ => cases hx

theorem Field.decode_encloses : Encloses 1 Field.Holds Field.decode := by
  intro s f v hf hv
  cases s with
  | obj ms ending =>
    obtain ⟨_, h⟩ := (ofMembers_eq_ok_iff ms ending f).1 hf
    cases hv with
    | source hs hv =>
      exact Nat.le_of_succ_le (h.source.depth_lt FieldSource.decode_encloses.optional not_holds_none
        ⟨_, hs, hv⟩ ending)
    | statistics hs hv =>
      exact Nat.le_of_succ_le (h.statistics.depth_lt Statistics.decode_encloses.optional
        not_holds_none ⟨_, hs, hv⟩ ending)
    | other hv => exact h.attributes.depth_lt hv ending
  | _ => cases hf

theorem RecordSet.decode_encloses : Encloses 1 RecordSet.Holds RecordSet.decode := by
  intro s r v hr hv
  cases s with
  | obj ms ending =>
    obtain ⟨_, h⟩ := (ofMembers_eq_ok_iff ms ending r).1 hr
    cases hv with
    | field mem hv =>
      exact Nat.le_trans (by omega) (h.fields.depth_lt Field.decode_encloses.list not_holds_nil
        ⟨_, mem, hv⟩ ending)
    | other hv => exact h.attributes.depth_lt hv ending
  | _ => cases hr

theorem Document.decode_encloses : Encloses 1 Document.Holds Document.decode := by
  intro s d v hd hv
  cases s with
  | obj ms ending =>
    obtain ⟨_, h⟩ := (ofMembers_eq_ok_iff ms ending d).1 hd
    cases hv with
    | distribution mem hv =>
      exact Nat.le_trans (by omega) (h.distributions.depth_lt Distribution.decode_encloses.list
        not_holds_nil ⟨_, mem, hv⟩ ending)
    | recordSet mem hv =>
      exact Nat.le_trans (by omega) (h.recordSets.depth_lt RecordSet.decode_encloses.list
        not_holds_nil ⟨_, mem, hv⟩ ending)
    | metadata hv => exact h.metadata.depth_lt hv ending
  | _ => cases hd

/-! ## What is legible -/

/-- A backend that can read again what stands inside a text. -/
class ReadsTexts (σ : Type) [LawfulBackend σ] : Prop where
  fits_of_depth_lt {v : Json} : v.depth < Json.maxDepth → Fits σ v

instance : ReadsTexts TableStore := ⟨id⟩

instance : ReadsTexts AdjacencyStore := ⟨fun _ => trivial⟩

theorem Json.depth_markEmpty_le (v : Json) : v.markEmpty.depth ≤ v.depth := by
  unfold markEmpty
  split
  · exact Nat.zero_le _
  · exact Nat.le_refl _

section

variable (σ : Type) [LawfulBackend σ] [ReadsTexts σ]

theorem Properties.legible_encode {p : Properties} (h : p.All fun v => v.depth < Json.maxDepth) :
    Backend.legible σ p.encode = true := by
  rw [LawfulBackend.legible_iff]
  intro k v hv
  rw [encode, mark, KeyMap.get?_filter, Option.filter_eq_some_iff, KeyMap.get?_mapValues,
    Option.map_eq_some_iff] at hv
  obtain ⟨⟨w, hw, rfl⟩, _⟩ := hv
  exact ReadsTexts.fits_of_depth_lt (Nat.lt_of_le_of_lt w.depth_markEmpty_le (h k w hw))

variable {σ}

/-- A graph whose values lie inside a text is legible. -/
theorem Graph.isLegible_of_depth_lt {g : Graph} (h : ∀ v, g.Holds v → v.depth < Json.maxDepth) :
    g.IsLegible σ where
  node _ hn := Properties.legible_encode σ fun k v hv => h v (.node hn ⟨k, hv⟩)
  edge _ he := Properties.legible_encode σ fun k v hv => h v (.edge he ⟨k, hv⟩)

/-- So is the graph of a document. -/
theorem Document.isLegible_graph {d : Document} (h : ∀ v, d.Holds v → v.depth < Json.maxDepth) :
    d.graph.IsLegible σ := by
  refine Graph.isLegible_of_depth_lt fun v hv => ?_
  cases hv with
  | node mem hv =>
    obtain ⟨k, hv⟩ := hv
    refine Graph.all_properties (P := fun v => v.depth < Json.maxDepth) (fun m hm => ?_) mem k v hv
    exact (node_mem_elements_iff.1 hm).all_properties (fun _ => Nat.zero_lt_succ _) fun v hv _ => h v hv
  | edge mem hv =>
    obtain ⟨_, _, _, _, rfl⟩ := mem_edges_graph_iff.1 mem
    exact absurd hv not_holds_empty

theorem Document.isLegible_graph_ofJson {v : Json} {d : Document} (h : ofJson v = .ok d)
    (hv : v.depth ≤ Json.maxDepth) : d.graph.IsLegible σ := by
  refine isLegible_graph fun w hw => ?_
  have hdepth := decode_encloses h hw
  rw [Source.depth_ofJson] at hdepth
  exact Nat.lt_of_lt_of_le hdepth hv

/-! ## Calls -/

variable (σ) in
/-- A call brings nothing that cannot be read again. -/
def Call.BringsLegible : Call → Prop
  | ingestDocument v => v.depth ≤ Json.maxDepth
  | ingestGraph g => g.IsLegible σ
  | update g => g.IsLegible σ
  | _ => True

theorem Http.Request.exists_body {α : Type} {r : Request} {d : Decoder α} {a : α}
    (h : r.read d = .ok a) : ∃ s : Source, s.depth ≤ Json.maxDepth ∧ d s = .ok a := by
  rw [read] at h
  split at h
  · split at h
    · next hbody =>
      cases h
      rw [Decoder.ofText] at hbody
      obtain ⟨b, hb, hbody⟩ := Fallible.bind_eq_ok_iff.1 hbody
      split at hbody
      · cases hbody
      · cases hbody
        exact ⟨_, Json.depth_ofText r.body, hb⟩
    · cases h
  · cases h

theorem Http.Request.exists_of_bodyCall {α : Type} {r : Request} {d : Decoder α} {call : α → Call}
    {c : Call} (h : r.bodyCall d call = .ok c) :
    ∃ a, c = call a ∧ ∃ s : Source, s.depth ≤ Json.maxDepth ∧ d s = .ok a := by
  rw [bodyCall] at h
  cases hread : r.read d with
  | error response =>
    rw [hread] at h
    cases h
  | ok a =>
    rw [hread] at h
    exact ⟨a, (Except.ok.inj h).symm, exists_body hread⟩

/-- No request brings what cannot be read again. -/
theorem Http.Request.bringsLegible_call {r : Request} {c : Call} (h : r.call = .ok c) :
    c.BringsLegible σ := by
  have hgraph {g : Graph} (h : ∃ s : Source, s.depth ≤ Json.maxDepth ∧ Graph.decode s = .ok g) :
      g.IsLegible σ := by
    obtain ⟨s, hs, hg⟩ := h
    exact Graph.isLegible_of_depth_lt fun v hv =>
      Nat.lt_of_lt_of_le (Graph.decode_encloses hg hv) hs
  rw [call] at h
  split at h
  · cases h
  split at h
  case h_2 => cases h
  unfold callAt at h
  split at h
  · cases h
    trivial
  · cases h
    trivial
  · obtain ⟨v, rfl, s, hs, hv⟩ := exists_of_bodyCall h
    exact Nat.le_trans (value_encloses hv rfl) hs
  · obtain ⟨g, rfl, hg⟩ := exists_of_bodyCall h
    exact hgraph hg
  · obtain ⟨g, rfl, _⟩ := exists_of_bodyCall h
    trivial
  · rw [retrieval] at h
    split at h
    · cases h
      trivial
    · cases h
  · rw [retrieval] at h
    split at h
    · cases h
      trivial
    · cases h
  · obtain ⟨q, rfl, _⟩ := exists_of_bodyCall h
    trivial
  · obtain ⟨g, rfl, hg⟩ := exists_of_bodyCall h
    exact hgraph hg
  · obtain ⟨ids, rfl, _⟩ := exists_of_bodyCall h
    trivial
  · cases h

end

end DatasetGraph
