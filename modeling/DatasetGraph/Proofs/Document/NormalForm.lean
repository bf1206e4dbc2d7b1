import DatasetGraph.Proofs.Document.Respelling
import DatasetGraph.Proofs.Graph.Decode
import DatasetGraph.Proofs.Json.Written

/-!
# What documents are written as

For each entity of a document, `Proper` says what holds of whatever is read as one: attributes never
stand under the name of a field, a list of references is not empty, a column is not `null`.  An
entity that is proper is read again of what is written for it (`decode_toJson`), and no key is
written twice (`distinct_toJson`), so the order in which the members stand does not matter.

Together with the respellings this gives `decoding_is_stable`: a document or a graph that was read
of a value is read of every respelling of it and of what is written for it.
-/

namespace DatasetGraph

open Json (Source Fault Ending Decoder)
open Json.Decoder

theorem optional_text_ofJson (o : Option String) :
    Decoder.optional text (.ofJson (.ofText? o)) = .ok o := by
  cases o <;> rfl

theorem distinct_ofText? (o : Option String) : (Source.ofJson (.ofText? o)).Distinct := by
  cases o <;> trivial

theorem distinct_ofOption {α : Type} {o : Option α} {write : α → Json}
    (h : ∀ x, o = some x → (Source.ofJson (write x)).Distinct) :
    (Source.ofJson (.ofOption (o.map write))).Distinct := by
  cases o with
  | none => trivial
  | some x => exact h x rfl

/-! ## References -/

namespace Reference

theorem decode_toJson (r : Reference) : decode (.ofJson r.toJson) = .ok r := by
  refine (ofMembers_eq_ok_iff _ _ _).2 ⟨by decide, ?_⟩
  exact {
    id := .inr ⟨_, rfl, optional_text_ofJson r.id⟩
    others := skips_of_fields (by simp [Source.ofMembers, isIdKey]) }

theorem distinct_toJson (r : Reference) : (Source.ofJson r.toJson).Distinct :=
  Source.distinct_obj (by simp) (by simp [distinct_ofText?])

end Reference

namespace References

/-- A list of references is not empty: one reference without an id is read of an empty list. -/
def Proper : References → Prop
  | .one _ => True
  | .many rs => rs ≠ []

theorem decode_yields : Yields Proper decode := by
  intro s rs hrs
  rcases (decode_eq_ok_iff.1 hrs).2 with ⟨r, _, rfl⟩ | ⟨hone, l, hl, rfl⟩
  · trivial
  · rintro rfl
    obtain ⟨ss, ending, rfl, hcut, hss⟩ := list_eq_ok_iff.1 hl
    cases hss
    exact hone ⟨⟨none⟩, Reference.ofItems_eq_ok_iff.2 ⟨hcut, .inl ⟨rfl, rfl⟩⟩⟩

theorem decode_toJson {rs : References} (h : rs.Proper) : decode (.ofJson rs.toJson) = .ok rs := by
  refine decode_eq_ok_iff.2 ⟨⟨_, Source.read?_ofJson _⟩, ?_⟩
  cases rs with
  | one r => exact .inl ⟨r, Reference.decode_toJson r, rfl⟩
  | many l =>
    refine .inr ⟨?_, l, list_ofJson fun r _ => Reference.decode_toJson r, rfl⟩
    rintro ⟨r, hr⟩
    -- Neither is the list empty nor is its first item an id.
    rcases (Reference.ofItems_eq_ok_iff.1 hr).2 with ⟨hnil, _⟩ | ⟨s, hone, hid⟩
    · exact h (by simpa [Source.ofItems_eq_map] using hnil)
    · obtain ⟨r', rfl⟩ : ∃ r' : Reference, s = .ofJson r'.toJson := by
        cases l with
        | nil => cases hone
        | cons r' l => exact ⟨r', (List.cons.inj hone).1.symm⟩
      cases hid

theorem distinct_toJson (rs : References) : (Source.ofJson rs.toJson).Distinct := by
  cases rs with
  | one r => exact r.distinct_toJson
  | many l =>
    refine Source.distinct_arr ?_
    rw [List.forall_mem_map]
    exact fun r _ => r.distinct_toJson

theorem toJson_ne_null (rs : References) : rs.toJson ≠ .null := by
  cases rs <;> nofun

end References

/-! ## Distributions -/

namespace Distribution

/-- What is read as a distribution. -/
structure Proper (d : Distribution) : Prop where
  containedIn : ∀ rs, d.containedIn = some rs → rs.Proper
  attributes : Leftover isFieldKey d.attributes

theorem decode_yields : Yields Proper decode := by
  intro s d hd
  cases s with
  | obj ms ending =>
    obtain ⟨_, h⟩ := (ofMembers_eq_ok_iff ms ending d).1 hd
    exact ⟨h.containedIn.yields (optional_yields References.decode_yields) nofun,
      h.attributes.leftover⟩
  | _ => cases hd

theorem decode_toJson {d : Distribution} (hd : d.Proper) : decode (.ofJson d.toJson) = .ok d := by
  refine (ofMembers_eq_ok_iff _ _ _).2 ⟨by decide, ?_⟩
  have hm := hd.attributes
  exact {
    id := .written hm (by grind [isFieldKey]) rfl (optional_text_ofJson d.id)
    type := .written hm (by grind [isFieldKey]) rfl (optional_text_ofJson d.type)
    encodingFormat := .written hm (by grind [isFieldKey]) rfl
      (optional_text_ofJson d.encodingFormat)
    containedIn := .written hm (by grind [isFieldKey]) rfl <| optional_ofJson fun rs hrs =>
      ⟨rs.toJson_ne_null, References.decode_toJson (hd.containedIn rs hrs)⟩
    attributes := rest_written hm (by simp [isFieldKey, isIdKey, isTypeKey]) }

theorem distinct_toJson {d : Distribution} (hd : d.Proper) :
    (Source.ofJson d.toJson).Distinct := by
  refine distinct_written hd.attributes (by simp [isFieldKey, isIdKey, isTypeKey]) (by simp) ?_
  have hcontained : (Source.ofJson (.ofOption (d.containedIn.map References.toJson))).Distinct :=
    distinct_ofOption fun rs _ => rs.distinct_toJson
  simp [distinct_ofText?, hcontained]

end Distribution

/-! ## Fields -/

namespace Extract

/-- What is read as an extract: `null` is read as no column. -/
def Proper (x : Extract) : Prop := ∀ v, x.column = some v → v.Ordered ∧ v ≠ .null

theorem decode_yields : Yields Proper decode := by
  intro s x hx
  cases s with
  | obj ms ending =>
    obtain ⟨_, h⟩ := (ofMembers_eq_ok_iff ms ending x).1 hx
    exact h.column.yields optional_value_yields nofun
  | arr ss ending =>
    rw [decode, record, ofItems] at hx
    obtain ⟨⟨column, rest⟩, hcolumn, hx⟩ := Fallible.bind_eq_ok_iff.1 hx
    obtain ⟨_, _, hx⟩ := Fallible.bind_eq_ok_iff.1 hx
    cases hx
    exact takeItem_yields hcolumn optional_value_yields nofun
  | _ => cases hx

theorem decode_toJson {x : Extract} (hx : x.Proper) : decode (.ofJson x.toJson) = .ok x := by
  refine (ofMembers_eq_ok_iff _ _ _).2 ⟨by decide, ?_⟩
  have hcolumn : Decoder.optional value (.ofJson (.ofOption (x.column.map id))) = .ok x.column := by
    refine optional_ofJson fun v hv => ⟨(hx v hv).2, ?_⟩
    rw [value_eq_ok_iff, Source.read?_ofJson, id, (hx v hv).1]
  rw [Option.map_id_apply] at hcolumn
  exact {
    column := .inr ⟨_, rfl, hcolumn⟩
    others := skips_of_fields (by simp [Source.ofMembers]) }

theorem distinct_toJson {x : Extract} (hx : x.Proper) : (Source.ofJson x.toJson).Distinct := by
  have hcolumn : (Source.ofJson (.ofOption (x.column.map id))).Distinct :=
    distinct_ofOption fun v hv => Source.distinct_ofJson v (hx v hv).1
  exact Source.distinct_obj (by simp) (by simpa using hcolumn)

end Extract

namespace FieldSource

/-- What is read as the source of a field. -/
def Proper (s : FieldSource) : Prop := ∀ x, s.extract = some x → x.Proper

theorem decode_yields : Yields Proper decode := by
  have hextract := optional_yields Extract.decode_yields
  intro s x hx
  cases s with
  | obj ms ending =>
    obtain ⟨_, h⟩ := (ofMembers_eq_ok_iff ms ending x).1 hx
    exact h.extract.yields hextract nofun
  | arr ss ending =>
    rw [decode, record, ofItems] at hx
    obtain ⟨⟨object, rest⟩, _, hx⟩ := Fallible.bind_eq_ok_iff.1 hx
    obtain ⟨⟨set, rest₁⟩, _, hx⟩ := Fallible.bind_eq_ok_iff.1 hx
    obtain ⟨⟨extract, rest₂⟩, hitem, hx⟩ := Fallible.bind_eq_ok_iff.1 hx
    obtain ⟨_, _, hx⟩ := Fallible.bind_eq_ok_iff.1 hx
    cases hx
    exact takeItem_yields hitem hextract nofun
  | _ => cases hx

theorem decode_toJson {s : FieldSource} (hs : s.Proper) : decode (.ofJson s.toJson) = .ok s := by
  refine (ofMembers_eq_ok_iff _ _ _).2 ⟨by decide, ?_⟩
  exact {
    fileObject := .inr ⟨_, rfl, optional_ofJson fun r _ => ⟨nofun, r.decode_toJson⟩⟩
    fileSet := .inr ⟨_, rfl, optional_ofJson fun r _ => ⟨nofun, r.decode_toJson⟩⟩
    extract := .inr ⟨_, rfl, optional_ofJson fun x hx => ⟨nofun, Extract.decode_toJson (hs x hx)⟩⟩
    others := skips_of_fields (by simp [Source.ofMembers, isFieldKey]) }

theorem distinct_toJson {s : FieldSource} (hs : s.Proper) :
    (Source.ofJson s.toJson).Distinct := by
  have hreference (o : Option Reference) :
      (Source.ofJson (.ofOption (o.map Reference.toJson))).Distinct :=
    distinct_ofOption fun r _ => r.distinct_toJson
  have hextract : (Source.ofJson (.ofOption (s.extract.map Extract.toJson))).Distinct :=
    distinct_ofOption fun x hx => Extract.distinct_toJson (hs x hx)
  exact Source.distinct_obj (by simp) (by simp [hreference, hextract])

end FieldSource

namespace Statistics

/-- What is read as statistics. -/
def Proper (s : Statistics) : Prop := Leftover isFieldKey s.values

theorem decode_yields : Yields Proper decode := by
  intro s x hx
  cases s with
  | obj ms ending => exact ((ofMembers_eq_ok_iff ms ending x).1 hx).2.values.leftover
  | _ => cases hx

theorem decode_toJson {s : Statistics} (hs : s.Proper) : decode (.ofJson s.toJson) = .ok s := by
  refine (ofMembers_eq_ok_iff _ _ _).2 ⟨by decide, ?_⟩
  exact {
    id := .written hs (by grind [isFieldKey]) rfl (optional_text_ofJson s.id)
    type := .written hs (by grind [isFieldKey]) rfl (optional_text_ofJson s.type)
    values := rest_written hs (by simp [isFieldKey, isIdKey, isTypeKey]) }

theorem distinct_toJson {s : Statistics} (hs : s.Proper) : (Source.ofJson s.toJson).Distinct := by
  refine distinct_written hs (by simp [isFieldKey, isIdKey, isTypeKey]) (by simp) ?_
  simp [distinct_ofText?]

end Statistics

namespace Field

/-- What is read as a field. -/
structure Proper (f : Field) : Prop where
  source : ∀ s, f.source = some s → s.Proper
  statistics : ∀ s, f.statistics = some s → s.Proper
  attributes : Leftover isFieldKey f.attributes

theorem decode_yields : Yields Proper decode := by
  intro s f hf
  cases s with
  | obj ms ending =>
    obtain ⟨_, h⟩ := (ofMembers_eq_ok_iff ms ending f).1 hf
    exact ⟨h.source.yields (optional_yields FieldSource.decode_yields) nofun,
      h.statistics.yields (optional_yields Statistics.decode_yields) nofun,
      h.attributes.leftover⟩
  | _ => cases hf

theorem decode_toJson {f : Field} (hf : f.Proper) : decode (.ofJson f.toJson) = .ok f := by
  refine (ofMembers_eq_ok_iff _ _ _).2 ⟨by decide, ?_⟩
  have hm := hf.attributes
  exact {
    id := .written hm (by grind [isFieldKey]) rfl (optional_text_ofJson f.id)
    type := .written hm (by grind [isFieldKey]) rfl (optional_text_ofJson f.type)
    source := .written hm (by grind [isFieldKey]) rfl <| optional_ofJson fun s hs =>
      ⟨nofun, FieldSource.decode_toJson (hf.source s hs)⟩
    statistics := .written hm (by grind [isFieldKey]) rfl <| optional_ofJson fun s hs =>
      ⟨nofun, Statistics.decode_toJson (hf.statistics s hs)⟩
    attributes := rest_written hm (by simp [isFieldKey, isIdKey, isTypeKey]) }

theorem distinct_toJson {f : Field} (hf : f.Proper) : (Source.ofJson f.toJson).Distinct := by
  refine distinct_written hf.attributes (by simp [isFieldKey, isIdKey, isTypeKey]) (by simp) ?_
  have hsource : (Source.ofJson (.ofOption (f.source.map FieldSource.toJson))).Distinct :=
    distinct_ofOption fun s hs => FieldSource.distinct_toJson (hf.source s hs)
  have hstatistics : (Source.ofJson (.ofOption (f.statistics.map Statistics.toJson))).Distinct :=
    distinct_ofOption fun s hs => Statistics.distinct_toJson (hf.statistics s hs)
  simp [distinct_ofText?, hsource, hstatistics]

end Field

/-! ## Record sets and documents -/

namespace RecordSet

/-- What is read as a record set. -/
structure Proper (r : RecordSet) : Prop where
  fields : ∀ f ∈ r.fields, f.Proper
  attributes : Leftover isFieldKey r.attributes

theorem decode_yields : Yields Proper decode := by
  intro s r hr
  cases s with
  | obj ms ending =>
    obtain ⟨_, h⟩ := (ofMembers_eq_ok_iff ms ending r).1 hr
    exact ⟨h.fields.yields (list_yields Field.decode_yields) nofun, h.attributes.leftover⟩
  | _ => cases hr

theorem decode_toJson {r : RecordSet} (hr : r.Proper) : decode (.ofJson r.toJson) = .ok r := by
  refine (ofMembers_eq_ok_iff _ _ _).2 ⟨by decide, ?_⟩
  have hm := hr.attributes
  exact {
    id := .written hm (by grind [isFieldKey]) rfl (optional_text_ofJson r.id)
    type := .written hm (by grind [isFieldKey]) rfl (optional_text_ofJson r.type)
    fields := .written hm (by grind [isFieldKey]) rfl <| list_ofJson fun f hf =>
      Field.decode_toJson (hr.fields f hf)
    attributes := rest_written hm (by simp [isFieldKey, isIdKey, isTypeKey]) }

theorem distinct_toJson {r : RecordSet} (hr : r.Proper) : (Source.ofJson r.toJson).Distinct := by
  refine distinct_written hr.attributes (by simp [isFieldKey, isIdKey, isTypeKey]) (by simp) ?_
  have hfields : (Source.ofJson (.arr (r.fields.map Field.toJson))).Distinct :=
    Source.distinct_arr (by simpa using fun f hf => Field.distinct_toJson (hr.fields f hf))
  simp [distinct_ofText?, hfields]

end RecordSet

namespace Document

/-- What is read as a document. -/
structure Proper (d : Document) : Prop where
  distributions : ∀ x ∈ d.distributions, x.Proper
  recordSets : ∀ r ∈ d.recordSets, r.Proper
  metadata : Leftover isFieldKey d.metadata

theorem decode_yields : Yields Proper decode := by
  intro s d hd
  cases s with
  | obj ms ending =>
    obtain ⟨_, h⟩ := (ofMembers_eq_ok_iff ms ending d).1 hd
    exact ⟨h.distributions.yields (list_yields Distribution.decode_yields) nofun,
      h.recordSets.yields (list_yields RecordSet.decode_yields) nofun, h.metadata.leftover⟩
  | _ => cases hd

theorem decode_toJson {d : Document} (hd : d.Proper) : decode (.ofJson d.toJson) = .ok d := by
  refine (ofMembers_eq_ok_iff _ _ _).2 ⟨by decide, ?_⟩
  have hm := hd.metadata
  exact {
    id := .written hm (by grind [isFieldKey]) rfl (optional_text_ofJson d.id)
    type := .written hm (by grind [isFieldKey]) rfl (optional_text_ofJson d.type)
    distributions := .written hm (by grind [isFieldKey]) rfl <| list_ofJson fun x hx =>
      Distribution.decode_toJson (hd.distributions x hx)
    recordSets := .written hm (by grind [isFieldKey]) rfl <| list_ofJson fun r hr =>
      RecordSet.decode_toJson (hd.recordSets r hr)
    metadata := rest_written hm (by simp [isFieldKey, isIdKey, isTypeKey]) }

theorem distinct_toJson {d : Document} (hd : d.Proper) : (Source.ofJson d.toJson).Distinct := by
  refine distinct_written hd.metadata (by simp [isFieldKey, isIdKey, isTypeKey]) (by simp) ?_
  have hdistributions : (Source.ofJson (.arr (d.distributions.map Distribution.toJson))).Distinct :=
    Source.distinct_arr
      (by simpa using fun x hx => Distribution.distinct_toJson (hd.distributions x hx))
  have hrecordSets : (Source.ofJson (.arr (d.recordSets.map RecordSet.toJson))).Distinct :=
    Source.distinct_arr (by simpa using fun r hr => RecordSet.distinct_toJson (hd.recordSets r hr))
  simp [distinct_ofText?, hdistributions, hrecordSets]

/-- A document is read again of what is written for it, and of every respelling of what it was read
of. -/
theorem normal_form {v : Json} {d : Document} (h : ofJson v = .ok d) :
    ofJson d.toJson = .ok d ∧ ofJson d.toJson.sortKeys = .ok d ∧
      ∀ w, Respelled (.ofJson v) (.ofJson w) → ofJson w = .ok d := by
  have hd : d.Proper := decode_yields h
  have hwritten := decode_toJson hd
  refine ⟨hwritten, ?_, fun w hw => decode_respects hw h⟩
  exact decode_respects (.alike (.ofJson (distinct_toJson hd) (Source.read?_ofJson _))) hwritten

end Document

/-! ## Graphs -/

/-- An edge is written with its ends under `from` and `to`, and not under their other names. -/
def Edge.IsWritten (e : Edge) (v : Json) : Prop :=
  v.get? "from" = some (.str e.source) ∧ v.get? "to" = some (.str e.target) ∧
    v.get? "start" = none ∧ v.get? "end" = none

/-- A graph is read again of what is written for it, and of every respelling of what it was read
of. -/
theorem Graph.normal_form {v : Json} {g : Graph} (h : Graph.ofJson v = .ok g) :
    Graph.ofJson g.toJson = .ok g ∧ Graph.ofJson g.toJson.sortKeys = .ok g ∧
      (∀ w, Graph.Respelled (.ofJson v) (.ofJson w) → Graph.ofJson w = .ok g) ∧
      ∃ edges, g.toJson.get? "edges" = some (.arr edges) ∧
        List.Forall₂ Edge.IsWritten g.edges edges := by
  have hg : g.IsOrdered := Graph.decode_yields h
  have hwritten := Graph.decode_toJson hg
  have hdistinct := Graph.distinct_toJson hg
  refine ⟨hwritten, ?_, fun w hw => Graph.decode_respects hw h, _, rfl, ?_⟩
  · exact Graph.decode_respects (.alike (.ofJson hdistinct (Source.read?_ofJson _))) hwritten
  · rw [List.forall₂_map_right_iff, List.forall₂_same]
    exact fun e _ => ⟨rfl, rfl, rfl, rfl⟩

/-- What is read of a value, be it a document or a graph, is read again of what is written for it,
whether in the order of its fields or of its keys, and of every respelling of the value; edges are
written with their ends under `from` and `to` alone. -/
theorem decoding_is_stable :
    (∀ v d, Document.ofJson v = .ok d →
      Document.ofJson d.toJson = .ok d ∧ Document.ofJson d.toJson.sortKeys = .ok d ∧
        ∀ w, Document.Respelled (.ofJson v) (.ofJson w) → Document.ofJson w = .ok d) ∧
    ∀ v g, Graph.ofJson v = .ok g →
      Graph.ofJson g.toJson = .ok g ∧ Graph.ofJson g.toJson.sortKeys = .ok g ∧
        (∀ w, Graph.Respelled (.ofJson v) (.ofJson w) → Graph.ofJson w = .ok g) ∧
        ∃ edges, g.toJson.get? "edges" = some (.arr edges) ∧
          List.Forall₂ Edge.IsWritten g.edges edges :=
  ⟨fun _ _ => Document.normal_form, fun _ _ => Graph.normal_form⟩

/-- A dataset with one file of an archive, all ids under one key. -/
def Json.archived (key : String) : Json :=
  .obj [(key, .str "d"), ("distribution", .arr [.obj [(key, .str "f"),
    ("containedIn", .arr [.obj [(key, .str "z")]])]])]

/-- An edge from a node to itself, its ends under two keys. -/
def Json.loop (source target : String) : Json :=
  .obj [("edges", .arr [.obj [(source, .str "n"), (target, .str "n")]])]

theorem respelled_archived : Document.Respelled (.ofJson (.archived "@id"))
    (.ofJson (.archived "id")) := by
  have halike (t : String) : Source.Alike (.str t) (.str t) := ⟨trivial, trivial, _, rfl, rfl⟩
  have hname : SameName "@id" "id" := .inl ⟨rfl, rfl⟩
  have hreference : Reference.Respelled (.ofJson (.obj [("@id", .str "z")]))
      (.ofJson (.obj [("id", .str "z")])) :=
    .members (by decide) (by decide) ⟨by decide, .of_forall₂
      (.cons ⟨_, _, rfl, rfl, .inr hname, halike "z"⟩ .nil)⟩
  have hreferences : References.Respelled (.ofJson (.arr [.obj [("@id", .str "z")]]))
      (.ofJson (.arr [.obj [("id", .str "z")]])) :=
    .many (by decide) (by decide) (.cons hreference .nil)
  have hdistribution : Distribution.Respelled
      (.ofJson (.obj [("@id", .str "f"), ("containedIn", .arr [.obj [("@id", .str "z")]])]))
      (.ofJson (.obj [("id", .str "f"), ("containedIn", .arr [.obj [("id", .str "z")]])])) :=
    .members (by decide) (by decide) ⟨by decide, .of_forall₂
      (.cons ⟨_, _, rfl, rfl, .inr hname, halike "f"⟩
        (.cons ⟨_, _, rfl, rfl, .inl rfl, hreferences⟩ .nil))⟩
  exact .members (by decide) (by decide) ⟨by decide, .of_forall₂
    (.cons ⟨_, _, rfl, rfl, .inr hname, halike "d"⟩
      (.cons ⟨_, _, rfl, rfl, .inl rfl,
        .items (by decide) (by decide) (.cons hdistribution .nil)⟩ .nil))⟩

theorem respelled_loop : Graph.Respelled (.ofJson (.loop "from" "end"))
    (.ofJson (.loop "start" "to")) := by
  have halike (t : String) : Source.Alike (.str t) (.str t) := ⟨trivial, trivial, _, rfl, rfl⟩
  have hedge : Edge.Respelled (.ofJson (.obj [("from", .str "n"), ("end", .str "n")]))
      (.ofJson (.obj [("start", .str "n"), ("to", .str "n")])) :=
    .members (by decide) (by decide) ⟨by decide, .of_forall₂
      (.cons ⟨_, _, rfl, rfl, .inr (.inl ⟨rfl, rfl⟩), halike "n"⟩
        (.cons ⟨_, _, rfl, rfl, .inr (.inr ⟨rfl, rfl⟩), halike "n"⟩ .nil))⟩
  exact .members (by decide) (by decide) ⟨by decide, .of_forall₂
    (.cons ⟨_, _, rfl, rfl, .inl rfl, .items (by decide) (by decide) (.cons hedge .nil)⟩ .nil)⟩

theorem decoding_is_stable_respelled :
    (∃ d, Document.ofJson (.archived "@id") = .ok d ∧
      Document.Respelled (.ofJson (.archived "@id")) (.ofJson (.archived "id")) ∧
      Document.ofJson (.archived "id") = .ok d ∧ Document.ofJson d.toJson = .ok d) ∧
    ∃ g, Graph.ofJson (.loop "from" "end") = .ok g ∧
      Graph.Respelled (.ofJson (.loop "from" "end")) (.ofJson (.loop "start" "to")) ∧
      Graph.ofJson (.loop "start" "to") = .ok g ∧ Graph.ofJson g.toJson = .ok g := by
  obtain ⟨hdocuments, hgraphs⟩ := decoding_is_stable
  obtain ⟨d, hd⟩ : ∃ d, Document.ofJson (.archived "@id") = .ok d := ⟨_, rfl⟩
  obtain ⟨g, hg⟩ : ∃ g, Graph.ofJson (.loop "from" "end") = .ok g := ⟨_, rfl⟩
  obtain ⟨hwritten, _, hrespelled⟩ := hdocuments _ _ hd
  obtain ⟨hwritten', _, hrespelled', _⟩ := hgraphs _ _ hg
  exact ⟨⟨d, hd, respelled_archived, hrespelled _ respelled_archived, hwritten⟩, g, hg,
    respelled_loop, hrespelled' _ respelled_loop, hwritten'⟩

end DatasetGraph
