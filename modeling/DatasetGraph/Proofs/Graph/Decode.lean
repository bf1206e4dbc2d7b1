import DatasetGraph.Graph.Decode
import DatasetGraph.Proofs.Json.Written

/-!
# Graphs and what they are read of

For nodes, edges and graphs, `IsOf` says of an object's members what is read of them.  The ends of
an edge stand under `from` and `to` or under `start` and `end`: two sources of a graph are
respellings of each other (`Graph.Respelled`) if they have the same value but for that, and the same
graph is read of both (`Graph.decode_respects`).  It is read again of what is written for it
(`Graph.decode_toJson`).
-/

namespace DatasetGraph

open Json (Source Fault Ending Decoder)
open Json.Decoder
open Json.Source (Alike)

/-! ## Nodes -/

theorem texts_respects : Respects Alike texts :=
  fun _ _ _ h => list_respects lenient_alike text_respects (.alike h)

namespace Node

/-- Whether a key names a field of a node. -/
def isFieldKey (k : String) : Bool := k = "id" || k = "labels" || k = "properties"

/-- The node that is read of the members of an object. -/
@[mk_iff]
structure IsOf (ms : List (Option String × Source)) (n : Node) : Prop where
  id : Holds (· = "id") text none ms n.id
  labels : Holds (· = "labels") texts (some []) ms n.labels
  properties : Holds (· = "properties") Decoder.map (some .empty) ms n.properties
  others : Skips isFieldKey ms

def Fields.parts (f : Fields) : Option String × Option (List String) × Option Properties × Unit :=
  (f.id, f.labels, f.properties, ())

theorem Fields.parts_bijective : Fields.parts.Bijective :=
  ⟨fun ⟨_, _, _⟩ ⟨_, _, _⟩ h => by cases h; rfl, fun ⟨i, l, p, ()⟩ => ⟨⟨i, l, p⟩, rfl⟩⟩

/-- How the members of an object are read. -/
def layout := Part.field (· = "id") "id" text none <|
  .field (· = "labels") "labels" texts (some []) <|
  .field (· = "properties") "properties" Decoder.map (some .empty) <| .skip isFieldKey

theorem Fields.take_eq_ok_iff (f : Fields) (k : String) (s : Source) (f' : Fields) :
    f.take k s = .ok f' ↔ layout.step k s f.parts f'.parts := by
  obtain ⟨⟩ := f
  obtain ⟨⟩ := f'
  simp only [layout, Part.field, Part.skip, Step.and, fieldStep, skipStep, parts, take, isFieldKey]
  -- a case for each field that the key may name, and one for a key that names none
  split_ifs <;> simp_all <;> tauto

theorem ofMembers_eq_ok_iff (ms : List (Option String × Source)) (ending : Ending) (n : Node) :
    ofMembers ms ending = .ok n ↔ ending ≠ .cut ∧ IsOf ms n := by
  refine (Part.members_bind_eq_ok_iff (fun n => (n.id, n.labels, n.properties, ()))
    Fields.parts_bijective Fields.take_eq_ok_iff rfl ?_).trans ?_
  · rintro f ⟨id, labels, properties⟩
    simp [layout, Fields.parts, required_eq_ok_iff]
  · simp [layout, isOf_iff]

/-- The same node is read of sources that are alike. -/
theorem decode_respects : Respects Alike decode := by
  have hsame : Respects (SameRecord (fun _ _ => False) (fun _ => Alike) [Alike, Alike, Alike])
      decode := by
    refine record_respects (fun _ => lenient_alike) (by simp [lenient_alike]) ofMembers_eq_ok_iff
      ?_ ?_
    · intro ms ms' n h hn
      exact {
        id := h.holds nofun (fun _ _ => rfl) text_respects hn.id
        labels := h.holds nofun (fun _ _ => rfl) texts_respects hn.labels
        properties := h.holds nofun (fun _ _ => rfl) map_respects hn.properties
        others := h.skips nofun fun _ _ => rfl }
    · intro ss ss' ending ending' n h hcut' hn
      refine h.takeItem_bind text_respects hcut' hn fun id _ _ h hn => ?_
      cases id with
      | none => cases hn
      | some id =>
        refine h.takeItem_bind texts_respects hcut' hn fun labels _ _ h hn => ?_
        refine h.takeItem_bind map_respects hcut' hn fun properties _ _ h hn => ?_
        exact h.noMoreItems_bind hcut' hn
  exact fun s s' x h => hsame (.alike h)

end Node

/-! ## Edges -/

namespace Edge

/-- Whether a key names the first end of an edge. -/
def isSourceKey (k : String) : Bool := k = "from" || k = "start"

/-- Whether a key names the second end of an edge. -/
def isTargetKey (k : String) : Bool := k = "to" || k = "end"

/-- Whether a key names a field of an edge. -/
def isFieldKey (k : String) : Bool :=
  isSourceKey k || isTargetKey k || k = "labels" || k = "properties"

/-- Whether two keys name the same end. -/
def SameEnd (k k' : String) : Prop :=
  isSourceKey k = true ∧ isSourceKey k' = true ∨ isTargetKey k = true ∧ isTargetKey k' = true

/-- The edge that is read of the members of an object. -/
@[mk_iff]
structure IsOf (ms : List (Option String × Source)) (e : Edge) : Prop where
  source : Holds isSourceKey text none ms e.source
  target : Holds isTargetKey text none ms e.target
  labels : Holds (· = "labels") texts (some []) ms e.labels
  properties : Holds (· = "properties") Decoder.map (some .empty) ms e.properties
  others : Skips isFieldKey ms

def Fields.parts (f : Fields) :
    Option String × Option String × Option (List String) × Option Properties × Unit :=
  (f.source, f.target, f.labels, f.properties, ())

theorem Fields.parts_bijective : Fields.parts.Bijective :=
  ⟨fun ⟨_, _, _, _⟩ ⟨_, _, _, _⟩ h => by cases h; rfl, fun ⟨s, t, l, p, ()⟩ => ⟨⟨s, t, l, p⟩, rfl⟩⟩

/-- How the members of an object are read. -/
def layout := Part.field isSourceKey "from" text none <|
  .field isTargetKey "to" text none <|
  .field (· = "labels") "labels" texts (some []) <|
  .field (· = "properties") "properties" Decoder.map (some .empty) <| .skip isFieldKey

theorem Fields.take_eq_ok_iff (f : Fields) (k : String) (s : Source) (f' : Fields) :
    f.take k s = .ok f' ↔ layout.step k s f.parts f'.parts := by
  obtain ⟨⟩ := f
  obtain ⟨⟩ := f'
  simp only [layout, Part.field, Part.skip, Step.and, fieldStep, skipStep, parts, take, isFieldKey,
    isSourceKey, isTargetKey]
  split_ifs <;> simp_all <;> grind

theorem ofMembers_eq_ok_iff (ms : List (Option String × Source)) (ending : Ending) (e : Edge) :
    ofMembers ms ending = .ok e ↔ ending ≠ .cut ∧ IsOf ms e := by
  refine (Part.members_bind_eq_ok_iff (fun e => (e.source, e.target, e.labels, e.properties, ()))
    Fields.parts_bijective Fields.take_eq_ok_iff rfl ?_).trans ?_
  · rintro f ⟨source, target, labels, properties⟩
    simp [layout, Fields.parts, Fallible.bind_eq_ok_iff, required_eq_ok_iff]
  · simp [layout, isOf_iff]

theorem SameEnd.isSourceKey_eq {k k' : String} (h : SameEnd k k') :
    isSourceKey k = isSourceKey k' := by
  grind [SameEnd, isSourceKey, isTargetKey]

theorem SameEnd.isTargetKey_eq {k k' : String} (h : SameEnd k k') :
    isTargetKey k = isTargetKey k' := by
  grind [SameEnd, isSourceKey, isTargetKey]

theorem SameEnd.isFieldKey {k k' : String} (h : SameEnd k k') :
    isFieldKey k = true ∧ isFieldKey k' = true := by
  grind [SameEnd, Edge.isFieldKey]

theorem SameEnd.ne {k k' : String} (h : SameEnd k k') :
    (k ≠ "labels" ∧ k' ≠ "labels") ∧ k ≠ "properties" ∧ k' ≠ "properties" := by
  grind [SameEnd, isSourceKey, isTargetKey]

/-- Sources of edges whose ends may be spelled either way. -/
abbrev Respelled : Source → Source → Prop :=
  SameRecord SameEnd (fun _ => Alike) [Alike, Alike, Alike, Alike]

theorem decode_respects : Respects Respelled decode := by
  refine record_respects (fun _ => lenient_alike) (by simp [lenient_alike]) ofMembers_eq_ok_iff
    ?_ ?_
  · intro ms ms' e h he
    exact {
      source := h.holds (fun _ _ hk => hk.isSourceKey_eq) (fun _ _ => rfl) text_respects he.source
      target := h.holds (fun _ _ hk => hk.isTargetKey_eq) (fun _ _ => rfl) text_respects he.target
      labels := h.holds (fun _ _ hk => by simp [hk.ne]) (fun _ _ => rfl) texts_respects he.labels
      properties := h.holds (fun _ _ hk => by simp [hk.ne]) (fun _ _ => rfl) map_respects
        he.properties
      others := h.skips (fun _ _ hk => by simp [hk.isFieldKey]) fun _ _ => rfl }
  · intro ss ss' ending ending' e h hcut' he
    refine h.takeItem_bind text_respects hcut' he fun source _ _ h he => ?_
    cases source with
    | none => cases he
    | some source =>
      refine h.takeItem_bind text_respects hcut' he fun target _ _ h he => ?_
      cases target with
      | none => cases he
      | some target =>
        refine h.takeItem_bind texts_respects hcut' he fun labels _ _ h he => ?_
        refine h.takeItem_bind map_respects hcut' he fun properties _ _ h he => ?_
        exact h.noMoreItems_bind hcut' he

end Edge

/-! ## Graphs -/

namespace Graph

/-- Whether a key names a field of a graph. -/
def isFieldKey (k : String) : Bool := k = "nodes" || k = "edges"

/-- The graph that is read of the members of an object. -/
@[mk_iff]
structure IsOf (ms : List (Option String × Source)) (g : Graph) : Prop where
  nodes : Holds (· = "nodes") (list Node.decode) (some []) ms g.nodes
  edges : Holds (· = "edges") (list Edge.decode) (some []) ms g.edges
  others : Skips isFieldKey ms

def Fields.parts (f : Fields) : Option (List Node) × Option (List Edge) × Unit :=
  (f.nodes, f.edges, ())

theorem Fields.parts_bijective : Fields.parts.Bijective :=
  ⟨fun ⟨_, _⟩ ⟨_, _⟩ h => by cases h; rfl, fun ⟨n, e, ()⟩ => ⟨⟨n, e⟩, rfl⟩⟩

/-- How the members of an object are read. -/
def layout := Part.field (· = "nodes") "nodes" (list Node.decode) (some []) <|
  .field (· = "edges") "edges" (list Edge.decode) (some []) <| .skip isFieldKey

theorem Fields.take_eq_ok_iff (f : Fields) (k : String) (s : Source) (f' : Fields) :
    f.take k s = .ok f' ↔ layout.step k s f.parts f'.parts := by
  obtain ⟨⟩ := f
  obtain ⟨⟩ := f'
  simp only [layout, Part.field, Part.skip, Step.and, fieldStep, skipStep, parts, take, isFieldKey]
  split_ifs <;> simp_all <;> tauto

theorem ofMembers_eq_ok_iff (ms : List (Option String × Source)) (ending : Ending) (g : Graph) :
    ofMembers ms ending = .ok g ↔ ending ≠ .cut ∧ IsOf ms g := by
  refine (Part.members_bind_eq_ok_iff (fun g => (g.nodes, g.edges, ()))
    Fields.parts_bijective Fields.take_eq_ok_iff rfl ?_).trans ?_
  · rintro f ⟨nodes, edges⟩
    simp [layout, Fields.parts]
  · simp [layout, isOf_iff]

/-- Sources of graphs whose edges may spell their ends either way. -/
abbrev Respelled : Source → Source → Prop :=
  SameRecord (fun _ _ => False) (fun k => if k = "edges" then Listwise Edge.Respelled else Alike)
    [Alike, Listwise Edge.Respelled]

theorem decode_respects : Respects Respelled decode := by
  have hnodes : Respects Alike (list Node.decode) := fun _ _ _ h =>
    list_respects lenient_alike Node.decode_respects (.alike h)
  have hedges : Respects (Listwise Edge.Respelled) (list Edge.decode) :=
    list_respects lenient_sameRecord Edge.decode_respects
  have hpart : ∀ k : String, Lenient (if k = "edges" then Listwise Edge.Respelled else Alike) := by
    intro k
    split
    · exact lenient_listwise _
    · exact lenient_alike
  refine record_respects hpart (by simp [lenient_alike, lenient_listwise]) ofMembers_eq_ok_iff ?_ ?_
  · intro ms ms' g h hg
    exact {
      nodes := h.holds nofun (fun k hk => by simp_all) hnodes hg.nodes
      edges := h.holds nofun (fun k hk => by simp_all) hedges hg.edges
      others := h.skips nofun fun k hk => if_neg (by simp_all [isFieldKey]) }
  · intro ss ss' ending ending' g h hcut' hg
    refine h.takeItem_bind hnodes hcut' hg fun nodes _ _ h hg => ?_
    refine h.takeItem_bind hedges hcut' hg fun edges _ _ h hg => ?_
    exact h.noMoreItems_bind hcut' hg

end Graph

/-! ## Reading what was written -/

namespace Node

/-- The properties of a node that is read are ordered. -/
theorem decode_yields : Yields (fun n => n.properties.All Json.Ordered) decode := by
  intro s n hn
  cases s with
  | obj ms ending =>
    exact ((ofMembers_eq_ok_iff ms ending n).1 hn).2.properties.yields map_yields KeyMap.all_empty
  | arr ss ending =>
    rw [decode, record, ofItems] at hn
    obtain ⟨⟨id, rest⟩, _, hn⟩ := Fallible.bind_eq_ok_iff.1 hn
    cases id with
    | none => cases hn
    | some id =>
      obtain ⟨⟨labels, rest₁⟩, _, hn⟩ := Fallible.bind_eq_ok_iff.1 hn
      obtain ⟨⟨properties, rest₂⟩, hproperties, hn⟩ := Fallible.bind_eq_ok_iff.1 hn
      obtain ⟨_, _, hn⟩ := Fallible.bind_eq_ok_iff.1 hn
      cases hn
      exact takeItem_yields hproperties map_yields KeyMap.all_empty
  | _ => cases hn

theorem distinct_toJson {n : Node} (hn : n.properties.All Json.Ordered) :
    (Source.ofJson n.toJson).Distinct := by
  have hlabels := distinct_ofTexts n.labels
  have hproperties := distinct_ofMap hn
  exact Source.distinct_obj (by simp) (by simp [hlabels, hproperties])

theorem decode_toJson {n : Node} (hn : n.properties.All Json.Ordered) :
    decode (.ofJson n.toJson) = .ok n := by
  refine (ofMembers_eq_ok_iff _ _ _).2 ⟨by decide, ?_⟩
  exact {
    id := .inr ⟨_, rfl, rfl⟩
    labels := .inr ⟨_, rfl, texts_ofJson n.labels⟩
    properties := .inr ⟨_, rfl, map_ofJson hn⟩
    others := skips_of_fields (by simp [Source.ofMembers, isFieldKey]) }

end Node

namespace Edge

/-- The properties of an edge that is read are ordered. -/
theorem decode_yields : Yields (fun e => e.properties.All Json.Ordered) decode := by
  intro s e he
  cases s with
  | obj ms ending =>
    exact ((ofMembers_eq_ok_iff ms ending e).1 he).2.properties.yields map_yields KeyMap.all_empty
  | arr ss ending =>
    rw [decode, record, ofItems] at he
    obtain ⟨⟨source, rest⟩, _, he⟩ := Fallible.bind_eq_ok_iff.1 he
    cases source with
    | none => cases he
    | some source =>
      obtain ⟨⟨target, rest₁⟩, _, he⟩ := Fallible.bind_eq_ok_iff.1 he
      cases target with
      | none => cases he
      | some target =>
        obtain ⟨⟨labels, rest₂⟩, _, he⟩ := Fallible.bind_eq_ok_iff.1 he
        obtain ⟨⟨properties, rest₃⟩, hproperties, he⟩ := Fallible.bind_eq_ok_iff.1 he
        obtain ⟨_, _, he⟩ := Fallible.bind_eq_ok_iff.1 he
        cases he
        exact takeItem_yields hproperties map_yields KeyMap.all_empty
  | _ => cases he

theorem distinct_toJson {e : Edge} (he : e.properties.All Json.Ordered) :
    (Source.ofJson e.toJson).Distinct := by
  have hlabels := distinct_ofTexts e.labels
  have hproperties := distinct_ofMap he
  exact Source.distinct_obj (by simp) (by simp [hlabels, hproperties])

theorem decode_toJson {e : Edge} (he : e.properties.All Json.Ordered) :
    decode (.ofJson e.toJson) = .ok e := by
  refine (ofMembers_eq_ok_iff _ _ _).2 ⟨by decide, ?_⟩
  exact {
    source := .inr ⟨_, rfl, rfl⟩
    target := .inr ⟨_, rfl, rfl⟩
    labels := .inr ⟨_, rfl, texts_ofJson e.labels⟩
    properties := .inr ⟨_, rfl, map_ofJson he⟩
    others := skips_of_fields
      (by simp [Source.ofMembers, isFieldKey, isSourceKey, isTargetKey]) }

end Edge

namespace Graph

/-- All properties are ordered. -/
structure IsOrdered (g : Graph) : Prop where
  node : ∀ n ∈ g.nodes, n.properties.All Json.Ordered
  edge : ∀ e ∈ g.edges, e.properties.All Json.Ordered

theorem decode_yields : Yields IsOrdered decode := by
  have hnodes := list_yields Node.decode_yields
  have hedges := list_yields Edge.decode_yields
  intro s g hg
  cases s with
  | obj ms ending =>
    obtain ⟨_, h⟩ := (ofMembers_eq_ok_iff ms ending g).1 hg
    exact ⟨h.nodes.yields hnodes nofun, h.edges.yields hedges nofun⟩
  | arr ss ending =>
    rw [decode, record, ofItems] at hg
    obtain ⟨⟨nodes, rest⟩, hn, hg⟩ := Fallible.bind_eq_ok_iff.1 hg
    obtain ⟨⟨edges, rest₁⟩, he, hg⟩ := Fallible.bind_eq_ok_iff.1 hg
    obtain ⟨_, _, hg⟩ := Fallible.bind_eq_ok_iff.1 hg
    cases hg
    exact ⟨takeItem_yields hn hnodes nofun, takeItem_yields he hedges nofun⟩
  | _ => cases hg

theorem distinct_toJson {g : Graph} (hg : g.IsOrdered) : (Source.ofJson g.toJson).Distinct := by
  have hnodes : (Source.ofJson (.arr (g.nodes.map Node.toJson))).Distinct :=
    Source.distinct_arr (by simpa using fun n hn => Node.distinct_toJson (hg.node n hn))
  have hedges : (Source.ofJson (.arr (g.edges.map Edge.toJson))).Distinct :=
    Source.distinct_arr (by simpa using fun e he => Edge.distinct_toJson (hg.edge e he))
  exact Source.distinct_obj (by simp) (by simp [hnodes, hedges])

theorem decode_toJson {g : Graph} (hg : g.IsOrdered) : decode (.ofJson g.toJson) = .ok g := by
  refine (ofMembers_eq_ok_iff _ _ _).2 ⟨by decide, ?_⟩
  exact {
    nodes := .inr ⟨_, rfl, list_ofJson fun n hn => Node.decode_toJson (hg.node n hn)⟩
    edges := .inr ⟨_, rfl, list_ofJson fun e he => Edge.decode_toJson (hg.edge e he)⟩
    others := skips_of_fields (by simp [Source.ofMembers, isFieldKey]) }

end Graph

end DatasetGraph
