import DatasetGraph.Proofs.Document.Decode

/-!
# Documents whose ids and types are spelled otherwise

The id of an entity stands under `@id` or under `id`, its type under `@type` or under `type`.  Two
sources of a document are respellings of each other (`Document.Respelled`) if they have the same
value but for the spelling of these keys: in the document itself, in its distributions, record sets,
fields and statistics, and in references.  Each occurrence of a key may be spelled either way, and
the members of an object may come in any order; what is kept as attributes is alike.

The same document is read of both (`Document.decode_respects`).  The lemmas follow the entities from
the references up.
-/

namespace DatasetGraph

open Json (Source Fault Ending Decoder)
open Json.Decoder
open Json.Source (Alike)

/-- Whether two keys name the id of an entity, or both its type. -/
def SameName (k k' : String) : Prop :=
  isIdKey k = true ∧ isIdKey k' = true ∨ isTypeKey k = true ∧ isTypeKey k' = true

namespace SameName

variable {k k' : String}

theorem isIdKey_eq (h : SameName k k') : isIdKey k = isIdKey k' := by
  grind [SameName, isIdKey, isTypeKey]

theorem isTypeKey_eq (h : SameName k k') : isTypeKey k = isTypeKey k' := by
  grind [SameName, isIdKey, isTypeKey]

/-- Neither key is any other. -/
theorem decide_eq (h : SameName k k') {name : String} (hid : isIdKey name = false)
    (htype : isTypeKey name = false) : decide (k = name) = decide (k' = name) := by
  grind [SameName]

end SameName

theorem optional_text_respects : Respects Alike (optional text) :=
  optional_respects lenient_alike text_respects

/-! ## References -/

namespace Reference

/-- Sources of references whose ids may be spelled either way. -/
abbrev Respelled : Source → Source → Prop := SameRecord SameName (fun _ => Alike) [Alike]

theorem decode_respects : Respects Respelled decode := by
  refine record_respects (fun _ => lenient_alike) (by simp [lenient_alike]) ofMembers_eq_ok_iff
    ?_ ?_
  · intro ms ms' r h hr
    exact {
      id := h.holds (fun _ _ hk => hk.isIdKey_eq) (fun _ _ => rfl) optional_text_respects hr.id
      others := h.skips (fun _ _ hk => hk.isIdKey_eq) fun _ _ => rfl }
  · intro ss ss' ending ending' r h hcut' hr
    refine h.takeItem_bind optional_text_respects hcut' hr fun id _ _ h hr => ?_
    exact h.noMoreItems_bind hcut' hr

theorem Respelled.exists_read? {s s' : Source} (h : Respelled s s') : ∃ v, s'.read? = some v :=
  SameRecord.exists_read? h (fun _ _ _ => Alike.exists_read?)
    (by simpa using fun _ _ => Alike.exists_read?)

/-- An id is no reference, so it is read of both or of neither. -/
theorem Respelled.optional_text_eq_ok_iff {s s' : Source} (h : Respelled s s')
    {id : Option String} :
    Decoder.optional text s = .ok id ↔ Decoder.optional text s' = .ok id := by
  cases h with
  | alike h =>
    exact ⟨fun hs => optional_text_respects h hs, fun hs' => optional_text_respects h.symm hs'⟩
  | members => simp [Decoder.optional, text, Except.map]
  | items => simp [Decoder.optional, text, Except.map]

theorem ofItems_iff_of_respelled {ss ss' : List Source} (h : List.Forall₂ Respelled ss ss')
    {ending ending' : Ending} (hcut : ending ≠ .cut) (hcut' : ending' ≠ .cut) {r : Reference} :
    ofItems ss ending = .ok r ↔ ofItems ss' ending' = .ok r := by
  rw [ofItems_eq_ok_iff, ofItems_eq_ok_iff]
  cases h with
  | nil => simp [hcut, hcut']
  | cons hs hss =>
    cases hss with
    | nil => simp [hcut, hcut', hs.optional_text_eq_ok_iff]
    | cons => simp

end Reference

namespace References

/-- Sources of references whose ids may be spelled either way, be it one or a list of them. -/
inductive Respelled : Source → Source → Prop where
  | one {s s' : Source} (h : Reference.Respelled s s') : Respelled s s'
  | many {ss ss' : List Source} {ending ending' : Ending} (closed : ending ≠ .cut)
    (closed' : ending' ≠ .cut) (h : List.Forall₂ Reference.Respelled ss ss') :
    Respelled (.arr ss ending) (.arr ss' ending')

theorem lenient_respelled : Lenient Respelled where
  of_alike h := .one (.alike h)
  eq_null_iff h := by
    cases h with
    | one h => exact lenient_sameRecord.eq_null_iff h
    | many => simp

theorem Respelled.exists_read? {s s' : Source} (h : Respelled s s') : ∃ v, s'.read? = some v := by
  cases h with
  | one h => exact h.exists_read?
  | many _ hcut' h =>
    obtain ⟨vs, hvs⟩ := Source.exists_readItems? (h.imp fun _ _ => Reference.Respelled.exists_read?)
    exact ⟨_, Source.read?_arr_eq_some_iff.2 ⟨hcut', vs, hvs, rfl⟩⟩

/-- Sources of lists are lists, item by item. -/
theorem Respelled.of_arr {ss : List Source} {ending : Ending} {s' : Source}
    (h : Respelled (.arr ss ending) s') : ∃ ss' ending', s' = .arr ss' ending' ∧ ending' ≠ .cut ∧
      List.Forall₂ Reference.Respelled ss ss' := by
  cases h with
  | one h =>
    obtain ⟨ss', ending', rfl, hcut', hss⟩ := h.of_arr (by simp [lenient_alike])
    exact ⟨ss', ending', rfl, hcut',
      hss.forall₂ (fun _ _ => .alike) (by simpa using fun _ _ => .alike)⟩
  | many _ hcut' h => exact ⟨_, _, rfl, hcut', h⟩

theorem decode_respects : Respects Respelled decode := by
  intro s s' rs h hrs
  refine decode_eq_ok_iff.2 ⟨h.exists_read?, ?_⟩
  -- A list of one id is a single reference as well; so that no reference is read of either list, the
  -- reading of single references has to agree both ways.
  rcases (decode_eq_ok_iff.1 hrs).2 with ⟨r, hr, rfl⟩ | ⟨hone, l, hl, rfl⟩
  · refine .inl ⟨r, ?_, rfl⟩
    cases h with
    | one h => exact Reference.decode_respects h hr
    | many hcut hcut' h => exact (Reference.ofItems_iff_of_respelled h hcut hcut').1 hr
  · obtain ⟨ss, ending, rfl, hcut, _⟩ := list_eq_ok_iff.1 hl
    obtain ⟨ss', ending', rfl, hcut', hss⟩ := h.of_arr
    refine .inr ⟨?_, l, ?_, rfl⟩
    · rintro ⟨r, hr⟩
      exact hone ⟨r, (Reference.ofItems_iff_of_respelled hss hcut hcut').2 hr⟩
    · exact list_respects lenient_sameRecord Reference.decode_respects (.items hcut hcut' hss) hl

end References

/-! ## Distributions -/

namespace Distribution

/-- Sources of distributions whose ids and types may be spelled either way. -/
abbrev Respelled : Source → Source → Prop :=
  SameRecord SameName (fun k => if k = "containedIn" then References.Respelled else Alike) []

theorem decode_respects : Respects Respelled decode := by
  have hpart : ∀ k : String,
      Lenient (if k = "containedIn" then References.Respelled else Alike) := by
    intro k
    split
    · exact References.lenient_respelled
    · exact lenient_alike
  refine objectRecord_respects hpart ofMembers_eq_ok_iff ?_
  intro ms ms' d h hd
  exact {
    id := h.holds (fun _ _ hk => hk.isIdKey_eq) (by grind [isIdKey]) optional_text_respects hd.id
    type := h.holds (fun _ _ hk => hk.isTypeKey_eq) (by grind [isTypeKey]) optional_text_respects
      hd.type
    encodingFormat := h.holds (fun _ _ hk => hk.decide_eq rfl rfl) (by simp) optional_text_respects
      hd.encodingFormat
    containedIn := h.holds (fun _ _ hk => hk.decide_eq rfl rfl) (by simp)
      (optional_respects References.lenient_respelled References.decode_respects) hd.containedIn
    attributes := h.rest (by grind [SameName, isFieldKey]) (by grind [isFieldKey]) hd.attributes }

end Distribution

/-! ## Fields -/

theorem Extract.decode_respects : Respects Alike Extract.decode := by
  have hsame : Respects (SameRecord (fun _ _ => False) (fun _ => Alike) [Alike])
      Extract.decode := by
    have hvalue : Respects Alike (Decoder.optional value) :=
      optional_respects lenient_alike value_respects
    refine record_respects (fun _ => lenient_alike) (by simp [lenient_alike])
      ofMembers_eq_ok_iff ?_ ?_
    · intro ms ms' x h hx
      exact {
        column := h.holds nofun (fun _ _ => rfl) hvalue hx.column
        others := h.skips nofun fun _ _ => rfl }
    · intro ss ss' ending ending' x h hcut' hx
      refine h.takeItem_bind hvalue hcut' hx fun column _ _ h hx => ?_
      exact h.noMoreItems_bind hcut' hx
  exact fun s s' x h => hsame (.alike h)

namespace FieldSource

/-- Sources of what a field comes from whose references may spell their ids either way. -/
abbrev Respelled : Source → Source → Prop :=
  SameRecord (fun _ _ => False)
    (fun k => if k = "fileObject" ∨ k = "fileSet" then Reference.Respelled else Alike)
    [Reference.Respelled, Reference.Respelled, Alike]

theorem decode_respects : Respects Respelled decode := by
  have hreference : Respects Reference.Respelled (Decoder.optional Reference.decode) :=
    optional_respects lenient_sameRecord Reference.decode_respects
  have hextract : Respects Alike (Decoder.optional Extract.decode) :=
    optional_respects lenient_alike Extract.decode_respects
  refine record_respects ?_ (by simp [lenient_alike, lenient_sameRecord]) ofMembers_eq_ok_iff ?_ ?_
  · intro k
    split
    · exact lenient_sameRecord
    · exact lenient_alike
  · intro ms ms' s h hs
    exact {
      fileObject := h.holds nofun (by simp) hreference hs.fileObject
      fileSet := h.holds nofun (by simp) hreference hs.fileSet
      extract := h.holds nofun (by simp) hextract hs.extract
      others := h.skips nofun (by grind [isFieldKey]) }
  · intro ss ss' ending ending' s h hcut' hs
    refine h.takeItem_bind hreference hcut' hs fun object _ _ h hs => ?_
    refine h.takeItem_bind hreference hcut' hs fun set _ _ h hs => ?_
    refine h.takeItem_bind hextract hcut' hs fun extract _ _ h hs => ?_
    exact h.noMoreItems_bind hcut' hs

end FieldSource

namespace Statistics

/-- Sources of statistics whose ids and types may be spelled either way. -/
abbrev Respelled : Source → Source → Prop := SameRecord SameName (fun _ => Alike) []

theorem decode_respects : Respects Respelled decode := by
  refine objectRecord_respects (fun _ => lenient_alike) ofMembers_eq_ok_iff ?_
  intro ms ms' s h hs
  exact {
    id := h.holds (fun _ _ hk => hk.isIdKey_eq) (fun _ _ => rfl) optional_text_respects hs.id
    type := h.holds (fun _ _ hk => hk.isTypeKey_eq) (fun _ _ => rfl) optional_text_respects hs.type
    values := h.rest (by grind [SameName, isFieldKey]) (fun _ _ => rfl) hs.values }

end Statistics

namespace Field

/-- Sources of fields whose ids and types may be spelled either way. -/
abbrev Respelled : Source → Source → Prop :=
  SameRecord SameName
    (fun k =>
      if k = "source" then FieldSource.Respelled
      else if k = "statistics" then Statistics.Respelled
      else Alike)
    []

theorem decode_respects : Respects Respelled decode := by
  refine objectRecord_respects ?_ ofMembers_eq_ok_iff ?_
  · intro k
    split_ifs
    · exact lenient_sameRecord
    · exact lenient_sameRecord
    · exact lenient_alike
  · intro ms ms' f h hf
    exact {
      id := h.holds (fun _ _ hk => hk.isIdKey_eq) (by grind [isIdKey]) optional_text_respects hf.id
      type := h.holds (fun _ _ hk => hk.isTypeKey_eq) (by grind [isTypeKey]) optional_text_respects
        hf.type
      source := h.holds (fun _ _ hk => hk.decide_eq rfl rfl) (by simp)
        (optional_respects lenient_sameRecord FieldSource.decode_respects) hf.source
      statistics := h.holds (fun _ _ hk => hk.decide_eq rfl rfl) (by simp)
        (optional_respects lenient_sameRecord Statistics.decode_respects) hf.statistics
      attributes := h.rest (by grind [SameName, isFieldKey]) (by grind [isFieldKey])
        hf.attributes }

end Field

/-! ## Record sets and documents -/

namespace RecordSet

/-- Sources of record sets whose ids and types may be spelled either way. -/
abbrev Respelled : Source → Source → Prop :=
  SameRecord SameName (fun k => if k = "field" then Listwise Field.Respelled else Alike) []

theorem decode_respects : Respects Respelled decode := by
  refine objectRecord_respects ?_ ofMembers_eq_ok_iff ?_
  · intro k
    split
    · exact lenient_listwise _
    · exact lenient_alike
  · intro ms ms' r h hr
    exact {
      id := h.holds (fun _ _ hk => hk.isIdKey_eq) (by grind [isIdKey]) optional_text_respects hr.id
      type := h.holds (fun _ _ hk => hk.isTypeKey_eq) (by grind [isTypeKey]) optional_text_respects
        hr.type
      fields := h.holds (fun _ _ hk => hk.decide_eq rfl rfl) (by simp)
        (list_respects lenient_sameRecord Field.decode_respects) hr.fields
      attributes := h.rest (by grind [SameName, isFieldKey]) (by grind [isFieldKey])
        hr.attributes }

end RecordSet

namespace Document

/-- Sources of documents whose ids and types, and those of their entities, may be spelled either
way. -/
abbrev Respelled : Source → Source → Prop :=
  SameRecord SameName
    (fun k =>
      if k = "distribution" then Listwise Distribution.Respelled
      else if k = "recordSet" then Listwise RecordSet.Respelled
      else Alike)
    []

theorem decode_respects : Respects Respelled decode := by
  refine objectRecord_respects ?_ ofMembers_eq_ok_iff ?_
  · intro k
    split_ifs
    · exact lenient_listwise _
    · exact lenient_listwise _
    · exact lenient_alike
  · intro ms ms' d h hd
    exact {
      id := h.holds (fun _ _ hk => hk.isIdKey_eq) (by grind [isIdKey]) optional_text_respects hd.id
      type := h.holds (fun _ _ hk => hk.isTypeKey_eq) (by grind [isTypeKey]) optional_text_respects
        hd.type
      distributions := h.holds (fun _ _ hk => hk.decide_eq rfl rfl) (by simp)
        (list_respects lenient_sameRecord Distribution.decode_respects) hd.distributions
      recordSets := h.holds (fun _ _ hk => hk.decide_eq rfl rfl) (by simp)
        (list_respects lenient_sameRecord RecordSet.decode_respects) hd.recordSets
      metadata := h.rest (by grind [SameName, isFieldKey]) (by grind [isFieldKey]) hd.metadata }

end Document

end DatasetGraph
