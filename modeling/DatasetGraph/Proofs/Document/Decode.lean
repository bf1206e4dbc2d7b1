import DatasetGraph.Document.Decode
import DatasetGraph.Proofs.Json.Record

/-!
# What documents are read of

For each entity of a document, `IsOf` says of an object's members what the entity is that is read of
them: its fields hold what stands under their names, and what is left becomes its attributes or is
passed over.  An object is read as an entity exactly if it is closed and this is so
(`ofMembers_eq_ok_iff`): its `layout` lists the parts of the entity, and taking a member is a step
of each of them (`take_eq_ok_iff`).
-/

namespace DatasetGraph

open Json (Source Fault Ending Decoder)
open Json.Decoder

/-! ## References -/

namespace Reference

/-- The reference that is read of the members of an object. -/
@[mk_iff]
structure IsOf (ms : List (Option String × Source)) (r : Reference) : Prop where
  id : Holds isIdKey (optional text) (some none) ms r.id
  others : Skips isIdKey ms

/-- How the members of an object are read. -/
def layout := Part.field isIdKey "@id" (optional text) (some none) <| .skip isIdKey

theorem take_eq_ok_iff (id : Option (Option String)) (k : String) (s : Source)
    (id' : Option (Option String)) :
    take id k s = .ok id' ↔ layout.step k s (id, ()) (id', ()) := by
  simp only [layout, Part.field, Part.skip, Step.and, fieldStep, skipStep, take]
  split_ifs <;> simp_all [Unique.exists_iff, and_comm]

theorem ofMembers_eq_ok_iff (ms : List (Option String × Source)) (ending : Ending)
    (r : Reference) : ofMembers ms ending = .ok r ↔ ending ≠ .cut ∧ IsOf ms r := by
  have hparts : (fun id : Option (Option String) => (id, ())).Bijective :=
    ⟨fun _ _ h => congrArg Prod.fst h, fun ⟨id, ()⟩ => ⟨id, rfl⟩⟩
  refine (Part.members_bind_eq_ok_iff (fun r => (r.id, ())) hparts take_eq_ok_iff rfl ?_).trans ?_
  · rintro id ⟨id⟩
    simp [layout]
  · simp [layout, isOf_iff]

/-- A reference is read of a list that is empty or holds nothing but its id. -/
theorem ofItems_eq_ok_iff {ss : List Source} {ending : Ending} {r : Reference} :
    ofItems ss ending = .ok r ↔ ending ≠ .cut ∧
      (ss = [] ∧ r.id = none ∨ ∃ s, ss = [s] ∧ optional text s = .ok r.id) := by
  simp only [ofItems, Fallible.bind_eq_ok_iff]
  constructor
  · rintro ⟨⟨id, rest⟩, hid, _, hrest, hr⟩
    cases hr
    obtain ⟨rfl, hcut⟩ := noMoreItems_eq_ok_iff.1 hrest
    refine ⟨hcut, ?_⟩
    cases ss with
    | nil =>
      obtain ⟨_, _, h⟩ := Fallible.bind_eq_ok_iff.1 hid
      cases h
      exact .inl ⟨rfl, rfl⟩
    | cons s ss =>
      obtain ⟨o, ho, h⟩ := Fallible.bind_eq_ok_iff.1 hid
      cases h
      exact .inr ⟨s, rfl, ho⟩
  · rintro ⟨hcut, ⟨rfl, hid⟩ | ⟨s, rfl, hid⟩⟩
    · refine ⟨(none, []), ?_, (), noMoreItems_eq_ok_iff.2 ⟨rfl, hcut⟩, ?_⟩
      · exact Fallible.bind_eq_ok_iff.2 ⟨(), checkClosed_eq_ok_iff.2 hcut, rfl⟩
      · rw [← hid]
        rfl
    · refine ⟨(some r.id, []), ?_, (), noMoreItems_eq_ok_iff.2 ⟨rfl, hcut⟩, rfl⟩
      exact Fallible.bind_eq_ok_iff.2 ⟨r.id, hid, rfl⟩

end Reference

/-- References are read as one if they can be, and else as a list. -/
theorem References.decode_eq_ok_iff {s : Source} {rs : References} :
    References.decode s = .ok rs ↔ (∃ v, s.read? = some v) ∧
      ((∃ r, Reference.decode s = .ok r ∧ rs = .one r) ∨
        (¬∃ r, Reference.decode s = .ok r) ∧
          ∃ l, list Reference.decode s = .ok l ∧ rs = .many l) := by
  simp only [decode, Fallible.bind_eq_ok_iff, value_eq_ok_iff, ← exists_and_right]
  refine exists_congr fun v => and_congr_right fun _ => ?_
  cases Reference.decode s <;> cases list Reference.decode s <;>
    simp [pure, Except.pure, throw, throwThe, MonadExceptOf.throw, eq_comm]

/-! ## Distributions -/

namespace Distribution

/-- Whether a key names a field of a distribution. -/
def isFieldKey (k : String) : Bool :=
  isIdKey k || isTypeKey k || k = "encodingFormat" || k = "containedIn"

/-- The distribution that is read of the members of an object. -/
@[mk_iff]
structure IsOf (ms : List (Option String × Source)) (d : Distribution) : Prop where
  id : Holds isIdKey (optional text) (some none) ms d.id
  type : Holds isTypeKey (optional text) (some none) ms d.type
  encodingFormat : Holds (· = "encodingFormat") (optional text) (some none) ms d.encodingFormat
  containedIn : Holds (· = "containedIn") (optional References.decode) (some none) ms d.containedIn
  attributes : Rest isFieldKey ms d.attributes

def Fields.parts (f : Fields) : Option (Option String) × Option (Option String) ×
    Option (Option String) × Option (Option References) × KeyMap Json :=
  (f.id, f.type, f.encodingFormat, f.containedIn, f.attributes)

theorem Fields.parts_bijective : Fields.parts.Bijective :=
  ⟨fun ⟨_, _, _, _, _⟩ ⟨_, _, _, _, _⟩ h => by cases h; rfl,
    fun ⟨i, t, e, c, a⟩ => ⟨⟨i, t, e, c, a⟩, rfl⟩⟩

/-- How the members of an object are read. -/
def layout := Part.field isIdKey "@id" (optional text) (some none) <|
  .field isTypeKey "@type" (optional text) (some none) <|
  .field (· = "encodingFormat") "encodingFormat" (optional text) (some none) <|
  .field (· = "containedIn") "containedIn" (optional References.decode) (some none) <|
  .rest isFieldKey

theorem Fields.take_eq_ok_iff (f : Fields) (k : String) (s : Source) (f' : Fields) :
    f.take k s = .ok f' ↔ layout.step k s f.parts f'.parts := by
  obtain ⟨⟩ := f
  obtain ⟨⟩ := f'
  simp only [layout, Part.field, Part.rest, Step.and, fieldStep, restStep, parts, take, isFieldKey,
    isIdKey, isTypeKey]
  split_ifs <;> simp_all <;> grind

theorem ofMembers_eq_ok_iff (ms : List (Option String × Source)) (ending : Ending)
    (d : Distribution) : ofMembers ms ending = .ok d ↔ ending ≠ .cut ∧ IsOf ms d := by
  refine (Part.members_bind_eq_ok_iff
    (fun d => (d.id, d.type, d.encodingFormat, d.containedIn, d.attributes))
    Fields.parts_bijective Fields.take_eq_ok_iff rfl ?_).trans ?_
  · rintro f ⟨id, type, format, contained, attributes⟩
    simp [layout, Fields.parts]
  · simp [layout, isOf_iff]

end Distribution

/-! ## Fields -/

namespace Extract

/-- The extract that is read of the members of an object. -/
@[mk_iff]
structure IsOf (ms : List (Option String × Source)) (x : Extract) : Prop where
  column : Holds (· = "column") (optional value) (some none) ms x.column
  others : Skips (· = "column") ms

/-- How the members of an object are read. -/
def layout := Part.field (· = "column") "column" (optional value) (some none) <|
  .skip (· = "column")

theorem take_eq_ok_iff (column : Option (Option Json)) (k : String) (s : Source)
    (column' : Option (Option Json)) :
    take column k s = .ok column' ↔ layout.step k s (column, ()) (column', ()) := by
  simp only [layout, Part.field, Part.skip, Step.and, fieldStep, skipStep, take]
  split_ifs <;> simp_all [Unique.exists_iff, and_comm]

theorem ofMembers_eq_ok_iff (ms : List (Option String × Source)) (ending : Ending) (x : Extract) :
    ofMembers ms ending = .ok x ↔ ending ≠ .cut ∧ IsOf ms x := by
  have hparts : (fun column : Option (Option Json) => (column, ())).Bijective :=
    ⟨fun _ _ h => congrArg Prod.fst h, fun ⟨column, ()⟩ => ⟨column, rfl⟩⟩
  refine (Part.members_bind_eq_ok_iff (fun x => (x.column, ())) hparts take_eq_ok_iff rfl
    ?_).trans ?_
  · rintro column ⟨column⟩
    simp [layout]
  · simp [layout, isOf_iff]

end Extract

namespace FieldSource

/-- Whether a key names a part of a source. -/
def isFieldKey (k : String) : Bool := k = "fileObject" || k = "fileSet" || k = "extract"

/-- The source that is read of the members of an object. -/
@[mk_iff]
structure IsOf (ms : List (Option String × Source)) (s : FieldSource) : Prop where
  fileObject : Holds (· = "fileObject") (optional Reference.decode) (some none) ms s.fileObject
  fileSet : Holds (· = "fileSet") (optional Reference.decode) (some none) ms s.fileSet
  extract : Holds (· = "extract") (optional Extract.decode) (some none) ms s.extract
  others : Skips isFieldKey ms

def Fields.parts (f : Fields) :
    Option (Option Reference) × Option (Option Reference) × Option (Option Extract) × Unit :=
  (f.fileObject, f.fileSet, f.extract, ())

theorem Fields.parts_bijective : Fields.parts.Bijective :=
  ⟨fun ⟨_, _, _⟩ ⟨_, _, _⟩ h => by cases h; rfl, fun ⟨o, s, e, ()⟩ => ⟨⟨o, s, e⟩, rfl⟩⟩

/-- How the members of an object are read. -/
def layout := Part.field (· = "fileObject") "fileObject" (optional Reference.decode) (some none) <|
  .field (· = "fileSet") "fileSet" (optional Reference.decode) (some none) <|
  .field (· = "extract") "extract" (optional Extract.decode) (some none) <| .skip isFieldKey

theorem Fields.take_eq_ok_iff (f : Fields) (k : String) (s : Source) (f' : Fields) :
    f.take k s = .ok f' ↔ layout.step k s f.parts f'.parts := by
  obtain ⟨⟩ := f
  obtain ⟨⟩ := f'
  simp only [layout, Part.field, Part.skip, Step.and, fieldStep, skipStep, parts, take, isFieldKey]
  split_ifs <;> simp_all <;> tauto

theorem ofMembers_eq_ok_iff (ms : List (Option String × Source)) (ending : Ending)
    (s : FieldSource) : ofMembers ms ending = .ok s ↔ ending ≠ .cut ∧ IsOf ms s := by
  refine (Part.members_bind_eq_ok_iff (fun s => (s.fileObject, s.fileSet, s.extract, ()))
    Fields.parts_bijective Fields.take_eq_ok_iff rfl ?_).trans ?_
  · rintro f ⟨object, set, extract⟩
    simp [layout, Fields.parts]
  · simp [layout, isOf_iff]

end FieldSource

namespace Statistics

/-- Whether a key names a field of statistics. -/
def isFieldKey (k : String) : Bool := isIdKey k || isTypeKey k

/-- The statistics that are read of the members of an object. -/
@[mk_iff]
structure IsOf (ms : List (Option String × Source)) (s : Statistics) : Prop where
  id : Holds isIdKey (optional text) (some none) ms s.id
  type : Holds isTypeKey (optional text) (some none) ms s.type
  values : Rest isFieldKey ms s.values

def Fields.parts (f : Fields) : Option (Option String) × Option (Option String) × KeyMap Json :=
  (f.id, f.type, f.values)

theorem Fields.parts_bijective : Fields.parts.Bijective :=
  ⟨fun ⟨_, _, _⟩ ⟨_, _, _⟩ h => by cases h; rfl, fun ⟨i, t, v⟩ => ⟨⟨i, t, v⟩, rfl⟩⟩

/-- How the members of an object are read. -/
def layout := Part.field isIdKey "@id" (optional text) (some none) <|
  .field isTypeKey "@type" (optional text) (some none) <| .rest isFieldKey

theorem Fields.take_eq_ok_iff (f : Fields) (k : String) (s : Source) (f' : Fields) :
    f.take k s = .ok f' ↔ layout.step k s f.parts f'.parts := by
  obtain ⟨⟩ := f
  obtain ⟨⟩ := f'
  -- no key stands for both, so it does not matter which is asked for first
  have hdisjoint : isIdKey k = true → isTypeKey k = false := by grind [isIdKey, isTypeKey]
  simp only [layout, Part.field, Part.rest, Step.and, fieldStep, restStep, parts, take, isFieldKey]
  by_cases hid : isIdKey k = true <;> by_cases htype : isTypeKey k = true <;> simp_all <;> grind

theorem ofMembers_eq_ok_iff (ms : List (Option String × Source)) (ending : Ending)
    (s : Statistics) : ofMembers ms ending = .ok s ↔ ending ≠ .cut ∧ IsOf ms s := by
  refine (Part.members_bind_eq_ok_iff (fun s => (s.id, s.type, s.values))
    Fields.parts_bijective Fields.take_eq_ok_iff rfl ?_).trans ?_
  · rintro f ⟨id, type, values⟩
    simp [layout, Fields.parts]
  · simp [layout, isOf_iff]

end Statistics

namespace Field

/-- Whether a key names a part of a field. -/
def isFieldKey (k : String) : Bool :=
  isIdKey k || isTypeKey k || k = "source" || k = "statistics"

/-- The field that is read of the members of an object. -/
@[mk_iff]
structure IsOf (ms : List (Option String × Source)) (f : Field) : Prop where
  id : Holds isIdKey (optional text) (some none) ms f.id
  type : Holds isTypeKey (optional text) (some none) ms f.type
  source : Holds (· = "source") (optional FieldSource.decode) (some none) ms f.source
  statistics : Holds (· = "statistics") (optional Statistics.decode) (some none) ms f.statistics
  attributes : Rest isFieldKey ms f.attributes

def Fields.parts (f : Fields) : Option (Option String) × Option (Option String) ×
    Option (Option FieldSource) × Option (Option Statistics) × KeyMap Json :=
  (f.id, f.type, f.source, f.statistics, f.attributes)

theorem Fields.parts_bijective : Fields.parts.Bijective :=
  ⟨fun ⟨_, _, _, _, _⟩ ⟨_, _, _, _, _⟩ h => by cases h; rfl,
    fun ⟨i, t, s, u, a⟩ => ⟨⟨i, t, s, u, a⟩, rfl⟩⟩

/-- How the members of an object are read. -/
def layout := Part.field isIdKey "@id" (optional text) (some none) <|
  .field isTypeKey "@type" (optional text) (some none) <|
  .field (· = "source") "source" (optional FieldSource.decode) (some none) <|
  .field (· = "statistics") "statistics" (optional Statistics.decode) (some none) <|
  .rest isFieldKey

theorem Fields.take_eq_ok_iff (f : Fields) (k : String) (s : Source) (f' : Fields) :
    f.take k s = .ok f' ↔ layout.step k s f.parts f'.parts := by
  obtain ⟨⟩ := f
  obtain ⟨⟩ := f'
  simp only [layout, Part.field, Part.rest, Step.and, fieldStep, restStep, parts, take, isFieldKey,
    isIdKey, isTypeKey]
  split_ifs <;> simp_all <;> grind

theorem ofMembers_eq_ok_iff (ms : List (Option String × Source)) (ending : Ending) (f : Field) :
    ofMembers ms ending = .ok f ↔ ending ≠ .cut ∧ IsOf ms f := by
  refine (Part.members_bind_eq_ok_iff
    (fun f => (f.id, f.type, f.source, f.statistics, f.attributes))
    Fields.parts_bijective Fields.take_eq_ok_iff rfl ?_).trans ?_
  · rintro f' ⟨id, type, source, statistics, attributes⟩
    simp [layout, Fields.parts]
  · simp [layout, isOf_iff]

end Field

/-! ## Record sets and documents -/

namespace RecordSet

/-- Whether a key names a field of a record set. -/
def isFieldKey (k : String) : Bool := isIdKey k || isTypeKey k || k = "field"

/-- The record set that is read of the members of an object. -/
@[mk_iff]
structure IsOf (ms : List (Option String × Source)) (r : RecordSet) : Prop where
  id : Holds isIdKey (optional text) (some none) ms r.id
  type : Holds isTypeKey (optional text) (some none) ms r.type
  fields : Holds (· = "field") (list Field.decode) (some []) ms r.fields
  attributes : Rest isFieldKey ms r.attributes

def Fields.parts (f : Fields) :
    Option (Option String) × Option (Option String) × Option (List Field) × KeyMap Json :=
  (f.id, f.type, f.fields, f.attributes)

theorem Fields.parts_bijective : Fields.parts.Bijective :=
  ⟨fun ⟨_, _, _, _⟩ ⟨_, _, _, _⟩ h => by cases h; rfl, fun ⟨i, t, f, a⟩ => ⟨⟨i, t, f, a⟩, rfl⟩⟩

/-- How the members of an object are read. -/
def layout := Part.field isIdKey "@id" (optional text) (some none) <|
  .field isTypeKey "@type" (optional text) (some none) <|
  .field (· = "field") "field" (list Field.decode) (some []) <| .rest isFieldKey

theorem Fields.take_eq_ok_iff (f : Fields) (k : String) (s : Source) (f' : Fields) :
    f.take k s = .ok f' ↔ layout.step k s f.parts f'.parts := by
  obtain ⟨⟩ := f
  obtain ⟨⟩ := f'
  simp only [layout, Part.field, Part.rest, Step.and, fieldStep, restStep, parts, take, isFieldKey,
    isIdKey, isTypeKey]
  split_ifs <;> simp_all <;> grind

theorem ofMembers_eq_ok_iff (ms : List (Option String × Source)) (ending : Ending)
    (r : RecordSet) : ofMembers ms ending = .ok r ↔ ending ≠ .cut ∧ IsOf ms r := by
  refine (Part.members_bind_eq_ok_iff (fun r => (r.id, r.type, r.fields, r.attributes))
    Fields.parts_bijective Fields.take_eq_ok_iff rfl ?_).trans ?_
  · rintro f ⟨id, type, fields, attributes⟩
    simp [layout, Fields.parts]
  · simp [layout, isOf_iff]

end RecordSet

namespace Document

/-- Whether a key names a field of a document. -/
def isFieldKey (k : String) : Bool :=
  isIdKey k || isTypeKey k || k = "distribution" || k = "recordSet"

/-- The document that is read of the members of an object. -/
@[mk_iff]
structure IsOf (ms : List (Option String × Source)) (d : Document) : Prop where
  id : Holds isIdKey (optional text) (some none) ms d.id
  type : Holds isTypeKey (optional text) (some none) ms d.type
  distributions : Holds (· = "distribution") (list Distribution.decode) (some []) ms d.distributions
  recordSets : Holds (· = "recordSet") (list RecordSet.decode) (some []) ms d.recordSets
  metadata : Rest isFieldKey ms d.metadata

def Fields.parts (f : Fields) : Option (Option String) × Option (Option String) ×
    Option (List Distribution) × Option (List RecordSet) × KeyMap Json :=
  (f.id, f.type, f.distributions, f.recordSets, f.metadata)

theorem Fields.parts_bijective : Fields.parts.Bijective :=
  ⟨fun ⟨_, _, _, _, _⟩ ⟨_, _, _, _, _⟩ h => by cases h; rfl,
    fun ⟨i, t, d, r, m⟩ => ⟨⟨i, t, d, r, m⟩, rfl⟩⟩

/-- How the members of an object are read. -/
def layout := Part.field isIdKey "@id" (optional text) (some none) <|
  .field isTypeKey "@type" (optional text) (some none) <|
  .field (· = "distribution") "distribution" (list Distribution.decode) (some []) <|
  .field (· = "recordSet") "recordSet" (list RecordSet.decode) (some []) <| .rest isFieldKey

theorem Fields.take_eq_ok_iff (f : Fields) (k : String) (s : Source) (f' : Fields) :
    f.take k s = .ok f' ↔ layout.step k s f.parts f'.parts := by
  obtain ⟨⟩ := f
  obtain ⟨⟩ := f'
  simp only [layout, Part.field, Part.rest, Step.and, fieldStep, restStep, parts, take, isFieldKey,
    isIdKey, isTypeKey]
  split_ifs <;> simp_all <;> grind

theorem ofMembers_eq_ok_iff (ms : List (Option String × Source)) (ending : Ending)
    (d : Document) : ofMembers ms ending = .ok d ↔ ending ≠ .cut ∧ IsOf ms d := by
  refine (Part.members_bind_eq_ok_iff
    (fun d => (d.id, d.type, d.distributions, d.recordSets, d.metadata))
    Fields.parts_bijective Fields.take_eq_ok_iff rfl ?_).trans ?_
  · rintro f ⟨id, type, distributions, recordSets, metadata⟩
    simp [layout, Fields.parts]
  · simp [layout, isOf_iff]

end Document

end DatasetGraph
