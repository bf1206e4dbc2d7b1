import DatasetGraph.Json.Decode
import DatasetGraph.Proofs.Fallible
import DatasetGraph.Proofs.Json.Value

/-!
# What records are read of

A record is read of an object by going through its members in order, and each part of the record
takes what is its own.  So the parts can be looked at one by one: `members_eq_ok_iff` splits the way
through the members into as many independent ones as there are parts, and a record is put together
of its parts again (`Part.members_bind_eq_ok_iff`).

A field takes what stands under its names, once at most (`Holds`); what is left goes into a map, the
last one for a key winning (`Rest`), or is passed over (`Skips`).  Records that are also read of
lists take their fields by their places.
-/

namespace DatasetGraph.Json.Decoder

open Source (Alike Correspond readMembers?)

variable {α β : Type}

/-! ## One part at a time -/

/-- What a member makes of a part of a record. -/
abbrev Step (β : Type) := String → Source → β → β → Prop

/-- What members make of a part of a record, one after the other. -/
def Steps (step : Step β) : List (Option String × Source) → β → β → Prop
  | [], b, b' => b = b'
  | (none, _) :: _, _, _ => False
  | (some k, s) :: ms, b, b' => ∃ c, step k s b c ∧ Steps step ms c b'

/-- Two parts, each on its own. -/
def Step.and (a : Step α) (b : Step β) : Step (α × β) :=
  fun k s p q => a k s p.1 q.1 ∧ b k s p.2 q.2

theorem steps_and {a : Step α} {b : Step β} {ms : List (Option String × Source)} {p q : α × β} :
    Steps (a.and b) ms p q ↔ Steps a ms p.1 q.1 ∧ Steps b ms p.2 q.2 := by
  induction ms generalizing p with
  | nil => exact Prod.ext_iff
  | cons m ms ih =>
    obtain ⟨_ | k, s⟩ := m
    · simp [Steps]
    · simp only [Steps, ih, Step.and]
      constructor
      · rintro ⟨c, ⟨ha, hb⟩, hc, hd⟩
        exact ⟨⟨c.1, ha, hc⟩, c.2, hb, hd⟩
      · rintro ⟨⟨c, ha, hc⟩, d, hb, hd⟩
        exact ⟨(c, d), ⟨ha, hb⟩, hc, hd⟩

/-- Every member has a key. -/
def Keyed (ms : List (Option String × Source)) : Prop := ∀ m ∈ ms, m.1 ≠ none

theorem Steps.keyed {step : Step β} {ms : List (Option String × Source)} {b b' : β}
    (h : Steps step ms b b') : Keyed ms := by
  induction ms generalizing b with
  | nil => nofun
  | cons m ms ih =>
    obtain ⟨_ | k, s⟩ := m
    · cases h
    · obtain ⟨c, _, hms⟩ := h
      exact List.forall_mem_cons.2 ⟨nofun, ih hms⟩

theorem checkClosed_eq_ok_iff {ending : Ending} : checkClosed ending = .ok () ↔ ending ≠ .cut := by
  cases ending <;> decide

/-- The way through the members of an object, part by part; `parts` takes a record apart. -/
theorem members_eq_ok_iff {take : α → String → Source → Except Fault α} {parts : α → β}
    (hparts : parts.Bijective) {step : Step β}
    (htake : ∀ a k s a', take a k s = .ok a' ↔ step k s (parts a) (parts a'))
    {ms : List (Option String × Source)} {ending : Ending} {a a' : α} :
    members take a ms ending = .ok a' ↔ ending ≠ .cut ∧ Steps step ms (parts a) (parts a') := by
  induction ms generalizing a with
  | nil =>
    rw [members, Fallible.bind_eq_ok_iff, Steps, hparts.1.eq_iff, ← checkClosed_eq_ok_iff]
    constructor
    · rintro ⟨_, hclosed, ha⟩
      exact ⟨hclosed, Except.ok.inj ha⟩
    · rintro ⟨hclosed, rfl⟩
      exact ⟨(), hclosed, rfl⟩
  | cons m ms ih =>
    obtain ⟨_ | k, s⟩ := m
    · simp [members, Steps]
    · simp only [members, Fallible.bind_eq_ok_iff, htake, ih, Steps]
      constructor
      · rintro ⟨c, hc, hcut, hms⟩
        exact ⟨hcut, parts c, hc, hms⟩
      · rintro ⟨hcut, b, hb, hms⟩
        obtain ⟨c, rfl⟩ := hparts.2 b
        exact ⟨c, hb, hcut, hms⟩

/-! ## Fields -/

/-- A field takes what stands under its names, unless it has something. -/
def fieldStep (p : String → Bool) (name : String) (d : Decoder α) : Step (Option α) :=
  fun k s old new => if p k then field name old d s = .ok new else old = new

theorem field_none_eq_ok_iff {name : String} {d : Decoder α} {s : Source} {new : Option α} :
    field name none d s = .ok new ↔ ∃ x, d s = .ok x ∧ new = some x := by
  cases h : d s <;> simp [field, h, Except.map, eq_comm]

/-- What stands under the keys that pass. -/
def under (p : String → Bool) (ms : List (Option String × Source)) : List Source :=
  (ms.filter fun m => m.1.any p).map Prod.snd

theorem steps_fieldStep_some {p : String → Bool} {name : String} {d : Decoder α}
    {ms : List (Option String × Source)} {x : α} {new : Option α} :
    Steps (fieldStep p name d) ms (some x) new ↔ Keyed ms ∧ under p ms = [] ∧ new = some x := by
  induction ms with
  | nil => simp [Steps, Keyed, under, eq_comm]
  | cons m ms ih =>
    obtain ⟨_ | k, s⟩ := m
    · simp [Steps, Keyed]
    · cases hk : p k <;> simp_all [Steps, fieldStep, field, Keyed, under]

theorem steps_fieldStep_none {p : String → Bool} {name : String} {d : Decoder α}
    {ms : List (Option String × Source)} {new : Option α} :
    Steps (fieldStep p name d) ms none new ↔ Keyed ms ∧
      (under p ms = [] ∧ new = none ∨ ∃ s x, under p ms = [s] ∧ d s = .ok x ∧ new = some x) := by
  induction ms with
  | nil => simp [Steps, Keyed, under, eq_comm]
  | cons m ms ih =>
    obtain ⟨_ | k, s⟩ := m
    · simp [Steps, Keyed]
    · cases hk : p k
      · simp_all [Steps, fieldStep, Keyed, under]
      · have hunder : under p ((some k, s) :: ms) = s :: under p ms := by simp [under, hk]
        have hkeyed : Keyed ((some k, s) :: ms) ↔ Keyed ms := by simp [Keyed]
        simp only [Steps, fieldStep, hk, if_true, field_none_eq_ok_iff, hunder, hkeyed]
        constructor
        · rintro ⟨_, ⟨x, hx, rfl⟩, hms⟩
          obtain ⟨hkeyed, hnone, rfl⟩ := steps_fieldStep_some.1 hms
          exact ⟨hkeyed, .inr ⟨s, x, by rw [hnone], hx, rfl⟩⟩
        · rintro ⟨hkeyed, ⟨hnone, _⟩ | ⟨t, x, hone, hx, rfl⟩⟩
          · cases hnone
          · obtain ⟨rfl, hnone⟩ := List.cons.inj hone
            exact ⟨_, ⟨x, hx, rfl⟩, steps_fieldStep_some.2 ⟨hkeyed, hnone, rfl⟩⟩

/-- A field that is read of the members under its names: of the only one, or, if there is none, the
default. -/
def Holds (p : String → Bool) (d : Decoder α) (default : Option α)
    (ms : List (Option String × Source)) (x : α) : Prop :=
  under p ms = [] ∧ default = some x ∨ ∃ s, under p ms = [s] ∧ d s = .ok x

theorem required_eq_ok_iff {name : String} {o : Option α} {x : α} :
    required name o = .ok x ↔ o.or none = some x := by
  cases o <;> simp [required]

theorem exists_steps_fieldStep_iff {p : String → Bool} {name : String} {d : Decoder α}
    {ms : List (Option String × Source)} {default : Option α} {x : α} :
    (∃ o, Steps (fieldStep p name d) ms none o ∧ o.or default = some x) ↔
      Keyed ms ∧ Holds p d default ms x := by
  simp only [steps_fieldStep_none]
  constructor
  · rintro ⟨_, ⟨hms, ⟨hnone, rfl⟩ | ⟨s, y, hone, hy, rfl⟩⟩, hx⟩
    · exact ⟨hms, .inl ⟨hnone, hx⟩⟩
    · cases hx
      exact ⟨hms, .inr ⟨s, hone, hy⟩⟩
  · rintro ⟨hms, ⟨hnone, hx⟩ | ⟨s, hone, hx⟩⟩
    · exact ⟨none, ⟨hms, .inl ⟨hnone, rfl⟩⟩, hx⟩
    · exact ⟨some x, ⟨hms, .inr ⟨s, x, hone, hx, rfl⟩⟩, rfl⟩

/-! ## What is left -/

/-- The members under the keys that do not pass. -/
def others (p : String → Bool) (ms : List (Option String × Source)) :
    List (Option String × Source) := ms.filter fun m => !m.1.any p

/-- A member that is no field is put into a map. -/
def restStep (p : String → Bool) : Step (KeyMap Json) := fun k s old new =>
  if p k then old = new else ∃ v, value s = .ok v ∧ old.insert k v = new

theorem value_eq_ok_iff {s : Source} {v : Json} : value s = .ok v ↔ s.read? = some v := by
  unfold value
  cases s.read? <;> simp

/-- The map of the members that are no fields. -/
def Rest (p : String → Bool) (ms : List (Option String × Source)) (m : KeyMap Json) : Prop :=
  ∃ kvs, readMembers? (others p ms) = some kvs ∧ m = KeyMap.ofList kvs

theorem steps_restStep {p : String → Bool} {ms : List (Option String × Source)}
    {m m' : KeyMap Json} : Steps (restStep p) ms m m' ↔
      ∃ kvs, readMembers? (others p ms) = some kvs ∧ m' = m.insertAll kvs := by
  induction ms generalizing m with
  | nil => simp [Steps, others, readMembers?, KeyMap.insertAll, eq_comm]
  | cons a ms ih =>
    obtain ⟨_ | k, s⟩ := a
    · simp [Steps, others, readMembers?]
    · simp only [Steps, restStep, value_eq_ok_iff, ih]
      cases hk : p k
      · have hothers : others p ((some k, s) :: ms) = (some k, s) :: others p ms := by
          simp [others, hk]
        rw [hothers]
        cases hs : s.read? <;> cases hms : readMembers? (others p ms) <;>
          simp [readMembers?, hs, hms, KeyMap.insertAll]
      · have hothers : others p ((some k, s) :: ms) = others p ms := by simp [others, hk]
        simp [hothers]

/-- What has a value can be passed over. -/
theorem skip_of_read? {s : Source} {v : Json} (h : s.read? = some v) : skip s = .ok () := by
  cases s with
  | arr ss ending => cases ending <;> simp_all [skip, Source.read?]
  | obj ms ending => cases ending <;> simp_all [skip, Source.read?]
  | _ => simp_all [skip, Source.read?]

/-- A member that is no field is passed over. -/
def skipStep (p : String → Bool) : Step Unit := fun k s _ _ => p k = false → skip s = .ok ()

/-- The members that are no fields can be passed over. -/
def Skips (p : String → Bool) (ms : List (Option String × Source)) : Prop :=
  Keyed ms ∧ ∀ m ∈ others p ms, skip m.2 = .ok ()

theorem skips_of_fields {p : String → Bool} {ms : List (Option String × Source)}
    (h : ∀ m ∈ ms, m.1.any p = true) : Skips p ms := by
  constructor
  · intro m hm hnone
    simpa [hnone] using h m hm
  · intro m hm
    obtain ⟨hm, hfalse⟩ := List.mem_filter.1 hm
    simp [h m hm] at hfalse

theorem steps_skipStep {p : String → Bool} {ms : List (Option String × Source)} :
    Steps (skipStep p) ms () () ↔ Skips p ms := by
  induction ms with
  | nil => simp [Steps, Skips, Keyed, others]
  | cons m ms ih =>
    obtain ⟨_ | k, s⟩ := m
    · simp [Steps, Skips, Keyed]
    · cases hk : p k <;> simp_all [Steps, skipStep, Skips, Keyed, others, and_left_comm]

/-! ## The parts of a record -/

/-- A part of a record: what a member makes of it, what it is at first, and what is read in the
end. -/
structure Part (β α : Type) where
  step : Step β
  start : β
  Done : β → α → Prop

namespace Part

variable {γ : Type} {part : Part β γ} {ms : List (Option String × Source)}

/-- What is read of the members of an object. -/
def Reads (part : Part β α) (ms : List (Option String × Source)) (x : α) : Prop :=
  ∃ b, Steps part.step ms part.start b ∧ part.Done b x

/-- A field, and what else there is. -/
@[simps]
def field (p : String → Bool) (name : String) (d : Decoder α) (default : Option α)
    (part : Part β γ) : Part (Option α × β) (α × γ) where
  step := (fieldStep p name d).and part.step
  start := (none, part.start)
  Done b x := b.1.or default = some x.1 ∧ part.Done b.2 x.2

/-- All that is left. -/
@[simps]
def rest (p : String → Bool) : Part (KeyMap Json) (KeyMap Json) := ⟨restStep p, .empty, Eq⟩

/-- Nothing of what is left. -/
@[simps]
def skip (p : String → Bool) : Part Unit Unit := ⟨skipStep p, (), Eq⟩

@[simp] theorem reads_field {p : String → Bool} {name : String} {d : Decoder α} {default : Option α}
    {x : α × γ} : (field p name d default part).Reads ms x ↔
      Holds p d default ms x.1 ∧ part.Reads ms x.2 := by
  have hsplit : (field p name d default part).Reads ms x ↔
      (∃ o, Steps (fieldStep p name d) ms none o ∧ o.or default = some x.1) ∧
        part.Reads ms x.2 := by
    simp only [Reads, field, steps_and, Prod.exists, ← exists_and_left, ← exists_and_right]
    exact ⟨fun ⟨o, b, ⟨ho, hb⟩, hx, hdone⟩ => ⟨b, o, ⟨ho, hx⟩, hb, hdone⟩,
      fun ⟨b, o, ⟨ho, hx⟩, hb, hdone⟩ => ⟨o, b, ⟨ho, hb⟩, hx, hdone⟩⟩
  rw [hsplit, exists_steps_fieldStep_iff]
  constructor
  · rintro ⟨⟨_, hx⟩, hpart⟩
    exact ⟨hx, hpart⟩
  · rintro ⟨hx, b, hb, hdone⟩
    exact ⟨⟨hb.keyed, hx⟩, b, hb, hdone⟩

@[simp] theorem reads_rest {p : String → Bool} {m : KeyMap Json} :
    (rest p).Reads ms m ↔ Rest p ms m := by
  simp [Reads, rest, steps_restStep, Rest, KeyMap.ofList]

@[simp] theorem reads_skip {p : String → Bool} : (skip p).Reads ms () ↔ Skips p ms := by
  simp [Reads, skip, steps_skipStep, Unique.exists_iff]

/-- A record is read of the members of an object as its parts are; `parts` takes apart what has been
read so far, and `fields` the record. -/
theorem members_bind_eq_ok_iff {δ ρ : Type} {part : Part β α} {take : δ → String → Source →
    Except Fault δ} {start : δ} {finish : δ → Except Fault ρ} {parts : δ → β} (fields : ρ → α)
    (hparts : parts.Bijective)
    (htake : ∀ a k s a', take a k s = .ok a' ↔ part.step k s (parts a) (parts a'))
    (hstart : parts start = part.start)
    (hfinish : ∀ a x, finish a = .ok x ↔ part.Done (parts a) (fields x)) {ending : Ending} {x : ρ} :
    (members take start ms ending >>= finish) = .ok x ↔
      ending ≠ .cut ∧ part.Reads ms (fields x) := by
  simp only [Fallible.bind_eq_ok_iff, members_eq_ok_iff hparts htake, hstart, hfinish, Reads,
    hparts.2.exists, and_assoc, exists_and_left]

end Part

/-! ## Items -/

theorem noMoreItems_eq_ok_iff {length : Nat} {ending : Ending} {rest : List Source} :
    noMoreItems length ending rest = .ok () ↔ rest = [] ∧ ending ≠ .cut := by
  cases rest <;> cases ending <;> simp [noMoreItems, checkClosed]

/-! ## Sources of the same -/

/-- What is read of a source is read of any related one. -/
def Respects (r : Source → Source → Prop) (d : Decoder α) : Prop :=
  ∀ ⦃s s' : Source⦄ ⦃x : α⦄, r s s' → d s = .ok x → d s' = .ok x

/-- A relation that holds of all sources that are alike, and of `null` only with itself. -/
structure Lenient (r : Source → Source → Prop) : Prop where
  of_alike {s s' : Source} : Alike s s' → r s s'
  eq_null_iff {s s' : Source} : r s s' → (s = .null ↔ s' = .null)

theorem lenient_alike : Lenient Alike where
  of_alike := id
  eq_null_iff {s s'} h := by
    constructor
    · rintro rfl
      exact h.eq_null
    · rintro rfl
      exact h.symm.eq_null

theorem value_respects : Respects Alike value := by
  intro s s' v h hv
  obtain ⟨w, hs, hs'⟩ := h.same
  rw [value_eq_ok_iff, hs] at hv
  rw [value_eq_ok_iff, hs', hv]

theorem text_respects : Respects Alike text := by
  intro s s' t h ht
  cases s with
  | str u => rw [h.eq_str, ht]
  | _ => cases ht

variable {r : Source → Source → Prop} {d : Decoder α}

theorem optional_of_ne_null {s : Source} (hs : s ≠ .null) : optional d s = (d s).map some := by
  cases s <;> first | rfl | exact absurd rfl hs

theorem optional_eq_ok_some_iff {s : Source} {x : α} :
    optional d s = .ok (some x) ↔ s ≠ .null ∧ d s = .ok x := by
  by_cases hs : s = .null
  · simp [hs, optional]
  · rw [optional_of_ne_null hs]
    cases d s <;> simp [Except.map, hs]

theorem optional_respects (hr : Lenient r) (hd : Respects r d) : Respects r (optional d) := by
  intro s s' o h ho
  by_cases hs : s = .null
  · rwa [(hr.eq_null_iff h).1 hs, ← hs]
  · have hs' : s' ≠ .null := mt (hr.eq_null_iff h).2 hs
    rw [optional_of_ne_null hs] at ho
    rw [optional_of_ne_null hs']
    cases hx : d s with
    | error e =>
      rw [hx] at ho
      cases ho
    | ok x => rwa [hd h hx, ← hx]

/-- Sources that are alike, or lists whose items are related. -/
inductive Listwise (r : Source → Source → Prop) : Source → Source → Prop where
  | alike {s s' : Source} (h : Alike s s') : Listwise r s s'
  | items {ss ss' : List Source} {ending ending' : Ending} (closed : ending ≠ .cut)
    (closed' : ending' ≠ .cut) (h : List.Forall₂ r ss ss') :
    Listwise r (.arr ss ending) (.arr ss' ending')

theorem lenient_listwise (r : Source → Source → Prop) : Lenient (Listwise r) where
  of_alike := .alike
  eq_null_iff h := by
    cases h with
    | alike h => exact lenient_alike.eq_null_iff h
    | items => simp

theorem list_eq_ok_iff {s : Source} {xs : List α} : list d s = .ok xs ↔
    ∃ ss ending, s = .arr ss ending ∧ ending ≠ .cut ∧
      List.Forall₂ (fun s x => d s = .ok x) ss xs := by
  cases s with
  | arr ss ending =>
    simp only [list, Fallible.bind_eq_ok_iff, Fallible.mapM_eq_ok_iff]
    constructor
    · rintro ⟨_, hss, _, hclosed, hxs⟩
      cases hxs
      exact ⟨ss, ending, rfl, checkClosed_eq_ok_iff.1 hclosed, hss⟩
    · rintro ⟨_, _, hs, hcut, hss⟩
      cases hs
      exact ⟨xs, hss, (), checkClosed_eq_ok_iff.2 hcut, rfl⟩
  | _ => simp [list]

theorem list_respects (hr : Lenient r) (hd : Respects r d) : Respects (Listwise r) (list d) := by
  intro s s' xs h hxs
  obtain ⟨ss, ending, rfl, hcut, hss⟩ := list_eq_ok_iff.1 hxs
  obtain ⟨ss', ending', rfl, hcut', hitems⟩ : ∃ ss' ending', s' = .arr ss' ending' ∧
      ending' ≠ .cut ∧ List.Forall₂ r ss ss' := by
    cases h with
    | alike h =>
      obtain ⟨ss', ending', rfl, _, hcut', hitems⟩ := h.items
      exact ⟨ss', ending', rfl, hcut', hitems.imp fun _ _ => hr.of_alike⟩
    | items _ hcut' h => exact ⟨_, _, rfl, hcut', h⟩
  refine list_eq_ok_iff.2 ⟨ss', ending', rfl, hcut', ?_⟩
  exact Source.forall₂_of_common hitems.flip hss.flip fun _ _ _ h hx => hd h hx

/-- A map is read of an object as its value is. -/
theorem map_eq_ok_iff {s : Source} {m : KeyMap Json} :
    map s = .ok m ↔ s.read? = some (.obj m.entries) := by
  cases s with
  | obj ms ending =>
    have hstep : ∀ (a : KeyMap Json) (k : String) (s : Source) (a' : KeyMap Json),
        (do return a.insert k (← value s) : Except Fault _) = .ok a' ↔
          restStep (fun _ => false) k s a a' := by
      intro a k s a'
      simp [restStep]
    have hothers : others (fun _ => false) ms = ms := by simp [others]
    rw [map, members_eq_ok_iff Function.bijective_id hstep, id, id, steps_restStep, hothers,
      Source.read?_obj_eq_some_iff]
    refine and_congr_right fun _ => exists_congr fun kvs => and_congr_right fun _ => ?_
    constructor
    · rintro rfl
      rfl
    · intro h
      exact KeyMap.ext_entries (Json.obj.inj h)
  | _ => simp [map, Source.read?]

theorem map_respects : Respects Alike map := by
  intro s s' m h hm
  rw [map_eq_ok_iff, ← value_eq_ok_iff] at hm ⊢
  exact value_respects h hm

/-! ## Lists of the same fields -/

/-- Lists whose items are related by their places, and are alike after that. -/
inductive Itemwise : List (Source → Source → Prop) → List Source → List Source → Prop where
  | nil {rs : List (Source → Source → Prop)} : Itemwise rs [] []
  | cons {r : Source → Source → Prop} {rs : List (Source → Source → Prop)} {s s' : Source}
    {ss ss' : List Source} (head : r s s') (tail : Itemwise rs ss ss') :
    Itemwise (r :: rs) (s :: ss) (s' :: ss')
  | rest {s s' : Source} {ss ss' : List Source} (head : Alike s s') (tail : Itemwise [] ss ss') :
    Itemwise [] (s :: ss) (s' :: ss')

theorem itemwise_of_alike {rs : List (Source → Source → Prop)} (hrs : ∀ r ∈ rs, Lenient r)
    {ss ss' : List Source} (h : List.Forall₂ Alike ss ss') : Itemwise rs ss ss' := by
  induction h generalizing rs with
  | nil => exact .nil
  | cons hs _ ih =>
    cases rs with
    | nil => exact .rest hs (ih nofun)
    | cons r rs =>
      obtain ⟨hr, hrs⟩ := List.forall_mem_cons.1 hrs
      exact .cons (hr.of_alike hs) (ih hrs)

theorem Itemwise.eq_nil {rs : List (Source → Source → Prop)} {ss' : List Source}
    (h : Itemwise rs [] ss') : ss' = [] := by
  cases h
  rfl

theorem Itemwise.exists_takeItem {rs : List (Source → Source → Prop)} {ss ss' : List Source}
    (h : Itemwise (r :: rs) ss ss') (hd : Respects r d) {ending ending' : Ending}
    (hcut' : ending' ≠ .cut) {o : Option α} {rest : List Source}
    (ho : takeItem d ending ss = .ok (o, rest)) :
    ∃ rest', takeItem d ending' ss' = .ok (o, rest') ∧ Itemwise rs rest rest' := by
  cases h with
  | nil =>
    rw [takeItem] at ho ⊢
    obtain ⟨_, _, ho⟩ := Fallible.bind_eq_ok_iff.1 ho
    cases ho
    exact ⟨[], Fallible.bind_eq_ok_iff.2 ⟨(), checkClosed_eq_ok_iff.2 hcut', rfl⟩, .nil⟩
  | @cons _ _ s s' ss ss' hs hss =>
    rw [takeItem] at ho ⊢
    obtain ⟨x, hx, ho⟩ := Fallible.bind_eq_ok_iff.1 ho
    cases ho
    exact ⟨ss', Fallible.bind_eq_ok_iff.2 ⟨x, hd hs hx, rfl⟩, hss⟩

/-- The next field is the same, and so is what is made of it and those after it. -/
theorem Itemwise.takeItem_bind {rs : List (Source → Source → Prop)} {ss ss' : List Source}
    (h : Itemwise (r :: rs) ss ss') (hd : Respects r d) {ending ending' : Ending}
    (hcut' : ending' ≠ .cut) {f f' : Option α × List Source → Except Fault β} {x : β}
    (hx : (takeItem d ending ss >>= f) = .ok x)
    (hf : ∀ o rest rest', Itemwise rs rest rest' → f (o, rest) = .ok x → f' (o, rest') = .ok x) :
    (takeItem d ending' ss' >>= f') = .ok x := by
  obtain ⟨⟨o, rest⟩, ho, hx⟩ := Fallible.bind_eq_ok_iff.1 hx
  obtain ⟨rest', ho', hrest⟩ := h.exists_takeItem hd hcut' ho
  exact Fallible.bind_eq_ok_iff.2 ⟨(o, rest'), ho', hf o rest rest' hrest hx⟩

/-- No field is left of either. -/
theorem Itemwise.noMoreItems_bind {rs : List (Source → Source → Prop)} {rest rest' : List Source}
    (h : Itemwise rs rest rest') {length length' : Nat} {ending ending' : Ending}
    (hcut' : ending' ≠ .cut) {f : Unit → Except Fault β} {x : β}
    (hx : (noMoreItems length ending rest >>= f) = .ok x) :
    (noMoreItems length' ending' rest' >>= f) = .ok x := by
  obtain ⟨_, hrest, hf⟩ := Fallible.bind_eq_ok_iff.1 hx
  obtain ⟨rfl, _⟩ := noMoreItems_eq_ok_iff.1 hrest
  exact Fallible.bind_eq_ok_iff.2 ⟨(), noMoreItems_eq_ok_iff.2 ⟨h.eq_nil, hcut'⟩, hf⟩

theorem Itemwise.forall₂ {R : Source → Source → Prop} {rs : List (Source → Source → Prop)}
    {ss ss' : List Source} (h : Itemwise rs ss ss') (halike : ∀ s s', Alike s s' → R s s')
    (hrs : ∀ r ∈ rs, ∀ s s', r s s' → R s s') : List.Forall₂ R ss ss' := by
  induction h with
  | nil => exact .nil
  | cons hs _ ih =>
    obtain ⟨hr, hrs⟩ := List.forall_mem_cons.1 hrs
    exact .cons (hr _ _ hs) (ih hrs)
  | rest hs _ ih => exact .cons (halike _ _ hs) (ih nofun)

/-! ## Records of the same -/

/-- The members of two objects are the same up to their order, the spelling of their keys and what
`part` allows for the value under a key. -/
structure SameMembers (spell : String → String → Prop) (part : String → Source → Source → Prop)
    (ms ms' : List (Option String × Source)) : Prop where
  nodup : (ms.map Prod.fst).Nodup
  correspond : Source.Correspond (fun a b => ∃ k k', a.1 = some k ∧ b.1 = some k' ∧
    (k = k' ∨ spell k k') ∧ part k a.2 b.2) ms ms'

namespace SameMembers

variable {spell : String → String → Prop} {part : String → Source → Source → Prop}
  {ms ms' : List (Option String × Source)} {p : String → Bool}

theorem of_alike (hpart : ∀ k, Lenient (part k)) {ending : Ending} {s' : Source}
    (h : Alike (.obj ms ending) s') : ∃ ms' ending', s' = .obj ms' ending' ∧ ending' ≠ .cut ∧
      SameMembers spell part ms ms' := by
  obtain ⟨ms', ending', rfl, _, hcut', hms⟩ := h.members
  refine ⟨ms', ending', rfl, hcut', h.distinct.1, hms.imp ?_⟩
  rintro ⟨k, s⟩ ⟨k', s'⟩ ⟨hkey, hk, hs⟩
  obtain ⟨k, rfl⟩ := Option.ne_none_iff_exists'.1 hk
  exact ⟨k, k, rfl, hkey.symm, .inl rfl, (hpart k).of_alike hs⟩

theorem under (h : SameMembers spell part ms ms') (hp : ∀ k k', spell k k' → p k = p k') :
    Source.Correspond (fun s s' => ∃ k, p k = true ∧ part k s s') (under p ms) (under p ms') := by
  refine (h.correspond.filter ?_).map ?_
  · rintro ⟨_, _⟩ ⟨_, _⟩ ⟨k, k', rfl, rfl, rfl | hk, _⟩
    · rfl
    · exact hp k k' hk
  · rintro ⟨_, _⟩ ⟨_, _⟩ ⟨hpass, k, k', rfl, _, _, hs⟩
    exact ⟨k, hpass, hs⟩

/-- A field holds the same. -/
theorem holds (h : SameMembers spell part ms ms') (hp : ∀ k k', spell k k' → p k = p k')
    (hpart : ∀ k, p k = true → part k = r) (hd : Respects r d) {default : Option α} {x : α}
    (hx : Holds p d default ms x) : Holds p d default ms' x := by
  have hunder := h.under hp
  rcases hx with ⟨hnone, hx⟩ | ⟨s, hone, hx⟩
  · rw [hnone] at hunder
    exact .inl ⟨hunder.eq_nil, hx⟩
  · rw [hone] at hunder
    obtain ⟨s', hone', k, hk, hs⟩ := hunder.eq_singleton
    rw [hpart k hk] at hs
    exact .inr ⟨s', hone', hd hs hx⟩

theorem others (h : SameMembers spell part ms ms')
    (hp : ∀ k k', spell k k' → p k = true ∧ p k' = true)
    (hpart : ∀ k, p k = false → part k = Alike) :
    Source.Correspond (fun a b => ∃ k, a.1 = some k ∧ b.1 = some k ∧ Alike a.2 b.2) (others p ms)
      (others p ms') := by
  refine (h.correspond.filter ?_).imp ?_
  · rintro ⟨_, _⟩ ⟨_, _⟩ ⟨k, k', rfl, rfl, rfl | hk, _⟩
    · rfl
    · simp [hp k k' hk]
  · rintro ⟨_, s⟩ ⟨_, s'⟩ ⟨hpass, k, k', rfl, rfl, rfl | hk, hs⟩
    · have hfalse : p k = false := by simpa using hpass
      exact ⟨k, rfl, rfl, hpart k hfalse ▸ hs⟩
    · simp [hp k k' hk] at hpass

/-- The rest is the same. -/
theorem rest (h : SameMembers spell part ms ms')
    (hp : ∀ k k', spell k k' → p k = true ∧ p k' = true) (hpart : ∀ k, p k = false → part k = Alike)
    {m : KeyMap Json} (hm : Rest p ms m) : Rest p ms' m := by
  obtain ⟨kvs, hkvs, rfl⟩ := hm
  have hnodup : ((Decoder.others p ms).map Prod.fst).Nodup :=
    h.nodup.sublist (List.filter_sublist.map _)
  obtain ⟨ls, hls, hforall⟩ := h.others hp hpart
  obtain ⟨kvs', hperm, hkvs'⟩ :=
    Source.Correspond.of_perm (Source.readMembers?_eq_some_iff.1 hkvs).flip hls
  refine ⟨kvs', Source.readMembers?_eq_some_iff.2 ?_,
    KeyMap.ofList_eq_of_perm (Source.nodup_of_readMembers? hnodup hkvs) hperm⟩
  apply Source.forall₂_of_common hforall.flip hkvs'
  rintro b kv a ⟨k, ha, hb, halike⟩ ⟨hkey, hread⟩
  refine ⟨by rw [hb, ← ha, hkey], ?_⟩
  rw [← value_eq_ok_iff] at hread ⊢
  exact value_respects halike hread

theorem keyed (h : SameMembers spell part ms ms') : Keyed ms' := by
  intro b hb
  obtain ⟨_, _, _, _, _, hkey, _⟩ := h.correspond.exists_partner hb
  simp [hkey]

/-- What was passed over is passed over. -/
theorem skips (h : SameMembers spell part ms ms') (hp : ∀ k k', spell k k' → p k = p k')
    (hpart : ∀ k, p k = false → part k = Alike) : Skips p ms' := by
  refine ⟨h.keyed, fun b hb => ?_⟩
  obtain ⟨hb, hpass⟩ := List.mem_filter.1 hb
  obtain ⟨⟨_, s⟩, _, k, k', rfl, hk', hkey, hs⟩ := h.correspond.exists_partner hb
  have hsame : p k = p k' := by
    rcases hkey with rfl | hkey
    · rfl
    · exact hp k k' hkey
  have hfalse : p k = false := by simpa [hk', hsame] using hpass
  rw [hpart k hfalse] at hs
  obtain ⟨v, hv⟩ := hs.exists_read?
  exact skip_of_read? hv

theorem exists_read? (h : SameMembers spell part ms ms')
    (hpart : ∀ k s s', part k s s' → ∃ v, s'.read? = some v) :
    ∃ kvs, readMembers? ms' = some kvs := by
  refine Source.exists_readMembers? fun b hb => ?_
  obtain ⟨_, _, k, k', _, hk', _, hs⟩ := h.correspond.exists_partner hb
  exact ⟨⟨k', hk'⟩, hpart k _ _ hs⟩

end SameMembers

/-- Sources of the same record: they are alike, or objects with the same members, or lists with the
same items at the places of the fields. -/
inductive SameRecord (spell : String → String → Prop) (part : String → Source → Source → Prop)
    (places : List (Source → Source → Prop)) : Source → Source → Prop where
  | alike {s s' : Source} (h : Alike s s') : SameRecord spell part places s s'
  | members {ms ms' : List (Option String × Source)} {ending ending' : Ending}
    (closed : ending ≠ .cut) (closed' : ending' ≠ .cut) (h : SameMembers spell part ms ms') :
    SameRecord spell part places (.obj ms ending) (.obj ms' ending')
  | items {ss ss' : List Source} {ending ending' : Ending}
    (closed : ending ≠ .cut) (closed' : ending' ≠ .cut) (h : Itemwise places ss ss') :
    SameRecord spell part places (.arr ss ending) (.arr ss' ending')

section

variable {spell : String → String → Prop} {part : String → Source → Source → Prop}
  {places : List (Source → Source → Prop)} {s' : Source} {ending : Ending} {name : String}
  {ofMembers : List (Option String × Source) → Ending → Except Fault α}
  {ofItems : List Source → Ending → Except Fault α}
  {isOf : List (Option String × Source) → α → Prop}

theorem lenient_sameRecord : Lenient (SameRecord spell part places) where
  of_alike := .alike
  eq_null_iff h := by
    cases h with
    | alike h => exact lenient_alike.eq_null_iff h
    | _ => simp

theorem SameRecord.of_obj (hpart : ∀ k, Lenient (part k)) {ms : List (Option String × Source)}
    (h : SameRecord spell part places (.obj ms ending) s') :
    ∃ ms' ending', s' = .obj ms' ending' ∧ ending' ≠ .cut ∧ SameMembers spell part ms ms' := by
  cases h with
  | alike h => exact SameMembers.of_alike hpart h
  | members _ hcut' h => exact ⟨_, _, rfl, hcut', h⟩

theorem SameRecord.of_arr (hplaces : ∀ r ∈ places, Lenient r) {ss : List Source}
    (h : SameRecord spell part places (.arr ss ending) s') :
    ∃ ss' ending', s' = .arr ss' ending' ∧ ending' ≠ .cut ∧ Itemwise places ss ss' := by
  cases h with
  | alike h =>
    obtain ⟨ss', ending', rfl, _, hcut', hitems⟩ := h.items
    exact ⟨ss', ending', rfl, hcut', itemwise_of_alike hplaces hitems⟩
  | items _ hcut' h => exact ⟨_, _, rfl, hcut', h⟩

theorem SameRecord.exists_read? {s : Source} (h : SameRecord spell part places s s')
    (hpart : ∀ k s s', part k s s' → ∃ v, s'.read? = some v)
    (hplaces : ∀ r ∈ places, ∀ s s', r s s' → ∃ v, s'.read? = some v) :
    ∃ v, s'.read? = some v := by
  cases h with
  | alike h => exact h.exists_read?
  | members _ hcut' h =>
    obtain ⟨kvs, hkvs⟩ := h.exists_read? hpart
    exact ⟨_, Source.read?_obj_eq_some_iff.2 ⟨hcut', kvs, hkvs, rfl⟩⟩
  | items _ hcut' h =>
    obtain ⟨vs, hvs⟩ := Source.exists_readItems?
      (h.forall₂ (fun _ _ => Alike.exists_read?) hplaces)
    exact ⟨_, Source.read?_arr_eq_some_iff.2 ⟨hcut', vs, hvs, rfl⟩⟩

/-- The same record is read of the same object. -/
theorem objectRecord_respects (hpart : ∀ k, Lenient (part k))
    (hiff : ∀ ms ending x, ofMembers ms ending = .ok x ↔ ending ≠ .cut ∧ isOf ms x)
    (hmembers : ∀ {ms ms' x}, SameMembers spell part ms ms' → isOf ms x → isOf ms' x) :
    Respects (SameRecord spell part places) (objectRecord name ofMembers) := by
  intro s s' x h hx
  cases s with
  | obj ms ending =>
    obtain ⟨ms', ending', rfl, hcut', hms⟩ := h.of_obj hpart
    exact (hiff _ _ _).2 ⟨hcut', hmembers hms ((hiff _ _ _).1 hx).2⟩
  | _ => cases hx

/-- The same record is read of the same object or list. -/
theorem record_respects (hpart : ∀ k, Lenient (part k)) (hplaces : ∀ r ∈ places, Lenient r)
    (hiff : ∀ ms ending x, ofMembers ms ending = .ok x ↔ ending ≠ .cut ∧ isOf ms x)
    (hmembers : ∀ {ms ms' x}, SameMembers spell part ms ms' → isOf ms x → isOf ms' x)
    (hitems : ∀ {ss ss' : List Source} {ending ending' : Ending} {x : α},
      Itemwise places ss ss' → ending' ≠ .cut → ofItems ss ending = .ok x →
        ofItems ss' ending' = .ok x) :
    Respects (SameRecord spell part places) (record name ofMembers ofItems) := by
  intro s s' x h hx
  cases s with
  | obj ms ending =>
    obtain ⟨ms', ending', rfl, hcut', hms⟩ := h.of_obj hpart
    exact (hiff _ _ _).2 ⟨hcut', hmembers hms ((hiff _ _ _).1 hx).2⟩
  | arr ss ending =>
    obtain ⟨ss', ending', rfl, hcut', hss⟩ := h.of_arr hplaces
    exact hitems hss hcut' hx
  | _ => cases hx

end

end DatasetGraph.Json.Decoder
