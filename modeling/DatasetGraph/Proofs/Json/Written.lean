import DatasetGraph.Proofs.Json.Record

/-!
# Reading what was written

Not every value of a type is read of some source: what is left of an object, say, never holds
anything under the key of a field.  `Yields` says what does hold of whatever is read, and a value of
which it holds is read back from what is written for it.

Most records are written with their fields first and then with what is left (`rest_written`).
-/

namespace DatasetGraph.Json.Decoder

open Source (readMembers?)

variable {α : Type} {d : Decoder α}

/-! ## What decoders yield -/

/-- Whatever is read has a property. -/
def Yields (P : α → Prop) (d : Decoder α) : Prop := ∀ ⦃s : Source⦄ ⦃x : α⦄, d s = .ok x → P x

section

variable {P : α → Prop}

theorem value_yields : Yields Json.Ordered value := fun _ _ h =>
  Source.ordered_of_read? _ (value_eq_ok_iff.1 h)

theorem map_yields : Yields (KeyMap.All Json.Ordered) map := by
  intro s m hm k v hv
  have hordered := Source.ordered_of_read? s (map_eq_ok_iff.1 hm)
  exact hordered.members _ (KeyMap.get?_eq_some_iff.1 hv)

theorem optional_yields (hd : Yields P d) :
    Yields (fun o => ∀ x, o = some x → P x) (optional d) := by
  rintro s _ ho x rfl
  exact hd (optional_eq_ok_some_iff.1 ho).2

/-- Only `null` is read as `null`. -/
theorem optional_value_yields :
    Yields (fun o => ∀ v, o = some v → v.Ordered ∧ v ≠ .null) (optional value) := by
  rintro s _ ho v rfl
  obtain ⟨hnull, hv⟩ := optional_eq_ok_some_iff.1 ho
  refine ⟨value_yields hv, ?_⟩
  rintro rfl
  exact hnull (Source.read?_eq_null_iff.1 (value_eq_ok_iff.1 hv))

theorem list_yields (hd : Yields P d) : Yields (fun xs => ∀ x ∈ xs, P x) (list d) := by
  intro s xs hxs
  obtain ⟨ss, ending, rfl, _, hss⟩ := list_eq_ok_iff.1 hxs
  clear hxs
  induction hss with
  | nil => nofun
  | cons hx _ ih => exact List.forall_mem_cons.2 ⟨hd hx, ih⟩

theorem Holds.yields {p : String → Bool} {ms : List (Option String × Source)} {x y : α}
    (h : Holds p d (some y) ms x) (hd : Yields P d) (hy : P y) : P x := by
  rcases h with ⟨_, hx⟩ | ⟨s, _, hx⟩
  · exact Option.some.inj hx ▸ hy
  · exact hd hx

theorem takeItem_yields {ending : Ending} {ss rest : List Source} {o : Option α}
    (h : takeItem d ending ss = .ok (o, rest)) (hd : Yields P d) {y : α} (hy : P y) :
    P (o.getD y) := by
  cases o with
  | none => exact hy
  | some x =>
    cases ss with
    | nil =>
      obtain ⟨_, _, h⟩ := Fallible.bind_eq_ok_iff.1 h
      cases h
    | cons s ss =>
      obtain ⟨x, hx, h⟩ := Fallible.bind_eq_ok_iff.1 h
      cases h
      exact hd hx

end

/-! ## What is left -/

/-- What may be left of an object with the fields that pass: ordered values, none of them under the
key of a field. -/
structure Leftover (p : String → Bool) (m : KeyMap Json) : Prop where
  ordered : ∀ e ∈ m.entries, e.2.Ordered
  free : ∀ e ∈ m.entries, p e.1 = false

variable {p q : String → Bool} {m : KeyMap Json}

theorem Rest.leftover {ms : List (Option String × Source)} (h : Rest p ms m) : Leftover p m := by
  obtain ⟨kvs, hkvs, rfl⟩ := h
  constructor
  · intro e he
    exact Source.ordered_of_readMembers? _ hkvs e (KeyMap.mem_of_mem_entries_ofList he)
  · intro e he
    obtain ⟨a, ha, hkey, _⟩ := (Source.Correspond.of_forall₂
      (Source.readMembers?_eq_some_iff.1 hkvs)).exists_partner (KeyMap.mem_of_mem_entries_ofList he)
    simpa [hkey] using (List.mem_filter.1 ha).2

section

variable {fixed : List (String × Json)}

/-- What is left stands under no field. -/
theorem under_written (hm : Leftover q m) (hpq : ∀ k, p k = true → q k = true) :
    under p (Source.ofMembers (fixed ++ m.entries)) = under p (Source.ofMembers fixed) := by
  have hnone : (Source.ofMembers m.entries).filter (fun a => a.1.any p) = [] := by
    rw [Source.ofMembers_eq_map, List.filter_eq_nil_iff]
    intro a ha hp
    obtain ⟨e, he, rfl⟩ := List.mem_map.1 ha
    exact absurd (hpq e.1 hp) (by simp [hm.free e he])
  rw [under, Source.ofMembers_append, List.filter_append, hnone, List.append_nil, under]

theorem Holds.written {v : Json} {x : α} {default : Option α} (hm : Leftover q m)
    (hpq : ∀ k, p k = true → q k = true) (hone : under p (Source.ofMembers fixed) = [.ofJson v])
    (hx : d (.ofJson v) = .ok x) :
    Holds p d default (Source.ofMembers (fixed ++ m.entries)) x :=
  .inr ⟨_, (under_written hm hpq).trans hone, hx⟩

theorem rest_written (hm : Leftover q m) (hfixed : ∀ e ∈ fixed, q e.1 = true) :
    Rest q (Source.ofMembers (fixed ++ m.entries)) m := by
  have hnone : others q (Source.ofMembers fixed) = [] := by
    rw [others, Source.ofMembers_eq_map, List.filter_eq_nil_iff]
    intro a ha
    obtain ⟨e, he, rfl⟩ := List.mem_map.1 ha
    simp [hfixed e he]
  have hall : others q (Source.ofMembers m.entries) = Source.ofMembers m.entries := by
    rw [others, Source.ofMembers_eq_map, List.filter_eq_self]
    intro a ha
    obtain ⟨e, he, rfl⟩ := List.mem_map.1 ha
    simp [hm.free e he]
  have hothers : others q (Source.ofMembers (fixed ++ m.entries)) = Source.ofMembers m.entries := by
    rw [Source.ofMembers_append, others, List.filter_append, ← others, ← others, hnone, hall,
      List.nil_append]
  refine ⟨m.entries, ?_, (KeyMap.ofList_entries m).symm⟩
  rw [hothers, Source.readMembers?_ofMembers, Json.sortKeysMembers_eq_self hm.ordered]

/-- No key is written twice. -/
theorem distinct_written (hm : Leftover q m) (hfixed : ∀ e ∈ fixed, q e.1 = true)
    (hnodup : (fixed.map Prod.fst).Nodup) (hvalues : ∀ e ∈ fixed, (Source.ofJson e.2).Distinct) :
    (Source.ofJson (.obj (fixed ++ m.entries))).Distinct := by
  refine Source.distinct_obj ?_ ?_
  · rw [List.map_append, List.nodup_append]
    refine ⟨hnodup, KeyMap.nodup_keys m, ?_⟩
    intro k hk k' hk' heq
    obtain ⟨e, he, rfl⟩ := List.mem_map.1 hk
    obtain ⟨e', he', rfl⟩ := List.mem_map.1 hk'
    have htrue := hfixed e he
    rw [heq, hm.free e' he'] at htrue
    cases htrue
  · intro e he
    rcases List.mem_append.1 he with he | he
    · exact hvalues e he
    · exact Source.distinct_ofJson e.2 (hm.ordered e he)

end

/-! ## Reading back -/

theorem optional_ofJson {o : Option α} {write : α → Json}
    (h : ∀ x, o = some x → write x ≠ .null ∧ d (.ofJson (write x)) = .ok x) :
    optional d (.ofJson ((o.map write).getD .null)) = .ok o := by
  cases o with
  | none => rfl
  | some x =>
    obtain ⟨hnull, hx⟩ := h x rfl
    have hsource : Source.ofJson (write x) ≠ .null := by
      intro hs
      cases hv : write x <;> simp_all [Source.ofJson]
    rw [Option.map_some, Option.getD_some, optional_of_ne_null hsource, hx]
    rfl

theorem map_ofJson {m : KeyMap Json} (hm : m.All Json.Ordered) :
    map (.ofJson (.ofMap m)) = .ok m := by
  rw [map_eq_ok_iff, Source.read?_ofJson]
  have hordered : Json.Ordered (.obj m.entries) :=
    Json.ordered_entries fun e he => hm e.1 e.2 (KeyMap.get?_eq_some_iff.2 he)
  exact congrArg some hordered

theorem list_ofJson {xs : List α} {write : α → Json} (h : ∀ x ∈ xs, d (.ofJson (write x)) = .ok x) :
    list d (.ofJson (.arr (xs.map write))) = .ok xs := by
  refine list_eq_ok_iff.2 ⟨_, .known, rfl, by decide, ?_⟩
  rw [Source.ofItems_eq_map, List.map_map, List.forall₂_map_left_iff, List.forall₂_same]
  exact h

theorem distinct_ofMap {m : KeyMap Json} (hm : m.All Json.Ordered) :
    (Source.ofJson (.ofMap m)).Distinct :=
  Source.distinct_obj (KeyMap.nodup_keys m) fun e he =>
    Source.distinct_ofJson e.2 (hm e.1 e.2 (KeyMap.get?_eq_some_iff.2 he))

theorem distinct_ofTexts (ts : List String) : (Source.ofJson (.ofTexts ts)).Distinct :=
  Source.distinct_arr (by simp [Source.ofJson, Source.Distinct])

theorem texts_ofJson (ts : List String) : texts (.ofJson (.ofTexts ts)) = .ok ts :=
  list_ofJson fun _ _ => rfl

end DatasetGraph.Json.Decoder
