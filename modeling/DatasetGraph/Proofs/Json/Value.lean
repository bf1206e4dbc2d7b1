import DatasetGraph.Json.Source
import Mathlib.Data.List.Forall2
import Mathlib.Data.List.Perm.Basic
import Mathlib.Data.List.Nodup

/-!
# What sources are read as

A source is read as a value whose objects list their members by their keys, and such a value is read
as itself (`Source.read?_ofJson`, `Json.Ordered`).

Objects may list the same members in different order.  Two sources are *alike* if no object in them
repeats a key and they are read as the same value (`Source.Alike`).  Then lists are alike item by
item, and objects member by member up to their order (`Alike.items`, `Alike.members`).
-/

namespace DatasetGraph

/-! ## Maps of lists -/

namespace KeyMap

variable {α : Type}

theorem insertEntry_perm (k : String) (v : α) {l : List (String × α)}
    (h : k ∉ l.map Prod.fst) : (insertEntry k v l).Perm ((k, v) :: l) := by
  induction l with
  | nil => exact .refl _
  | cons e l ih =>
    rw [List.map_cons, List.mem_cons, not_or] at h
    rw [insertEntry]
    split
    · exact .refl _
    · rw [if_neg h.1]
      exact ((ih h.2).cons e).trans (.swap _ _ _)

theorem entries_insertAll_perm {m : KeyMap α} {l : List (String × α)}
    (h : ((m.entries ++ l).map Prod.fst).Nodup) :
    (m.insertAll l).entries.Perm (m.entries ++ l) := by
  induction l generalizing m with
  | nil => simp [insertAll]
  | cons e l ih =>
    have hmid : (m.insert e.1 e.2).entries.Perm (e :: m.entries) := by
      apply insertEntry_perm
      intro he
      rw [List.map_append, List.nodup_append] at h
      exact h.2.2 _ he _ (by simp) rfl
    have hperm : ((m.insert e.1 e.2).entries ++ l).Perm (m.entries ++ e :: l) :=
      (hmid.append_right l).trans List.perm_middle.symm
    exact (ih ((hperm.map Prod.fst).nodup_iff.2 h)).trans hperm

/-- A list without repeated keys is the map's list of entries up to its order. -/
theorem entries_ofList_perm {l : List (String × α)} (h : (l.map Prod.fst).Nodup) :
    (ofList l).entries.Perm l := entries_insertAll_perm (m := empty) h

theorem nodup_keys (m : KeyMap α) : (m.entries.map Prod.fst).Nodup := by
  refine List.pairwise_map.2 (m.sorted.imp ?_)
  intro a b hab heq
  exact String.lt_irrefl _ (heq ▸ hab)

@[simp] theorem ofList_entries (m : KeyMap α) : ofList m.entries = m := empty_overlay m

theorem ext_entries {m n : KeyMap α} (h : m.entries = n.entries) : m = n := by
  obtain ⟨l, hl⟩ := m
  cases h
  rfl

/-- Without repeated keys, the order does not matter. -/
theorem ofList_eq_of_perm {l l' : List (String × α)} (h : (l.map Prod.fst).Nodup)
    (hperm : l.Perm l') : ofList l = ofList l' := by
  apply ext_entries
  apply eq_of_mem_iff (ofList l).sorted (ofList l').sorted
  intro e
  have h' : (l'.map Prod.fst).Nodup := (hperm.map Prod.fst).nodup_iff.1 h
  rw [(entries_ofList_perm h).mem_iff, (entries_ofList_perm h').mem_iff, hperm.mem_iff]

/-- The map of a list holds nothing else than the list. -/
theorem mem_entries_insertAll {m : KeyMap α} {l : List (String × α)} {e : String × α}
    (he : e ∈ (m.insertAll l).entries) : e ∈ m.entries ∨ e ∈ l := by
  induction l generalizing m with
  | nil => exact .inl he
  | cons d l ih =>
    rcases ih he with he | he
    · rcases mem_insertEntry he with rfl | he
      · exact .inr List.mem_cons_self
      · exact .inl he
    · exact .inr (List.mem_cons_of_mem _ he)

theorem mem_of_mem_entries_ofList {l : List (String × α)} {e : String × α}
    (he : e ∈ (ofList l).entries) : e ∈ l :=
  (mem_entries_insertAll he).resolve_left List.not_mem_nil

end KeyMap

/-! ## Ordered values -/

namespace Json

/-- Every object lists its members by their keys, each once. -/
def Ordered (v : Json) : Prop := v.sortKeys = v

theorem sortKeysMembers_eq_self {ms : List (String × Json)} (h : ∀ m ∈ ms, m.2.Ordered) :
    sortKeysMembers ms = ms := by
  induction ms with
  | nil => rfl
  | cons m ms ih =>
    obtain ⟨hm, hms⟩ := List.forall_mem_cons.1 h
    rw [sortKeysMembers, hm, ih hms]

/-- The object of a map of ordered values is ordered. -/
theorem ordered_entries {m : KeyMap Json} (h : ∀ e ∈ m.entries, e.2.Ordered) :
    Ordered (.obj m.entries) := by
  rw [Ordered, sortKeys, sortKeysMembers_eq_self h, KeyMap.ofList_entries]

namespace Source

mutual

theorem read?_ofJson : (v : Json) → (ofJson v).read? = some v.sortKeys
  | .null | .bool _ | .num _ | .str _ => rfl
  | .arr items => by simp [ofJson, read?, sortKeys, readItems?_ofItems items]
  | .obj members => by simp [ofJson, read?, sortKeys, readMembers?_ofMembers members]

theorem readItems?_ofItems : (vs : List Json) →
    readItems? (ofItems vs) = some (sortKeysItems vs)
  | [] => rfl
  | v :: vs => by simp [ofItems, readItems?, sortKeysItems, read?_ofJson v, readItems?_ofItems vs]

theorem readMembers?_ofMembers : (ms : List (String × Json)) →
    readMembers? (ofMembers ms) = some (sortKeysMembers ms)
  | [] => rfl
  | (k, v) :: ms => by
    simp [ofMembers, readMembers?, sortKeysMembers, read?_ofJson v, readMembers?_ofMembers ms]

end

theorem readItems?_eq_some_iff {ss : List Source} {vs : List Json} :
    readItems? ss = some vs ↔ List.Forall₂ (fun s v => s.read? = some v) ss vs := by
  induction ss generalizing vs with
  | nil => simp [readItems?, eq_comm]
  | cons s ss ih =>
    rw [readItems?]
    constructor
    · intro h
      split at h
      · next hs hss =>
        cases h
        exact .cons hs (ih.1 hss)
      · cases h
    · rintro (_ | ⟨hs, hss⟩)
      simp [hs, ih.2 hss]

theorem readMembers?_eq_some_iff {ms : List (Option String × Source)}
    {kvs : List (String × Json)} : readMembers? ms = some kvs ↔
      List.Forall₂ (fun m kv => m.1 = some kv.1 ∧ m.2.read? = some kv.2) ms kvs := by
  induction ms generalizing kvs with
  | nil => simp [readMembers?, eq_comm]
  | cons m ms ih =>
    obtain ⟨k, s⟩ := m
    unfold readMembers?
    constructor
    · intro h
      split at h
      · next hs hms =>
        cases h
        exact .cons ⟨rfl, hs⟩ (ih.1 hms)
      · cases h
    · rintro (_ | ⟨⟨hk, hs⟩, hms⟩)
      cases hk
      rw [ih.2 hms, show s.read? = _ from hs]

theorem nodup_of_readMembers? {ms : List (Option String × Source)} {kvs : List (String × Json)}
    (h : (ms.map Prod.fst).Nodup) (hkvs : readMembers? ms = some kvs) :
    (kvs.map Prod.fst).Nodup := by
  have hkeys : ms.map Prod.fst = (kvs.map Prod.fst).map some := by
    rw [List.map_map, ← List.forall₂_eq_eq_eq, List.forall₂_map_left_iff,
      List.forall₂_map_right_iff]
    exact (readMembers?_eq_some_iff.1 hkvs).imp fun _ _ h => h.1
  exact List.Nodup.of_map some (hkeys ▸ h)

theorem exists_readItems? {α : Type} {as : List α} {ss : List Source}
    (h : List.Forall₂ (fun _ s => ∃ v, s.read? = some v) as ss) :
    ∃ vs, readItems? ss = some vs := by
  induction h with
  | nil => exact ⟨[], rfl⟩
  | cons hs _ ih =>
    obtain ⟨v, hv⟩ := hs
    obtain ⟨vs, hvs⟩ := ih
    exact ⟨v :: vs, by simp [readItems?, hv, hvs]⟩

theorem exists_readMembers? {ms : List (Option String × Source)}
    (h : ∀ m ∈ ms, (∃ k, m.1 = some k) ∧ ∃ v, m.2.read? = some v) :
    ∃ kvs, readMembers? ms = some kvs := by
  induction ms with
  | nil => exact ⟨[], rfl⟩
  | cons m ms ih =>
    obtain ⟨⟨⟨k, hk⟩, v, hv⟩, hms⟩ := List.forall_mem_cons.1 h
    obtain ⟨kvs, hkvs⟩ := ih hms
    exact ⟨(k, v) :: kvs, readMembers?_eq_some_iff.2 (.cons ⟨hk, hv⟩
      (readMembers?_eq_some_iff.1 hkvs))⟩

theorem read?_arr_eq_some_iff {ss : List Source} {ending : Ending} {v : Json} :
    (arr ss ending).read? = some v ↔ ending ≠ .cut ∧
      ∃ vs, readItems? ss = some vs ∧ v = .arr vs := by
  rw [read?]
  split
  · simp_all
  · simp_all [Option.map_eq_some_iff, @eq_comm _ v]

theorem read?_obj_eq_some_iff {ms : List (Option String × Source)} {ending : Ending} {v : Json} :
    (obj ms ending).read? = some v ↔ ending ≠ .cut ∧
      ∃ kvs, readMembers? ms = some kvs ∧ v = .obj (KeyMap.ofList kvs).entries := by
  rw [read?]
  split
  · simp_all
  · simp_all [Option.map_eq_some_iff, @eq_comm _ v]

theorem read?_eq_null_iff {s : Source} : s.read? = some .null ↔ s = .null := by
  cases s with
  | arr => simp [read?_arr_eq_some_iff]
  | obj => simp [read?_obj_eq_some_iff]
  | _ => simp [read?]

mutual

/-- What is read lists members by their keys. -/
theorem ordered_of_read? : (s : Source) → {v : Json} → s.read? = some v → v.Ordered
  | .null, _, rfl | .bool _, _, rfl | .num _, _, rfl | .str _, _, rfl => rfl
  | .arr ss _, _, h => by
    obtain ⟨_, vs, hvs, rfl⟩ := read?_arr_eq_some_iff.1 h
    exact congrArg Json.arr (sortKeysItems_of_readItems? ss hvs)
  | .obj ms _, _, h => by
    obtain ⟨_, kvs, hkvs, rfl⟩ := read?_obj_eq_some_iff.1 h
    exact ordered_entries fun e he =>
      ordered_of_readMembers? ms hkvs e (KeyMap.mem_of_mem_entries_ofList he)

theorem sortKeysItems_of_readItems? : (ss : List Source) → {vs : List Json} →
    readItems? ss = some vs → sortKeysItems vs = vs
  | [], _, rfl => rfl
  | s :: ss, vs, h => by
    rw [readItems?] at h
    split at h
    · next hs hss =>
      cases h
      rw [sortKeysItems, ordered_of_read? s hs, sortKeysItems_of_readItems? ss hss]
    · cases h

theorem ordered_of_readMembers? : (ms : List (Option String × Source)) →
    {kvs : List (String × Json)} → readMembers? ms = some kvs → ∀ kv ∈ kvs, kv.2.Ordered
  | [], _, rfl => nofun
  | (k, s) :: ms, kvs, h => by
    unfold readMembers? at h
    split at h
    · next hs hms =>
      cases h
      exact List.forall_mem_cons.2 ⟨ordered_of_read? s hs, ordered_of_readMembers? ms hms⟩
    · cases h

end

end Source

theorem Ordered.items {vs : List Json} (h : Ordered (.arr vs)) : ∀ v ∈ vs, v.Ordered := by
  have hitems : sortKeysItems vs = vs := Json.arr.inj h
  clear h
  induction vs with
  | nil => nofun
  | cons v vs ih =>
    obtain ⟨hv, hvs⟩ := List.cons.inj hitems
    exact List.forall_mem_cons.2 ⟨hv, ih hvs⟩

theorem Ordered.nodup_keys {ms : List (String × Json)} (h : Ordered (.obj ms)) :
    (ms.map Prod.fst).Nodup := by
  have hentries : (KeyMap.ofList (sortKeysMembers ms)).entries = ms := Json.obj.inj h
  rw [← hentries]
  exact KeyMap.nodup_keys _

theorem Ordered.members {ms : List (String × Json)} (h : Ordered (.obj ms)) :
    ∀ m ∈ ms, m.2.Ordered := by
  have hentries : (KeyMap.ofList (sortKeysMembers ms)).entries = ms := Json.obj.inj h
  intro m hm
  rw [← hentries] at hm
  exact Source.ordered_of_readMembers? _ (Source.readMembers?_ofMembers ms) m
    (KeyMap.mem_of_mem_entries_ofList hm)

/-! ## Sources without repeated keys -/

namespace Source

mutual

/-- No object in the source repeats a key. -/
def Distinct : Source → Prop
  | .arr items _ => DistinctItems items
  | .obj members _ => (members.map Prod.fst).Nodup ∧ DistinctMembers members
  | _ => True

/-- No object in the items repeats a key. -/
def DistinctItems : List Source → Prop
  | [] => True
  | s :: ss => s.Distinct ∧ DistinctItems ss

/-- No object in the members repeats a key. -/
def DistinctMembers : List (Option String × Source) → Prop
  | [] => True
  | (_, s) :: ms => s.Distinct ∧ DistinctMembers ms

end

theorem distinctItems_iff {ss : List Source} : DistinctItems ss ↔ ∀ s ∈ ss, s.Distinct := by
  induction ss <;> simp_all [DistinctItems]

theorem distinctMembers_iff {ms : List (Option String × Source)} :
    DistinctMembers ms ↔ ∀ m ∈ ms, m.2.Distinct := by
  induction ms <;> simp_all [DistinctMembers]

theorem ofItems_eq_map (vs : List Json) : ofItems vs = vs.map ofJson := by
  induction vs <;> simp_all [ofItems]

theorem ofMembers_eq_map (ms : List (String × Json)) :
    ofMembers ms = ms.map fun m => (some m.1, ofJson m.2) := by
  induction ms <;> simp_all [ofMembers]

theorem ofMembers_append (ms ns : List (String × Json)) :
    ofMembers (ms ++ ns) = ofMembers ms ++ ofMembers ns := by
  simp [ofMembers_eq_map]

@[simp] theorem distinct_str (t : String) : (ofJson (.str t)).Distinct := trivial

theorem distinct_arr {vs : List Json} (h : ∀ v ∈ vs, (ofJson v).Distinct) :
    (ofJson (.arr vs)).Distinct := by
  refine distinctItems_iff.2 ?_
  rwa [ofItems_eq_map, List.forall_mem_map]

theorem distinct_obj {ms : List (String × Json)} (hnodup : (ms.map Prod.fst).Nodup)
    (h : ∀ m ∈ ms, (ofJson m.2).Distinct) : (ofJson (.obj ms)).Distinct := by
  have hsome : (fun k : String => some k).Injective := fun _ _ => Option.some.inj
  refine ⟨?_, distinctMembers_iff.2 ?_⟩
  · simpa [ofMembers_eq_map, Function.comp_def] using hnodup.map hsome
  · rwa [ofMembers_eq_map, List.forall_mem_map]

mutual

theorem distinct_ofJson : (v : Json) → v.Ordered → (ofJson v).Distinct
  | .null, _ | .bool _, _ | .num _, _ | .str _, _ => trivial
  | .arr vs, h => distinct_arr (distinct_ofItem vs h.items)
  | .obj ms, h => distinct_obj h.nodup_keys (distinct_ofMember ms h.members)

theorem distinct_ofItem : (vs : List Json) → (∀ v ∈ vs, v.Ordered) →
    ∀ v ∈ vs, (ofJson v).Distinct
  | [], _ => nofun
  | v :: vs, h => by
    obtain ⟨hv, hvs⟩ := List.forall_mem_cons.1 h
    exact List.forall_mem_cons.2 ⟨distinct_ofJson v hv, distinct_ofItem vs hvs⟩

theorem distinct_ofMember : (ms : List (String × Json)) → (∀ m ∈ ms, m.2.Ordered) →
    ∀ m ∈ ms, (ofJson m.2).Distinct
  | [], _ => nofun
  | (_, v) :: ms, h => by
    obtain ⟨hv, hms⟩ := List.forall_mem_cons.1 h
    exact List.forall_mem_cons.2 ⟨distinct_ofJson v hv, distinct_ofMember ms hms⟩

end

/-! ## Sources that are alike -/

/-- Two sources of one value, neither of which repeats a key. -/
structure Alike (s s' : Source) : Prop where
  distinct : s.Distinct
  distinct' : s'.Distinct
  same : ∃ v, s.read? = some v ∧ s'.read? = some v

/-- Two lists each of whose members goes with the same member of a third go with each other. -/
theorem forall₂_of_common {α β γ : Type} {P : α → γ → Prop} {Q : β → γ → Prop} {R : α → β → Prop}
    {as : List α} {bs : List β} {cs : List γ} (has : List.Forall₂ P as cs)
    (hbs : List.Forall₂ Q bs cs) (h : ∀ a b c, P a c → Q b c → R a b) :
    List.Forall₂ R as bs := by
  induction has generalizing bs with
  | nil =>
    cases hbs
    exact .nil
  | cons ha _ ih =>
    cases hbs with
    | cons hb hbs => exact .cons (h _ _ _ ha hb) (ih hbs)

/-- Two lists each of whose members has a partner in the other, in whatever order. -/
def Correspond {α β : Type} (R : α → β → Prop) (xs : List α) (ys : List β) : Prop :=
  ∃ zs, xs.Perm zs ∧ List.Forall₂ R zs ys

namespace Correspond

variable {α β γ δ : Type} {R : α → β → Prop} {xs : List α} {ys : List β}

theorem of_forall₂ (h : List.Forall₂ R xs ys) : Correspond R xs ys := ⟨xs, .refl _, h⟩

theorem of_perm {zs : List β} (h : List.Forall₂ R xs ys) (hperm : ys.Perm zs) :
    Correspond R xs zs := by
  have hcomp : (Relation.Comp (List.Forall₂ R) List.Perm) xs zs := ⟨ys, h, hperm⟩
  rwa [List.forall₂_comp_perm_eq_perm_comp_forall₂] at hcomp

theorem imp {S : α → β → Prop} (h : Correspond R xs ys) (hRS : ∀ a b, R a b → S a b) :
    Correspond S xs ys := by
  obtain ⟨zs, hperm, hzs⟩ := h
  exact ⟨zs, hperm, hzs.imp hRS⟩

theorem eq_nil (h : Correspond R [] ys) : ys = [] := by
  obtain ⟨zs, hperm, hzs⟩ := h
  obtain rfl := hperm.nil_eq
  exact List.forall₂_nil_left_iff.1 hzs

theorem eq_singleton {x : α} (h : Correspond R [x] ys) : ∃ y, ys = [y] ∧ R x y := by
  obtain ⟨zs, hperm, hzs⟩ := h
  obtain rfl := List.singleton_perm.1 hperm
  rw [List.forall₂_cons_left_iff] at hzs
  obtain ⟨y, ys, hxy, hnil, rfl⟩ := hzs
  exact ⟨y, by rw [List.forall₂_nil_left_iff.1 hnil], hxy⟩

theorem exists_partner (h : Correspond R xs ys) {y : β} (hy : y ∈ ys) : ∃ x ∈ xs, R x y := by
  obtain ⟨zs, hperm, hzs⟩ := h
  obtain ⟨x, hx, hxy⟩ : ∃ x ∈ zs, R x y := by
    clear hperm
    induction hzs with
    | nil => cases hy
    | cons hab _ ih =>
      rcases List.mem_cons.1 hy with rfl | hy
      · exact ⟨_, List.mem_cons_self, hab⟩
      · obtain ⟨x, hx, hxy⟩ := ih hy
        exact ⟨x, List.mem_cons_of_mem _ hx, hxy⟩
  exact ⟨x, hperm.mem_iff.2 hx, hxy⟩

/-- The members that pass correspond, if of two partners both pass or neither. -/
theorem filter {p : α → Bool} {q : β → Bool} (h : Correspond R xs ys)
    (hpq : ∀ a b, R a b → p a = q b) :
    Correspond (fun a b => p a = true ∧ R a b) (xs.filter p) (ys.filter q) := by
  obtain ⟨zs, hperm, hzs⟩ := h
  refine ⟨zs.filter p, hperm.filter p, ?_⟩
  clear hperm
  induction hzs with
  | nil => exact .nil
  | @cons a b as bs hab _ ih =>
    cases ha : p a with
    | true =>
      rw [List.filter_cons_of_pos ha, List.filter_cons_of_pos (by rw [← hpq a b hab, ha])]
      exact .cons ⟨ha, hab⟩ ih
    | false =>
      rwa [List.filter_cons_of_neg (by simp [ha]),
        List.filter_cons_of_neg (by simp [← hpq a b hab, ha])]

theorem map {S : γ → δ → Prop} {f : α → γ} {g : β → δ} (h : Correspond R xs ys)
    (hRS : ∀ a b, R a b → S (f a) (g b)) : Correspond S (xs.map f) (ys.map g) := by
  obtain ⟨zs, hperm, hzs⟩ := h
  refine ⟨zs.map f, hperm.map f, ?_⟩
  rw [List.forall₂_map_left_iff, List.forall₂_map_right_iff]
  exact hzs.imp hRS

/-- Lists that partners give rise to, put together, are permutations of each other if those are. -/
theorem flatMap_perm {f : α → List γ} {g : β → List γ} (h : Correspond R xs ys)
    (hfg : ∀ a b, R a b → (f a).Perm (g b)) : (xs.flatMap f).Perm (ys.flatMap g) := by
  obtain ⟨zs, hperm, hzs⟩ := h
  refine (hperm.flatMap_right f).trans ?_
  apply List.Perm.flatten_congr
  rw [List.forall₂_map_left_iff, List.forall₂_map_right_iff]
  exact hzs.imp hfg

end Correspond

namespace Alike

variable {s s' : Source}

theorem symm (h : Alike s s') : Alike s' s := by
  obtain ⟨v, hs, hs'⟩ := h.same
  exact ⟨h.distinct', h.distinct, v, hs', hs⟩

theorem exists_read? (h : Alike s s') : ∃ v, s'.read? = some v := by
  obtain ⟨v, _, hv⟩ := h.same
  exact ⟨v, hv⟩

theorem ofJson {v : Json} (hs : s.Distinct) (hv : s.read? = some v) :
    Alike s (.ofJson v) := by
  have hordered := ordered_of_read? s hv
  exact ⟨hs, distinct_ofJson v hordered, v, hv, by rw [read?_ofJson, hordered]⟩

theorem eq_null (h : Alike .null s') : s' = .null := by
  obtain ⟨v, hs, hs'⟩ := h.same
  cases hs
  cases s' <;> simp_all [read?]

theorem eq_str {t : String} (h : Alike (.str t) s') : s' = .str t := by
  obtain ⟨v, hs, hs'⟩ := h.same
  cases hs
  cases s' <;> simp_all [read?]

theorem items {ss : List Source} {ending : Ending} (h : Alike (.arr ss ending) s') :
    ∃ ss' ending', s' = .arr ss' ending' ∧ ending ≠ .cut ∧ ending' ≠ .cut ∧
      List.Forall₂ Alike ss ss' := by
  obtain ⟨v, hs, hs'⟩ := h.same
  obtain ⟨hcut, vs, hvs, rfl⟩ := read?_arr_eq_some_iff.1 hs
  cases s' with
  | arr ss' ending' =>
    obtain ⟨hcut', vs', hvs', heq⟩ := read?_arr_eq_some_iff.1 hs'
    cases heq
    refine ⟨ss', ending', rfl, hcut, hcut', ?_⟩
    have hleft := (List.forall₂_and_left ss vs).2
      ⟨distinctItems_iff.1 h.distinct, readItems?_eq_some_iff.1 hvs⟩
    have hright := (List.forall₂_and_left ss' vs).2
      ⟨distinctItems_iff.1 h.distinct', readItems?_eq_some_iff.1 hvs'⟩
    exact forall₂_of_common hleft hright fun _ _ v ha hb => ⟨ha.1, hb.1, v, ha.2, hb.2⟩
  | _ => simp_all [read?]

theorem members {ms : List (Option String × Source)} {ending : Ending}
    (h : Alike (.obj ms ending) s') : ∃ ms' ending', s' = .obj ms' ending' ∧ ending ≠ .cut ∧
      ending' ≠ .cut ∧ Correspond (fun a b => a.1 = b.1 ∧ a.1 ≠ none ∧ Alike a.2 b.2) ms ms' := by
  obtain ⟨v, hs, hs'⟩ := h.same
  obtain ⟨hcut, kvs, hkvs, rfl⟩ := read?_obj_eq_some_iff.1 hs
  cases s' with
  | obj ms' ending' =>
    obtain ⟨hcut', kvs', hkvs', heq⟩ := read?_obj_eq_some_iff.1 hs'
    refine ⟨ms', ending', rfl, hcut, hcut', ?_⟩
    obtain ⟨hnodup, hdistinct⟩ := h.distinct
    obtain ⟨hnodup', hdistinct'⟩ := h.distinct'
    have hleft := (List.forall₂_and_left ms kvs).2
      ⟨distinctMembers_iff.1 hdistinct, readMembers?_eq_some_iff.1 hkvs⟩
    have hright := (List.forall₂_and_left ms' kvs').2
      ⟨distinctMembers_iff.1 hdistinct', readMembers?_eq_some_iff.1 hkvs'⟩
    -- What is read of either lists the entries of one map.
    have hperm : kvs.Perm kvs' := by
      have hentries := KeyMap.entries_ofList_perm (nodup_of_readMembers? hnodup hkvs)
      rw [Json.obj.inj heq] at hentries
      exact hentries.symm.trans (KeyMap.entries_ofList_perm (nodup_of_readMembers? hnodup' hkvs'))
    obtain ⟨ls, hls, hforall⟩ := Correspond.of_perm hleft hperm
    refine ⟨ls, hls, forall₂_of_common hforall hright fun a b kv ha hb => ?_⟩
    exact ⟨ha.2.1.trans hb.2.1.symm, by simp [ha.2.1], ha.1, hb.1, kv.2, ha.2.2, hb.2.2⟩
  | _ => simp_all [read?]

end Alike

end Source

end Json

end DatasetGraph
