import DatasetGraph.Proofs.Conversion.Exact
import DatasetGraph.Proofs.Store.View

/-!
# Merged before they are written

Members of one key may be merged with each other before they are written, or written one after the
other.  It makes no difference if the writes *absorb* (`Absorbs`): what is written is merged into what
was written under its key before, and once a key is known, its writes are out of the way of those of
other keys.  Then the writes of a key can be brought together (`Absorbs.foldl_mergedBy`).

In memory the writes of nodes and of relationships absorb (`AdjacencyStore.absorbs_nodes`,
`AdjacencyStore.absorbs_edges`): a merge changes one place or one link, and what is new goes where
nothing was.  So do those to contents whose values are kept as they are (`Contents.absorbs_nodes`,
`Contents.absorbs_edges`).  Then nodes and edges as clients write them may be merged before, if they
bring no `null` and each edge has one label (`Absorbs.nodes`, `Absorbs.edges`).
-/

namespace DatasetGraph

section

variable {α β κ : Type} [DecidableEq κ] {key : α → κ} {merge : α → α → α} {write : β → α → β}
  {Fit : α → Prop} {Sound : β → Prop} {Known : β → κ → Prop}

/-- Writes that absorb, of members that fit, to what is sound; a key is known as soon as one of its
members was written. -/
structure Absorbs (key : α → κ) (merge : α → α → α) (write : β → α → β) (Fit : α → Prop)
    (Sound : β → Prop) (Known : β → κ → Prop) : Prop where
  key_merge (x y : α) : key (merge x y) = key x
  fit_merge (x y : α) : Fit x → Fit y → Fit (merge x y)
  sound_write {b : β} {x : α} : Sound b → Fit x → Sound (write b x)
  known_write {b : β} {x : α} {k : κ} :
    Sound b → Fit x → k = key x ∨ Known b k → Known (write b x) k
  write_merge {b : β} {x y : α} : Sound b → Fit x → Fit y → key x = key y →
    write b (merge x y) = write (write b x) y
  /-- A known key is out of the way of others. -/
  write_comm {b : β} {x y : α} : Sound b → Fit x → Fit y → key y ≠ key x → Known b (key x) →
    write (write b x) y = write (write b y) x

namespace Absorbs

omit [DecidableEq κ] in
/-- A member of a known key may be written before or after those of other keys. -/
theorem foldl_write (h : Absorbs key merge write Fit Sound Known) {b : β} {x : α} {ys : List α}
    (hb : Sound b) (hx : Fit x) (hknown : Known b (key x)) (hys : ∀ y ∈ ys, Fit y)
    (hne : ∀ y ∈ ys, key y ≠ key x) : ys.foldl write (write b x) = write (ys.foldl write b) x := by
  induction ys generalizing b with
  | nil => rfl
  | cons y ys ih =>
    obtain ⟨hy, hys⟩ := List.forall_mem_cons.1 hys
    obtain ⟨hyx, hne⟩ := List.forall_mem_cons.1 hne
    rw [List.foldl_cons, h.write_comm hb hx hy hyx hknown,
      ih (h.sound_write hb hy) (h.known_write hb hy (.inr hknown)) hys hne, List.foldl_cons]

/-- A member may be merged into the one of its key, or written behind all of them. -/
theorem foldl_updateOrAppend (h : Absorbs key merge write Fit Sound Known) {b : β} {x : α}
    {ys : List α} (hb : Sound b) (hx : Fit x) (hys : ∀ y ∈ ys, Fit y) (hnodup : (ys.map key).Nodup) :
    (updateOrAppend (fun y => key y = key x) (merge · x) x ys).foldl write b =
      write (ys.foldl write b) x := by
  induction ys generalizing b with
  | nil => rfl
  | cons y ys ih =>
    obtain ⟨hy, hys⟩ := List.forall_mem_cons.1 hys
    rw [List.map_cons, List.nodup_cons] at hnodup
    have hb' := h.sound_write hb hy
    rw [updateOrAppend]
    by_cases hkey : key y = key x
    · have hothers : ∀ z ∈ ys, key z ≠ key x := fun z hz hzx =>
        hnodup.1 (List.mem_map.2 ⟨z, hz, hzx.trans hkey.symm⟩)
      rw [if_pos (decide_eq_true hkey), List.foldl_cons, h.write_merge hb hy hx hkey,
        h.foldl_write hb' hx (h.known_write hb hy (.inl hkey.symm)) hys hothers, List.foldl_cons]
    · rw [if_neg (by simpa using hkey), List.foldl_cons, ih hb' hys hnodup.2, List.foldl_cons]

/-- Merged first or written one after the other, members come to the same. -/
theorem foldl_mergedBy (h : Absorbs key merge write Fit Sound Known) {b : β} {xs : List α}
    (hb : Sound b) (hxs : ∀ x ∈ xs, Fit x) :
    (mergedBy key merge xs).foldl write b = xs.foldl write b := by
  induction xs using List.reverseRecOn with
  | nil => rfl
  | append_singleton xs x ih =>
    rw [List.forall_mem_append, List.forall_mem_singleton] at hxs
    rw [mergedBy_append_singleton, List.foldl_append, ← ih hxs.1]
    apply h.foldl_updateOrAppend hb hxs.2 (forall_mem_mergedBy h.fit_merge hxs.1)
    rw [map_mergedBy h.key_merge]
    exact nodup_distinct _

end Absorbs

end

/-! ## Stored forms -/

theorem overlay_assoc (p q r : Properties) : (p.overlay q).overlay r = p.overlay (q.overlay r) := by
  apply KeyMap.ext_get?
  intro key
  simp only [KeyMap.get?_overlay, Option.or_assoc]

theorem StoredNode.merge_assoc (k m n : StoredNode) :
    (k.merge m).merge n = k.merge (m.merge n) := by
  simp only [merge, addNew_addNew, overlay_assoc]

/-- Take over the properties of another relationship. -/
def StoredEdge.merge (e f : StoredEdge) : StoredEdge :=
  { e with properties := e.properties.overlay f.properties }

namespace Properties

variable {p q : Properties}

theorem NotNull.notNull?_eq (hp : p.NotNull) (key : String) : p.notNull? key = p.get? key := by
  rw [notNull?]
  cases hv : p.get? key with
  | none => rfl
  | some v =>
    cases v with
    | null => exact absurd rfl (hp key _ hv)
    | _ => rfl

theorem NotNull.encode_overlay (hp : p.NotNull) (hq : q.NotNull) :
    encode (p.overlay q) = p.encode.overlay q.encode := by
  have hpq : NotNull (p.overlay q) := hp.overlay hq
  apply KeyMap.ext_get?
  intro key
  rw [KeyMap.get?_overlay, get?_encode, get?_encode, get?_encode, hpq.notNull?_eq, hp.notNull?_eq,
    hq.notNull?_eq, KeyMap.get?_overlay, Option.map_or]

end Properties

theorem Node.stored_merge {m n : Node} (hm : m.properties.NotNull) (hn : n.properties.NotNull) :
    (m.merge n).stored = m.stored.merge n.stored := by
  have hlabels :
      distinct ((addNew m.labels n.labels).map fun t => (⟨Identifier.escape t⟩ : Identifier)) =
      addNew (distinct (m.labels.map fun t => ⟨Identifier.escape t⟩))
        (distinct (n.labels.map fun t => ⟨Identifier.escape t⟩)) := by
    rw [addNew_distinct, ← addNew_map Identifier.mk_escape_injective]
    exact addNew_addNew [] _ _
  show StoredNode.mk m.id (distinct ((addNew m.labels n.labels).map _)) _ = _
  rw [hlabels, merge, hm.encode_overlay hn]
  rfl

/-! ## Nodes and edges as clients write them -/

namespace Absorbs

variable {β : Type} {Sound : β → Prop}

/-- Nodes without `null` are absorbed if their stored forms are; those without an id are passed
over. -/
theorem nodes {f : β → StoredNode → β} {Known : β → String → Prop}
    (h : Absorbs StoredNode.id StoredNode.merge f (fun _ => True) Sound Known) :
    Absorbs Node.id Node.merge (fun b n => if n.id = "" then b else f b n.stored)
      (fun n => n.properties.NotNull) Sound (fun b id => id = "" ∨ Known b id) where
  key_merge _ _ := rfl
  fit_merge _ _ hm hn := hm.overlay hn
  sound_write hb _ := by
    split
    · exact hb
    · exact h.sound_write hb trivial
  known_write {b n id} hb _ hid := by
    by_cases hn : n.id = ""
    · rw [if_pos hn]
      rcases hid with rfl | hid
      · exact .inl hn
      · exact hid
    · rw [if_neg hn]
      rcases hid with rfl | hid
      · exact .inr (h.known_write hb trivial (.inl rfl))
      · exact hid.imp_right fun hid => h.known_write hb trivial (.inr hid)
  write_merge {b m n} hb hm hn hid := by
    by_cases hne : m.id = ""
    · have hmerge : (m.merge n).id = "" := hne
      rw [if_pos hmerge, if_pos hne, if_pos (hid ▸ hne)]
    · have hmerge : (m.merge n).id ≠ "" := hne
      rw [if_neg hmerge, if_neg hne, if_neg (hid ▸ hne), Node.stored_merge hm hn,
        h.write_merge hb trivial trivial hid]
  write_comm {b m n} hb _ _ hid hknown := by
    by_cases hm : m.id = ""
    · rw [if_pos hm, if_pos hm]
    · rw [if_neg hm, if_neg hm]
      by_cases hn : n.id = ""
      · rw [if_pos hn, if_pos hn]
      · rw [if_neg hn, if_neg hn]
        exact h.write_comm hb trivial trivial hid (hknown.resolve_left hm)

end Absorbs

/-- An edge with one label that brings no `null`. -/
structure Edge.Single (e : Edge) : Prop where
  labels : ∃ label, e.labels = [label]
  notNull : e.properties.NotNull

theorem Edge.Single.merge {e f : Edge} (he : e.Single) (hf : f.Single) : (e.merge f).Single :=
  ⟨he.labels, he.notNull.overlay hf.notNull⟩

namespace Edge

variable {e e' : Edge} {l l' : String}

theorem stored_of_labels (h : e.labels = [l]) : e.stored = [relation (e, l)] := by
  rw [stored, h]
  rfl

/-- The relationship of an edge with one label is taken or passed over. -/
theorem foldl_stored {β : Type} (h : e.labels = [l]) (taken : StoredEdge → Bool)
    (f : β → StoredEdge → β) (b : β) :
    (e.stored.filter taken).foldl f b =
      if taken (relation (e, l)) then f b (relation (e, l)) else b := by
  rw [stored_of_labels h]
  cases htaken : taken (relation (e, l)) with
  | true => rw [List.filter_cons_of_pos htaken]; rfl
  | false => rw [List.filter_cons_of_neg (by simp [htaken])]; rfl

theorem key_of_labels (h : e.labels = [l]) : e.key = ⟨e.source, e.target, [l]⟩ := by
  rw [key, h, sortTexts, List.mergeSort_singleton]

/-- Edges with one label are told apart as their relationships are. -/
theorem key_relation_eq_iff (h : e.labels = [l]) (h' : e'.labels = [l']) :
    (relation (e, l)).key = (relation (e', l')).key ↔ e.key = e'.key := by
  have hescape : Identifier.escape l = Identifier.escape l' ↔ l = l' :=
    ⟨fun h => Identifier.escape_injective h, congrArg _⟩
  rw [key_of_labels h, key_of_labels h']
  simp [relation, StoredEdge.key, hescape]

theorem relation_merge (he : e.properties.NotNull) (he' : e'.properties.NotNull) (l : String) :
    relation (e.merge e', l) = (relation (e, l)).merge (relation (e', l)) := by
  rw [relation, merge, he.encode_overlay he']
  rfl

end Edge

namespace Absorbs

variable {β : Type} {Sound : β → Prop}

/-- Edges with one label and without `null` are absorbed if their relationships are; some may be
passed over, provided that all of a key are or none. -/
theorem edges {f : β → StoredEdge → β} {Known : β → RelationKey → Prop}
    (h : Absorbs StoredEdge.key StoredEdge.merge f (fun _ => True) Sound Known)
    {taken : StoredEdge → Bool} (htaken : ∀ d d', d.key = d'.key → taken d = taken d') :
    Absorbs Edge.key Edge.merge (fun b e => (e.stored.filter taken).foldl f b) Edge.Single Sound
      (fun b k => ∀ e l, e.labels = [l] → e.key = k → taken (Edge.relation (e, l)) = true →
        Known b (Edge.relation (e, l)).key) where
  key_merge _ _ := rfl
  fit_merge _ _ he he' := he.merge he'
  sound_write {b e} hb _ :=
    List.foldlRecOn (e.stored.filter taken) f hb fun _ hc _ _ => h.sound_write hc trivial
  known_write {b e k} hb he hk := by
    obtain ⟨l, hl⟩ := he.labels
    intro d j hj hd htaken'
    rw [Edge.foldl_stored hl]
    split
    · apply h.known_write hb trivial
      rcases hk with rfl | hk
      · exact .inl ((Edge.key_relation_eq_iff hj hl).2 hd)
      · exact .inr (hk d j hj hd htaken')
    · next hnot =>
      rcases hk with rfl | hk
      · rw [htaken _ _ ((Edge.key_relation_eq_iff hj hl).2 hd)] at htaken'
        exact absurd htaken' (by simpa using hnot)
      · exact hk d j hj hd htaken'
  write_merge {b e e'} hb he he' hkey := by
    obtain ⟨l, hl⟩ := he.labels
    obtain ⟨l', hl'⟩ := he'.labels
    have hrelation := (Edge.key_relation_eq_iff hl hl').2 hkey
    have hsame : l = l' := by
      rw [Edge.key_of_labels hl, Edge.key_of_labels hl'] at hkey
      simpa using congrArg EdgeKey.labels hkey
    subst hsame
    have hmerge : (e.merge e').labels = [l] := hl
    rw [Edge.foldl_stored hl, Edge.foldl_stored hl', Edge.foldl_stored hmerge,
      Edge.relation_merge he.notNull he'.notNull, ← htaken _ _ hrelation,
      htaken ((Edge.relation (e, l)).merge (Edge.relation (e', l))) (Edge.relation (e, l)) rfl]
    split
    · exact h.write_merge hb trivial trivial hrelation
    · rfl
  write_comm {b e e'} hb he he' hkey hknown := by
    obtain ⟨l, hl⟩ := he.labels
    obtain ⟨l', hl'⟩ := he'.labels
    have hrelation := mt (Edge.key_relation_eq_iff hl' hl).1 hkey
    simp only [Edge.foldl_stored hl, Edge.foldl_stored hl']
    by_cases hfirst : taken (Edge.relation (e, l)) = true
    · by_cases hsecond : taken (Edge.relation (e', l')) = true
      · simp only [if_pos hfirst, if_pos hsecond]
        exact h.write_comm hb trivial trivial hrelation (hknown e l hl rfl hfirst)
      · simp only [if_neg hsecond]
    · simp only [if_neg hfirst]

end Absorbs

/-! ## Places -/

section

variable {α : Type}

theorem modify_occupy (x : α) (f : α → α) (ps : List (Option α)) :
    (occupy x ps).modify (firstFree ps) (Option.map f) = occupy (f x) ps := by
  induction ps with
  | nil => rfl
  | cons p ps ih =>
    cases p with
    | none => rfl
    | some y => rw [occupy, firstFree, List.modify_succ_cons, ih, occupy]

theorem firstFree_modify (ps : List (Option α)) (i : Nat) (f : α → α) :
    firstFree (ps.modify i (Option.map f)) = firstFree ps := by
  induction ps generalizing i with
  | nil => cases i <;> rfl
  | cons p ps ih =>
    cases i with
    | zero => cases p <;> rfl
    | succ i =>
      rw [List.modify_succ_cons]
      cases p with
      | none => rfl
      | some y => rw [firstFree, firstFree, ih]

/-- A place that is taken may be changed before or after another one is. -/
theorem occupy_modify {ps : List (Option α)} {i : Nat} (hi : i ≠ firstFree ps) (x : α) (f : α → α) :
    occupy x (ps.modify i (Option.map f)) = (occupy x ps).modify i (Option.map f) := by
  induction ps generalizing i with
  | nil =>
    cases i with
    | zero => exact absurd rfl hi
    | succ i => cases i <;> rfl
  | cons p ps ih =>
    cases p with
    | none =>
      cases i with
      | zero => exact absurd rfl hi
      | succ i => rfl
    | some y =>
      cases i with
      | zero => rfl
      | succ i =>
        have hi : i ≠ firstFree ps := fun h => hi (congrArg Nat.succ h)
        rw [List.modify_succ_cons, occupy, ih hi, occupy, List.modify_succ_cons]

variable {p q : α → Bool} {f g : α → α}

theorem changeFirst_changeFirst (hf : ∀ x, p x = true → p (f x) = true) (xs : List α) :
    changeFirst p g (changeFirst p f xs) = changeFirst p (g ∘ f) xs := by
  induction xs with
  | nil => rfl
  | cons x xs ih =>
    rw [changeFirst, changeFirst]
    by_cases hx : p x = true
    · rw [if_pos hx, if_pos hx, changeFirst, if_pos (hf x hx)]
      rfl
    · rw [if_neg hx, if_neg hx, changeFirst, if_neg hx, ih]

theorem changeFirst_comm (hpq : ∀ x, p x = true → q x = false) (hf : ∀ x, q (f x) = q x)
    (hg : ∀ x, p (g x) = p x) (xs : List α) :
    changeFirst q g (changeFirst p f xs) = changeFirst p f (changeFirst q g xs) := by
  induction xs with
  | nil => rfl
  | cons x xs ih =>
    by_cases hp : p x = true
    · have hq : ¬q x = true := Bool.eq_false_iff.1 (hpq x hp)
      have hqf : ¬q (f x) = true := (hf x).symm ▸ hq
      rw [changeFirst, if_pos hp, changeFirst, if_neg hqf, changeFirst, if_neg hq, changeFirst,
        if_pos hp]
    · have hpg : ¬p (g x) = true := (hg x).symm ▸ hp
      rw [changeFirst, if_neg hp, changeFirst]
      by_cases hq : q x = true
      · rw [if_pos hq, changeFirst, if_pos hq, changeFirst, if_neg hpg]
      · rw [if_neg hq, changeFirst, if_neg hq, changeFirst, if_neg hp, ih]

end

/-! ## The store in memory -/

namespace AdjacencyStore

variable {s : AdjacencyStore}

theorem mergeNode_of_index {n : StoredNode} {place : Nat} (h : s.index.get? n.id = some place) :
    s.mergeNode n = s.changeAt place (·.merge n) := by
  rw [mergeNode, h]

theorem mergeNode_of_new {n : StoredNode} (h : s.index.get? n.id = none) :
    s.mergeNode n = s.addNode n := by
  rw [mergeNode, h]
  rfl

theorem changeAt_addNode (n : StoredNode) (f : StoredNode → StoredNode) (hf : (f n).id = n.id) :
    (s.addNode n).changeAt (firstFree s.places) f = s.addNode (f n) := by
  rw [changeAt, addNode, addNode, modify_occupy, hf]

theorem addNode_changeAt {place : Nat} (hplace : place ≠ firstFree s.places) (n : StoredNode)
    (f : StoredNode → StoredNode) :
    (s.changeAt place f).addNode n = (s.addNode n).changeAt place f := by
  rw [changeAt, changeAt, addNode, addNode, occupy_modify hplace, firstFree_modify]

theorem changeAt_changeAt (place : Nat) (f g : StoredNode → StoredNode) :
    (s.changeAt place f).changeAt place g = s.changeAt place (g ∘ f) := by
  rw [changeAt, changeAt, changeAt, List.modify_modify_eq, Option.map_comp_map]

theorem changeAt_comm {i j : Nat} (h : i ≠ j) (f g : StoredNode → StoredNode) :
    (s.changeAt i f).changeAt j g = (s.changeAt j g).changeAt i f := by
  rw [changeAt, changeAt, changeAt, changeAt, List.modify_modify_ne _ _ _ h]

theorem isSome_index_mergeNode (s : AdjacencyStore) (n : StoredNode) (id : String) :
    ((s.mergeNode n).index.get? id).isSome = true ↔
      id = n.id ∨ (s.index.get? id).isSome = true := by
  cases h : s.index.get? n.id with
  | some place =>
    rw [mergeNode_of_index h]
    constructor
    · exact .inr
    · rintro (rfl | hid)
      · exact Option.isSome_iff_exists.2 ⟨place, h⟩
      · exact hid
  | none =>
    rw [mergeNode_of_new h, index_addNode]
    split
    · next hid => exact iff_of_true rfl (.inl hid)
    · next hid => exact (or_iff_right hid).symm

/-- Nodes in memory are absorbed, place by place. -/
theorem absorbs_nodes : Absorbs StoredNode.id StoredNode.merge mergeNode (fun _ => True) Sound
    fun s id => (s.index.get? id).isSome = true where
  key_merge _ _ := rfl
  fit_merge _ _ _ _ := trivial
  sound_write hs _ := sound_mergeNode hs _
  known_write _ _ h := (isSome_index_mergeNode _ _ _).2 h
  write_merge {s m n} hs _ _ hid := by
    cases hm : s.index.get? m.id with
    | some place =>
      have hmn : (s.changeAt place (·.merge m)).index.get? n.id = some place := hid ▸ hm
      have hmerge : s.index.get? (m.merge n).id = some place := hm
      rw [mergeNode_of_index hm, mergeNode_of_index hmn, mergeNode_of_index hmerge,
        changeAt_changeAt]
      congr 1
      funext k
      exact (k.merge_assoc m n).symm
    | none =>
      have hmn : (s.addNode m).index.get? n.id = some (firstFree s.places) := by
        rw [index_addNode, if_pos hid.symm]
      have hmerge : s.index.get? (m.merge n).id = none := hm
      rw [mergeNode_of_new hm, mergeNode_of_index hmn, mergeNode_of_new hmerge,
        changeAt_addNode m _ rfl]
  write_comm {s m n} hs _ _ hid hknown := by
    obtain ⟨i, hi⟩ := Option.isSome_iff_exists.1 hknown
    cases hn : s.index.get? n.id with
    | some j =>
      have hij : i ≠ j := by
        rintro rfl
        exact hid (hs.index_inj hn hi)
      have hn' : (s.changeAt i (·.merge m)).index.get? n.id = some j := hn
      have hm' : (s.changeAt j (·.merge n)).index.get? m.id = some i := hi
      rw [mergeNode_of_index hi, mergeNode_of_index hn', mergeNode_of_index hn,
        mergeNode_of_index hm', changeAt_comm hij]
    | none =>
      have hn' : (s.changeAt i (·.merge m)).index.get? n.id = none := hn
      have hm' : (s.addNode n).index.get? m.id = some i := by
        rw [index_addNode, if_neg (Ne.symm hid), hi]
      rw [mergeNode_of_index hi, mergeNode_of_new hn', mergeNode_of_new hn,
        mergeNode_of_index hm', addNode_changeAt (hs.ne_firstFree_of_index hi)]

theorem mergeLink_of_mem {a b : Nat} {t : Identifier} (h : (a, b, t) ∈ s.links.map Link.ends)
    (p : Properties) : s.mergeLink a b t p =
      { s with links := changeFirst (fun l => l.ends = (a, b, t)) (·.merge p) s.links } := by
  obtain ⟨l, hl, hends⟩ := List.mem_map.1 h
  rw [mergeLink, if_pos (List.any_eq_true.2 ⟨l, hl, decide_eq_true hends⟩)]

theorem mergeLink_of_not_mem {a b : Nat} {t : Identifier}
    (h : (a, b, t) ∉ s.links.map Link.ends) (p : Properties) : s.mergeLink a b t p =
      { s with
        links := ⟨s.nextSerial, a, b, t, p⟩ :: s.links
        nextSerial := s.nextSerial + 1 } := by
  rw [mergeLink, if_neg]
  intro hany
  obtain ⟨l, hl, hends⟩ := List.any_eq_true.1 hany
  exact h (List.mem_map.2 ⟨l, hl, of_decide_eq_true hends⟩)

theorem mem_ends_mergeLink {a b : Nat} {t : Identifier} {p : Properties}
    {k : Nat × Nat × Identifier} :
    k ∈ (s.mergeLink a b t p).links.map Link.ends ↔
      k = (a, b, t) ∨ k ∈ s.links.map Link.ends := by
  by_cases h : (a, b, t) ∈ s.links.map Link.ends
  · rw [mergeLink_of_mem h, map_changeFirst Link.ends (by intro l; rfl)]
    constructor
    · exact .inr
    · rintro (rfl | hk)
      · exact h
      · exact hk
  · rw [mergeLink_of_not_mem h, List.map_cons, List.mem_cons]
    rfl

theorem mergeLink_overlay (a b : Nat) (t : Identifier) (p q : Properties) :
    s.mergeLink a b t (p.overlay q) = (s.mergeLink a b t p).mergeLink a b t q := by
  have hmem : (a, b, t) ∈ (s.mergeLink a b t p).links.map Link.ends :=
    mem_ends_mergeLink.2 (.inl rfl)
  rw [mergeLink_of_mem hmem]
  by_cases h : (a, b, t) ∈ s.links.map Link.ends
  · have hmerge : (Link.merge · q) ∘ (Link.merge · p) = (Link.merge · (p.overlay q)) := by
      funext l
      rw [Function.comp_apply, Link.merge, Link.merge, Link.merge, overlay_assoc]
    have htwice : changeFirst (fun l => l.ends = (a, b, t)) (Link.merge · q)
        (changeFirst (fun l => l.ends = (a, b, t)) (Link.merge · p) s.links) =
        changeFirst (fun l => l.ends = (a, b, t)) (Link.merge · (p.overlay q)) s.links := by
      rw [← hmerge]
      apply changeFirst_changeFirst
      exact fun _ hl => hl
    rw [mergeLink_of_mem h, mergeLink_of_mem h, htwice]
  · rw [mergeLink_of_not_mem h, mergeLink_of_not_mem h, changeFirst,
      if_pos (decide_eq_true (by rfl))]
    rfl

theorem mergeLink_comm {a b c d : Nat} {t u : Identifier}
    (hmem : (a, b, t) ∈ s.links.map Link.ends) (hne : (c, d, u) ≠ (a, b, t)) (p q : Properties) :
    (s.mergeLink a b t p).mergeLink c d u q = (s.mergeLink c d u q).mergeLink a b t p := by
  rw [mergeLink_of_mem (mem_ends_mergeLink.2 (.inr hmem)), mergeLink_of_mem hmem]
  have hends : (changeFirst (fun l => l.ends = (a, b, t)) (·.merge p) s.links).map Link.ends =
      s.links.map Link.ends := map_changeFirst Link.ends (by intro l; rfl) s.links
  by_cases h : (c, d, u) ∈ s.links.map Link.ends
  · rw [mergeLink_of_mem (by rw [hends]; exact h), mergeLink_of_mem h, changeFirst_comm]
    · intro l hl
      rw [decide_eq_true_eq] at hl
      rw [hl, decide_eq_false hne.symm]
    · exact fun _ => rfl
    · exact fun _ => rfl
  · have hnew : ¬decide ((Link.mk s.nextSerial c d u q).ends = (a, b, t)) = true := by
      rwa [decide_eq_true_eq]
    rw [mergeLink_of_not_mem (by rw [hends]; exact h), mergeLink_of_not_mem h, changeFirst,
      if_neg hnew]

/-- The places that a relationship joins, if both its ends have one. -/
def endsOf? (s : AdjacencyStore) (k : RelationKey) : Option (Nat × Nat × Identifier) := do
  return (← s.index.get? k.source, ← s.index.get? k.target, k.type)

theorem endsOf?_eq_some_iff {k : RelationKey} {a b : Nat} {t : Identifier} :
    s.endsOf? k = some (a, b, t) ↔
      s.index.get? k.source = some a ∧ s.index.get? k.target = some b ∧ k.type = t := by
  simp only [endsOf?, Option.bind_eq_bind, Option.bind_eq_some_iff, Option.pure_def,
    Option.some.injEq, Prod.mk.injEq]
  constructor
  · rintro ⟨_, ha, _, hb, rfl, rfl, ht⟩
    exact ⟨ha, hb, ht⟩
  · rintro ⟨ha, hb, ht⟩
    exact ⟨a, ha, b, hb, rfl, rfl, ht⟩

theorem Sound.endsOf?_inj (hs : s.Sound) {k j : RelationKey} {ends : Nat × Nat × Identifier}
    (hk : s.endsOf? k = some ends) (hj : s.endsOf? j = some ends) : k = j := by
  obtain ⟨a, b, t⟩ := ends
  obtain ⟨hka, hkb, hkt⟩ := endsOf?_eq_some_iff.1 hk
  obtain ⟨hja, hjb, hjt⟩ := endsOf?_eq_some_iff.1 hj
  obtain ⟨_, _, _⟩ := k
  obtain ⟨_, _, _⟩ := j
  cases hs.index_inj hka hja
  cases hs.index_inj hkb hjb
  cases hkt.trans hjt.symm
  rfl

theorem mergeEdge_of_ends {e : StoredEdge} {a b : Nat} {t : Identifier}
    (h : s.endsOf? e.key = some (a, b, t)) : s.mergeEdge e = s.mergeLink a b t e.properties := by
  obtain ⟨ha, hb, rfl⟩ := endsOf?_eq_some_iff.1 h
  have ha : s.index.get? e.source = some a := ha
  have hb : s.index.get? e.target = some b := hb
  rw [mergeEdge, ha, hb]
  rfl

theorem mergeEdge_of_none {e : StoredEdge} (h : s.endsOf? e.key = none) : s.mergeEdge e = s := by
  unfold mergeEdge
  split
  · next a b ha hb =>
    rw [(endsOf?_eq_some_iff (k := e.key)).2 ⟨ha, hb, rfl⟩] at h
    cases h
  · rfl

theorem endsOf?_mergeEdge (s : AdjacencyStore) (e : StoredEdge) :
    (s.mergeEdge e).endsOf? = s.endsOf? := by
  have hindex : (s.mergeEdge e).index = s.index := by
    unfold mergeEdge
    split
    · unfold mergeLink
      split <;> rfl
    · rfl
  funext k
  rw [endsOf?, endsOf?, hindex]

/-- Relationships in memory are absorbed, link by link. -/
theorem absorbs_edges : Absorbs StoredEdge.key StoredEdge.merge mergeEdge (fun _ => True) Sound
    fun s k => ∀ ends, s.endsOf? k = some ends → ends ∈ s.links.map Link.ends where
  key_merge _ _ := rfl
  fit_merge _ _ _ _ := trivial
  sound_write hs _ := sound_mergeEdge hs _
  known_write {s e k} hs _ hk ends hends := by
    rw [endsOf?_mergeEdge] at hends
    cases he : s.endsOf? e.key with
    | none =>
      rw [mergeEdge_of_none he]
      rcases hk with rfl | hk
      · rw [he] at hends
        cases hends
      · exact hk ends hends
    | some ends' =>
      obtain ⟨a, b, t⟩ := ends'
      rw [mergeEdge_of_ends he, mem_ends_mergeLink]
      rcases hk with rfl | hk
      · exact .inl (Option.some.inj (hends.symm.trans he))
      · exact .inr (hk ends hends)
  write_merge {s e f} hs _ _ hkey := by
    cases he : s.endsOf? e.key with
    | none =>
      have hf : s.endsOf? f.key = none := hkey ▸ he
      have hmerge : s.endsOf? (e.merge f).key = none := he
      rw [mergeEdge_of_none he, mergeEdge_of_none hf, mergeEdge_of_none hmerge]
    | some ends =>
      obtain ⟨a, b, t⟩ := ends
      have hf : (s.mergeEdge e).endsOf? f.key = some (a, b, t) := by
        rw [endsOf?_mergeEdge, ← hkey, he]
      have hmerge : s.endsOf? (e.merge f).key = some (a, b, t) := he
      rw [mergeEdge_of_ends hf, mergeEdge_of_ends he, mergeEdge_of_ends hmerge, ← mergeLink_overlay]
      rfl
  write_comm {s e f} hs _ _ hkey hknown := by
    cases he : s.endsOf? e.key with
    | none =>
      have he' : (s.mergeEdge f).endsOf? e.key = none := by rw [endsOf?_mergeEdge, he]
      rw [mergeEdge_of_none he, mergeEdge_of_none he']
    | some ends =>
      cases hf : s.endsOf? f.key with
      | none =>
        have hf' : (s.mergeEdge e).endsOf? f.key = none := by rw [endsOf?_mergeEdge, hf]
        rw [mergeEdge_of_none hf, mergeEdge_of_none hf']
      | some ends' =>
        have hne : ends' ≠ ends := by
          rintro rfl
          exact hkey (hs.endsOf?_inj hf he)
        obtain ⟨a, b, t⟩ := ends
        obtain ⟨c, d, u⟩ := ends'
        have he' : (s.mergeEdge f).endsOf? e.key = some (a, b, t) := by rw [endsOf?_mergeEdge, he]
        have hf' : (s.mergeEdge e).endsOf? f.key = some (c, d, u) := by rw [endsOf?_mergeEdge, hf]
        rw [mergeEdge_of_ends he', mergeEdge_of_ends hf', mergeEdge_of_ends he,
          mergeEdge_of_ends hf, mergeLink_comm (hknown _ he) hne]

end AdjacencyStore

/-! ## Contents -/

namespace Contents

/-- Nodes are absorbed by contents whose values are kept as they are. -/
theorem absorbs_nodes : Absorbs StoredNode.id StoredNode.merge (mergeNode id) (fun _ => True)
    (fun _ => True) fun _ _ => True where
  key_merge _ _ := rfl
  fit_merge _ _ _ _ := trivial
  sound_write _ _ := trivial
  known_write _ _ _ := trivial
  write_merge {c m n} _ _ _ hid := by
    apply Contents.ext
    · funext i
      rw [node?_mergeNode, node?_mergeNode, node?_mergeNode, ← hid]
      by_cases hi : i = m.id
      · have hmerge : i = (m.merge n).id := hi
        rw [if_pos hmerge, if_pos hi, if_pos hi]
        simp only [mergedNode, StoredNode.merge, Option.getD_some, AdjacencyStore.mapValues_id,
          addNew_addNew, overlay_assoc, hid]
      · have hmerge : i ≠ (m.merge n).id := hi
        rw [if_neg hmerge, if_neg hi, if_neg hi]
    · rfl
  write_comm {c m n} _ _ _ hid _ := by
    apply Contents.ext
    · funext i
      simp only [node?_mergeNode]
      by_cases hi : i = m.id
      · have hn : i ≠ n.id := fun h => hid (h.symm.trans hi)
        simp only [if_pos hi, if_neg hn]
      · simp only [if_neg hi]
    · rfl

/-- Relationships are absorbed by contents whose values are kept as they are. -/
theorem absorbs_edges : Absorbs StoredEdge.key StoredEdge.merge (mergeEdge id) (fun _ => True)
    (fun _ => True) fun _ _ => True where
  key_merge _ _ := rfl
  fit_merge _ _ _ _ := trivial
  sound_write _ _ := trivial
  known_write _ _ _ := trivial
  write_merge {c e f} _ _ _ hkey := by
    apply Contents.ext
    · rfl
    · funext k
      rw [edge?_mergeEdge, edge?_mergeEdge, edge?_mergeEdge, ← hkey]
      by_cases hk : k = e.key
      · have hmerge : k = (e.merge f).key := hk
        rw [if_pos hmerge, if_pos hk, if_pos hk]
        simp only [mergedProperties, StoredEdge.merge, Option.getD_some,
          AdjacencyStore.mapValues_id, overlay_assoc]
      · have hmerge : k ≠ (e.merge f).key := hk
        rw [if_neg hmerge, if_neg hk, if_neg hk]
  write_comm {c e f} _ _ _ hkey _ := by
    apply Contents.ext
    · rfl
    · funext k
      simp only [edge?_mergeEdge]
      by_cases hk : k = e.key
      · have hf : k ≠ f.key := fun h => hkey (h.symm.trans hk)
        simp only [if_pos hk, if_neg hf]
      · simp only [if_neg hk]

end Contents

end DatasetGraph
