import DatasetGraph.Proofs.Store.Run

/-!
# What blocks a write

Merging and updating lay new properties over old ones, which have to be read for that.  A list of
writes is *blocked* (`Blocked`) if one of them finds properties that cannot be read: they were there
before, or an earlier write of the list brought them.  It fails exactly then, and otherwise comes to
the plain writes (`Valid.mergeNodes_eq`, `Valid.mergeEdges_eq`, `Valid.updateNodes_eq`).
-/

namespace DatasetGraph

/-! ## Lists of writes under keys -/

/-- One of the writes finds properties under its key that cannot be read. -/
def Blocked (σ : Type) [Backend σ] {α κ : Type} (key : α → κ) (brought : α → Properties)
    (kept : κ → Option Properties) (xs : List α) : Prop :=
  ∃ before x after, xs = before ++ x :: after ∧
    ((∃ p, kept (key x) = some p ∧ Backend.legible σ p = false) ∨
      ∃ y ∈ before, key y = key x ∧ Backend.legible σ (brought y) = false)

section

variable {σ : Type} [Backend σ] {α κ : Type} {key : α → κ} {brought : α → Properties}
  {kept kept' : κ → Option Properties} {x : α} {xs : List α}

theorem not_blocked_nil : ¬Blocked σ key brought kept [] := by
  rintro ⟨before, x, after, h, _⟩
  cases before <;> cases h

/-- Where everything can be read, no write is blocked. -/
@[simp] theorem not_blocked [Backend.ReadsAll σ] : ¬Blocked σ key brought kept xs := by
  rintro ⟨before, x, after, _, ⟨p, _, hnot⟩ | ⟨y, _, _, hnot⟩⟩
  · rw [Backend.ReadsAll.legible_eq] at hnot
    cases hnot
  · rw [Backend.ReadsAll.legible_eq] at hnot
    cases hnot

/-- Writes of what can be read over what can be read are not blocked. -/
theorem not_blocked_of_legible
    (hkept : ∀ x ∈ xs, ∀ p, kept (key x) = some p → Backend.legible σ p = true)
    (hbrought : ∀ x ∈ xs, Backend.legible σ (brought x) = true) :
    ¬Blocked σ key brought kept xs := by
  rintro ⟨before, x, after, rfl, ⟨p, hp, hnot⟩ | ⟨y, hy, _, hnot⟩⟩
  · rw [hkept x (by simp) p hp] at hnot
    cases hnot
  · rw [hbrought y (List.mem_append_left _ hy)] at hnot
    cases hnot

/-- The first write is blocked by what is there. -/
theorem blocked_of_head {p : Properties} (hp : kept (key x) = some p)
    (hnot : Backend.legible σ p = false) : Blocked σ key brought kept (x :: xs) :=
  ⟨[], x, xs, rfl, .inl ⟨p, hp, hnot⟩⟩

/-- If the first write is not blocked, the others are by what is there then. -/
theorem blocked_cons_iff (hhead : ∀ p, kept (key x) = some p → Backend.legible σ p = true)
    (hself : ∃ p, kept' (key x) = some p ∧ Backend.legible σ p = Backend.legible σ (brought x))
    (hother : ∀ k, k ≠ key x → kept' k = kept k) :
    Blocked σ key brought kept (x :: xs) ↔ Blocked σ key brought kept' xs := by
  obtain ⟨q, hq, hlegible⟩ := hself
  have hhead' : ∀ {p}, kept (key x) = some p → Backend.legible σ p ≠ false := by
    intro p hp
    rw [hhead p hp]
    decide
  constructor
  · rintro ⟨before, y, after, hxs, hy⟩
    cases before with
    | nil =>
      cases hxs
      rcases hy with ⟨p, hp, hnot⟩ | ⟨_, h, _⟩
      · exact absurd hnot (hhead' hp)
      · cases h
    | cons z before =>
      cases hxs
      refine ⟨before, y, after, rfl, ?_⟩
      by_cases hk : key y = key x
      · rcases hy with ⟨p, hp, hnot⟩ | ⟨w, hw, hwy, hnot⟩
        · exact absurd hnot (hhead' (hk ▸ hp))
        · rcases List.mem_cons.1 hw with rfl | hw
          · exact .inl ⟨q, hk ▸ hq, hlegible.trans hnot⟩
          · exact .inr ⟨w, hw, hwy, hnot⟩
      · rcases hy with hp | ⟨w, hw, hwy, hnot⟩
        · exact .inl (by rwa [hother _ hk])
        · rcases List.mem_cons.1 hw with rfl | hw
          · exact absurd hwy.symm hk
          · exact .inr ⟨w, hw, hwy, hnot⟩
  · rintro ⟨before, y, after, rfl, hy⟩
    refine ⟨x :: before, y, after, rfl, ?_⟩
    rcases hy with ⟨p, hp, hnot⟩ | ⟨w, hw, hwy, hnot⟩
    · by_cases hk : key y = key x
      · rw [hk, hq] at hp
        cases hp
        exact .inr ⟨x, List.mem_cons_self, hk.symm, hlegible.symm.trans hnot⟩
      · exact .inl ⟨p, hother _ hk ▸ hp, hnot⟩
    · exact .inr ⟨w, List.mem_cons_of_mem _ hw, hwy, hnot⟩

theorem Blocked.append (h : Blocked σ key brought kept xs) (ys : List α) :
    Blocked σ key brought kept (xs ++ ys) := by
  obtain ⟨before, x, after, rfl, hx⟩ := h
  exact ⟨before, x, after ++ ys, by simp, hx⟩

/-- A write is blocked by what was there before all of them. -/
theorem Blocked.of_mem (hx : x ∈ xs) {p : Properties} (hp : kept (key x) = some p)
    (hnot : Backend.legible σ p = false) : Blocked σ key brought kept xs := by
  obtain ⟨before, after, rfl⟩ := List.append_of_mem hx
  exact ⟨before, x, after, rfl, .inl ⟨p, hp, hnot⟩⟩

/-- Writes are blocked by what was there before all of them, or by one another. -/
theorem blocked_iff : Blocked σ key brought kept xs ↔
    (∃ x ∈ xs, ∃ p, kept (key x) = some p ∧ Backend.legible σ p = false) ∨
      ¬xs.Pairwise fun y x => key y = key x → Backend.legible σ (brought y) = true := by
  constructor
  · rintro ⟨before, x, after, rfl, hkept | ⟨y, hy, hkey, hnot⟩⟩
    · exact .inl ⟨x, List.mem_append_right _ List.mem_cons_self, hkept⟩
    · refine .inr fun hall => ?_
      rw [(List.pairwise_append.1 hall).2.2 y hy x List.mem_cons_self hkey] at hnot
      cases hnot
  · rintro (⟨x, hx, p, hp, hnot⟩ | hnot)
    · exact .of_mem hx hp hnot
    · by_contra hfree
      refine hnot (List.pairwise_iff_forall_sublist.2 fun {y x} hsublist hkey => ?_)
      obtain ⟨front, rest, rfl, hy, hx⟩ := List.cons_sublist_iff.1 hsublist
      obtain ⟨between, after, rfl⟩ := List.append_of_mem (List.singleton_sublist.1 hx)
      by_contra hlegible
      exact hfree ⟨front ++ between, x, after, (List.append_assoc ..).symm,
        .inr ⟨y, List.mem_append_left _ hy, hkey, Bool.not_eq_true _ ▸ hlegible⟩⟩

/-- Writes of which each key comes once are blocked by what was there.  Others under the same keys are
blocked by that, and by one another. -/
theorem blocked_iff_of_nodup {ys : List α} (hys : (ys.map key).Nodup)
    (hkeys : ∀ k, k ∈ ys.map key ↔ k ∈ xs.map key) : Blocked σ key brought kept xs ↔
      Blocked σ key brought kept ys ∨
        ¬xs.Pairwise fun y x => key y = key x → Backend.legible σ (brought y) = true := by
  have hapart : ys.Pairwise fun y x => key y = key x → Backend.legible σ (brought y) = true :=
    (List.pairwise_map.1 hys).imp fun hne hkey => absurd hkey hne
  have hthere : ∀ zs : List α,
      (∃ z ∈ zs, ∃ p, kept (key z) = some p ∧ Backend.legible σ p = false) ↔
        ∃ k ∈ zs.map key, ∃ p, kept k = some p ∧ Backend.legible σ p = false := by simp
  rw [blocked_iff, blocked_iff, or_iff_left (not_not_intro hapart), hthere, hthere]
  simp only [hkeys]

end

/-- Writes under keys, of which some are passed over.  What is kept under a key is changed by the
writes with that key alone, and a write fails if what is kept under its key cannot be read. -/
structure KeyedWrites (σ : Type) [Backend σ] {α β κ : Type} (key : α → κ) (brought : α → Properties)
    (kept : β → κ → Option Properties) (relevant : β → α → Bool) (good : β → Prop) (fit : α → Prop)
    (f : β → α → Except StoreError β) (g : β → α → β) : Prop where
  keeps {b : β} {x : α} : good b → fit x → good (g b x) ∧ relevant (g b x) = relevant b
  skips {b : β} {x : α} : good b → fit x → relevant b x = false →
    f b x = .ok (g b x) ∧ kept (g b x) = kept b
  fails {b : β} {x : α} {p : Properties} : good b → fit x → relevant b x = true →
    kept b (key x) = some p → Backend.legible σ p = false → f b x = .error .unreadable
  writes {b : β} {x : α} : good b → fit x → relevant b x = true →
    (∀ p, kept b (key x) = some p → Backend.legible σ p = true) → f b x = .ok (g b x) ∧
      (∃ p, kept (g b x) (key x) = some p ∧ Backend.legible σ p = Backend.legible σ (brought x)) ∧
      ∀ k, k ≠ key x → kept (g b x) k = kept b k

namespace KeyedWrites

variable {σ : Type} [Backend σ] {α β κ : Type} {key : α → κ} {brought : α → Properties}
  {kept : β → κ → Option Properties} {relevant : β → α → Bool} {good : β → Prop} {fit : α → Prop}
  {f : β → α → Except StoreError β} {g : β → α → β} {b : β} {xs : List α}
  (h : KeyedWrites σ key brought kept relevant good fit f g)

include h

open Classical in
/-- A list of writes fails exactly if those that are not passed over are blocked. -/
theorem foldlM_eq (start : good b) (hfit : ∀ x ∈ xs, fit x) : xs.foldlM f b =
    if Blocked σ key brought (kept b) (xs.filter (relevant b)) then .error .unreadable
    else .ok (xs.foldl g b) := by
  induction xs generalizing b with
  | nil => exact (if_neg not_blocked_nil).symm
  | cons x xs ih =>
    obtain ⟨hx, hxs⟩ := List.forall_mem_cons.1 hfit
    obtain ⟨hgood, hrelevant⟩ := h.keeps start hx
    have hrest := ih hgood hxs
    rw [hrelevant] at hrest
    rw [List.foldlM_cons, List.foldl_cons, List.filter_cons]
    cases hwritten : relevant b x with
    | false =>
      obtain ⟨hok, hkept⟩ := h.skips start hx hwritten
      rw [hok, if_neg Bool.false_ne_true]
      rw [hkept] at hrest
      exact hrest
    | true =>
      rw [if_pos rfl]
      by_cases hbad : ∃ p, kept b (key x) = some p ∧ Backend.legible σ p = false
      · obtain ⟨p, hp, hnot⟩ := hbad
        rw [h.fails start hx hwritten hp hnot, if_pos (blocked_of_head hp hnot)]
        rfl
      · have hhead : ∀ p, kept b (key x) = some p → Backend.legible σ p = true := by
          intro p hp
          by_contra hnot
          exact hbad ⟨p, hp, Bool.not_eq_true _ ▸ hnot⟩
        obtain ⟨hok, hself, hother⟩ := h.writes start hx hwritten hhead
        rw [hok, blocked_cons_iff hhead hself hother]
        exact hrest

/-- What is kept good by each write is kept good by all of them. -/
theorem foldl_keeps (start : good b) (hfit : ∀ x ∈ xs, fit x) :
    good (xs.foldl g b) ∧ relevant (xs.foldl g b) = relevant b := by
  refine List.foldlRecOn xs g (motive := fun c => good c ∧ relevant c = relevant b) ⟨start, rfl⟩ ?_
  rintro c ⟨hc, hrelevant⟩ x hx
  obtain ⟨hgood, hsame⟩ := h.keeps hc (hfit x hx)
  exact ⟨hgood, hsame.trans hrelevant⟩

/-- After unblocked writes, more of them are blocked exactly if all of them together were. -/
theorem blocked_append_iff {ys : List α} (start : good b) (hxs : ∀ x ∈ xs, fit x)
    (hys : ∀ y ∈ ys, fit y) (hfree : ¬Blocked σ key brought (kept b) (xs.filter (relevant b))) :
    Blocked σ key brought (kept b) ((xs ++ ys).filter (relevant b)) ↔
      Blocked σ key brought (kept (xs.foldl g b)) (ys.filter (relevant b)) := by
  obtain ⟨hgood, hrelevant⟩ := h.foldl_keeps start hxs
  have hfit : ∀ x ∈ xs ++ ys, fit x := List.forall_mem_append.2 ⟨hxs, hys⟩
  have hall := h.foldlM_eq start hfit
  rw [List.foldlM_append, h.foldlM_eq start hxs, if_neg hfree] at hall
  have hrest : ys.foldlM f (xs.foldl g b) = _ := h.foldlM_eq hgood hys
  rw [hrelevant] at hrest
  rw [show (Except.ok (xs.foldl g b) >>= fun c => ys.foldlM f c) = ys.foldlM f (xs.foldl g b) from rfl,
    hrest] at hall
  -- Either both fail or both succeed.
  split at hall
  · next hblocked =>
    split at hall
    · next hblocked' => exact iff_of_true hblocked' hblocked
    · cases hall
  · next hblocked =>
    split at hall
    · cases hall
    · next hblocked' => exact iff_of_false hblocked' hblocked

/-- After unblocked writes, what is kept under a key cannot be read if it could not be read before,
or if one of the writes has brought what cannot be read. -/
theorem illegible_iff (start : good b) (hfit : ∀ x ∈ xs, fit x)
    (hfree : ¬Blocked σ key brought (kept b) (xs.filter (relevant b))) {k : κ} {p : Properties}
    (hp : kept (xs.foldl g b) k = some p) : Backend.legible σ p = false ↔
      (∃ q, kept b k = some q ∧ Backend.legible σ q = false) ∨
        ∃ x ∈ xs.filter (relevant b), key x = k ∧ Backend.legible σ (brought x) = false := by
  induction xs generalizing b with
  | nil =>
    rw [show kept b k = some p from hp]
    simp
  | cons x xs ih =>
    obtain ⟨hx, hxs⟩ := List.forall_mem_cons.1 hfit
    obtain ⟨hgood, hrelevant⟩ := h.keeps start hx
    have hrest := ih hgood hxs
    rw [hrelevant] at hrest
    rw [List.filter_cons] at hfree ⊢
    cases hwritten : relevant b x with
    | false =>
      obtain ⟨_, hkept⟩ := h.skips start hx hwritten
      rw [hwritten, if_neg Bool.false_ne_true] at hfree
      rw [hkept] at hrest
      exact hrest hfree hp
    | true =>
      rw [hwritten, if_pos rfl] at hfree
      have hhead : ∀ q, kept b (key x) = some q → Backend.legible σ q = true := by
        intro q hq
        by_contra hnot
        exact hfree (blocked_of_head hq (Bool.not_eq_true _ ▸ hnot))
      obtain ⟨_, hself, hother⟩ := h.writes start hx hwritten hhead
      rw [blocked_cons_iff hhead hself hother] at hfree
      rw [hrest hfree hp, if_pos rfl, List.exists_mem_cons_iff, ← or_assoc]
      refine or_congr_left ?_
      obtain ⟨q, hq, hlegible⟩ := hself
      by_cases hk : k = key x
      · subst hk
        simp only [hq, Option.some.injEq, exists_eq_left', hlegible, true_and]
        refine ⟨.inr, ?_⟩
        rintro (⟨q', hq', hnot⟩ | hnot)
        · rw [hhead q' hq'] at hnot
          cases hnot
        · exact hnot
      · simp [hother k hk, Ne.symm hk]

/-- After unblocked writes, the same writes are blocked exactly if they bring what cannot be read. -/
theorem blocked_again_iff (start : good b) (hfit : ∀ x ∈ xs, fit x)
    (hfree : ¬Blocked σ key brought (kept b) (xs.filter (relevant b)))
    (hkept : ∀ x ∈ xs.filter (relevant b), ∃ p, kept (xs.foldl g b) (key x) = some p) :
    Blocked σ key brought (kept (xs.foldl g b)) (xs.filter (relevant b)) ↔
      ∃ x ∈ xs.filter (relevant b), Backend.legible σ (brought x) = false := by
  constructor
  · rintro ⟨before, x, after, hxs, ⟨p, hp, hnot⟩ | ⟨y, hy, _, hnot⟩⟩
    · have hx : x ∈ xs.filter (relevant b) := by
        rw [hxs]
        simp
      rcases (h.illegible_iff start hfit hfree hp).1 hnot with ⟨q, hq, hbad⟩ | ⟨y, hy, _, hbad⟩
      · exact absurd (Blocked.of_mem hx hq hbad) hfree
      · exact ⟨y, hy, hbad⟩
    · rw [hxs]
      exact ⟨y, List.mem_append_left _ hy, hnot⟩
  · rintro ⟨x, hx, hnot⟩
    obtain ⟨p, hp⟩ := hkept x hx
    exact .of_mem hx hp ((h.illegible_iff start hfit hfree hp).2 (.inr ⟨x, hx, rfl, hnot⟩))

end KeyedWrites

/-! ## What is legible -/

section

variable {σ : Type} [LawfulBackend σ] {p q : Properties}

open LawfulBackend

theorem legible_settled (p : Properties) :
    Backend.legible σ (p.mapValues (settle σ)) = Backend.legible σ p := by
  rw [Bool.eq_iff_iff, legible_iff, legible_iff, KeyMap.all_mapValues]
  simp only [fits_settle]

variable (σ) in
theorem legible_empty : Backend.legible σ (.empty : Properties) = true :=
  legible_iff.2 KeyMap.all_empty

theorem legible_overlay (hp : Backend.legible σ p = true) (q : Properties) :
    Backend.legible σ (p.overlay q) = Backend.legible σ q := by
  rw [Bool.eq_iff_iff, legible_iff, legible_iff]
  constructor
  · intro h k v hv
    exact h k v (by rw [KeyMap.get?_overlay, hv]; rfl)
  · exact (legible_iff.1 hp).overlay

/-- An update brings values that cannot be read exactly if it would bring them to nothing. -/
theorem legible_update (hp : Backend.legible σ p = true) (u : Properties) :
    Backend.legible σ (p.update u) = Backend.legible σ (Properties.update .empty u) := by
  rw [Bool.eq_iff_iff, legible_iff, legible_iff]
  have hget : ∀ k v, (Properties.update .empty u).get? k = some v ↔
      k ≠ "id" ∧ u.get? k = some v ∧ v.isNull = false := by
    intro k v
    rw [Properties.get?_update]
    by_cases hid : k = "id"
    · simp [hid]
    · cases hu : u.get? k with
      | none => simp [hid]
      | some w =>
        cases hw : w.isNull with
        | true =>
          simp only [hid, if_false, Option.map_some, hw, if_true, Option.getD_some]
          grind
        | false =>
          simp only [hid, if_false, Option.map_some, hw, Option.getD_some]
          grind
  constructor
  · intro h k v hv
    obtain ⟨hid, hu, hnull⟩ := (hget k v).1 hv
    exact h k v (by rw [Properties.get?_update, if_neg hid, hu, Option.map_some, hnull]; rfl)
  · intro h k v hv
    rw [Properties.get?_update] at hv
    split at hv
    · exact legible_iff.1 hp k v hv
    · next hid =>
      cases hu : u.get? k with
      | none =>
        rw [hu] at hv
        exact legible_iff.1 hp k v hv
      | some w =>
        rw [hu, Option.map_some, Option.getD_some] at hv
        split at hv
        · cases hv
        · next hnull =>
          cases hv
          exact h k v ((hget k v).2 ⟨hid, hu, Bool.not_eq_true _ ▸ hnull⟩)

end

/-! ## The writes of a backend -/

section

variable {σ : Type} [Backend σ]

/-- Some of the nodes are merged into one that cannot be read. -/
def NodesBlocked (s : σ) (ns : List StoredNode) : Prop :=
  Blocked σ StoredNode.id StoredNode.properties
    (fun id => (Backend.node? s id).map StoredNode.properties) ns

/-- Whether both ends of a relationship are stored. -/
def endsStored (s : σ) (e : StoredEdge) : Bool :=
  Backend.hasNode s e.source && Backend.hasNode s e.target

/-- Some of the relationships between stored nodes are merged into one that cannot be read. -/
def EdgesBlocked (s : σ) (es : List StoredEdge) : Prop :=
  Blocked σ StoredEdge.key StoredEdge.properties (Backend.edge? s) (es.filter (endsStored s))

/-- Some of the updates of stored nodes are of one that cannot be read. -/
def UpdatesBlocked (s : σ) (us : List PropertyUpdate) : Prop :=
  Blocked σ PropertyUpdate.id (fun u => Properties.update .empty u.properties)
    (fun id => (Backend.node? s id).map StoredNode.properties)
    (us.filter fun u => Backend.hasNode s u.id)

section

variable [Backend.ReadsAll σ] (s : σ)

@[simp] theorem not_nodesBlocked (ns : List StoredNode) : ¬NodesBlocked s ns := not_blocked

@[simp] theorem not_edgesBlocked (es : List StoredEdge) : ¬EdgesBlocked s es := not_blocked

@[simp] theorem not_updatesBlocked (us : List PropertyUpdate) : ¬UpdatesBlocked s us := not_blocked

end

end

namespace Valid

variable {σ : Type} [LawfulBackend σ] {s : σ}

open LawfulBackend

/-- What is laid over something readable can be read exactly if what is brought can. -/
theorem legible_mergedProperties {old : Option Properties} {p : Properties}
    (hold : ∀ q, old = some q → Backend.legible σ q = true) :
    Backend.legible σ (Contents.mergedProperties (settle σ) old p) = Backend.legible σ p := by
  rw [Contents.mergedProperties, legible_settled]
  cases old with
  | none => exact legible_overlay (legible_empty σ) p
  | some q => exact legible_overlay (hold q rfl) p

theorem legible_mergedNode {old : Option StoredNode} {n : StoredNode}
    (hold : ∀ p, old.map StoredNode.properties = some p → Backend.legible σ p = true) :
    Backend.legible σ (Contents.mergedNode (settle σ) old n).properties =
      Backend.legible σ n.properties := by
  rw [← legible_mergedProperties (p := n.properties) hold]
  cases old with
  | none => rfl
  | some m => rfl

variable (σ) in
theorem keyedWrites_nodes : KeyedWrites σ StoredNode.id StoredNode.properties
    (fun (t : σ) id => (Backend.node? t id).map StoredNode.properties) (fun _ _ => true) Valid
    StoredNode.WellFormed Backend.mergeNodeChecked Backend.mergeNode := by
  have hnode : ∀ {t : σ} {n : StoredNode}, Valid t → n.WellFormed → ∀ id,
      Backend.node? (Backend.mergeNode t n) id =
        if id = n.id then some (Contents.mergedNode (settle σ) (Backend.node? t id) n)
        else Backend.node? t id := by
    intro t n ht hn id
    rw [← node?_contents, contents_mergeNode ht.sound hn.nodup_labels]
    exact Contents.node?_mergeNode n id
  constructor
  case keeps => exact fun ht hn => ⟨ht.mergeNode hn, rfl⟩
  case skips => nofun
  case fails =>
    intro t n p _ _ _ hp hnot
    rw [Backend.mergeNodeChecked, hp, Backend.check?, Backend.check_of_illegible hnot]
    rfl
  case writes =>
    intro t n ht hn _ hhead
    refine ⟨?_, ⟨_, ?_, legible_mergedNode hhead⟩, ?_⟩
    · rw [Backend.mergeNodeChecked, Backend.check?_of_legible hhead]
      rfl
    · rw [hnode ht hn, if_pos rfl]
      rfl
    · intro k hk
      rw [hnode ht hn, if_neg hk]

open Classical in
/-- Nodes are merged, unless that is blocked. -/
theorem mergeNodes_eq (hs : Valid s) {ns : List StoredNode} (hns : ∀ n ∈ ns, n.WellFormed) :
    Backend.mergeNodes s ns =
      if NodesBlocked s ns then .error .unreadable else .ok (Backend.putNodes s ns) := by
  have hfold : ns.foldlM Backend.mergeNodeChecked s =
      if NodesBlocked s (ns.filter fun _ => true) then .error .unreadable
      else .ok (ns.foldl Backend.mergeNode s) := (keyedWrites_nodes σ).foldlM_eq hs hns
  rw [List.filter_true] at hfold
  rw [Backend.mergeNodes, hfold]
  split
  · rfl
  · rfl

/-- A relationship is laid over what is there if both its ends are stored. -/
theorem contents_putEdge {acc : WriteCount × σ} (hacc : Valid acc.2) (e : StoredEdge) :
    contents (Backend.putEdge acc e).2 =
      if endsStored acc.2 e then (contents acc.2).mergeEdge (settle σ) e else contents acc.2 := by
  rw [Backend.putEdge]
  show contents (ite (endsStored acc.2 e = true) _ _ : WriteCount × σ).2 = _
  cases h : endsStored acc.2 e with
  | false => rfl
  | true =>
    obtain ⟨source, target⟩ := Bool.and_eq_true_iff.1 h
    exact contents_mergeEdge hacc.sound source target

/-- It leaves the nodes as they are. -/
theorem endsStored_putEdge {acc : WriteCount × σ} (hacc : Valid acc.2) (e : StoredEdge) :
    endsStored (Backend.putEdge acc e).2 = endsStored acc.2 := by
  have hnodes : (contents (Backend.putEdge acc e).2).node? = (contents acc.2).node? := by
    rw [hacc.contents_putEdge]
    split
    · rfl
    · rfl
  funext f
  exact congrArg (fun node? : String → Option StoredNode =>
    (node? f.source).isSome && (node? f.target).isSome) hnodes

variable (σ) in
theorem keyedWrites_edges : KeyedWrites σ StoredEdge.key StoredEdge.properties
    (fun acc : WriteCount × σ => Backend.edge? acc.2) (fun acc => endsStored acc.2)
    (fun acc => Valid acc.2) StoredEdge.WellFormed Backend.mergeEdgeChecked Backend.putEdge := by
  constructor
  case keeps => exact fun hacc he => ⟨hacc.putEdge he, hacc.endsStored_putEdge _⟩
  case skips =>
    intro acc e hacc he hskip
    refine ⟨?_, funext fun k => ?_⟩
    · rw [endsStored] at hskip
      rw [Backend.mergeEdgeChecked, Backend.putEdge, hskip]
      rfl
    · rw [edge?_eq (hacc.putEdge he).sound, edge?_eq hacc.sound, hacc.contents_putEdge, hskip,
        if_neg Bool.false_ne_true]
  case fails =>
    intro acc e p _ _ hends hp hnot
    rw [endsStored] at hends
    rw [Backend.mergeEdgeChecked, hends, if_pos rfl, hp, Backend.check?,
      Backend.check_of_illegible hnot]
    rfl
  case writes =>
    intro acc e hacc he hends hhead
    have hedge : ∀ k, Backend.edge? (Backend.putEdge acc e).2 k =
        if k = e.key then
          some (Contents.mergedProperties (settle σ) (Backend.edge? acc.2 k) e.properties)
        else Backend.edge? acc.2 k := by
      intro k
      rw [edge?_eq (hacc.putEdge he).sound, hacc.contents_putEdge, hends, if_pos rfl,
        edge?_eq hacc.sound]
      exact Contents.edge?_mergeEdge e k
    refine ⟨?_, ⟨_, by rw [hedge, if_pos rfl], legible_mergedProperties hhead⟩,
      fun k hk => by rw [hedge, if_neg hk]⟩
    rw [endsStored] at hends
    rw [Backend.mergeEdgeChecked, Backend.putEdge, hends, if_pos rfl, if_pos rfl,
      Backend.check?_of_legible hhead]
    rfl

open Classical in
/-- Relationships are merged, unless that is blocked. -/
theorem mergeEdges_eq (hs : Valid s) {es : List StoredEdge} (hes : ∀ e ∈ es, e.WellFormed) :
    Backend.mergeEdges s es =
      if EdgesBlocked s es then .error .unreadable else .ok (Backend.putEdges s es) :=
  (keyedWrites_edges σ).foldlM_eq (b := (({} : WriteCount), s)) hs hes

/-- An update changes the node with its id, if there is one. -/
theorem node?_putUpdate {acc : Nat × σ} (hacc : Valid acc.2) (u : PropertyUpdate) (id : String) :
    Backend.node? (Backend.putUpdate acc u).2 id =
      if id = u.id then (Backend.node? acc.2 id).map (Contents.updatedNode (settle σ) u.properties)
      else Backend.node? acc.2 id := by
  rw [Backend.putUpdate]
  cases h : Backend.hasNode acc.2 u.id with
  | false =>
    rw [Backend.hasNode, Option.isSome_eq_false_iff, Option.isNone_iff_eq_none] at h
    show Backend.node? acc.2 id = _
    split
    · next hid =>
      rw [hid, h]
      rfl
    · rfl
  | true =>
    show Backend.node? (Backend.updateNode acc.2 u) id = _
    rw [← node?_contents, contents_updateNode hacc.sound]
    exact Contents.node?_updateNode u id

variable (σ) in
theorem keyedWrites_updates : KeyedWrites σ PropertyUpdate.id
    (fun u => Properties.update .empty u.properties)
    (fun (acc : Nat × σ) id => (Backend.node? acc.2 id).map StoredNode.properties)
    (fun acc u => Backend.hasNode acc.2 u.id) (fun acc => Valid acc.2)
    (fun u => u.properties.All fun v => v ≠ .arr []) Backend.updateNodeChecked
    Backend.putUpdate := by
  constructor
  case keeps =>
    intro acc u hacc hu
    refine ⟨hacc.putUpdate hu, funext fun w => ?_⟩
    rw [Backend.hasNode, hacc.node?_putUpdate, Backend.hasNode]
    split
    · exact Option.isSome_map
    · rfl
  case skips =>
    intro acc u hacc _ hskip
    rw [Backend.hasNode, Option.isSome_eq_false_iff, Option.isNone_iff_eq_none] at hskip
    refine ⟨?_, funext fun id => ?_⟩
    · rw [Backend.updateNodeChecked, Backend.putUpdate, Backend.hasNode, hskip]
      rfl
    · rw [hacc.node?_putUpdate]
      split
      · next hid =>
        rw [hid, hskip]
        rfl
      · rfl
  case fails =>
    intro acc u p _ _ _ hp hnot
    obtain ⟨m, hm, rfl⟩ := Option.map_eq_some_iff.1 hp
    rw [Backend.updateNodeChecked, hm]
    dsimp only
    rw [Backend.check_of_illegible hnot]
    rfl
  case writes =>
    intro acc u hacc _ hstored hhead
    obtain ⟨m, hm⟩ := Option.isSome_iff_exists.1 hstored
    have hlegible := hhead m.properties (by rw [hm]; rfl)
    refine ⟨?_, ⟨_, by rw [hacc.node?_putUpdate, if_pos rfl, hm]; rfl, ?_⟩,
      fun k hk => by rw [hacc.node?_putUpdate, if_neg hk]⟩
    · rw [Backend.updateNodeChecked, Backend.putUpdate, Backend.hasNode, hm]
      dsimp only
      rw [Backend.check_of_legible hlegible]
      rfl
    · show Backend.legible σ ((m.properties.update u.properties).mapValues (settle σ)) = _
      rw [legible_settled, legible_update hlegible]

open Classical in
/-- Updates are applied, unless that is blocked. -/
theorem updateNodes_eq (hs : Valid s) {us : List PropertyUpdate}
    (hus : ∀ u ∈ us, u.properties.All fun v => v ≠ .arr []) :
    Backend.updateNodes s us =
      if UpdatesBlocked s us then .error .unreadable else .ok (Backend.putUpdates s us) :=
  (keyedWrites_updates σ).foldlM_eq (b := (0, s)) hs hus

/-! ### One list of writes after the other -/

theorem nodesBlocked_append_iff (hs : Valid s) {ns ms : List StoredNode}
    (hns : ∀ n ∈ ns, n.WellFormed) (hms : ∀ m ∈ ms, m.WellFormed) (hfree : ¬NodesBlocked s ns) :
    NodesBlocked s (ns ++ ms) ↔ NodesBlocked (Backend.putNodes s ns).2 ms := by
  have happend := (keyedWrites_nodes σ).blocked_append_iff hs hns hms
  rw [List.filter_true, List.filter_true, List.filter_true] at happend
  exact happend hfree

theorem edgesBlocked_append_iff (hs : Valid s) {es fs : List StoredEdge}
    (hes : ∀ e ∈ es, e.WellFormed) (hfs : ∀ f ∈ fs, f.WellFormed) (hfree : ¬EdgesBlocked s es) :
    EdgesBlocked s (es ++ fs) ↔ EdgesBlocked (Backend.putEdges s es).2 fs := by
  have happend := (keyedWrites_edges σ).blocked_append_iff (b := (({} : WriteCount), s)) hs hes hfs
    hfree
  have hends : endsStored (Backend.putEdges s es).2 = endsStored s :=
    ((keyedWrites_edges σ).foldl_keeps (b := (({} : WriteCount), s)) hs hes).2
  rw [EdgesBlocked, EdgesBlocked, hends]
  exact happend

/-! ### What can be read afterwards -/

/-- Of nodes that were merged, those cannot be read that could not be read before, and those to which
something was brought that cannot be read. -/
theorem illegible_putNodes_iff (hs : Valid s) {ns : List StoredNode}
    (hns : ∀ n ∈ ns, n.WellFormed) (hfree : ¬NodesBlocked s ns) {m : StoredNode} {id : String}
    (hm : Backend.node? (Backend.putNodes s ns).2 id = some m) :
    Backend.legible σ m.properties = false ↔
      (∃ k, Backend.node? s id = some k ∧ Backend.legible σ k.properties = false) ∨
        ∃ n ∈ ns, n.id = id ∧ Backend.legible σ n.properties = false := by
  have hiff := (keyedWrites_nodes σ).illegible_iff hs hns (k := id) (p := m.properties)
  rw [List.filter_true] at hiff
  rw [hiff hfree (congrArg (Option.map StoredNode.properties) hm)]
  simp [Option.map_eq_some_iff]

/-- So it is with relationships. -/
theorem illegible_putEdges_iff (hs : Valid s) {es : List StoredEdge}
    (hes : ∀ e ∈ es, e.WellFormed) (hfree : ¬EdgesBlocked s es) {p : Properties} {k : RelationKey}
    (hp : Backend.edge? (Backend.putEdges s es).2 k = some p) :
    Backend.legible σ p = false ↔
      (∃ q, Backend.edge? s k = some q ∧ Backend.legible σ q = false) ∨
        ∃ e ∈ es.filter (endsStored s), e.key = k ∧ Backend.legible σ e.properties = false :=
  (keyedWrites_edges σ).illegible_iff (b := (({} : WriteCount), s)) hs hes hfree hp

end Valid

end DatasetGraph
