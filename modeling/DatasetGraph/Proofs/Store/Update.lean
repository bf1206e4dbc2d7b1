import DatasetGraph.Proofs.Store.View

/-!
# The last update wins

A batch may update a node several times, and what one update writes another may remove.  A property
is decided by the last update of the node that mentions it; all other properties stay, as do labels,
relationships and nodes that are not updated (`Contents.Overlaid`).  So the same batch, applied again,
decides the same properties in the same way.

What it leaves in place it settles anew, once for each update of the node.  In memory this is nothing,
and a second application leaves the store as it is.  In tables it does so exactly if the values that
are left in place settle (`Contents.SettlesUnmentioned`).

Updates have to read what they change.  In tables a batch is refused whole if one of its updates meets
what cannot be read (`UpdatesBlocked`), and the second time if it brought it itself
(`Graph.UpdatesLegible`).
-/

namespace DatasetGraph

/-! ## Updated properties -/

namespace Properties

variable {settle : Json → Json} {p : Properties} {us : List Properties} {key : String}

/-- Properties that are updated one after the other, and whose values are settled each time. -/
def updated (settle : Json → Json) (p : Properties) (us : List Properties) : Properties :=
  us.foldl (fun p u => (p.update u).mapValues settle) p

theorem updated_append (us vs : List Properties) :
    p.updated settle (us ++ vs) = (p.updated settle us).updated settle vs :=
  List.foldl_append

/-- A property that no update mentions is settled each time. -/
theorem get?_updated_of_unmentioned (h : key = "id" ∨ ∀ u ∈ us, u.get? key = none) :
    (p.updated settle us).get? key = (p.get? key).map settle^[us.length] := by
  induction us generalizing p with
  | nil => exact Option.map_id'.symm
  | cons u us ih =>
    have hu : ((p.update u).mapValues settle).get? key = (p.get? key).map settle := by
      rw [KeyMap.get?_mapValues, get?_update]
      rcases h with rfl | h
      · rw [if_pos rfl]
      · rw [h u List.mem_cons_self, Option.map_none, Option.getD_none, ite_self]
    show (updated settle ((p.update u).mapValues settle) us).get? key = _
    rw [ih (h.imp_right fun h w hw => h w (List.mem_cons_of_mem u hw)), hu, Option.map_map]
    rfl

/-- A property is decided by the last update that mentions it. -/
theorem get?_updated_of_last {before after : List Properties} {u : Properties} {v : Json}
    (hkey : key ≠ "id") (hu : u.get? key = some v) (hafter : ∀ w ∈ after, w.get? key = none) :
    (p.updated settle (before ++ u :: after)).get? key =
      if v.isNull then none else some (settle^[after.length + 1] v) := by
  have hdecided : (((p.updated settle before).update u).mapValues settle).get? key =
      (if v.isNull then none else some v).map settle := by
    rw [KeyMap.get?_mapValues, get?_update, if_neg hkey, hu, Option.map_some, Option.getD_some]
  rw [updated_append]
  show (updated settle (((p.updated settle before).update u).mapValues settle) after).get? key = _
  rw [get?_updated_of_unmentioned (.inr hafter), hdecided]
  split <;> rfl

end Properties

/-! ## Updated contents -/

/-- A list with a member that does not pass has a last one. -/
theorem exists_last_of_not_forall {α : Type} {p : α → Prop} {xs : List α}
    (h : ¬∀ x ∈ xs, p x) : ∃ before x after, xs = before ++ x :: after ∧ ¬p x ∧ ∀ y ∈ after, p y := by
  induction xs with
  | nil => exact absurd (List.forall_mem_nil p) h
  | cons x xs ih =>
    by_cases hxs : ∀ y ∈ xs, p y
    · exact ⟨[], x, xs, rfl, fun hx => h (List.forall_mem_cons.2 ⟨hx, hxs⟩), hxs⟩
    · obtain ⟨before, y, after, rfl, hy, hafter⟩ := ih hxs
      exact ⟨x :: before, y, after, rfl, hy, hafter⟩

namespace Contents

variable {settle : Json → Json} {c d e : Contents} {g : Graph}

/-- Change properties of nodes, one after the other. -/
def updateNodes (settle : Json → Json) (c : Contents) (us : List PropertyUpdate) : Contents :=
  us.foldl (updateNode settle) c

theorem node?_updateNodes (us : List PropertyUpdate) (id : String) :
    (c.updateNodes settle us).node? id = (c.node? id).map fun n =>
      { n with
        properties := n.properties.updated settle
          ((us.filter fun u => u.id = id).map PropertyUpdate.properties) } := by
  induction us generalizing c with
  | nil => exact Option.map_id'.symm
  | cons u us ih =>
    show ((c.updateNode settle u).updateNodes settle us).node? id = _
    rw [ih, node?_updateNode]
    by_cases hid : u.id = id
    · rw [if_pos hid.symm, List.filter_cons_of_pos (by simpa using hid), Option.map_map]
      rfl
    · rw [if_neg (Ne.symm hid), List.filter_cons_of_neg (by simpa using hid)]

theorem edge?_updateNodes (us : List PropertyUpdate) :
    (c.updateNodes settle us).edge? = c.edge? := by
  induction us generalizing c with
  | nil => rfl
  | cons u us ih => exact ih

/-- What becomes of contents under the updates that a graph asks for. -/
structure Overlaid (settle : Json → Json) (g : Graph) (c d : Contents) : Prop where
  /-- The last update of a stored node that mentions a property decides it. -/
  decided {id key : String} {before after : List Node} {n : Node} {v : Json} :
    (c.node? id).isSome = true → key ≠ "id" → g.nodesAt id = before ++ n :: after →
    n.properties.get? key = some v → (∀ m ∈ after, m.properties.get? key = none) →
    d.value? id key =
      if v.isNull then none else some (settle^[after.length + 1] v.markEmpty)
  /-- Any other property stays, and so does the id. -/
  unmentioned {id key : String} :
    (key = "id" ∨ ∀ n ∈ g.nodesAt id, n.properties.get? key = none) →
    d.value? id key = (c.value? id key).map settle^[(g.nodesAt id).length]
  isSome_node? (id : String) : (d.node? id).isSome = (c.node? id).isSome
  labels (id : String) : d.labels id = c.labels id
  node?_of_unnamed {id : String} : g.nodesAt id = [] → d.node? id = c.node? id
  edge? : d.edge? = c.edge?

/-- Every value that the updates leave in place is the same after they are applied twice as after
they are applied once. -/
def SettlesUnmentioned (settle : Json → Json) (c : Contents) (g : Graph) : Prop :=
  ∀ id key v, c.value? id key = some v →
    (key = "id" ∨ ∀ n ∈ g.nodesAt id, n.properties.get? key = none) →
    settle^[(g.nodesAt id).length] (settle^[(g.nodesAt id).length] v) =
      settle^[(g.nodesAt id).length] v

theorem settlesUnmentioned_id (c : Contents) (g : Graph) : c.SettlesUnmentioned id g := by
  intro _ _ v _ _
  rw [Function.iterate_id]
  rfl

theorem Survives.settlesUnmentioned (hc : c.Survives) (g : Graph) :
    c.SettlesUnmentioned Json.reread g := by
  intro id key v hv _
  obtain ⟨n, hn, hv⟩ := Option.bind_eq_some_iff.1 hv
  have hsurvives : v.reread = v := (hc.node hn key v hv).reread
  rw [Function.iterate_fixed hsurvives, Function.iterate_fixed hsurvives]

/-- A second application of the same updates leaves every value as the first one made it exactly if
the values that are left in place settle. -/
theorem Overlaid.twice_iff (h : c.Overlaid settle g d) (h' : d.Overlaid settle g e) :
    (∀ id key, e.value? id key = d.value? id key) ↔ c.SettlesUnmentioned settle g := by
  constructor
  · intro hvalues id key v hv hnone
    have hvalue := hvalues id key
    rw [h'.unmentioned hnone, h.unmentioned hnone, hv] at hvalue
    exact Option.some.inj hvalue
  · intro hsettles id key
    by_cases hnone : key = "id" ∨ ∀ n ∈ g.nodesAt id, n.properties.get? key = none
    · rw [h'.unmentioned hnone, h.unmentioned hnone]
      cases hv : c.value? id key with
      | none => rfl
      | some v => exact congrArg some (hsettles id key v hv hnone)
    · rw [not_or] at hnone
      obtain ⟨before, n, after, hsplit, hn, hafter⟩ := exists_last_of_not_forall hnone.2
      obtain ⟨v, hv⟩ := Option.ne_none_iff_exists'.1 hn
      by_cases hstored : (c.node? id).isSome = true
      · rw [h.decided hstored hnone.1 hsplit hv hafter,
          h'.decided ((h.isSome_node? id).trans hstored) hnone.1 hsplit hv hafter]
      · rw [← h.isSome_node?, Option.not_isSome_iff_eq_none] at hstored
        have hgone : e.node? id = none := by
          rw [← Option.not_isSome_iff_eq_none, h'.isSome_node?, hstored]
          exact Bool.false_ne_true
        rw [value?, value?, hstored, hgone]

end Contents

/-! ## Updates of a store -/

theorem updatesOf_filter (g : Graph) (id : String) :
    ((Store.updatesOf g).filter fun u => u.id = id).map PropertyUpdate.properties =
      (g.nodesAt id).map fun n => n.properties.mark := by
  rw [Store.updatesOf, List.filter_map, List.map_map, List.filter_filter]
  rfl

/-- The store with the updates laid over it that a graph asks for, and how many they are. -/
def Store.putProperties {σ : Type} [Backend σ] (s : σ) (g : Graph) : Nat × σ :=
  Backend.putUpdates s (updatesOf g)

section

variable {σ : Type} [LawfulBackend σ] {s : σ}

open LawfulBackend

theorem hasNode_updateNode (hs : Sound s) (u : PropertyUpdate) (id : String) :
    Backend.hasNode (Backend.updateNode s u) id = Backend.hasNode s id := by
  show ((contents (Backend.updateNode s u)).node? id).isSome = ((contents s).node? id).isSome
  rw [contents_updateNode hs, Contents.node?_updateNode]
  split
  · exact Option.isSome_map
  · rfl

/-- Updates of stored nodes are applied one after the other, and each counts. -/
theorem putUpdates_eq (hs : Sound s) (us : List PropertyUpdate) :
    Backend.putUpdates s us = ((us.filter fun u => Backend.hasNode s u.id).length,
      (us.filter fun u => Backend.hasNode s u.id).foldl Backend.updateNode s) := by
  -- No node comes or goes, so what is stored is known from the start.
  have go : ∀ (us : List PropertyUpdate) (count : Nat) (t : σ), Sound t →
      us.foldl Backend.putUpdate (count, t) =
        (count + (us.filter fun u => Backend.hasNode t u.id).length,
          (us.filter fun u => Backend.hasNode t u.id).foldl Backend.updateNode t) := by
    intro us
    induction us with
    | nil =>
      intro count t _
      rfl
    | cons u us ih =>
      intro count t ht
      rw [List.foldl_cons, Backend.putUpdate, List.filter_cons]
      cases hstored : Backend.hasNode t u.id with
      | true =>
        rw [if_pos rfl, if_pos rfl, ih _ _ (sound_updateNode ht u)]
        simp only [hasNode_updateNode ht]
        rw [List.length_cons, List.foldl_cons, Nat.add_right_comm, Nat.add_assoc]
      | false => rw [if_neg Bool.false_ne_true, if_neg Bool.false_ne_true, ih _ _ ht]
  rw [Backend.putUpdates, go us 0 s hs, Nat.zero_add]

theorem contents_foldl_updateNode (hs : Sound s) (us : List PropertyUpdate) :
    contents (us.foldl Backend.updateNode s) = (contents s).updateNodes (settle σ) us := by
  induction us generalizing s with
  | nil => rfl
  | cons u us ih =>
    rw [List.foldl_cons, ih (sound_updateNode hs u), contents_updateNode hs u]
    rfl

theorem putProperties_fst (hs : Sound s) (g : Graph) : (Store.putProperties s g).1 =
    (g.nodes.filter fun n => n.id ≠ "" && Backend.hasNode s n.id).length := by
  have hcount : (Store.putProperties s g).1 =
      ((Store.updatesOf g).filter fun u => Backend.hasNode s u.id).length := by
    rw [Store.putProperties, putUpdates_eq hs]
  rw [hcount, Store.updatesOf, List.filter_map, List.length_map, List.filter_filter]
  apply congrArg List.length
  apply List.filter_congr
  intro n _
  exact Bool.and_comm ..

/-- A stored node is updated with all that the graph brings for its id. -/
theorem node?_putProperties (hs : Sound s) (g : Graph) (id : String) :
    (contents (Store.putProperties s g).2).node? id = ((contents s).node? id).map fun n =>
      { n with
        properties := n.properties.updated (settle σ)
          ((g.nodesAt id).map fun n => n.properties.mark) } := by
  rw [Store.putProperties, putUpdates_eq hs, contents_foldl_updateNode hs,
    Contents.node?_updateNodes, ← updatesOf_filter, List.filter_filter]
  cases hn : (contents s).node? id with
  | none => rfl
  | some n =>
    have hstored : Backend.hasNode s id = true := Option.isSome_iff_exists.2 ⟨n, hn⟩
    have hfilter : ((Store.updatesOf g).filter fun u =>
        decide (u.id = id) && Backend.hasNode s u.id) =
          (Store.updatesOf g).filter fun u => u.id = id := by
      apply List.filter_congr
      intro u _
      by_cases hid : u.id = id
      · rw [hid, hstored, Bool.and_true]
      · rw [decide_eq_false hid, Bool.false_and]
    rw [hfilter]

theorem edge?_putProperties (hs : Sound s) (g : Graph) :
    (contents (Store.putProperties s g).2).edge? = (contents s).edge? := by
  rw [Store.putProperties, putUpdates_eq hs, contents_foldl_updateNode hs,
    Contents.edge?_updateNodes]

theorem overlaid_putProperties (hs : Sound s) (g : Graph) :
    (contents s).Overlaid (settle σ) g (contents (Store.putProperties s g).2) := by
  have hnode := node?_putProperties hs g
  constructor
  case decided =>
    intro id key before after n v hstored hkey hsplit hv hafter
    obtain ⟨m, hm⟩ := Option.isSome_iff_exists.1 hstored
    have hmark : n.properties.mark.get? key = some v.markEmpty := by
      rw [Properties.mark, KeyMap.get?_mapValues, hv, Option.map_some]
    rw [Contents.value?, hnode, hm, Option.map_some, Option.bind_some, hsplit, List.map_append,
      List.map_cons, Properties.get?_updated_of_last hkey hmark, List.length_map,
      Json.isNull_markEmpty]
    rw [List.forall_mem_map]
    intro w hw
    rw [Properties.mark, KeyMap.get?_mapValues, hafter w hw, Option.map_none]
  case unmentioned =>
    intro id key hnone
    rw [Contents.value?, Contents.value?, hnode, Option.bind_map, Option.map_bind]
    congr 1
    funext n
    show (n.properties.updated _ _).get? key = (n.properties.get? key).map _
    rw [Properties.get?_updated_of_unmentioned, List.length_map]
    rw [List.forall_mem_map]
    refine hnone.imp_right fun hnone w hw => ?_
    rw [Properties.mark, KeyMap.get?_mapValues, hnone w hw, Option.map_none]
  case isSome_node? =>
    intro id
    rw [hnode, Option.isSome_map]
  case labels =>
    intro id
    rw [Contents.labels, Contents.labels, hnode]
    cases (contents s).node? id <;> rfl
  case node?_of_unnamed =>
    intro id hid
    rw [hnode, hid]
    exact Option.map_id'
  case edge? => exact edge?_putProperties hs g

end

/-! ## The same updates again -/

/-- A backend whose layout is left alone by updates. -/
class SteadyBackend (σ : Type) extends LaidOutBackend σ where
  layout_updateNode (s : σ) (u : PropertyUpdate) :
    LaidOutBackend.layout (Backend.updateNode s u) = LaidOutBackend.layout s

instance : SteadyBackend TableStore where
  layout_updateNode s u := by
    show TableStore.Layout.mk (s.updateNode u).ids _ _ = _
    rw [TableStore.ids_updateNode]
    rfl

instance : SteadyBackend AdjacencyStore where
  layout_updateNode s u := by
    show (s.updateNode u).layout = s.layout
    rw [AdjacencyStore.updateNode]
    split
    · next place _ =>
      show AdjacencyStore.Layout.mk (s.places.modify place _).length _ _ _ = _
      rw [List.length_modify]
      rfl
    · rfl

section

variable {σ : Type} [SteadyBackend σ] {s : σ}

open LaidOutBackend SteadyBackend

theorem layout_foldl_updateNode (s : σ) (us : List PropertyUpdate) :
    layout (us.foldl Backend.updateNode s) = layout s := by
  induction us generalizing s with
  | nil => rfl
  | cons u us ih => rw [List.foldl_cons, ih, layout_updateNode]

namespace Valid

theorem putProperties (hs : Valid s) (g : Graph) : Valid (Store.putProperties s g).2 :=
  hs.putUpdates (Store.updatesOf_ne_nil g)

theorem putProperties_twice_fst (hs : Valid s) (g : Graph) :
    (Store.putProperties (Store.putProperties s g).2 g).1 = (Store.putProperties s g).1 := by
  have hstored : Backend.hasNode (Store.putProperties s g).2 = Backend.hasNode s :=
    funext (overlaid_putProperties hs.sound g).isSome_node?
  rw [putProperties_fst (hs.putProperties g).sound, putProperties_fst hs.sound, hstored]

/-- The same updates leave the store as it is exactly if the values that they do not mention
settle. -/
theorem putProperties_twice_iff (hs : Valid s) (g : Graph) :
    (Store.putProperties (Store.putProperties s g).2 g).2 = (Store.putProperties s g).2 ↔
      (contents s).SettlesUnmentioned (LawfulBackend.settle σ) g := by
  have ht := hs.putProperties g
  have hu := ht.putProperties g
  have hfirst := overlaid_putProperties hs.sound g
  have hsecond := overlaid_putProperties ht.sound g
  rw [← hfirst.twice_iff hsecond]
  constructor
  · intro h
    rw [h]
    exact fun _ _ => rfl
  · intro hvalues
    apply eq_of_layout_eq hu.sound ht.sound
    · rw [Store.putProperties, putUpdates_eq ht.sound]
      exact layout_foldl_updateNode _ _
    · apply Contents.ext
      · funext id
        exact hu.wellFormed.node?_eq ht.wellFormed (hsecond.isSome_node? id) (hsecond.labels id)
          (hvalues id)
      · exact hsecond.edge?

end Valid

end

/-! ## Updates that are refused -/

section

variable {σ : Type} [LawfulBackend σ] {s : σ} {g : Graph}

/-- What the updates of stored nodes bring can be read again. -/
def Graph.UpdatesLegible (g : Graph) (s : σ) : Prop :=
  ∀ n ∈ g.nodes, n.id ≠ "" → Backend.hasNode s n.id = true →
    Backend.legible σ (Properties.update .empty n.properties.mark) = true

theorem Graph.IsLegible.updatesLegible (hg : g.IsLegible σ) (s : σ) : g.UpdatesLegible s := by
  intro n hn hid _
  exact hg.updatesOf _ (List.mem_map_of_mem (List.mem_filter.2 ⟨hn, by simpa using hid⟩))

namespace Valid

/-- A batch of updates is applied, unless it is blocked. -/
theorem updateProperties_eq (hs : Valid s) (hfree : ¬UpdatesBlocked s (Store.updatesOf g)) :
    Store.updateProperties s g = .ok (Store.putProperties s g) := by
  rw [Store.updateProperties, hs.updateNodes_eq (Store.updatesOf_ne_nil g), if_neg hfree]
  rfl

theorem updateProperties_of_blocked (hs : Valid s)
    (hblocked : UpdatesBlocked s (Store.updatesOf g)) :
    Store.updateProperties s g = .error .unreadable := by
  rw [Store.updateProperties, hs.updateNodes_eq (Store.updatesOf_ne_nil g), if_pos hblocked]

/-- After a batch of updates, the same batch is blocked exactly if it brought what cannot be read. -/
theorem updatesBlocked_again_iff (hs : Valid s) (hfree : ¬UpdatesBlocked s (Store.updatesOf g)) :
    UpdatesBlocked (Store.putProperties s g).2 (Store.updatesOf g) ↔ ¬g.UpdatesLegible s := by
  have hkeyed := keyedWrites_updates σ
  have hne := Store.updatesOf_ne_nil g
  have hstored : (fun u : PropertyUpdate => Backend.hasNode (Store.putProperties s g).2 u.id) =
      fun u => Backend.hasNode s u.id :=
    (hkeyed.foldl_keeps (b := (0, s)) hs hne).2
  rw [UpdatesBlocked, hstored]
  refine (hkeyed.blocked_again_iff (b := (0, s)) hs hne hfree fun u hu => ?_).trans ?_
  · have hnode : Backend.hasNode (Store.putProperties s g).2 u.id = true :=
      (congrFun hstored u).trans (List.mem_filter.1 hu).2
    obtain ⟨m, hm⟩ := Option.isSome_iff_exists.1 hnode
    exact ⟨m.properties, congrArg (Option.map StoredNode.properties) hm⟩
  · constructor
    · rintro ⟨u, hu, hnot⟩ hlegible
      obtain ⟨hu, hnode⟩ := List.mem_filter.1 hu
      obtain ⟨n, hn, rfl⟩ := List.mem_map.1 hu
      obtain ⟨hn, hid⟩ := List.mem_filter.1 hn
      rw [hlegible n hn (by simpa using hid) hnode] at hnot
      cases hnot
    · intro hnot
      by_contra hall
      refine hnot fun n hn hid hnode => Bool.of_not_eq_false fun hbad => hall ?_
      refine ⟨⟨n.id, n.properties.mark⟩, List.mem_filter.2 ⟨?_, hnode⟩, hbad⟩
      exact List.mem_map_of_mem (List.mem_filter.2 ⟨hn, by simpa using hid⟩)

end Valid

end

/-! ## What updates do -/

/-- What a batch of updates does to a store, where each update settles values: a number and the store
afterwards. -/
structure Overlays {σ : Type} [ListedBackend σ] (settle : Json → Json) (s : σ) (g : Graph)
    (r : Nat × σ) : Prop where
  overlaid : (contents s).Overlaid settle g (contents r.2)
  /-- Updates of stored nodes count. -/
  count : r.1 = (g.nodes.filter fun n => n.id ≠ "" && Backend.hasNode s n.id).length

theorem Valid.overlays {σ : Type} [LawfulBackend σ] {s : σ} (hs : Valid s) (g : Graph) :
    Overlays (LawfulBackend.settle σ) s g (Store.putProperties s g) :=
  ⟨overlaid_putProperties hs.sound g, putProperties_fst hs.sound g⟩

/-- A batch of updates decides what it mentions by the last mention and leaves the rest alone.  Again
it does the same, and counts the same; in memory it then changes nothing, in tables it does not
exactly if what it leaves in place settles.  In tables a batch that meets what cannot be read is
refused and changes nothing; one that was applied meets it exactly if it brought it. -/
theorem last_update_wins {s : AdjacencyStore} {t : TableStore} (hs : Reachable s)
    (ht : Reachable t) (g : Graph) :
    (∃ r, Store.updateProperties s g = .ok r ∧ Overlays id s g r ∧
      Store.updateProperties r.2 g = .ok r) ∧
    (UpdatesBlocked t (Store.updatesOf g) →
      (Operation.updateProperties g).perform t = (.updated (.error .unreadable), t)) ∧
    (¬UpdatesBlocked t (Store.updatesOf g) →
      ∃ r, Store.updateProperties t g = .ok r ∧ Overlays Json.reread t g r ∧
        (¬g.UpdatesLegible t → Store.updateProperties r.2 g = .error .unreadable) ∧
        (g.UpdatesLegible t → ∃ u, Store.updateProperties r.2 g = .ok (r.1, u) ∧
          (u = r.2 ↔ (contents t).SettlesUnmentioned Json.reread g))) := by
  refine ⟨⟨_, hs.valid.updateProperties_eq (not_updatesBlocked _ _), hs.valid.overlays g, ?_⟩,
    fun hblocked => ?_, fun hfree => ?_⟩
  · rw [(hs.valid.putProperties g).updateProperties_eq (not_updatesBlocked _ _)]
    exact congrArg Except.ok (Prod.ext (hs.valid.putProperties_twice_fst g)
      ((hs.valid.putProperties_twice_iff g).2 (Contents.settlesUnmentioned_id _ g)))
  · rw [Operation.perform, ht.valid.updateProperties_of_blocked hblocked]
    rfl
  · have hagain := ht.valid.updatesBlocked_again_iff hfree
    have hput := ht.valid.putProperties g
    refine ⟨_, ht.valid.updateProperties_eq hfree, ht.valid.overlays g,
      fun hnot => hput.updateProperties_of_blocked (hagain.2 hnot), fun hlegible => ?_⟩
    refine ⟨_, ?_, ht.valid.putProperties_twice_iff g⟩
    rw [hput.updateProperties_eq fun hblocked => hagain.1 hblocked hlegible]
    exact congrArg Except.ok (Prod.ext (ht.valid.putProperties_twice_fst g) rfl)

/-- Updates of a file that remove its size and write it again, with a new id that is not taken over,
and others that find no node. -/
def Graph.resized : Graph where
  nodes := [⟨"f", [], KeyMap.empty.insert "contentSize" .null⟩,
    ⟨"x", [], KeyMap.empty.insert "contentSize" .null⟩,
    ⟨"f", ["Dataset"], (KeyMap.empty.insert "contentSize" (.arr [])).insert "id" (.str "g")⟩,
    ⟨"", [], .empty⟩]
  edges := [.plain "a" "b" "distribution"]

/-- Over two datasets that share the file they are decided by the last of them, and again they change
nothing. -/
theorem last_update_wins_sharing :
    (Reachable (sharing ["a", "b"] : AdjacencyStore) ∧
      ∃ r, Store.updateProperties (sharing ["a", "b"] : AdjacencyStore) .resized = .ok r ∧
        Overlays id (sharing ["a", "b"]) .resized r ∧
        Store.updateProperties r.2 .resized = .ok r) ∧
    Reachable (sharing ["a", "b"] : TableStore) ∧
      ¬UpdatesBlocked (sharing ["a", "b"] : TableStore) (Store.updatesOf .resized) ∧
      Graph.resized.UpdatesLegible (sharing ["a", "b"] : TableStore) ∧
      ∃ r, Store.updateProperties (sharing ["a", "b"] : TableStore) .resized = .ok r ∧
        Overlays Json.reread (sharing ["a", "b"]) .resized r ∧
        Store.updateProperties r.2 .resized = .ok r := by
  have hmemory := reachable_sharing (σ := AdjacencyStore) ["a", "b"]
  have htables := reachable_sharing (σ := TableStore) ["a", "b"]
  have hg : Graph.resized.IsLegible TableStore := ⟨by decide +kernel, by decide +kernel⟩
  have hfree := (legible_sharing ["a", "b"]).not_updatesBlocked htables.valid hg.updatesOf
  obtain ⟨hwins, _, hwins'⟩ := last_update_wins hmemory htables .resized
  obtain ⟨r, hr, hoverlays, _, hagain⟩ := hwins' hfree
  obtain ⟨u, hu, hiff⟩ := hagain (hg.updatesLegible _)
  rw [hiff.2 ((survives_contents_sharing ["a", "b"]).settlesUnmentioned .resized)] at hu
  exact ⟨⟨hmemory, hwins⟩, htables, hfree, hg.updatesLegible _, r, hr, hoverlays, hu⟩

/-- An update of the dataset with the restless double that does not mention it. -/
def Graph.renamed : Graph where
  nodes := [⟨"n", [], KeyMap.empty.insert "name" (.str "N")⟩]
  edges := []

/-- In tables an update may change a value that it does not mention, and change it back when it is
applied again. -/
theorem update_moves_double :
    Reachable restless ∧
    ∃ r u, Store.updateProperties restless .renamed = .ok r ∧
      (contents r.2).value? "n" "v" ≠ (contents restless).value? "n" "v" ∧
      Store.updateProperties r.2 .renamed = .ok u ∧ u.2 ≠ r.2 := by
  have hreachable : Reachable restless := .perform .empty (.ingest .restless)
  have hg : Graph.renamed.IsLegible TableStore := ⟨by decide +kernel, by decide +kernel⟩
  have hfree := legible_restless.not_updatesBlocked hreachable.valid hg.updatesOf
  have hput := legible_restless.putUpdates hreachable.valid (Store.updatesOf_ne_nil .renamed)
    hg.updatesOf
  have hvalid := hreachable.valid.putProperties .renamed
  refine ⟨hreachable, Store.putProperties restless .renamed, _,
    hreachable.valid.updateProperties_eq hfree, ?_,
    hvalid.updateProperties_eq (hput.not_updatesBlocked hvalid hg.updatesOf), ?_⟩
  · decide +kernel
  · decide +kernel

end DatasetGraph
