import DatasetGraph.Proofs.Store.Ingest

/-!
# Passes

An ingest is two transactions, one for the nodes of a graph and one for its edges.  Between the two
another client may get a turn, so when clients take graphs in at the same time, the store sees the
passes of each in their order, but *interleaved* (`Interleaves`).

A sequence of passes is *ready* for a store if the ends of every relationship are stored by the time
its pass comes.  Then all of it is written and none is passed over, and what is left is the same as
if all nodes had come before all relationships (`Valid.run_passes`).  The one thing that can come in
between is that something is merged into what cannot be read (`PassesBlocked`), and then the passes
are cut short at the first that meets it (`Valid.cutShort`).  Each client on its own being ready, so
is every interleaving of them (`Interleaves.ready`), since the other client takes no node away.
-/

namespace DatasetGraph

/-! ## Interleavings -/

/-- A list that is made up of two others, the members of each in their order. -/
inductive Interleaves {α : Type} : List α → List α → List α → Prop where
  | nil : Interleaves [] [] []
  | left {x : α} {xs ys zs : List α} (h : Interleaves xs ys zs) :
    Interleaves (x :: xs) ys (x :: zs)
  | right {y : α} {xs ys zs : List α} (h : Interleaves xs ys zs) :
    Interleaves xs (y :: ys) (y :: zs)

namespace Interleaves

variable {α β γ : Type} {xs ys zs : List α}

theorem left_nil : ∀ ys : List α, Interleaves [] ys ys
  | [] => .nil
  | _ :: ys => .right (left_nil ys)

/-- One list after the other. -/
theorem append : ∀ xs ys : List α, Interleaves xs ys (xs ++ ys)
  | [], ys => left_nil ys
  | _ :: xs, ys => .left (append xs ys)

theorem swap (h : Interleaves xs ys zs) : Interleaves ys xs zs := by
  induction h with
  | nil => exact .nil
  | left _ ih => exact .right ih
  | right _ ih => exact .left ih

theorem mem_iff (h : Interleaves xs ys zs) {z : α} : z ∈ zs ↔ z ∈ xs ∨ z ∈ ys := by
  induction h with
  | nil => simp
  | left _ ih => simp [ih, or_assoc]
  | right _ ih => simp [ih, or_left_comm]

theorem filterMap (h : Interleaves xs ys zs) (f : α → Option β) :
    Interleaves (xs.filterMap f) (ys.filterMap f) (zs.filterMap f) := by
  induction h with
  | nil => exact .nil
  | @left x _ _ _ _ ih =>
    cases hx : f x with
    | none => rwa [List.filterMap_cons_none hx, List.filterMap_cons_none hx]
    | some b =>
      rw [List.filterMap_cons_some hx, List.filterMap_cons_some hx]
      exact ih.left
  | @right y _ _ _ _ ih =>
    cases hy : f y with
    | none => rwa [List.filterMap_cons_none hy, List.filterMap_cons_none hy]
    | some b =>
      rw [List.filterMap_cons_some hy, List.filterMap_cons_some hy]
      exact ih.right

/-- Of two single members, one comes first. -/
theorem eq_of_singletons {x y : α} (h : Interleaves [x] [y] zs) : zs = [x, y] ∨ zs = [y, x] := by
  cases h with
  | left h =>
    cases h with
    | right h =>
      cases h
      exact .inl rfl
  | right h =>
    cases h with
    | left h =>
      cases h
      exact .inr rfl

/-- What single members of the two lists bring comes in either order, if no other member brings
anything. -/
theorem flatMap_eq {part : α → Option β} {brings : β → List γ} {a b : β}
    (h : Interleaves xs ys zs) (ha : xs.filterMap part = [a]) (hb : ys.filterMap part = [b]) :
    (zs.flatMap fun z => (part z).elim [] brings) = brings a ++ brings b ∨
      (zs.flatMap fun z => (part z).elim [] brings) = brings b ++ brings a := by
  have hparts : ∀ zs : List α,
      (zs.flatMap fun z => (part z).elim [] brings) = (zs.filterMap part).flatMap brings := by
    intro zs
    induction zs with
    | nil => rfl
    | cons z zs ih =>
      rw [List.flatMap_cons, ih]
      cases hz : part z with
      | none => rw [List.filterMap_cons_none hz, Option.elim_none, List.nil_append]
      | some b => rw [List.filterMap_cons_some hz, List.flatMap_cons, Option.elim_some]
  have hzs := h.filterMap part
  rw [ha, hb] at hzs
  rw [hparts]
  rcases hzs.eq_of_singletons with heq | heq
  · exact .inl (by simp [heq])
  · exact .inr (by simp [heq])

end Interleaves

/-! ## Passes -/

/-- One of the two transactions in which a graph is taken in. -/
inductive Pass where
  | nodes (g : Graph)
  | edges (g : Graph)

/-- The passes of an ingest. -/
def Graph.passes (g : Graph) : List Pass := [.nodes g, .edges g]

namespace Pass

/-- The graph from which the pass comes. -/
def graph : Pass → Graph
  | nodes g | edges g => g

/-- The operation that a pass is. -/
def operation : Pass → Operation
  | nodes g => .upsertNodes g
  | edges g => .upsertEdges g

/-- What is answered if nothing is passed over but nodes without an id and edges without labels. -/
def reply : Pass → Reply
  | nodes g => .written (.ok ⟨(g.nodes.filter fun n => n.id ≠ "").length,
      (g.nodes.filter fun n => n.id = "").length⟩)
  | edges g => .written (.ok ⟨(g.edges.map fun e => e.labels.length).sum,
      (g.edges.filter fun e => e.labels.isEmpty).length⟩)

/-- The graph of a pass over nodes. -/
def nodesOf? : Pass → Option Graph
  | nodes g => some g
  | edges _ => none

/-- The graph of a pass over edges. -/
def edgesOf? : Pass → Option Graph
  | nodes _ => none
  | edges g => some g

/-- The nodes that a pass writes. -/
def storedNodes (p : Pass) : List StoredNode := p.nodesOf?.elim [] Graph.storedNodes

/-- The relationships that a pass writes. -/
def storedEdges (p : Pass) : List StoredEdge := p.edgesOf?.elim [] Graph.storedEdges

/-- The ends of every relationship are known by the time its pass comes. -/
def Ready : (String → Prop) → List Pass → Prop
  | _, [] => True
  | known, p :: ps =>
    (∀ e ∈ p.storedEdges, known e.source ∧ known e.target) ∧
      Ready (fun id => known id ∨ id ∈ p.storedNodes.map StoredNode.id) ps

theorem Ready.mono {known known' : String → Prop} {ps : List Pass} (h : Ready known ps)
    (hknown : ∀ id, known id → known' id) : Ready known' ps := by
  induction ps generalizing known known' with
  | nil => trivial
  | cons p ps ih =>
    obtain ⟨hends, hrest⟩ := h
    refine ⟨fun e he => (hends e he).imp (hknown _) (hknown _), ih hrest ?_⟩
    exact fun id => Or.imp_left (hknown id)

end Pass

/-- If two clients are ready, so are they together. -/
theorem Interleaves.ready {ps qs rs : List Pass} (h : Interleaves ps qs rs)
    {known : String → Prop} (hps : Pass.Ready known ps) (hqs : Pass.Ready known qs) :
    Pass.Ready known rs := by
  induction h generalizing known with
  | nil => trivial
  | left _ ih => exact ⟨hps.1, ih hps.2 (hqs.mono fun _ => .inl)⟩
  | right _ ih => exact ⟨hqs.1, ih (hps.mono fun _ => .inl) hqs.2⟩

/-! ## Runs of passes -/

namespace Contents

variable {settle : Json → Json} {c : Contents}

theorem mergeNodes_append (ns ms : List StoredNode) :
    c.mergeNodes settle (ns ++ ms) = (c.mergeNodes settle ns).mergeNodes settle ms :=
  List.foldl_append

theorem layEdges_append (es fs : List StoredEdge) :
    c.layEdges settle (es ++ fs) = (c.layEdges settle es).layEdges settle fs :=
  List.foldl_append

theorem mergeNodes_mergeEdge (ns : List StoredNode) (e : StoredEdge) :
    (c.mergeEdge settle e).mergeNodes settle ns = (c.mergeNodes settle ns).mergeEdge settle e := by
  induction ns generalizing c with
  | nil => rfl
  | cons n ns ih => exact ih (c := c.mergeNode settle n)

/-- What joins stored nodes still does when nodes are added. -/
theorem joins_mergeNodes {e : StoredEdge} (h : c.joins e = true) (ns : List StoredNode) :
    (c.mergeNodes settle ns).joins e = true := by
  obtain ⟨source, target⟩ := Bool.and_eq_true_iff.1 h
  rw [joins, Bool.and_eq_true_iff, isSome_node?_mergeNodes, isSome_node?_mergeNodes]
  exact ⟨.inl source, .inl target⟩

/-- Nodes and relationships do not get in each other's way. -/
theorem mergeNodes_layEdges (ns : List StoredNode) (es : List StoredEdge) :
    (c.layEdges settle es).mergeNodes settle ns = (c.mergeNodes settle ns).layEdges settle es := by
  induction es generalizing c with
  | nil => rfl
  | cons e es ih =>
    show ((c.mergeEdge settle e).layEdges settle es).mergeNodes settle ns = _
    rw [ih, mergeNodes_mergeEdge]
    rfl

end Contents

section

variable {σ : Type} [Backend σ]

/-- The store with what a pass writes laid over it. -/
def Pass.put (s : σ) (p : Pass) : σ :=
  (Backend.putEdges (Backend.putNodes s p.storedNodes).2 p.storedEdges).2

/-- Something that a pass writes is merged into what cannot be read. -/
def Pass.Blocked (s : σ) (p : Pass) : Prop :=
  NodesBlocked s p.storedNodes ∨ EdgesBlocked s p.storedEdges

/-- Something that passes write, one after the other, is merged into what cannot be read. -/
def PassesBlocked (s : σ) (ps : List Pass) : Prop :=
  NodesBlocked s (ps.flatMap Pass.storedNodes) ∨
    EdgesBlocked (Backend.putNodes s (ps.flatMap Pass.storedNodes)).2 (ps.flatMap Pass.storedEdges)

@[simp] theorem not_passesBlocked [Backend.ReadsAll σ] (s : σ) (ps : List Pass) :
    ¬PassesBlocked s ps :=
  fun h => h.elim not_blocked not_blocked

/-- The passes are written whole up to one that is refused, because something cannot be read. -/
def CutShort (s : σ) (ps : List Pass) : Prop :=
  ∃ done p rest replies, ps = done ++ p :: rest ∧
    (run s (ps.map Pass.operation)).1 =
      done.map Pass.reply ++ .written (.error .unreadable) :: replies

end

section

variable {σ : Type} [LawfulBackend σ] {s : σ}

open LawfulBackend (settle)

namespace Pass

variable {p : Pass}

theorem wellFormed_storedNodes (hp : p.graph.IsWritable) : ∀ n ∈ p.storedNodes, n.WellFormed := by
  cases p with
  | nodes g => exact hp.nodes.wellFormed
  | edges g => exact nofun

theorem wellFormed_storedEdges (hp : p.graph.IsWritable) : ∀ e ∈ p.storedEdges, e.WellFormed := by
  cases p with
  | nodes g => exact nofun
  | edges g => exact hp.edges.wellFormed

theorem wellFormed_storedNodes_of_forall {ps : List Pass} (hps : ∀ p ∈ ps, p.graph.IsWritable) :
    ∀ n ∈ ps.flatMap Pass.storedNodes, n.WellFormed := by
  intro n hn
  obtain ⟨p, hp, hn⟩ := List.mem_flatMap.1 hn
  exact wellFormed_storedNodes (hps p hp) n hn

theorem wellFormed_storedEdges_of_forall {ps : List Pass} (hps : ∀ p ∈ ps, p.graph.IsWritable) :
    ∀ e ∈ ps.flatMap Pass.storedEdges, e.WellFormed := by
  intro e he
  obtain ⟨p, hp, he⟩ := List.mem_flatMap.1 he
  exact wellFormed_storedEdges (hps p hp) e he

end Pass

namespace Valid

theorem put (hs : Valid s) {p : Pass} (hp : p.graph.IsWritable) : Valid (p.put s) :=
  (hs.putNodes (p.wellFormed_storedNodes hp)).putEdges (p.wellFormed_storedEdges hp)

/-- A pass is written whole if what it joins is stored. -/
theorem contents_put (hs : Valid s) {p : Pass} (hp : p.graph.IsWritable)
    (hjoins : ∀ e ∈ p.storedEdges, (contents s).joins e = true) : contents (p.put s) =
      ((contents s).mergeNodes (settle σ) p.storedNodes).layEdges (settle σ) p.storedEdges := by
  have hnodes := hs.contents_putNodes (p.wellFormed_storedNodes hp)
  rw [Pass.put, (hs.putNodes (p.wellFormed_storedNodes hp)).contents_putEdges
    (p.wellFormed_storedEdges hp), hnodes, Contents.mergeEdges, List.filter_eq_self.2]
  · rfl
  · exact fun e he => Contents.joins_mergeNodes (hjoins e he) _

/-- Whoever is ready still is after a pass. -/
theorem ready_put (hs : Valid s) {p : Pass} {ps : List Pass} (hp : p.graph.IsWritable)
    (hjoins : ∀ e ∈ p.storedEdges, (contents s).joins e = true)
    (hready : Pass.Ready (fun id => ((contents s).node? id).isSome = true ∨
      id ∈ p.storedNodes.map StoredNode.id) ps) :
    Pass.Ready (fun id => ((contents (p.put s)).node? id).isSome = true) ps := by
  apply hready.mono
  intro id hid
  rw [hs.contents_put hp hjoins, Contents.node?_layEdges, Contents.isSome_node?_mergeNodes]
  exact hid

/-- A pass all of whose relationships join stored nodes is written whole, unless it is blocked. -/
theorem perform_pass (hs : Valid s) {p : Pass} (hp : p.graph.IsWritable)
    (hjoins : ∀ e ∈ p.storedEdges, (contents s).joins e = true) (hfree : ¬p.Blocked s) :
    p.operation.perform s = (p.reply, p.put s) := by
  obtain ⟨hnodes, hedges⟩ := not_or.1 hfree
  cases p with
  | nodes g =>
    have hg : g.IsWritable := hp
    rw [Pass.operation, Operation.perform, hs.upsertNodes_eq hg.nodes hnodes]
    show (Reply.written (.ok ⟨g.storedNodes.length, _⟩), _) = _
    rw [Graph.storedNodes, List.length_map]
    rfl
  | edges g =>
    have hg : g.IsWritable := hp
    have hall : g.storedEdges.filter (contents s).joins = g.storedEdges :=
      List.filter_eq_self.2 hjoins
    have hnone : (g.storedEdges.filter fun e => !(contents s).joins e) = [] := by
      rw [List.filter_eq_nil_iff]
      intro e he
      rw [hjoins e he]
      decide
    have hput := hs.putEdges_eq hg.edges.wellFormed
    rw [hall, hnone] at hput
    rw [Pass.operation, Operation.perform, hs.upsertEdges_eq hg.edges hedges, hput]
    show (Reply.written (.ok ⟨g.storedEdges.length, 0 + _⟩), _) =
      (Pass.reply (.edges g), (Backend.putEdges s g.storedEdges).2)
    rw [hput, g.length_storedEdges, Nat.zero_add]
    rfl

/-- A pass that is blocked is refused. -/
theorem perform_pass_of_blocked (hs : Valid s) {p : Pass} (hp : p.graph.IsWritable)
    (hblocked : p.Blocked s) : (p.operation.perform s).1 = .written (.error .unreadable) := by
  cases p with
  | nodes g =>
    have hg : g.IsWritable := hp
    have hnodes : NodesBlocked s g.storedNodes := hblocked.resolve_right not_blocked_nil
    rw [Pass.operation, Operation.perform, hs.upsertNodes_of_blocked hg.nodes hnodes]
    rfl
  | edges g =>
    have hg : g.IsWritable := hp
    have hedges : EdgesBlocked s g.storedEdges := hblocked.resolve_left not_blocked_nil
    rw [Pass.operation, Operation.perform, hs.upsertEdges_of_blocked hg.edges hedges]
    rfl

/-- Of passes, the first is blocked or else the others are after it. -/
theorem passesBlocked_cons_iff (hs : Valid s) {p : Pass} {ps : List Pass}
    (hps : ∀ q ∈ p :: ps, q.graph.IsWritable)
    (hjoins : ∀ e ∈ p.storedEdges, (contents s).joins e = true) :
    PassesBlocked s (p :: ps) ↔ p.Blocked s ∨ PassesBlocked (p.put s) ps := by
  obtain ⟨hp, hps⟩ := List.forall_mem_cons.1 hps
  have hns := p.wellFormed_storedNodes hp
  have hes := p.wellFormed_storedEdges hp
  have hms := Pass.wellFormed_storedNodes_of_forall hps
  have hfs := Pass.wellFormed_storedEdges_of_forall hps
  have hput := hs.put hp
  have hcontents := hs.contents_put hp hjoins
  -- What the pass joins is stored already, whatever nodes come later.
  have hlater : Valid (Backend.putNodes s (p.storedNodes ++ ps.flatMap Pass.storedNodes)).2 :=
    hs.putNodes (List.forall_mem_append.2 ⟨hns, hms⟩)
  have hlaterContents := hs.contents_putNodes (List.forall_mem_append.2 ⟨hns, hms⟩)
  have hjoinsLater : ∀ e ∈ p.storedEdges,
      (contents (Backend.putNodes s (p.storedNodes ++ ps.flatMap Pass.storedNodes)).2).joins e =
        true := by
    intro e he
    rw [hlaterContents]
    exact Contents.joins_mergeNodes (hjoins e he) _
  have hedges : EdgesBlocked
      (Backend.putNodes s (p.storedNodes ++ ps.flatMap Pass.storedNodes)).2 p.storedEdges ↔
        EdgesBlocked s p.storedEdges := by
    apply hlater.edgesBlocked_congr hs
    · exact fun e he => (hjoinsLater e he).trans (hjoins e he).symm
    · rw [hlaterContents, Contents.edge?_mergeNodes]
  rw [PassesBlocked, List.flatMap_cons, List.flatMap_cons]
  by_cases hblocked : p.Blocked s
  · refine iff_of_true ?_ (.inl hblocked)
    rcases hblocked with h | h
    · exact .inl (h.append _)
    · refine .inr ?_
      rw [EdgesBlocked, List.filter_append]
      exact Blocked.append (hedges.2 h) _
  · rw [or_iff_right hblocked]
    obtain ⟨hnodesFree, hedgesFree⟩ := not_or.1 hblocked
    apply or_congr
    · rw [hs.nodesBlocked_append_iff hns hms hnodesFree]
      apply nodesBlocked_congr
      rw [hcontents, Contents.node?_layEdges, hs.contents_putNodes hns]
    · rw [hlater.edgesBlocked_append_iff hes hfs (mt hedges.1 hedgesFree)]
      have hsame : contents (Backend.putEdges
          (Backend.putNodes s (p.storedNodes ++ ps.flatMap Pass.storedNodes)).2 p.storedEdges).2 =
          contents (Backend.putNodes (p.put s) (ps.flatMap Pass.storedNodes)).2 := by
        rw [hlater.contents_putEdges hes, Contents.mergeEdges, List.filter_eq_self.2 hjoinsLater,
          hlaterContents, hput.contents_putNodes hms, hcontents, Contents.mergeNodes_layEdges,
          Contents.mergeNodes_append]
        rfl
      apply (hlater.putEdges hes).edgesBlocked_congr (hput.putNodes hms)
      · exact fun e _ => congrArg (fun c => Contents.joins c e) hsame
      · rw [hsame]

/-- Passes that are ready are written whole, unless they are blocked, and their order does not matter
but among nodes and among relationships. -/
theorem run_passes (hs : Valid s) {ps : List Pass} (hps : ∀ p ∈ ps, p.graph.IsWritable)
    (hready : Pass.Ready (fun id => ((contents s).node? id).isSome = true) ps)
    (hfree : ¬PassesBlocked s ps) :
    (run s (ps.map Pass.operation)).1 = ps.map Pass.reply ∧
      Valid (run s (ps.map Pass.operation)).2 ∧
      contents (run s (ps.map Pass.operation)).2 =
        ((contents s).mergeNodes (settle σ) (ps.flatMap Pass.storedNodes)).layEdges (settle σ)
          (ps.flatMap Pass.storedEdges) := by
  induction ps generalizing s with
  | nil => exact ⟨rfl, hs, rfl⟩
  | cons p ps ih =>
    obtain ⟨hends, hrest⟩ := hready
    have hjoins : ∀ e ∈ p.storedEdges, (contents s).joins e = true :=
      fun e he => Bool.and_eq_true_iff.2 (hends e he)
    rw [hs.passesBlocked_cons_iff hps hjoins, not_or] at hfree
    obtain ⟨hp, hps⟩ := List.forall_mem_cons.1 hps
    have hperform := hs.perform_pass hp hjoins hfree.1
    have hcontents := hs.contents_put hp hjoins
    obtain ⟨hreplies, hvalid, hlast⟩ := ih (hs.put hp) hps (hs.ready_put hp hjoins hrest) hfree.2
    rw [List.map_cons, run, hperform]
    refine ⟨congrArg (p.reply :: ·) hreplies, hvalid, ?_⟩
    show contents (run (p.put s) (ps.map Pass.operation)).2 = _
    rw [hlast, hcontents, Contents.mergeNodes_layEdges, List.flatMap_cons, List.flatMap_cons,
      Contents.mergeNodes_append, Contents.layEdges_append]

/-- If passes that are ready are blocked, they are cut short. -/
theorem cutShort (hs : Valid s) {ps : List Pass} (hps : ∀ p ∈ ps, p.graph.IsWritable)
    (hready : Pass.Ready (fun id => ((contents s).node? id).isSome = true) ps)
    (hblocked : PassesBlocked s ps) : CutShort s ps := by
  induction ps generalizing s with
  | nil => exact absurd hblocked (not_or.2 ⟨not_blocked_nil, not_blocked_nil⟩)
  | cons p ps ih =>
    obtain ⟨hends, hrest⟩ := hready
    have hjoins : ∀ e ∈ p.storedEdges, (contents s).joins e = true :=
      fun e he => Bool.and_eq_true_iff.2 (hends e he)
    rw [hs.passesBlocked_cons_iff hps hjoins] at hblocked
    obtain ⟨hp, hps⟩ := List.forall_mem_cons.1 hps
    by_cases hfirst : p.Blocked s
    · exact ⟨[], p, ps, _, rfl, congrArg (· :: _) (hs.perform_pass_of_blocked hp hfirst)⟩
    · obtain ⟨done, q, rest, replies, rfl, hreplies⟩ :=
        ih (hs.put hp) hps (hs.ready_put hp hjoins hrest) (hblocked.resolve_left hfirst)
      refine ⟨p :: done, q, rest, replies, rfl, ?_⟩
      rw [List.map_cons, run, hs.perform_pass hp hjoins hfirst]
      exact congrArg (p.reply :: ·) hreplies

end Valid

end

end DatasetGraph
