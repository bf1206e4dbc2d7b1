import DatasetGraph.Proofs.Store.Path

/-!
# Walks find what is near

A walk from a stored root enters exactly the nodes that are joined to the root by a short enough
path of nodes that pass, and it records their distances.  Its edges are the stored ones between
nodes that were entered, except those both of whose ends lie at the bound
(`Valid.exists_walk_eq_some`).

The proof follows the rounds of the walk.  `Kept` says what is known in the middle of a round: nodes
up to distance `near` have all been entered, none has been entered beyond distance `far`, and the
edges that were met so far are those with the property `met`.  Between two rounds `near` and `far`
are the same.
-/

namespace DatasetGraph

/-- What a walk of at most `hops` hops ought to find. -/
structure Neighborhood.IsExact (c : Contents) (pass : Node → Bool) (hops : Nat)
    (hood : Neighborhood) : Prop where
  nodup_ids : (hood.nodes.map fun e => e.1.id).Nodup
  mem_nodes_iff {n : Node} {d : Nat} : (n, d) ∈ hood.nodes ↔
    c.read? n.id = some n ∧ 1 ≤ d ∧ d ≤ hops ∧ c.Distance pass hood.root d n.id
  nodup_edges : hood.edges.Nodup
  mem_edges_iff {e : Edge} : e ∈ hood.edges ↔ c.HoldsEdge e ∧
    c.Within pass hood.root hops e.source ∧ c.Within pass hood.root hops e.target ∧
    ∃ id k, k < hops ∧ c.Path pass hood.root k id ∧ e.touches id = true

namespace Walk

variable {c : Contents} {pass : Node → Bool} {root : String}

/-- An edge that touches a node at less than a given distance. -/
def MetWithin (c : Contents) (pass : Node → Bool) (root : String) (v : Nat) (e : Edge) : Prop :=
  c.HoldsEdge e ∧ ∃ id k, k < v ∧ c.Path pass root k id ∧ e.touches id = true

/-- What is known of a walk on its way. -/
structure Kept (c : Contents) (pass : Node → Bool) (root : String) (near far : Nat)
    (met : Edge → Prop) (p : Progress) : Prop where
  entered_iff (id : String) :
    p.judged.lookup id = some true ↔ id = root ∨ ∃ e ∈ p.nodes, e.1.id = id
  refused {id : String} {n : Node} :
    p.judged.lookup id = some false → c.read? id = some n → pass n = false
  nodup_ids : (p.nodes.map fun e => e.1.id).Nodup
  node {n : Node} {d : Nat} : (n, d) ∈ p.nodes →
    c.read? n.id = some n ∧ 1 ≤ d ∧ d ≤ far ∧ c.Distance pass root d n.id
  reached {k : Nat} {id : String} :
    c.Path pass root k id → k ≤ near → p.judged.lookup id = some true
  met_edge {e : Edge} : met e → c.HoldsEdge e ∧
    (p.judged.lookup e.source).isSome = true ∧ (p.judged.lookup e.target).isSome = true
  nodup_edges : p.edges.Nodup
  mem_edges_iff (e : Edge) : e ∈ p.edges ↔
    met e ∧ p.judged.lookup e.source = some true ∧ p.judged.lookup e.target = some true

namespace Kept

variable {near far v : Nat} {met met' : Edge → Prop} {p : Progress}

theorem congr_met (hp : Kept c pass root near far met p) (h : ∀ e, met' e ↔ met e) :
    Kept c pass root near far met' p := by
  have hmet : met' = met := funext fun e => propext (h e)
  rwa [hmet]

theorem mono_far {far' : Nat} (hp : Kept c pass root near far met p) (h : far ≤ far') :
    Kept c pass root near far' met p := by
  refine { hp with node := ?_ }
  intro n d hn
  obtain ⟨hread, hpos, hfar, hdist⟩ := hp.node hn
  exact ⟨hread, hpos, hfar.trans h, hdist⟩

/-! ## Judging a node -/

section

variable {x : String}

/-- A new verdict leaves those there are. -/
theorem lookup_judged_of_isSome (hx : p.judged.lookup x = none) (verdict : Bool) {id : String}
    (h : (p.judged.lookup id).isSome = true) :
    ((x, verdict) :: p.judged).lookup id = p.judged.lookup id := by
  have hid : id ≠ x := by
    rintro rfl
    rw [hx] at h
    cases h
  rw [KeyMap.lookup_cons_eq, if_neg hid]

theorem met_edge_judged (hp : Kept c pass root near far met p) (hx : p.judged.lookup x = none)
    (verdict : Bool) {e : Edge} (he : met e) :
    c.HoldsEdge e ∧ (((x, verdict) :: p.judged).lookup e.source).isSome = true ∧
      (((x, verdict) :: p.judged).lookup e.target).isSome = true := by
  obtain ⟨hholds, hsource, htarget⟩ := hp.met_edge he
  rw [lookup_judged_of_isSome hx verdict hsource, lookup_judged_of_isSome hx verdict htarget]
  exact ⟨hholds, hsource, htarget⟩

theorem mem_edges_iff_judged (hp : Kept c pass root near far met p)
    (hx : p.judged.lookup x = none) (verdict : Bool) (e : Edge) :
    e ∈ p.edges ↔ met e ∧ ((x, verdict) :: p.judged).lookup e.source = some true ∧
      ((x, verdict) :: p.judged).lookup e.target = some true := by
  rw [hp.mem_edges_iff]
  apply and_congr_right
  intro he
  obtain ⟨_, hsource, htarget⟩ := hp.met_edge he
  rw [lookup_judged_of_isSome hx verdict hsource, lookup_judged_of_isSome hx verdict htarget]

/-- A node that does not pass is refused. -/
theorem refuse (hp : Kept c pass root near far met p) (hx : p.judged.lookup x = none)
    (hpass : ∀ n, c.read? x = some n → pass n = false) :
    Kept c pass root near far met { p with judged := (x, false) :: p.judged } where
  entered_iff := by
    intro id
    rw [KeyMap.lookup_cons_eq]
    by_cases hid : id = x
    · subst hid
      rw [if_pos rfl, ← hp.entered_iff, hx]
      simp
    · rw [if_neg hid]
      exact hp.entered_iff id
  refused := by
    intro id n hfalse hread
    rw [KeyMap.lookup_cons_eq] at hfalse
    split at hfalse
    · next hid =>
      subst hid
      exact hpass n hread
    · exact hp.refused hfalse hread
  nodup_ids := hp.nodup_ids
  node := hp.node
  reached := by
    intro k id hpath hk
    have htrue := hp.reached hpath hk
    rwa [lookup_judged_of_isSome hx false (by rw [htrue]; rfl)]
  met_edge := hp.met_edge_judged hx false
  nodup_edges := hp.nodup_edges
  mem_edges_iff := hp.mem_edges_iff_judged hx false

/-- A node that passes is entered.  It was not entered before, so no path to it is shorter. -/
theorem enter (hp : Kept c pass root v (v + 1) met p) (hx : p.judged.lookup x = none) {n : Node}
    (hid : n.id = x) (hread : c.read? x = some n) (hpath : c.Path pass root (v + 1) x) :
    Kept c pass root v (v + 1) met
      { p with judged := (x, true) :: p.judged, nodes := p.nodes ++ [(n, v + 1)] } where
  entered_iff := by
    intro id
    rw [KeyMap.lookup_cons_eq]
    by_cases hidx : id = x
    · subst hidx
      simp [hid]
    · have hne : x ≠ id := Ne.symm hidx
      rw [if_neg hidx, hp.entered_iff]
      simp only [List.mem_append, List.mem_singleton, or_and_right, exists_or, exists_eq_left, hid,
        hne, or_false]
  refused := by
    intro id m hfalse hm
    rw [KeyMap.lookup_cons_eq] at hfalse
    split at hfalse
    · cases hfalse
    · exact hp.refused hfalse hm
  nodup_ids := by
    rw [List.map_append, List.map_singleton, ← List.concat_eq_append, List.nodup_concat]
    refine ⟨?_, hp.nodup_ids⟩
    intro hmem
    obtain ⟨e, he, heid⟩ := List.mem_map.1 hmem
    have htrue := (hp.entered_iff n.id).2 (.inr ⟨e, he, heid⟩)
    rw [hid, hx] at htrue
    cases htrue
  node := by
    intro m d hm
    rcases List.mem_append.1 hm with hm | hm
    · exact hp.node hm
    · cases List.mem_singleton.1 hm
      rw [hid]
      refine ⟨hread, Nat.succ_le_succ (Nat.zero_le v), le_refl _, hpath, ?_⟩
      -- The end of a shorter path would have been judged in an earlier round.
      intro j hj
      by_contra hlt
      have htrue := hp.reached hj (by omega)
      rw [hx] at htrue
      cases htrue
  reached := by
    intro k id hk hkv
    have htrue := hp.reached hk hkv
    rwa [lookup_judged_of_isSome hx true (by rw [htrue]; rfl)]
  met_edge := hp.met_edge_judged hx true
  nodup_edges := hp.nodup_edges
  mem_edges_iff := hp.mem_edges_iff_judged hx true

end

/-! ## Meeting an edge -/

/-- An edge that leads to a node that was refused, or is there already, is not taken. -/
theorem skip (hp : Kept c pass root near far met p) {e : Edge} (he : c.HoldsEdge e)
    (hsource : (p.judged.lookup e.source).isSome = true)
    (htarget : (p.judged.lookup e.target).isSome = true)
    (hskip : p.judged.lookup e.source = some true → p.judged.lookup e.target = some true →
      e ∈ p.edges) :
    Kept c pass root near far (fun f => met f ∨ f = e) p := by
  refine { hp with met_edge := ?_, mem_edges_iff := ?_ }
  · rintro f (hf | rfl)
    · exact hp.met_edge hf
    · exact ⟨he, hsource, htarget⟩
  · intro f
    constructor
    · intro hf
      obtain ⟨hmet, hends⟩ := (hp.mem_edges_iff f).1 hf
      exact ⟨.inl hmet, hends⟩
    · intro h
      obtain ⟨hf | rfl, hfs, hft⟩ := h
      · exact (hp.mem_edges_iff f).2 ⟨hf, hfs, hft⟩
      · exact hskip hfs hft

/-- An edge between nodes that were entered is taken, if it is not there already. -/
theorem take (hp : Kept c pass root near far met p) {e : Edge} (he : c.HoldsEdge e)
    (hsource : p.judged.lookup e.source = some true)
    (htarget : p.judged.lookup e.target = some true) (hnew : e ∉ p.edges) :
    Kept c pass root near far (fun f => met f ∨ f = e) { p with edges := p.edges ++ [e] } := by
  refine { hp with met_edge := ?_, nodup_edges := ?_, mem_edges_iff := ?_ }
  · rintro f (hf | rfl)
    · exact hp.met_edge hf
    · exact ⟨he, by rw [hsource]; rfl, by rw [htarget]; rfl⟩
  · rw [← List.concat_eq_append, List.nodup_concat]
    exact ⟨hnew, hp.nodup_edges⟩
  · intro f
    rw [List.mem_append, List.mem_singleton, hp.mem_edges_iff]
    constructor
    · intro h
      rcases h with ⟨hmet, hends⟩ | rfl
      · exact ⟨.inl hmet, hends⟩
      · exact ⟨.inr rfl, hsource, htarget⟩
    · intro h
      obtain ⟨hf | rfl, hends⟩ := h
      · exact .inl ⟨hf, hends⟩
      · exact .inr rfl

/-! ## Between rounds -/

theorem path_of_entered (hp : Kept c pass root near far met p) {id : String}
    (h : p.judged.lookup id = some true) : ∃ k ≤ far, c.Distance pass root k id := by
  rcases (hp.entered_iff id).1 h with rfl | ⟨⟨n, d⟩, hn, rfl⟩
  · exact ⟨0, Nat.zero_le _, Contents.distance_root⟩
  · obtain ⟨_, _, hfar, hdist⟩ := hp.node hn
    exact ⟨d, hfar, hdist⟩

/-- Once every edge of the nodes at distance `v` has been met, all nodes at distance `v + 1` have
been entered. -/
theorem close (hp : Kept c pass root v (v + 1) met p) (hc : c.WellFormed)
    (hmet : ∀ e, MetWithin c pass root (v + 1) e → met e) :
    Kept c pass root (v + 1) (v + 1) met p := by
  refine { hp with reached := ?_ }
  intro k id hpath hk
  rcases Nat.lt_or_ge v k with hlt | hle
  · obtain rfl : k = v + 1 := by omega
    obtain ⟨a, n, ha, hjoined, hread, hpass⟩ := Contents.path_succ_iff.1 hpath
    obtain ⟨e, he, hends⟩ := hc.joined_iff.1 hjoined
    have htouches : e.touches a = true := by
      rw [Edge.touches_iff]
      exact hends.imp And.left And.right
    obtain ⟨_, hsource, htarget⟩ := hp.met_edge (hmet e ⟨he, a, v, by omega, ha, htouches⟩)
    have hjudged : (p.judged.lookup id).isSome = true := by
      rcases hends with ⟨_, rfl⟩ | ⟨rfl, _⟩
      · exact htarget
      · exact hsource
    -- The node was judged, and a node that passes was not refused.
    cases hverdict : p.judged.lookup id with
    | none =>
      rw [hverdict] at hjudged
      cases hjudged
    | some b =>
      cases b with
      | true => rfl
      | false =>
        have hfalse := hp.refused hverdict hread
        rw [hpass] at hfalse
        cases hfalse
  · exact hp.reached hpath hle

theorem mem_frontier_iff (hp : Kept c pass root near far met p) (hv : 1 ≤ v) (hnear : v ≤ near)
    (id : String) : id ∈ p.frontier v ↔ c.Distance pass root v id := by
  simp only [Progress.frontier, List.mem_map, List.mem_filter, decide_eq_true_eq]
  constructor
  · intro h
    obtain ⟨⟨n, d⟩, ⟨hn, rfl⟩, rfl⟩ := h
    exact (hp.node hn).2.2.2
  · intro hdist
    rcases (hp.entered_iff id).1 (hp.reached hdist.1 hnear) with rfl | ⟨⟨n, d⟩, hn, rfl⟩
    · exact absurd rfl (hdist.ne_root hv)
    · exact ⟨(n, d), ⟨hn, (hp.node hn).2.2.2.unique hdist⟩, rfl⟩

/-- When no node is at distance `v`, there is nothing beyond. -/
theorem stop (hp : Kept c pass root v v (MetWithin c pass root v) p)
    (hnone : ∀ id, ¬ c.Distance pass root v id) (hops : Nat) :
    Kept c pass root (v + hops) (v + hops) (MetWithin c pass root (v + hops)) p := by
  -- A node farther away would have one at distance `v` before it.
  have hnear : ∀ {k id}, c.Path pass root k id → ∃ j < v, c.Path pass root j id := by
    intro k id hpath
    obtain ⟨j, _, hdist⟩ := hpath.exists_distance
    rcases Nat.lt_or_ge j v with hlt | hle
    · exact ⟨j, hlt, hdist.1⟩
    · obtain ⟨a, ha⟩ := hdist.exists_of_le hle
      exact absurd ha (hnone a)
  have hmet : ∀ e, MetWithin c pass root (v + hops) e ↔ MetWithin c pass root v e := by
    intro e
    apply and_congr_right
    intro _
    constructor
    · intro h
      obtain ⟨id, k, _, hpath, htouches⟩ := h
      obtain ⟨j, hj, hpath⟩ := hnear hpath
      exact ⟨id, j, hj, hpath, htouches⟩
    · intro h
      obtain ⟨id, k, hk, hpath, htouches⟩ := h
      exact ⟨id, k, by omega, hpath, htouches⟩
  apply congr_met _ hmet
  refine { hp.mono_far (Nat.le_add_right v hops) with reached := ?_ }
  intro k id hpath _
  obtain ⟨j, hj, hpath⟩ := hnear hpath
  exact hp.reached hpath hj.le

end Kept

/-! ## The steps of a walk -/

/-- An edge joins a node that it touches to its other end. -/
theorem joined_otherEnd (hc : c.WellFormed) {e : Edge} (he : c.HoldsEdge e) {y : String}
    (htouches : e.touches y = true) :
    (e.source = y ∧ e.target = e.otherEnd y ∨ e.source = e.otherEnd y ∧ e.target = y) ∧
      c.Joined y (e.otherEnd y) := by
  have hends : e.source = y ∧ e.target = e.otherEnd y ∨ e.source = e.otherEnd y ∧ e.target = y := by
    rw [Edge.otherEnd]
    by_cases hsource : e.source = y
    · rw [if_pos hsource]
      exact .inl ⟨hsource, rfl⟩
    · rw [if_neg hsource]
      exact .inr ⟨rfl, (Edge.touches_iff.1 htouches).resolve_left hsource⟩
  exact ⟨hends, hc.joined_iff.2 ⟨e, he, hends⟩⟩

section

variable {σ : Type} [LawfulBackend σ] [Backend.ReadsAll σ] {s : σ} {met : Edge → Prop} {v : Nat}
  {p : Progress}

theorem exists_judge (hs : Valid s) (hp : Kept (contents s) pass root v (v + 1) met p)
    {y x : String} (hy : (contents s).Path pass root v y) (hyx : (contents s).Joined y x) :
    ∃ verdict p', judge s pass (v + 1) p x = .ok (verdict, p') ∧
      Kept (contents s) pass root v (v + 1) met p' ∧ p'.judged.lookup x = some verdict := by
  rw [judge]
  cases hx : p.judged.lookup x with
  | some verdict => exact ⟨verdict, p, rfl, hp, hx⟩
  | none =>
    show ∃ _ _, (Store.readNodes s [x] >>= _) = _ ∧ _
    rw [hs.readNodes_singleton]
    have hlookup : ∀ verdict, ((x, verdict) :: p.judged).lookup x = some verdict := by
      intro verdict
      rw [KeyMap.lookup_cons_eq, if_pos rfl]
    cases hread : (contents s).read? x with
    | none =>
      refine ⟨false, _, rfl, hp.refuse hx ?_, hlookup false⟩
      intro n hn
      rw [hread] at hn
      cases hn
    | some n =>
      show ∃ _ _, (if pass n = true then _ else _) = _ ∧ _
      by_cases hpass : pass n = true
      · rw [if_pos hpass]
        exact ⟨true, _, rfl, hp.enter hx (hs.wellFormed.read?_id hread) hread
          (.step hy hyx hread hpass), hlookup true⟩
      · rw [if_neg hpass]
        refine ⟨false, _, rfl, hp.refuse hx ?_, hlookup false⟩
        intro m hm
        rw [hread] at hm
        cases hm
        exact Bool.eq_false_iff.2 hpass

theorem exists_meet (hs : Valid s) (hp : Kept (contents s) pass root v (v + 1) met p)
    {y : String} (hy : (contents s).Path pass root v y) {e : Edge} (he : (contents s).HoldsEdge e)
    (htouches : e.touches y = true) :
    ∃ p', meet s pass (v + 1) y p e = .ok p' ∧
      Kept (contents s) pass root v (v + 1) (fun f => met f ∨ f = e) p' := by
  obtain ⟨hends, hjoined⟩ := joined_otherEnd hs.wellFormed he htouches
  obtain ⟨verdict, p', hjudge, hp', hverdict⟩ := exists_judge hs hp hy hjoined
  have hreached : p'.judged.lookup y = some true := hp'.reached hy (le_refl v)
  -- Both ends are judged now, and both were entered exactly if the verdict says so.
  have hjudged : (p'.judged.lookup e.source).isSome = true ∧
      (p'.judged.lookup e.target).isSome = true := by
    rcases hends with ⟨hsource, htarget⟩ | ⟨hsource, htarget⟩
    · rw [hsource, htarget, hreached, hverdict]
      exact ⟨rfl, rfl⟩
    · rw [hsource, htarget, hreached, hverdict]
      exact ⟨rfl, rfl⟩
  have hentered : p'.judged.lookup e.source = some true ∧ p'.judged.lookup e.target = some true ↔
      verdict = true := by
    rcases hends with ⟨hsource, htarget⟩ | ⟨hsource, htarget⟩
    · rw [hsource, htarget, hreached, hverdict]
      simp
    · rw [hsource, htarget, hreached, hverdict]
      simp
  -- The walk compares keys, and stored edges are told apart by theirs.
  have hany : (p'.edges.any fun f => decide (f.key = e.key)) = true ↔ e ∈ p'.edges := by
    rw [List.any_eq_true]
    constructor
    · intro h
      obtain ⟨f, hf, hkey⟩ := h
      have hholds := (hp'.met_edge ((hp'.mem_edges_iff f).1 hf).1).1
      rwa [← hs.wellFormed.eq_of_key_eq hholds he (of_decide_eq_true hkey)]
    · intro hmem
      exact ⟨e, hmem, decide_eq_true rfl⟩
  rw [meet, hjudge]
  show ∃ _, (if (verdict && !p'.edges.any fun f => decide (f.key = e.key)) = true then _ else _) = _
    ∧ _
  by_cases htake : (verdict && !p'.edges.any fun f => decide (f.key = e.key)) = true
  · rw [if_pos htake]
    obtain ⟨hpassed, hnew⟩ := Bool.and_eq_true_iff.1 htake
    obtain ⟨hsource, htarget⟩ := hentered.2 hpassed
    refine ⟨_, rfl, hp'.take he hsource htarget ?_⟩
    intro hmem
    rw [hany.2 hmem] at hnew
    cases hnew
  · rw [if_neg htake]
    refine ⟨_, rfl, hp'.skip he hjudged.1 hjudged.2 ?_⟩
    intro hsource htarget
    rw [hentered.1 ⟨hsource, htarget⟩, Bool.true_and, Bool.not_eq_true', Bool.not_eq_false] at htake
    exact hany.1 htake

theorem exists_visit (hs : Valid s) (hp : Kept (contents s) pass root v (v + 1) met p)
    {y : String} (hy : (contents s).Path pass root v y) :
    ∃ p', visit s pass (v + 1) p y = .ok p' ∧ Kept (contents s) pass root v (v + 1)
      (fun f => met f ∨ (contents s).HoldsEdge f ∧ f.touches y = true) p' := by
  obtain ⟨es, hes, _, hmem⟩ := hs.exists_incidentEdges [y]
  rw [visit, hes]
  show ∃ p', es.foldlM (meet s pass (v + 1) y) p = .ok p' ∧ _
  have hedges : ∀ e, e ∈ es ↔ (contents s).HoldsEdge e ∧ e.touches y = true := by
    intro e
    rw [hmem]
    simp
  obtain ⟨p', hp', hkept⟩ := Fallible.exists_foldlM_ok
    (fun done p => Kept (contents s) pass root v (v + 1) (fun f => met f ∨ f ∈ done) p)
    (hp.congr_met fun e => by simp)
    (fun done e q he hq => by
      obtain ⟨hholds, htouches⟩ := (hedges e).1 he
      obtain ⟨q', hmeet, hq'⟩ := exists_meet hs hq hy hholds htouches
      refine ⟨q', hmeet, hq'.congr_met fun f => ?_⟩
      rw [List.mem_append, List.mem_singleton, or_assoc])
  exact ⟨p', hp', hkept.congr_met fun f => by rw [hedges]⟩

/-- A round meets every edge of the nodes at distance `v`, and then all nodes at distance `v + 1`
have been entered. -/
theorem exists_round (hs : Valid s)
    (hp : Kept (contents s) pass root v v (MetWithin (contents s) pass root v) p)
    {frontier : List String}
    (hfrontier : ∀ id, id ∈ frontier ↔ (contents s).Distance pass root v id) :
    ∃ p', frontier.foldlM (visit s pass (v + 1)) p = .ok p' ∧ Kept (contents s) pass root (v + 1)
      (v + 1) (MetWithin (contents s) pass root (v + 1)) p' := by
  obtain ⟨p', hp', hkept⟩ := Fallible.exists_foldlM_ok
    (fun done p => Kept (contents s) pass root v (v + 1) (fun f =>
      MetWithin (contents s) pass root v f ∨
        (contents s).HoldsEdge f ∧ ∃ y ∈ done, f.touches y = true) p)
    ((hp.mono_far (Nat.le_succ v)).congr_met fun e => by simp)
    (fun done y q hy hq => by
      obtain ⟨q', hvisit, hq'⟩ := exists_visit hs hq ((hfrontier y).1 hy).1
      refine ⟨q', hvisit, hq'.congr_met fun f => ?_⟩
      simp only [List.mem_append, List.mem_singleton, or_and_right, exists_or, exists_eq_left,
        or_assoc, and_or_left])
  -- A node at less than distance `v + 1` is nearer or in the frontier.
  have hmet : ∀ e, MetWithin (contents s) pass root (v + 1) e ↔
      MetWithin (contents s) pass root v e ∨
        (contents s).HoldsEdge e ∧ ∃ y ∈ frontier, e.touches y = true := by
    intro e
    constructor
    · intro h
      obtain ⟨hholds, id, k, hk, hpath, htouches⟩ := h
      obtain ⟨j, hj, hdist⟩ := hpath.exists_distance
      rcases Nat.lt_or_ge j v with hlt | hle
      · exact .inl ⟨hholds, id, j, hlt, hdist.1, htouches⟩
      · obtain rfl : j = v := by omega
        exact .inr ⟨hholds, id, (hfrontier id).2 hdist, htouches⟩
    · intro h
      rcases h with ⟨hholds, id, k, hk, hpath, htouches⟩ | ⟨hholds, id, hid, htouches⟩
      · exact ⟨hholds, id, k, by omega, hpath, htouches⟩
      · exact ⟨hholds, id, v, by omega, ((hfrontier id).1 hid).1, htouches⟩
  exact ⟨p', hp', (hkept.congr_met hmet).close hs.wellFormed fun _ he => he⟩

/-- The rounds one after the other: what is known between two rounds is known `hops` rounds later. -/
theorem exists_goOn (hs : Valid s) (hops : Nat) {frontier : List String}
    (hp : Kept (contents s) pass root v v (MetWithin (contents s) pass root v) p)
    (hfrontier : ∀ id, id ∈ frontier ↔ (contents s).Distance pass root v id) :
    ∃ p', goOn s pass hops (v + 1) frontier p = .ok p' ∧ Kept (contents s) pass root (v + hops)
      (v + hops) (MetWithin (contents s) pass root (v + hops)) p' := by
  induction hops generalizing v frontier p with
  | zero => exact ⟨p, rfl, hp⟩
  | succ hops ih =>
    rw [goOn]
    by_cases hempty : frontier.isEmpty = true
    · rw [if_pos hempty]
      refine ⟨p, rfl, hp.stop ?_ (hops + 1)⟩
      intro id hdist
      rw [← hfrontier, List.isEmpty_iff.1 hempty] at hdist
      cases hdist
    · rw [if_neg hempty]
      obtain ⟨p', hround, hp'⟩ := exists_round hs hp hfrontier
      obtain ⟨p'', hgoOn, hp''⟩ :=
        ih hp' (hp'.mem_frontier_iff (Nat.succ_le_succ (Nat.zero_le v)) (le_refl _))
      refine ⟨p'', ?_, by rwa [Nat.add_right_comm] at hp''⟩
      rw [hround]
      exact hgoOn

theorem kept_start (c : Contents) (pass : Node → Bool) (root : String) :
    Kept c pass root 0 0 (MetWithin c pass root 0) ⟨[(root, true)], [], []⟩ where
  entered_iff := by
    intro id
    rw [KeyMap.lookup_cons_eq]
    by_cases hid : id = root
    · simp [hid]
    · simp [hid]
  refused := by
    intro id n hfalse _
    rw [KeyMap.lookup_cons_eq] at hfalse
    split at hfalse
    · cases hfalse
    · cases hfalse
  nodup_ids := List.nodup_nil
  node := nofun
  reached := by
    intro k id hpath hk
    obtain rfl : k = 0 := by omega
    obtain rfl := Contents.path_zero_iff.1 hpath
    simp
  met_edge := by
    rintro e ⟨_, _, k, hk, _⟩
    exact absurd hk (Nat.not_lt_zero k)
  nodup_edges := List.nodup_nil
  mem_edges_iff := by
    intro e
    constructor
    · nofun
    · intro h
      obtain ⟨⟨_, _, k, hk, _⟩, _⟩ := h
      exact absurd hk (Nat.not_lt_zero k)

/-- The frontier of the first round. -/
theorem frontier_start (c : Contents) (pass : Node → Bool) (root id : String) :
    id ∈ [root] ↔ c.Distance pass root 0 id := by
  rw [List.mem_singleton]
  constructor
  · rintro rfl
    exact Contents.distance_root
  · intro hdist
    exact Contents.path_zero_iff.1 hdist.1

/-- At its end a walk has found what it ought to. -/
theorem Kept.isExact {c : Contents} {hops : Nat}
    (hp : Kept c pass root hops hops (MetWithin c pass root hops) p) :
    Neighborhood.IsExact c pass hops ⟨root, p.nodes, p.edges⟩ where
  nodup_ids := hp.nodup_ids
  mem_nodes_iff := by
    intro n d
    constructor
    · exact hp.node
    · intro h
      obtain ⟨hread, hpos, hle, hdist⟩ := h
      rcases (hp.entered_iff n.id).1 (hp.reached hdist.1 hle) with hroot | ⟨⟨m, k⟩, hm, hmn⟩
      · exact absurd hroot (hdist.ne_root hpos)
      · replace hmn : m.id = n.id := hmn
        obtain ⟨hmread, _, _, hmdist⟩ := hp.node hm
        rw [hmn] at hmread hmdist
        obtain rfl := Option.some.inj (hmread.symm.trans hread)
        obtain rfl := hmdist.unique hdist
        exact hm
  nodup_edges := hp.nodup_edges
  mem_edges_iff := by
    intro e
    have hwithin : ∀ id, p.judged.lookup id = some true ↔ c.Within pass root hops id := by
      intro id
      constructor
      · intro htrue
        obtain ⟨k, hk, hdist⟩ := hp.path_of_entered htrue
        exact ⟨k, hk, hdist.1⟩
      · intro h
        obtain ⟨k, hk, hpath⟩ := h
        exact hp.reached hpath hk
    show e ∈ p.edges ↔ _
    rw [hp.mem_edges_iff, hwithin, hwithin]
    constructor
    · intro h
      obtain ⟨⟨hholds, hmet⟩, hsource, htarget⟩ := h
      exact ⟨hholds, hsource, htarget, hmet⟩
    · intro h
      obtain ⟨hholds, hsource, htarget, hmet⟩ := h
      exact ⟨⟨hholds, hmet⟩, hsource, htarget⟩

end

end Walk

/-! ## Walks -/

section

variable {σ : Type} [LawfulBackend σ] [Backend.ReadsAll σ] {s : σ}

/-- A walk from a node that is not stored finds that out. -/
theorem Valid.walk_eq_none (hs : Valid s) {root : String} (hops : Nat) (pass : Node → Bool)
    (hroot : (contents s).read? root = none) : Store.walk s root hops pass = .ok none := by
  rw [Store.walk, hs.readNodes_singleton, hroot]
  rfl

/-- A walk from a stored node finds what is near the node, and nothing else. -/
theorem Valid.exists_walk_eq_some (hs : Valid s) {root : String} (hops : Nat) (pass : Node → Bool)
    {r : Node} (hroot : (contents s).read? root = some r) :
    ∃ hood, Store.walk s root hops pass = .ok (some hood) ∧ hood.root = root ∧
      hood.IsExact (contents s) pass hops := by
  obtain ⟨p, hgoOn, hp⟩ :=
    Walk.exists_goOn hs hops (Walk.kept_start (contents s) pass root)
      (Walk.frontier_start (contents s) pass root)
  rw [Nat.zero_add] at hp
  refine ⟨⟨root, p.nodes, p.edges⟩, ?_, rfl, hp.isExact⟩
  rw [Store.walk, hs.readNodes_singleton, hroot]
  show (Walk.goOn s pass hops 1 [root] ⟨[(root, true)], [], []⟩ >>= _) = _
  rw [hgoOn]
  rfl

theorem Valid.exists_walk (hs : Valid s) (root : String) (hops : Nat) (pass : Node → Bool) :
    ∃ r, Store.walk s root hops pass = .ok r := by
  cases hroot : (contents s).read? root with
  | none => exact ⟨_, hs.walk_eq_none hops pass hroot⟩
  | some n =>
    obtain ⟨hood, hwalk, _⟩ := hs.exists_walk_eq_some hops pass hroot
    exact ⟨_, hwalk⟩

end

/-! ## Walks that come to what cannot be read -/

section

variable {σ : Type} [LawfulBackend σ] {s : σ} {pass : Node → Bool} {root : String}

/-- A relationship or a neighbour of the node cannot be read. -/
def SurroundingsUnreadable (s : σ) (id : String) : Prop :=
  EdgeUnreadable s id ∨ ∃ b, (contents s).Joined id b ∧ NodeUnreadable s b

/-- A walk comes to something that cannot be read: its root, or what surrounds a node that is less
than the given number of hops away. -/
def WalkUnreadable (s : σ) (root : String) (hops : Nat) (pass : Node → Bool) : Prop :=
  NodeUnreadable s root ∨
    ∃ k < hops, ∃ id, (contents s).Path pass root k id ∧ SurroundingsUnreadable s id

theorem Legible.not_walkUnreadable (h : Legible s) (root : String) (hops : Nat)
    (pass : Node → Bool) : ¬WalkUnreadable s root hops pass := by
  rintro (hroot | ⟨_, _, id, _, hedge | ⟨b, _, hb⟩⟩)
  · exact h.node root hroot
  · exact h.edge id hedge
  · exact h.node b hb

namespace Walk

variable {v : Nat} {p : Progress}

theorem judge_follows (s : σ) (pass : Node → Bool) (distance : Nat) (p : Progress) (id : String) :
    Fallible.Follows .unreadable (NodeUnreadable s id) (judge s pass distance p id)
      (judge (⟨s⟩ : DeepReader σ) pass distance p id) := by
  rw [judge, judge]
  cases p.judged.lookup id with
  | some verdict => exact .refl _
  | none =>
    refine Fallible.Follows.bind ((Store.readNodes_follows s [id]).imp ?_) fun _ _ => .refl _
    rintro ⟨x, hx, h⟩
    exact List.mem_singleton.1 hx ▸ h

theorem visit_follows (hs : Valid s) (pass : Node → Bool) (distance : Nat) (p : Progress)
    (id : String) :
    Fallible.Follows .unreadable (SurroundingsUnreadable s id) (visit s pass distance p id)
      (visit (⟨s⟩ : DeepReader σ) pass distance p id) := by
  obtain ⟨es, hes, _, hmem⟩ := hs.deepReader.exists_incidentEdges [id]
  rw [visit, visit]
  apply Fallible.Follows.bind
  · refine (hs.incidentEdges_follows [id]).imp ?_
    rintro ⟨x, hx, h⟩
    exact .inl (List.mem_singleton.1 hx ▸ h)
  · intro es' hes'
    cases Except.ok.inj (hes.symm.trans hes')
    refine Fallible.Follows.foldlM (fun _ => True) trivial fun e he p _ => ⟨?_, fun _ _ => trivial⟩
    obtain ⟨hholds, x, hx, htouches⟩ := (hmem e).1 he
    rw [List.mem_singleton.1 hx] at htouches
    have hjoined := (joined_otherEnd hs.wellFormed hholds htouches).2
    rw [meet, meet]
    exact ((judge_follows s pass distance p _).imp fun h => .inr ⟨_, hjoined, h⟩).bind
      fun _ _ => .refl _

theorem goOn_follows (hs : Valid s) (hops : Nat) {frontier : List String}
    (hp : Kept (contents s) pass root v v (MetWithin (contents s) pass root v) p)
    (hfrontier : ∀ id, id ∈ frontier ↔ (contents s).Distance pass root v id) :
    Fallible.Follows .unreadable
      (∃ k < v + hops, ∃ id, (contents s).Path pass root k id ∧ SurroundingsUnreadable s id)
      (goOn s pass hops (v + 1) frontier p)
      (goOn (⟨s⟩ : DeepReader σ) pass hops (v + 1) frontier p) := by
  induction hops generalizing v frontier p with
  | zero => exact .refl _
  | succ hops ih =>
    rw [goOn, goOn]
    by_cases hempty : frontier.isEmpty = true
    · rw [if_pos hempty, if_pos hempty]
      exact .refl _
    · rw [if_neg hempty, if_neg hempty]
      obtain ⟨p', hround, hp'⟩ := exists_round hs.deepReader hp hfrontier
      apply Fallible.Follows.bind
      · refine Fallible.Follows.foldlM (fun _ => True) trivial fun id hid p _ =>
          ⟨(visit_follows hs pass (v + 1) p id).imp fun h => ?_, fun _ _ => trivial⟩
        exact ⟨v, by omega, id, ((hfrontier id).1 hid).1, h⟩
      · intro p'' hp''
        cases Except.ok.inj (hround.symm.trans hp'')
        have hrest := ih hp' (hp'.mem_frontier_iff (Nat.succ_le_succ (Nat.zero_le v)) (le_refl _))
        rwa [Nat.add_right_comm, Nat.add_assoc] at hrest

/-! ### What a walk has read -/

/-- Every node that was judged has been read. -/
def JudgedReadable (s : σ) (p : Progress) : Prop :=
  ∀ id, (p.judged.lookup id).isSome = true → ¬NodeUnreadable s id

theorem JudgedReadable.judged {p' : Progress} {id : String} {verdict : Bool}
    (hp : JudgedReadable s p) (hid : ¬NodeUnreadable s id)
    (hp' : p'.judged = (id, verdict) :: p.judged) : JudgedReadable s p' := by
  intro x hx
  rw [hp', KeyMap.lookup_cons_eq] at hx
  split at hx
  · next h => exact h ▸ hid
  · exact hp x hx

theorem of_judge_eq_ok (hs : Valid s) {distance : Nat} {id : String} {r : Bool × Progress}
    (h : judge s pass distance p id = .ok r) (hp : JudgedReadable s p) :
    JudgedReadable s r.2 ∧ ¬NodeUnreadable s id := by
  rw [judge] at h
  cases hverdict : p.judged.lookup id with
  | some verdict =>
    rw [hverdict] at h
    cases h
    exact ⟨hp, hp id (by rw [hverdict]; rfl)⟩
  | none =>
    rw [hverdict] at h
    obtain ⟨ns, hns, h⟩ := Fallible.bind_eq_ok_iff.1 h
    have hid := hs.not_nodeUnreadable_of_readNodes hns id (List.mem_singleton_self id)
    refine ⟨?_, hid⟩
    cases ns with
    | nil =>
      cases h
      exact hp.judged hid rfl
    | cons n ns =>
      dsimp only at h
      split at h
      · cases h
        exact hp.judged hid rfl
      · cases h
        exact hp.judged hid rfl

theorem of_visit_eq_ok (hs : Valid s) {distance : Nat} {id : String} {p' : Progress}
    (h : visit s pass distance p id = .ok p') (hp : JudgedReadable s p) :
    JudgedReadable s p' ∧ ¬SurroundingsUnreadable s id := by
  rw [visit] at h
  obtain ⟨es, hes, h⟩ := Fallible.bind_eq_ok_iff.1 h
  obtain ⟨hedges, hmem⟩ := hs.of_incidentEdges_eq_ok hes
  obtain ⟨hp', hends⟩ := Fallible.forall_of_foldlM_eq_ok (JudgedReadable s)
    (Q := fun e => ¬NodeUnreadable s (e.otherEnd id)) h hp fun e _ q q' hq hmeet => by
      rw [meet] at hmeet
      obtain ⟨⟨entered, q₁⟩, hjudge, hmeet⟩ := Fallible.bind_eq_ok_iff.1 hmeet
      obtain ⟨hq₁, hend⟩ := of_judge_eq_ok hs hjudge hq
      refine ⟨?_, hend⟩
      dsimp only at hmeet
      split at hmeet
      · cases hmeet
        exact hq₁
      · cases hmeet
        exact hq₁
  refine ⟨hp', ?_⟩
  rintro (hedge | ⟨b, hjoined, hb⟩)
  · exact hedges id (List.mem_singleton_self id) hedge
  · obtain ⟨e, he, hsides⟩ := hs.wellFormed.joined_iff.1 hjoined
    have htouches : e.touches id = true :=
      Edge.touches_iff.2 (hsides.imp And.left And.right)
    have hother := (joined_otherEnd hs.wellFormed he htouches).1
    have hin : e ∈ es := (hmem e).2 ⟨he, id, List.mem_singleton_self id, htouches⟩
    -- The two ends are known, so the other one is the neighbour or the node itself.
    rcases hsides with ⟨hsource, htarget⟩ | ⟨hsource, htarget⟩
    · rcases hother with ⟨_, hend⟩ | ⟨hend, hself⟩
      · exact hends e hin (hend ▸ htarget ▸ hb)
      · rw [hsource] at hend
        rw [htarget] at hself
        exact hends e hin (hend ▸ hself ▸ hb)
    · rcases hother with ⟨hself, hend⟩ | ⟨hend, _⟩
      · rw [htarget] at hend
        rw [hsource] at hself
        exact hends e hin (hend ▸ hself ▸ hb)
      · exact hends e hin (hend ▸ hsource ▸ hb)

theorem of_goOn_eq_ok (hs : Valid s) (hops : Nat) {frontier : List String} {r : Progress}
    (hp : Kept (contents s) pass root v v (MetWithin (contents s) pass root v) p)
    (hfrontier : ∀ id, id ∈ frontier ↔ (contents s).Distance pass root v id)
    (hread : JudgedReadable s p) (h : goOn s pass hops (v + 1) frontier p = .ok r) :
    ∀ d, v ≤ d → d < v + hops → ∀ id, (contents s).Distance pass root d id →
      ¬SurroundingsUnreadable s id := by
  induction hops generalizing v frontier p with
  | zero =>
    intro d hd hlt
    omega
  | succ hops ih =>
    rw [goOn] at h
    intro d hd hlt id hdist
    split at h
    · next hempty =>
      obtain ⟨a, ha⟩ := hdist.exists_of_le hd
      rw [← hfrontier, List.isEmpty_iff.1 hempty] at ha
      cases ha
    · obtain ⟨q, hround, h⟩ := Fallible.bind_eq_ok_iff.1 h
      obtain ⟨hq, hvisited⟩ := Fallible.forall_of_foldlM_eq_ok (JudgedReadable s)
        (Q := fun id => ¬SurroundingsUnreadable s id) hround hread
        fun _ _ _ _ hq hvisit => of_visit_eq_ok hs hvisit hq
      rcases Nat.eq_or_lt_of_le hd with rfl | hgt
      · exact hvisited id ((hfrontier id).2 hdist)
      · -- The reader that reads everything comes to the same between the rounds.
        obtain ⟨p', hdeep, hp'⟩ := exists_round hs.deepReader hp hfrontier
        have hfollows : Fallible.Follows StoreError.unreadable True
            (frontier.foldlM (visit s pass (v + 1)) p)
            (frontier.foldlM (visit (⟨s⟩ : DeepReader σ) pass (v + 1)) p) :=
          Fallible.Follows.foldlM (fun _ => True) trivial fun x _ q _ =>
            ⟨(visit_follows hs pass (v + 1) q x).imp fun _ => trivial, fun _ _ => trivial⟩
        cases Except.ok.inj (hdeep.symm.trans (hfollows.eq_of_ok hround))
        exact ih hp' (hp'.mem_frontier_iff (Nat.succ_le_succ (Nat.zero_le v)) (le_refl _)) hq h d
          hgt (by omega) id hdist

end Walk

/-- Whoever walks follows the reader that reads everything, or comes to what cannot be read. -/
theorem Valid.walk_follows (hs : Valid s) (root : String) (hops : Nat) (pass : Node → Bool) :
    Fallible.Follows .unreadable (WalkUnreadable s root hops pass) (Store.walk s root hops pass)
      (Store.walk (⟨s⟩ : DeepReader σ) root hops pass) := by
  rw [Store.walk, Store.walk]
  apply Fallible.Follows.bind
  · refine (Store.readNodes_follows s [root]).imp ?_
    rintro ⟨x, hx, h⟩
    exact .inl (List.mem_singleton.1 hx ▸ h)
  · intro ns _
    split
    · exact .refl _
    · have hgoOn := Walk.goOn_follows hs hops (Walk.kept_start (contents s) pass root)
        (Walk.frontier_start (contents s) pass root)
      rw [Nat.zero_add] at hgoOn
      exact (hgoOn.imp .inr).bind fun _ _ => .refl _

/-- Nothing is near a node that is not stored. -/
theorem Valid.not_surroundingsUnreadable_of_path (hs : Valid s) {k : Nat} {id : String}
    (hroot : (contents s).read? root = none) (h : (contents s).Path pass root k id) :
    ¬SurroundingsUnreadable s id := by
  have hnone : (contents s).node? root = none := by
    rw [← Option.not_isSome_iff_eq_none, ← hs.wellFormed.isSome_read?, hroot]
    decide
  have halone : ∀ b, ¬(contents s).Joined root b := by
    rintro b ⟨k, hk, hends⟩
    obtain ⟨p, hp⟩ := Option.isSome_iff_exists.1 hk
    have hsource := hs.wellFormed.source_stored hp
    have htarget := hs.wellFormed.target_stored hp
    rcases hends with ⟨h, _⟩ | ⟨_, h⟩
    · rw [h, hnone] at hsource
      cases hsource
    · rw [h, hnone] at htarget
      cases htarget
  have hself : id = root := by
    clear hnone
    induction h with
    | start => rfl
    | step _ joined _ _ ih => exact absurd (ih ▸ joined) (halone _)
  subst hself
  rintro (⟨e, he, htouches, _⟩ | ⟨b, hjoined, _⟩)
  · obtain ⟨hsource, htarget⟩ := LawfulBackend.hasNode_ends hs.sound he
    rcases StoredEdge.touches_iff.1 htouches with h | h
    · rw [h, Backend.hasNode, ← node?_contents, hnone] at hsource
      cases hsource
    · rw [h, Backend.hasNode, ← node?_contents, hnone] at htarget
      cases htarget
  · exact halone b hjoined

theorem Valid.not_walkUnreadable_of_none (hs : Valid s) (hroot : (contents s).read? root = none)
    (hops : Nat) (pass : Node → Bool) : ¬WalkUnreadable s root hops pass := by
  rintro (⟨n, hn, _⟩ | ⟨_, _, id, hpath, hid⟩)
  · have hstored := hs.wellFormed.isSome_read? root
    rw [hroot, node?_contents, hn] at hstored
    cases hstored
  · exact hs.not_surroundingsUnreadable_of_path hroot hpath hid

/-- A walk that comes to its end has not come to anything that cannot be read. -/
theorem Valid.not_walkUnreadable (hs : Valid s) {hops : Nat} {r : Option Neighborhood}
    (h : Store.walk s root hops pass = .ok r) : ¬WalkUnreadable s root hops pass := by
  rw [Store.walk] at h
  obtain ⟨ns, hns, h⟩ := Fallible.bind_eq_ok_iff.1 h
  have hroot := hs.not_nodeUnreadable_of_readNodes hns root (List.mem_singleton_self root)
  rintro (hnode | ⟨k, hk, id, hpath, hid⟩)
  · exact hroot hnode
  · split at h
    · next hempty =>
      have hdeep := (Store.readNodes_follows s [root]).eq_of_ok hns
      rw [hs.deepReader.readNodes_singleton, List.isEmpty_iff.1 hempty] at hdeep
      have hnone : (contents s).read? root = none := by
        cases hr : (contents s).read? root with
        | none => rfl
        | some n =>
          have : (some n).toList = [] := hr ▸ Except.ok.inj hdeep
          cases this
      exact hs.not_surroundingsUnreadable_of_path hnone hpath hid
    · obtain ⟨p, hgoOn, _⟩ := Fallible.bind_eq_ok_iff.1 h
      obtain ⟨j, hj, hdist⟩ := hpath.exists_distance
      refine Walk.of_goOn_eq_ok hs hops (Walk.kept_start (contents s) pass root)
        (Walk.frontier_start (contents s) pass root) ?_ hgoOn j (Nat.zero_le j) (by omega) id hdist
        hid
      intro x hx
      rw [KeyMap.lookup_cons_eq] at hx
      split at hx
      · next hxroot => exact hxroot ▸ hroot
      · cases hx

open Classical in
/-- A walk fails exactly if it comes to something that cannot be read. -/
theorem Valid.walk_eq_ite (hs : Valid s) (root : String) (hops : Nat) (pass : Node → Bool) :
    Store.walk s root hops pass = if WalkUnreadable s root hops pass then .error .unreadable
      else Store.walk (⟨s⟩ : DeepReader σ) root hops pass := by
  rcases hs.walk_follows root hops pass with hsame | ⟨herror, hunreadable⟩
  · obtain ⟨r, hr⟩ := hs.deepReader.exists_walk root hops pass
    rw [if_neg (hs.not_walkUnreadable (hsame.trans hr)), hsame]
  · rw [if_pos hunreadable, herror]

end

end DatasetGraph
