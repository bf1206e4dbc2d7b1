import DatasetGraph.Proofs.Graph.Canonical
import DatasetGraph.Query.Page
import Mathlib.Data.List.Induction

/-!
# Repeated edges of a page

Of the edges of a page those are dropped before which there is one that is the same up to the order
of its labels, and no others (`distinctEdges_exact`).

An edge is known again by its key and the text of its properties.  The key forgets the order of the
labels and nothing else, and the text names the properties, whatever is nested in them
(`fingerprint_eq_iff`).  A digest in place of the text does as well, as long as it tells the texts
apart.

Properties that are equal need not have one text, since the two zeros are written in two ways.  So of
edges that are equivalent (`Edge.Equivalent`) one is kept for each way in which they are written, and
one alone exactly if they all have the same properties.
-/

namespace DatasetGraph

/-! ## The first of each key -/

section

variable {α β γ : Type} [DecidableEq α] [DecidableEq γ]

/-- The last member is kept if no earlier one has its key. -/
theorem distinctOn_append_singleton (key : β → α) (xs : List β) (x : β) :
    distinctOn key (xs ++ [x]) =
      distinctOn key xs ++ if ∀ y ∈ xs, key y ≠ key x then [x] else [] := by
  rw [distinctOn, distinctOn, unseenOn_append, List.append_nil, unseenOn]
  by_cases h : ∀ y ∈ xs, key y ≠ key x
  · have hnew : key x ∉ xs.map key := by simpa using h
    rw [if_pos h, if_neg hnew]
    rfl
  · have hseen : key x ∈ xs.map key := by simpa using h
    rw [if_neg h, if_pos hseen]
    rfl

/-- The members that are kept are those before which no other has their key. -/
theorem distinctOn_eq_filter (key : β → α) (xs : List β) : distinctOn key xs =
    (xs.zipIdx.filter fun p : β × Nat => decide (∀ y ∈ xs.take p.2, key y ≠ key p.1)).map
      Prod.fst := by
  induction xs using List.reverseRecOn with
  | nil => rfl
  | append_singleton xs x ih =>
    have hbefore : ∀ p ∈ xs.zipIdx, (xs ++ [x]).take p.2 = xs.take p.2 := by
      intro p hp
      exact List.take_append_of_le_length (Nat.le_of_lt (List.snd_lt_of_mem_zipIdx hp))
    have hlast : (xs ++ [x]).take xs.length = xs := by simp
    rw [distinctOn_append_singleton, ih, List.zipIdx_append, List.filter_append, List.map_append]
    congr 1
    · -- What stands before an earlier member is not changed by the last one.
      refine congrArg (List.map Prod.fst) (List.filter_congr fun p hp => ?_)
      rw [hbefore p hp]
    · simp only [List.zipIdx_singleton, Nat.zero_add, List.filter_cons, List.filter_nil, hlast,
        decide_eq_true_eq]
      split <;> rfl

/-- Two keys that tell the same members apart keep the same members. -/
theorem distinctOn_congr {key : β → α} {key' : β → γ} {xs : List β}
    (h : ∀ x ∈ xs, ∀ y ∈ xs, key x = key y ↔ key' x = key' y) :
    distinctOn key xs = distinctOn key' xs := by
  rw [distinctOn_eq_filter, distinctOn_eq_filter]
  refine congrArg (List.map Prod.fst) (List.filter_congr fun p hp => ?_)
  have hmem : p.1 ∈ xs := (List.mem_zipIdx' hp).2 ▸ List.getElem_mem _
  refine decide_eq_decide.2 (forall₂_congr fun y hy => not_congr ?_)
  exact h y (List.mem_of_mem_take hy) p.1 hmem

/-- A key that tells fewer members apart keeps the same ones exactly if it tells these apart all the
same. -/
theorem distinctOn_eq_iff {key : β → α} {key' : β → γ} {xs : List β}
    (h : ∀ x y, key x = key y → key' x = key' y) : distinctOn key xs = distinctOn key' xs ↔
      ∀ x ∈ xs, ∀ y ∈ xs, key' x = key' y → key x = key y := by
  constructor
  · intro hsame x hx y hy hxy
    have hkept (z : β) (hz : z ∈ xs) : ∃ k ∈ distinctOn key' xs, key k = key z := by
      have hmem := mem_map_distinctOn.2 (List.mem_map_of_mem (f := key) hz)
      rw [hsame] at hmem
      exact List.mem_map.1 hmem
    obtain ⟨j, hj, hjx⟩ := hkept x hx
    obtain ⟨k, hk, hky⟩ := hkept y hy
    have hjk : key' j = key' k := (h j x hjx).trans (hxy.trans (h k y hky).symm)
    rw [← hjx, ← hky, List.inj_on_of_nodup_map (nodup_map_distinctOn key' xs) hj hk hjk]
  · exact fun hsame => distinctOn_congr fun x hx y hy => ⟨h x y, hsame x hx y hy⟩

end

/-! ## Edges that are known again -/

namespace Edge

instance (e f : Edge) : Decidable (e.Reordered f) := decidable_of_iff _ (e.reordered_iff f).symm

theorem fingerprint_eq_iff {e f : Edge} : e.fingerprint = f.fingerprint ↔ e.Reordered f := by
  rw [fingerprint, fingerprint, Prod.mk.injEq, key_eq_iff, Properties.text_injective.eq_iff,
    reordered_iff, and_assoc, and_assoc]

/-- What is the same of edges that are equivalent. -/
def likeness (e : Edge) : EdgeKey × Properties := (e.key, e.properties.unsigned)

theorem likeness_eq_iff {e f : Edge} : e.likeness = f.likeness ↔ e.Equivalent f := by
  rw [likeness, likeness, Prod.mk.injEq, key_eq_iff, ← Properties.equal_iff]
  exact ⟨fun h => ⟨h.1.1, h.1.2.1, h.1.2.2, h.2⟩,
    fun h => ⟨⟨h.source, h.target, h.labels⟩, h.properties⟩⟩

instance (e f : Edge) : Decidable (e.Equivalent f) := decidable_of_iff _ likeness_eq_iff

theorem Reordered.equivalent {e f : Edge} (h : e.Reordered f) : e.Equivalent f :=
  ⟨h.source, h.target, h.labels, Properties.equal_iff.2 (congrArg _ h.properties)⟩

theorem Equivalent.reordered_iff {e f : Edge} (h : e.Equivalent f) :
    e.Reordered f ↔ e.properties = f.properties :=
  ⟨fun hef => hef.properties, fun hef => ⟨h.source, h.target, h.labels, hef⟩⟩

/-- The key of an edge and a digest of the text of its properties. -/
def digested {δ : Type} (digest : String → δ) (e : Edge) : EdgeKey × δ :=
  (e.key, digest e.properties.text)

end Edge

theorem distinctEdges_pair {e f : Edge} (hne : e.properties ≠ f.properties) :
    distinctEdges [e, f] = [e, f] := by
  have hfingerprint : e.fingerprint ≠ f.fingerprint :=
    fun h => hne (Edge.fingerprint_eq_iff.1 h).properties
  have hnodup : ([e, f].map Edge.fingerprint).Nodup := by simpa using hfingerprint
  rw [distinctEdges, distinctOn, unseenOn_of_nodup hnodup]
  simp

/-- Exactly those edges are dropped before which there is one with the same ends, the same labels up
to their order and the same properties, and so two edges with different properties are both kept.
These are the edges before which there is one that is equivalent exactly if edges that are equivalent
have the same properties.  It makes no difference if texts are compared by a digest that tells them apart. -/
theorem distinctEdges_exact {δ : Type} [DecidableEq δ] {digest : String → δ} {es : List Edge}
    (hdigest : ∀ e ∈ es, ∀ f ∈ es, digest e.properties.text = digest f.properties.text →
      e.properties.text = f.properties.text) :
    distinctOn (Edge.digested digest) es = distinctEdges es ∧
    (distinctEdges es).Sublist es ∧
    distinctEdges es = (es.zipIdx.filter fun p : Edge × Nat =>
      decide (∀ f ∈ es.take p.2, ¬ f.Reordered p.1)).map Prod.fst ∧
    (distinctEdges es = (es.zipIdx.filter fun p : Edge × Nat =>
        decide (∀ f ∈ es.take p.2, ¬ f.Equivalent p.1)).map Prod.fst ↔
      ∀ e ∈ es, ∀ f ∈ es, e.Equivalent f → e.properties = f.properties) ∧
    (∀ e ∈ es, ∃ f ∈ distinctEdges es, f.Reordered e) ∧
    ∀ e f : Edge, e.properties ≠ f.properties → distinctEdges [e, f] = [e, f] := by
  refine ⟨?_, distinctOn_sublist _ es, ?_, ?_, fun e he => ?_, fun _ _ => distinctEdges_pair⟩
  · refine distinctOn_congr fun e he f hf => ?_
    rw [Edge.digested, Edge.digested, Edge.fingerprint, Edge.fingerprint, Prod.mk.injEq,
      Prod.mk.injEq]
    exact and_congr_right fun _ => ⟨hdigest e he f hf, congrArg digest⟩
  · simp only [distinctEdges, distinctOn_eq_filter, ne_eq, Edge.fingerprint_eq_iff]
  · have hcoarser (e f : Edge) (h : e.fingerprint = f.fingerprint) : e.likeness = f.likeness :=
      Edge.likeness_eq_iff.2 (Edge.fingerprint_eq_iff.1 h).equivalent
    have hequivalent := distinctOn_eq_filter Edge.likeness es
    simp only [ne_eq, Edge.likeness_eq_iff] at hequivalent
    rw [← hequivalent, distinctEdges, distinctOn_eq_iff hcoarser]
    refine forall₂_congr fun e _ => forall₂_congr fun f _ => ?_
    rw [Edge.likeness_eq_iff, Edge.fingerprint_eq_iff]
    exact forall_congr' fun h => h.reordered_iff
  · have hmem : e.fingerprint ∈ (distinctEdges es).map Edge.fingerprint :=
      mem_map_distinctOn.2 (List.mem_map_of_mem he)
    obtain ⟨f, hf, hsame⟩ := List.mem_map.1 hmem
    exact ⟨f, hf, Edge.fingerprint_eq_iff.1 hsame⟩

/-- Edges of which the third and the last are repeats. -/
def Edge.repeated : List Edge :=
  [.plain "a" "b" "e", .weighted (.num (.int 1)), .plain "a" "b" "e",
    .weighted (.arr [.num (.int 1)]), .weighted (.arr [.str "1"]),
    ⟨"a", "b", ["e2", "e1"], .empty⟩, ⟨"a", "b", ["e1", "e2"], .empty⟩]

/-- The BLAKE3 digests of the texts of their properties. -/
def Edge.repeatedDigest (text : String) : Nat :=
  if text = "\x7b\x7d" then
    0x6e46dd10defc9b56c29a6ec56b508c21f54c08192194e4df25bf36f0c9c3c279
  else if text = "\x7b\"weight\":1\x7d" then
    0xc067867f47267cc3f55fdbc503b316501af9964a97818501c5f8c7031a5ea5ce
  else if text = "\x7b\"weight\":[1]\x7d" then
    0x7346708f386c9e1d1a6e37193e5d291e94467b4cc61e6c851cc21b9b697e8f2c
  else if text = "\x7b\"weight\":[\"1\"]\x7d" then
    0xa4cdc1209d23fedad06f2c721be6c5184d941b0693b717d3bf82a9ac578ce71a
  else 0

/-- The two repeats are dropped, in whichever order their labels come, and nothing else is. -/
theorem distinctEdges_exact_of_repeated :
    (∀ e ∈ Edge.repeated, ∀ f ∈ Edge.repeated,
      Edge.repeatedDigest e.properties.text = Edge.repeatedDigest f.properties.text →
        e.properties.text = f.properties.text) ∧
    distinctOn (Edge.digested Edge.repeatedDigest) Edge.repeated =
      [.plain "a" "b" "e", .weighted (.num (.int 1)), .weighted (.arr [.num (.int 1)]),
        .weighted (.arr [.str "1"]), ⟨"a", "b", ["e2", "e1"], .empty⟩] := by
  have hdigest : ∀ e ∈ Edge.repeated, ∀ f ∈ Edge.repeated,
      Edge.repeatedDigest e.properties.text = Edge.repeatedDigest f.properties.text →
        e.properties.text = f.properties.text := by decide +kernel
  obtain ⟨hdigested, -, hkept, -⟩ := distinctEdges_exact hdigest
  refine ⟨hdigest, ?_⟩
  rw [hdigested, hkept]
  decide

/-- Two edges that differ in nothing but the sign of a zero. -/
def Edge.zeros : List Edge := [.weighted (.zero false), .weighted (.zero true)]

/-- Both are kept, although they are equivalent. -/
theorem distinctEdges_keeps_zeros :
    (Edge.weighted (.zero false)).Equivalent (.weighted (.zero true)) ∧
    distinctEdges Edge.zeros = Edge.zeros ∧
    distinctEdges Edge.zeros ≠ (Edge.zeros.zipIdx.filter fun p : Edge × Nat =>
      decide (∀ f ∈ Edge.zeros.take p.2, ¬ f.Equivalent p.1)).map Prod.fst := by
  have hequivalent : (Edge.weighted (.zero false)).Equivalent (.weighted (.zero true)) :=
    ⟨rfl, rfl, .refl _, by decide⟩
  have hkept : distinctEdges Edge.zeros = Edge.zeros := distinctEdges_pair (by decide)
  refine ⟨hequivalent, hkept, ?_⟩
  rw [hkept]
  simp [Edge.zeros, hequivalent]

end DatasetGraph
