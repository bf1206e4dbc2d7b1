import DatasetGraph.Graph.Basic
import Mathlib.Data.List.Forall2

/-!
# Equal values

Values that are compared with each other, rather than written, are equal if they are built in the
same way and their numbers are equal.  An integer equals no double.  Of the doubles the two zeros are
equal, and they alone are written in two ways, so equal values need not have equal texts.

A value without the signs of its zeros (`Json.unsigned`) is what equality can see of it
(`Json.equal_iff`), and if no zero has a sign, then equal values are the same.
-/

namespace DatasetGraph

/-! ## Numbers -/

/-- The double, without its sign if it is zero. -/
def Double.unsigned (x : Double) : Double := if x.rank = 0 then ⟨false, 0, by decide⟩ else x

theorem Double.key_eq_iff {x y : Double} : x.key = y.key ↔ x.unsigned = y.unsigned := by
  obtain ⟨negative, rank, hrank⟩ := x
  obtain ⟨negative', rank', hrank'⟩ := y
  simp only [key, unsigned]
  cases negative <;> cases negative' <;> grind

namespace Number

/-- Whether two numbers are equal. -/
def equal : Number → Number → Bool
  | .int m, .int n => m = n
  | .double x, .double y => x.key = y.key
  | _, _ => false

/-- The number, without its sign if it is a double that is zero. -/
def unsigned : Number → Number
  | .int n => .int n
  | .double x => .double x.unsigned

theorem equal_iff {a b : Number} : equal a b = true ↔ a.unsigned = b.unsigned := by
  cases a <;> cases b <;> simp [equal, unsigned, Double.key_eq_iff]

end Number

namespace Json

/-! ## Values -/

mutual

/-- Whether two values are equal. -/
def equal : Json → Json → Bool
  | .null, .null => true
  | .bool a, .bool b => a = b
  | .num a, .num b => a.equal b
  | .str a, .str b => a = b
  | .arr a, .arr b => equalItems a b
  | .obj a, .obj b => equalMembers a b
  | _, _ => false

/-- Whether two lists of values are equal. -/
def equalItems : List Json → List Json → Bool
  | [], [] => true
  | a :: as, b :: bs => equal a b && equalItems as bs
  | _, _ => false

/-- Whether two lists of members are equal. -/
def equalMembers : List (String × Json) → List (String × Json) → Bool
  | [], [] => true
  | (j, a) :: as, (k, b) :: bs => j = k && equal a b && equalMembers as bs
  | _, _ => false

end

mutual

/-- The value with no zero that has a sign. -/
def unsigned : Json → Json
  | .num n => .num n.unsigned
  | .arr items => .arr (unsignedItems items)
  | .obj members => .obj (unsignedMembers members)
  | v => v

/-- Take the sign from the zeros in each value of a list. -/
def unsignedItems : List Json → List Json
  | [] => []
  | v :: vs => v.unsigned :: unsignedItems vs

/-- Take the sign from the zeros in each member of an object. -/
def unsignedMembers : List (String × Json) → List (String × Json)
  | [] => []
  | (k, v) :: ms => (k, v.unsigned) :: unsignedMembers ms

end

mutual

/-- Two values are equal if they are the same but for the signs of zeros. -/
theorem equal_iff : (a b : Json) → (equal a b = true ↔ a.unsigned = b.unsigned)
  | .null, b => by cases b <;> simp [equal, unsigned]
  | .bool a, b => by cases b <;> simp [equal, unsigned]
  | .num a, b => by cases b <;> simp [equal, unsigned, Number.equal_iff]
  | .str a, b => by cases b <;> simp [equal, unsigned]
  | .arr a, b => by
    cases b with
    | arr b => simp [equal, unsigned, equalItems_iff a b]
    | _ => simp [equal, unsigned]
  | .obj a, b => by
    cases b with
    | obj b => simp [equal, unsigned, equalMembers_iff a b]
    | _ => simp [equal, unsigned]

theorem equalItems_iff : (a b : List Json) →
    (equalItems a b = true ↔ unsignedItems a = unsignedItems b)
  | [], b => by cases b <;> simp [equalItems, unsignedItems]
  | a :: as, b => by
    cases b with
    | nil => simp [equalItems, unsignedItems]
    | cons b bs => simp [equalItems, unsignedItems, equal_iff a b, equalItems_iff as bs]

theorem equalMembers_iff : (a b : List (String × Json)) →
    (equalMembers a b = true ↔ unsignedMembers a = unsignedMembers b)
  | [], b => by cases b <;> simp [equalMembers, unsignedMembers]
  | (j, a) :: as, b => by
    cases b with
    | nil => simp [equalMembers, unsignedMembers]
    | cons b bs =>
      simp [equalMembers, unsignedMembers, equal_iff a b.2, equalMembers_iff as bs]

end

theorem unsignedMembers_eq_map (ms : List (String × Json)) :
    unsignedMembers ms = ms.map fun m => (m.1, m.2.unsigned) := by
  induction ms with
  | nil => rfl
  | cons m ms ih => rw [unsignedMembers, ih, List.map_cons]

end Json

/-! ## Properties and graphs -/

namespace Properties

/-- Whether two property maps are equal. -/
def equal (p q : Properties) : Bool := p.toJson.equal q.toJson

/-- The properties with no zero that has a sign. -/
def unsigned (p : Properties) : Properties := KeyMap.mapValues p Json.unsigned

theorem equal_iff {p q : Properties} : p.equal q = true ↔ p.unsigned = q.unsigned := by
  have hentries (r : Properties) : Json.unsignedMembers r.entries = r.unsigned.entries :=
    Json.unsignedMembers_eq_map r.entries
  have hext (r r' : Properties) : r.entries = r'.entries ↔ r = r' := by
    cases r
    cases r'
    rw [KeyMap.mk.injEq]
  rw [equal, Json.equal_iff, toJson, toJson, Json.ofMap, Json.ofMap, Json.unsigned, Json.unsigned,
    hentries, hentries, Json.obj.injEq, hext]

end Properties

/-- The nodes are equal, with their labels in the same order. -/
structure Node.Equal (m n : Node) : Prop where
  id : m.id = n.id
  labels : m.labels = n.labels
  properties : m.properties.equal n.properties = true

/-- The edges are equal, with their labels in the same order. -/
structure Edge.Equal (e f : Edge) : Prop where
  source : e.source = f.source
  target : e.target = f.target
  labels : e.labels = f.labels
  properties : e.properties.equal f.properties = true

/-- The graphs are equal: they list equal nodes and equal edges in the same order. -/
structure Graph.Equal (g h : Graph) : Prop where
  nodes : List.Forall₂ Node.Equal g.nodes h.nodes
  edges : List.Forall₂ Edge.Equal g.edges h.edges

/-- The node with no zero that has a sign. -/
def Node.unsigned (n : Node) : Node := { n with properties := n.properties.unsigned }

/-- The edge with no zero that has a sign. -/
def Edge.unsigned (e : Edge) : Edge := { e with properties := e.properties.unsigned }

theorem Node.equal_iff {m n : Node} : m.Equal n ↔ m.unsigned = n.unsigned := by
  rw [unsigned, unsigned, mk.injEq, ← Properties.equal_iff]
  exact ⟨fun h => ⟨h.id, h.labels, h.properties⟩, fun h => ⟨h.1, h.2.1, h.2.2⟩⟩

theorem Edge.equal_iff {e f : Edge} : e.Equal f ↔ e.unsigned = f.unsigned := by
  rw [unsigned, unsigned, mk.injEq, ← Properties.equal_iff]
  exact ⟨fun h => ⟨h.source, h.target, h.labels, h.properties⟩,
    fun h => ⟨h.1, h.2.1, h.2.2.1, h.2.2.2⟩⟩

/-- Lists have related members in the same places exactly if what the relation sees of them is the
same. -/
theorem forall₂_iff_map_eq {α β : Type} {R : α → α → Prop} {f : α → β}
    (hR : ∀ a b, R a b ↔ f a = f b) {xs ys : List α} :
    List.Forall₂ R xs ys ↔ xs.map f = ys.map f := by
  rw [← List.forall₂_eq_eq_eq, List.forall₂_map_left_iff, List.forall₂_map_right_iff]
  exact ⟨fun h => h.imp fun a b => (hR a b).1, fun h => h.imp fun a b => (hR a b).2⟩

theorem Graph.equal_iff {g h : Graph} : g.Equal h ↔
    g.nodes.map Node.unsigned = h.nodes.map Node.unsigned ∧
      g.edges.map Edge.unsigned = h.edges.map Edge.unsigned := by
  have hnodes (xs ys : List Node) :
      List.Forall₂ Node.Equal xs ys ↔ xs.map Node.unsigned = ys.map Node.unsigned :=
    forall₂_iff_map_eq fun m n => Node.equal_iff (m := m) (n := n)
  have hedges (xs ys : List Edge) :
      List.Forall₂ Edge.Equal xs ys ↔ xs.map Edge.unsigned = ys.map Edge.unsigned :=
    forall₂_iff_map_eq fun e f => Edge.equal_iff (e := e) (f := f)
  rw [← hnodes, ← hedges]
  exact ⟨fun hgh => ⟨hgh.nodes, hgh.edges⟩, fun hgh => ⟨hgh.1, hgh.2⟩⟩

instance (g h : Graph) : Decidable (g.Equal h) := decidable_of_iff _ Graph.equal_iff.symm

end DatasetGraph
