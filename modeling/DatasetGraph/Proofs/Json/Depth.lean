import DatasetGraph.Json.Reader
import DatasetGraph.Proofs.Json.Written

/-!
# How deep what is read is nested

Each list or object that is open in a text is a frame of the reader, and with `maxDepth` of them open
no further one becomes a value.  So whatever stands in a frame is nested the less deep the more frames
there are below it (`Frame.Shallow`), and no text has a source that is nested deeper than `maxDepth`
(`depth_ofText`).

A decoder that takes a source apart reads its values from the parts, so what it reads is nested less
deep than the source (`Decoder.Encloses`).
-/

namespace DatasetGraph.Json

/-! ## Values -/

theorem depthMembers_le_iff {ms : List (String × Json)} {n : Nat} :
    depthMembers ms ≤ n ↔ ∀ m ∈ ms, m.2.depth ≤ n := by
  induction ms with
  | nil => simp [depthMembers]
  | cons m ms ih => rw [depthMembers, Nat.max_le, ih, List.forall_mem_cons]

mutual

theorem depth_reread : (v : Json) → v.reread.depth = v.depth
  | .null | .bool _ | .num _ | .str _ => by simp [reread, depth]
  | .arr items => by simp [reread, depth, depthItems_reread items]
  | .obj members => by simp [reread, depth, depthMembers_reread members]

theorem depthItems_reread : (vs : List Json) → depthItems (rereadItems vs) = depthItems vs
  | [] => by simp [rereadItems]
  | v :: vs => by simp [rereadItems, depthItems, v.depth_reread, depthItems_reread vs]

theorem depthMembers_reread :
    (ms : List (String × Json)) → depthMembers (rereadMembers ms) = depthMembers ms
  | [] => by simp [rereadMembers]
  | (_, v) :: ms => by
    simp [rereadMembers, depthMembers, v.depth_reread, depthMembers_reread ms]

end

/-! ## Sources -/

namespace Source

mutual

/-- How deep lists and objects are nested in a source. -/
def depth : Source → Nat
  | .arr items _ => depthItems items + 1
  | .obj members _ => depthMembers members + 1
  | _ => 0

/-- How deep the items of a list are nested. -/
def depthItems : List Source → Nat
  | [] => 0
  | s :: ss => max s.depth (depthItems ss)

/-- How deep the members of an object are nested. -/
def depthMembers : List (Option String × Source) → Nat
  | [] => 0
  | (_, s) :: ms => max s.depth (depthMembers ms)

end

theorem depthItems_le_iff {ss : List Source} {n : Nat} :
    depthItems ss ≤ n ↔ ∀ s ∈ ss, s.depth ≤ n := by
  induction ss with
  | nil => simp [depthItems]
  | cons s ss ih => rw [depthItems, Nat.max_le, ih, List.forall_mem_cons]

theorem depthMembers_le_iff {ms : List (Option String × Source)} {n : Nat} :
    depthMembers ms ≤ n ↔ ∀ m ∈ ms, m.2.depth ≤ n := by
  induction ms with
  | nil => simp [depthMembers]
  | cons m ms ih => rw [depthMembers, Nat.max_le, ih, List.forall_mem_cons]

theorem depth_lt_of_mem_items {ss : List Source} {s : Source} (h : s ∈ ss) (ending : Ending) :
    s.depth < (arr ss ending).depth :=
  Nat.lt_succ_of_le (depthItems_le_iff.1 (Nat.le_refl _) s h)

theorem depth_lt_of_mem_members {ms : List (Option String × Source)} {m : Option String × Source}
    (h : m ∈ ms) (ending : Ending) : m.2.depth < (obj ms ending).depth :=
  Nat.lt_succ_of_le (depthMembers_le_iff.1 (Nat.le_refl _) m h)

mutual

theorem depth_of_read? : (s : Source) → {v : Json} → s.read? = some v → v.depth ≤ s.depth
  | .null, _, rfl | .bool _, _, rfl | .num _, _, rfl | .str _, _, rfl => Nat.le_refl 0
  | .arr ss _, _, h => by
    obtain ⟨_, vs, hvs, rfl⟩ := read?_arr_eq_some_iff.1 h
    exact Nat.succ_le_succ (depthItems_of_readItems? ss hvs)
  | .obj ms _, _, h => by
    obtain ⟨_, kvs, hkvs, rfl⟩ := read?_obj_eq_some_iff.1 h
    refine Nat.succ_le_succ (Json.depthMembers_le_iff.2 fun m hm => ?_)
    exact Json.depthMembers_le_iff.1 (depthMembers_of_readMembers? ms hkvs) m
      (KeyMap.mem_of_mem_entries_ofList hm)

theorem depthItems_of_readItems? : (ss : List Source) → {vs : List Json} →
    readItems? ss = some vs → Json.depthItems vs ≤ depthItems ss
  | [], _, rfl => Nat.le_refl 0
  | s :: ss, vs, h => by
    rw [readItems?] at h
    split at h
    · next hs hss =>
      cases h
      have hhead := depth_of_read? s hs
      have htail := depthItems_of_readItems? ss hss
      rw [Json.depthItems, depthItems]
      omega
    · cases h

theorem depthMembers_of_readMembers? : (ms : List (Option String × Source)) →
    {kvs : List (String × Json)} → readMembers? ms = some kvs →
    Json.depthMembers kvs ≤ depthMembers ms
  | [], _, rfl => Nat.le_refl 0
  | (k, s) :: ms, kvs, h => by
    unfold readMembers? at h
    split at h
    · next hs hms =>
      cases h
      have hhead := depth_of_read? s hs
      have htail := depthMembers_of_readMembers? ms hms
      rw [Json.depthMembers, depthMembers]
      omega
    · cases h

end

mutual

theorem depth_ofJson : (v : Json) → (ofJson v).depth = v.depth
  | .null | .bool _ | .num _ | .str _ => by simp [ofJson, depth, Json.depth]
  | .arr vs => by simp [ofJson, depth, Json.depth, depthItems_ofItems vs]
  | .obj ms => by simp [ofJson, depth, Json.depth, depthMembers_ofMembers ms]

theorem depthItems_ofItems : (vs : List Json) → depthItems (ofItems vs) = Json.depthItems vs
  | [] => by simp [ofItems, depthItems, Json.depthItems]
  | v :: vs => by simp [ofItems, depthItems, Json.depthItems, depth_ofJson v, depthItems_ofItems vs]

theorem depthMembers_ofMembers :
    (ms : List (String × Json)) → depthMembers (ofMembers ms) = Json.depthMembers ms
  | [] => by simp [ofMembers, depthMembers, Json.depthMembers]
  | (k, v) :: ms => by
    simp [ofMembers, depthMembers, Json.depthMembers, depth_ofJson v, depthMembers_ofMembers ms]

end

end Source

/-! ## Texts -/

namespace Frame

/-- What has been put into a frame so far. -/
def sources : Frame → List Source
  | .firstItem | .firstKey => []
  | .nextItem before | .afterItem before => before
  | .nextKey before | .afterKey before _ | .member before _ | .afterMember before =>
    before.map Prod.snd

/-- How deep a value may be nested that is put on top of the frames. -/
def room (stack : List Frame) : Nat := maxDepth - stack.length

/-- What stands in a frame is nested no deeper than there was room for. -/
def Shallow : List Frame → Prop
  | [] => True
  | frame :: stack => (∀ s ∈ frame.sources, s.depth ≤ room (frame :: stack)) ∧ Shallow stack

/-- Nothing too deep is handed on. -/
def Step.Shallow : Step → Prop
  | .goOn stack => Frame.Shallow stack
  | .complete value => value.depth ≤ maxDepth
  | .fault => True

variable {stack : List Frame} {value : Source}

theorem room_eq (h : stack.length < maxDepth) (frame : Frame) :
    room (frame :: stack) + 1 = room stack := by
  rw [room, room, List.length_cons]
  omega

theorem shallow_place (hvalue : value.depth ≤ room stack) (h : Shallow stack) :
    (place value stack).Shallow := by
  cases stack with
  | nil => exact hvalue
  | cons frame stack =>
    obtain ⟨hframe, hstack⟩ := h
    cases frame with
    | firstItem => exact ⟨List.forall_mem_singleton.2 hvalue, hstack⟩
    | nextItem before => exact ⟨List.forall_mem_cons.2 ⟨hvalue, hframe⟩, hstack⟩
    | member before key => exact ⟨List.forall_mem_cons.2 ⟨hvalue, hframe⟩, hstack⟩
    | _ => trivial

/-- A list or object that closes has room if its parts had room inside it. -/
theorem shallow_close (frame : Frame) (hvalue : value.depth ≤ room (frame :: stack) + 1)
    (h : Shallow stack) : (close value stack).Shallow := by
  refine shallow_place ?_ h
  split
  · next hlt => exact room_eq hlt frame ▸ hvalue
  · exact Nat.zero_le _

theorem shallow_start {frame : Frame} (hframe : frame.sources = []) (h : Shallow stack) :
    (start frame stack).Shallow := by
  rw [start]
  split
  · refine ⟨?_, h⟩
    rw [hframe]
    exact List.forall_mem_nil _
  · trivial

theorem shallow_text (key : Option String) (hvalue : value.depth = 0) (h : Shallow stack) :
    (text key value stack).Shallow := by
  unfold text
  split
  · exact ⟨nofun, h.2⟩
  · exact h
  · exact shallow_place (hvalue ▸ Nat.zero_le _) h

theorem depth_arr_reverse_le {before : List Source} {n : Nat} (h : ∀ s ∈ before, s.depth ≤ n)
    (ending : Ending) : (Source.arr before.reverse ending).depth ≤ n + 1 :=
  Nat.succ_le_succ (Source.depthItems_le_iff.2 fun s hs => h s (List.mem_reverse.1 hs))

theorem depth_obj_reverse_le {before : List (Option String × Source)} {n : Nat}
    (h : ∀ s ∈ before.map Prod.snd, s.depth ≤ n) (ending : Ending) :
    (Source.obj before.reverse ending).depth ≤ n + 1 :=
  Nat.succ_le_succ (Source.depthMembers_le_iff.2 fun m hm =>
    h m.2 (List.mem_map_of_mem (List.mem_reverse.1 hm)))

/-- A token puts nothing into the frames for which there is no room. -/
theorem shallow_step (h : Shallow stack) (t : Token) : (step stack t).Shallow := by
  unfold step
  split
  · exact shallow_start rfl h
  · exact shallow_start rfl h
  · exact shallow_close .firstItem (Nat.le_add_left 1 _) h.2
  · exact shallow_close _ (depth_arr_reverse_le h.1 .closed) h.2
  · exact shallow_close .firstKey (Nat.le_add_left 1 _) h.2
  · exact shallow_close _ (depth_obj_reverse_le h.1 .closed) h.2
  · exact h
  · exact h
  · exact h
  · exact shallow_place (Nat.zero_le _) h
  · exact shallow_place (Nat.zero_le _) h
  · exact shallow_place (Nat.zero_le _) h
  · exact shallow_place (Nat.zero_le _) h
  · exact shallow_text _ rfl h
  · exact shallow_text _ rfl h
  · trivial

theorem depth_cutOff_le {inner : Source} {frame : Frame} {n : Nat} (hinner : inner.depth ≤ n)
    (hframe : ∀ s ∈ frame.sources, s.depth ≤ n) : (cutOff inner frame).depth ≤ n + 1 := by
  have hitems (before : List Source) (h : ∀ s ∈ before, s.depth ≤ n) :
      (Source.arr (before.reverse ++ [inner]) .cut).depth ≤ n + 1 := by
    rw [← List.reverse_cons]
    exact depth_arr_reverse_le (List.forall_mem_cons.2 ⟨hinner, h⟩) .cut
  have hmembers {before : List (Option String × Source)} {key : Option String} {s : Source}
      (hs : s.depth ≤ n) (h : ∀ s ∈ before.map Prod.snd, s.depth ≤ n) :
      (Source.obj (before.reverse ++ [(key, s)]) .cut).depth ≤ n + 1 := by
    rw [← List.reverse_cons]
    refine depth_obj_reverse_le ?_ .cut
    rw [List.map_cons]
    exact List.forall_mem_cons.2 ⟨hs, h⟩
  cases frame with
  | firstItem => exact hitems [] nofun
  | nextItem before => exact hitems before hframe
  | afterItem before => exact depth_arr_reverse_le hframe .cut
  | firstKey => exact Nat.le_add_left 1 n
  | nextKey before => exact depth_obj_reverse_le hframe .cut
  | afterKey before key => exact hmembers (Nat.zero_le n) hframe
  | member before key => exact hmembers hinner hframe
  | afterMember before => exact depth_obj_reverse_le hframe .cut

theorem depth_cutOffAll_le {inner : Source} (hinner : inner.depth ≤ room stack)
    (h : Shallow stack) : (cutOffAll inner stack).depth ≤ maxDepth := by
  induction stack generalizing inner with
  | nil => exact hinner
  | cons frame stack ih =>
    refine ih ?_ h.2
    split
    · next hlt => exact room_eq hlt frame ▸ depth_cutOff_le hinner h.1
    · exact Nat.zero_le _

theorem depth_run_le (h : Shallow stack) (ts : List Token) :
    (run stack ts).source.depth ≤ maxDepth := by
  induction ts generalizing stack with
  | nil => exact depth_cutOffAll_le (Nat.zero_le _) h
  | cons t ts ih =>
    have hstep := shallow_step h t
    rw [run]
    cases hs : step stack t with
    | goOn stack' =>
      rw [hs] at hstep
      exact ih hstep
    | complete value =>
      rw [hs] at hstep
      exact hstep
    | fault => exact depth_cutOffAll_le (Nat.zero_le _) h

end Frame

/-- No text has a source that is nested deeper than values may be. -/
theorem depth_ofText (text : String) : (Reading.ofText text).source.depth ≤ maxDepth := by
  have hempty : Frame.Shallow [] := trivial
  exact Frame.depth_run_le hempty _

/-! ## Decoders -/

namespace Decoder

variable {α : Type} {d : Decoder α} {holds : α → Json → Prop} {k : Nat}

/-- The values that something holds which is read lie at least so many levels inside the source. -/
def Encloses (k : Nat) (holds : α → Json → Prop) (d : Decoder α) : Prop :=
  ∀ ⦃s : Source⦄ ⦃x : α⦄ ⦃v : Json⦄, d s = .ok x → holds x v → v.depth + k ≤ s.depth

theorem value_encloses : Encloses 0 Eq value := by
  rintro s v _ hv rfl
  exact Source.depth_of_read? s (value_eq_ok_iff.1 hv)

theorem map_encloses : Encloses 1 (fun m v => ∃ key, m.get? key = some v) map := by
  rintro s m v hm ⟨key, hv⟩
  refine Nat.le_trans ?_ (Source.depth_of_read? s (map_eq_ok_iff.1 hm))
  exact Nat.succ_le_succ (depthMembers_le_iff.1 (Nat.le_refl _) _ (KeyMap.get?_eq_some_iff.1 hv))

theorem Encloses.optional (hd : Encloses k holds d) :
    Encloses k (fun o v => ∃ x, o = some x ∧ holds x v) (optional d) := by
  rintro s _ v ho ⟨x, rfl, hx⟩
  exact hd (optional_eq_ok_some_iff.1 ho).2 hx

theorem Encloses.list (hd : Encloses k holds d) :
    Encloses (k + 1) (fun xs v => ∃ x ∈ xs, holds x v) (list d) := by
  rintro _ xs v hxs ⟨x, hx, hv⟩
  obtain ⟨ss, ending, rfl, _, hss⟩ := list_eq_ok_iff.1 hxs
  obtain ⟨s, hs, hread⟩ := (Source.Correspond.of_forall₂ hss).exists_partner hx
  exact Nat.lt_of_le_of_lt (hd hread hv) (Source.depth_lt_of_mem_items hs ending)

/-! ### Parts of a record -/

variable {p : String → Bool} {ms : List (Option String × Source)} {x : α} {v : Json}

/-- The value of a field lies inside the object. -/
theorem Holds.depth_lt {default : Option α} (h : Holds p d default ms x) (hd : Encloses k holds d)
    (hdefault : ∀ y ∈ default, ¬holds y v) (hv : holds x v) (ending : Ending) :
    v.depth + k < (Source.obj ms ending).depth := by
  rcases h with ⟨_, hx⟩ | ⟨s, hs, hx⟩
  · exact absurd hv (hdefault x hx)
  · obtain ⟨m, hm, rfl⟩ := List.mem_map.1 (hs ▸ List.mem_singleton_self s : s ∈ under p ms)
    exact Nat.lt_of_le_of_lt (hd hx hv)
      (Source.depth_lt_of_mem_members (List.mem_filter.1 hm).1 ending)

/-- So does what is left. -/
theorem Rest.depth_lt {m : KeyMap Json} (h : Rest p ms m) {key : String} (hv : m.get? key = some v)
    (ending : Ending) : v.depth < (Source.obj ms ending).depth := by
  obtain ⟨kvs, hkvs, rfl⟩ := h
  have hmem := KeyMap.mem_of_mem_entries_ofList (KeyMap.get?_eq_some_iff.1 hv)
  have hothers := Json.depthMembers_le_iff.1 (Source.depthMembers_of_readMembers? _ hkvs) _ hmem
  refine Nat.lt_succ_of_le (Nat.le_trans hothers (Source.depthMembers_le_iff.2 fun a ha => ?_))
  exact Source.depthMembers_le_iff.1 (Nat.le_refl _) a (List.mem_filter.1 ha).1

section

variable {ending : Ending} {ss rest : List Source} {o : Option α}

theorem depthItems_rest_le (h : takeItem d ending ss = .ok (o, rest)) :
    Source.depthItems rest ≤ Source.depthItems ss := by
  cases ss with
  | nil =>
    obtain ⟨_, _, h⟩ := Fallible.bind_eq_ok_iff.1 h
    cases h
    exact Nat.le_refl _
  | cons s ss =>
    obtain ⟨_, _, h⟩ := Fallible.bind_eq_ok_iff.1 h
    cases h
    exact Nat.le_max_right _ _

/-- The value of an item lies inside the list. -/
theorem takeItem_depth_le (h : takeItem d ending ss = .ok (o, rest)) (hd : Encloses k holds d) {y : α}
    (hy : ¬holds y v) (hv : holds (o.getD y) v) : v.depth + k ≤ Source.depthItems ss := by
  cases o with
  | none => exact absurd hv hy
  | some x =>
    cases ss with
    | nil =>
      obtain ⟨_, _, h⟩ := Fallible.bind_eq_ok_iff.1 h
      cases h
    | cons s ss =>
      obtain ⟨_, hx, h⟩ := Fallible.bind_eq_ok_iff.1 h
      cases h
      exact Nat.le_trans (hd hx hv) (Nat.le_max_left _ _)

end

end Decoder

end DatasetGraph.Json
