import DatasetGraph.CommandLine.DatabaseFile

/-!
# Where a database is kept

A database that was opened and can be changed is kept in a file.  The file is not the device that is
always empty (`Workspace.kept_ne_nullDevice`): a database in it would be blank, so it would have to
be set up, and that cannot be kept.

What an opening results in is followed through its steps by `Opening.Yields`, whatever they do to
the files.
-/

namespace DatasetGraph.CommandLine

namespace Opening

variable {α β : Type} {P : α → Prop} {Q : β → Prop}

/-- Whatever a step results in has a property. -/
def Yields (x : Opening α) (P : α → Prop) : Prop :=
  ∀ ⦃w w' : Workspace⦄ ⦃a : α⦄, x.run.run w = (.ok a, w') → P a

theorem yields_true (x : Opening α) : Yields x fun _ => True := fun _ _ _ _ => trivial

theorem yields_pure {a : α} (h : P a) : Yields (pure a) P := by
  intro w w' b hb
  cases hb
  exact h

theorem yields_throw (e : OpeningFault) : Yields (throw e : Opening α) P := by
  intro w w' a ha
  cases ha

theorem Yields.bind {x : Opening β} {f : β → Opening α} (hx : Yields x Q)
    (hf : ∀ b, Q b → Yields (f b) P) : Yields (x >>= f) P := by
  intro w w' a h
  have hbind : (x >>= f).run.run w =
      match x.run.run w with
      | (.ok b, w₀) => (f b).run.run w₀
      | (.error e, w₀) => (.error e, w₀) := by
    simp only [ExceptT.run_bind, StateT.run_bind]
    show (_ : Except _ _ × _) = _
    obtain ⟨_ | b, w₀⟩ := x.run.run w <;> rfl
  rw [hbind] at h
  split at h
  · next hb => exact hf _ (hx hb) h
  · cases h

theorem yields_throw_bind (e : OpeningFault) (f : β → Opening α) : Yields (throw e >>= f) P :=
  .bind (yields_throw e) fun _ h => False.elim h

/-! ## The place -/

/-- A session that keeps its database keeps it at a place. -/
def KeepsAt (l : Location) (session : Session) : Prop :=
  ∀ l' logged journaled s, session = .kept l' logged journaled s → l' = l

theorem setUp_keepsAt (n : DatabaseName) (l : Location) (i : Image) (logging : Bool) :
    Yields (setUp n l i logging) (KeepsAt l) := by
  unfold setUp
  refine .bind (yields_true _) fun w _ => ?_
  dsimp only
  split
  · refine yields_pure ?_
    split <;> simp +contextual [KeepsAt]
  · exact yields_pure (by simp [KeepsAt])
  · exact yields_throw _
  · -- Only the last step of setting up tables results in a session.
    repeat' first
      | exact yields_throw _
      | exact yields_pure (by simp +contextual [KeepsAt])
      | refine .bind (yields_true _) fun _ _ => ?_
      | split

theorem readPage_keepsAt (n : DatabaseName) (l : Location) (logging : Bool) :
    Yields (readPage n l logging) (KeepsAt l) := by
  unfold readPage
  repeat' first
    | exact yields_throw _
    | exact setUp_keepsAt n l _ _
    | refine .bind (yields_true _) fun _ _ => ?_
    | split
    | dsimp only

/-! ## The device that is always empty -/

theorem keepJournal_nullDevice (unmade unkept : OpeningFault) :
    Yields (keepJournal .nullDevice unmade unkept) fun _ => False := by
  unfold keepJournal
  refine .bind (yields_true _) fun w _ => ?_
  dsimp only
  split
  · exact yields_throw_bind _ _
  · refine .bind (yields_true _) fun _ _ => ?_
    rw [if_pos (by simp [Workspace.file?])]
    exact yields_throw _

theorem startLog_nullDevice (n : DatabaseName) (i : Image) :
    Yields (startLog n .nullDevice i) fun _ => False := by
  unfold startLog
  refine .bind (yields_true _) fun w _ => ?_
  dsimp only
  split
  · exact yields_throw_bind _ _
  · exact .bind (keepJournal_nullDevice _ _) fun _ h => h.elim

theorem setUp_nullDevice (n : DatabaseName) :
    Yields (setUp n .nullDevice .blank false) fun _ => False := by
  unfold setUp Image.blank
  dsimp only
  refine .bind (yields_true _) fun w _ => ?_
  repeat' first
    | exact yields_throw _
    | exact yields_throw_bind _ _
    | exact .bind (keepJournal_nullDevice _ _) fun _ h => h.elim
    | split

theorem readPage_nullDevice (n : DatabaseName) :
    Yields (readPage n .nullDevice false) fun _ => False := by
  unfold readPage
  refine .bind (yields_true _) fun w _ => ?_
  have himage : w.image? .nullDevice = some .blank := by
    simp [Workspace.image?, Workspace.isBlank, Workspace.file?]
  rw [himage]
  simp only [show Image.blank.logged = false from rfl, show Image.blank.flaw = none from rfl,
    Bool.false_and, Bool.or_false, Bool.false_eq_true, if_false]
  split
  · exact .bind (startLog_nullDevice n _) fun _ h => h.elim
  · exact setUp_nullDevice n

/-- There is no log to be taken over. -/
theorem takeLog_nullDevice (n : DatabaseName) :
    Yields (takeLog n .nullDevice) fun logging => logging = false := by
  unfold takeLog
  refine .bind (yields_true _) fun w _ => ?_
  have hblank : w.isBlank .nullDevice = true := by simp [Workspace.isBlank, Workspace.file?]
  simp only [hblank, if_true]
  repeat' first
    | exact yields_pure rfl
    | exact yields_throw_bind _ _
    | refine .bind (yields_true _) fun _ _ => ?_
    | split

theorem openFile_place (n : DatabaseName) :
    Yields (openFile n) fun session => ∀ l logged journaled s,
      session = .kept l logged journaled s → l ≠ .nullDevice := by
  unfold openFile
  refine .bind (yields_true _) fun l _ => ?_
  have hplace (logging : Bool) (h : l = .nullDevice → logging = false) :
      Yields (readPage n l logging) fun session => ∀ l logged journaled s,
        session = .kept l logged journaled s → l ≠ .nullDevice := by
    rintro w w' _ hsession l' logged journaled s rfl rfl
    cases readPage_keepsAt n l logging hsession _ _ _ _ rfl
    rw [h rfl] at hsession
    exact readPage_nullDevice n hsession
  split
  · exact hplace false fun _ => rfl
  · refine .bind (yields_true _) fun _ _ => .bind (yields_true _) fun _ _ => ?_
    by_cases hl : l = .nullDevice
    · subst hl
      exact .bind (takeLog_nullDevice n) fun logging h => hplace logging fun _ => h
    · exact .bind (yields_true _) fun logging _ => hplace logging fun h => absurd h hl

end Opening

namespace Workspace

variable {w w' : Workspace} {name : String} {l : Location} {logged journaled : Bool}
  {s : TableStore}

/-- No database is kept in the device that is always empty. -/
theorem kept_ne_nullDevice (h : w.openNamed name = (.ok (.kept l logged journaled s), w')) :
    l ≠ .nullDevice := by
  rw [openNamed] at h
  split at h
  · next n _ =>
    rw [openDatabase] at h
    split at h
    · split at h <;> cases h
    · exact Opening.openFile_place n h l logged journaled s rfl
  · cases h

/-- After it is closed, a database is in its file. -/
theorem file?_close (w : Workspace) (hl : l ≠ .nullDevice) (logged journaled : Bool)
    (s : TableStore) :
    (w.close (.kept l logged journaled s)).file? l = some (.database s logged) := by
  simp [close, put, file?, hl]

/-- A directory with nothing in it but a database that holds a store. -/
def ofStore (s : TableStore) : Workspace := ⟨[(⟨.above 0, ["d"]⟩, .database s true)]⟩

/-- Whatever store is in a file, the database is opened with it. -/
theorem openNamed_ofStore (s : TableStore) : (ofStore s).openNamed "d" =
    (.ok (.kept ⟨.above 0, ["d"]⟩ true false s), ofStore s) := rfl

end Workspace

end DatasetGraph.CommandLine
