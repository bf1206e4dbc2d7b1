import DatasetGraph.Proofs.Date
import DatasetGraph.Proofs.Query.Order
import DatasetGraph.Proofs.Query.Selection

/-!
# Datasets by the day of their publication

A bound of a range is read to its end, while of the date of a dataset only the first ten bytes are
(`publicationDay?`), so that a time may follow the day.  A date that takes more than ten bytes, with
blanks before its numbers or with a long year, is a bound all the same.

So a dataset is not always found by its own date.  It is found exactly if the date is not cut, which
is when it has at most ten bytes, or the tenth of them does not end a character
(`found_by_own_date_iff`).  A date that is cut is no date any more, or it is read as an earlier day
of the month (`publicationDay?_cases`).
-/

namespace DatasetGraph

/-! ## Cutting a text -/

namespace Text

/-- The number of bytes of a text. -/
def byteCount (cs : List Char) : Nat := (cs.map Char.utf8Size).sum

/-- No beginning of the text has exactly `n` bytes, except the whole of it. -/
def Uncut (n : Nat) (cs : List Char) : Prop :=
  ∀ front rest, cs = front ++ rest → byteCount front = n → rest = []

@[simp] theorem byteCount_nil : byteCount [] = 0 := rfl

@[simp] theorem byteCount_cons (c : Char) (cs : List Char) :
    byteCount (c :: cs) = c.utf8Size + byteCount cs := by
  simp [byteCount]

theorem byteCount_append (cs ds : List Char) : byteCount (cs ++ ds) = byteCount cs + byteCount ds := by
  simp [byteCount]

theorem byteCount_eq_zero_iff {cs : List Char} : byteCount cs = 0 ↔ cs = [] := by
  cases cs with
  | nil => simp
  | cons c cs =>
    have := c.utf8Size_pos
    simp
    omega

theorem bytes?_eq_some_iff {n : Nat} {cs front : List Char} :
    bytes? n cs = some front ↔ ∃ rest, cs = front ++ rest ∧ byteCount front = n := by
  fun_induction bytes? n cs generalizing front with
  | case1 cs =>
    constructor
    · intro h
      cases h
      exact ⟨cs, rfl, rfl⟩
    · rintro ⟨rest, -, hzero⟩
      rw [byteCount_eq_zero_iff.1 hzero]
  | case2 n =>
    constructor
    · nofun
    · rintro ⟨rest, hnil, hcount⟩
      obtain ⟨rfl, -⟩ := List.append_eq_nil_iff.1 hnil.symm
      cases hcount
  | case3 n c cs hle ih =>
    constructor
    · intro h
      obtain ⟨front, hfront, rfl⟩ := Option.map_eq_some_iff.1 h
      obtain ⟨rest, rfl, hcount⟩ := ih.1 hfront
      exact ⟨rest, rfl, by rw [byteCount_cons]; omega⟩
    · rintro ⟨rest, happend, hcount⟩
      cases front with
      | nil => cases hcount
      | cons d front =>
        obtain ⟨rfl, rfl⟩ := List.cons.inj happend
        rw [byteCount_cons] at hcount
        exact Option.map_eq_some_iff.2 ⟨front, ih.2 ⟨rest, rfl, by omega⟩, rfl⟩
  | case4 n c cs hlt =>
    constructor
    · nofun
    · rintro ⟨rest, happend, hcount⟩
      cases front with
      | nil => cases hcount
      | cons d front =>
        obtain ⟨rfl, rfl⟩ := List.cons.inj happend
        rw [byteCount_cons] at hcount
        omega

/-- What is left of a text that is cut at the byte, or is kept whole where there is no cut. -/
theorem bytes?_getD_cases (n : Nat) (cs : List Char) :
    (Uncut n cs ∧ (bytes? n cs).getD cs = cs) ∨
      (¬ Uncut n cs ∧ ∃ rest, rest ≠ [] ∧ cs = (bytes? n cs).getD cs ++ rest) := by
  cases h : bytes? n cs with
  | none =>
    refine .inl ⟨fun front rest hcs hcount => ?_, rfl⟩
    rw [bytes?_eq_some_iff.2 ⟨rest, hcs, hcount⟩] at h
    cases h
  | some front =>
    obtain ⟨rest, hcs, hcount⟩ := bytes?_eq_some_iff.1 h
    by_cases hrest : rest = []
    · have hwhole : cs = front := by rw [hcs, hrest, List.append_nil]
      refine .inl ⟨fun front' rest' hcs' hcount' => ?_, hwhole.symm⟩
      have hsome := bytes?_eq_some_iff.2 ⟨rest', hcs', hcount'⟩
      rw [h] at hsome
      cases hsome
      simpa [hwhole] using hcs'
    · exact .inr ⟨fun huncut => hrest (huncut front rest hcs hcount), rest, hrest, hcs⟩

theorem uncut_of_byteCount_le {n : Nat} {cs : List Char} (h : byteCount cs ≤ n) : Uncut n cs := by
  rintro front rest rfl hcount
  rw [byteCount_append] at h
  exact byteCount_eq_zero_iff.1 (by omega)

end Text

open Text (trimChars Uncut byteCount)

/-! ## The date of a dataset -/

/-- The day of a dataset is the one that its date names as a bound, if the date is not cut.  If it is
cut, there is no day, or it is an earlier one of the month. -/
theorem publicationDay?_cases {t : String} {d : Date}
    (h : Date.ofChars (trimChars t.toList) = .ok d) :
    (Uncut 10 (trimChars t.toList) ∧ publicationDay? (.str t) = some d) ∨
      (¬ Uncut 10 (trimChars t.toList) ∧ ∀ e, publicationDay? (.str t) = some e →
        e.year = d.year ∧ e.month = d.month ∧ e.day < d.day) := by
  have hday : publicationDay? (.str t) = (Date.ofChars
      ((Text.bytes? 10 (trimChars t.toList)).getD (trimChars t.toList))).toOption := rfl
  rw [hday]
  rcases Text.bytes?_getD_cases 10 (trimChars t.toList) with ⟨huncut, hwhole⟩ | ⟨hcut, rest, hne, hcs⟩
  · refine .inl ⟨huncut, ?_⟩
    rw [hwhole, h]
    rfl
  · refine .inr ⟨hcut, fun e he => ?_⟩
    rw [hcs] at h
    cases hread : Date.ofChars ((Text.bytes? 10 (trimChars t.toList)).getD (trimChars t.toList)) with
    | error fault =>
      rw [hread] at he
      cases he
    | ok e' =>
      rw [hread] at he
      cases he
      exact Date.ofChars_append hread h hne

/-! ## Queries for a day -/

namespace Query

/-- A query for the datasets of the day that the text names, and with no other restriction. -/
structure IsForDay (q : Query) (t : String) : Prop where
  publishedFrom_eq : q.publishedFrom = some t
  publishedTo_eq : q.publishedTo = some t
  nodeIds_eq : q.nodeIds = []
  types_eq : q.types = []
  mimeTypes_eq : q.mimeTypes = []
  status_eq : q.status = []

theorem bound_eq_ok_iff {t : String} {d : Date} :
    bound t = .ok d ↔ Date.ofChars (trimChars t.toList) = .ok d := by
  rw [bound]
  cases Date.ofChars (trimChars t.toList) <;> simp

variable {q : Query} {t : String} {d : Date}

/-- The criteria of such a query. -/
theorem IsForDay.criteria_eq (hq : q.IsForDay t) (ht : bound t = .ok d) :
    q.criteria = .ok ⟨[], [], some d, some d, [], q.properties, q.orderBy, q.direction⟩ := by
  have hbound : bound? (some t) = .ok (some d) := by
    rw [bound?, ht]
    rfl
  have hrange : checkRange (some d) (some d) = .ok () := by
    rw [checkRange, Date.compare_eq_eq_iff.2 rfl, if_neg nofun]
  refine criteria_eq_ok_iff.2 ⟨[], [], some d, some d, ?_, ?_, ?_, ?_, hrange, ?_⟩
  · rw [hq.types_eq]
    rfl
  · rw [hq.mimeTypes_eq]
    rfl
  · rw [hq.publishedFrom_eq, hbound]
  · rw [hq.publishedTo_eq, hbound]
  · rw [hq.nodeIds_eq, hq.status_eq]
    rfl

end Query

namespace Criteria

variable {c : Criteria} {d : Date}

/-- Only the day itself lies between a day and the same day. -/
theorem acceptsDay_iff (hfirst : c.publishedFrom = some d) (hlast : c.publishedTo = some d)
    {e : Date} : c.acceptsDay e = true ↔ e = d := by
  rw [acceptsDay, hfirst, hlast, ← Date.compare_eq_eq_iff]
  cases hcompare : e.compare d <;> simp [hcompare]

theorem matchesRoot_iff_publicationDay? (hids : c.ids = []) (hstatus : c.status = [])
    (hfirst : c.publishedFrom = some d) (hlast : c.publishedTo = some d) {root : Node} {v : Json}
    (hroot : root.properties.get? "datePublished" = some v) :
    c.matchesRoot root = true ↔ publicationDay? v = some d := by
  have hday : c.matchesRoot root = (publicationDay? v).any c.acceptsDay := by
    simp [matchesRoot, acceptsId, acceptsStatus, acceptsDate, hids, hstatus, hfirst, hroot]
  rw [hday, Option.any_eq_true]
  constructor
  · rintro ⟨e, he, haccepts⟩
    rw [he, (acceptsDay_iff hfirst hlast).1 haccepts]
  · intro h
    exact ⟨d, h, (acceptsDay_iff hfirst hlast).2 rfl⟩

end Criteria

/-- A dataset is found by its own date exactly if that is not cut after ten bytes; dates of at most
ten bytes never are.  If the date is cut and still names a day, that is an earlier one of the
month. -/
theorem found_by_own_date_iff {t : String} {d : Date} (ht : Query.bound t = .ok d) {q : Query}
    (hq : q.IsForDay t) {root : Node}
    (hroot : root.properties.get? "datePublished" = some (.str t)) :
    ∃ c, q.criteria = .ok c ∧
      (c.matchesRoot root = true ↔ Uncut 10 (trimChars t.toList)) ∧
      (byteCount (trimChars t.toList) ≤ 10 → c.matchesRoot root = true) ∧
      ∀ e, publicationDay? (.str t) = some e →
        e = d ∨ (e.year = d.year ∧ e.month = d.month ∧ e.day < d.day) := by
  have hcases := publicationDay?_cases (Query.bound_eq_ok_iff.1 ht)
  have hfound : publicationDay? (.str t) = some d ↔ Uncut 10 (trimChars t.toList) := by
    rcases hcases with ⟨huncut, hday⟩ | ⟨hcut, hearlier⟩
    · exact ⟨fun _ => huncut, fun _ => hday⟩
    · exact ⟨fun hday => absurd (hearlier d hday).2.2 (Nat.lt_irrefl _), fun h => absurd h hcut⟩
  have hmatches := Criteria.matchesRoot_iff_publicationDay?
    (c := ⟨[], [], some d, some d, [], q.properties, q.orderBy, q.direction⟩) rfl rfl rfl rfl hroot
  refine ⟨_, hq.criteria_eq ht, hmatches.trans hfound, fun hle => ?_, fun e he => ?_⟩
  · exact hmatches.2 (hfound.2 (Text.uncut_of_byteCount_le hle))
  · rcases hcases with ⟨-, hday⟩ | ⟨-, hearlier⟩
    · rw [hday] at he
      exact .inl (Option.some.inj he).symm
    · exact .inr (hearlier e he)

/-- A query for one day. -/
def Query.forDay (t : String) : Query := { publishedFrom := some t, publishedTo := some t }

theorem Query.isForDay_forDay (t : String) : (Query.forDay t).IsForDay t :=
  ⟨rfl, rfl, rfl, rfl, rfl, rfl⟩

/-- A dataset of a date. -/
def Node.dated (t : String) : Node := .having "a" "datePublished" (.str t)

/-- A signed year and a month of one digit, with blanks around and inside, are found in ten bytes. -/
theorem found_by_own_date_of_ten_bytes :
    Query.bound " +2024-1- 5\t" = .ok ⟨2024, 1, 5⟩ ∧
    (Query.forDay " +2024-1- 5\t").IsForDay " +2024-1- 5\t" ∧
    (Node.dated " +2024-1- 5\t").properties.get? "datePublished" = some (.str " +2024-1- 5\t") ∧
    ∃ c, (Query.forDay " +2024-1- 5\t").criteria = .ok c ∧
      c.matchesRoot (.dated " +2024-1- 5\t") = true := by
  have hbound : Query.bound " +2024-1- 5\t" = .ok ⟨2024, 1, 5⟩ := by decide +kernel
  have hquery := Query.isForDay_forDay " +2024-1- 5\t"
  have hroot : (Node.dated " +2024-1- 5\t").properties.get? "datePublished" =
      some (.str " +2024-1- 5\t") := rfl
  obtain ⟨c, hc, -, hfound, -⟩ := found_by_own_date_iff hbound hquery hroot
  exact ⟨hbound, hquery, hroot, c, hc, hfound (by decide +kernel)⟩

/-- With a blank before its day a date takes eleven bytes, and the first ten name another day. -/
theorem own_date_is_cut :
    Query.bound "2024-01- 15" = .ok ⟨2024, 1, 15⟩ ∧
    (Node.dated "2024-01- 15").properties.get? "datePublished" = some (.str "2024-01- 15") ∧
    ∃ c, (Query.forDay "2024-01- 15").criteria = .ok c ∧
      publicationDay? (.str "2024-01- 15") = some ⟨2024, 1, 1⟩ ∧
      c.matchesRoot (.dated "2024-01- 15") = false := by
  have hbound : Query.bound "2024-01- 15" = .ok ⟨2024, 1, 15⟩ := by decide +kernel
  exact ⟨hbound, rfl, _, (Query.isForDay_forDay _).criteria_eq hbound, by decide +kernel,
    by decide +kernel⟩

end DatasetGraph
