import DatasetGraph.CommandLine.DatabaseSetup
import DatasetGraph.Store.Table

/-!
# Files that are databases

The file of a database consists of pages.  The first page starts with a header of a hundred octets:
a mark, the size of the pages, two versions that a program has to know if it wants to write or to
read the file, three constants, a count of changes, how many pages there are, how the definitions
are written, and the number of the setup.  The page goes on with the entries of what is defined.

A text is such a file if its octets are.
-/

namespace DatasetGraph.CommandLine

/-! ## Octets -/

namespace Octets

/-- The octet at a place; behind the end there are zeros. -/
def octet (bs : ByteArray) (i : Nat) : Nat := if h : i < bs.size then bs[i].toNat else 0

/-- The number of so many octets, the most significant first. -/
def number (bs : ByteArray) (i count : Nat) : Nat :=
  (List.range count).foldl (fun n k => 0x100 * n + Octets.octet bs (i + k)) 0

/-- A number of at most nine octets, each of which but a ninth says by its highest bit whether
another follows; the result is the number and the place behind it. -/
def packed (bs : ByteArray) : (more i n : Nat) → Nat × Nat
  | 0, i, n => (0x100 * n + Octets.octet bs i, i + 1)
  | more + 1, i, n =>
    let octet := Octets.octet bs i
    if octet < 0x80 then (0x80 * n + octet, i + 1)
    else packed bs more (i + 1) (0x80 * n + (octet - 0x80))

/-- The text of so many octets. -/
def text (bs : ByteArray) (i count : Nat) : String :=
  String.ofList ((List.range count).map fun k => Char.ofNat (Octets.octet bs (i + k)))

end Octets

/-! ## Images -/

/-- What has been set up in a database. -/
inductive Contents where
  /-- The tables, with what they hold. -/
  | tables (store : TableStore)
  /-- Not yet the tables, but perhaps something else. -/
  | unset (objects : List SchemaObject)
  /-- No tables, though it is marked as set up. -/
  | bare
  /-- What a later program has set up. -/
  | ahead
deriving DecidableEq

/-- What a file says about the database that it is. -/
structure Image where
  contents : Contents
  /-- Whether changes go through a log. -/
  logged : Bool := false
  /-- Whether a program has to be newer to write it. -/
  guarded : Bool := false
  /-- What is wrong with its first page. -/
  flaw : Option DatabaseFault := none
  /-- Whether it turns out to be malformed when its first page is changed. -/
  damaged : Bool := false
deriving DecidableEq

namespace Image

/-- The database that holds nothing yet. -/
def blank : Image := { contents := .unset [] }

/-! ### The first page -/

/-- The mark of a database. -/
def mark : String := "SQLite format 3\x00"

/-- The sizes that pages have. -/
def pageSizes : List Nat := [0x200, 0x400, 0x800, 0x1000, 0x2000, 0x4000, 0x8000, 0x10000]

/-- The least part of a page that is used. -/
def minUsable : Nat := 480

/-- The size of the pages. -/
def pageSize (bs : ByteArray) : Nat := 0x100 * Octets.octet bs 16 + 0x10000 * Octets.octet bs 17

/-- The part of a page that is used. -/
def usableSize (bs : ByteArray) : Nat := pageSize bs - Octets.octet bs 20

/-- How many pages the file has. -/
def filePages (bs : ByteArray) : Nat := (bs.size + pageSize bs - 1) / pageSize bs

/-- How many pages the database has: those of the file unless the header has counted them at the
last change. -/
def pages (bs : ByteArray) : Nat :=
  let counted := Octets.number bs 28 4
  if counted = 0 ∨ Octets.number bs 24 4 ≠ Octets.number bs 92 4 then filePages bs else counted

/-- How many entries the first page has. -/
def entries (bs : ByteArray) : Nat := Octets.number bs 103 2

/-- Whether it is not known which part of the first page is free.  That part has to start behind the
places of the entries and to end with the page. -/
def isCramped (bs : ByteArray) : Bool :=
  let top := Octets.number bs 105 2
  let top := if top = 0 then 0x10000 else top
  let gap := Octets.number bs 101 2
  let free := top + Octets.octet bs 107
  (gap ≠ 0 && gap < top) || usableSize bs < free || free < 108 + 2 * entries bs

/-- Whether the last page of a table that is noted lies behind the end. -/
def isOverrun (bs : ByteArray) : Bool := pages bs < Octets.number bs 52 4

/-! ### Entries -/

/-- The kind of thing that an entry is for. -/
def kindOf? (word : String) : Option ObjectKind :=
  [ObjectKind.table, .view, .index].find? fun k => k.word = word

/-- How many octets a value takes, by its type. -/
def extent (type : Nat) : Nat :=
  if 12 ≤ type then (type - 12) / 2 else [0, 1, 2, 3, 4, 6, 8, 8].getD type 0

/-- The entry at a place: behind its size and its number, the size and the types of its values, and
then the values, of which the first two are the kind and the name. -/
def entry? (bs : ByteArray) (i : Nat) : Option SchemaObject := do
  let (_, i) := Octets.packed bs 8 i 0
  let (_, start) := Octets.packed bs 8 i 0
  let (size, i) := Octets.packed bs 8 start 0
  let (kindType, i) := Octets.packed bs 8 i 0
  let (nameType, _) := Octets.packed bs 8 i 0
  let kind ← kindOf? (Octets.text bs (start + size) (extent kindType))
  return ⟨kind, Octets.text bs (start + size + extent kindType) (extent nameType)⟩

/-- The things that are defined. -/
def objects? (bs : ByteArray) : Option (List SchemaObject) :=
  (List.range (entries bs)).mapM fun k => entry? bs (Octets.number bs (108 + 2 * k) 2)

/-! ### Reading an image -/

/-- What is wrong with the first page. -/
def flawOf (bs : ByteArray) : Option DatabaseFault :=
  if Octets.number bs 21 3 ≠ 0x402020 then some .notDatabase
  else if !pageSizes.contains (pageSize bs) then some .notDatabase
  else if filePages bs < pages bs then some .malformed
  else if usableSize bs < minUsable then some .notDatabase
  else if 4 < Octets.octet bs 47 then some .unsupported
  else if Octets.octet bs 100 ≠ 13 then some .malformed
  else if (pageSize bs - 8) / 6 < entries bs then some .malformed
  else if (objects? bs).isNone then some .malformed
  else none

/-- What a file has been set up to, by its number. -/
def contentsOf (bs : ByteArray) : Contents :=
  match Octets.number bs 60 4 with
  | 0 => .unset ((objects? bs).getD [])
  | 1 => .bare
  | _ => .ahead

/-- The image that octets are, if they start as one that can be read. -/
def ofOctets? (bs : ByteArray) : Option Image :=
  if Octets.text bs 0 mark.length = mark ∧ Octets.octet bs 19 ≤ 2 then
    some {
      contents := contentsOf bs
      logged := Octets.octet bs 19 = 2
      guarded := 2 < Octets.octet bs 18
      flaw := flawOf bs
      damaged := isCramped bs || isOverrun bs }
  else none

/-- The image that a text is. -/
def ofText? (text : String) : Option Image := ofOctets? text.toUTF8

/-! ### Writing a header -/

/-- The text of an image with other octets at some places in the part of its header that has no
other characters than of one octet. -/
def overwrite (text : String) (changes : List (Nat × Nat)) : String :=
  String.ofList ((text.toList.zipIdx).map fun (c, i) =>
    ((changes.lookup i).map Char.ofNat).getD c)

/-- The text of an image whose changes go through a log from now on. -/
def log (text : String) : String := overwrite text [(18, 2), (19, 2)]

/-- How an image of one page starts in which nothing is defined. -/
def blankStart : String :=
  overwrite (mark ++ String.ofList (List.replicate 92 '\x00'))
    [(16, 0x10), (18, 1), (19, 1), (21, 0x40), (22, 0x20), (23, 0x20), (27, 1), (31, 1), (95, 1),
      (97, 46), (98, 122), (99, 112), (100, 13), (105, 0x10)]

/-- The text of an image of one page in which nothing is defined. -/
def blankText : String := blankStart ++ String.ofList (List.replicate (0x1000 - 108) '\x00')

example : ofText? (log blankStart) = some { blank with logged := true } := by decide +kernel

end Image

end DatasetGraph.CommandLine
