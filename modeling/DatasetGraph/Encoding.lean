import DatasetGraph.Kind
import DatasetGraph.Text.Blank

/-!
# Encodings

What a distribution is follows from how its content is encoded.  One table says so, and both the
conversion of documents and the filters of queries read it, so they cannot disagree.

A row names the kind of a distribution that stands alone, the kind of one that is contained in
another if that differs, and the further attributes that are kept for it.  Rows are found by the
encoding without the white space around it and without regard to the case of ASCII letters.
-/

namespace DatasetGraph

/-- A kind of distribution and the label that says how its content is held. -/
structure Classification where
  kind : Kind
  structural : Label
deriving DecidableEq

/-- A row of the table. -/
structure Encoding where
  /-- The encoding, in lower case. -/
  name : String
  standalone : Classification
  /-- What a contained distribution is, if it is something else. -/
  contained : Option Classification
  /-- The attributes that are kept besides the usual ones. -/
  extra : List String
deriving DecidableEq

namespace Encoding

/-- The row for a set of texts. -/
def textSet (name : String) : Encoding := ⟨name, ⟨.textSet, .fileSet⟩, none, ["includes"]⟩

/-- The row for a set of images. -/
def imageSet (name : String) : Encoding := ⟨name, ⟨.imageSet, .fileSet⟩, none, ["includes"]⟩

/-- The table. -/
def table : List Encoding :=
  [⟨"text/csv", ⟨.csv, .fileObject⟩, none, ["sha256"]⟩,
    ⟨"text/sql", ⟨.relationalDatabase, .databaseConnection⟩, some ⟨.table, .fileObject⟩, []⟩,
    textSet "application/pdf",
    textSet "application/docx",
    textSet "application/pptx",
    textSet "application/x-ipynb+json",
    imageSet "image/jpg",
    imageSet "image/jpeg"]

/-- The version of the table. -/
def version : Nat := 1

/-- What a distribution of this encoding is. -/
def classify (e : Encoding) (isContained : Bool) : Classification :=
  if isContained then e.contained.getD e.standalone else e.standalone

/-- The kinds that the encoding can give. -/
def kinds (e : Encoding) : List Kind :=
  e.standalone.kind :: (e.contained.map Classification.kind).toList

/-- Lower case for ASCII letters. -/
def lowerCase (s : String) : List Char := s.toList.map Char.toLower

/-- The row of an encoding. -/
def lookup? (encoding : String) : Option Encoding :=
  table.find? fun e => lowerCase e.name = lowerCase (Text.trim encoding)

/-- What a distribution of unknown encoding is. -/
def fallback (isCollection : Bool) : Classification :=
  if isCollection then ⟨.data, .fileSet⟩ else ⟨.dataPart, .fileObject⟩

/-- The labels of the kinds that an encoding can give; `none` if it is unknown. -/
def labels? (encoding : String) : Option (List Label) :=
  (lookup? encoding).map fun e => distinct (e.kinds.map Kind.primary)

end Encoding

end DatasetGraph
