import DatasetGraph.Json.Printer
import DatasetGraph.Json.Source
import DatasetGraph.Json.Token

/-!
# Reading JSON text

The tokens of a text are put together by a machine with a stack of frames, one for each list or
object that is open.  Each frame says what it expects next.  A token that does not fit ends the
reading, and so does the end of the text; what has been read by then becomes a source that is cut at
that place (`cutOff`).

Lists and objects nested more than `maxDepth` deep are checked but have no value.
-/

namespace DatasetGraph.Json

/-- How deep lists and objects may be nested. -/
def maxDepth : Nat := 127

/-- A list or object that is open, with its items or members so far, the latest first, and what it
expects. -/
inductive Frame where
  /-- A list just opened: an item or its end. -/
  | firstItem
  /-- A list after a comma: an item. -/
  | nextItem (before : List Source)
  /-- A list after an item: a comma or its end. -/
  | afterItem (before : List Source)
  /-- An object just opened: a key or its end. -/
  | firstKey
  /-- An object after a comma: a key. -/
  | nextKey (before : List (Option String × Source))
  /-- An object after a key: a colon. -/
  | afterKey (before : List (Option String × Source)) (key : Option String)
  /-- An object after a colon: the value of its member. -/
  | member (before : List (Option String × Source)) (key : Option String)
  /-- An object after a member: a comma or its end. -/
  | afterMember (before : List (Option String × Source))

/-- The source that was read, and whether more text follows it. -/
structure Reading where
  source : Source
  trailing : Bool

/-- What one token leads to. -/
inductive Frame.Step where
  /-- Frames are still open. -/
  | goOn (stack : List Frame)
  /-- The value is complete. -/
  | complete (value : Source)
  /-- The token does not fit. -/
  | fault

namespace Frame

/-! ## Broken text -/

/-- What a frame holds when the text breaks off inside it; `inner` is what could be read of the item
or member that had begun. -/
def cutOff (inner : Source) : Frame → Source
  | .firstItem => .arr [inner] .cut
  | .nextItem before => .arr (before.reverse ++ [inner]) .cut
  | .afterItem before => .arr before.reverse .cut
  | .firstKey => .obj [] .cut
  | .nextKey before => .obj before.reverse .cut
  | .afterKey before key => .obj (before.reverse ++ [(key, .cut)]) .cut
  | .member before key => .obj (before.reverse ++ [(key, inner)]) .cut
  | .afterMember before => .obj before.reverse .cut

/-- What the frames of a stack, the innermost first, hold when the text breaks off. -/
def cutOffAll (inner : Source) : List Frame → Source
  | [] => inner
  | frame :: stack =>
    cutOffAll (if stack.length < maxDepth then cutOff inner frame else .cut) stack

/-! ## One token -/

/-- Hand a complete value to the innermost frame. -/
def place (value : Source) : List Frame → Step
  | [] => .complete value
  | .firstItem :: stack => .goOn (.afterItem [value] :: stack)
  | .nextItem before :: stack => .goOn (.afterItem (value :: before) :: stack)
  | .member before key :: stack => .goOn (.afterMember ((key, value) :: before) :: stack)
  | _ => .fault

/-- Hand over a list or object whose bracket closes below the given frames. -/
def close (value : Source) (stack : List Frame) : Step :=
  place (if stack.length < maxDepth then value else .valueless) stack

/-- Whether a value may come next. -/
def expectsValue : List Frame → Bool
  | [] => true
  | .firstItem :: _ => true
  | .nextItem _ :: _ => true
  | .member _ _ :: _ => true
  | _ => false

/-- Open a list or an object. -/
def start (frame : Frame) (stack : List Frame) : Step :=
  if expectsValue stack then .goOn (frame :: stack) else .fault

/-- A text, which is a key where one is due and a value otherwise. -/
def text (key : Option String) (value : Source) : List Frame → Step
  | .firstKey :: stack => .goOn (.afterKey [] key :: stack)
  | .nextKey before :: stack => .goOn (.afterKey before key :: stack)
  | stack => place value stack

/-- What the next token does to the open frames. -/
def step (stack : List Frame) (t : Token) : Step :=
  match t, stack with
  | .openList, stack => start .firstItem stack
  | .openObject, stack => start .firstKey stack
  | .closeList, .firstItem :: stack => close (.arr [] .closed) stack
  | .closeList, .afterItem before :: stack => close (.arr before.reverse .closed) stack
  | .closeObject, .firstKey :: stack => close (.obj [] .closed) stack
  | .closeObject, .afterMember before :: stack => close (.obj before.reverse .closed) stack
  | .comma, .afterItem before :: stack => .goOn (.nextItem before :: stack)
  | .comma, .afterMember before :: stack => .goOn (.nextKey before :: stack)
  | .colon, .afterKey before key :: stack => .goOn (.member before key :: stack)
  | .null, stack => place .null stack
  | .bool b, stack => place (.bool b) stack
  | .num n, stack => place (.num n) stack
  | .valuelessNumber, stack => place .valueless stack
  | .str s, stack => text (some s) (.str s) stack
  | .valuelessText, stack => text none .valueless stack
  | _, _ => .fault

/-! ## All tokens -/

/-- Read tokens into the open frames. -/
def run (stack : List Frame) : List Token → Reading
  | [] => ⟨cutOffAll .cut stack, false⟩
  | t :: ts =>
    match step stack t with
    | .goOn stack => run stack ts
    | .complete value => ⟨value, !ts.isEmpty⟩
    | .fault => ⟨cutOffAll .cut stack, false⟩

end Frame

/-- Read a text as far as it goes. -/
def Reading.ofText (text : String) : Reading := Frame.run [] (Token.tokens text.toList)

/-- The value of a text, if it is the text of one. -/
def parse? (text : String) : Option Json :=
  let r := Reading.ofText text
  if r.trailing then none else r.source.read?

/-- The value that is read back from the text of a value, if the text can be read. -/
def readBack? (v : Json) : Option Json := parse? v.compact

end DatasetGraph.Json
