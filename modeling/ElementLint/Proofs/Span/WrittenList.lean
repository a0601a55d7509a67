import ElementLint.Proofs.Span.Written
import ElementLint.Text.Extent

/-!
# Written lists

A `Written.Run` is a run of siblings in which, besides custom elements, texts and comments, there
may be lists: lists of items, and lists of terms and their descriptions. Items stand right in a list
of their kind and nowhere else, and a list has no other elements right in it; apart from that
everything nests in everything.

Whoever writes a run may leave out the end tags of items; each item says whether its end tag is
written (`Written.Run.write`). `Written.Run.complete` is the run with all its end tags. Of a run
that is written at a place the module tells where its elements stand (`Written.Run.spans`), where in
the complete text the end tags stand that are left out (`Written.Run.gaps`), and where the items
without end tags end (`Written.Run.ends`).
-/

namespace ElementLint.Span.Written

open Text

/-- What a list is made of. -/
inductive ListKind where
  | items
  /-- Terms and their descriptions. -/
  | descriptions
  deriving DecidableEq, Repr

/-- Where siblings stand. -/
inductive Setting where
  /-- Anywhere but right in a list. -/
  | free
  | inList (kind : ListKind)
  deriving DecidableEq, Repr

/-- The name of an element whose end tag is always written, by the setting of its children. -/
inductive ParentName : Setting → Type where
  | custom (name : ElementName) : ParentName .free
  | ul : ParentName (.inList .items)
  | ol : ParentName (.inList .items)
  | menu : ParentName (.inList .items)
  | dl : ParentName (.inList .descriptions)

/-- The name of an item, by the kind of its list. -/
inductive ItemName : ListKind → Type where
  | li : ItemName .items
  | dt : ItemName .descriptions
  | dd : ItemName .descriptions

/-- A run of siblings. -/
inductive Run : Setting → Type where
  | nil {setting : Setting} : Run setting
  | text {setting : Setting} (run : List Char) (noTag : '<' ∉ run) (rest : Run setting) :
      Run setting
  | comment {setting : Setting} (run : List Char) (noEnd : ¬ ['-', '-', '>'] <:+: run)
      (rest : Run setting) : Run setting
  | element {inside : Setting} (name : ParentName inside) (attributes : List Attribute)
      (children : Run inside) (rest : Run .free) : Run .free
  /-- An item; `ended` says whether its end tag is written. -/
  | item {kind : ListKind} (name : ItemName kind) (attributes : List Attribute) (ended : Bool)
      (children : Run .free) (rest : Run (.inList kind)) : Run (.inList kind)

/-- The characters of the name of an element that is always ended. -/
def ParentName.text {setting : Setting} : ParentName setting → List Char
  | .custom name => name.text
  | .ul => ['u', 'l']
  | .ol => ['o', 'l']
  | .menu => ['m', 'e', 'n', 'u']
  | .dl => ['d', 'l']

/-- The characters of the name of an item. -/
def ItemName.text {kind : ListKind} : ItemName kind → List Char
  | .li => ['l', 'i']
  | .dt => ['d', 't']
  | .dd => ['d', 'd']

namespace Run

/-! ### Writing -/

/-- The run with all its end tags. -/
def complete {setting : Setting} : Run setting → Run setting
  | .nil => .nil
  | .text run noTag rest => .text run noTag rest.complete
  | .comment run noEnd rest => .comment run noEnd rest.complete
  | .element name attributes children rest =>
    .element name attributes children.complete rest.complete
  | .item name attributes _ children rest =>
    .item name attributes true children.complete rest.complete

/-- Writes the end tag of an item, or leaves it out. -/
def itemEnd {kind : ListKind} (name : ItemName kind) (ended : Bool) : List Char :=
  if ended then closingTag name.text else []

/-- Writes a run. -/
def write {setting : Setting} : Run setting → List Char
  | .nil => []
  | .text run _ rest => run ++ rest.write
  | .comment run _ rest => writeComment run ++ rest.write
  | .element name attributes children rest =>
    openingTag name.text attributes ++ (children.write ++ (closingTag name.text ++ rest.write))
  | .item name attributes ended children rest =>
    openingTag name.text attributes ++ (children.write ++ (itemEnd name ended ++ rest.write))

/-! ### Places in what is written -/

/-- The place of the first start tag among the siblings of a run that is written at a place; the end
of the run if there is none. -/
def firstTag {setting : Setting} (place : Nat) : Run setting → Nat
  | .nil => place
  | .text run _ rest => rest.firstTag (place + byteSize run)
  | .comment run _ rest => rest.firstTag (place + byteSize (writeComment run))
  | .element _ _ _ _ => place
  | .item _ _ _ _ _ => place

/-- Where the elements of a run stand that is written at a place, in preorder. An item without an
end tag ends where the next item starts, or where the end tag of its list starts. -/
def spans {setting : Setting} (place : Nat) : Run setting → List TagSpan
  | .nil => []
  | .text run _ rest => rest.spans (place + byteSize run)
  | .comment run _ rest => rest.spans (place + byteSize (writeComment run))
  | .element name attributes children rest =>
    let inside := place + byteSize (openingTag name.text attributes)
    let stop := inside + byteSize children.write + byteSize (closingTag name.text)
    tagSpan place name.text attributes stop :: (children.spans inside ++ rest.spans stop)
  | .item name attributes ended children rest =>
    let inside := place + byteSize (openingTag name.text attributes)
    let after := inside + byteSize children.write + byteSize (itemEnd name ended)
    tagSpan place name.text attributes (if ended then after else rest.firstTag after) ::
      (children.spans inside ++ rest.spans after)

/-- Where the elements of a run end whose end tags are left out, when the run is written at a place.
The list is in preorder of all elements; an element whose end tag is written has no entry. -/
def ends {setting : Setting} (place : Nat) : Run setting → List (Option Nat)
  | .nil => []
  | .text run _ rest => rest.ends (place + byteSize run)
  | .comment run _ rest => rest.ends (place + byteSize (writeComment run))
  | .element name attributes children rest =>
    let inside := place + byteSize (openingTag name.text attributes)
    let stop := inside + byteSize children.write + byteSize (closingTag name.text)
    none :: (children.ends inside ++ rest.ends stop)
  | .item name attributes ended children rest =>
    let inside := place + byteSize (openingTag name.text attributes)
    let after := inside + byteSize children.write + byteSize (itemEnd name ended)
    (if ended then none else some (rest.firstTag after)) ::
      (children.ends inside ++ rest.ends after)

/-- The extent of the end tag of an item, if it is left out. -/
def itemGap (ended : Bool) (start stop : Nat) : List Extent :=
  if ended then [] else [⟨start, stop⟩]

/-- Where the end tags that are left out stand in the complete run, when that is written at a
place. -/
def gaps {setting : Setting} (place : Nat) : Run setting → List Extent
  | .nil => []
  | .text run _ rest => rest.gaps (place + byteSize run)
  | .comment run _ rest => rest.gaps (place + byteSize (writeComment run))
  | .element name attributes children rest =>
    let inside := place + byteSize (openingTag name.text attributes)
    let stop := inside + byteSize children.complete.write + byteSize (closingTag name.text)
    children.gaps inside ++ rest.gaps stop
  | .item name attributes ended children rest =>
    let inside := place + byteSize (openingTag name.text attributes)
    let behind := inside + byteSize children.complete.write
    let after := behind + byteSize (closingTag name.text)
    children.gaps inside ++ (itemGap ended behind after ++ rest.gaps after)

end Run

end ElementLint.Span.Written
