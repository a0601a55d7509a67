import ElementLint.Text.Position

/-!
# Extents

An `Extent` is a stretch of a text between two byte offsets. `Extent.fits` tells whether a text has
such a stretch, and `Text.slice?` cuts it out.
-/

namespace ElementLint

/-- A stretch of a text, from the byte `start` up to the byte `stop`. -/
structure Extent where
  start : Nat
  stop : Nat
  deriving DecidableEq, Repr, Inhabited

/-- Whether a stretch lies in a text and starts and ends between characters. -/
def Extent.fits (extent : Extent) (text : List Char) : Bool :=
  decide (extent.start ≤ extent.stop) && decide (extent.stop ≤ Text.byteSize text) &&
    Text.isBoundary text extent.start && Text.isBoundary text extent.stop

/-- The part of a text that lies in an extent, unless the extent leaves the text or cuts a
character. -/
def Text.slice? (text : List Char) (extent : Extent) : Option (List Char) :=
  if extent.fits text then
    some ((text.take (charIndex text extent.stop)).drop (charIndex text extent.start))
  else none

end ElementLint
