import ElementLint.Warning.Basic

/-!
# Warnings in their text

`Warning.underline` shows the line of a text that a warning starts on, with its range underlined.
-/

namespace ElementLint

/-- The line of a text that a warning starts on and, below it, a mark under the part of its range
that lies on the line. The mark is at least one column wide. -/
def Warning.underline (warning : Warning) (contents : String) : String :=
  let range := warning.range
  let line := (Text.lines contents.toList).getD range.start.line []
  let start := min range.start.column line.length
  let stop :=
    if range.stop.line = range.start.line then min range.stop.column line.length else line.length
  let width := max (stop - start) 1
  String.ofList
    ('\n' :: line ++ '\n' :: List.replicate start ' ' ++ List.replicate width '~')

end ElementLint
