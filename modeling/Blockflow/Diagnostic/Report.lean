import Blockflow.Diagnostic.Basic
import Blockflow.Diagnostic.Excerpt

/-!
# Reports

A headline, and for a problem in a literal an excerpt of the text with the offending span.
-/

namespace Blockflow.Diagnostic

/-- What went wrong, and where. -/
def headline (d : Diagnostic) : String :=
  let place := d.locator.describe
  if place.isEmpty then d.describe else s!"{d.describe} ({place})"

/-- The report of a diagnostic. The ends of a span count as positions of characters. -/
def render (d : Diagnostic) : String :=
  match d.literal with
  | none => d.headline
  | some literal =>
    let excerpt := match Excerpt.of? literal.text literal.start literal.stop with
      | some excerpt => excerpt.lines "argument" d.message
      | none => []
    "\n".intercalate ([s!"Error: {d.headline}"] ++ excerpt ++ [""])

end Blockflow.Diagnostic
