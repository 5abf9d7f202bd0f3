/-!
# Runs of characters

A property of characters is given by the lengths of the runs of code points that lack it and that
have it.
-/

namespace Blockflow.Text

/-- Whether a code point lies in one of the runs with the property. The lengths of the runs without
and with it alternate. -/
def inRuns : List Nat → Nat → Bool
  | gap :: length :: runs, code =>
    gap ≤ code && (code < gap + length || inRuns runs (code - (gap + length)))
  | _, _ => false

end Blockflow.Text
