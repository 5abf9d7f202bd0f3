/-!
# Lines of a text

A line ends with a line feed, or with a carriage return and a line feed. The last line may lack its
end, and then a carriage return belongs to it.
-/

namespace Blockflow.Text

def endLine : List Char → String
  | '\r' :: seen => String.ofList seen.reverse
  | seen => String.ofList seen.reverse

def linesFrom (seen : List Char) : List Char → List String
  | [] => if seen.isEmpty then [] else [String.ofList seen.reverse]
  | c :: rest => if c == '\n' then endLine seen :: linesFrom [] rest else linesFrom (c :: seen) rest

/-- The lines of a text, without what ends them. -/
def lines (text : String) : List String := linesFrom [] text.toList

end Blockflow.Text
