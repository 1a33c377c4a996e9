/-!
# Tables of code points

A class of characters is given by the closed ranges of the code points in it.
-/

namespace ClassLang.Text

/-- Whether a code point lies in one of the given closed ranges. -/
def inRanges (ranges : List (Nat × Nat)) (code : Nat) : Bool :=
  ranges.any fun range => range.1 ≤ code && code ≤ range.2

end ClassLang.Text
