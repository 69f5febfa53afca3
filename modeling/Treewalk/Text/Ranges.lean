/-! Sets of code points given as closed ranges. -/

namespace Treewalk.Text

/-- Is `n` in one of the ranges? They are ascending, so the search ends at the first range that
lies wholly above `n`. -/
def inRanges (n : Nat) : List (Nat × Nat) → Bool
  | [] => false
  | (least, greatest) :: rest => least ≤ n && (n ≤ greatest || inRanges n rest)

end Treewalk.Text
