/-!
# Ranges of code points

A property of characters is given by the code points that have it, as inclusive ranges in
ascending order.
-/
namespace GitInvocation.Text

def inRanges (ranges : List (Nat × Nat)) (c : Char) : Bool :=
  ranges.any fun r => decide (r.1 ≤ c.toNat) && decide (c.toNat ≤ r.2)

end GitInvocation.Text
