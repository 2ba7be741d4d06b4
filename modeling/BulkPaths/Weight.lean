import BulkPaths.Decimal.Shortest

/-!
What path weights have to offer.
-/

namespace BulkPaths

class PathWeight (W : Type) where
  zero : W
  /-- The weight of a vertex that no path reaches. -/
  infinite : W
  add : W → W → W
  less : W → W → Bool
  same : W → W → Bool
  isFinite : W → Bool
  text : W → String

instance : PathWeight Float where
  zero := 0
  infinite := Binary64.infinity false
  add x y := x + y
  less x y := x < y
  same x y := x == y
  isFinite := Float.isFinite
  text := Decimal.text

end BulkPaths
