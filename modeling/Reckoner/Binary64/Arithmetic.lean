import Reckoner.Binary64.Rounding

/-! The four operations: each is the exact result, rounded once, with the conventions for
signed zeros, infinities and NaN. -/
namespace Reckoner.Binary64

/-- A finite value as a signed count of units. -/
def signedUnits (negative : Bool) (x : Magnitude) : Int :=
  if negative then -(x.units : Int) else x.units

/-- The sum. Opposite values, like opposite zeros, add up to positive zero. -/
def add : Binary64 → Binary64 → Binary64
  | nan, _ => nan
  | _, nan => nan
  | infinite s, infinite t => if s = t then infinite s else nan
  | infinite s, finite _ _ => infinite s
  | finite _ _, infinite t => infinite t
  | finite s x, finite t y =>
    let sum := signedUnits s x + signedUnits t y
    if sum = 0 then zero (s && t) else ofRatio (decide (sum < 0)) sum.natAbs 1

def sub (a b : Binary64) : Binary64 :=
  add a b.neg

/-- The product; zero times infinity is no number. -/
def mul : Binary64 → Binary64 → Binary64
  | nan, _ => nan
  | _, nan => nan
  | infinite s, infinite t => infinite (s ^^ t)
  | infinite s, finite t y => if y.isZero then nan else infinite (s ^^ t)
  | finite s x, infinite t => if x.isZero then nan else infinite (s ^^ t)
  | finite s x, finite t y => ofRatio (s ^^ t) (x.units * y.units) Magnitude.one

/-- The quotient; a finite value over zero is infinite, zero over zero is no number. -/
def div : Binary64 → Binary64 → Binary64
  | nan, _ => nan
  | _, nan => nan
  | infinite _, infinite _ => nan
  | infinite s, finite t _ => infinite (s ^^ t)
  | finite s _, infinite t => zero (s ^^ t)
  | finite s x, finite t y =>
    if y.isZero then
      if x.isZero then nan else infinite (s ^^ t)
    else ofRatio (s ^^ t) (x.units * Magnitude.one) y.units

end Reckoner.Binary64
