import Centroids.Number.Scalar

/-!
Single and double precision.  A change of format keeps the exact value of a number and rounds it to
the nearest number of the new format, a tie going to the even one.
-/
namespace Centroids

open Float.Model (Format UnpackedFloat)

def refit (format : Format) : UnpackedFloat → UnpackedFloat
  | .finite sign mantissa exponent _ => .round format sign mantissa exponent
  | x => x

/-- The quotient `numerator / denominator` of positive numbers, rounded into a format. -/
def ratio (format : Format) (numerator denominator : Nat) : UnpackedFloat :=
  if hn : 0 < numerator then
    if hd : 0 < denominator then
      .div format (.finite .positive numerator 0 hn) (.finite .positive denominator 0 hd)
    else .infinity .positive
  else .zero .positive

namespace Single

def unpack (x : Float32) : UnpackedFloat := .unpack .binary32 x.toBits.toBitVec

def pack (x : UnpackedFloat) : Float32 :=
  .ofBits (.ofBitVec (UnpackedFloat.pack .binary32 x))

def ofInt (n : Int) : Float32 := pack (.ofInt .binary32 n)

end Single

namespace Double

def unpack (x : Float) : UnpackedFloat := .unpack .binary64 x.toBits.toBitVec

def pack (x : UnpackedFloat) : Float :=
  .ofBits (.ofBitVec (UnpackedFloat.pack .binary64 x))

def ofInt (n : Int) : Float := pack (.ofInt .binary64 n)

def ofRatio (numerator denominator : Nat) : Float := pack (ratio .binary64 numerator denominator)

/-- Every single is a double, so nothing is rounded. -/
def ofSingle (x : Float32) : Float := pack (refit .binary64 (Single.unpack x))

def toSingle (x : Float) : Float32 := Single.pack (refit .binary32 (unpack x))

def infinity : Float := pack (.infinity .positive)

def nan : Float := pack .notANumber

end Double

instance : Scalar Float32 where
  zero := 0
  lt := Float32.lt
  sqrt := Float32.sqrt
  abs := Float32.abs
  ofNat n := Single.ofInt n
  tiny := Double.toSingle 1e-30
  isFinite := Float32.isFinite
  isBounded x := Float32.lt (Single.pack (.infinity .negative)) x

instance : Scalar Float where
  zero := 0
  lt := Float.lt
  sqrt := Float.sqrt
  abs := Float.abs
  ofNat n := Double.ofInt n
  tiny := 1e-30
  isFinite := Float.isFinite
  isBounded x := Float.lt (Double.pack (.infinity .negative)) x

instance : Widening Float32 Float := ⟨Double.ofSingle⟩

instance : Widening Float Float := ⟨id⟩

/-- How numbers that come from outside enter a format. -/
class Stored (α : Type) where
  ofDouble : Float → α
  ofInt : Int → α

instance : Stored Float32 := ⟨Double.toSingle, Single.ofInt⟩

instance : Stored Float := ⟨id, Double.ofInt⟩

end Centroids
