import Mathlib.Data.Rat.Floor
import Mathlib.Algebra.Order.Field.Rat
import Mathlib.Data.Rat.Sqrt

/-! The `float` type of the library. The model is generic in the arithmetic: a
result stated for every instance holds of rounded hardware floats, one stated
over `ℚ` reads the code in exact arithmetic. -/

namespace Goap

/-- What the library asks of `float`. Rounding, NaN and overflow belong to the
instance; no law is assumed. -/
class FloatOps (F : Type) extends Add F, Sub F, Mul F, Div F where
  /-- The float nearest to a literal or to a converted integer. -/
  lit : ℚ → F
  abs : F → F
  sqrt : F → F
  isnan : F → Bool
  eq : F → F → Bool
  lt : F → F → Bool
  le : F → F → Bool
  /-- `static_cast<std::int64_t>`: truncation toward zero. A value outside the
  range, whose cast is undefined in the source, is clamped. -/
  toInt64 : F → Int64
  /-- The 32 bits of the representation. -/
  bits : F → UInt32

/-- The single-precision float of a fraction whose parts are representable. -/
def float32OfRat (value : ℚ) : Float32 :=
  Float32.ofInt value.num / Float32.ofNat value.den

instance : FloatOps Float32 where
  lit := float32OfRat
  abs := Float32.abs
  sqrt := Float32.sqrt
  isnan := Float32.isNaN
  eq first second := first == second
  lt := Float32.lt
  le := Float32.le
  toInt64 value := value.toModel.toInt64
  bits := Float32.toBits

instance : FloatOps ℚ where
  lit := id
  abs value := |value|
  sqrt := Rat.sqrt
  isnan _ := false
  eq first second := decide (first = second)
  lt first second := decide (first < second)
  le first second := decide (first ≤ second)
  toInt64 value := Int64.ofIntClamp (value.num.tdiv value.den)
  bits value := (float32OfRat value).toBits

namespace BasicMath

open FloatOps

variable {F : Type} [FloatOps F]

def fmax (first second : F) : F := if lt first second then second else first

def GOAP_FLT_EPSILON : F := lit (1 / 2 ^ 23)

def GOAP_FLT_MIN : F := lit (1 / 2 ^ 126)

/-- 0 < are similar < are different < 1. -/
def floatSimilarity (x y : F) : F :=
  if isnan x || isnan y then lit 1
  else
    let diff := abs (x - y)
    let mx := fmax (abs x) (abs y)
    if lt (lit 0) mx then diff / mx else lit 0

def floatEqual (x y : F) : Bool :=
  let diff := abs (x - y)
  let ax := abs x
  let ay := abs y
  le diff (GOAP_FLT_EPSILON * (ax + ay) * lit 2) || lt diff GOAP_FLT_MIN

/-- One step of the vector hash; `size_t` is 64 bits wide. -/
def hashShort (seed : UInt64) (short : UInt16) : UInt64 :=
  seed ^^^ (short.toUInt64 + 0x9e3779b9 + seed <<< (6 : UInt64) + seed >>> (2 : UInt64))

/-- `hash(const unsigned short *, size_t)`. -/
def hashShorts (shorts : List UInt16) : UInt64 :=
  shorts.foldl hashShort (UInt64.ofNat shorts.length)

/-- The two halves of a float in memory order, low half first. -/
def halves (value : F) : List UInt16 :=
  [(bits value).toUInt16, (bits value >>> (16 : UInt32)).toUInt16]

/-- `hash(const float *, size_t)`. -/
def hash (vec : List F) : UInt64 :=
  hashShorts (vec.flatMap halves)

end BasicMath

end Goap
