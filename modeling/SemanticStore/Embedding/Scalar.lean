/-!
# Single-precision components

A component of an embedding is a binary32 number, kept as its 32 bits so that storing and reading
back loses nothing, payloads of NaN and signs of zero included. Arithmetic goes through `Float32`,
one rounding per operation, and every NaN it yields is the one quiet NaN.
-/

namespace SemanticStore

/-- A single-precision number, by its bits. -/
structure Scalar where
  bits : UInt32
deriving DecidableEq, Repr, Inhabited

namespace Scalar

def toFloat32 (x : Scalar) : Float32 := Float32.ofBits x.bits

def ofFloat32 (x : Float32) : Scalar := ⟨x.toBits⟩

/-! ### Constants -/

def zero : Scalar := ⟨0⟩
def negZero : Scalar := ⟨0x80000000⟩
def one : Scalar := ⟨0x3f800000⟩
def infinity : Scalar := ⟨0x7f800000⟩
def negInfinity : Scalar := ⟨0xff800000⟩
def nan : Scalar := ⟨0x7fc00000⟩

/-! ### Arithmetic -/

instance : Add Scalar := ⟨fun x y => ofFloat32 (x.toFloat32 + y.toFloat32)⟩
instance : Sub Scalar := ⟨fun x y => ofFloat32 (x.toFloat32 - y.toFloat32)⟩
instance : Mul Scalar := ⟨fun x y => ofFloat32 (x.toFloat32 * y.toFloat32)⟩
instance : Div Scalar := ⟨fun x y => ofFloat32 (x.toFloat32 / y.toFloat32)⟩

/-- Square root; NaN for a negative number. -/
def sqrt (x : Scalar) : Scalar := ofFloat32 x.toFloat32.sqrt

/-! ### Tests -/

/-- Neither infinite nor NaN: the exponent is not all ones. -/
def isFinite (x : Scalar) : Bool := x.bits &&& 0x7f800000 != 0x7f800000

/-- The exponent is all ones and the fraction is not zero. -/
def isNaN (x : Scalar) : Bool := 0x7f800000 < x.bits &&& 0x7fffffff

/-- Numerical equality: the zeros are equal and NaN equals nothing. -/
def numEq (x y : Scalar) : Bool := x.toFloat32 == y.toFloat32

/-- Numerical order; false when either side is NaN. -/
def le (x y : Scalar) : Bool := x.toFloat32 ≤ y.toFloat32

/-- Strict numerical order; false when either side is NaN. -/
def lt (x y : Scalar) : Bool := x.toFloat32 < y.toFloat32

/-- The position of a bit pattern in the total order on all of them: negative NaN, -∞, …, -0, +0,
…, +∞, positive NaN. -/
def rank (x : Scalar) : Int :=
  if x.bits < 0x80000000 then x.bits.toNat else 0x7fffffff - (x.bits.toNat : Int)

/-! ### Conversions, each rounded once to the nearest, ties to even -/

/-- The single nearest to a natural number. -/
def ofNat (n : Nat) : Scalar := ofFloat32 (Float32.ofNat n)

/-- The single nearest to an integer. -/
def ofInt (n : Int) : Scalar := ofFloat32 (Float32.ofInt n)

/-- The single nearest to a double. -/
def ofFloat (x : Float) : Scalar :=
  match x.toModel.unpack with
  | .finite sign mantissa exponent _ =>
      ofFloat32 ⟨.pack (Float.Model.UnpackedFloat.round .binary32 sign mantissa exponent)⟩
  | special => ofFloat32 ⟨.pack special⟩

end Scalar

end SemanticStore
