import DurableMessaging.Json.Token

/-!
# The value of a number

A number without point and exponent that fits 64 bits is an integer. Any other is a double: of its
digits as many as fit an unsigned 64-bit word make the significand, which is then multiplied or
divided by a rounded power of ten. The last bit is therefore not always the nearest one.
-/

namespace DurableMessaging.Json

inductive Numeral where
  | int (n : Int)
  /-- A double by its bits. -/
  | double (bits : UInt64)
  deriving DecidableEq, Repr

/-- A significand and the power of ten that scales it. -/
structure Decimal where
  significand : Nat
  exponent : Int
  deriving DecidableEq, Repr

def wordLimit : Nat := UInt64.size - 1

/-- The digits of the whole part. From the first digit that no longer fits on, each only scales. -/
def wholeDecimal (significand : Nat) : List Char → Decimal
  | [] => ⟨significand, 0⟩
  | c :: cs =>
    let next := significand * 10 + (c.toNat - '0'.toNat)
    if next ≤ wordLimit then wholeDecimal next cs else ⟨significand, (c :: cs).length⟩

/-- The digits after the point. The first digit that no longer fits ends them. -/
def addFraction (d : Decimal) : List Char → Decimal
  | [] => d
  | c :: cs =>
    let next := d.significand * 10 + (c.toNat - '0'.toNat)
    if next ≤ wordLimit then addFraction ⟨next, d.exponent - 1⟩ cs else d

def addExponent (d : Decimal) : Option (Bool × List Char) → Decimal
  | none => d
  | some (negative, digits) =>
    let n : Int := Nat.ofDigitChars 10 digits 0
    { d with exponent := if negative then d.exponent - n else d.exponent + n }

def NumberText.decimal (n : NumberText) : Decimal :=
  addExponent (addFraction (wholeDecimal 0 n.whole) n.fraction) n.exponent

/-- The double nearest to a power of ten. -/
def powerOfTen (n : Nat) : Float := Float.ofScientific 1 false n

/-- The largest power of ten that is a double. -/
def topPower : Nat := 308

/-- Divides by a power of ten, in steps the doubles can hold. -/
def scaleDown (f : Float) (n : Nat) : Float :=
  if n ≤ topPower then f / powerOfTen n
  else if f == 0 then f
  else scaleDown (f / powerOfTen topPower) (n - topPower)
termination_by n
decreasing_by simp only [topPower] at *; omega

/-- Multiplies by a power of ten, unless the product is out of range. -/
def scaleUp (f : Float) (n : Nat) : Option Float :=
  if n ≤ topPower then
    let g := f * powerOfTen n
    if g.isInf then none else some g
  else if f == 0 then some f
  else none

def Decimal.toFloat? (d : Decimal) : Option Float :=
  let f := (UInt64.ofNat d.significand).toFloat
  if 0 ≤ d.exponent then scaleUp f d.exponent.toNat else some (scaleDown f (-d.exponent).toNat)

/-- Neither point nor exponent. -/
def NumberText.isWhole (n : NumberText) : Bool := n.fraction.isEmpty && n.exponent.isNone

/-- The integer that a number is, if it is one and has 64 bits. Minus zero is none. -/
def NumberText.int? (n : NumberText) : Option Int :=
  let magnitude := Nat.ofDigitChars 10 n.whole 0
  if !n.isWhole then none
  else if n.negative then
    if 0 < magnitude ∧ magnitude ≤ UInt64.size / 2 then some (-(magnitude : Int)) else none
  else if magnitude ≤ wordLimit then some magnitude
  else none

/-- The value of a number; a double may be out of range. -/
def NumberText.numeral? (n : NumberText) : Option Numeral :=
  match n.int? with
  | some i => some (.int i)
  | none =>
    n.decimal.toFloat?.map fun f => .double (if n.negative then -f else f).toBits

end DurableMessaging.Json
