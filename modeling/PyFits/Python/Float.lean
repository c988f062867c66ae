import Mathlib.Order.Basic
import Mathlib.Data.Nat.Defs
import Mathlib.Algebra.Group.Int
import Mathlib.Algebra.Group.Nat.Basic
import Mathlib.Algebra.Order.Ring.Nat

/-!
# Binary floating-point values

numpy keeps the elements of a float column as IEEE 754 `float64` or `float32` values, and
Python's own `float` is a `float64`. A finite value is held as `mant * 2 ^ exp` in lowest
terms, so that two values are equal exactly when their representations are. Every
operation returns the exact result rounded to nearest, ties to even, in the format it is
computed in, which is what IEEE 754 prescribes for `+`, `-`, `*`, `/` and for reading a
decimal string; results past the largest finite value become infinities. Signed zeros and
NaN payloads are not told apart.

Everything here is computed with `Int` and `Nat` arithmetic only, so that a concrete
computation of the model can be checked by `decide`.
-/

namespace PyFits

/-- The number of binary digits of `n`, `0` for `0`. -/
def bitLen (n : Nat) : Nat := go n n
where
  go : Nat → Nat → Nat
    | 0, _ => 0
    | fuel + 1, n => if n = 0 then 0 else go fuel (n / 2) + 1

/-- `x / y` rounded to the nearest natural number, ties to even. -/
def roundHalfEven (x y : Nat) : Nat :=
  if 2 * (x % y) > y ∨ (2 * (x % y) = y ∧ (x / y) % 2 = 1) then x / y + 1 else x / y

/-- An IEEE 754 binary format: `prec` significand bits, `emin` the exponent of the least
subnormal, and `2 ^ emax` the least value that overflows. -/
structure FltFormat where
  prec : Nat
  emin : Int
  emax : Int

/-- numpy's `float64`, Python's `float`. -/
def binary64 : FltFormat := ⟨53, -1074, 1024⟩

/-- numpy's `float32`. -/
def binary32 : FltFormat := ⟨24, -149, 128⟩

/-- A binary floating-point value. -/
inductive Flt where
  | fin (mant : Int) (exp : Int)
  | inf (neg : Bool)
  | nan
  deriving DecidableEq, Repr

namespace Flt

/-- `m * 2 ^ e` with the factors of two of `m` moved into the exponent. -/
def normalize (m e : Int) : Flt := go m.natAbs.succ m e
where
  go : Nat → Int → Int → Flt
    | 0, m, e => fin m e
    | fuel + 1, m, e =>
      if m = 0 then fin 0 0 else if m % 2 = 0 then go fuel (m / 2) (e + 1) else fin m e

/-- Whether `a ≥ d * 2 ^ k`. -/
def geScaled (a d : Nat) (k : Int) : Bool :=
  if 0 ≤ k then d * 2 ^ k.toNat ≤ a else d ≤ a * 2 ^ (-k).toNat

/-- The value `n / d` (`d > 0`) rounded into the format `f`. -/
def roundRat (f : FltFormat) (n : Int) (d : Nat) : Flt :=
  if n = 0 ∨ d = 0 then fin 0 0 else
    let a := n.natAbs
    let k : Int := (bitLen a : Int) - bitLen d
    let lg : Int := if geScaled a d k then k else k - 1
    let e : Int := max (lg + 1 - f.prec) f.emin
    let q : Nat :=
      if 0 ≤ e then roundHalfEven a (d * 2 ^ e.toNat) else roundHalfEven (a * 2 ^ (-e).toNat) d
    if (bitLen q : Int) + e > f.emax then inf (n < 0)
    else normalize (if n < 0 then -(q : Int) else q) e

/-- The value `n * 2 ^ e` rounded into the format `f`. -/
def ofScaled (f : FltFormat) (n e : Int) : Flt :=
  if 0 ≤ e then roundRat f (n * 2 ^ e.toNat) 1 else roundRat f n (2 ^ (-e).toNat)

/-- The conversion of an integer, as `float64(i)` or `float32(i)` computes it. -/
def ofInt (f : FltFormat) (i : Int) : Flt := roundRat f i 1

/-- A finite value as a fraction `num / den` with `den` a power of two. -/
def toRat? : Flt → Option (Int × Nat)
  | fin m e => some (if 0 ≤ e then (m * 2 ^ e.toNat, 1) else (m, 2 ^ (-e).toNat))
  | _ => none

def neg : Flt → Flt
  | fin m e => fin (-m) e
  | inf b => inf (!b)
  | nan => nan

/-- Rounded addition. -/
def add (f : FltFormat) : Flt → Flt → Flt
  | fin m₁ e₁, fin m₂ e₂ =>
    let e := min e₁ e₂
    ofScaled f (m₁ * 2 ^ (e₁ - e).toNat + m₂ * 2 ^ (e₂ - e).toNat) e
  | inf a, inf b => if a = b then inf a else nan
  | inf a, fin _ _ => inf a
  | fin _ _, inf b => inf b
  | _, _ => nan

def sub (f : FltFormat) (x y : Flt) : Flt := add f x (neg y)

/-- Rounded multiplication. -/
def mul (f : FltFormat) : Flt → Flt → Flt
  | fin m₁ e₁, fin m₂ e₂ => ofScaled f (m₁ * m₂) (e₁ + e₂)
  | inf a, fin m _ | fin m _, inf a => if m = 0 then nan else inf (a != decide (m < 0))
  | inf a, inf b => inf (a != b)
  | _, _ => nan

/-- Rounded division; numpy returns an infinity or NaN on division by zero. -/
def div (f : FltFormat) : Flt → Flt → Flt
  | fin m₁ e₁, fin m₂ e₂ =>
    if m₂ = 0 then (if m₁ = 0 then nan else inf (m₁ < 0))
    else
      let n := (if m₂ < 0 then -m₁ else m₁) * 2 ^ (e₁ - e₂).toNat
      roundRat f n (m₂.natAbs * 2 ^ (e₂ - e₁).toNat)
  | inf a, fin m _ => inf (a != decide (m < 0))
  | fin _ _, inf _ => fin 0 0
  | _, _ => nan

/-- Truncation toward zero, as `int(x)` and the C conversion computes it; `none` for an
infinity or NaN. -/
def trunc? : Flt → Option Int
  | fin m e => some (if 0 ≤ e then m * 2 ^ e.toNat else m.tdiv (2 ^ (-e).toNat))
  | _ => none

/-- `numpy.around(x)`: the nearest integer, ties to even. -/
def around : Flt → Flt
  | fin m e =>
    if 0 ≤ e then fin m e
    else
      let q := roundHalfEven m.natAbs (2 ^ (-e).toNat)
      normalize (if m < 0 then -(q : Int) else q) 0
  | x => x

/-- Rounding a value into a narrower format, as `astype(float32)` does. -/
def narrow (f : FltFormat) : Flt → Flt
  | fin m e => ofScaled f m e
  | x => x

end Flt

end PyFits
