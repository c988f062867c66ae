import PyFits.Python.Float

/-!
# Python text operations

The ASCII-table branches of `FITS_rec.field` and `FITS_rec._scale_back` work on the cells'
text with `str.strip`, `str.replace`, `int(...)`, `float(...)` and `%`-formatting. Text is a
`List Char` here. Numbers are read the way Python 2's `int` and `float` read them: blanks
around the number, an optional sign, decimal digits, and for `float` an optional fraction
and exponent or one of `inf`, `infinity`, `nan`. A decimal is rounded to the nearest
`float64`.
-/

namespace PyFits

/-- `str.isspace` on one character. -/
def isSpace (c : Char) : Bool :=
  c = ' ' || c = '\t' || c = '\n' || c = '\r' || c = '\x0b' || c = '\x0c'

/-- `str.strip()`. -/
def strip (s : List Char) : List Char :=
  ((s.dropWhile isSpace).reverse.dropWhile isSpace).reverse

/-- `str.replace(a, b)` for one-character `a` and `b`. -/
def replaceChar (a b : Char) (s : List Char) : List Char :=
  s.map fun c => if c = a then b else c

/-- `n` spaces. -/
def blanks (n : Nat) : List Char := List.replicate n ' '

@[simp] theorem blanks_length (n : Nat) : (blanks n).length = n := List.length_replicate n ' '

@[simp] theorem blanks_zero : blanks 0 = [] := rfl

/-- Padding to `width` characters as `%-Ns` (`left`) or `%Ns` does. -/
def pad (left : Bool) (width : Nat) (s : List Char) : List Char :=
  if left then s ++ blanks (width - s.length) else blanks (width - s.length) ++ s

@[simp] theorem pad_length (left : Bool) (width : Nat) (s : List Char) :
    (pad left width s).length = max width s.length := by
  cases left <;> simp [pad] <;> omega

/-! ## Decimal digits -/

def digitChar (d : Nat) : Char := Char.ofNat (48 + d)

/-- `str(n)` for a natural number. -/
def showNat (n : Nat) : List Char := go (n + 1) n []
where
  go : Nat → Nat → List Char → List Char
    | 0, _, acc => acc
    | fuel + 1, n, acc =>
      if n / 10 = 0 then digitChar (n % 10) :: acc else go fuel (n / 10) (digitChar (n % 10) :: acc)

/-- `str(i)` for an integer. -/
def showInt (i : Int) : List Char :=
  if i < 0 then '-' :: showNat i.natAbs else showNat i.natAbs

/-- The number a run of decimal digits spells. -/
def digitsValue (ds : List Char) : Nat :=
  ds.foldl (fun n c => 10 * n + (c.toNat - 48)) 0

/-- A nonempty run of decimal digits, read as a number. -/
def natOfDigits? (ds : List Char) : Option Nat :=
  if ds ≠ [] ∧ ds.all Char.isDigit then some (digitsValue ds) else none

def spanDigits (s : List Char) : List Char × List Char :=
  (s.takeWhile Char.isDigit, s.dropWhile Char.isDigit)

/-- An optional leading sign: whether it is `-`, and the rest. -/
def splitSign : List Char → Bool × List Char
  | '-' :: r => (true, r)
  | '+' :: r => (false, r)
  | r => (false, r)

/-- `int(s)`; `none` where Python raises `ValueError`. -/
def pyInt? (s : List Char) : Option Int :=
  let (neg, body) := splitSign (strip s)
  (natOfDigits? body).map fun n => if neg then -(n : Int) else n

/-- `long(s)` of Python 2: blanks, an optional sign, blanks, decimal digits, an optional `L`,
blanks; `none` where Python raises `ValueError`. -/
def pyLong? (s : List Char) : Option Int :=
  let (neg, r) := splitSign (s.dropWhile isSpace)
  let (ds, r) := spanDigits (r.dropWhile isSpace)
  let r := match r with
    | 'L' :: r | 'l' :: r => r
    | r => r
  if ds ≠ [] ∧ r.all isSpace then some (if neg then -(digitsValue ds : Int) else digitsValue ds) else none

/-- The exponent part `e±ddd` of a decimal, `0` when it is empty. -/
def exponent? : List Char → Option Int
  | [] => some 0
  | c :: r =>
    if c = 'e' ∨ c = 'E' then
      let (neg, ds) := splitSign r
      (natOfDigits? ds).map fun n => if neg then -(n : Int) else n
    else none

/-- `float(s)`; `none` where Python raises `ValueError`. -/
def pyFloat? (s : List Char) : Option Flt :=
  let (neg, body) := splitSign (strip s)
  let lower := body.map Char.toLower
  if lower = "inf".toList ∨ lower = "infinity".toList then some (.inf neg)
  else if lower = "nan".toList then some .nan
  else
    let (ip, r₁) := spanDigits body
    let (fp, r₂) := match r₁ with
      | '.' :: r => spanDigits r
      | r => ([], r)
    if ip = [] ∧ fp = [] then none
    else (exponent? r₂).map fun ex =>
      let m : Int := if neg then -(digitsValue (ip ++ fp) : Int) else digitsValue (ip ++ fp)
      let x : Int := ex - fp.length
      if 0 ≤ x then Flt.roundRat binary64 (m * 10 ^ x.toNat) 1
      else Flt.roundRat binary64 m (10 ^ (-x).toNat)

/-! ## `%`-formatting of numbers -/

/-- `%.<p>f` of a float. -/
def fmtFixed (p : Nat) : Flt → List Char
  | .fin m e =>
    let (n, d) := if 0 ≤ e then (m.natAbs * 2 ^ e.toNat, 1) else (m.natAbs, 2 ^ (-e).toNat)
    let q := roundHalfEven (n * 10 ^ p) d
    let ds := showNat q
    let ds := List.replicate (p + 1 - ds.length) '0' ++ ds
    let body := if p = 0 then ds else ds.take (ds.length - p) ++ '.' :: ds.drop (ds.length - p)
    if m < 0 then '-' :: body else body
  | .inf neg => if neg then "-inf".toList else "inf".toList
  | .nan => "nan".toList

/-- The decimal exponent `E` with `10 ^ E ≤ n / d < 10 ^ (E + 1)`, for `n, d > 0`. -/
def log10Ratio (n d : Nat) : Int :=
  let k : Int := ((showNat n).length : Int) - (showNat d).length
  let ge : Bool := if 0 ≤ k then d * 10 ^ k.toNat ≤ n else d ≤ n * 10 ^ (-k).toNat
  if ge then k else k - 1

/-- `n / d` scaled by `10 ^ s` and rounded, ties to even. -/
def roundScaled (n d : Nat) (s : Int) : Nat :=
  if 0 ≤ s then roundHalfEven (n * 10 ^ s.toNat) d else roundHalfEven n (d * 10 ^ (-s).toNat)

/-- `%.<p>E` of a float: one digit, `p` decimals, `E`, a sign and at least two digits. -/
def fmtExp (p : Nat) : Flt → List Char
  | .fin m e =>
    let (n, d) := if 0 ≤ e then (m.natAbs * 2 ^ e.toNat, 1) else (m.natAbs, 2 ^ (-e).toNat)
    let x₀ : Int := if n = 0 then 0 else log10Ratio n d
    let q₀ := roundScaled n d (p - x₀)
    let (q, x) := if q₀ ≥ 10 ^ (p + 1) then (q₀ / 10, x₀ + 1) else (q₀, x₀)
    let ds := showNat q
    let ds := List.replicate (p + 1 - ds.length) '0' ++ ds
    let mant := if p = 0 then ds else ds.take 1 ++ '.' :: ds.drop 1
    let xs := showNat x.natAbs
    let xs := List.replicate (2 - xs.length) '0' ++ xs
    let body := mant ++ 'E' :: (if x < 0 then '-' else '+') :: xs
    if m < 0 then '-' :: body else body
  | .inf neg => if neg then "-INF".toList else "INF".toList
  | .nan => "NAN".toList

/-- `str(x)` of a Python 2 float: `%.12g`, twelve significant digits with the trailing zeros
dropped, in fixed notation for a decimal exponent from `-4` to `11` and with `.0` appended to a
whole number, in exponent notation otherwise. -/
def pyStrFloat : Flt → List Char
  | .fin m e =>
    let (n, d) := if 0 ≤ e then (m.natAbs * 2 ^ e.toNat, 1) else (m.natAbs, 2 ^ (-e).toNat)
    let x₀ : Int := if n = 0 then 0 else log10Ratio n d
    let q₀ := roundScaled n d (11 - x₀)
    let (q, x) := if q₀ ≥ 10 ^ 12 then (q₀ / 10, x₀ + 1) else (q₀, x₀)
    let sig := ((showNat q).reverse.dropWhile (· = '0')).reverse
    let sig := if sig = [] then ['0'] else sig
    let body :=
      if -4 ≤ x ∧ x < 12 then
        if 0 ≤ x then
          let fp := sig.drop (x.toNat + 1)
          sig.take (x.toNat + 1) ++ List.replicate (x.toNat + 1 - sig.length) '0' ++
            '.' :: (if fp = [] then ['0'] else fp)
        else '0' :: '.' :: List.replicate ((-x).toNat - 1) '0' ++ sig
      else
        let xs := showNat x.natAbs
        sig.take 1 ++ (if sig.length > 1 then '.' :: sig.drop 1 else []) ++
          'e' :: (if x < 0 then '-' else '+') :: List.replicate (2 - xs.length) '0' ++ xs
    if m < 0 then '-' :: body else body
  | .inf neg => if neg then "-inf".toList else "inf".toList
  | .nan => "nan".toList

example : pyStrFloat (.fin 5 (-1)) = "2.5".toList := by decide

example : pyStrFloat (.fin 25 2) = "100.0".toList := by decide

/-- The width and precision of a `%` directive, `W` or `W.P`; `none` for any other text. -/
def widthPrec? (s : List Char) : Option (Nat × Option Nat) :=
  let (w, r) := spanDigits s
  match r with
  | [] => some (digitsValue w, none)
  | '.' :: r' =>
    let (p, r'') := spanDigits r'
    if r'' = [] then some (digitsValue w, some (digitsValue p)) else none
  | _ => none

end PyFits
