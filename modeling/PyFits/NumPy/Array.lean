import PyFits.Python.Text

/-!
# numpy elements

A record field or a conversion cache is a one-dimensional numpy array whose elements are
scalars, strings or sub-arrays: the cell of a vector column, the `(count, offset)`
descriptor of a variable-length column, a row of a `_VLF`. This module gives the element
type, the element types of fields (read off their numpy format strings), and the
elementwise numpy operations that `FITS_rec.field` and `FITS_rec._scale_back` apply:
conversions between numeric types, arithmetic with a Python float, `numpy.around`,
`numpy.equal`, `numpy.choose`, and the decoding of big-endian heap bytes.
-/

namespace PyFits

/-- The exceptions the modelled methods raise, with their messages. -/
inductive PyError where
  | indexError (msg : String)
  | keyError (msg : String)
  | valueError (msg : String)
  | typeError (msg : String)
  | ioError (msg : String)
  | attributeError (msg : String)
  | overflowError (msg : String)
  | nameError (msg : String)
  deriving DecidableEq, Repr

/-- A numeric scalar. -/
inductive Num where
  | int (i : Int)
  | float (x : Flt)
  deriving DecidableEq, Repr

/-- One element of a numpy array. -/
inductive Elem where
  | num (x : Num)
  | flag (b : Bool)
  | text (s : List Char)
  | nums (xs : List Num)
  | flags (bs : List Bool)
  deriving DecidableEq, Repr

instance : Inhabited Elem := ⟨.flag false⟩

/-- The type of a numeric array: `i<n>`, `u<n>` or `f<n>`, `n` bytes wide. -/
inductive NumKind where
  | int (bytes : Nat)
  | uint (bytes : Nat)
  | float (bytes : Nat)
  deriving DecidableEq, Repr

/-- The dtype of a record field: `count` numbers of one kind (a scalar field when
`count = 1`), a string of `itemsize` characters, or a type this model does not hold. -/
inductive FieldType where
  | num (k : NumKind) (count : Nat)
  | str (itemsize : Nat)
  | other
  deriving DecidableEq, Repr

/-- The dtype of a numpy array, as one element of it takes an assigned value: a number, a
sub-array of `count` numbers, a bool, a sub-array of `count` bools, a string of `itemsize`
bytes, or Python objects, stored as they are given. -/
inductive DType where
  | num (k : NumKind)
  | nums (k : NumKind) (count : Nat)
  | bool
  | bools (count : Nat)
  | str (itemsize : Nat)
  | obj
  deriving DecidableEq, Repr

/-- The kind a numpy type code and size name, as in `i2`, `u1`, `f8`. -/
def numKind? : Char → Nat → Option NumKind
  | 'i', n => if n ∈ [1, 2, 4, 8] then some (.int n) else none
  | 'u', n => if n ∈ [1, 2, 4, 8] then some (.uint n) else none
  | 'f', n => if n ∈ [4, 8] then some (.float n) else none
  | _, _ => none

/-- The field dtype of a numpy format string such as `3i2`, `f8` or `a10`. -/
def fieldType (spec : List Char) : FieldType :=
  let (rep, r) := spanDigits spec
  let rep := if rep = [] then 1 else digitsValue rep
  match r with
  | 'a' :: n => .str (if n = [] then 1 else digitsValue n)
  | c :: n =>
    match numKind? c (digitsValue n) with
    | some k => .num k rep
    | none => .other
  | [] => .other

/-- The dtype of a record field: a repeat count of one is a scalar, as numpy reads `1i2`. -/
def FieldType.dtype : FieldType → DType
  | .num k 1 => .num k
  | .num k n => .nums k n
  | .str n => .str n
  | .other => .obj

/-- `isinstance(field[0], np.integer)` for a field of at least one row. -/
def FieldType.isIntegerScalar : FieldType → Bool
  | .num (.int _) 1 | .num (.uint _) 1 => true
  | _ => false

/-- The width in bytes of one element of a heap array of type `dt`. -/
def heapItemsize? (dt : String) : Option Nat :=
  if dt = "a" then some 1 else
    match dt.toList with
    | c :: n => (numKind? c (digitsValue n)).map fun
        | .int b | .uint b | .float b => b
    | [] => none

/-! ## Numbers -/

/-- The two's-complement value of `i` in `bytes` bytes. -/
def wrapInt (bytes : Nat) (signed : Bool) (i : Int) : Int :=
  let m : Int := 2 ^ (8 * bytes)
  let r := i % m
  if signed ∧ 2 * r ≥ m then r - m else r

/-- The format a float kind computes in. -/
def NumKind.format : NumKind → FltFormat
  | .float 4 => binary32
  | _ => binary64

def Num.toFlt (f : FltFormat) : Num → Flt
  | .int i => Flt.ofInt f i
  | .float x => Flt.narrow f x

/-- `astype(kind)` of one number; an infinity or NaN cast to an integer kind gives `0`
(numpy's C conversion is undefined there). -/
def Num.cast : NumKind → Num → Num
  | .int b, .int i => .int (wrapInt b true i)
  | .uint b, .int i => .int (wrapInt b false i)
  | .int b, .float x => .int (wrapInt b true ((Flt.trunc? x).getD 0))
  | .uint b, .float x => .int (wrapInt b false ((Flt.trunc? x).getD 0))
  | k@(.float _), x => .float (x.toFlt k.format)

/-- `x * bscale + bzero` in the format `f`, skipping a step whose factor is not declared. -/
def Num.scale (f : FltFormat) (scale zero : Option Flt) (x : Num) : Flt :=
  let y := x.toFlt f
  let y := match scale with | some s => Flt.mul f y s | none => y
  match zero with | some z => Flt.add f y z | none => y

/-- `(x - bzero) / bscale` in `float64`, skipping a step whose factor is not declared. -/
def Num.unscale (scale zero : Option Flt) (x : Num) : Num :=
  let y := x.toFlt binary64
  let y := match zero with | some z => Flt.sub binary64 y z | none => y
  .float (match scale with | some s => Flt.div binary64 y s | none => y)

def Num.around : Num → Num
  | .float x => .float x.around
  | x => x

def boolNum (b : Bool) : Num := .int (if b then 1 else 0)

/-! ## Elementwise operations -/

/-- Applies `f` to every number of an element (a bool counts as `0` or `1`); `none`, a
`TypeError`, on text. -/
def Elem.mapNum (f : Num → Num) : Elem → Option Elem
  | .num x => some (.num (f x))
  | .nums xs => some (.nums (xs.map f))
  | .flag b => some (.num (f (boolNum b)))
  | .flags bs => some (.nums (bs.map (f ∘ boolNum)))
  | .text _ => none

/-- `numpy.equal(x, ord('T'))`: the stored byte of a logical value, read as a bool. -/
def Elem.isTrueByte : Elem → Option Elem
  | .num x => some (.flag (x = .int 84))
  | .nums xs => some (.flags (xs.map (· = .int 84)))
  | _ => none

/-- `numpy.choose(x, (ord('F'), ord('T')))`. -/
def Elem.chooseFT : Elem → Option Elem
  | .flag b => some (.num (.int (if b then 84 else 70)))
  | .flags bs => some (.nums (bs.map fun b => .int (if b then 84 else 70)))
  | .num (.int 0) => some (.num (.int 70))
  | .num (.int 1) => some (.num (.int 84))
  | _ => none

/-- `len(x)` of a variable-length row. -/
def Elem.len? : Elem → Option Nat
  | .nums xs => some xs.length
  | .flags bs => some bs.length
  | .text s => some s.length
  | _ => none

/-- `f[:] = values` for a target of `n` elements: numpy copies `values` element by element
when there are `n` of them and repeats a single one; any other count is an error. -/
def broadcast (n : Nat) (values : List Elem) : Except PyError (List Elem) :=
  match values with
  | [v] => .ok (List.replicate n v)
  | vs => if vs.length = n then .ok vs else
    .error (.valueError "shape mismatch: objects cannot be broadcast to a single shape")

theorem broadcast_length {n : Nat} {values ys : List Elem} (h : broadcast n values = .ok ys) : ys.length = n := by
  unfold broadcast at h
  split at h
  · simp only [Except.ok.injEq] at h
    simp [← h]
  · split_ifs at h with hl
    · simp only [Except.ok.injEq] at h
      rw [← h, hl]

/-! ## Assigning one element

`a[i] = x` on a one-dimensional array stores `x` converted to the array's dtype by numpy's
`setitem`: a number slot takes `long(x)` (then the C cast into the slot's width, after
`PyLong_AsLong`'s range check) or `float(x)`, a bool slot `PyObject_IsTrue(x)`, a string slot
`str(x)` cut to the itemsize. A one-element array gives its element; any other array raises.
A sub-array slot (a row of a vector column or of an `X` column) takes a sequence of its own
length element by element and broadcasts a single value. Values are Python 2's: `long` of a
float truncates, and the texts of the errors are those Python 2 and numpy 1 raise. -/

/-- The error of assigning an array to one element. -/
def sequenceError : PyError := .valueError "setting an array element with a sequence."

/-- The element a one-element array gives; any other array raises. -/
def Elem.scalar? : Elem → Except PyError Elem
  | .nums [x] => .ok (.num x)
  | .flags [b] => .ok (.flag b)
  | .nums _ | .flags _ => .error sequenceError
  | e => .ok e

/-- `long(x)` of a scalar. -/
def pyLongOf : Elem → Except PyError Int
  | .num (.int i) => .ok i
  | .num (.float x@(.fin _ _)) => .ok (x.trunc?.getD 0)
  | .num (.float (.inf _)) => .error (.overflowError "cannot convert float infinity to integer")
  | .num (.float .nan) => .error (.valueError "cannot convert float NaN to integer")
  | .flag b => .ok (if b then 1 else 0)
  | .text s => (pyLong? s).elim
      (.error (.valueError ("invalid literal for long() with base 10: \x27" ++ s.asString ++ "\x27"))) .ok
  | _ => .error sequenceError

/-- `float(x)` of a scalar. -/
def pyFloatOf : Elem → Except PyError Flt
  | .num (.int i) =>
    match Flt.ofInt binary64 i with
    | .inf _ => .error (.overflowError "long int too large to convert to float")
    | y => .ok y
  | .num (.float x) => .ok x
  | .flag b => .ok (.fin (if b then 1 else 0) 0)
  | .text s => (pyFloat? s).elim (.error (.valueError ("could not convert string to float: " ++ s.asString))) .ok
  | _ => .error sequenceError

/-- The integers `PyLong_AsLong` accepts, and for `uint32` and `uint64` slots, which numpy fills
through `PyLong_AsUnsignedLong` first, also those up to `2 ^ 64`. -/
def cLongFits (k : NumKind) (i : Int) : Bool :=
  match k with
  | .uint 4 | .uint 8 => -2 ^ 63 ≤ i ∧ i < 2 ^ 64
  | _ => -2 ^ 63 ≤ i ∧ i < 2 ^ 63

/-- The number a slot of kind `k` stores for `x`. -/
def castNum (k : NumKind) (x : Elem) : Except PyError Num := do
  let x ← x.scalar?
  match k with
  | .float _ => return Num.cast k (.float (← pyFloatOf x))
  | _ =>
    let i ← pyLongOf x
    if cLongFits k i then return Num.cast k (.int i)
    else throw (.overflowError "Python int too large to convert to C long")

/-- `PyObject_IsTrue(x)`: an empty array is false. -/
def castBool : Elem → Except PyError Bool
  | .nums [] | .flags [] => .ok false
  | x => do
    match ← x.scalar? with
    | .num (.int i) => return i ≠ 0
    | .num (.float x) => return x ≠ .fin 0 0
    | .flag b => return b
    | .text s => return s ≠ []
    | _ => throw sequenceError

/-- `str(x)`; an array other than an empty one raises. -/
def pyStr : Elem → Except PyError (List Char)
  | .num (.int i) => .ok (showInt i)
  | .num (.float x) => .ok (pyStrFloat x)
  | .flag b => .ok (if b then "True".toList else "False".toList)
  | .text s => .ok s
  | .nums [] | .flags [] => .ok "[]".toList
  | _ => .error (.valueError "setting an array element with a sequence")

/-- The elements of an array assigned to a sub-array. -/
def Elem.items? : Elem → Option (List Elem)
  | .nums xs => some (xs.map .num)
  | .flags bs => some (bs.map .flag)
  | _ => none

/-- The `n` values a sub-array slot stores for `x`: the elements of an array of `n`, or one value
broadcast, each cast by `cast1`. -/
def castSub {α : Type} (cast1 : Elem → Except PyError α) (n : Nat) (x : Elem) : Except PyError (List α) := do
  let ys ← broadcast n (x.items?.getD [x])
  ys.mapM cast1

/-- numpy's `setitem`: the element an array of dtype `dt` stores for an assigned `x`. -/
def DType.cast : DType → Elem → Except PyError Elem
  | .num k, x => .num <$> castNum k x
  | .nums k n, x => .nums <$> castSub (castNum k) n x
  | .bool, x => .flag <$> castBool x
  | .bools n, x => .flags <$> castSub castBool n x
  | .str n, x => (fun s => .text (s.take n)) <$> pyStr x
  | .obj, x => .ok x

/-- A string slot keeps a text that fits its itemsize. -/
theorem DType.cast_str_text {n : Nat} {x : List Char} (h : x.length ≤ n) :
    DType.cast (.str n) (.text x) = .ok (.text x) := by
  have hc : DType.cast (.str n) (.text x) = .ok (.text (x.take n)) := rfl
  rw [hc, List.take_of_length_le h]

example : DType.cast (.num (.int 4)) (.num (.float (.fin 5 (-1)))) = .ok (.num (.int 2)) := rfl

example : DType.cast (.bools 3) (.flags [false, true, true, true]) =
    .error (.valueError "shape mismatch: objects cannot be broadcast to a single shape") := rfl

/-! ## Heap bytes and packed bits -/

/-- The unsigned big-endian value of a run of bytes. -/
def beValue (bytes : List Nat) : Nat := bytes.foldl (fun v b => 256 * v + b) 0

/-- An IEEE 754 value from its bits: `fb` fraction bits and `eb` exponent bits. -/
def fltOfBits (fb eb : Nat) (bits : Nat) : Flt :=
  let frac := bits % 2 ^ fb
  let ex := (bits / 2 ^ fb) % 2 ^ eb
  let neg := bits / 2 ^ (fb + eb) % 2 = 1
  let bias : Int := 2 ^ (eb - 1) - 1
  if ex = 2 ^ eb - 1 then (if frac = 0 then .inf neg else .nan)
  else
    let (m, e) : Int × Int :=
      if ex = 0 then (frac, 1 - bias - fb) else (2 ^ fb + frac, ex - bias - fb)
    Flt.normalize (if neg then -m else m) e

/-- One heap element of kind `k` from its big-endian bytes. -/
def decodeBE (k : NumKind) (bytes : List Nat) : Num :=
  match k with
  | .int b => .int (wrapInt b true (beValue bytes))
  | .uint _ => .int (beValue bytes)
  | .float 4 => .float (fltOfBits 23 8 (beValue bytes))
  | .float _ => .float (fltOfBits 52 11 (beValue bytes))

/-- Splits a byte run into `count` elements of `size` bytes. -/
def chunks (size : Nat) : Nat → List Nat → List (List Nat)
  | 0, _ => []
  | count + 1, bytes => bytes.take size :: chunks size count (bytes.drop size)

/-- The bits of an `X` cell, most significant bit of each byte first.
Modelled from the spec: `_unwrapx` is not in the repository's files; it unpacks each byte
most significant bit first, the inverse of `_wrapx`. -/
def unwrapx (bytes : List Nat) (nx : Nat) : List Bool :=
  (List.range nx).map fun j => (bytes.getD (j / 8) 0) / 2 ^ (7 - j % 8) % 2 = 1

/-- The bytes of an `X` cell from its bits, padded with zero bits.
Modelled from the spec: `_wrapx` is not in the repository's files; it packs bits most
significant first into `(nx - 1) / 8 + 1` bytes. -/
def wrapx (bits : List Bool) (nx : Nat) : List Nat :=
  (List.range ((nx - 1) / 8 + 1)).map fun i =>
    ((List.range 8).map fun k =>
      if 8 * i + k < nx ∧ bits.getD (8 * i + k) false then 2 ^ (7 - k) else 0).sum

end PyFits
