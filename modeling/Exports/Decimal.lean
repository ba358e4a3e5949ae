namespace Exports.Decimal

/-- A positive double as a mantissa and a power of two. `narrow` tells that the next smaller
double is only half as far away as the next larger one. -/
structure Binary where
  mantissa : Nat
  exponent : Int
  narrow : Bool

/-- Fifty-two bits of a double hold its fraction, eleven above them its scale. -/
def fractionSize : Nat := 0x10000000000000

def scaleSize : Nat := 0x800

/-- The bit above all others is the sign. -/
def signBit : Nat := scaleSize * fractionSize

/-- The largest scale marks what is no finite number. -/
def infinityBits : Nat := 0x7ff * fractionSize

def Binary.ofBits (bits : Nat) : Binary :=
  let fraction : Nat := bits % fractionSize
  let scale : Nat := bits / fractionSize % scaleSize
  if scale = 0 then ⟨fraction, -1074, false⟩
  else ⟨fraction + fractionSize, Int.ofNat scale - 1075, fraction = 0 && 1 < scale⟩

/-- Compares `a * 10 ^ k` with `b * 2 ^ j`. -/
def compareScaled (a : Nat) (k : Int) (b : Nat) (j : Int) : Ordering :=
  compare (a * Nat.pow 10 k.toNat * Nat.pow 2 (-j).toNat)
    (b * Nat.pow 2 j.toNat * Nat.pow 10 (-k).toNat)

/-- Whether `a * 10 ^ k` lies between the halfway points to the neighbours. Halfway points belong
to even mantissas. -/
def readsBack (x : Binary) (a : Nat) (k : Int) : Bool :=
  let low := 4 * x.mantissa - (if x.narrow then 1 else 2)
  let high := 4 * x.mantissa + 2
  let even := x.mantissa % 2 = 0
  let ok (o : Ordering) (outside : Ordering) := o ≠ outside && (even || o ≠ .eq)
  ok (compareScaled a k low (x.exponent - 2)) .lt &&
    ok (compareScaled a k high (x.exponent - 2)) .gt

/-- Multiples of `10 ^ k` at most as large as the value. -/
def multiples (x : Binary) (k : Int) : Nat :=
  (x.mantissa * Nat.pow 2 x.exponent.toNat * Nat.pow 10 (-k).toNat) /
    (Nat.pow 2 (-x.exponent).toNat * Nat.pow 10 k.toNat)

/-- Of the two multiples of `10 ^ k` around the value one that reads back, the nearer if both do,
the larger if both are equally near. -/
def onGrid (x : Binary) (k : Int) : Option Nat :=
  let below := multiples x k
  let nearerBelow := compareScaled (2 * below + 1) k (2 * x.mantissa) x.exponent = .gt
  match readsBack x below k && below ≠ 0, readsBack x (below + 1) k with
  | true, true => some (if nearerBelow then below else below + 1)
  | true, false => some below
  | false, true => some (below + 1)
  | false, false => none

/-- The coarsest grid with a multiple that reads back. No double needs a finer grid than
`10 ^ -1074`, and none a coarser one than `10 ^ 309`. -/
def shortest (x : Binary) : Nat × Int :=
  let grids := (List.range 1384).map fun i => 309 - Int.ofNat i
  (grids.findSome? fun k => (onGrid x k).map (·, k)).getD (0, 0)

/-- Digits of `a * 10 ^ k` with a point where it is needed. -/
def positional (a : Nat) (k : Int) : List Char :=
  let digits := Nat.toDigits 10 a
  if 0 ≤ k then digits ++ List.replicate k.toNat '0'
  else
    let places := (-k).toNat
    let padded := List.replicate (places + 1 - digits.length) '0' ++ digits
    padded.take (padded.length - places) ++ '.' :: padded.drop (padded.length - places)

def ofFloat (x : Float) : String :=
  let bits := x.toBits.toNat
  let sign := if bits < signBit then "" else "-"
  let size := bits % signBit
  if size = 0 then sign ++ "0"
  else if size = infinityBits then sign ++ "inf"
  else if infinityBits < size then "NaN"
  else
    let (a, k) := shortest (.ofBits size)
    sign ++ String.ofList (positional a k)

/-- The double nearest to `digits * 10 ^ exponent`. Powers far outside the range of doubles are
settled without computing them. -/
def toFloat (digits : List Char) (natural : Nat) (exponent : Int) : Float :=
  let size := (digits.length : Int) + exponent
  if natural = 0 || size < -400 then 0
  else if 400 < size then 1.0 / 0.0
  else Float.ofScientific natural (exponent < 0) exponent.natAbs

end Exports.Decimal
