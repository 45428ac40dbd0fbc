/-!
The shortest decimal that reads back as a given binary fraction, in exact arithmetic, and the text
of a double that is made from it.
-/
namespace TraceReplay.Decimal

/-- A fraction of naturals with a positive denominator. -/
structure Ratio where
  num : Nat
  den : Nat

namespace Ratio

def le (a b : Ratio) : Bool := a.num * b.den ≤ b.num * a.den

def lt (a b : Ratio) : Bool := a.num * b.den < b.num * a.den

/-- `n` times `base` to the power `exponent`. -/
def scaled (n base : Nat) : (exponent : Int) → Ratio
  | .ofNat e => ⟨n * base.pow e, 1⟩
  | .negSucc e => ⟨n, base.pow (e + 1)⟩

/-- The whole part of a fraction of powers of ten. -/
def floorBy (a unit : Ratio) : Nat := a.num * unit.den / (a.den * unit.num)

end Ratio

/-- The number `mantissa * 2 ^ exponent`, where a value reads back as this one if it lies at most
half a unit away: `narrow` says that the neighbour below is only half as far off as usual. -/
structure Binary where
  mantissa : Nat
  exponent : Int
  narrow : Bool

/-- The number `digits * 10 ^ exponent`. -/
structure Digits where
  digits : Nat
  exponent : Int
deriving DecidableEq, Inhabited

namespace Binary

def value (x : Binary) : Ratio := .scaled x.mantissa 2 x.exponent

/-- Half-way to the neighbour below. -/
def lower (x : Binary) : Ratio :=
  .scaled (4 * x.mantissa - if x.narrow then 1 else 2) 2 (x.exponent - 2)

/-- Half-way to the neighbour above. -/
def upper (x : Binary) : Ratio := .scaled (4 * x.mantissa + 2) 2 (x.exponent - 2)

/-- Whether a value reads back as `x`: a value half-way to a neighbour goes to the even one. -/
def holds (x : Binary) (value : Ratio) : Bool :=
  if x.mantissa % 2 = 0 then x.lower.le value && value.le x.upper
  else x.lower.lt value && value.lt x.upper

/-- The power of ten of the leading digit, for values between `10 ^ -325` and `10 ^ 309`. -/
def leadingExponent (x : Binary) : Int :=
  let exponents := (List.range 634).map fun j => 308 - Int.ofNat j
  (exponents.find? fun k => (Ratio.scaled 1 10 k).le x.value).getD (-325)

/-- Of the two values next to `x` that are whole numbers of `10 ^ exponent`, the nearer one that
reads back; of two equally near ones, the even one. -/
def onGrid? (x : Binary) (exponent : Int) : Option Digits :=
  let unit := Ratio.scaled 1 10 exponent
  let below := x.value.floorBy unit
  let at? (n : Nat) : Bool := x.holds (.scaled n 10 exponent)
  let middle := Ratio.scaled (2 * below + 1) 10 exponent
  let twice : Ratio := ⟨2 * x.value.num, x.value.den⟩
  let preferBelow := twice.lt middle || (twice.le middle && below % 2 = 0)
  let (first, second) := if preferBelow then (below, below + 1) else (below + 1, below)
  if at? first then some ⟨first, exponent⟩
  else if at? second then some ⟨second, exponent⟩
  else none

/-- The decimal with the fewest digits that reads back as `x`; seventeen always suffice. -/
def shortest (x : Binary) : Digits :=
  let k := x.leadingExponent
  ((List.range 17).findSome? fun n => x.onGrid? (k - Int.ofNat n)).getD ⟨0, 0⟩

end Binary

/-- Drops at most `limit` zeros from the end of the digits. -/
def Digits.trim : (limit : Nat) → Digits → Digits
  | 0, d => d
  | limit + 1, d =>
    if d.digits ≠ 0 ∧ d.digits % 10 = 0 then trim limit ⟨d.digits / 10, d.exponent + 1⟩ else d

/-- The leading exponents that are written without a power of ten. -/
def isPlain (leading : Int) : Bool := decide (-5 ≤ leading) && decide (leading ≤ 15)

/-- Digits as a number with a decimal point where that is short enough, and otherwise as one digit,
the further ones after a point, and a signed power of ten. -/
def Digits.text (d : Digits) : String :=
  let cs := Nat.toDigits 10 d.digits
  let leading := d.exponent + Int.ofNat cs.length - 1
  if isPlain leading then
    if 0 ≤ d.exponent then
      String.ofList (cs ++ List.replicate d.exponent.toNat '0' ++ ['.', '0'])
    else if 0 ≤ leading then
      String.ofList (cs.take (leading.toNat + 1) ++ '.' :: cs.drop (leading.toNat + 1))
    else String.ofList (['0', '.'] ++ List.replicate (-leading - 1).toNat '0' ++ cs)
  else
    let sign := if 0 ≤ leading then "e+" else "e-"
    String.ofList (cs.take 1) ++
      (if cs.length = 1 then "" else "." ++ String.ofList (cs.drop 1)) ++
      sign ++ toString leading.natAbs

/-- The parts of the bits of a finite double. -/
def Binary.ofBits (bits : Nat) : Binary :=
  let fraction := bits % (1 <<< 52)
  let exponent := (bits >>> 52) % (1 <<< 11)
  if exponent = 0 then ⟨fraction, -1074, false⟩
  else ⟨(1 <<< 52) + fraction, Int.ofNat exponent - 1075, fraction = 0 ∧ 1 < exponent⟩

/-- The text of a finite double. -/
def text (x : Float) : String :=
  let bits := x.toBits.toNat
  let sign := if bits >>> 63 = 1 then "-" else ""
  let b := Binary.ofBits bits
  sign ++ if b.mantissa = 0 then "0.0" else (b.shortest.trim 20).text

end TraceReplay.Decimal
