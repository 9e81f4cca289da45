import ComponentSheet.Options.Json.Decimal

/-! Numbers in JSON: whole numbers with 64 bits, and floating-point numbers. -/

namespace ComponentSheet.Json

/-- A number as written: sign, digits in front of the point and behind it, exponent. -/
structure Number where
  negative : Bool
  whole : Text
  fraction : Option Text
  exponent : Option Int

def digits (s : Text) : Text × Text :=
  (s.takeWhile Char.isDigit, s.dropWhile Char.isDigit)

def appendDigit (n : Nat) (c : Char) : Nat :=
  10 * n + (c.toNat - '0'.toNat)

def value (digits : Text) : Nat :=
  digits.foldl appendDigit 0

/-- The exponent at the front of a text, if there is one; it may be faulty. -/
def exponent? : Text → Option (Option Int)
  | c :: s =>
    if c = 'e' ∨ c = 'E' then
      let (negative, s) := match s with
        | '-' :: s => (true, s)
        | '+' :: s => (false, s)
        | s => (false, s)
      let ds := (digits s).1
      some (if ds = [] then none else some (if negative then -(value ds : Int) else value ds))
    else none
  | [] => none

/-- The number at the front of a text. A zero is not followed by another digit. -/
def number? (s : Text) : Option Number := do
  let (negative, s) := match s with
    | '-' :: s => (true, s)
    | s => (false, s)
  let (whole, s) := digits s
  guard (whole ≠ [] ∧ (whole.head? = some '0' → whole.length = 1))
  let (fraction, s) ← match s with
    | '.' :: s => if (digits s).1 = [] then none else some (some (digits s).1, (digits s).2)
    | s => some (none, s)
  match exponent? s with
  | none => return ⟨negative, whole, fraction, none⟩
  | some none => none
  | some (some e) => return ⟨negative, whole, fraction, some e⟩

/-- Puts digits behind a value as long as it keeps to 64 bits; the other digits are left. -/
def appendDigits (n : Nat) : Text → Nat × Text
  | [] => (n, [])
  | c :: s =>
    if appendDigit n c < 0x10000000000000000 then appendDigits (appendDigit n c) s
    else (n, c :: s)

/-- A power of ten, rounded. -/
def powerOfTen (n : Nat) : Float :=
  .ofScientific 1 false n

/-- The product with a power of ten, unless it is too large. -/
def scaleUp? (f : Float) (n : Nat) : Option Float :=
  if f == 0 then some f
  else if 308 < n then none
  else
    let product := f * powerOfTen n
    if product.isInf then none else some product

/-- The quotient by a power of ten, in as many steps as there are powers to divide by. -/
def scaleDown (f : Float) (n : Nat) : Float :=
  if n ≤ 308 then f / powerOfTen n
  else if f == 0 then f
  else scaleDown (f / powerOfTen 308) (n - 308)
termination_by n

namespace Number

/-- The value of a number that is written without point and exponent and has 64 bits. A negative
zero is no such number. -/
def integer? (n : Number) : Option Int :=
  if n.fraction.isSome ∨ n.exponent.isSome then none
  else
    let v := value n.whole
    if n.negative then if 0 < v ∧ v ≤ 0x8000000000000000 then some (-v) else none
    else if v < 0x10000000000000000 then some v else none

/-- The number as a multiple of a power of ten. Digits that do not fit into 64 bits are zeros. -/
def scientific (n : Number) : Nat × Int :=
  let fraction := n.fraction.getD []
  let front := appendDigits 0 n.whole
  let all := appendDigits front.1 fraction
  let exponent : Int := n.exponent.getD 0 + front.2.length + all.2.length
  (all.1, exponent - fraction.length)

/-- The floating-point value of a number, unless it is too large. -/
def float? (n : Number) : Option Float := do
  let (digits, exponent) := n.scientific
  let f := Float.ofScientific digits false 0
  let f ← if 0 ≤ exponent then scaleUp? f exponent.toNat else some (scaleDown f (-exponent).toNat)
  return if n.negative then -f else f

end Number

end ComponentSheet.Json
