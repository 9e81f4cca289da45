import ComponentSheet.Text.Basic

/-! The decimal text of a floating-point number: of all decimals that are read as the number, one
with the fewest digits, and of these the nearest. -/

namespace ComponentSheet.Decimal

/-- A non-negative number in exact arithmetic. The denominator is not zero. -/
structure Ratio where
  num : Nat
  den : Nat

namespace Ratio

def scale (r : Ratio) (base : Nat) (exponent : Int) : Ratio :=
  ⟨r.num * Nat.pow base exponent.toNat, r.den * Nat.pow base (-exponent).toNat⟩

def less (r s : Ratio) : Bool :=
  r.num * s.den < s.num * r.den

end Ratio

/-- A finite number without its sign: the mantissa times a power of two. -/
structure Binary where
  mantissa : Nat
  exponent : Int
  /-- Whether the next number below is half as far away as the next one above. -/
  closeBelow : Bool

namespace Binary

/-- The number with the given bits, which is finite. -/
def ofBits (bits : Nat) : Binary :=
  let fraction := bits % 0x10000000000000
  let biased := bits / 0x10000000000000 % 0x800
  if biased = 0 then ⟨fraction, -1074, false⟩
  else ⟨0x10000000000000 + fraction, biased - 1075, fraction = 0 ∧ 1 < biased⟩

/-- So many quarters of the last place of the mantissa. -/
def quarters (b : Binary) (n : Nat) : Ratio :=
  Ratio.scale ⟨n, 4⟩ 2 b.exponent

def value (b : Binary) : Ratio :=
  b.quarters (4 * b.mantissa)

/-- Whether `r` is read as the number: it lies between the middles of the gaps on both sides. The
middles themselves are read as the number with an even mantissa. -/
def isReadFrom (b : Binary) (r : Ratio) : Bool :=
  let low := b.quarters (4 * b.mantissa - if b.closeBelow then 1 else 2)
  let high := b.quarters (4 * b.mantissa + 2)
  if b.mantissa % 2 = 0 then !r.less low && !high.less r else low.less r && r.less high

/-- The least power of ten above the number. -/
def order (b : Binary) : Int :=
  let powers := (List.range 640).map fun (n : Nat) => (n : Int) - 325
  (powers.find? fun k => b.value.less (Ratio.scale ⟨1, 1⟩ 10 k)).getD 0

/-- The decimal with so many digits that is read as the number, if there is one: the nearer one of
two, and of two that are equally near the even one. -/
def rounded? (b : Binary) (count : Nat) : Option (Nat × Int) :=
  let exponent := b.order - count
  let exact := b.value.scale 10 (-exponent)
  let low := exact.num / exact.den
  let reads n := b.isReadFrom (Ratio.scale ⟨n, 1⟩ 10 exponent)
  let middle : Ratio := ⟨2 * low + 1, 2⟩
  let upFirst := middle.less exact || !exact.less middle && low % 2 = 1
  let candidates := if upFirst then [low + 1, low] else [low, low + 1]
  (candidates.find? reads).map (·, exponent)

/-- The shortest decimal. Seventeen digits are always enough. -/
def shortest (b : Binary) : Nat × Int :=
  ((List.range 17).findSome? fun n => b.rounded? (n + 1)).getD (0, 0)

end Binary

/-- Digits with a point behind the first `point` of them. Powers of ten below a hundred thousandth
and from ten quadrillions on are written with an exponent and its sign. -/
def layout (digits : Text) (point : Int) : Text :=
  let count : Int := digits.length
  let zeros (k : Int) : Text := List.replicate k.toNat '0'
  if count ≤ point ∧ point ≤ 16 then digits ++ zeros (point - count) ++ ".0".toList
  else if 0 < point ∧ point ≤ 16 then
    digits.take point.toNat ++ '.' :: digits.drop point.toNat
  else if -5 < point ∧ point ≤ 0 then "0.".toList ++ zeros (-point) ++ digits
  else
    let rest := if digits.length = 1 then [] else '.' :: digits.tail
    let sign := if 0 < point then '+' else '-'
    digits.take 1 ++ rest ++ 'e' :: sign :: Nat.toDigits 10 (point - 1).natAbs

/-- The text of a finite number. -/
def text (f : Float) : Text :=
  let bits := f.toBits.toNat
  let sign := if bits < 0x8000000000000000 then [] else ['-']
  let b := Binary.ofBits bits
  if b.mantissa = 0 then sign ++ "0.0".toList
  else
    let (n, exponent) := b.shortest
    let all := Nat.toDigits 10 n
    let digits := (all.reverse.dropWhile (· = '0')).reverse
    sign ++ layout digits (all.length + exponent)

end ComponentSheet.Decimal
