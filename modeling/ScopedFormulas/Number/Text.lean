import ScopedFormulas.Number.Exact

namespace ScopedFormulas.Number

structure Decimal where
  digits : Nat
  exponent : Int
  deriving DecidableEq, Repr

def scale (e k : Int) : Nat × Nat :=
  (Nat.pow 2 e.toNat * Nat.pow 10 (-k).toNat, Nat.pow 2 (-e).toNat * Nat.pow 10 k.toNat)

/-- The multiple of `10 ^ k` that is nearest to `m * 2 ^ e` among those that round to it. Of two
equally near ones it is the greater. Lengths are measured in quarters of `2 ^ e`: the double above
is 4 of them away, and so is the one below, unless `m` is the least mantissa of its power of two,
when it is only 2 away. -/
def nearest? (m : Nat) (e k : Int) : Option Nat :=
  let (num, den) := scale (e - 2) k
  let value := 4 * m * num
  let low := (if m = Nat.pow 2 52 ∧ -1074 < e then 4 * m - 1 else 4 * m - 2) * num
  let high := (4 * m + 2) * num
  let inside (c : Nat) : Bool :=
    if m % 2 = 0 then low ≤ c * den && c * den ≤ high else low < c * den && c * den < high
  let c := value / den
  match inside c, inside (c + 1) with
  | true, true => if value - c * den < (c + 1) * den - value then some c else some (c + 1)
  | true, false => some c
  | false, true => some (c + 1)
  | false, false => none

/-- Steps from `10 ^ 309`, above every finite double, down to `10 ^ (-324)`, which is less than the
distance between neighbouring doubles. -/
def steps : List Int := (List.range 634).map fun i : Nat => 309 - (i : Int)

/-- The shortest decimal that reads back as `m * 2 ^ e`. The reals that round to a double form an
interval, whose ends belong to it when the mantissa is even; grids of step `10 ^ k` are tried from
the coarsest to the finest, and the first one with a point in the interval gives the digits. -/
def shortest? (m : Nat) (e : Int) : Option Decimal :=
  if m = 0 then none else steps.findSome? fun k => (nearest? m e k).map fun c => ⟨c, k⟩

def zeros (n : Nat) : String := String.ofList (List.replicate n '0')

def Decimal.positional (d : Decimal) (whole : String) : String :=
  let digits := Nat.toDigits 10 d.digits
  let point := digits.length + d.exponent
  if point ≤ 0 then "0." ++ zeros (-point).toNat ++ String.ofList digits
  else if 0 ≤ d.exponent then String.ofList digits ++ zeros d.exponent.toNat ++ whole
  else
    String.ofList (digits.take point.toNat) ++ "." ++ String.ofList (digits.drop point.toNat)

def Decimal.scientific (d : Decimal) : String :=
  let digits := Nat.toDigits 10 d.digits
  let power := digits.length - 1 + d.exponent
  let fraction := digits.drop 1
  String.ofList (digits.take 1) ++ (if fraction.isEmpty then "" else "." ++ String.ofList fraction)
    ++ "e" ++ toString power

def Decimal.place (d : Decimal) : Int := (Nat.toDigits 10 d.digits).length + d.exponent

def signed (negative : Bool) (s : String) : String := if negative then "-" ++ s else s

def layout (zero : String) (nonzero : Decimal → String) (x : Float) : String :=
  match exact x with
  | .nan => "NaN"
  | .infinity negative => signed negative "inf"
  | .finite negative m e => signed negative (((shortest? m e).map nonzero).getD zero)

/-- A number in the rendering of an expression: positional from `1e-4` up to `1e16`, scientific
outside, and always recognisable as a number with a fraction. -/
def literal : Float → String :=
  layout "0.0" fun d =>
    if -3 ≤ d.place ∧ d.place ≤ 16 then d.positional ".0" else d.scientific

/-- A number in text: an integer below `10 ^ 15` in magnitude has no point, and neither zero has a
sign. All others are written positionally. -/
def text (x : Float) : String :=
  match integer? x with
  | some n => if n.natAbs < Nat.pow 10 15 then toString n else layout "0" (·.positional "") x
  | none => layout "0" (·.positional "") x

end ScopedFormulas.Number
