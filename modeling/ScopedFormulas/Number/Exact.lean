namespace ScopedFormulas.Number

/-- The value of a double: `finite negative m e` is `m * 2 ^ e` with its sign. -/
inductive Exact where
  | nan
  | infinity (negative : Bool)
  | finite (negative : Bool) (mantissa : Nat) (exponent : Int)
  deriving DecidableEq, Repr

def exact (x : Float) : Exact :=
  let bits := x.toBits.toNat
  let negative := bits / Nat.pow 2 63 == 1
  let field : Nat := bits / Nat.pow 2 52 % Nat.pow 2 11
  let fraction := bits % Nat.pow 2 52
  if field = 2047 then
    if fraction = 0 then .infinity negative else .nan
  else if field = 0 then .finite negative fraction (-1074)
  else .finite negative (fraction + Nat.pow 2 52) ((field : Int) - 1075)

def integer? (x : Float) : Option Int :=
  match exact x with
  | .finite negative m e =>
    let magnitude : Option Nat :=
      if 0 ≤ e then some (m * Nat.pow 2 e.toNat)
      else if m % Nat.pow 2 (-e).toNat = 0 then some (m / Nat.pow 2 (-e).toNat)
      else none
    magnitude.map fun n => if negative then -(n : Int) else n
  | _ => none

def natural? (x : Float) : Option Nat :=
  match integer? x with
  | some (.ofNat n) => some n
  | _ => none

/-- The greatest integral double that is at most `x`. A double that is integral already, or that
is not finite, is its own floor, so the sign of a zero is kept. -/
def floor (x : Float) : Float :=
  match exact x with
  | .finite negative m e =>
    let unit := Nat.pow 2 (-e).toNat
    if m % unit = 0 then x
    else if negative then -Float.ofNat (m / unit + 1)
    else Float.ofNat (m / unit)
  | _ => x

end ScopedFormulas.Number
