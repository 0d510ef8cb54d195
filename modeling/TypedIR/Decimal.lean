/-! Decimal text of binary64 numbers. The value is taken exactly, as a fraction of naturals, and
rounded once: a half goes to the even neighbour. -/

namespace TypedIR

/-- A binary64 pattern read as a number; a finite one is `num / den` up to its sign. -/
inductive Binary64
  | finite (negative : Bool) (num den : Nat)
  | infinite (negative : Bool)
  | nan (negative : Bool)

namespace Binary64

def ofBits (bits : UInt64) : Binary64 :=
  let negative := bits >>> 63 != 0
  let exponent := ((bits >>> 52) &&& 0x7FF).toNat
  let fraction := (bits &&& 0xFFFFFFFFFFFFF).toNat
  if exponent = 0x7FF then
    if fraction = 0 then infinite negative else nan negative
  else
    let significand := if exponent = 0 then fraction else fraction + Nat.pow 2 52
    let shift := max exponent 1
    if 1075 ≤ shift then finite negative (significand * Nat.pow 2 (shift - 1075)) 1
    else finite negative significand (Nat.pow 2 (1075 - shift))

def magnitude (bits : UInt64) : UInt64 := bits &&& 0x7FFFFFFFFFFFFFFF

def isFinite (bits : UInt64) : Bool := magnitude bits < 0x7FF0000000000000

end Binary64

namespace Decimal

def roundHalfEven (num den : Nat) : Nat :=
  let q := num / den
  let r := num % den
  if 2 * r < den then q
  else if den < 2 * r then q + 1
  else if q % 2 = 0 then q
  else q + 1

def leadingExponent (num den : Nat) : Int :=
  if den ≤ num then ((Nat.toDigits 10 (num / den)).length : Int) - 1
  else -((Nat.toDigits 10 ((den - 1) / num)).length : Int)

/-- `num / den` with `places + 1` significant digits, read as an integer, and the exponent of the
first of them. Rounding up to a power of ten moves the exponent. -/
def significant (places num den : Nat) : Nat × Int :=
  if num = 0 then (0, 0)
  else
    let e := leadingExponent num den
    let shift := (places : Int) - e
    let q := roundHalfEven (num * Nat.pow 10 shift.toNat) (den * Nat.pow 10 (-shift).toNat)
    if q = Nat.pow 10 (places + 1) then (Nat.pow 10 places, e + 1) else (q, e)

def digits (count n : Nat) : List Char :=
  let ds := Nat.toDigits 10 n
  List.replicate (count - ds.length) '0' ++ ds

def exponentText (e : Int) : String :=
  (if e < 0 then "e-" else "e+") ++ String.ofList (digits 2 e.natAbs)

def pointAfter (count : Nat) (ds : List Char) : String :=
  match ds.drop count with
  | [] => String.ofList (ds.take count)
  | rest => String.ofList (ds.take count) ++ "." ++ String.ofList rest

def stripZeros (ds : List Char) : List Char :=
  (ds.reverse.dropWhile (· == '0')).reverse

def scientificOf (places num den : Nat) : String :=
  let (q, e) := significant places num den
  pointAfter 1 (digits (places + 1) q) ++ exponentText e

/-- At most `places + 1` significant digits without trailing zeros: positional from `1e-4` up to
the last exponent that the digits reach, scientific elsewhere. -/
def generalOf (places num den : Nat) : String :=
  let (q, e) := significant places num den
  let ds := digits (places + 1) q
  if e < -4 ∨ (places : Int) < e then
    pointAfter 1 (ds.take 1 ++ stripZeros (ds.drop 1)) ++ exponentText e
  else if e < 0 then
    "0." ++ String.ofList (List.replicate ((-e).toNat - 1) '0' ++ stripZeros ds)
  else
    let whole := e.toNat + 1
    pointAfter whole (ds.take whole ++ stripZeros (ds.drop whole))

def signed (negative : Bool) (text : String) : String :=
  if negative then "-" ++ text else text

def ofBits (finiteText : Nat → Nat → String) (bits : UInt64) : String :=
  match Binary64.ofBits bits with
  | .finite negative num den => signed negative (finiteText num den)
  | .infinite negative => signed negative "inf"
  | .nan negative => signed negative "nan"

def scientific (bits : UInt64) : String := ofBits (scientificOf 6) bits

def general (bits : UInt64) : String := ofBits (generalOf 5) bits

end Decimal

end TypedIR
