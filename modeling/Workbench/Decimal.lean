/-!
# Binary fractions and their shortest decimals

A double is `m · 2 ^ q` with at most 53 bits in `m`. Reading rounds to the
nearest double, ties to even; writing takes the fewest digits that read back.
All arithmetic is exact on natural numbers.
-/

namespace Workbench.Decimal

/-- The number `mantissa · 2 ^ exponent`. -/
structure Double where
  mantissa : Nat
  exponent : Int
deriving DecidableEq, Repr

def bitLength (n : Nat) : Nat := if n = 0 then 0 else n.log2 + 1

/-- `num / den` scaled by `2 ^ (-q)`, as a fraction. -/
def scaled (num den : Nat) (q : Int) : Nat × Nat :=
  if q ≤ 0 then (num * Nat.pow 2 q.natAbs, den) else (num, den * Nat.pow 2 q.natAbs)

/-- Nearest whole number to a fraction; a tie goes to the even one. -/
def roundDiv (num den : Nat) : Nat :=
  let k := num / den
  let r := num % den
  if 2 * r < den then k else if 2 * r > den then k + 1 else if k % 2 = 0 then k else k + 1

/-- The double nearest to `num / den`; `none` when it is too large. -/
def nearest (num den : Nat) : Option Double :=
  if num = 0 then some ⟨0, 0⟩
  else
    let guess : Int := (bitLength num : Int) - bitLength den - 53
    let small := scaled num den guess
    let q := max (if small.1 / small.2 < Nat.pow 2 52 then guess - 1 else guess) (-1074)
    let q := if (scaled num den q).1 / (scaled num den q).2 < Nat.pow 2 53 then q else q + 1
    let m := roundDiv (scaled num den q).1 (scaled num den q).2
    let d : Double := if m = Nat.pow 2 53 then ⟨Nat.pow 2 52, q + 1⟩ else ⟨m, q⟩
    if d.exponent > 971 then none else some d

def Double.fraction (d : Double) : Nat × Nat :=
  if d.exponent ≥ 0 then (d.mantissa * Nat.pow 2 d.exponent.natAbs, 1)
  else (d.mantissa, Nat.pow 2 d.exponent.natAbs)

def Double.times (a b : Double) : Option Double :=
  nearest (a.fraction.1 * b.fraction.1) (a.fraction.2 * b.fraction.2)

def Double.over (a b : Double) : Option Double :=
  nearest (a.fraction.1 * b.fraction.2) (a.fraction.2 * b.fraction.1)

/-- A whole number times a power of ten, rounded after each of the steps. -/
def ofParts (digits : Nat) (power : Int) : Option Double := do
  let f ← nearest digits 1
  if f.mantissa = 0 then return f
  if power ≥ 0 then
    if power > 308 then none else f.times (← nearest (Nat.pow 10 power.natAbs) 1)
  else
    let rounds := power.natAbs / 308
    let f ← (List.replicate (min rounds 4) ()).foldlM (fun f _ => do f.over (← nearest (Nat.pow 10 308) 1)) f
    f.over (← nearest (Nat.pow 10 (power.natAbs % 308)) 1)

/-- The two decimals `k` and `k + 1` of the grid `10 ^ e` that enclose the double. -/
def gridBelow (d : Double) (e : Int) : Nat :=
  let (n, m) := d.fraction
  if e ≥ 0 then n / (m * Nat.pow 10 e.natAbs) else n * Nat.pow 10 e.natAbs / m

def readsBack (d : Double) (k : Nat) (e : Int) : Bool :=
  (if e ≥ 0 then nearest (k * Nat.pow 10 e.natAbs) 1 else nearest k (Nat.pow 10 e.natAbs)).any fun d' =>
    d'.fraction.1 * d.fraction.2 == d.fraction.1 * d'.fraction.2

def candidates (d : Double) (e : Int) : List Nat :=
  let k := gridBelow d e
  let (n, m) := d.fraction
  let (twice, unit) := if e ≥ 0 then (2 * n, m * Nat.pow 10 e.natAbs) else (2 * n * Nat.pow 10 e.natAbs, m)
  if twice < (2 * k + 1) * unit then [k, k + 1] else [k + 1, k]

/-- Decimal exponent of the leading digit. -/
def magnitude (d : Double) : Int :=
  let (n, m) := d.fraction
  let guess : Int := ((Nat.toDigits 10 n).length : Int) - (Nat.toDigits 10 m).length
  if gridBelow d guess = 0 then guess - 1 else guess

/-- Fewest digits `k` and a power `e` such that `k · 10 ^ e` reads back as the double. -/
def shortest (d : Double) : Nat × Int :=
  if d.mantissa = 0 then (0, 0)
  else
    let top := magnitude d
    let tries := (List.range 17).findSome? fun (i : Nat) =>
      ((candidates d (top - i)).find? fun k => k ≠ 0 && readsBack d k (top - i)).map fun k => (k, top - i)
    tries.getD (gridBelow d (top - 16), top - 16)

/-- Digits positional up to 16 places before the point and 5 zeros after it, else with `e`. -/
def render (digits : Nat) (power : Int) : String :=
  let ds := Nat.toDigits 10 digits
  let zeros (n : Nat) := List.replicate n '0'
  let point : Int := ds.length + power
  if digits = 0 then "0.0"
  else if 0 ≤ power ∧ point ≤ 16 then .ofList (ds ++ zeros power.natAbs ++ ['.', '0'])
  else if 0 < point ∧ point ≤ 16 then .ofList (ds.take point.natAbs ++ ['.'] ++ ds.drop point.natAbs)
  else if -5 < point ∧ point ≤ 0 then .ofList (['0', '.'] ++ zeros point.natAbs ++ ds)
  else
    let lead := ds.take 1 ++ (if ds.length = 1 then [] else '.' :: ds.drop 1)
    .ofList lead ++ "e" ++ toString (point - 1)

end Workbench.Decimal
