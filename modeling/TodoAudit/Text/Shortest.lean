import TodoAudit.Text.Decimal

/-!
# Shortest decimals of binary fractions

A binary floating-point number stands for every real that rounds to it. Among the decimals in that
interval one has the fewest digits; it is found on the coarsest decimal grid that has a point in the
interval, and of two such points the nearer one is taken.

The layout follows the size of the number: positional up to sixteen digits before the point and up
to four zeros behind it, always with a point, and otherwise one digit, a point if more digits
follow, and a power of ten, always with its sign.
-/

namespace TodoAudit.Text.Shortest

/-! ## The decimal -/

/-- A positive number `significand * 2 ^ exponent`, and whether the number below it is only half as
far away as the number above it. -/
structure Binary where
  significand : Nat
  exponent : Int
  closeBelow : Bool
deriving DecidableEq, Repr

/-- The finite number with these 64 bits, without its sign. -/
def Binary.ofBits (bits : Nat) : Binary :=
  let fraction := bits % Nat.pow 2 52
  let power : Nat := bits / Nat.pow 2 52 % Nat.pow 2 11
  if power = 0 then ⟨fraction, -1074, false⟩
  else ⟨Nat.pow 2 52 + fraction, (power : Int) - 1075, fraction == 0 && 1 < power⟩

/-- Whether the multiple `c` of `10 ^ k` rounds to the number. The ends of the interval do if the
significand is even. -/
def Binary.holds (x : Binary) (k : Int) (c : Nat) : Bool :=
  let point := Nat.pow 10 k.toNat * Nat.pow 2 (2 - x.exponent).toNat * c
  let unit := Nat.pow 10 (-k).toNat * Nat.pow 2 (x.exponent - 2).toNat
  let low := unit * (4 * x.significand - if x.closeBelow then 1 else 2)
  let high := unit * (4 * x.significand + 2)
  if x.significand % 2 = 0 then low ≤ point && point ≤ high else low < point && point < high

/-- The multiple of `10 ^ k` at or below the number, and whether the next one is nearer. Of two
equally near multiples the even one counts as nearer. -/
def Binary.floorAt (x : Binary) (k : Int) : Nat × Bool :=
  let value := 4 * x.significand * (Nat.pow 10 (-k).toNat * Nat.pow 2 (x.exponent - 2).toNat)
  let grid := Nat.pow 10 k.toNat * Nat.pow 2 (2 - x.exponent).toNat
  let c := value / grid
  let remainder := 2 * (value % grid)
  (c, grid < remainder || remainder == grid && c % 2 == 1)

/-- The point of the grid `10 ^ k` that rounds to the number and is nearest to it. -/
def Binary.pointAt? (x : Binary) (k : Int) : Option Nat :=
  let (c, up) := x.floorAt k
  match x.holds k c, x.holds k (c + 1) with
  | true, true => some (if up then c + 1 else c)
  | true, false => some c
  | false, true => some (c + 1)
  | false, false => none

/-- The shortest decimal `c * 10 ^ k` of the number. -/
def Binary.shortest (x : Binary) : Nat × Int :=
  ((List.range 660).findSome? fun (i : Nat) =>
    let k : Int := 310 - (i : Int)
    (x.pointAt? k).map fun c => (c, k)).getD (0, 0)

/-! ## The layout -/

/-- Writes the decimal `c * 10 ^ k`. -/
def layout (c : Nat) (k : Int) : List Char :=
  let digits := Decimal.digits c
  let point := digits.length + k
  if 0 ≤ k ∧ point ≤ 16 then digits ++ List.replicate k.toNat '0' ++ ['.', '0']
  else if 0 < point ∧ point ≤ 16 then digits.take point.toNat ++ '.' :: digits.drop point.toNat
  else if -5 < point ∧ point ≤ 0 then
    ['0', '.'] ++ List.replicate (-point).toNat '0' ++ digits
  else
    let power := point - 1
    digits.take 1 ++ (if digits.length = 1 then [] else '.' :: digits.drop 1) ++ ['e'] ++
      [if power < 0 then '-' else '+'] ++ Decimal.digits power.natAbs

/-- Writes the finite number with these 64 bits. -/
def ofBits (bits : Nat) : List Char :=
  let x := Binary.ofBits bits
  let sign := if bits / Nat.pow 2 63 % 2 = 1 then ['-'] else []
  if x.significand = 0 then sign ++ ['0', '.', '0']
  else sign ++ layout x.shortest.1 x.shortest.2

end TodoAudit.Text.Shortest
