import RedisClone.Rust.Num

/-!
This module contains the part of Rust's `f64` the sorted sets need: parsing and printing of decimal
text, and the total order of `OrderedFloat`. Rust's `f64` is Lean's `Float`, whose logical model is
IEEE 754 binary64 with a single NaN.
-/

open Float.Model

namespace RedisClone

/--
The binary64 number nearest to `digits * 10 ^ exponent`.
-/
def ofDecimal (digits : Nat) (exponent : Int) : Float :=
  .ofModel (.ofScientific digits exponent)

def f64Zero : Float := .ofModel (.pack (.zero .positive))

def f64Infinity : Float := .ofModel (.pack (.infinity .positive))

def f64NegInfinity : Float := .ofModel (.pack (.infinity .negative))

def f64NaN : Float := .ofModel (.pack .notANumber)

/--
The optional exponent that ends a decimal number.
-/
def parseExponent : List Char → Option Int
  | [] => some 0
  | c :: cs =>
    if c = 'e' ∨ c = 'E' then
      match cs with
      | '-' :: ds => (parseDigits ds).map fun n => -(n : Int)
      | '+' :: ds => (parseDigits ds).map fun n => (n : Int)
      | ds => (parseDigits ds).map fun n => (n : Int)
    else
      none

/--
Digits with an optional fraction and an optional exponent; at least one digit has to be present.
-/
def parseDecimal (cs : List Char) : Option Float :=
  let int := cs.takeWhile Char.isDigit
  let rest := cs.dropWhile Char.isDigit
  let (frac, rest) :=
    match rest with
    | '.' :: rest => (rest.takeWhile Char.isDigit, rest.dropWhile Char.isDigit)
    | rest => ([], rest)
  if int.isEmpty && frac.isEmpty then
    none
  else
    (parseExponent rest).map fun exponent =>
      ofDecimal (Nat.ofDigitChars 10 (int ++ frac) 0) (exponent - frac.length)

def parseMagnitude (cs : List Char) : Option Float :=
  let lower := cs.map Char.toLower
  if lower = "inf".toList ∨ lower = "infinity".toList then
    some f64Infinity
  else if lower = "nan".toList then
    some f64NaN
  else
    parseDecimal cs

/--
`str::parse::<f64>`.
-/
def parseF64 (s : String) : Option Float :=
  match s.toList with
  | '-' :: cs => (parseMagnitude cs).map fun x => -x
  | '+' :: cs => parseMagnitude cs
  | cs => parseMagnitude cs

/--
The two multiples of `10 ^ k` around `num / den`, as multipliers, the nearer one first, and the upper one
if they are equally near.
-/
def decimalNeighbours (num den : Nat) (k : Int) : List Nat :=
  let n := num * 10 ^ (-k).toNat
  let d := den * 10 ^ k.toNat
  if 2 * (n % d) < d then [n / d, n / d + 1] else [n / d + 1, n / d]

/--
The fewest decimal digits that read back as `x`, found by trying ever smaller powers of ten. Every
binary64 number is a multiple of `10 ^ (-1074)`, where the search ends.
-/
def shortestDigits (x : Float) (num den : Nat) : Nat → Nat × Int
  | 0 => (num * 10 ^ 1074 / den, -1074)
  | n + 1 =>
    let k : Int := n - 1074
    match (decimalNeighbours num den k).find? fun digits => ofDecimal digits k = x with
    | some digits => (digits, k)
    | none => shortestDigits x num den n

/--
`digits * 10 ^ k` in positional notation.
-/
def positional (digits : Nat) (k : Int) : String :=
  if 0 ≤ k then
    toString (digits * 10 ^ k.toNat)
  else
    let scale := (-k).toNat
    let frac := Nat.toDigits 10 (digits % 10 ^ scale)
    toString (digits / 10 ^ scale) ++ "."
      ++ String.ofList (List.replicate (scale - frac.length) '0' ++ frac)

def signText : UnpackedFloat.Sign → String
  | .negative => "-"
  | .positive => ""

/--
`f64::to_string`: the shortest decimal that reads back as the same number, without an exponent.
-/
def displayF64 (x : Float) : String :=
  match x.toModel.unpack with
  | .notANumber => "NaN"
  | .infinity sign => signText sign ++ "inf"
  | .zero sign => signText sign ++ "0"
  | .finite sign mantissa exponent pos =>
    let magnitude : Float := .ofModel (.pack (.finite .positive mantissa exponent pos))
    let num := mantissa * 2 ^ exponent.toNat
    let den := 2 ^ (-exponent).toNat
    let (digits, k) := shortestDigits magnitude num den (Nat.log 10 (num / den) + 1076)
    signText sign ++ positional digits k

namespace OrderedFloat

/--
`PartialEq for OrderedFloat`: NaN equals itself and the two zeros are equal.
-/
def eq (a b : Float) : Bool :=
  if a.isNaN then b.isNaN else a == b

/--
`PartialOrd::lt for OrderedFloat`: NaN is greater than every other number.
-/
def lt (a b : Float) : Bool :=
  !(a.isNaN || b ≤ a)

/--
`Ord for OrderedFloat`.
-/
def cmp (a b : Float) : Ordering :=
  if lt a b then .lt else if eq a b then .eq else .gt

/-
The order is lexicographic: first the class of the number, then the exponent, then the mantissa. The
three keys below make the last two count backwards for negative numbers.
-/

def rank : UnpackedFloat → Int
  | .infinity .negative => -2
  | .finite .negative _ _ _ => -1
  | .zero _ => 0
  | .finite .positive _ _ _ => 1
  | .infinity .positive => 2
  | .notANumber => 3

def exponentKey : UnpackedFloat → Int
  | .finite .negative _ e _ => -e
  | .finite .positive _ e _ => e
  | _ => 0

def mantissaKey : UnpackedFloat → Int
  | .finite .negative m _ _ => -(m : Int)
  | .finite .positive m _ _ => m
  | _ => 0

def keyCmp : UnpackedFloat → UnpackedFloat → Ordering :=
  compareLex (compareOn rank) (compareLex (compareOn exponentKey) (compareOn mantissaKey))

instance : Std.TransCmp keyCmp := by
  unfold keyCmp
  infer_instance

theorem compare_neg_neg (a b : Int) : compare (-a) (-b) = compare b a := by
  rcases lt_trichotomy a b with h | rfl | h
  . rw [compare_gt_iff_gt.mpr (neg_lt_neg h), compare_gt_iff_gt.mpr h]
  . simp
  . rw [compare_lt_iff_lt.mpr (neg_lt_neg h), compare_lt_iff_lt.mpr h]

theorem compare_natCast (a b : Nat) : compare (a : Int) (b : Int) = compare a b := by
  rcases lt_trichotomy a b with h | rfl | h
  . rw [compare_lt_iff_lt.mpr h, compare_lt_iff_lt.mpr (by omega)]
  . simp
  . rw [compare_gt_iff_gt.mpr h, compare_gt_iff_gt.mpr (by omega)]

theorem le_iff (a b : Float) : a ≤ b ↔ a.toModel.unpack.le b.toModel.unpack = true := by
  change Float.le a b = true ↔ _
  unfold Float.le
  rw [decide_eq_true_eq]
  rfl

theorem cmp_eq_keyCmp (a b : Float) : cmp a b = keyCmp a.toModel.unpack b.toModel.unpack := by
  have hle : decide (b ≤ a) = b.toModel.unpack.le a.toModel.unpack := by
    rw [Bool.eq_iff_iff, decide_eq_true_eq]
    exact le_iff b a
  have heq : (a == b) = a.toModel.unpack.beq b.toModel.unpack := rfl
  have hna : a.isNaN = a.toModel.unpack.isNaN := rfl
  have hnb : b.isNaN = b.toModel.unpack.isNaN := rfl
  simp only [cmp, lt, eq, hle, heq, hna, hnb]
  generalize a.toModel.unpack = x
  generalize b.toModel.unpack = y
  cases x with
  | notANumber =>
    cases y with
    | notANumber | zero => rfl
    | infinity s | finite s => cases s <;> rfl
  | zero =>
    cases y with
    | notANumber | zero => rfl
    | infinity s | finite s => cases s <;> rfl
  | infinity s =>
    cases y with
    | notANumber | zero => cases s <;> rfl
    | infinity s' | finite s' => cases s <;> cases s' <;> rfl
  | finite s m e h =>
    cases y with
    | notANumber | zero => cases s <;> rfl
    | infinity s' => cases s <;> cases s' <;> rfl
    | finite s' m' e' h' =>
      cases s <;> cases s'
      case negative.positive => rfl
      case positive.negative => rfl
      -- Numbers of one sign are compared by exponent and mantissa.
      all_goals
        simp only [UnpackedFloat.isNaN, UnpackedFloat.le, UnpackedFloat.beq, UnpackedFloat.compare,
          keyCmp, compareLex, compareOn, rank, exponentKey, mantissaKey, compare_neg_neg,
          compare_natCast]
        rcases lt_trichotomy e e' with he | rfl | he <;> rcases lt_trichotomy m m' with hm | rfl | hm
          <;> simp [compare_lt_iff_lt.mpr, compare_gt_iff_gt.mpr, *]

instance : Std.TransCmp cmp where
  eq_swap := by
    intro a b
    simp only [cmp_eq_keyCmp]
    exact Std.OrientedCmp.eq_swap
  isLE_trans := by
    intro a b c
    simp only [cmp_eq_keyCmp]
    exact Std.TransCmp.isLE_trans

theorem isNaN_eq_of_eq {a b : Float} (h : eq a b = true) : a.isNaN = b.isNaN := by
  unfold eq at h
  split at h
  . next ha => rw [ha, h]
  . next ha =>
    rw [Bool.not_eq_true] at ha
    rw [ha]
    have heq : a.toModel.unpack.beq b.toModel.unpack = true := h
    change false = b.toModel.unpack.isNaN
    revert heq
    generalize a.toModel.unpack = x
    generalize b.toModel.unpack = y
    -- NaN is equal to nothing
    cases y with
    | notANumber => cases x <;> simp [UnpackedFloat.beq, UnpackedFloat.compare]
    | zero | infinity | finite => exact fun _ => rfl

end OrderedFloat

theorem isNaN_unpack (bits : BitVec Format.binary64.numBits)
    : (UnpackedFloat.unpack Format.binary64 bits).isNaN
        =
      (decide (UnpackedFloat.unpackExponent bits = -1#_)
        && !decide (UnpackedFloat.unpackMantissa bits = 0#_)) := by
  unfold UnpackedFloat.unpack
  dsimp only
  split
  . next h =>
    split
    . next h' => simp [h', UnpackedFloat.isNaN]
    . next h' => simp [h, h', UnpackedFloat.isNaN]
  . next h =>
    rw [decide_eq_false h]
    split
    . split <;> rfl
    . rfl

theorem ofNat_ne_neg_one {n : Nat} (h : n + 1 < 2 ^ 11) : ¬ BitVec.ofNat 11 n = -1#11 := by
  intro heq
  have hnat := congrArg BitVec.toNat heq
  have hneg : (-1#11 : BitVec 11).toNat = 2047 := by rfl
  rw [BitVec.toNat_ofNat, hneg] at hnat
  omega

theorem isNaN_unpack_pack (x : UnpackedFloat)
    : (Float.Model.pack x).unpack.isNaN = x.isNaN := by
  change (UnpackedFloat.unpack Format.binary64 (UnpackedFloat.pack Format.binary64 x)).isNaN = _
  rw [isNaN_unpack]
  cases x with
  | notANumber => rfl
  | infinity s => cases s <;> rfl
  | zero s => cases s <;> rfl
  | finite s m e h =>
    simp only [UnpackedFloat.pack, UnpackedFloat.isNaN]
    split
    . cases s <;> rfl
    . next hexp =>
      split
      . rw [UnpackedFloat.unpackExponent_packComponents,
          decide_eq_false (ofNat_ne_neg_one (by omega))]
        rfl
      . simp

theorem isNaN_zero_add (x : Float) : (f64Zero + x).isNaN = x.isNaN := by
  change
    (Float.Model.pack
      (UnpackedFloat.add Format.binary64 (.zero .positive) x.toModel.unpack)).unpack.isNaN
      =
    x.toModel.unpack.isNaN
  rw [isNaN_unpack_pack]
  generalize x.toModel.unpack = y
  cases y with
  | zero s => cases s <;> rfl
  | _ => rfl

end RedisClone
