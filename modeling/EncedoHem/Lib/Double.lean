import Mathlib.Algebra.Ring.Nat
import Mathlib.Algebra.Ring.Int.Defs
import EncedoHem.Lib.Text

namespace Double
open Text

/-- A floating-point number: `mant * 2 ^ exp`, or an overflow of either sign. -/
inductive Dbl where
  | fin (mant : Int) (exp : Int)
  | inf (neg : Bool)
  deriving DecidableEq, Repr

/-- The quotient `n / d` to the nearest double, ties to even. Both are positive. -/
def nearestPos (n d : Nat) : Nat × Int × Bool :=
  let guess : Int := (n.log2 : Int) - d.log2 - 52
  let quot (e : Int) : Nat × Nat × Nat :=
    let n' := n * 2 ^ (-e).toNat
    let d' := d * 2 ^ e.toNat
    (n' / d', n' % d', d')
  let e := if (quot guess).1 < 2 ^ 52 then guess - 1
    else if 2 ^ 53 ≤ (quot guess).1 then guess + 1 else guess
  let e := max e (-1074)
  let (q, r, d') := quot e
  let q := if d' < 2 * r ∨ (2 * r = d' ∧ q % 2 = 1) then q + 1 else q
  (q, e, decide (971 < e ∨ (e = 971 ∧ 2 ^ 53 ≤ q)))

/-- The double nearest to `n / d`, with its sign. -/
def nearest (neg : Bool) (n d : Nat) : Dbl :=
  if n = 0 then .fin 0 0
  else
    let (q, e, overflows) := nearestPos n d
    if overflows then .inf neg else .fin (if neg then -q else q) e

/-- An integer converted to a double. -/
def ofInt (i : Int) : Dbl := nearest (decide (i < 0)) i.natAbs 1

/-- The double `m * 10 ^ e` is read as; `m` has at most 63 digits, so that beyond
400 in either direction the result is known without computing the power. -/
def ofDecimal (neg : Bool) (m : Nat) (e : Int) : Dbl :=
  if m = 0 then .fin 0 0
  else if 400 < e then .inf neg
  else if e < -400 then .fin 0 0
  else if 0 ≤ e then nearest neg (m * 10 ^ e.toNat) 1
  else nearest neg m (10 ^ (-e).toNat)

/-- Conversion to an integer type: the fraction is dropped. An overflow stands
for the first power of two that no double reaches, which no integer type holds. -/
def trunc : Dbl → Int
  | .fin m e => if 0 ≤ e then m * 2 ^ e.toNat else m.tdiv (2 ^ (-e).toNat)
  | .inf neg => if neg then -2 ^ 1024 else 2 ^ 1024

def isDigit (c : UInt8) : Bool := decide (48 ≤ c ∧ c ≤ 57)

def value (ds : Bytes) : Nat := ds.foldl (fun n c => 10 * n + (c.toNat - 48)) 0

/-- An exponent part, if a complete one stands here: its value and its length. -/
def exponent : Bytes → Int × Nat
  | c :: rest =>
    if c = 101 ∨ c = 69 then
      let (neg, ds, used) := match rest with
        | 45 :: r => (true, r.takeWhile isDigit, 2)
        | 43 :: r => (false, r.takeWhile isDigit, 2)
        | r => (false, r.takeWhile isDigit, 1)
      if ds.isEmpty then (0, 0)
      else (if neg then -(value ds : Int) else value ds, used + ds.length)
    else (0, 0)
  | [] => (0, 0)

/-- `strtod` on text made of digits, signs, points and exponent marks: the
number and how many bytes it takes, or nothing when no number starts here. -/
def strtod (b : Bytes) : Option (Dbl × Nat) :=
  let (neg, signLen) := match b with
    | 45 :: _ => (true, 1)
    | 43 :: _ => (false, 1)
    | _ => (false, 0)
  let body := b.drop signLen
  let whole := body.takeWhile isDigit
  let rest := body.drop whole.length
  let (frac, pointLen) := match rest with
    | 46 :: r => (r.takeWhile isDigit, 1)
    | _ => ([], 0)
  if whole.isEmpty && frac.isEmpty then none
  else
    let (e, expLen) := exponent (rest.drop (pointLen + frac.length))
    some (ofDecimal neg (value (whole ++ frac)) (e - frac.length),
      signLen + whole.length + pointLen + frac.length + expLen)

/-- `%1.Pg` of a positive integer of more than `p` digits: `p` significant
digits, half to even, trailing zeros dropped, then the exponent. -/
def scientific (p n : Nat) : Bytes :=
  let k := (digits n).length
  let d := 10 ^ (k - p)
  let q := n / d
  let q := if d < 2 * (n % d) ∨ (2 * (n % d) = d ∧ q % 2 = 1) then q + 1 else q
  let (q, k) := if q = 10 ^ p then (q / 10, k + 1) else (q, k)
  let ds := ((digits q).reverse.dropWhile (· = 48)).reverse
  let e := if k - 1 < 10 then lit "0" ++ digits (k - 1) else digits (k - 1)
  match ds with
  | [] => lit "0"
  | [c] => c :: lit "e+" ++ e
  | c :: cs => c :: 46 :: cs ++ lit "e+" ++ e

/-- `%1.Pg` of an integer. -/
def formatG (p : Nat) (i : Int) : Bytes :=
  let body := if (digits i.natAbs).length ≤ p then digits i.natAbs else scientific p i.natAbs
  if i < 0 then lit "-" ++ body else body

/-- A positive integer of at most 53 bits is a double. -/
theorem nearestPos_exact {n : Nat} (hn : 0 < n) (h : n < 2 ^ 53) :
    nearestPos n 1 = (n * 2 ^ (52 - n.log2), (n.log2 : Int) - 52, false) := by
  have hlog : n.log2 ≤ 52 := by
    have := (Nat.log2_lt (by omega)).mpr h
    omega
  have hlo : 2 ^ n.log2 ≤ n := Nat.log2_self_le (by omega)
  have hhi : n < 2 ^ (n.log2 + 1) := Nat.lt_log2_self
  have hexp : (-((n.log2 : Int) - 52)).toNat = 52 - n.log2 := by omega
  have hpos : ((n.log2 : Int) - 52).toNat = 0 := by omega
  have hsplit : 2 ^ n.log2 * 2 ^ (52 - n.log2) = 2 ^ 52 := by
    rw [← Nat.pow_add]
    congr 1
    omega
  have hq1 : 2 ^ 52 ≤ n * 2 ^ (52 - n.log2) := by
    calc 2 ^ 52 = 2 ^ n.log2 * 2 ^ (52 - n.log2) := hsplit.symm
      _ ≤ n * 2 ^ (52 - n.log2) := Nat.mul_le_mul_right _ hlo
  have hq2 : n * 2 ^ (52 - n.log2) < 2 ^ 53 := by
    calc n * 2 ^ (52 - n.log2) < 2 ^ (n.log2 + 1) * 2 ^ (52 - n.log2) :=
          Nat.mul_lt_mul_of_pos_right hhi (Nat.two_pow_pos _)
      _ = 2 ^ 52 * 2 := by rw [Nat.pow_succ, Nat.mul_right_comm, hsplit]
      _ = 2 ^ 53 := (Nat.pow_succ 2 52).symm
  have hone : (1 : Nat).log2 = 0 := by decide
  unfold nearestPos
  simp only [hone, Int.natCast_zero, Int.sub_zero, hexp, hpos, Nat.pow_zero, Nat.mul_one, Nat.div_one]
  rw [if_neg (Nat.not_lt.mpr hq1), if_neg (Nat.not_le.mpr hq2)]
  have hmax : max ((n.log2 : Int) - 52) (-1074) = (n.log2 : Int) - 52 := by omega
  rw [hmax, hexp, hpos]
  simp only [Nat.pow_zero, Nat.mul_one, Nat.div_one, Nat.mod_one, Nat.mul_zero, Nat.not_lt_zero, false_or]
  rw [if_neg (fun h => by simp at h)]
  congr 2
  exact decide_eq_false (by omega)

/-- An integer of at most 53 bits comes through a double unchanged. -/
theorem trunc_ofInt {i : Int} (h : i.natAbs < 2 ^ 53) : trunc (ofInt i) = i := by
  unfold ofInt nearest
  split
  · rename_i h0
    rw [Int.natAbs_eq_zero.mp h0]
    rfl
  · rename_i h0
    have hn : 0 < i.natAbs := Nat.pos_of_ne_zero h0
    have hlog : i.natAbs.log2 ≤ 52 := by
      have := (Nat.log2_lt h0).mpr h
      omega
    rw [nearestPos_exact hn h]
    dsimp only
    rw [if_neg Bool.false_ne_true]
    have hm : (if decide (i < 0) = true then -((i.natAbs * 2 ^ (52 - i.natAbs.log2) : Nat) : Int)
        else ((i.natAbs * 2 ^ (52 - i.natAbs.log2) : Nat) : Int)) = i * 2 ^ (52 - i.natAbs.log2) := by
      have hcast : ((i.natAbs * 2 ^ (52 - i.natAbs.log2) : Nat) : Int) =
          (i.natAbs : Int) * 2 ^ (52 - i.natAbs.log2) := by simp
      rw [hcast]
      by_cases hneg : i < 0
      · rw [if_pos (decide_eq_true hneg), ← Int.neg_mul]
        congr 1
        omega
      · rw [if_neg (by simpa using hneg)]
        congr 1
        omega
    rw [hm]
    unfold trunc
    dsimp only
    split
    · have hk : 52 - i.natAbs.log2 = 0 := by omega
      have he : ((i.natAbs.log2 : Int) - 52).toNat = 0 := by omega
      rw [hk, he, Int.pow_zero, Int.mul_one, Int.mul_one]
    · have he : (-((i.natAbs.log2 : Int) - 52)).toNat = 52 - i.natAbs.log2 := by omega
      rw [he]
      exact Int.mul_tdiv_cancel i (Int.pow_ne_zero (by decide))

example : strtod (lit "-12.50e1,") = some (ofInt (-125), 8) := by decide
example : trunc (ofInt 1754500000) = 1754500000 := by decide

end Double
