import Mathlib.Data.Nat.Bitwise
import Mathlib.Data.List.Basic
import Mathlib.Tactic.Ring

namespace Bits

/-- The lowest `k` bits of a number, the most significant first. -/
def bitsOf : Nat → Nat → List Bool
  | 0, _ => []
  | k + 1, n => n.testBit k :: bitsOf k n

/-- The number with these bits, the most significant first. -/
def ofBits (bs : List Bool) : Nat := bs.foldl (fun n b => 2 * n + b.toNat) 0

/-- The numbers' `k` lowest bits, one after another. -/
def group (k : Nat) (ns : List Nat) : List Bool := ns.flatMap (bitsOf k)

/-- The full groups of `k` bits as numbers; what is left over at the end is dropped. -/
def ungroup (k : Nat) (bs : List Bool) : List Nat :=
  (List.range (bs.length / k)).map fun i => ofBits ((bs.drop (i * k)).take k)

variable {j k m n : Nat} {bs : List Bool}

@[simp] theorem length_bitsOf (k n : Nat) : (bitsOf k n).length = k := by
  induction k with
  | zero => rfl
  | succ k ih => rw [bitsOf, List.length_cons, ih]

theorem bitsOf_congr (h : ∀ i < k, m.testBit i = n.testBit i) : bitsOf k m = bitsOf k n := by
  induction k with
  | zero => rfl
  | succ k ih =>
    rw [bitsOf, bitsOf, h k (Nat.lt_succ_self k), ih fun i hi => h i (Nat.lt_succ_of_lt hi)]

@[simp] theorem bitsOf_mod (k n : Nat) : bitsOf k (n % 2 ^ k) = bitsOf k n :=
  bitsOf_congr fun i hi => by rw [Nat.testBit_mod_two_pow]; simp [hi]

/-- More bits are the bits of the shifted number and then the lower ones. -/
theorem bitsOf_add (j k n : Nat) : bitsOf (j + k) n = bitsOf j (n >>> k) ++ bitsOf k n := by
  induction j with
  | zero => rw [Nat.zero_add]; rfl
  | succ j ih =>
    rw [Nat.succ_add, bitsOf, bitsOf, ih, Nat.testBit_shiftRight, Nat.add_comm k j]
    rfl

theorem foldl_bits (n : Nat) (bs : List Bool) :
    bs.foldl (fun n b => 2 * n + b.toNat) n = n * 2 ^ bs.length + ofBits bs := by
  induction bs generalizing n with
  | nil => simp [ofBits]
  | cons b bs ih =>
    have h : ofBits (b :: bs) = (2 * 0 + b.toNat) * 2 ^ bs.length + ofBits bs := ih _
    rw [List.foldl_cons, ih, h, List.length_cons, Nat.pow_succ]
    ring

theorem ofBits_append (as bs : List Bool) :
    ofBits (as ++ bs) = ofBits as * 2 ^ bs.length + ofBits bs := by
  unfold ofBits
  rw [List.foldl_append, foldl_bits]
  rfl

theorem ofBits_cons (b : Bool) (bs : List Bool) :
    ofBits (b :: bs) = b.toNat * 2 ^ bs.length + ofBits bs := by
  have h := ofBits_append [b] bs
  simpa [ofBits] using h

theorem ofBits_lt (bs : List Bool) : ofBits bs < 2 ^ bs.length := by
  induction bs with
  | nil => decide
  | cons b bs ih =>
    rw [ofBits_cons, List.length_cons, Nat.pow_succ]
    cases b with
    | false => simp only [Bool.toNat_false]; omega
    | true => simp only [Bool.toNat_true]; omega

@[simp] theorem ofBits_bitsOf (k n : Nat) : ofBits (bitsOf k n) = n % 2 ^ k := by
  induction k with
  | zero => simp [bitsOf, ofBits, Nat.mod_one]
  | succ k ih =>
    have h := ofBits_append [n.testBit k] (bitsOf k n)
    rw [List.singleton_append, length_bitsOf, ih] at h
    rw [bitsOf, h, Nat.mod_pow_succ, ← Nat.toNat_testBit]
    simp only [ofBits, List.foldl_cons, List.foldl_nil]
    ring

@[simp] theorem bitsOf_ofBits (bs : List Bool) : bitsOf bs.length (ofBits bs) = bs := by
  induction bs with
  | nil => rfl
  | cons b bs ih =>
    have hlt : ofBits bs < 2 ^ bs.length := ofBits_lt bs
    have hlow : bitsOf bs.length (ofBits (b :: bs)) = bs := by
      rw [ofBits_cons, ← bitsOf_mod, Nat.add_comm, Nat.add_mul_mod_self_right, bitsOf_mod, ih]
    have htop : (ofBits (b :: bs)).testBit bs.length = b := by
      rw [ofBits_cons, Nat.mul_comm, Nat.testBit_two_pow_mul_add _ hlt]
      cases b with
      | false => simp
      | true => simp
    rw [List.length_cons, bitsOf, htop, hlow]

theorem bitsOf_inj (hm : m < 2 ^ k) (hn : n < 2 ^ k) (h : bitsOf k m = bitsOf k n) : m = n := by
  have hb := congrArg ofBits h
  rwa [ofBits_bitsOf, ofBits_bitsOf, Nat.mod_eq_of_lt hm, Nat.mod_eq_of_lt hn] at hb

@[simp] theorem group_nil (k : Nat) : group k [] = [] := rfl

@[simp] theorem group_cons (k n : Nat) (ns : List Nat) : group k (n :: ns) = bitsOf k n ++ group k ns := rfl

@[simp] theorem group_append (k : Nat) (ms ns : List Nat) :
    group k (ms ++ ns) = group k ms ++ group k ns := List.flatMap_append

@[simp] theorem length_group (k : Nat) (ns : List Nat) : (group k ns).length = k * ns.length := by
  induction ns with
  | nil => simp
  | cons n ns ih =>
    rw [group_cons, List.length_append, length_bitsOf, ih, List.length_cons]
    ring

@[simp] theorem length_ungroup (k : Nat) (bs : List Bool) : (ungroup k bs).length = bs.length / k := by
  simp [ungroup]

/-- One full group at the front. -/
theorem ungroup_append (hk : 0 < k) (as bs : List Bool) (ha : as.length = k) :
    ungroup k (as ++ bs) = ofBits as :: ungroup k bs := by
  have hlen : (as ++ bs).length / k = bs.length / k + 1 := by
    rw [List.length_append, ha, Nat.add_comm, Nat.add_div_right _ hk]
  unfold ungroup
  rw [hlen, List.range_succ_eq_map, List.map_cons, List.map_map]
  congr 1
  · rw [Nat.zero_mul, List.drop_zero, ← ha, List.take_left]
  · refine List.map_congr_left fun i _ => ?_
    show ofBits ((List.drop (i.succ * k) (as ++ bs)).take k) = _
    rw [Nat.succ_mul, Nat.add_comm, ← List.drop_drop, ← ha, List.drop_left]

theorem ungroup_short (h : bs.length < k) : ungroup k bs = [] := by
  rw [← List.length_eq_zero_iff, length_ungroup, Nat.div_eq_of_lt h]

/-- Grouping numbers of `k` bits and taking them apart again, with less than a
group left over. -/
theorem ungroup_group (hk : 0 < k) {ns : List Nat} (hn : ∀ n ∈ ns, n < 2 ^ k) (h : bs.length < k) :
    ungroup k (group k ns ++ bs) = ns := by
  induction ns with
  | nil => exact ungroup_short h
  | cons n ns ih =>
    rw [group_cons, List.append_assoc, ungroup_append hk _ _ (length_bitsOf k n), ofBits_bitsOf,
      Nat.mod_eq_of_lt (hn n List.mem_cons_self), ih fun m hm => hn m (List.mem_cons_of_mem n hm)]

/-- Taking bits apart into groups that come out even, and putting them together again. -/
theorem group_ungroup (hk : 0 < k) (h : k ∣ bs.length) : group k (ungroup k bs) = bs := by
  obtain ⟨q, hq⟩ := h
  induction q generalizing bs with
  | zero =>
    have hb : bs = [] := List.length_eq_zero_iff.mp (by omega)
    simp [hb, ungroup, group]
  | succ q ih =>
    have hlen : (bs.take k).length = k := by
      rw [List.length_take, hq, Nat.mul_succ]
      omega
    have hrest : (bs.drop k).length = k * q := by
      rw [List.length_drop, hq, Nat.mul_succ]
      omega
    have hsplit : ungroup k bs = ofBits (bs.take k) :: ungroup k (bs.drop k) := by
      have := ungroup_append hk (bs.take k) (bs.drop k) hlen
      rwa [List.take_append_drop] at this
    have htake : bitsOf k (ofBits (bs.take k)) = bs.take k := by
      have := bitsOf_ofBits (bs.take k)
      rwa [hlen] at this
    rw [hsplit, group_cons, ih hrest, htake, List.take_append_drop]

theorem ungroup_lt (k : Nat) (bs : List Bool) : ∀ n ∈ ungroup k bs, n < 2 ^ k := by
  intro n hn
  obtain ⟨i, -, rfl⟩ := List.mem_map.mp hn
  refine Nat.lt_of_lt_of_le (ofBits_lt _) (Nat.pow_le_pow_right (by decide) ?_)
  exact (List.length_take_le ..)

theorem getElem?_bitsOf {r : Nat} (n : Nat) (h : r < k) :
    (bitsOf k n)[r]? = some (n.testBit (k - 1 - r)) := by
  induction k generalizing r with
  | zero => exact absurd h (Nat.not_lt_zero r)
  | succ k ih =>
    cases r with
    | zero => rfl
    | succ r =>
      rw [bitsOf, List.getElem?_cons_succ, ih (Nat.lt_of_succ_lt_succ h)]
      congr 2
      omega

/-- The bits of a group, by the number they belong to. -/
theorem getElem?_group {r : Nat} (ns : List Nat) (q : Nat) (h : r < k) :
    (group k ns)[k * q + r]? = ns[q]?.map fun n => n.testBit (k - 1 - r) := by
  induction ns generalizing q with
  | nil => simp
  | cons n ns ih =>
    rw [group_cons]
    cases q with
    | zero =>
      rw [Nat.mul_zero, Nat.zero_add, List.getElem?_append_left (by rwa [length_bitsOf]),
        getElem?_bitsOf n h]
      rfl
    | succ q =>
      have hsub : k * (q + 1) + r - k = k * q + r := by
        rw [Nat.mul_succ]
        omega
      rw [List.getElem?_append_right (by rw [length_bitsOf, Nat.mul_succ]; omega), length_bitsOf,
        hsub, ih]
      rfl

/-- Setting one bit of a number. -/
theorem bitsOf_or {r : Nat} (n : Nat) (h : r < k) :
    bitsOf k (n ||| 2 ^ (k - 1 - r)) = (bitsOf k n).set r true := by
  refine List.ext_getElem? fun i => ?_
  rw [List.getElem?_set, length_bitsOf]
  by_cases hi : i < k
  · rw [getElem?_bitsOf _ hi, getElem?_bitsOf _ hi, Nat.testBit_or, Nat.testBit_two_pow]
    by_cases hri : r = i
    · subst hri
      simp [h]
    · have hne : k - 1 - r ≠ k - 1 - i := by omega
      simp [hri, hne]
  · have hri : r ≠ i := by omega
    rw [if_neg hri, List.getElem?_eq_none (by rw [length_bitsOf]; omega),
      List.getElem?_eq_none (by rw [length_bitsOf]; omega)]

/-- Setting one bit of a group. -/
theorem group_set {r q : Nat} (ns : List Nat) (hr : r < k) (hq : q < ns.length) :
    group k (ns.set q (ns.getD q 0 ||| 2 ^ (k - 1 - r))) = (group k ns).set (k * q + r) true := by
  induction ns generalizing q with
  | nil => exact absurd hq (Nat.not_lt_zero q)
  | cons n ns ih =>
    cases q with
    | zero =>
      rw [List.set_cons_zero, group_cons, group_cons, List.getD_cons_zero, bitsOf_or n hr,
        Nat.mul_zero, Nat.zero_add, List.set_append_left _ _ (by rwa [length_bitsOf])]
    | succ q =>
      have hsub : k * (q + 1) + r - k = k * q + r := by
        rw [Nat.mul_succ]
        omega
      rw [List.set_cons_succ, group_cons, group_cons, List.getD_cons_succ,
        ih (Nat.lt_of_succ_lt_succ hq),
        List.set_append_right _ _ (by rw [length_bitsOf, Nat.mul_succ]; omega), length_bitsOf, hsub]

end Bits
