import Mathlib.Data.List.Forall2
import EncedoHem.Bip39
import EncedoHem.Lib.Bits
import EncedoHem.Lib.Words

namespace EncedoHem
open Text Bits Words

/-- A C string holds no zero. -/
def NoZero (b : Bytes) : Prop := ∀ c ∈ b, c ≠ 0

instance (b : Bytes) : Decidable (NoZero b) := List.decidableBAll (· ≠ 0) b

theorem NoZero.tail {c : UInt8} {b : Bytes} (h : NoZero (c :: b)) : NoZero b :=
  fun d hd => h d (List.mem_cons_of_mem c hd)

theorem strncmp_cons (n : Nat) (x y : UInt8) (a b : Bytes) : strncmp (n + 1) (x :: a) (y :: b) =
    if x < y then .lt else if y < x then .gt else if x = 0 then .eq else strncmp n a b := rfl

theorem strncmp_nil (n : Nat) (x : UInt8) (a : Bytes) : strncmp (n + 1) (x :: a) [] =
    if x < 0 then .lt else if 0 < x then .gt else if x = 0 then .eq else strncmp n a [] := rfl

theorem compareWord_cons {x y : UInt8} {w c : Bytes} (hx : x ≠ 0) :
    compareWord (x :: w) (y :: c) = if x < y then .lt else if y < x then .gt else compareWord w c := by
  unfold compareWord
  rw [List.length_cons, strncmp_cons]
  by_cases h1 : x < y
  · rw [if_pos h1, if_pos h1]
  · by_cases h2 : y < x
    · rw [if_neg h1, if_neg h1, if_pos h2, if_pos h2]
    · rw [if_neg h1, if_neg h1, if_neg h2, if_neg h2, if_neg hx]
      rfl

/-- Words are compared in the order of the list. -/
theorem compareWord_spec {w c : Bytes} (hw : NoZero w) (hc : NoZero c) :
    match compareWord w c with
    | .eq => w = c
    | .lt => w < c
    | .gt => c < w := by
  induction w generalizing c with
  | nil =>
    cases c with
    | nil => rfl
    | cons y c =>
      have hy : y ≠ 0 := hc y List.mem_cons_self
      have h : compareWord [] (y :: c) = .lt := by
        show (if y ≠ 0 then Ordering.lt else .eq) = .lt
        rw [if_pos hy]
      rw [h]
      exact List.nil_lt_cons ..
  | cons x w ih =>
    have hx : x ≠ 0 := hw x List.mem_cons_self
    cases c with
    | nil =>
      have h : compareWord (x :: w) [] = .gt := by
        have h0 : ¬x < 0 := UInt8.not_lt_zero
        have h1 : 0 < x := UInt8.pos_iff_ne_zero.mpr hx
        unfold compareWord
        rw [List.length_cons, strncmp_nil, if_neg h0, if_pos h1]
      rw [h]
      exact List.nil_lt_cons ..
    | cons y c =>
      rw [compareWord_cons hx]
      by_cases h1 : x < y
      · rw [if_pos h1]
        exact List.cons_lt_cons_iff.mpr (.inl h1)
      · by_cases h2 : y < x
        · rw [if_neg h1, if_pos h2]
          exact List.cons_lt_cons_iff.mpr (.inl h2)
        · rw [if_neg h1, if_neg h2]
          have hxy : x = y := UInt8.le_antisymm (UInt8.not_lt.mp h2) (UInt8.not_lt.mp h1)
          have h := ih hw.tail hc.tail
          cases hcmp : compareWord w c with
          | eq =>
            rw [hcmp] at h
            exact congr (congrArg List.cons hxy) h
          | lt =>
            rw [hcmp] at h
            exact List.cons_lt_cons_iff.mpr (.inr ⟨hxy, h⟩)
          | gt =>
            rw [hcmp] at h
            exact List.cons_lt_cons_iff.mpr (.inr ⟨hxy.symm, h⟩)

theorem bytes_lt_irrefl (b : Bytes) : ¬b < b := List.lt_irrefl b

theorem bytes_lt_asymm {a b : Bytes} (h : a < b) : ¬b < a := List.lt_asymm h

/-- What the search returns is the word's place, and it finds a word that is between
its bounds. Induction on the rounds, which are more than the words between. -/
theorem wordIndexLoop_spec {words : List Bytes} {w : Bytes} (hs : words.Pairwise (· < ·))
    (hz : ∀ c ∈ words, NoZero c) (hw : NoZero w) {rounds : Nat} {lo hi : Int} (hlo : 0 ≤ lo)
    (hhi : hi < words.length) (hr : hi - lo < rounds) :
    (∀ i, wordIndexLoop words w rounds lo hi = some i → words[i]? = some w) ∧
    (∀ j : Nat, words[j]? = some w → lo ≤ j → (j : Int) ≤ hi →
      wordIndexLoop words w rounds lo hi = some j) := by
  induction rounds generalizing lo hi with
  | zero =>
    refine ⟨(fun i h => nomatch h), fun j _ h1 h2 => ?_⟩
    omega
  | succ rounds ih =>
    rw [wordIndexLoop]
    split
    · refine ⟨(fun i h => nomatch h), fun j _ h1 h2 => ?_⟩
      omega
    · rename_i hle
      generalize hm : lo + (hi - lo) / 2 = mid
      dsimp only
      have hmid : lo ≤ mid ∧ mid ≤ hi := by omega
      obtain ⟨m, rfl⟩ := Int.eq_ofNat_of_zero_le (Int.le_trans hlo hmid.1)
      have hml : m < words.length := by omega
      have hget : words.getD (m : Int).toNat [] = words[m] := by
        rw [Int.toNat_natCast, List.getD_eq_getElem?_getD, List.getElem?_eq_getElem hml]
        rfl
      have hc := compareWord_spec hw (hz words[m] (List.getElem_mem hml))
      have hlt := List.pairwise_iff_getElem.mp hs
      rw [hget]
      cases hcmp : compareWord w words[m] with
      | eq =>
        rw [hcmp] at hc
        have hc : w = words[m] := hc
        refine ⟨fun i h => ?_, fun j hj h1 h2 => ?_⟩
        · have hi : m = i := Option.some.inj h
          rw [← hi, List.getElem?_eq_getElem hml, hc]
        · obtain ⟨hjl, hjw⟩ := List.getElem?_eq_some_iff.mp hj
          have hjm : j = m := by
            rcases Nat.lt_trichotomy j m with h | h | h
            · have := hlt j m hjl hml h
              rw [hjw, ← hc] at this
              exact absurd this (bytes_lt_irrefl w)
            · exact h
            · have := hlt m j hml hjl h
              rw [hjw, ← hc] at this
              exact absurd this (bytes_lt_irrefl w)
          rw [hjm]
          rfl
      | lt =>
        rw [hcmp] at hc
        have hc : w < words[m] := hc
        have hrest := @ih lo ((m : Int) - 1) hlo (by omega) (by omega)
        refine ⟨hrest.1, fun j hj h1 h2 => hrest.2 j hj h1 ?_⟩
        obtain ⟨hjl, hjw⟩ := List.getElem?_eq_some_iff.mp hj
        by_contra hgt
        rcases Nat.lt_or_ge m j with h | h
        · have := hlt m j hml hjl h
          rw [hjw] at this
          exact bytes_lt_asymm this hc
        · have hjm : j = m := by omega
          subst hjm
          rw [hjw] at hc
          exact bytes_lt_irrefl w hc
      | gt =>
        rw [hcmp] at hc
        have hc : words[m] < w := hc
        have hrest := @ih ((m : Int) + 1) hi (by omega) hhi (by omega)
        refine ⟨hrest.1, fun j hj h1 h2 => hrest.2 j hj ?_ h2⟩
        obtain ⟨hjl, hjw⟩ := List.getElem?_eq_some_iff.mp hj
        by_contra hlt'
        rcases Nat.lt_or_ge j m with h | h
        · have := hlt j m hjl hml h
          rw [hjw] at this
          exact bytes_lt_asymm this hc
        · have hjm : j = m := by omega
          subst hjm
          rw [hjw] at hc
          exact bytes_lt_irrefl w hc

/-- The search finds exactly the words of a sorted list, each in its place. -/
theorem wordIndex_eq_some {words : List Bytes} (hs : words.Pairwise (· < ·)) (hz : ∀ c ∈ words, NoZero c)
    {w : Bytes} (hw : NoZero w) {i : Nat} : wordIndex words w = some i ↔ words[i]? = some w := by
  have h := @wordIndexLoop_spec words w hs hz hw (words.length + 1) 0
    ((words.length : Int) - 1) (by omega) (by omega) (by omega)
  constructor
  · exact h.1 i
  · intro hi
    have hl := (List.getElem?_eq_some_iff.mp hi).1
    exact h.2 i hi (by omega) (by omega)

theorem letter_ne_zero {c : UInt8} (h : 97 ≤ c ∧ c ≤ 122) : c ≠ 0 := by
  rintro rfl
  exact absurd h.1 (by decide)

namespace WordList
variable (wl : WordList)

theorem noZero : ∀ w ∈ wl.words, NoZero w := fun w hw c hc => letter_ne_zero (wl.letters w hw c hc)

theorem wordIndex_iff {w : Bytes} (hw : NoZero w) {i : Nat} :
    wordIndex wl.words w = some i ↔ wl.words[i]? = some w :=
  wordIndex_eq_some wl.sorted wl.noZero hw

/-- No word is in two places. -/
theorem index_unique {i j : Nat} {w : Bytes} (hi : wl.words[i]? = some w)
    (hj : wl.words[j]? = some w) : i = j := by
  have hw : NoZero w := wl.noZero w (List.mem_of_getElem? hi)
  have h1 := (wl.wordIndex_iff hw).mpr hi
  rw [(wl.wordIndex_iff hw).mpr hj] at h1
  exact (Option.some.inj h1).symm

end WordList

/-- The bits of bytes, the most significant of each first. -/
def bytesBits (b : Bytes) : List Bool := group 8 (b.map (·.toNat))

@[simp] theorem length_bytesBits (b : Bytes) : (bytesBits b).length = 8 * b.length := by
  rw [bytesBits, length_group, List.length_map]

theorem map_getD_toNat (b : Bytes) (q : Nat) : (b.map (·.toNat)).getD q 0 = (b.getD q 0).toNat := by
  rw [List.getD_eq_getElem?_getD, List.getD_eq_getElem?_getD, List.getElem?_map]
  cases b[q]? with
  | none => rfl
  | some c => rfl

theorem setBit_spec {bits : Bytes} {bit : Nat} (h : bit < 8 * bits.length) :
    ∃ bits', setBit bits bit = .ok bits' ∧ bits'.length = bits.length ∧
      bytesBits bits' = (bytesBits bits).set bit true := by
  have hq : bit / 8 < bits.length := by omega
  have hr : bit % 8 < 8 := by omega
  have hsum : 8 * (bit / 8) + bit % 8 = bit := by omega
  have hmask : ∀ r < 8, ((0x80 : UInt8) >>> UInt8.ofNat r).toNat = 2 ^ (8 - 1 - r) := by decide
  refine ⟨_, if_pos hq, List.length_set, ?_⟩
  unfold bytesBits
  rw [List.map_set, UInt8.toNat_or, hmask _ hr, ← map_getD_toNat,
    group_set _ hr (by rwa [List.length_map]), hsum]

/-- The first `m` bits of an index in place of zeros. -/
theorem packIndex_step {n idx : Nat} {bits : Bytes} {pre post : List Bool} (hpre : pre.length = n * 11)
    (hb : bytesBits bits = pre ++ List.replicate 11 false ++ post) (m : Nat) (hm : m ≤ 11) :
    ∃ bits', (List.range m).foldlM (fun bits b =>
        if idx >>> (10 - b) &&& 1 ≠ 0 then setBit bits (n * 11 + b) else .ok bits) bits = .ok bits' ∧
      bits'.length = bits.length ∧
      bytesBits bits' = pre ++ ((bitsOf 11 idx).take m ++ List.replicate (11 - m) false) ++ post := by
  have hlen : n * 11 + 11 ≤ 8 * bits.length := by
    have h := congrArg List.length hb
    rw [length_bytesBits, List.length_append, List.length_append, List.length_replicate, hpre] at h
    omega
  induction m with
  | zero => exact ⟨bits, rfl, rfl, hb⟩
  | succ m ih =>
    obtain ⟨bits', hf, hl, hbits⟩ := ih (by omega)
    have htake : (bitsOf 11 idx).take (m + 1) = (bitsOf 11 idx).take m ++ [idx.testBit (10 - m)] := by
      rw [List.take_add_one, getElem?_bitsOf idx (by omega : m < 11)]
      rfl
    have hrep : List.replicate (11 - m) false = false :: List.replicate (11 - (m + 1)) false := by
      rw [← List.replicate_succ]
      congr 1
      omega
    have hset : (bytesBits bits').set (n * 11 + m) true =
        pre ++ ((bitsOf 11 idx).take m ++ true :: List.replicate (11 - (m + 1)) false) ++ post := by
      have hml : ((bitsOf 11 idx).take m).length = m := by
        rw [List.length_take, length_bitsOf]
        omega
      rw [hbits, hrep, List.append_assoc, List.set_append_right _ _ (by omega), hpre,
        Nat.add_sub_cancel_left, List.append_assoc, List.set_append_right _ _ (by omega), hml,
        Nat.sub_self, List.cons_append, List.set_cons_zero]
      simp only [List.append_assoc, List.cons_append]
    have hbit : (idx >>> (10 - m) &&& 1 ≠ 0) ↔ idx.testBit (10 - m) = true := by
      rw [Nat.testBit, Nat.and_comm]
      simp
    have hlast : ∀ r, (if idx >>> (10 - m) &&& 1 ≠ 0 then setBit bits' (n * 11 + m) else .ok bits') = .ok r →
        (List.range (m + 1)).foldlM (fun bits b =>
          if idx >>> (10 - b) &&& 1 ≠ 0 then setBit bits (n * 11 + b) else .ok bits) bits = .ok r := by
      intro r h
      rw [List.range_succ, List.foldlM_append, hf]
      show (List.foldlM (fun bits b =>
          if idx >>> (10 - b) &&& 1 ≠ 0 then setBit bits (n * 11 + b) else .ok bits) bits' [m]) = .ok r
      rw [List.foldlM_cons, h]
      rfl
    by_cases ht : idx.testBit (10 - m) = true
    · obtain ⟨bits₂, hs, hl₂, hb₂⟩ := setBit_spec (show n * 11 + m < 8 * bits'.length by omega)
      refine ⟨bits₂, hlast _ ?_, hl₂.trans hl, ?_⟩
      · rw [if_pos (hbit.mpr ht), hs]
      · rw [hb₂, hset, htake, ht, List.append_assoc (bitsOf 11 idx |>.take m)]
        rfl
    · refine ⟨bits', hlast _ ?_, hl, ?_⟩
      · rw [if_neg fun h => ht (hbit.mp h)]
      · have hf : idx.testBit (10 - m) = false := by simpa using ht
        rw [hbits, hrep, htake, hf, List.append_assoc (bitsOf 11 idx |>.take m)]
        rfl

theorem packIndex_spec {n idx : Nat} {bits : Bytes} {pre post : List Bool} (hpre : pre.length = n * 11)
    (hb : bytesBits bits = pre ++ List.replicate 11 false ++ post) :
    ∃ bits', packIndex n idx bits = .ok bits' ∧ bits'.length = bits.length ∧
      bytesBits bits' = pre ++ bitsOf 11 idx ++ post := by
  obtain ⟨bits', hf, hl, hbits⟩ := @packIndex_step _ idx _ _ _ hpre hb 11 (Nat.le_refl 11)
  refine ⟨bits', hf, hl, ?_⟩
  rw [hbits, List.take_of_length_le (by rw [length_bitsOf])]
  simp

theorem bitAt_eq {bits : Bytes} {p : Nat} (h : p < 8 * bits.length) :
    (bytesBits bits)[p]? = some (decide (bitAt bits p = 1)) ∧ bitAt bits p < 2 := by
  have hq : p / 8 < bits.length := by omega
  have hr : p % 8 < 8 := by omega
  have hsum : 8 * (p / 8) + p % 8 = p := by omega
  have hval : bitAt bits p = ((bits.getD (p / 8) 0).toNat.testBit (7 - p % 8)).toNat := by
    have hs : (UInt8.ofNat (7 - p % 8)).toNat % 8 = 7 - p % 8 := by
      rw [UInt8.toNat_ofNat']
      omega
    unfold bitAt
    rw [UInt8.toNat_and, UInt8.toNat_shiftRight, hs, Nat.toNat_testBit, Nat.shiftRight_eq_div_pow]
    exact Nat.and_one_is_mod _
  constructor
  · have hg := getElem?_group (bits.map (·.toNat)) (p / 8) hr
    have hget : (bits.map (·.toNat))[p / 8]? = some (bits.getD (p / 8) 0).toNat := by
      rw [List.getElem?_map, List.getElem?_eq_getElem hq, List.getD_eq_getElem?_getD,
        List.getElem?_eq_getElem hq]
      rfl
    rw [hsum, hget] at hg
    rw [bytesBits, hg, hval]
    show some ((bits.getD (p / 8) 0).toNat.testBit (7 - p % 8)) = _
    cases (bits.getD (p / 8) 0).toNat.testBit (7 - p % 8) with
    | true => rfl
    | false => rfl
  · rw [hval]
    cases (bits.getD (p / 8) 0).toNat.testBit (7 - p % 8) with
    | true => decide
    | false => decide

/-- The index of a word is what its eleven bits say. -/
theorem readIndex_eq {bits : Bytes} {i : Nat} (h : i * 11 + 11 ≤ 8 * bits.length) :
    readIndex bits i = ofBits (((bytesBits bits).drop (i * 11)).take 11) := by
  have hgo : ∀ m ≤ 11, (List.range m).foldl (fun idx b => idx <<< 1 ||| bitAt bits (i * 11 + b)) 0 =
      ofBits (((bytesBits bits).drop (i * 11)).take m) := by
    intro m hm
    induction m with
    | zero => rfl
    | succ m ih =>
      obtain ⟨hb, h2⟩ := bitAt_eq (show i * 11 + m < 8 * bits.length by omega)
      have hadd : ∀ n b : Nat, b < 2 → n <<< 1 ||| b = 2 * n + b := by
        intro n b hlt
        rw [← Nat.shiftLeft_add_eq_or_of_lt (i := 1) hlt, Nat.shiftLeft_eq]
        omega
      rw [List.range_succ, List.foldl_append, ih (by omega), List.take_add_one, List.getElem?_drop, hb]
      simp only [List.foldl_cons, List.foldl_nil, Option.toList_some]
      rw [hadd _ _ h2, ofBits_append]
      by_cases h1 : bitAt bits (i * 11 + m) = 1
      · simp [h1, ofBits]
        omega
      · have h0 : bitAt bits (i * 11 + m) = 0 := by omega
        simp [h0, ofBits]
        omega
  exact hgo 11 (Nat.le_refl 11)

theorem bytesBits_injective {a b : Bytes} (h : bytesBits a = bytesBits b) : a = b := by
  have hlt : ∀ c : Bytes, ∀ n ∈ c.map (·.toNat), n < 2 ^ 8 := by
    intro c n hn
    obtain ⟨x, -, rfl⟩ := List.mem_map.mp hn
    exact UInt8.toNat_lt x
  have hback : ∀ c : Bytes, ungroup 8 (bytesBits c) = c.map (·.toNat) := by
    intro c
    have hc := ungroup_group (by decide : 0 < 8) (hlt c) (show ([] : List Bool).length < 8 by decide)
    rwa [List.append_nil] at hc
  have hmap : a.map (·.toNat) = b.map (·.toNat) := by rw [← hback, h, hback]
  exact List.map_injective_iff.mpr (fun _ _ => UInt8.toNat_inj.mp) hmap

/-- The words at these places of the list. -/
def Placed (wl : WordList) : List Nat → List Bytes → Prop :=
  List.Forall₂ fun i w => wl.words[i]? = some w

namespace Placed
variable {wl : WordList} {idxs idxs' : List Nat} {ws ws' : List Bytes}

theorem unique (h : Placed wl idxs ws) (h' : Placed wl idxs' ws) : idxs = idxs' := by
  induction h generalizing idxs' with
  | nil =>
    cases h' with
    | nil => rfl
  | cons hi _ ih =>
    cases h' with
    | cons hj ht => rw [wl.index_unique hi hj, ih ht]

theorem concat {i : Nat} {w : Bytes} (h : Placed wl idxs ws) (hi : wl.words[i]? = some w) :
    Placed wl (idxs ++ [i]) (ws ++ [w]) := by
  induction h with
  | nil => exact .cons hi .nil
  | cons hj _ ih => exact .cons hj ih

theorem mem (h : Placed wl idxs ws) : ∀ w ∈ ws, w ∈ wl.words := by
  induction h with
  | nil => intro w hw; cases hw
  | cons hi _ ih =>
    intro w hw
    rcases List.mem_cons.mp hw with rfl | hw
    · exact List.mem_of_getElem? hi
    · exact ih w hw

theorem lt (h : Placed wl idxs ws) : ∀ i ∈ idxs, i < 2 ^ 11 := by
  induction h with
  | nil => intro i hi; cases hi
  | cons hi _ ih =>
    intro j hj
    rcases List.mem_cons.mp hj with rfl | hj
    · have := (List.getElem?_eq_some_iff.mp hi).1
      rwa [wl.size] at this
    · exact ih j hj

theorem of_lt (h : ∀ i ∈ idxs, i < 2 ^ 11) : Placed wl idxs (idxs.map (wl.words.getD · [])) := by
  induction idxs with
  | nil => exact .nil
  | cons i idxs ih =>
    have hi : i < wl.words.length := by
      rw [wl.size]
      exact h i List.mem_cons_self
    refine .cons ?_ (ih fun j hj => h j (List.mem_cons_of_mem i hj))
    dsimp only
    rw [List.getD_eq_getElem?_getD, List.getElem?_eq_getElem hi]
    rfl

theorem words_eq (h : Placed wl idxs ws) : idxs.map (wl.words.getD · []) = ws := by
  induction h with
  | nil => rfl
  | cons hi _ ih =>
    rw [List.map_cons, ih, List.getD_eq_getElem?_getD, hi]
    rfl

end Placed

namespace WordList
variable (wl : WordList)

theorem isWord : ∀ w ∈ wl.words, IsWord isSpace w := by
  intro w hw
  have hlen := (wl.lengths w hw).1
  refine ⟨?_, ?_⟩
  · rintro rfl
    exact absurd hlen (by decide)
  · intro c hc
    have hl := wl.letters w hw c hc
    have h1 : c ≠ 32 := by
      rintro rfl
      exact absurd hl.1 (by decide)
    have h2 : ¬c ≤ 13 := fun h => absurd (UInt8.le_trans hl.1 h) (by decide)
    simp [isSpace, h1, h2]

end WordList

theorem isSpace_space : isSpace 32 = true := rfl

section
variable {wl : WordList} {shim : CryptoShim}

/-- The places of the words of an entropy with the first byte of its digest. -/
def placesOf (e : Bytes) (digest : Bytes) : List Nat := ungroup 11 (bytesBits (e ++ [digest.getD 0 0]))

theorem length_placesOf (e : Entropy) (d : Bytes) : (placesOf e.val d).length = bip39Words := by
  rw [placesOf, length_ungroup, length_bytesBits, List.length_append, e.property,
    List.length_singleton]
  decide

theorem fromEntropy_fold (f : Nat → Bytes) (n : Nat) :
    (List.range n).foldl (fun out i => out ++ (if i ≠ 0 then [32] else []) ++ f i) [] =
      join 32 ((List.range n).map f) := by
  induction n with
  | zero => rfl
  | succ n ih =>
    rw [List.range_succ, List.foldl_append, ih, List.map_append, List.map_singleton, join_concat]
    cases n with
    | zero => rfl
    | succ n =>
      have hne : (List.range (n + 1)).map f ≠ [] := by simp
      rw [if_neg hne]
      rfl

theorem fromEntropy_eq {e : Entropy} {d : Bytes} (h : shim.sha256 e.val = .ok d) :
    bip39FromEntropy wl shim e bip39MnemonicCap =
      .ok (join 32 ((placesOf e.val d).map (wl.words.getD · []))) := by
  have hlen : 8 * (e.val ++ [d.getD 0 0]).length = 264 := by
    rw [List.length_append, e.property]
    rfl
  have hread : (List.range bip39Words).map (readIndex (e.val ++ [d.getD 0 0])) = placesOf e.val d := by
    unfold placesOf ungroup
    rw [length_bytesBits, hlen]
    refine List.map_congr_left fun i hi => readIndex_eq ?_
    have hi : i < 24 := List.mem_range.mp hi
    omega
  unfold bip39FromEntropy
  rw [if_neg (Nat.lt_irrefl _), h]
  show Except.ok _ = _
  rw [fromEntropy_fold fun i => wl.words.getD (readIndex (e.val ++ [d.getD 0 0]) i) [], ← hread,
    List.map_map]
  rfl

/-- What an entropy is spelled as: the words at its places, joined. -/
theorem fromEntropy_iff {e : Entropy} {m : Bytes} :
    bip39FromEntropy wl shim e bip39MnemonicCap = .ok m ↔
      ∃ d ws, shim.sha256 e.val = .ok d ∧ Placed wl (placesOf e.val d) ws ∧ m = join 32 ws := by
  have hplaced : ∀ d, Placed wl (placesOf e.val d) ((placesOf e.val d).map (wl.words.getD · [])) :=
    fun d => .of_lt (ungroup_lt 11 _)
  constructor
  · intro h
    cases hs : shim.sha256 e.val with
    | error rc =>
      unfold bip39FromEntropy at h
      rw [if_neg (Nat.lt_irrefl _), hs] at h
      cases h
    | ok d =>
      rw [fromEntropy_eq hs] at h
      exact ⟨d, _, rfl, hplaced d, (Except.ok.inj h).symm⟩
  · rintro ⟨d, ws, hs, hp, rfl⟩
    rw [fromEntropy_eq hs, hp.words_eq]

theorem bits_of_places {e e' : Entropy} {d d' : Bytes} (h : placesOf e.val d = placesOf e'.val d') :
    e.val ++ [d.getD 0 0] = e'.val ++ [d'.getD 0 0] := by
  have hdvd : ∀ (e : Entropy) (d : Bytes), 11 ∣ (bytesBits (e.val ++ [d.getD 0 0])).length := by
    intro e d
    rw [length_bytesBits, List.length_append, e.property]
    exact ⟨24, rfl⟩
  apply bytesBits_injective
  rw [← group_ungroup (by decide) (hdvd e d), ← group_ungroup (by decide) (hdvd e' d')]
  exact congrArg (group 11) h

/-- No two entropies are spelled alike. -/
theorem fromEntropy_injective {e e' : Entropy} {m : Bytes}
    (h : bip39FromEntropy wl shim e bip39MnemonicCap = .ok m)
    (h' : bip39FromEntropy wl shim e' bip39MnemonicCap = .ok m) : e = e' := by
  obtain ⟨d, ws, -, hp, rfl⟩ := fromEntropy_iff.mp h
  obtain ⟨d', ws', -, hp', hj⟩ := fromEntropy_iff.mp h'
  have hword : ∀ {idxs us}, Placed wl idxs us → ∀ w ∈ us, IsWord isSpace w :=
    fun hp w hw => wl.isWord w (hp.mem w hw)
  have hws : ws = ws' := join_injective isSpace_space (hword hp) (hword hp') hj
  subst hws
  have hb := bits_of_places (hp.unique hp')
  exact Subtype.ext (List.append_inj hb (e.property.trans e'.property.symm)).1

theorem pushAll_eq {cap : Nat} {buf cs : Bytes} (h : buf.length + cs.length ≤ cap) :
    pushAll cap buf cs = .ok (buf ++ cs) := by
  induction cs generalizing buf with
  | nil => rw [List.append_nil]; rfl
  | cons c cs ih =>
    have hlt : buf.length < cap := by
      rw [List.length_cons] at h
      omega
    have hrest : (buf ++ [c]).length + cs.length ≤ cap := by
      rw [List.length_append, List.length_singleton]
      rw [List.length_cons] at h
      omega
    have htail := ih hrest
    unfold pushAll at htail ⊢
    rw [List.foldlM_cons, push, if_pos hlt]
    show List.foldlM (push cap) (buf ++ [c]) cs = _
    rw [htail, List.append_assoc]
    rfl

/-- What was read is the words so far, in their canonical form and packed. -/
structure Scanned (wl : WordList) (idxs : List Nat) (ws : List Bytes) (st : Scan) : Prop where
  count : st.n = ws.length
  bound : ws.length ≤ bip39Words
  placed : Placed wl idxs ws
  canon : st.canon = join 32 ws
  bits : bytesBits st.bits = group 11 idxs ++ List.replicate (264 - 11 * ws.length) false

namespace Scanned
variable {idxs : List Nat} {ws : List Bytes} {st : Scan}

theorem start : Scanned wl [] [] ⟨0, [], List.replicate bip39Bytes 0⟩ :=
  ⟨rfl, by decide, .nil, rfl, by decide +kernel⟩

/-- The canonical text so far leaves room for a byte. -/
theorem room (h : Scanned wl idxs ws st) : st.canon.length ≤ 9 * ws.length ∧
    (ws ≠ [] → st.canon.length + 1 ≤ 9 * ws.length) := by
  have hlen : ∀ w ∈ ws, w.length ≤ 8 := fun w hw => (wl.lengths w (h.placed.mem w hw)).2
  rw [h.canon]
  by_cases hne : ws = []
  · subst hne
    exact ⟨Nat.le_refl 0, fun hn => absurd rfl hn⟩
  · have := @length_join _ 32 _ _ hlen hne
    exact ⟨by omega, fun _ => this⟩

/-- A word that fits is read. -/
theorem scanWord_eq {w c₁ c₂ bits : Bytes} {i : Nat} (hn : st.n ≠ bip39Words)
    (hi : (if 3 ≤ w.length ∧ w.length ≤ 8 then wordIndex wl.words w else none) = some i)
    (hsep : (if st.n ≠ 0 then push bip39MnemonicCap st.canon 32 else .ok st.canon) = .ok c₁)
    (hword : pushAll bip39MnemonicCap c₁ w = .ok c₂) (hpack : packIndex st.n i st.bits = .ok bits) :
    scanWord wl st w = .ok ⟨st.n + 1, c₂, bits⟩ := by
  have hrest : (do
      let canon ← pushAll bip39MnemonicCap c₁ w
      let bits ← packIndex st.n i st.bits
      Except.ok (⟨st.n + 1, canon, bits⟩ : Scan)) = .ok ⟨st.n + 1, c₂, bits⟩ := by
    rw [hword]
    show (do
      let bits ← packIndex st.n i st.bits
      Except.ok (⟨st.n + 1, c₂, bits⟩ : Scan)) = _
    rw [hpack]
    rfl
  unfold scanWord
  rw [if_neg hn, hi]
  by_cases h0 : st.n ≠ 0
  · rw [if_pos h0] at hsep
    simp only [if_pos h0, hsep]
    exact hrest
  · rw [if_neg h0] at hsep
    simp only [if_neg h0, hsep]
    exact hrest

/-- A further word of the list is read, and anything else is refused. -/
theorem word (h : Scanned wl idxs ws st) {w : Bytes} (hw : NoZero w) :
    match scanWord wl st w with
    | .ok st' => ∃ i, Scanned wl (idxs ++ [i]) (ws ++ [w]) st'
    | .error (.invalid _) => ws.length = bip39Words ∨ w ∉ wl.words
    | .error _ => False := by
  by_cases hfull : st.n = bip39Words
  · rw [scanWord, if_pos hfull]
    exact .inl (h.count.symm.trans hfull)
  · have hlt : ws.length < 24 := by
      have h1 : ws.length ≤ 24 := h.bound
      have h2 : ws.length ≠ 24 := fun he => hfull (h.count.trans he)
      omega
    cases hi : if 3 ≤ w.length ∧ w.length ≤ 8 then wordIndex wl.words w else none with
    | none =>
      rw [scanWord, if_neg hfull, hi]
      refine .inr fun hmem => ?_
      obtain ⟨i, hget⟩ := List.mem_iff_getElem?.mp hmem
      rw [if_pos (wl.lengths w hmem), (wl.wordIndex_iff hw).mpr hget] at hi
      cases hi
    | some i =>
      have hget : wl.words[i]? = some w := by
        split at hi
        · exact (wl.wordIndex_iff hw).mp hi
        · cases hi
      have hwlen := (wl.lengths w (List.mem_of_getElem? hget)).2
      have hcount := h.count
      have hroom := h.room
      have hcap : bip39MnemonicCap = 216 := rfl
      have hsep : (if st.n ≠ 0 then push bip39MnemonicCap st.canon 32 else .ok st.canon) =
          .ok (join 32 ws ++ if ws = [] then [] else [32]) := by
        by_cases hws : ws = []
        · have h0 : st.n = 0 := by rw [hcount, hws]; rfl
          rw [if_neg (by simp [h0]), if_pos hws, List.append_nil, h.canon]
        · have h0 : st.n ≠ 0 := fun he => hws (List.length_eq_zero_iff.mp (hcount.symm.trans he))
          have hfit : st.canon.length < bip39MnemonicCap := by
            have := hroom.2 hws
            omega
          rw [if_pos h0, push, if_pos hfit, if_neg hws, h.canon]
      have hfit : (join 32 ws ++ if ws = [] then [] else [32]).length + w.length ≤ bip39MnemonicCap := by
        rw [← h.canon, List.length_append]
        by_cases hws : ws = []
        · rw [if_pos hws, List.length_nil]
          have := hroom.1
          omega
        · rw [if_neg hws, List.length_singleton]
          have := hroom.2 hws
          omega
      have hpre : (group 11 idxs).length = st.n * 11 := by
        rw [length_group, List.Forall₂.length_eq h.placed, hcount, Nat.mul_comm]
      have hzero : List.replicate (264 - 11 * ws.length) false =
          List.replicate 11 false ++ List.replicate (264 - 11 * (ws.length + 1)) false := by
        rw [List.replicate_append_replicate]
        congr 1
        omega
      obtain ⟨bits', hpack, -, hbits⟩ := @packIndex_spec _ i _ _ _ hpre
        (h.bits.trans (by rw [hzero, List.append_assoc]))
      rw [scanWord_eq hfull hi hsep (pushAll_eq hfit) hpack]
      refine ⟨i, ⟨?_, ?_, h.placed.concat hget, ?_, ?_⟩⟩
      · rw [List.length_append, List.length_singleton, hcount]
      · rw [List.length_append, List.length_singleton]
        exact hlt
      · exact (join_concat ws w).symm
      · rw [hbits, group_append, List.length_append]
        simp

/-- Word after word: only too many words or an unknown one end it early. -/
theorem words {us : List Bytes} (h : Scanned wl idxs ws st) (hu : ∀ w ∈ us, NoZero w) :
    match us.foldlM (scanWord wl) st with
    | .ok st' => ∃ js, Scanned wl js (ws ++ us) st'
    | .error (.invalid _) => bip39Words < (ws ++ us).length ∨ ∃ w ∈ us, w ∉ wl.words
    | .error _ => False := by
  induction us generalizing idxs ws st with
  | nil => exact ⟨idxs, by rwa [List.append_nil]⟩
  | cons w us ih =>
    have hw := h.word (hu w List.mem_cons_self)
    rw [List.foldlM_cons]
    cases hs : scanWord wl st w with
    | error stop =>
      rw [hs] at hw
      cases stop with
      | invalid why =>
        rcases hw with hfull | hmem
        · refine .inl ?_
          rw [List.length_append, List.length_cons, hfull]
          omega
        · exact .inr ⟨w, List.mem_cons_self, hmem⟩
      | failed rc => exact hw
      | overrun => exact hw
    | ok st' =>
      rw [hs] at hw
      obtain ⟨i, hi⟩ := hw
      have hrest := ih hi fun v hv => hu v (List.mem_cons_of_mem w hv)
      rw [List.append_assoc, List.singleton_append] at hrest
      show match us.foldlM (scanWord wl) st' with
        | .ok st' => ∃ js, Scanned wl js (ws ++ w :: us) st'
        | .error (.invalid _) => bip39Words < (ws ++ w :: us).length ∨ ∃ v ∈ w :: us, v ∉ wl.words
        | .error _ => False
      cases hf : us.foldlM (scanWord wl) st' with
      | ok st₂ => rw [hf] at hrest; exact hrest
      | error stop =>
        rw [hf] at hrest
        cases stop with
        | invalid why =>
          rcases hrest with hfull | ⟨v, hv, hmem⟩
          · exact .inl hfull
          · exact .inr ⟨v, List.mem_cons_of_mem w hv, hmem⟩
        | failed rc => exact hrest
        | overrun => exact hrest

end Scanned

theorem scanWords_eq (wl : WordList) (n : Nat) (p : Bytes) (st : Scan) :
    scanWords wl n p st = (split isSpace n p).foldlM (scanWord wl) st := by
  induction n generalizing p st with
  | zero => rfl
  | succ n ih =>
    rw [scanWords, split]
    generalize p.dropWhile isSpace = start
    cases start with
    | nil => rfl
    | cons c rest =>
      simp only [List.foldlM_cons]
      congr 1
      funext st'
      exact ih _ st'

/-- The canonical words of some entropy. -/
def Spelled (wl : WordList) (shim : CryptoShim) (m : Bytes) : Prop :=
  ∃ e, bip39FromEntropy wl shim e bip39MnemonicCap = .ok m

theorem spelled_join {ws : List Bytes} (hw : ∀ w ∈ ws, IsWord isSpace w) :
    Spelled wl shim (join 32 ws) ↔
      ∃ (e : Entropy) (d : Bytes), shim.sha256 e.val = .ok d ∧ Placed wl (placesOf e.val d) ws := by
  constructor
  · rintro ⟨e, he⟩
    obtain ⟨d, vs, hs, hp, hj⟩ := fromEntropy_iff.mp he
    have hvs : ws = vs := join_injective isSpace_space hw (fun v hv => wl.isWord v (hp.mem v hv)) hj
    exact ⟨e, d, hs, hvs ▸ hp⟩
  · rintro ⟨e, d, hs, hp⟩
    exact ⟨e, fromEntropy_iff.mpr ⟨d, ws, hs, hp, rfl⟩⟩

/-- Twenty-four words spell an entropy when the last byte of theirs is its checksum. -/
theorem Scanned.spelled_iff {idxs : List Nat} {ws : List Bytes} {st : Scan} (h : Scanned wl idxs ws st)
    (hn : ws.length = bip39Words) :
    Spelled wl shim (join 32 ws) ↔ ∃ d, shim.sha256 (st.bits.take bip39EntropySize) = .ok d ∧
      d.getD 0 0 = st.bits.getD bip39EntropySize 0 := by
  have hbits : bytesBits st.bits = group 11 idxs := by
    rw [h.bits, hn]
    exact List.append_nil _
  have hlen : st.bits.length = 33 := by
    have hl := congrArg List.length hbits
    rw [length_bytesBits, length_group, List.Forall₂.length_eq h.placed, hn] at hl
    have : bip39Words = 24 := rfl
    omega
  have hword : ∀ w ∈ ws, IsWord isSpace w := fun w hw => wl.isWord w (h.placed.mem w hw)
  rw [spelled_join hword]
  constructor
  · rintro ⟨e, d, hs, hp⟩
    have hdvd : 11 ∣ (bytesBits (e.val ++ [d.getD 0 0])).length := by
      rw [length_bytesBits, List.length_append, e.property]
      exact ⟨24, rfl⟩
    have heq : st.bits = e.val ++ [d.getD 0 0] := by
      apply bytesBits_injective
      rw [hbits, ← hp.unique h.placed, placesOf, group_ungroup (by decide) hdvd]
    have htake : st.bits.take bip39EntropySize = e.val := by
      rw [heq, List.take_left' e.property]
    have hlast : st.bits[bip39EntropySize]? = some (d.getD 0 0) := by
      rw [heq, List.getElem?_append_right (Nat.le_of_eq e.property), e.property]
      rfl
    refine ⟨d, htake ▸ hs, ?_⟩
    rw [List.getD_eq_getElem?_getD (l := st.bits), hlast]
    rfl
  · rintro ⟨d, hs, hd⟩
    have hsplit : st.bits = st.bits.take bip39EntropySize ++ [d.getD 0 0] := by
      have hlast : bip39EntropySize < st.bits.length := by rw [hlen]; decide
      have hdrop : st.bits.drop bip39EntropySize = [d.getD 0 0] := by
        rw [List.drop_eq_getElem_cons hlast, List.drop_of_length_le (by rw [hlen]; decide), hd,
          List.getD_eq_getElem?_getD, List.getElem?_eq_getElem hlast]
        rfl
      rw [← hdrop, List.take_append_drop]
    refine ⟨⟨st.bits.take bip39EntropySize, ?_⟩, d, hs, ?_⟩
    · rw [List.length_take, hlen]
      decide
    · have hplaces : placesOf (st.bits.take bip39EntropySize) d = idxs := by
        have hback := ungroup_group (by decide : 0 < 11) h.placed.lt (show ([] : List Bool).length < 11 by decide)
        rw [List.append_nil] at hback
        rw [placesOf, ← hsplit, hbits, hback]
      exact hplaces ▸ h.placed

/-- What is left of the derivation once the words are read. -/
def finish (shim : CryptoShim) (st : Scan) : Except Stop Bytes := do
  let _ ← push bip39MnemonicCap st.canon 0
  if st.n ≠ bip39Words then .error (.invalid (.count st.n))
  else do
    let hash ← liftShim (shim.sha256 (st.bits.take bip39EntropySize))
    if hash.getD 0 0 ≠ st.bits.getD bip39EntropySize 0 then .error (.invalid .checksum)
    else do
      let seed ← liftShim (shim.kdfPbkdf2Sha512 st.canon bip39Salt bip39Rounds bip39SeedSize)
      .ok (shiftSeed seed)

/-- A secret comes from the canonical words of an entropy, and only these are refused
for no fault of their own. -/
def Derived (wl : WordList) (shim : CryptoShim) (m : Bytes) : Except Stop Bytes → Prop
  | .ok s => Spelled wl shim m ∧ ∃ seed,
      shim.kdfPbkdf2Sha512 m bip39Salt bip39Rounds bip39SeedSize = .ok seed ∧ s = shiftSeed seed
  | .error .overrun => False
  | .error (.invalid _) => ¬Spelled wl shim m
  | .error (.failed rc) => ¬Spelled wl shim m ∨
      shim.kdfPbkdf2Sha512 m bip39Salt bip39Rounds bip39SeedSize = .error rc

theorem Scanned.finish {idxs : List Nat} {ws : List Bytes} {st : Scan} (h : Scanned wl idxs ws st)
    (hw : Spelled wl shim (join 32 ws) → ws.length = bip39Words) :
    Derived wl shim (join 32 ws) (finish shim st) := by
  have hroom : st.canon.length < bip39MnemonicCap := by
    have h1 := h.room
    have h2 : ws.length ≤ 24 := h.bound
    have h3 : bip39MnemonicCap = 216 := rfl
    by_cases hne : ws = []
    · rw [hne, List.length_nil] at h1
      omega
    · have := h1.2 hne
      omega
  unfold EncedoHem.finish
  rw [push, if_pos hroom]
  by_cases hn : st.n ≠ bip39Words
  · have hnot : ¬Spelled wl shim (join 32 ws) := fun hs => hn (h.count.trans (hw hs))
    simp only [if_pos hn]
    exact hnot
  · have hiff := @Scanned.spelled_iff wl shim _ _ _ h (h.count.symm.trans (not_not.mp hn))
    simp only [if_neg hn]
    cases hsha : shim.sha256 (st.bits.take bip39EntropySize) with
    | error rc =>
      refine .inl fun hs => ?_
      obtain ⟨d, hd, -⟩ := hiff.mp hs
      rw [hsha] at hd
      cases hd
    | ok hash =>
      show Derived wl shim (join 32 ws) (if hash.getD 0 0 ≠ st.bits.getD bip39EntropySize 0 then _ else _)
      by_cases hsum : hash.getD 0 0 ≠ st.bits.getD bip39EntropySize 0
      · rw [if_pos hsum]
        intro hs
        obtain ⟨d, hd, hd0⟩ := hiff.mp hs
        have hdh : hash = d := Except.ok.inj (hsha.symm.trans hd)
        exact hsum (hdh ▸ hd0)
      · rw [if_neg hsum]
        have hs : Spelled wl shim (join 32 ws) := hiff.mpr ⟨hash, hsha, not_not.mp hsum⟩
        rw [h.canon]
        cases hkdf : shim.kdfPbkdf2Sha512 (join 32 ws) bip39Salt bip39Rounds bip39SeedSize with
        | error rc => exact .inr hkdf
        | ok seed => exact ⟨hs, seed, hkdf, rfl⟩

/-- The secret is derived from the canonical words of an entropy, and only from these. -/
theorem deriveSecret_spec {words : Bytes} (hz : NoZero words) :
    Derived wl shim (normalForm isSpace 32 words) (deriveSecret wl shim words) := by
  have hrun : deriveSecret wl shim words = (do
      let st ← scanWords wl (words.length + 1) words ⟨0, [], List.replicate bip39Bytes 0⟩
      finish shim st) := rfl
  rw [normalForm_eq isSpace_space (Nat.lt_succ_self words.length), hrun, scanWords_eq]
  generalize hws : split isSpace (words.length + 1) words = ws
  have hword : ∀ w ∈ ws, IsWord isSpace w := fun w hw => split_isWord w (hws ▸ hw)
  have hzero : ∀ w ∈ ws, NoZero w := by
    intro w hw c hc
    rw [← hws] at hw
    exact hz c (mem_of_mem_split hw hc)
  have hspelled : Spelled wl shim (join 32 ws) → ws.length = bip39Words ∧ ∀ w ∈ ws, w ∈ wl.words := by
    intro h
    obtain ⟨e, d, -, hp⟩ := (spelled_join hword).mp h
    exact ⟨(List.Forall₂.length_eq hp).symm.trans (length_placesOf e d), hp.mem⟩
  have hscan := (Scanned.start : Scanned wl [] [] _).words hzero
  rw [List.nil_append] at hscan
  cases hs : ws.foldlM (scanWord wl) ⟨0, [], List.replicate bip39Bytes 0⟩ with
  | error stop =>
    rw [hs] at hscan
    cases stop with
    | invalid why =>
      intro h
      obtain ⟨hn, hmem⟩ := hspelled h
      rcases hscan with hfull | ⟨w, hw, hnot⟩
      · omega
      · exact hnot (hmem w hw)
    | failed rc => exact hscan.elim
    | overrun => exact hscan
  | ok st =>
    rw [hs] at hscan
    obtain ⟨idxs, h⟩ := hscan
    exact h.finish fun hs => (hspelled hs).1

/-- A hexadecimal character. -/
def hexChar (n : Nat) : UInt8 := UInt8.ofNat (if n < 10 then 48 + n else 87 + n)

/-- Bytes as hexadecimal text. -/
def hexText (b : Bytes) : Bytes := b.flatMap fun c => [hexChar (c.toNat / 16), hexChar (c.toNat % 16)]

/-- The low half of a byte and the high half of the next one. -/
theorem toNat_shift (x y : UInt8) : (x <<< 4 ||| y >>> 4).toNat = 16 * (x.toNat % 16) + y.toNat / 16 := by
  have hy : y.toNat < 256 := UInt8.toNat_lt y
  have hleft : (x <<< 4).toNat = (x.toNat % 16) <<< 4 := by
    rw [UInt8.toNat_shiftLeft, Nat.shiftLeft_eq, Nat.shiftLeft_eq]
    show x.toNat * 16 % 256 = x.toNat % 16 * 16
    omega
  have hright : (y >>> 4).toNat = y.toNat / 16 := by
    rw [UInt8.toNat_shiftRight, Nat.shiftRight_eq_div_pow]
    rfl
  rw [UInt8.toNat_or, hleft, hright, ← Nat.shiftLeft_add_eq_or_of_lt (by omega), Nat.shiftLeft_eq]
  omega

theorem hexText_shift (x : UInt8) (rest : Bytes) (n : Nat) (hn : n ≤ rest.length) :
    hexText ((List.range n).map fun i => (x :: rest).getD i 0 <<< 4 ||| (x :: rest).getD (i + 1) 0 >>> 4) =
      ((hexText (x :: rest)).drop 1).take (2 * n) := by
  induction n generalizing x rest with
  | zero => rfl
  | succ n ih =>
    cases rest with
    | nil => exact absurd hn (by simp)
    | cons y rest =>
      have hy : y.toNat < 256 := UInt8.toNat_lt y
      have hhigh : (16 * (x.toNat % 16) + y.toNat / 16) / 16 = x.toNat % 16 := by omega
      have hlow : (16 * (x.toNat % 16) + y.toNat / 16) % 16 = y.toNat / 16 := by omega
      have htail := ih y rest (Nat.le_of_succ_le_succ hn)
      rw [List.range_succ_eq_map, List.map_cons, List.map_map, hexText, List.flatMap_cons, ← hexText]
      show [hexChar ((x <<< 4 ||| y >>> 4).toNat / 16), hexChar ((x <<< 4 ||| y >>> 4).toNat % 16)] ++
        hexText ((List.range n).map fun i => (y :: rest).getD i 0 <<< 4 ||| (y :: rest).getD (i + 1) 0 >>> 4) =
          (hexChar (x.toNat % 16) :: hexChar (y.toNat / 16) :: (hexText (y :: rest)).drop 1).take (2 * n + 2)
      rw [htail, toNat_shift, hhigh, hlow]
      rfl

theorem hexText_shiftSeed {seed : Bytes} (h : seed.length = bip39SeedSize) :
    hexText (shiftSeed seed) = ((hexText seed).drop 1).take 64 := by
  cases seed with
  | nil => cases h
  | cons x rest =>
    refine hexText_shift x rest bip39SecretSize ?_
    have hlen : rest.length + 1 = 64 := h
    have hsize : bip39SecretSize = 32 := rfl
    omega

theorem noZero_cstr (b : Bytes) : NoZero (cstr b) := fun _ => no_zero_of_mem_cstr

/-- What `ehem_bip39_to_master_secret` leaves: the outcome and the secret agree with
what could be derived from the canonical words. -/
theorem toMasterSecret_spec (words secret : Bytes) (cap : Nat) :
    let r := bip39ToMasterSecret wl shim (some words) (some secret) cap
    let m := normalForm isSpace 32 (cstr words)
    (r.1 = .ok () → Spelled wl shim m ∧ ∃ seed,
      shim.kdfPbkdf2Sha512 m bip39Salt bip39Rounds bip39SeedSize = .ok seed ∧
      r.2.1 = some (shiftSeed seed)) ∧
    (r.1 ≠ .ok () → r.2.1 = some secret ∧ r.1 ≠ .error .overrun ∧
      (Spelled wl shim m → ∃ rc,
        shim.kdfPbkdf2Sha512 m bip39Salt bip39Rounds bip39SeedSize = .error rc)) := by
  have h := @deriveSecret_spec wl shim _ (noZero_cstr words)
  dsimp only
  unfold bip39ToMasterSecret
  dsimp only
  cases hd : deriveSecret wl shim (cstr words) with
  | ok s =>
    rw [hd] at h
    obtain ⟨hs, seed, hkdf, rfl⟩ := h
    exact ⟨fun _ => ⟨hs, seed, hkdf, rfl⟩, fun hne => absurd rfl hne⟩
  | error stop =>
    rw [hd] at h
    cases stop with
    | invalid why => exact ⟨(fun he => nomatch he), fun _ => ⟨rfl, (fun he => nomatch he), fun hs => absurd hs h⟩⟩
    | failed rc =>
      refine ⟨(fun he => nomatch he), fun _ => ⟨rfl, (fun he => nomatch he), fun hs => ⟨rc, ?_⟩⟩⟩
      exact h.resolve_left fun hnot => hnot hs
    | overrun => exact h.elim

end

/-- The derivation accepts exactly the spellings of an entropy, derives the secret from the
canonical one, and writes no byte outside of its buffers. -/
theorem master_secret_of_mnemonic (wl : WordList) (shim : CryptoShim)
    (hkdf : ∀ m, ∃ seed, shim.kdfPbkdf2Sha512 m bip39Salt bip39Rounds bip39SeedSize = .ok seed ∧
      seed.length = bip39SeedSize) :
    (∀ (e : Entropy) d, shim.sha256 e.val = .ok d →
      ∃ m, bip39FromEntropy wl shim e bip39MnemonicCap = .ok m ∧ ∀ secret cap,
        (bip39ToMasterSecret wl shim (some m) (some secret) cap).1 = .ok ()) ∧
    (∀ words secret cap,
      (bip39ToMasterSecret wl shim (some words) (some secret) cap).1 = .ok () ↔
        ∃ e, bip39FromEntropy wl shim e bip39MnemonicCap = .ok (normalForm isSpace 32 (cstr words))) ∧
    (∀ e e' m, bip39FromEntropy wl shim e bip39MnemonicCap = .ok m →
      bip39FromEntropy wl shim e' bip39MnemonicCap = .ok m → e = e') ∧
    (∀ words secret cap seed,
      (bip39ToMasterSecret wl shim (some words) (some secret) cap).1 = .ok () →
      shim.kdfPbkdf2Sha512 (normalForm isSpace 32 (cstr words)) (lit "mnemonic") 2048 64 = .ok seed →
      ∃ s, (bip39ToMasterSecret wl shim (some words) (some secret) cap).2.1 = some s ∧
        hexText s = ((hexText seed).drop 1).take 64) ∧
    (∀ words secret cap, (bip39ToMasterSecret wl shim words secret cap).1 ≠ .ok () →
      (bip39ToMasterSecret wl shim words secret cap).2.1 = secret) ∧
    ∀ words secret cap, (bip39ToMasterSecret wl shim words secret cap).1 ≠ .error .overrun := by
  have haccept : ∀ words secret cap,
      (bip39ToMasterSecret wl shim (some words) (some secret) cap).1 = .ok () ↔
        Spelled wl shim (normalForm isSpace 32 (cstr words)) := by
    intro words secret cap
    have h := @toMasterSecret_spec wl shim words secret cap
    constructor
    · exact fun hok => (h.1 hok).1
    · intro hs
      by_contra hne
      obtain ⟨rc, hrc⟩ := (h.2 hne).2.2 hs
      obtain ⟨seed, hseed, -⟩ := hkdf (normalForm isSpace 32 (cstr words))
      rw [hrc] at hseed
      cases hseed
  refine ⟨?_, haccept, fun e e' m h h' => fromEntropy_injective h h', ?_, ?_, ?_⟩
  · intro e d hd
    refine ⟨_, fromEntropy_eq hd, fun secret cap => (haccept _ _ _).mpr ⟨e, ?_⟩⟩
    obtain ⟨_, ws, -, hp, hm⟩ := fromEntropy_iff.mp (@fromEntropy_eq wl shim e d hd)
    have hz : NoZero (join 32 ws) := by
      intro c hc
      rcases mem_join hc with rfl | ⟨w, hw, hc⟩
      · decide
      · exact wl.noZero w (hp.mem w hw) c hc
    rw [hm, cstr_of_no_zero hz,
      normalForm_join isSpace_space fun w hw => wl.isWord w (hp.mem w hw), ← hm]
    exact fromEntropy_eq hd
  · intro words secret cap seed hok hseed
    obtain ⟨-, seed', hseed', hs⟩ := (toMasterSecret_spec words secret cap).1 hok
    obtain ⟨seed₂, hseed₂, hlen⟩ := hkdf (normalForm isSpace 32 (cstr words))
    have h1 : seed = seed' := Except.ok.inj (hseed.symm.trans hseed')
    have h2 : seed = seed₂ := Except.ok.inj (hseed.symm.trans hseed₂)
    exact ⟨_, hs, by rw [← h1, hexText_shiftSeed (h2 ▸ hlen)]⟩
  · intro words secret cap hne
    cases words with
    | none => rfl
    | some words =>
      cases secret with
      | none => rfl
      | some secret => exact ((toMasterSecret_spec words secret cap).2 hne).1
  · intro words secret cap hover
    cases words with
    | none => cases hover
    | some words =>
      cases secret with
      | none => cases hover
      | some secret =>
        have hne : (bip39ToMasterSecret wl shim (some words) (some secret) cap).1 ≠ .ok () := by
          rw [hover]
          exact fun he => nomatch he
        exact ((toMasterSecret_spec words secret cap).2 hne).2.1 hover

section
/-- Three letters that count. -/
def letters3 (i : Nat) : Bytes :=
  [UInt8.ofNat (97 + i / 676), UInt8.ofNat (97 + i / 26 % 26), UInt8.ofNat (97 + i % 26)]

theorem letters3_lt {i j : Nat} (hij : i < j) (hj : j < 17576) : letters3 i < letters3 j := by
  have hlt : ∀ {a b : Nat}, a < b → b < 26 → UInt8.ofNat (97 + a) < UInt8.ofNat (97 + b) := by
    intro a b hab hb
    have hsize : UInt8.size = 256 := rfl
    exact (UInt8.ofNat_lt_iff_lt (by omega) (by omega)).mpr (by omega)
  unfold letters3
  rcases Nat.lt_or_ge (i / 676) (j / 676) with h | h
  · exact List.cons_lt_cons_iff.mpr (.inl (hlt h (by omega)))
  · have h1 : i / 676 = j / 676 := by omega
    refine List.cons_lt_cons_iff.mpr (.inr ⟨by rw [h1], ?_⟩)
    rcases Nat.lt_or_ge (i / 26 % 26) (j / 26 % 26) with h | h
    · exact List.cons_lt_cons_iff.mpr (.inl (hlt h (by omega)))
    · have h2 : i / 26 % 26 = j / 26 % 26 := by omega
      refine List.cons_lt_cons_iff.mpr (.inr ⟨by rw [h2], ?_⟩)
      exact List.cons_lt_cons_iff.mpr (.inl (hlt (by omega) (by omega)))

theorem letters3_letter {i : Nat} (hi : i < 17576) : ∀ c ∈ letters3 i, 97 ≤ c ∧ c ≤ 122 := by
  have h : ∀ {a : Nat}, a < 26 → 97 ≤ UInt8.ofNat (97 + a) ∧ UInt8.ofNat (97 + a) ≤ 122 := by decide
  intro c hc
  simp only [letters3, List.mem_cons, List.not_mem_nil, or_false] at hc
  rcases hc with rfl | rfl | rfl
  · exact h (by omega)
  · exact h (by omega)
  · exact h (by omega)

/-- A list with the standard's words in two places, and letters that count in the others. -/
def sampleList : List Bytes :=
  lit "abandon" :: ((List.range 101).map fun i => lit "ac" ++ letters3 i) ++
    lit "art" :: (List.range 1945).map fun i => lit "b" ++ letters3 i

theorem lit_append_lt (p : Bytes) {a b : Bytes} (h : a < b) : p ++ a < p ++ b := by
  induction p with
  | nil => exact h
  | cons c p ih => exact List.cons_lt_cons_iff.mpr (.inr ⟨rfl, ih⟩)

theorem numbered_sorted (p : Bytes) {n : Nat} (hn : n < 17576) :
    ((List.range n).map fun i => p ++ letters3 i).Pairwise (· < ·) := by
  refine List.pairwise_map.mpr (List.pairwise_lt_range.imp_of_mem fun {i j} _ hj hij => ?_)
  have hjn := List.mem_range.mp hj
  exact lit_append_lt p (letters3_lt hij (by omega))

theorem sampleList_sorted : sampleList.Pairwise (· < ·) := by
  have hac : ∀ x, lit "ac" ++ x < lit "art" := by
    intro x
    have hlt : (99 : UInt8) < 114 := by decide
    exact List.cons_lt_cons_iff.mpr (.inr ⟨rfl, List.cons_lt_cons_iff.mpr (.inl hlt)⟩)
  have hb : ∀ x y, 97 :: x < lit "b" ++ y := by
    intro x y
    have hlt : (97 : UInt8) < 98 := by decide
    exact List.cons_lt_cons_iff.mpr (.inl hlt)
  have hab : ∀ x, lit "abandon" < lit "ac" ++ x := by
    intro x
    have hlt : (98 : UInt8) < 99 := by decide
    exact List.cons_lt_cons_iff.mpr (.inr ⟨rfl, List.cons_lt_cons_iff.mpr (.inl hlt)⟩)
  refine List.pairwise_append.mpr ⟨?_, ?_, ?_⟩
  · refine List.pairwise_cons.mpr ⟨fun w hw => ?_, numbered_sorted _ (by decide)⟩
    obtain ⟨i, -, rfl⟩ := List.mem_map.mp hw
    exact hab _
  · refine List.pairwise_cons.mpr ⟨fun w hw => ?_, numbered_sorted _ (by decide)⟩
    obtain ⟨i, -, rfl⟩ := List.mem_map.mp hw
    exact hb _ _
  · intro v hv w hw
    have hv : ∃ x, v = 97 :: x ∧ v < lit "art" := by
      rcases List.mem_cons.mp hv with rfl | hv
      · exact ⟨_, rfl, by decide⟩
      · obtain ⟨i, -, rfl⟩ := List.mem_map.mp hv
        exact ⟨_, rfl, hac _⟩
    obtain ⟨x, rfl, hart⟩ := hv
    rcases List.mem_cons.mp hw with rfl | hw
    · exact hart
    · obtain ⟨i, -, rfl⟩ := List.mem_map.mp hw
      exact hb _ _

def sampleWords : WordList where
  words := sampleList
  size := by simp [sampleList]
  lengths := by
    intro w hw
    simp only [sampleList, List.mem_append, List.mem_cons, List.mem_map] at hw
    rcases hw with (rfl | ⟨i, -, rfl⟩) | rfl | ⟨i, -, rfl⟩
    · decide
    · have h : (lit "ac" ++ letters3 i).length = 5 := rfl
      omega
    · decide
    · have h : (lit "b" ++ letters3 i).length = 4 := rfl
      omega
  letters := by
    have ac : ∀ c ∈ lit "ac", 97 ≤ c ∧ c ≤ 122 := by decide +kernel
    have b : ∀ c ∈ lit "b", 97 ≤ c ∧ c ≤ 122 := by decide +kernel
    intro w hw c hc
    simp only [sampleList, List.mem_append, List.mem_cons, List.mem_map, List.mem_range] at hw
    rcases hw with (rfl | ⟨i, hi, rfl⟩) | rfl | ⟨i, hi, rfl⟩
    · revert c
      decide +kernel
    · rcases List.mem_append.mp hc with hc | hc
      · exact ac c hc
      · exact letters3_letter (by omega) c hc
    · revert c
      decide +kernel
    · rcases List.mem_append.mp hc with hc | hc
      · exact b c hc
      · exact letters3_letter (by omega) c hc
  sorted := sampleList_sorted

def zeroEntropy : Entropy := ⟨List.replicate 32 0, rfl⟩

/-- The digest of the zero entropy. -/
def zeroDigest : Bytes :=
  [0x66, 0x68, 0x7a, 0xad, 0xf8, 0x62, 0xbd, 0x77, 0x6c, 0x8f, 0xc1, 0x8b, 0x8e, 0x9f, 0x8e, 0x20,
  0x08, 0x97, 0x14, 0x85, 0x6e, 0xe2, 0x33, 0xb3, 0x90, 0x2a, 0x59, 0x1d, 0x0d, 0x5f, 0x29, 0x25]

/-- The canonical words of the zero entropy. -/
def zeroMnemonic : Bytes := join 32 (List.replicate 23 (lit "abandon") ++ [lit "art"])

/-- The seed of these words. -/
def zeroSeed : Bytes :=
  [0x40, 0x8b, 0x28, 0x5c, 0x12, 0x38, 0x36, 0x00, 0x4f, 0x4b, 0x88, 0x42, 0xc8, 0x93, 0x24, 0xc1,
  0xf0, 0x13, 0x82, 0x45, 0x0c, 0x0d, 0x43, 0x9a, 0xf3, 0x45, 0xba, 0x7f, 0xc4, 0x9a, 0xcf, 0x70,
  0x54, 0x89, 0xc6, 0xfc, 0x77, 0xdb, 0xd4, 0xe3, 0xdc, 0x1d, 0xd8, 0xcc, 0x6b, 0xc9, 0xf0, 0x43,
  0xdb, 0x8a, 0xda, 0x1e, 0x24, 0x3c, 0x4a, 0x0e, 0xaf, 0xb2, 0x90, 0xd3, 0x99, 0x48, 0x08, 0x40]

/-- Digests that are known for the zero entropy only. -/
def sampleShim : CryptoShim where
  sha256 b := if b = zeroEntropy.val then .ok zeroDigest else .ok (List.replicate 32 0)
  kdfPbkdf2Sha512 p _ _ _ := if p = zeroMnemonic then .ok zeroSeed else .ok (List.replicate 64 0)

/-- The words of the zero entropy between other white space. -/
def messyMnemonic : Bytes :=
  lit "  " ++ join 9 (List.replicate 23 (lit "abandon")) ++ lit " \n   art \n"

/-- The secret of the zero entropy's words, however they are spaced. -/
theorem zero_mnemonic_secret : (bip39ToMasterSecret sampleWords sampleShim (some messyMnemonic)
      (some []) 0).1 = .ok () ∧
    ∃ s, (bip39ToMasterSecret sampleWords sampleShim (some messyMnemonic) (some []) 0).2.1 = some s ∧
      hexText s = lit "08b285c123836004f4b8842c89324c1f01382450c0d439af345ba7fc49acf705" := by
  have hzero : ∀ {m}, m = zeroMnemonic →
      sampleShim.kdfPbkdf2Sha512 m (lit "mnemonic") 2048 64 = .ok zeroSeed := fun hm => if_pos hm
  have hkdf : ∀ m, ∃ seed, sampleShim.kdfPbkdf2Sha512 m bip39Salt bip39Rounds bip39SeedSize = .ok seed ∧
      seed.length = bip39SeedSize := by
    intro m
    by_cases hm : m = zeroMnemonic
    · exact ⟨zeroSeed, hzero hm, rfl⟩
    · exact ⟨List.replicate 64 0, if_neg hm, rfl⟩
  obtain ⟨-, haccept, -, hsecret, -⟩ := master_secret_of_mnemonic sampleWords sampleShim hkdf
  have hform : normalForm isSpace 32 (cstr messyMnemonic) = zeroMnemonic := by decide +kernel
  have hspelled : bip39FromEntropy sampleWords sampleShim zeroEntropy bip39MnemonicCap =
      .ok zeroMnemonic := by
    decide +kernel
  have hok := (haccept messyMnemonic [] 0).mpr ⟨zeroEntropy, hform ▸ hspelled⟩
  refine ⟨hok, ?_⟩
  have hseed : sampleShim.kdfPbkdf2Sha512 (normalForm isSpace 32 (cstr messyMnemonic))
      (lit "mnemonic") 2048 64 = .ok zeroSeed := hzero hform
  obtain ⟨s, hs, hhex⟩ := hsecret messyMnemonic [] 0 zeroSeed hok hseed
  refine ⟨s, hs, hhex.trans ?_⟩
  decide +kernel

end

end EncedoHem
