import EncedoHem.Proofs.Mnemonic

namespace EncedoHem
open Text

/-- The words of a list as memory holds them. -/
def tableOf (words : List Bytes) : List Bytes := words.map (· ++ [0])

/-- Two strings differ before either of them ends, the shorter one at its zero at the latest:
what lies behind them is not read. -/
theorem strncmpMem_eq {w c rest : Bytes} (hw : NoZero w) (hc : NoZero c) :
    strncmpMem w.length (w ++ rest) (c ++ [0]) = some (strncmp w.length w c) ∧
      (strncmp w.length w c = .eq → w.length ≤ c.length) := by
  induction w generalizing c with
  | nil => exact ⟨rfl, fun _ => Nat.zero_le _⟩
  | cons x w ih =>
    have hx : x ≠ 0 := hw x List.mem_cons_self
    cases c with
    | nil =>
      have h0 : ¬x < 0 := UInt8.not_lt_zero
      have h1 : 0 < x := UInt8.pos_iff_ne_zero.mpr hx
      simp only [List.length_cons, List.cons_append, List.nil_append, strncmpMem, strncmp_nil, if_neg h0, if_pos h1]
      exact ⟨trivial, fun h => nomatch h⟩
    | cons y c =>
      obtain ⟨hmem, hlen⟩ := ih hw.tail hc.tail
      simp only [List.length_cons, List.cons_append, strncmpMem, strncmp_cons, if_neg hx, hmem]
      by_cases h1 : x < y
      · simp only [if_pos h1]
        exact ⟨trivial, fun h => nomatch h⟩
      · by_cases h2 : y < x
        · simp only [if_neg h1, if_pos h2]
          exact ⟨trivial, fun h => nomatch h⟩
        · simp only [if_neg h1, if_neg h2]
          exact ⟨trivial, fun h => Nat.succ_le_succ (hlen h)⟩

theorem compareWordMem_eq {w c rest : Bytes} (hw : NoZero w) (hc : NoZero c) :
    compareWordMem (w ++ rest) w.length (c ++ [0]) = some (compareWord w c) := by
  obtain ⟨hmem, hlen⟩ : _ ∧ _ := strncmpMem_eq hw hc
  unfold compareWordMem compareWord
  rw [hmem]
  cases hcmp : strncmp w.length w c with
  | lt => rfl
  | gt => rfl
  | eq =>
    -- the whole of `w` has been matched, so the byte behind it is still the word's
    have hle := hlen hcmp
    have hnext : (c ++ [0])[w.length]? = some (c.getD w.length 0) := by
      rcases Nat.lt_or_eq_of_le hle with h | h
      · rw [List.getElem?_append_left h, List.getD_eq_getElem?_getD, List.getElem?_eq_getElem h]
        rfl
      · rw [h, List.getElem?_append_right (Nat.le_refl _), Nat.sub_self, List.getD_eq_getElem?_getD,
          List.getElem?_eq_none (Nat.le_refl _)]
        rfl
    simp only [Option.bind_eq_bind, Option.bind_some, if_true, hnext]

theorem tableEntry_tableOf {words : List Bytes} {m : Nat} (h : m < words.length) :
    tableEntry (tableOf words) m = some (words[m] ++ [0]) := by
  have hneg : ¬(m : Int) < 0 := by omega
  rw [tableEntry, if_neg hneg, Int.toNat_natCast, tableOf, List.getElem?_map, List.getElem?_eq_getElem h]
  rfl

/-- What the search hands back for a place, and for none. -/
def placeCode : Option Nat → Int
  | some i => i
  | none => -1

theorem placeCode_eq_place {o : Option Nat} {i : Nat} : placeCode o = i ↔ o = some i := by
  cases o with
  | none => simp [placeCode]
  | some j => simp [placeCode]

theorem placeCode_eq_none {o : Option Nat} : placeCode o = -1 ↔ o = none := by
  cases o with
  | none => simp [placeCode]
  | some j => simp [placeCode]

/-- As long as the rounds outnumber the words between the bounds, the search over memory is
the search over the words. Induction on the rounds; the bounds never leave the table. -/
theorem wordIndexMemLoop_eq {words : List Bytes} {w rest : Bytes} (hz : ∀ c ∈ words, NoZero c) (hw : NoZero w)
    {rounds : Nat} {lo hi : Int} (hlo : 0 ≤ lo) (hlh : lo ≤ hi + 1) (hhi : hi < words.length)
    (hr : hi - lo + 1 < rounds) :
    wordIndexMemLoop (tableOf words) (w ++ rest) w.length rounds lo hi =
      some (placeCode (wordIndexLoop words w rounds lo hi)) := by
  induction rounds generalizing lo hi with
  | zero => omega
  | succ rounds ih =>
    rw [wordIndexMemLoop, wordIndexLoop]
    split
    · rfl
    · rename_i hle
      generalize hm : lo + (hi - lo) / 2 = mid
      dsimp only
      have hmid : lo ≤ mid ∧ mid ≤ hi := by omega
      obtain ⟨m, rfl⟩ := Int.eq_ofNat_of_zero_le (Int.le_trans hlo hmid.1)
      have hml : m < words.length := by omega
      have hget : words.getD (m : Int).toNat [] = words[m] := by
        rw [Int.toNat_natCast, List.getD_eq_getElem?_getD, List.getElem?_eq_getElem hml]
        rfl
      rw [tableEntry_tableOf hml, hget]
      simp only [Option.bind_eq_bind, Option.bind_some, compareWordMem_eq hw (hz words[m] (List.getElem_mem hml))]
      cases compareWord w words[m] with
      | eq => rfl
      | lt => exact ih hlo (by omega) (by omega) (by omega)
      | gt => exact ih (by omega) (by omega) hhi (by omega)

theorem wordIndexMem_eq {words : List Bytes} {w rest : Bytes} (hz : ∀ c ∈ words, NoZero c) (hw : NoZero w) :
    wordIndexMem (tableOf words) (w ++ rest) w.length = some (placeCode (wordIndex words w)) := by
  have hlen : (tableOf words).length = words.length := List.length_map ..
  unfold wordIndexMem wordIndex
  rw [hlen]
  exact wordIndexMemLoop_eq hz hw (by omega) (by omega) (by omega) (by omega)

/-- The search of a sorted table comes to an end without a read outside of its words, whatever
lies behind the bytes searched for. It returns the place of the word that they are in full, and
`-1` when there is none. -/
theorem word_search_total (words : List Bytes) (hs : words.Pairwise (· < ·)) (hz : ∀ c ∈ words, NoZero c)
    (w rest : Bytes) (hw : NoZero w) :
    ∃ r : Int, wordIndexMem (tableOf words) (w ++ rest) w.length = some r ∧
      (∀ i : Nat, r = i ↔ words[i]? = some w) ∧ (r = -1 ↔ w ∉ words) := by
  refine ⟨_, wordIndexMem_eq hz hw, fun i => ?_, ?_⟩
  · rw [placeCode_eq_place, wordIndex_eq_some hs hz hw]
  · have hnone : w ∉ words ↔ wordIndex words w = none := by
      rw [Option.eq_none_iff_forall_ne_some, List.mem_iff_getElem?, not_exists]
      exact forall_congr' fun i => not_congr (wordIndex_eq_some hs hz hw).symm
    rw [placeCode_eq_none, hnone]

/-- The word is a proper prefix of the next one, and more letters follow the three given. -/
theorem word_search_small :
    ∃ r : Int, wordIndexMem (tableOf [lit "zoo", lit "zoom", [0xc3, 0xa9]]) (lit "zoo" ++ lit "ms") 3 = some r ∧
      (∀ i : Nat, r = i ↔ [lit "zoo", lit "zoom", [0xc3, 0xa9]][i]? = some (lit "zoo")) ∧
      (r = -1 ↔ lit "zoo" ∉ [lit "zoo", lit "zoom", [0xc3, 0xa9]]) :=
  word_search_total [lit "zoo", lit "zoom", [0xc3, 0xa9]] (by decide) (by decide) (lit "zoo") (lit "ms")
    (by decide)

end EncedoHem
