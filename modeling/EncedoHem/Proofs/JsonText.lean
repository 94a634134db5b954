import EncedoHem.Json

namespace EncedoHem
open Text

/-- How a byte comes out in a literal: as itself, as a letter or as its number after a backslash. -/
inductive Printed : UInt8 → Bytes → Prop where
  | plain (c : UInt8) (h : c ≠ 92) (h' : c ≠ 34) : Printed c [c]
  | letter (c e : UInt8) (h : e ≠ 117) (he : escaped e = some c) : Printed c [92, e]
  | number (c x y : UInt8) (hx : x ≠ 92 ∧ x ≠ 34) (hy : y ≠ 92 ∧ y ≠ 34) (hv : parseHex4 [48, 48, x, y] = c.toNat)
      (hc : c.toNat < 32) : Printed c [92, 117, 48, 48, x, y]

/-- The digits of the number of a control byte. -/
theorem control_digits (n : Fin 32) (c : UInt8) (hc : c = UInt8.ofNat n) :
    Printed c [92, 117, 48, 48, if c < 16 then 48 else 49, (lit "0123456789abcdef").getD (c.toNat % 16) 48] := by
  have hall : ∀ n : Fin 32, (if UInt8.ofNat n < 16 then (48 : UInt8) else 49) ≠ 92 ∧
      (if UInt8.ofNat n < 16 then (48 : UInt8) else 49) ≠ 34 ∧
      (lit "0123456789abcdef").getD ((UInt8.ofNat n).toNat % 16) 48 ≠ 92 ∧
      (lit "0123456789abcdef").getD ((UInt8.ofNat n).toNat % 16) 48 ≠ 34 ∧
      parseHex4 [48, 48, if UInt8.ofNat n < 16 then 48 else 49,
        (lit "0123456789abcdef").getD ((UInt8.ofNat n).toNat % 16) 48] = (UInt8.ofNat n).toNat ∧
      (UInt8.ofNat n).toNat < 32 := by
    decide +kernel
  obtain ⟨hx, hx', hy, hy', hv, hlt⟩ := hall n
  subst hc
  exact .number _ _ _ ⟨hx, hx'⟩ ⟨hy, hy'⟩ hv hlt

theorem printByte_printed (c : UInt8) : Printed c (printByte c) := by
  unfold printByte
  split
  · rename_i h
    exact h ▸ .letter 92 92 (by decide) (by decide)
  split
  · rename_i h
    exact h ▸ .letter 34 34 (by decide) (by decide)
  split
  · rename_i h
    exact h ▸ .letter 8 98 (by decide) (by decide)
  split
  · rename_i h
    exact h ▸ .letter 12 102 (by decide) (by decide)
  split
  · rename_i h
    exact h ▸ .letter 10 110 (by decide) (by decide)
  split
  · rename_i h
    exact h ▸ .letter 13 114 (by decide) (by decide)
  split
  · rename_i h
    exact h ▸ .letter 9 116 (by decide) (by decide)
  split
  · rename_i h
    have hc : c.toNat < 32 := Nat.lt_succ_of_le (UInt8.le_iff_toNat_le.mp h)
    exact control_digits ⟨c.toNat, hc⟩ c (UInt8.ofNat_toNat).symm
  · rename_i h92 h34 _ _ _ _ _ _
    exact .plain c h92 h34

theorem Printed.length {c : UInt8} {text : Bytes} (h : Printed c text) : 1 ≤ text.length := by
  cases h with
  | plain _ _ => exact Nat.le_refl 1
  | letter e _ _ => exact Nat.le_add_left 1 1
  | number x y _ _ _ _ => exact Nat.le_add_left 1 5

/-- The literal goes on behind a byte as it goes on by itself. -/
theorem literalEnd_printed {c : UInt8} {text : Bytes} (h : Printed c text) (rest : Bytes) :
    literalEnd (text ++ rest) = (literalEnd rest).map fun (l, r) => (text ++ l, r) := by
  have hplain : ∀ (x : UInt8) (b : Bytes), x ≠ 92 → x ≠ 34 →
      literalEnd (x :: b) = (literalEnd b).map fun (l, r) => (x :: l, r) := by
    intro x b h92 h34
    rw [literalEnd]
    · exact h34
    · intro _ _ hx
      exact absurd hx h92
    · intro hx
      exact absurd hx h92
  cases h with
  | plain h h' => exact hplain c rest h h'
  | letter e _ _ => rfl
  | number x y hx hy _ _ =>
    show (literalEnd (48 :: 48 :: x :: y :: rest)).map _ = _
    rw [hplain 48 _ (by decide) (by decide), hplain 48 _ (by decide) (by decide), hplain x _ hx.1 hx.2,
      hplain y _ hy.1 hy.2]
    cases literalEnd rest with
    | none => rfl
    | some p => rfl

theorem unescape_printed {c : UInt8} {text : Bytes} (h : Printed c text) (fuel : Nat) (rest : Bytes) :
    unescape (fuel + 1) (text ++ rest) = (unescape fuel rest).map (c :: ·) := by
  cases h with
  | plain h _ =>
    exact if_pos h
  | letter e h he =>
    show unescape (fuel + 1) (92 :: e :: rest) = _
    rw [unescape, if_neg (by decide)]
    dsimp only
    rw [if_neg h, he]
    rfl
  | number x y _ _ hv hc =>
    have hhex : parseHex4 (48 :: 48 :: x :: y :: rest) = c.toNat := hv
    have hone : utf8 c.toNat = [c] := by
      unfold utf8
      rw [if_pos (by omega), UInt8.ofNat_toNat]
    have hliteral : utf16LiteralToUtf8 (92 :: 117 :: 48 :: 48 :: x :: y :: rest) = some ([c], 6) := by
      unfold utf16LiteralToUtf8
      simp only [List.length_cons, List.drop_succ_cons, List.drop_zero, hhex, hone]
      rw [if_neg (by omega), if_neg (by omega), if_neg (by omega)]
    show unescape (fuel + 1) (92 :: 117 :: 48 :: 48 :: x :: y :: rest) = _
    rw [unescape, if_neg (by decide)]
    dsimp only
    rw [if_pos rfl, hliteral]
    rfl

/-- The literal ends at its closing quote: induction on what it was printed from. -/
theorem literalEnd_flatMap (s rest : Bytes) :
    literalEnd (s.flatMap printByte ++ 34 :: rest) = some (s.flatMap printByte, rest) := by
  induction s with
  | nil => rfl
  | cons c s ih =>
    rw [List.flatMap_cons, List.append_assoc, literalEnd_printed (printByte_printed c), ih]
    rfl

theorem unescape_flatMap (s : Bytes) {fuel : Nat} (hf : s.length ≤ fuel) :
    unescape fuel (s.flatMap printByte) = some s := by
  induction s generalizing fuel with
  | nil => cases fuel <;> rfl
  | cons c s ih =>
    obtain ⟨fuel, rfl⟩ : ∃ n, fuel = n + 1 := ⟨fuel - 1, by simp at hf; omega⟩
    rw [List.flatMap_cons, unescape_printed (printByte_printed c), ih (by simpa using hf)]
    rfl

theorem length_flatMap_printByte (s : Bytes) : s.length ≤ (s.flatMap printByte).length := by
  induction s with
  | nil => exact Nat.le_refl 0
  | cons c s ih =>
    have hone := (printByte_printed c).length
    rw [List.flatMap_cons, List.length_append, List.length_cons]
    omega

/-- A C string is read back as it was printed. -/
theorem parseString_printString {s : Bytes} (h : ∀ c ∈ s, c ≠ 0) (rest : Bytes) :
    parseString (printString s ++ rest) = some (s, rest) := by
  have htext : printString s ++ rest = 34 :: (s.flatMap printByte ++ 34 :: rest) := by
    simp [printString, lit]
  rw [htext, parseString, literalEnd_flatMap]
  show ((unescape _ (s.flatMap printByte)).bind fun t => some (cstr t, rest)) = _
  rw [unescape_flatMap s (length_flatMap_printByte s), Option.bind_some, cstr_of_no_zero h]

/-- Members that hold C strings under C strings. -/
def Strings (ms : List (Bytes × Json)) : Prop :=
  ∀ m ∈ ms, (∀ c ∈ m.1, c ≠ 0) ∧ ∃ v : Bytes, m.2 = .str v ∧ ∀ c ∈ v, c ≠ 0

theorem printString_eq (s rest : Bytes) :
    printString s ++ rest = 34 :: (s.flatMap printByte ++ 34 :: rest) := by
  simp [printString, lit]

/-- A value that starts like none of the three literal names is told by its first byte. -/
theorem parseValue_cons {c : UInt8} (hc : c ≠ 110 ∧ c ≠ 102 ∧ c ≠ 116) (fuel depth : Nat) (rest : Bytes) :
    parseValue (fuel + 1) depth (c :: rest) =
      if c = 34 then (parseString (c :: rest)).map fun (s, r) => (.str s, r)
      else if c = 45 ∨ Double.isDigit c then parseNumber (c :: rest)
      else if c = 91 then parseArray fuel depth rest
      else if c = 123 then parseObject fuel depth rest
      else none := by
  obtain ⟨hn, hf, ht⟩ := hc
  rw [parseValue, if_neg (by simp [lit, hn.symm]), if_neg (by simp [lit, hf.symm]),
    if_neg (by simp [lit, ht.symm])]

theorem parseValue_str {v : Bytes} (h : ∀ c ∈ v, c ≠ 0) (fuel depth : Nat) (rest : Bytes) :
    parseValue (fuel + 1) depth (printString v ++ rest) = some (.str v, rest) := by
  have hstring := parseString_printString h rest
  rw [printString_eq] at *
  rw [parseValue_cons (by decide), if_pos rfl, hstring]
  rfl

/-- A member that is a string, and what its comma or the closing brace makes of it. -/
theorem parseMembers_str {name v : Bytes} (hname : ∀ c ∈ name, c ≠ 0) (hv : ∀ c ∈ v, c ≠ 0)
    (fuel depth : Nat) (rest : Bytes) :
    parseMembers (fuel + 2) depth (printString name ++ 58 :: (printString v ++ rest)) =
      match skipWhitespace rest with
      | 44 :: rest =>
        (parseMembers (fuel + 1) depth (skipWhitespace rest)).map fun (ms, r) => ((name, .str v) :: ms, r)
      | 125 :: rest => some ([(name, .str v)], rest)
      | _ => none := by
  have hcolon : skipWhitespace (58 :: (printString v ++ rest)) = 58 :: (printString v ++ rest) := rfl
  have hquote : skipWhitespace (printString v ++ rest) = printString v ++ rest := by
    rw [printString_eq]
    rfl
  rw [parseMembers, parseString_printString hname]
  simp only [hcolon, hquote, parseValue_str hv]
  all_goals rfl

/-- Printed members start with a quote. -/
theorem printMembers_head {ms : List (Bytes × Json)} (hne : ms ≠ []) : ∃ t, printMembers ms = 34 :: t := by
  match ms with
  | [] => exact absurd rfl hne
  | [(k, v)] => exact ⟨_, rfl⟩
  | (k, v) :: m :: ms => exact ⟨_, rfl⟩

theorem skipWhitespace_printMembers {ms : List (Bytes × Json)} (hne : ms ≠ []) (rest : Bytes) :
    skipWhitespace (printMembers ms ++ rest) = printMembers ms ++ rest := by
  obtain ⟨t, ht⟩ := printMembers_head hne
  rw [ht]
  rfl

/-- Members are read back as they were printed: induction on them. -/
theorem parseMembers_printMembers {ms : List (Bytes × Json)} (hne : ms ≠ []) (h : Strings ms) {fuel : Nat}
    (hf : ms.length ≤ fuel) (depth : Nat) (rest : Bytes) :
    parseMembers (fuel + 1) depth (printMembers ms ++ 125 :: rest) = some (ms, rest) := by
  induction ms generalizing fuel with
  | nil => exact absurd rfl hne
  | cons m ms ih =>
    obtain ⟨name, v⟩ := m
    obtain ⟨hname, v, rfl, hv⟩ := h _ List.mem_cons_self
    obtain ⟨fuel, rfl⟩ : ∃ n, fuel = n + 1 := ⟨fuel - 1, by simp at hf; omega⟩
    cases ms with
    | nil =>
      have htext : printMembers [(name, .str v)] ++ 125 :: rest =
          printString name ++ 58 :: (printString v ++ 125 :: rest) := by
        simp [printMembers, printValue, lit]
      rw [htext, parseMembers_str hname hv]
      rfl
    | cons m ms =>
      have htext : printMembers ((name, .str v) :: m :: ms) ++ 125 :: rest =
          printString name ++ 58 :: (printString v ++ 44 :: (printMembers (m :: ms) ++ 125 :: rest)) := by
        simp [printMembers, printValue, lit]
      have hmore := ih (List.cons_ne_nil m ms) (fun n hn => h n (List.mem_cons_of_mem _ hn)) (by simpa using hf)
      rw [htext, parseMembers_str hname hv]
      show (parseMembers _ depth (skipWhitespace (printMembers (m :: ms) ++ 125 :: rest))).map _ = _
      rw [skipWhitespace_printMembers (List.cons_ne_nil m ms), hmore]
      rfl

theorem length_printMembers (ms : List (Bytes × Json)) : ms.length ≤ (printMembers ms).length := by
  induction ms with
  | nil => exact Nat.zero_le _
  | cons m ms ih =>
    obtain ⟨k, v⟩ := m
    cases ms with
    | nil => simp [printMembers, printString, lit]
    | cons m ms =>
      have hcomma : (lit ",").length = 1 := rfl
      simp only [printMembers, List.length_append, List.length_cons] at *
      omega

/-- An object of strings is read back as it was printed. -/
theorem jsonParse_printValue {ms : List (Bytes × Json)} (hne : ms ≠ []) (h : Strings ms) :
    jsonParse (printValue (.obj ms)) = some (.obj ms) := by
  have htext : printValue (.obj ms) = 123 :: (printMembers ms ++ [125]) := by
    simp [printValue, lit]
  obtain ⟨t, ht⟩ := printMembers_head hne
  have hbom : skipWhitespace (skipUtf8Bom (123 :: (printMembers ms ++ [125]))) =
      123 :: (printMembers ms ++ [125]) := by
    unfold skipUtf8Bom
    rw [if_neg (by simp)]
    rfl
  have hlen := length_printMembers ms
  obtain ⟨fuel, hfuel, hf⟩ : ∃ n, 3 * (123 :: (printMembers ms ++ [125])).length + 3 = n + 3 ∧ ms.length ≤ n :=
    ⟨_, rfl, by simp; omega⟩
  have hmembers := parseMembers_printMembers hne h hf 1 []
  unfold jsonParse
  rw [htext, hbom, hfuel, parseValue_cons (by decide)]
  have hobject : parseObject (fuel + 2) 0 (printMembers ms ++ [125]) = some (.obj ms, []) := by
    rw [parseObject, if_neg (by decide), skipWhitespace_printMembers hne]
    rw [ht] at *
    show (parseMembers (fuel + 1) 1 (34 :: t ++ [125])).map _ = _
    rw [hmembers]
    rfl
  show (parseObject (fuel + 2) 0 (printMembers ms ++ [125])).map _ = _
  rw [hobject]
  rfl

end EncedoHem
