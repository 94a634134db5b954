import EncedoHem.Base64
import EncedoHem.Lib.Bits

namespace EncedoHem
open Text Bits

/-- The length of the text that an encoding writes. -/
def encodedLen (pad : Bool) (n : Nat) : Nat := if pad then b64StdEncodedLen n else b64urlEncodedLen n

/-- The values that the characters of a text stand for, if all are of the alphabet. -/
def Alphabet.values (α : Alphabet) (text : Bytes) : Option (List Nat) := text.mapM α.rev

/-- The bytes that the loop has written when it stops, whether it succeeds or not. -/
def b64DecodeWritten (α : Alphabet) (cap : Nat) : Bytes → UInt32 → Nat → Bytes → Bytes
  | [], _, _, out => out
  | c :: rest, acc, bits, out =>
    match α.rev c with
    | none => out
    | some v =>
      let acc := acc <<< 6 ||| UInt32.ofNat v
      let bits := bits + 6
      if 8 ≤ bits then
        if cap ≤ out.length then out
        else b64DecodeWritten α cap rest acc (bits - 8)
          (out ++ [UInt8.ofNat (acc >>> UInt32.ofNat (bits - 8) &&& 0xff).toNat])
      else b64DecodeWritten α cap rest acc bits out

namespace Alphabet

theorem rev_char (α : Alphabet) {v : Nat} (h : v < 64) : α.rev (α.chars.getD v 0) = some v := by
  cases α with
  | std => exact (by decide +kernel : ∀ v < 64, Alphabet.std.rev (Alphabet.std.chars.getD v 0) = some v) v h
  | url => exact (by decide +kernel : ∀ v < 64, Alphabet.url.rev (Alphabet.url.chars.getD v 0) = some v) v h

theorem length_chars (α : Alphabet) : α.chars.length = 64 := by
  cases α with
  | std => decide +kernel
  | url => decide +kernel

/-- No character of an alphabet is a zero or the padding. -/
theorem char_ne (α : Alphabet) {c : UInt8} (h : c ∈ α.chars) : c ≠ 0 ∧ c ≠ 61 := by
  cases α with
  | std => exact (by decide +kernel : ∀ c ∈ Alphabet.std.chars, c ≠ 0 ∧ c ≠ 61) c h
  | url => exact (by decide +kernel : ∀ c ∈ Alphabet.url.chars, c ≠ 0 ∧ c ≠ 61) c h

theorem rev_lt {α : Alphabet} {c : UInt8} {v : Nat} (h : α.rev c = some v) : v < 64 := by
  unfold rev at h
  dsimp only at h
  split at h
  · rename_i hi
    rwa [← Option.some.inj h]
  · exact nomatch h

theorem rev_isSome {α : Alphabet} {c : UInt8} : (α.rev c).isSome = true ↔ c ∈ α.chars := by
  have h : α.chars.idxOf c < 64 ↔ c ∈ α.chars := by
    rw [← α.length_chars]
    exact List.idxOf_lt_length_iff
  rw [← h]
  unfold rev
  dsimp only
  split
  · rename_i hi
    exact ⟨fun _ => hi, fun _ => rfl⟩
  · rename_i hi
    exact ⟨(fun hn => nomatch hn), fun hy => absurd hy hi⟩

theorem values_nil (α : Alphabet) : α.values [] = some [] := rfl

theorem values_cons (α : Alphabet) (c : UInt8) (text : Bytes) :
    α.values (c :: text) = (α.rev c).bind fun v => (α.values text).map (v :: ·) := by
  unfold values
  rw [List.mapM_cons]
  cases α.rev c with
  | none => rfl
  | some v =>
    cases List.mapM α.rev text with
    | none => rfl
    | some vs => rfl

theorem values_spec {α : Alphabet} {text : Bytes} {vs : List Nat} (h : α.values text = some vs) :
    vs.length = text.length ∧ ∀ v ∈ vs, v < 64 := by
  induction text generalizing vs with
  | nil =>
    rw [values_nil] at h
    rw [← Option.some.inj h]
    exact ⟨rfl, fun v hv => absurd hv List.not_mem_nil⟩
  | cons c text ih =>
    rw [values_cons] at h
    obtain ⟨v, hv, h⟩ := Option.bind_eq_some_iff.mp h
    obtain ⟨ws, hw, rfl⟩ := Option.map_eq_some_iff.mp h
    obtain ⟨hl, hlt⟩ := ih hw
    refine ⟨by rw [List.length_cons, List.length_cons, hl], fun x hx => ?_⟩
    rcases List.mem_cons.mp hx with rfl | hx
    · exact rev_lt hv
    · exact hlt x hx

theorem values_isSome {α : Alphabet} {text : Bytes} :
    (α.values text).isSome = true ↔ ∀ c ∈ text, c ∈ α.chars := by
  induction text with
  | nil => simp [values_nil]
  | cons c text ih =>
    rw [values_cons, List.forall_mem_cons, ← ih, ← rev_isSome]
    cases hc : α.rev c with
    | none => simp
    | some v => simp

end Alphabet

/-- What the decoder keeps: the bytes written and the accumulator's `bits` lowest
bits are, in order, the bits of all values read. The bits above them are never looked at. -/
structure Pending (read : List Bool) (acc : UInt32) (bits : Nat) (out : Bytes) : Prop where
  few : bits < 8
  text : group 8 (out.map (·.toNat)) ++ bitsOf bits acc.toNat = read

theorem shifted_in {acc : UInt32} {bits v : Nat} (hb : bits < 8) (hv : v < 64) :
    bitsOf (bits + 6) (acc <<< 6 ||| UInt32.ofNat v).toNat = bitsOf bits acc.toNat ++ bitsOf 6 v := by
  have hval : (acc <<< 6 ||| UInt32.ofNat v).toNat = acc.toNat <<< 6 % 2 ^ 32 ||| v := by
    rw [UInt32.toNat_or, UInt32.toNat_shiftLeft, UInt32.toNat_ofNat',
      Nat.mod_eq_of_lt (by omega : v < 2 ^ 32)]
    rfl
  rw [bitsOf_add, hval]
  congr 1
  · refine bitsOf_congr fun i hi => ?_
    have hz : v.testBit (6 + i) = false :=
      Nat.testBit_lt_two_pow (Nat.lt_of_lt_of_le hv (Nat.pow_le_pow_right (n := 2) (by decide) (by omega : 6 ≤ 6 + i)))
    have h32 : 6 + i < 32 := by omega
    rw [Nat.testBit_shiftRight, Nat.testBit_or, Nat.testBit_mod_two_pow, Nat.testBit_shiftLeft, hz]
    simp [h32]
  · refine bitsOf_congr fun i hi => ?_
    have hn : ¬6 ≤ i := by omega
    rw [Nat.testBit_or, Nat.testBit_mod_two_pow, Nat.testBit_shiftLeft]
    simp [hn]

theorem taken_out {acc : UInt32} {r : Nat} (hr : r < 8) :
    bitsOf (8 + r) acc.toNat =
      bitsOf 8 (UInt8.ofNat (acc >>> UInt32.ofNat r &&& 0xff).toNat).toNat ++ bitsOf r acc.toNat := by
  have hval : (acc >>> UInt32.ofNat r &&& 0xff).toNat = (acc.toNat >>> r) % 2 ^ 8 := by
    rw [UInt32.toNat_and, UInt32.toNat_shiftRight, UInt32.toNat_ofNat',
      Nat.mod_eq_of_lt (by omega : r < 2 ^ 32), Nat.mod_eq_of_lt (by omega : r < 32)]
    exact Nat.and_two_pow_sub_one_eq_mod _ 8
  rw [bitsOf_add, hval, UInt8.toNat_ofNat', Nat.mod_mod, bitsOf_mod]

/-- One character without a byte of output. -/
theorem Pending.keep {read : List Bool} {acc : UInt32} {bits v : Nat} {out : Bytes}
    (h : Pending read acc bits out) (hv : v < 64) (hb : bits + 6 < 8) :
    Pending (read ++ bitsOf 6 v) (acc <<< 6 ||| UInt32.ofNat v) (bits + 6) out where
  few := hb
  text := by rw [shifted_in h.few hv, ← h.text, List.append_assoc]

/-- One character that completes a byte. -/
theorem Pending.emit {read : List Bool} {acc : UInt32} {bits v : Nat} {out : Bytes}
    (h : Pending read acc bits out) (hv : v < 64) (hb : 8 ≤ bits + 6) :
    Pending (read ++ bitsOf 6 v) (acc <<< 6 ||| UInt32.ofNat v) (bits + 6 - 8)
      (out ++ [UInt8.ofNat ((acc <<< 6 ||| UInt32.ofNat v) >>>
        UInt32.ofNat (bits + 6 - 8) &&& 0xff).toNat]) where
  few := by have := h.few; omega
  text := by
    have hr : bits + 6 - 8 < 8 := by have := h.few; omega
    have hsum : 8 + (bits + 6 - 8) = bits + 6 := by omega
    have hout := @taken_out (acc <<< 6 ||| UInt32.ofNat v) _ hr
    rw [hsum, shifted_in h.few hv] at hout
    rw [List.map_append, group_append, List.append_assoc]
    show _ ++ (group 8 [_] ++ _) = _
    rw [group_cons, group_nil, List.append_nil, ← hout, ← List.append_assoc, h.text]

/-- The number of bytes written is that of the full groups of eight bits read. -/
theorem Pending.length {read : List Bool} {acc : UInt32} {bits : Nat} {out : Bytes}
    (h : Pending read acc bits out) : out.length = read.length / 8 := by
  have hl := congrArg List.length h.text
  have hb := h.few
  rw [List.length_append, length_group, List.length_map, length_bitsOf] at hl
  omega

/-- And they are these groups. -/
theorem Pending.bytes {read : List Bool} {acc : UInt32} {bits : Nat} {out : Bytes}
    (h : Pending read acc bits out) : ungroup 8 read = out.map (·.toNat) := by
  rw [← h.text]
  refine ungroup_group (by decide) (fun n hn => ?_) (by rw [length_bitsOf]; exact h.few)
  obtain ⟨b, -, rfl⟩ := List.mem_map.mp hn
  exact b.toNat_lt

/-- The loop from any point on: it succeeds exactly when every character is of the
alphabet and the bytes of all bits fit, and then it has read all bits; and it
never writes beyond the capacity. Induction on the text. -/
structure Decodes (α : Alphabet) (cap : Nat) (text : Bytes) (read : List Bool) (acc : UInt32)
    (bits : Nat) (out : Bytes) : Prop where
  good : ∀ vs, α.values text = some vs → (read ++ group 6 vs).length / 8 ≤ cap →
    ∃ acc' bits' out', b64DecodeLoop α cap text acc bits out = some out' ∧
      Pending (read ++ group 6 vs) acc' bits' out'
  only : (b64DecodeLoop α cap text acc bits out).isSome = true →
    ∃ vs, α.values text = some vs ∧ (read ++ group 6 vs).length / 8 ≤ cap
  written : (b64DecodeWritten α cap text acc bits out).length ≤ cap

theorem decodes {α : Alphabet} {cap : Nat} {text : Bytes} {read : List Bool} {acc : UInt32} {bits : Nat}
    {out : Bytes} (h : Pending read acc bits out) (hc : out.length ≤ cap) :
    Decodes α cap text read acc bits out := by
  induction text generalizing read acc bits out with
  | nil =>
    refine ⟨fun vs hv _ => ?_, fun _ => ?_, hc⟩
    · rw [α.values_nil] at hv
      rw [← Option.some.inj hv, group_nil, List.append_nil]
      exact ⟨acc, bits, out, rfl, h⟩
    · refine ⟨[], α.values_nil, ?_⟩
      rw [group_nil, List.append_nil, ← h.length]
      exact hc
  | cons c text ih =>
    cases hr : α.rev c with
    | none =>
      refine ⟨fun vs hv _ => ?_, fun hs => ?_, ?_⟩
      · rw [α.values_cons, hr] at hv
        exact nomatch hv
      · rw [b64DecodeLoop, hr] at hs
        exact nomatch hs
      · rw [b64DecodeWritten, hr]
        exact hc
    | some v =>
      have hv64 : v < 64 := Alphabet.rev_lt hr
      have hassoc : ∀ vs, read ++ group 6 (v :: vs) = read ++ bitsOf 6 v ++ group 6 vs := by
        intro vs
        rw [group_cons, List.append_assoc]
      have hvalues : ∀ vs, α.values (c :: text) = some vs →
          ∃ ws, vs = v :: ws ∧ α.values text = some ws := by
        intro vs hv
        rw [α.values_cons, hr, Option.bind_some] at hv
        obtain ⟨ws, hw, rfl⟩ := Option.map_eq_some_iff.mp hv
        exact ⟨ws, rfl, hw⟩
      have hcons : ∀ ws, α.values text = some ws → α.values (c :: text) = some (v :: ws) := by
        intro ws hw
        rw [α.values_cons, hr, Option.bind_some, hw]
        rfl
      -- what the rest of the text does decides, once the step is made
      have hstep : ∀ (acc' : UInt32) (bits' : Nat) (out' : Bytes),
          b64DecodeLoop α cap (c :: text) acc bits out = b64DecodeLoop α cap text acc' bits' out' →
          b64DecodeWritten α cap (c :: text) acc bits out =
            b64DecodeWritten α cap text acc' bits' out' →
          Decodes α cap text (read ++ bitsOf 6 v) acc' bits' out' →
          Decodes α cap (c :: text) read acc bits out := by
        intro acc' bits' out' hl hw hd
        refine ⟨fun vs hv hfit => ?_, fun hs => ?_, ?_⟩
        · obtain ⟨ws, rfl, hws⟩ := hvalues vs hv
          rw [hassoc] at hfit ⊢
          rw [hl]
          exact hd.good ws hws hfit
        · rw [hl] at hs
          obtain ⟨ws, hws, hfit⟩ := hd.only hs
          exact ⟨v :: ws, hcons ws hws, by rw [hassoc]; exact hfit⟩
        · rw [hw]
          exact hd.written
      by_cases h8 : 8 ≤ bits + 6
      · by_cases hfull : cap ≤ out.length
        · refine ⟨fun vs hv hfit => ?_, fun hs => ?_, ?_⟩
          · obtain ⟨ws, rfl, hws⟩ := hvalues vs hv
            have hl := congrArg List.length h.text
            rw [List.length_append, length_group, List.length_map, length_bitsOf] at hl
            rw [hassoc, List.length_append, List.length_append, length_bitsOf] at hfit
            omega
          · rw [b64DecodeLoop, hr] at hs
            simp only [if_pos h8, if_pos hfull] at hs
            exact nomatch hs
          · rw [b64DecodeWritten, hr]
            simp only [if_pos h8, if_pos hfull]
            exact hc
        · refine hstep _ _ _ ?_ ?_ (ih (h.emit hv64 h8) ?_)
          · rw [b64DecodeLoop, hr]
            simp only [if_pos h8, if_neg hfull]
          · rw [b64DecodeWritten, hr]
            simp only [if_pos h8, if_neg hfull]
          · rw [List.length_append, List.length_singleton]
            omega
      · refine hstep _ _ _ ?_ ?_ (ih (h.keep hv64 (by omega)) hc)
        · rw [b64DecodeLoop, hr]
          simp only [if_neg h8]
        · rw [b64DecodeWritten, hr]
          simp only [if_neg h8]

/-- Where the loop succeeds, what it has written is what it returns. -/
theorem written_of_decoded {α : Alphabet} {cap : Nat} {text : Bytes} {acc : UInt32} {bits : Nat}
    {out result : Bytes} (h : b64DecodeLoop α cap text acc bits out = some result) :
    b64DecodeWritten α cap text acc bits out = result := by
  induction text generalizing acc bits out with
  | nil => exact Option.some.inj h
  | cons c text ih =>
    rw [b64DecodeLoop] at h
    rw [b64DecodeWritten]
    cases hv : α.rev c with
    | none =>
      rw [hv] at h
      exact nomatch h
    | some v =>
      rw [hv] at h
      dsimp only at h ⊢
      split at h
      · rename_i h8
        rw [if_pos h8]
        split at h
        · exact nomatch h
        · rename_i hc
          rw [if_neg hc]
          exact ih h
      · rename_i h8
        rw [if_neg h8]
        exact ih h

theorem Alphabet.rev_sextet (α : Alphabet) (u : UInt32) :
    α.rev (α.char (u &&& 63)) = some (u.toNat % 64) := by
  have hval : (u &&& 63).toNat = u.toNat % 64 := by
    rw [UInt32.toNat_and]
    exact Nat.and_two_pow_sub_one_eq_mod _ 6
  unfold char
  rw [hval]
  exact α.rev_char (Nat.mod_lt _ (by decide))

theorem toNat_shiftRight_small (u : UInt32) {k : Nat} (hk : k < 32) :
    (u >>> UInt32.ofNat k).toNat = u.toNat >>> k := by
  rw [UInt32.toNat_shiftRight, UInt32.toNat_ofNat', Nat.mod_eq_of_lt (by omega : k < 2 ^ 32),
    Nat.mod_eq_of_lt hk]

/-- Four characters carry the 24 bits of a group. -/
theorem sextets (u : UInt32) :
    group 6 [(u >>> 18).toNat % 64, (u >>> 12).toNat % 64, (u >>> 6).toNat % 64, u.toNat % 64] =
      bitsOf 24 u.toNat := by
  have h18 : (u >>> 18).toNat = u.toNat >>> 18 := toNat_shiftRight_small u (by decide)
  have h12 : (u >>> 12).toNat = u.toNat >>> 12 := toNat_shiftRight_small u (by decide)
  have h6 : (u >>> 6).toNat = u.toNat >>> 6 := toNat_shiftRight_small u (by decide)
  have hm : ∀ n, bitsOf 6 (n % 64) = bitsOf 6 n := bitsOf_mod 6
  simp only [group_cons, group_nil, List.append_nil, hm]
  rw [h18, h12, h6, ← bitsOf_add, ← bitsOf_add, ← bitsOf_add]

/-- The 24 bits of a group are those of its three bytes. -/
theorem octets (a b c : UInt8) :
    bitsOf 24 (a.toUInt32 <<< 16 ||| b.toUInt32 <<< 8 ||| c.toUInt32).toNat =
      group 8 [a.toNat, b.toNat, c.toNat] := by
  have hval : (a.toUInt32 <<< 16 ||| b.toUInt32 <<< 8 ||| c.toUInt32).toNat =
      (a.toNat <<< 16 % 2 ^ 32 ||| b.toNat <<< 8 % 2 ^ 32) ||| c.toNat := by
    rw [UInt32.toNat_or, UInt32.toNat_or, UInt32.toNat_shiftLeft, UInt32.toNat_shiftLeft]
    rfl
  have hbit : ∀ (x : UInt8) (i : Nat), 8 ≤ i → x.toNat.testBit i = false := by
    intro x i hi
    exact Nat.testBit_lt_two_pow
      (Nat.lt_of_lt_of_le x.toNat_lt (Nat.pow_le_pow_right (n := 2) (by decide) hi))
  have hsplit : ∀ n, bitsOf 24 n = bitsOf 8 (n >>> 16) ++ (bitsOf 8 (n >>> 8) ++ bitsOf 8 n) := by
    intro n
    rw [← bitsOf_add 8 8 n, ← bitsOf_add 8 16 n]
  rw [hsplit, hval]
  simp only [group_cons, group_nil, List.append_nil]
  refine congr (congrArg _ (bitsOf_congr fun i hi => ?_))
    (congr (congrArg _ (bitsOf_congr fun i hi => ?_)) (bitsOf_congr fun i hi => ?_))
  · have hb : b.toNat.testBit (16 + i - 8) = false := hbit b _ (by omega)
    have hc : c.toNat.testBit (16 + i) = false := hbit c _ (by omega)
    have h32 : 16 + i < 32 := by omega
    simp only [Nat.testBit_shiftRight, Nat.testBit_or, Nat.testBit_mod_two_pow, Nat.testBit_shiftLeft, hb, hc]
    simp [h32]
  · have hc : c.toNat.testBit (8 + i) = false := hbit c _ (by omega)
    have h32 : 8 + i < 32 := by omega
    have h16 : ¬16 ≤ 8 + i := by omega
    simp only [Nat.testBit_shiftRight, Nat.testBit_or, Nat.testBit_mod_two_pow, Nat.testBit_shiftLeft, hc]
    simp [h32, h16]
  · have h16 : ¬16 ≤ i := by omega
    have h8 : ¬8 ≤ i := by omega
    simp only [Nat.testBit_or, Nat.testBit_mod_two_pow, Nat.testBit_shiftLeft]
    simp [h16, h8]

/-- What an encoder writes: characters that carry the bits of the input and, to
fill the last of them up, less than one character of zeros; and then the padding. -/
structure Written (α : Alphabet) (pad : Bool) (x text : Bytes) : Prop where
  carried : ∃ cs vs zs, text = cs ++ (if pad then List.replicate ((3 - x.length % 3) % 3) 61 else []) ∧
    α.values cs = some vs ∧ group 6 vs = group 8 (x.map (·.toNat)) ++ zs ∧ zs.length < 6

theorem values_sextets (α : Alphabet) (us : List UInt32) :
    α.values (us.map fun u => α.char (u &&& 63)) = some (us.map fun u => u.toNat % 64) := by
  induction us with
  | nil => rfl
  | cons u us ih =>
    rw [List.map_cons, α.values_cons, α.rev_sextet, Option.bind_some, ih]
    rfl

theorem values_append {α : Alphabet} {cs ds : Bytes} {vs ws : List Nat} (hc : α.values cs = some vs)
    (hd : α.values ds = some ws) : α.values (cs ++ ds) = some (vs ++ ws) := by
  induction cs generalizing vs with
  | nil =>
    rw [α.values_nil] at hc
    rw [← Option.some.inj hc]
    exact hd
  | cons c cs ih =>
    rw [α.values_cons] at hc
    obtain ⟨v, hv, hc⟩ := Option.bind_eq_some_iff.mp hc
    obtain ⟨us, hu, rfl⟩ := Option.map_eq_some_iff.mp hc
    rw [List.cons_append, α.values_cons, hv, Option.bind_some, ih hu]
    rfl

/-- A last group of two bytes: three characters. -/
theorem group_two (a b : UInt8) (v : UInt32) (hv : v = a.toUInt32 <<< 16 ||| b.toUInt32 <<< 8) :
    group 6 [(v >>> 18).toNat % 64, (v >>> 12).toNat % 64, (v >>> 6).toNat % 64] =
      group 8 [a.toNat, b.toNat] ++ [false, false] := by
  have hbits : bitsOf 24 v.toNat = group 8 [a.toNat, b.toNat, 0] := by
    have h0 : (0 : UInt8).toUInt32 = 0 := rfl
    have h := octets a b 0
    rwa [h0, UInt32.or_zero, ← hv] at h
  have hall : group 6 [(v >>> 18).toNat % 64, (v >>> 12).toNat % 64, (v >>> 6).toNat % 64] ++
      group 6 [v.toNat % 64] = (group 8 [a.toNat, b.toNat] ++ [false, false]) ++
        List.replicate 6 false := by
    have hzeros : group 8 [0] = [false, false] ++ List.replicate 6 false := by decide
    rw [List.append_assoc, ← hzeros, ← group_append, ← group_append]
    exact (sextets v).trans hbits
  refine List.append_inj_left hall ?_
  rw [length_group, List.length_append, length_group]
  rfl

/-- A last group of one byte: two characters. -/
theorem group_one (a : UInt8) (v : UInt32) (hv : v = a.toUInt32 <<< 16) :
    group 6 [(v >>> 18).toNat % 64, (v >>> 12).toNat % 64] =
      group 8 [a.toNat] ++ [false, false, false, false] := by
  have hbits : bitsOf 24 v.toNat = group 8 [a.toNat, 0, 0] := by
    have h0 : (0 : UInt8).toUInt32 = 0 := rfl
    have h := octets a 0 0
    rwa [h0, UInt32.zero_shiftLeft, UInt32.or_zero, UInt32.or_zero, ← hv] at h
  have hall : group 6 [(v >>> 18).toNat % 64, (v >>> 12).toNat % 64] ++
      group 6 [(v >>> 6).toNat % 64, v.toNat % 64] =
        (group 8 [a.toNat] ++ [false, false, false, false]) ++ List.replicate 12 false := by
    have hzeros : group 8 [0, 0] = [false, false, false, false] ++ List.replicate 12 false := by decide
    rw [List.append_assoc, ← hzeros, ← group_append, ← group_append]
    exact (sextets v).trans hbits
  refine List.append_inj_left hall ?_
  rw [length_group, List.length_append, length_group]
  rfl

theorem written (α : Alphabet) (pad : Bool) (x : Bytes) : Written α pad x (b64Chars α pad x) := by
  fun_induction b64Chars α pad x with
  | case1 a b c rest v ih =>
    obtain ⟨cs, vs, zs, ht, hv, hg, hz⟩ := ih
    have hq := values_sextets α [v >>> 18, v >>> 12, v >>> 6, v]
    have hlen : (3 - (a :: b :: c :: rest).length % 3) % 3 = (3 - rest.length % 3) % 3 := by
      simp only [List.length_cons]
      omega
    refine ⟨_ ++ cs, _ ++ vs, zs, ?_, values_append hq hv, ?_, hz⟩
    · rw [ht, hlen]
      rfl
    · have hgroup : group 6 ([v >>> 18, v >>> 12, v >>> 6, v].map fun u => u.toNat % 64) =
          group 8 [a.toNat, b.toNat, c.toNat] := (sextets v).trans (octets a b c)
      rw [group_append, hg, hgroup, ← List.append_assoc, ← group_append]
      rfl
  | case2 a b v =>
    have hq := values_sextets α [v >>> 18, v >>> 12, v >>> 6]
    refine ⟨_, _, [false, false], ?_, hq, ?_, by decide⟩
    · cases pad with
      | false => rfl
      | true => rfl
    · exact group_two a b v rfl
  | case3 a v =>
    have hq := values_sextets α [v >>> 18, v >>> 12]
    refine ⟨_, _, [false, false, false, false], ?_, hq, ?_, by decide⟩
    · cases pad with
      | false => rfl
      | true => rfl
    · exact group_one a v rfl
  | case4 => exact ⟨[], [], [], by cases pad <;> rfl, rfl, rfl, by decide⟩

theorem dropPad_append (cs : Bytes) (n : Nat) (h : ∀ c ∈ cs, c ≠ 61) :
    dropPad (cs ++ List.replicate n 61) = cs := by
  have hrep : ∀ rest : Bytes, (List.replicate n (61 : UInt8) ++ rest).dropWhile (· = 61) =
      rest.dropWhile (· = 61) := by
    intro rest
    induction n with
    | zero => rfl
    | succ n ih => rw [List.replicate_succ, List.cons_append, List.dropWhile_cons]; exact ih
  have hnone : cs.reverse.dropWhile (· = 61) = cs.reverse := by
    cases hr : cs.reverse with
    | nil => rfl
    | cons c rest =>
      have hc : c ∈ cs := List.mem_reverse.mp (hr ▸ List.mem_cons_self)
      rw [List.dropWhile_cons, if_neg]
      simpa using h c hc
  unfold dropPad
  rw [List.reverse_append, List.reverse_replicate, hrep, hnone, List.reverse_reverse]

/-- The characters of an encoding, without its padding. -/
theorem Written.length {α : Alphabet} {pad : Bool} {x text : Bytes} (h : Written α pad x text) :
    text.length = encodedLen pad x.length ∧ (dropPad text).length % 4 ≠ 1 ∧
      ∃ vs zs, α.values (dropPad text) = some vs ∧
        group 6 vs = group 8 (x.map (·.toNat)) ++ zs ∧ zs.length < 6 := by
  obtain ⟨cs, vs, zs, ht, hv, hg, hz⟩ := h.carried
  have hmem : ∀ c ∈ cs, c ∈ α.chars := α.values_isSome.mp (by rw [hv]; rfl)
  have hlen := congrArg List.length hg
  rw [length_group, List.length_append, length_group, List.length_map, (Alphabet.values_spec hv).1] at hlen
  have hdrop : dropPad text = cs := by
    rw [ht]
    cases pad with
    | true => exact dropPad_append cs _ fun c hc => (α.char_ne (hmem c hc)).2
    | false => exact dropPad_append cs 0 fun c hc => (α.char_ne (hmem c hc)).2
  refine ⟨?_, by rw [hdrop]; omega, vs, zs, by rw [hdrop]; exact hv, hg, hz⟩
  rw [ht, List.length_append]
  cases pad with
  | true =>
    simp only [if_true, List.length_replicate, encodedLen, b64StdEncodedLen]
    have h3 : x.length % 3 = 0 ∨ x.length % 3 = 1 ∨ x.length % 3 = 2 := by omega
    rcases h3 with h | h | h
    · rw [h]
      omega
    · rw [h]
      omega
    · rw [h]
      omega
  | false =>
    simp only [Bool.false_eq_true, if_false, List.length_nil, encodedLen, b64urlEncodedLen]
    split
    · omega
    · omega

theorem pending_start : Pending [] 0 0 [] := ⟨by decide, rfl⟩

/-- The decoder as a whole: what it accepts, what it returns and how much it writes. -/
theorem b64Decode_spec (α : Alphabet) (text : Bytes) (cap : Nat) :
    ((b64Decode α text cap).isSome = true ↔ (dropPad text).length % 4 ≠ 1 ∧
      (∀ c ∈ dropPad text, c ∈ α.chars) ∧ 6 * (dropPad text).length / 8 ≤ cap) ∧
    (∀ out, b64Decode α text cap = some out → out.length = 6 * (dropPad text).length / 8 ∧
      b64DecodeWritten α cap (dropPad text) 0 0 [] = out ∧ ∃ vs, α.values (dropPad text) = some vs ∧ ungroup 8 (group 6 vs) = out.map (·.toNat)) ∧
    (b64DecodeWritten α cap (dropPad text) 0 0 []).length ≤ cap := by
  have hd : Decodes α cap (dropPad text) [] 0 0 [] := decodes pending_start (Nat.zero_le cap)
  have hlen : ∀ vs, α.values (dropPad text) = some vs →
      ([] ++ group 6 vs).length = 6 * (dropPad text).length := by
    intro vs hv
    rw [List.nil_append, length_group, (Alphabet.values_spec hv).1]
  unfold b64Decode
  dsimp only
  split
  · rename_i h1
    refine ⟨⟨(fun hs => nomatch hs), fun h => absurd h1 h.1⟩, (fun out h => nomatch h), hd.written⟩
  · rename_i h1
    refine ⟨⟨fun hs => ?_, fun h => ?_⟩, fun out hout => ?_, hd.written⟩
    · obtain ⟨vs, hv, hfit⟩ := hd.only hs
      rw [hlen vs hv] at hfit
      exact ⟨h1, Alphabet.values_isSome.mp (by rw [hv]; rfl), hfit⟩
    · obtain ⟨vs, hv⟩ := Option.isSome_iff_exists.mp (Alphabet.values_isSome.mpr h.2.1)
      obtain ⟨_, _, out, hout, -⟩ := hd.good vs hv (by rw [hlen vs hv]; exact h.2.2)
      rw [hout]
      rfl
    · obtain ⟨vs, hv, hfit⟩ := hd.only (by rw [hout]; rfl)
      obtain ⟨acc, bits, out', hout', hp⟩ := hd.good vs hv hfit
      have hw : b64DecodeWritten α cap (dropPad text) 0 0 [] = out' := written_of_decoded hout'
      rw [hout] at hout'
      rw [Option.some.inj hout']
      have hb : ungroup 8 ([] ++ group 6 vs) = out'.map (·.toNat) := hp.bytes
      refine ⟨?_, hw, vs, hv, hb⟩
      rw [hp.length, hlen vs hv]

/-- An encoding is decoded to what was encoded. -/
theorem b64Decode_written {α : Alphabet} {pad : Bool} {x text : Bytes} (h : Written α pad x text)
    {room : Nat} (hr : x.length ≤ room) : b64Decode α text room = some x := by
  obtain ⟨-, h1, vs, zs, hv, hg, hz⟩ := h.length
  obtain ⟨hiff, hsome, -⟩ := b64Decode_spec α text room
  have hlen := congrArg List.length hg
  rw [length_group, List.length_append, length_group, List.length_map, (Alphabet.values_spec hv).1] at hlen
  obtain ⟨out, hout⟩ := Option.isSome_iff_exists.mp
    (hiff.mpr ⟨h1, Alphabet.values_isSome.mp (by rw [hv]; rfl), by omega⟩)
  obtain ⟨-, -, ws, hw, hbytes⟩ := hsome out hout
  rw [hv] at hw
  have hx : ungroup 8 (group 6 ws) = x.map (·.toNat) := by
    rw [← Option.some.inj hw, hg]
    refine ungroup_group (by decide) (fun n hn => ?_) (by omega)
    obtain ⟨b, -, rfl⟩ := List.mem_map.mp hn
    exact b.toNat_lt
  rw [hout, (List.map_injective_iff.mpr fun a b => UInt8.toNat_inj.mp) (hbytes.symm.trans hx)]

/-- The characters of an encoding hold no zero, so that the text ends where it is written to. -/
theorem Written.no_zero {α : Alphabet} {pad : Bool} {x text : Bytes} (h : Written α pad x text) :
    ∀ c ∈ text, c ≠ 0 := by
  obtain ⟨cs, vs, zs, ht, hv, -, -⟩ := h.carried
  have hmem : ∀ c ∈ cs, c ∈ α.chars := α.values_isSome.mp (by rw [hv]; rfl)
  intro c hc
  rw [ht] at hc
  rcases List.mem_append.mp hc with hc | hc
  · exact (α.char_ne (hmem c hc)).1
  · cases pad with
    | true =>
      rw [(List.mem_replicate.mp hc).2]
      decide
    | false => exact absurd hc List.not_mem_nil

end EncedoHem
