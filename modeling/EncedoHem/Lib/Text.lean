import Mathlib.Data.List.Basic

namespace Text

/-- Raw bytes; a C string is one that holds no zero. -/
abbrev Bytes := List UInt8

/-- The bytes of an ASCII literal. -/
def lit (s : String) : Bytes := s.toList.map fun c => UInt8.ofNat c.toNat

/-- The C string that starts at the first byte: everything before the first zero. -/
def cstr (b : Bytes) : Bytes := b.takeWhile (· ≠ 0)

/-- Decimal digits of a number, most significant first. -/
def digits (n : Nat) : Bytes := (Nat.toDigits 10 n).map fun c => UInt8.ofNat c.toNat

/-- An integer as `%ld` prints it. -/
def decimal (i : Int) : Bytes :=
  if i < 0 then lit "-" ++ digits i.natAbs else digits i.natAbs

/-- `needle` occurs somewhere in the text. -/
def contains (needle : Bytes) : Bytes → Bool
  | [] => needle.isEmpty
  | b :: bs => needle.isPrefixOf (b :: bs) || contains needle bs

/-- The text before the first `c` and the text after it, if there is one. -/
def cutAt (c : UInt8) : Bytes → Option (Bytes × Bytes)
  | [] => none
  | b :: bs => if b = c then some ([], bs) else (cutAt c bs).map fun (l, r) => (b :: l, r)

theorem cstr_of_no_zero {b : Bytes} (h : ∀ x ∈ b, x ≠ 0) : cstr b = b := by
  induction b with
  | nil => rfl
  | cons x xs ih =>
    have hx : decide (x ≠ 0) = true := by simpa using h x (by simp)
    have hxs : cstr xs = xs := ih fun y hy => h y (by simp [hy])
    rw [cstr, List.takeWhile_cons, if_pos hx]
    exact congrArg (x :: ·) hxs

theorem no_zero_of_mem_cstr {b : Bytes} {x : UInt8} (h : x ∈ cstr b) : x ≠ 0 := by
  induction b with
  | nil => simp [cstr] at h
  | cons y ys ih =>
    rw [cstr, List.takeWhile_cons] at h
    split at h
    · rename_i hy
      rcases List.mem_cons.mp h with rfl | h
      · exact of_decide_eq_true hy
      · exact ih h
    · simp at h

@[simp] theorem cstr_cstr (b : Bytes) : cstr (cstr b) = cstr b :=
  cstr_of_no_zero fun _ => no_zero_of_mem_cstr

theorem contains_iff {needle : Bytes} {b : Bytes} :
    contains needle b = true ↔ needle <:+: b := by
  induction b with
  | nil => simp [contains, List.infix_nil]
  | cons x xs ih =>
    simp only [contains, Bool.or_eq_true, ih, List.isPrefixOf_iff_prefix]
    exact List.infix_cons_iff.symm

theorem cstr_append {a b : Bytes} (h : ∀ x ∈ a, x ≠ 0) : cstr (a ++ b) = a ++ cstr b := by
  induction a with
  | nil => rfl
  | cons x xs ih =>
    have hx : decide (x ≠ 0) = true := decide_eq_true (h x List.mem_cons_self)
    rw [List.cons_append, cstr, List.takeWhile_cons, if_pos hx]
    exact congrArg (x :: ·) (ih fun y hy => h y (List.mem_cons_of_mem x hy))

/-- What starts at a byte that does not occur in the needle is of no use to a prefix. -/
theorem prefix_append_cons {needle x y : Bytes} {q : UInt8} (hq : q ∉ needle) :
    needle <+: x ++ q :: y ↔ needle <+: x := by
  constructor
  · intro h
    induction x generalizing needle with
    | nil =>
      cases needle with
      | nil => exact List.nil_prefix
      | cons n ns =>
        have hn : n = q := (List.cons_prefix_cons.mp h).1
        exact absurd (hn ▸ List.mem_cons_self) hq
    | cons a x ih =>
      cases needle with
      | nil => exact List.nil_prefix
      | cons n ns =>
        obtain ⟨hn, hp⟩ := List.cons_prefix_cons.mp h
        have hqs : q ∉ ns := fun hm => hq (List.mem_cons_of_mem n hm)
        exact List.cons_prefix_cons.mpr ⟨hn, ih hqs hp⟩
  · intro h
    exact h.trans (List.prefix_append x _)

/-- A needle is found in a text exactly when it is found on one side of a byte
that does not occur in it. -/
theorem contains_append_cons {needle x y : Bytes} {q : UInt8} (hq : q ∉ needle) :
    contains needle (x ++ q :: y) = (contains needle x || contains needle y) := by
  have hcons : ∀ z, needle <+: q :: z → needle = [] := by
    intro z h
    exact List.prefix_nil.mp ((prefix_append_cons (x := []) hq).mp h)
  rw [Bool.eq_iff_iff, Bool.or_eq_true]
  simp only [contains_iff]
  induction x with
  | nil =>
    rw [List.nil_append, List.infix_cons_iff, List.infix_nil]
    constructor
    · intro h
      exact h.imp (hcons y) id
    · intro h
      rcases h with h | h
      · exact .inl (h ▸ List.nil_prefix)
      · exact .inr h
  | cons a x ih =>
    rw [List.cons_append, List.infix_cons_iff, List.infix_cons_iff, ih, ← List.cons_append,
      prefix_append_cons hq, or_assoc]

theorem cutAt_append {c : UInt8} {l : Bytes} (h : c ∉ l) (r : Bytes) :
    cutAt c (l ++ c :: r) = some (l, r) := by
  induction l with
  | nil => simp [cutAt]
  | cons x l ih =>
    have hx : x ≠ c := fun he => h (he ▸ List.mem_cons_self)
    rw [List.cons_append, cutAt, if_neg hx, ih fun hm => h (List.mem_cons_of_mem x hm)]
    rfl

theorem cutAt_spec {c : UInt8} {b l r : Bytes} (h : cutAt c b = some (l, r)) :
    b = l ++ c :: r ∧ c ∉ l := by
  induction b generalizing l with
  | nil => simp [cutAt] at h
  | cons x xs ih =>
    simp only [cutAt] at h
    split at h
    · simp only [Option.some.injEq, Prod.mk.injEq] at h
      obtain ⟨rfl, rfl⟩ := h
      simp_all
    · rename_i hx
      simp only [Option.map_eq_some_iff, Prod.exists, Prod.mk.injEq] at h
      obtain ⟨l', r', h', rfl, rfl⟩ := h
      obtain ⟨rfl, hl⟩ := ih h'
      exact ⟨rfl, by simp [hl, Ne.symm hx]⟩

end Text
