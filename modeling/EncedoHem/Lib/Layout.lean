import Mathlib.Data.List.Basic

namespace Layout
variable {ι : Type} [DecidableEq ι]

/-- What a member of a structure takes: bytes, and an offset that is a multiple of the alignment. -/
structure Shape where
  size : Nat
  align : Nat
  deriving DecidableEq, Repr

/-- The first multiple of `a` from `n` on. -/
def alignUp (n a : Nat) : Nat := (n + (a - 1)) / a * a

theorem alignUp_zero {a : Nat} (h : 0 < a) : alignUp 0 a = 0 := by
  have hdiv : (0 + (a - 1)) / a = 0 := Nat.div_eq_of_lt (by omega)
  rw [alignUp, hdiv, Nat.zero_mul]

theorem le_alignUp {n a : Nat} (h : 0 < a) : n ≤ alignUp n a := by
  have hmod := Nat.mod_lt (n + (a - 1)) h
  have hdiv := Nat.div_add_mod' (n + (a - 1)) a
  unfold alignUp
  omega

/-- Where `f` starts among members that are laid out in their order from `pos` on. -/
def offset (shape : ι → Shape) (f : ι) : List ι → Nat → Nat
  | [], pos => pos
  | g :: gs, pos =>
    if g = f then alignUp pos (shape g).align
    else offset shape f gs (alignUp pos (shape g).align + (shape g).size)

theorem le_offset {shape : ι → Shape} (ha : ∀ f, 0 < (shape f).align) {f : ι} {fs : List ι} {pos : Nat} :
    pos ≤ offset shape f fs pos := by
  induction fs generalizing pos with
  | nil => exact Nat.le_refl pos
  | cons g gs ih =>
    have hle := le_alignUp (n := pos) (ha g)
    rw [offset]
    split
    · exact hle
    · exact Nat.le_trans (Nat.le_trans hle (Nat.le_add_right _ _)) ih

/-- Members keep clear of each other: one ends before the next in order starts. -/
theorem end_le_offset {shape : ι → Shape} (ha : ∀ f, 0 < (shape f).align) {f g : ι} {pre post : List ι} {pos : Nat}
    (hf : f ∉ pre) (hg : g ∉ pre) (hne : f ≠ g) :
    offset shape f (pre ++ f :: post) pos + (shape f).size ≤ offset shape g (pre ++ f :: post) pos := by
  induction pre generalizing pos with
  | nil =>
    rw [List.nil_append, offset, offset, if_pos rfl, if_neg hne]
    exact le_offset ha
  | cons h hs ih =>
    rw [List.mem_cons, not_or] at hf hg
    rw [List.cons_append, offset, offset, if_neg (Ne.symm hf.left), if_neg (Ne.symm hg.left)]
    exact ih hf.right hg.right

end Layout
