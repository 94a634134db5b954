import Mathlib.Data.List.Basic

namespace Flags
variable {α : Type} [DecidableEq α]

/-- The flags of a table whose names occur among `xs`. -/
def of : List (α × Nat) → List α → Nat
  | [], _ => 0
  | (name, bit) :: fs, xs => (if name ∈ xs then bit else 0) ||| of fs xs

theorem of_nil (fs : List (α × Nat)) : of fs [] = 0 := by
  induction fs with
  | nil => rfl
  | cons f fs ih => simp [of, ih]

/-- The flags go by which names occur, not by where or how often. -/
theorem of_congr {fs : List (α × Nat)} {xs ys : List α} (h : ∀ f ∈ fs, f.1 ∈ xs ↔ f.1 ∈ ys) : of fs xs = of fs ys := by
  induction fs with
  | nil => rfl
  | cons f fs ih =>
    have hhead := h f List.mem_cons_self
    rw [of, of, ih fun g hg => h g (List.mem_cons_of_mem f hg)]
    simp only [hhead]

theorem of_concat_other {fs : List (α × Nat)} {xs : List α} {x : α} (h : x ∉ fs.map Prod.fst) :
    of fs (xs ++ [x]) = of fs xs := by
  apply of_congr
  intro f hf
  have hne : f.1 ≠ x := fun he => h (he ▸ List.mem_map_of_mem hf)
  simp [hne]

/-- One name more adds its own flag. -/
theorem of_concat {fs : List (α × Nat)} {xs : List α} {name : α} {bit : Nat} (hd : (fs.map Prod.fst).Nodup)
    (hm : (name, bit) ∈ fs) : of fs (xs ++ [name]) = of fs xs ||| bit := by
  induction fs with
  | nil => exact absurd hm List.not_mem_nil
  | cons f fs ih =>
    obtain ⟨hhead, htail⟩ := List.nodup_cons.mp hd
    rcases List.mem_cons.mp hm with rfl | hm
    · rw [of, of, of_concat_other hhead, if_pos (List.mem_append_right xs List.mem_cons_self)]
      split
      · rw [Nat.or_comm bit, Nat.or_assoc, Nat.or_self]
      · rw [Nat.zero_or, Nat.or_comm]
    · have hne : f.1 ≠ name := fun he => hhead (he ▸ List.mem_map_of_mem hm)
      have hin : f.1 ∈ xs ++ [name] ↔ f.1 ∈ xs := by simp [hne]
      rw [of, of, ih htail hm, Nat.or_assoc]
      simp only [hin]

end Flags
