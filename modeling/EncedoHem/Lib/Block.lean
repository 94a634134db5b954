import Mathlib.Data.List.Basic

/-- A block of memory, each cell written or not yet. -/
abbrev Block (α : Type) := List (Option α)

namespace Block
variable {α : Type}

/-- A new block, with nothing in it. -/
def fresh (n : Nat) : Block α := List.replicate n none

/-- Write from an offset on; nothing comes of a write that leaves the block. -/
def write (m : Block α) (i : Nat) (b : List α) : Option (Block α) :=
  if i + b.length ≤ m.length then some (m.take i ++ b.map some ++ m.drop (i + b.length)) else none

/-- Read the first cells; nothing comes of a read of a cell that is not written or not there. -/
def read (m : Block α) (n : Nat) : Option (List α) :=
  if n ≤ m.length then (m.take n).mapM id else none

/-- The block that has been written from its start, and how far. -/
def filled (n : Nat) (b : List α) : Block α := b.map some ++ List.replicate (n - b.length) none

@[simp] theorem filled_nil (n : Nat) : filled n ([] : List α) = fresh n := by simp [filled, fresh]

theorem length_filled {n : Nat} {b : List α} (h : b.length ≤ n) : (filled n b).length = n := by
  simp only [filled, List.length_append, List.length_map, List.length_replicate]
  omega

/-- A block that is written to its end. -/
theorem filled_full {n : Nat} {b : List α} (h : b.length = n) : filled n b = b.map some := by
  simp [filled, h]

/-- Writing goes on where it stopped, as far as there is room. -/
theorem write_filled {n : Nat} {b : List α} (c : List α) (h : b.length + c.length ≤ n) :
    (filled n b).write b.length c = some (filled n (b ++ c)) := by
  have hroom : b.length + c.length ≤ (filled n b).length := by
    rw [length_filled (by omega)]
    exact h
  have hfront : (filled n b).take b.length = b.map some := by
    unfold filled
    rw [List.take_append_of_le_length (by simp), List.take_of_length_le (by simp)]
  have hback : (filled n b).drop (b.length + c.length) = List.replicate (n - (b ++ c).length) none := by
    unfold filled
    rw [List.drop_append]
    simp only [List.length_map, List.drop_replicate, List.length_append]
    rw [List.drop_eq_nil_of_le (by simp), List.nil_append]
    congr 1
    omega
  unfold write
  rw [if_pos hroom, hfront, hback]
  simp [filled]

/-- What has been written is read back. -/
theorem read_filled {n : Nat} {b : List α} (h : b.length ≤ n) : (filled n b).read b.length = some b := by
  have hfront : (filled n b).take b.length = b.map some := by
    unfold filled
    rw [List.take_append_of_le_length (by simp), List.take_of_length_le (by simp)]
  have hmap : ∀ c : List α, (c.map some).mapM id = some c := by
    intro c
    induction c with
    | nil => rfl
    | cons x c ih => simp [ih]
  unfold read
  rw [if_pos (by rw [length_filled h]; exact h), hfront, hmap]

end Block
