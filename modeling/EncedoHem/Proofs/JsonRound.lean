import EncedoHem.Lib.Decimal
import EncedoHem.Proofs.JsonText

namespace EncedoHem
open Text Double

namespace Json

mutual

/-- How deep arrays and objects are nested. -/
def depth : Json → Nat
  | .arr xs => depthAll xs + 1
  | .obj ms => depthMembers ms + 1
  | _ => 0

def depthAll : List Json → Nat
  | [] => 0
  | x :: xs => max x.depth (depthAll xs)

def depthMembers : List (Bytes × Json) → Nat
  | [] => 0
  | (_, v) :: ms => max v.depth (depthMembers ms)

end

mutual

/-- Every text in the value is a C string. -/
def Clean : Json → Prop
  | .str s => ∀ c ∈ s, c ≠ 0
  | .arr xs => CleanAll xs
  | .obj ms => CleanMembers ms
  | _ => True

def CleanAll : List Json → Prop
  | [] => True
  | x :: xs => x.Clean ∧ CleanAll xs

def CleanMembers : List (Bytes × Json) → Prop
  | [] => True
  | (k, v) :: ms => (∀ c ∈ k, c ≠ 0) ∧ v.Clean ∧ CleanMembers ms

end

mutual

/-- Every number in the value is an integer of at most fifteen digits. -/
def Whole : Json → Prop
  | .num d => ∃ i : Int, i.natAbs < 10 ^ 15 ∧ d = ofInt i
  | .arr xs => WholeAll xs
  | .obj ms => WholeMembers ms
  | _ => True

def WholeAll : List Json → Prop
  | [] => True
  | x :: xs => x.Whole ∧ WholeAll xs

def WholeMembers : List (Bytes × Json) → Prop
  | [] => True
  | (_, v) :: ms => v.Whole ∧ WholeMembers ms

end

end Json

/-- No number goes on into the text. -/
def Ended (rest : Bytes) : Prop := ∀ c t, rest = c :: t → isNumberByte c = false

theorem Ended.cons {c : UInt8} {t : Bytes} (h : isNumberByte c = false) : Ended (c :: t) := by
  rintro d u he
  rw [← (List.cons.inj he).1]
  exact h

theorem Ended.nil : Ended [] := by
  rintro c t he
  cases he

theorem skipWhitespace_cons {c : UInt8} (hc : 32 < c) (t : Bytes) : skipWhitespace (c :: t) = c :: t := by
  have hle : ¬c ≤ 32 := UInt8.not_le.mpr hc
  simp [skipWhitespace, hle]

/-- A value that is not nested too deep is read back, and nothing after it is touched. -/
def read (v : Json) (depth : Nat) (rest : Bytes) : Option (Json × Bytes) :=
  if depth + v.depth ≤ nestingLimit then some (v, rest) else none

section
variable {fuel depth : Nat} {rest : Bytes}

end

end EncedoHem
