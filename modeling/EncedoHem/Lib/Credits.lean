import EncedoHem.Lib.Dialogue

namespace Dialogue
variable {I : Type} {O : I → Type} {S E α β : Type}

/-- Each exchange of the kind `k` costs a credit: with `n` at the start the command can
pay, and has `b r` of them left when it ends in `r`. -/
structure Pays (k : Event I O → Bool) (n : Nat) (x : Cmd I O S E α) (b : Except E α → Nat) : Prop where
  run : ∀ s, wp x (fun es r _ => es.countP k + b r ≤ n) s

/-- No run makes more than `n` exchanges of the kind `k`. -/
def Costs (k : Event I O → Bool) (n : Nat) (x : Cmd I O S E α) : Prop := Pays k n x fun _ => 0

/-- What is left of the credits for what follows on a command that was caught. -/
def caught (b : Except E α → Nat) : Except E (Except E α) → Nat
  | .ok r => b r
  | .error _ => 0

namespace Pays
variable {k : Event I O → Bool} {n m : Nat} {x : Cmd I O S E α} {f : α → Cmd I O S E β}
  {b b' : Except E α → Nat} {c : Except E β → Nat}

theorem pure {a : α} (h : b (.ok a) ≤ n) : Pays k n (Pure.pure a : Cmd I O S E α) b :=
  ⟨fun _ => wp_pure.mpr (by simpa using h)⟩

theorem throw {e : E} (h : b (.error e) ≤ n) : Pays k n (Cmd.throw e : Cmd I O S E α) b :=
  ⟨fun _ => wp_throw.mpr (by simpa using h)⟩

theorem mono (hx : Pays k n x b) (hn : n ≤ m) (hb : ∀ r, b' r ≤ b r) : Pays k m x b' := by
  refine ⟨fun s => wp_mono (hx.run s) fun es r _ h => ?_⟩
  have := hb r
  omega

/-- What would be left with a value that is never yielded does not matter. -/
theorem yields {V : α → Prop} (hx : Pays k n x b) (hv : Yields x V) (hok : ∀ a, V a → b' (.ok a) ≤ b (.ok a))
    (herr : ∀ e, b' (.error e) ≤ b (.error e)) : Pays k n x b' := by
  refine ⟨fun s => wp_mono (wp_and (hx.run s) (hv.run s)) fun es r _ h => ?_⟩
  cases r with
  | ok a =>
    have := hok a (h.2 a rfl)
    omega
  | error e =>
    have := herr e
    omega

/-- More at the start leaves more at the end. -/
theorem frame (hx : Pays k n x b) (m : Nat) : Pays k (n + m) x fun r => b r + m := by
  refine ⟨fun s => wp_mono (hx.run s) fun es r _ h => ?_⟩
  omega

/-- What the first part of a sequence leaves is what the second part has. -/
theorem bind (hx : Pays k n x b) (hf : ∀ a, Pays k (b (.ok a)) (f a) c)
    (he : ∀ e, c (.error e) ≤ b (.error e)) : Pays k n (x >>= f) c := by
  refine ⟨fun s => wp_bind_of (hx.run s) ?_ ?_⟩
  · intro es a s' h
    refine wp_mono ((hf a).run s') fun es' r _ h' => ?_
    rw [List.countP_append]
    omega
  · intro es e s' h
    have := he e
    omega

theorem attempt (hx : Pays k n x b) : Pays k n x.attempt (caught b) :=
  ⟨fun s => wp_attempt.mpr (hx.run s)⟩

theorem ite {p : Prop} [Decidable p] {y : Cmd I O S E α} (hx : p → Pays k n x b)
    (hy : ¬p → Pays k n y b) : Pays k n (if p then x else y) b := by
  split
  · exact hx ‹_›
  · exact hy ‹_›

end Pays

namespace Costs
variable {k : Event I O → Bool} {n m : Nat} {x : Cmd I O S E α} {f : α → Cmd I O S E β}

theorem run (h : Costs k n x) (s : S) : wp x (fun es _ _ => es.countP k ≤ n) s := Pays.run h s

theorem ask (i : I) : Costs k 1 (Cmd.ask i : Cmd I O S E (O i)) :=
  ⟨fun _ => wp_ask.mpr fun _ => List.countP_le_length⟩

/-- A command that makes no exchange of the kind at all. -/
theorem free (h : Keeps (Emits fun e => k e = false : Contract I O S) x) (n : Nat) : Costs k n x := by
  refine ⟨fun s => wp_mono (h.run s) fun es r _ hes => ?_⟩
  have hzero : es.countP k = 0 := List.countP_eq_zero.mpr fun e he => by simp [hes e he]
  omega

theorem pays (hx : Costs k n x) (m : Nat) : Pays k (n + m) x fun _ => m :=
  (Pays.frame hx m).mono (Nat.le_refl _) fun _ => Nat.le_add_left _ _

theorem mono (hx : Costs k n x) (h : n ≤ m) : Costs k m x := Pays.mono hx h fun _ => Nat.le_refl _

theorem bind (hx : Costs k n x) (hf : ∀ a, Costs k m (f a)) : Costs k (n + m) (x >>= f) :=
  Pays.bind (hx.pays m) hf fun _ => Nat.zero_le _

theorem attempt (hx : Costs k n x) : Costs k n x.attempt :=
  (Pays.attempt hx).mono (Nat.le_refl _) fun _ => Nat.zero_le _

theorem ite {p : Prop} [Decidable p] {y : Cmd I O S E α} (hx : p → Costs k n x)
    (hy : ¬p → Costs k n y) : Costs k n (if p then x else y) := Pays.ite hx hy

theorem bind_le {l : Nat} (hx : Costs k n x) (hf : ∀ a, Costs k m (f a)) (h : n + m ≤ l) :
    Costs k l (x >>= f) := (hx.bind hf).mono h

/-- What costs nothing comes first. -/
theorem after (hx : Costs k 0 x) (hf : ∀ a, Costs k n (f a)) : Costs k n (x >>= f) :=
  hx.bind_le hf (by omega)

/-- What costs nothing comes last. -/
theorem before (hx : Costs k n x) (hf : ∀ a, Costs k 0 (f a)) : Costs k n (x >>= f) :=
  hx.bind_le hf (Nat.le_refl n)

end Costs

end Dialogue
