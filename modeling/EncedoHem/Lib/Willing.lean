import EncedoHem.Lib.Dialogue

namespace Dialogue

variable {I : Type} {O : I → Type} {S E α β : Type}

/-- Where the environment is as `P` says in every exchange, the command succeeds with a value
of `V`. -/
structure Willing (P : Event I O → Prop) (x : Cmd I O S E α) (V : α → Prop) : Prop where
  run : ∀ s, wp x (fun es r _ => (∀ e ∈ es, P e) → ∃ a, r = .ok a ∧ V a) s

namespace Willing
variable {P : Event I O → Prop} {x : Cmd I O S E α} {f : α → Cmd I O S E β} {V : α → Prop} {W : β → Prop}

theorem pure {a : α} (h : V a) : Willing P (Pure.pure a : Cmd I O S E α) V :=
  ⟨fun _ => wp_pure.mpr fun _ => ⟨a, rfl, h⟩⟩

theorem ask {i : I} {V : O i → Prop} (h : ∀ o, P ⟨i, o⟩ → V o) :
    Willing P (Cmd.ask i : Cmd I O S E (O i)) V :=
  ⟨fun _ => wp_ask.mpr fun o ho => ⟨o, rfl, h o (ho _ (List.mem_singleton.mpr rfl))⟩⟩

theorem get : Willing P (Cmd.get : Cmd I O S E S) fun _ => True :=
  ⟨fun s => wp_get.mpr fun _ => ⟨s, rfl, trivial⟩⟩

theorem modify (g : S → S) : Willing P (Cmd.modify g : Cmd I O S E Unit) fun _ => True :=
  ⟨fun _ => wp_modify.mpr fun _ => ⟨(), rfl, trivial⟩⟩

/-- The state that a command starts in may decide how it goes on. -/
theorem wp_bind {Q : α → S → Prop} {s : S}
    (hx : wp x (fun es r s' => (∀ e ∈ es, P e) → ∃ a, r = .ok a ∧ Q a s') s)
    (hf : ∀ a s', Q a s' → wp (f a) (fun es r _ => (∀ e ∈ es, P e) → ∃ b, r = .ok b ∧ W b) s') :
    wp (x >>= f) (fun es r _ => (∀ e ∈ es, P e) → ∃ b, r = .ok b ∧ W b) s := by
  refine wp_bind_of hx ?_ ?_
  · intro es a s' h es' r s'' hrun hes
    obtain ⟨a', ha, hq⟩ := h fun e he => hes e (List.mem_append.mpr (.inl he))
    obtain rfl := Except.ok.inj ha
    exact hf a s' hq es' r s'' hrun fun e he => hes e (List.mem_append.mpr (.inr he))
  · intro es e s' h hes
    obtain ⟨a, ha, -⟩ := h hes
    exact nomatch ha

theorem bind (hx : Willing P x V) (hf : ∀ a, V a → Willing P (f a) W) : Willing P (x >>= f) W := by
  refine ⟨fun s => wp_bind (Q := fun a _ => V a) (hx.run s) fun a s' h => (hf a h).run s'⟩

theorem ite {c : Prop} [Decidable c] {y : Cmd I O S E α} (hx : c → Willing P x V)
    (hy : ¬c → Willing P y V) : Willing P (if c then x else y) V := by
  split
  · exact hx ‹_›
  · exact hy ‹_›

/-- What succeeds is attempted with success. -/
theorem attempt (hx : Willing P x V) : Willing P x.attempt fun r => ∃ a, r = .ok a ∧ V a :=
  ⟨fun s => wp_attempt.mpr (wp_mono (hx.run s) fun _ r _ h hes => ⟨r, rfl, h hes⟩)⟩

end Willing

/-- There is a run in an environment that always answers as `P` says. -/
theorem exists_run {P : Event I O → Prop} {x : Cmd I O S E α} {V : α → Prop} {s : S}
    (σ : (i : I) → O i) (hσ : ∀ i, P ⟨i, σ i⟩)
    (h : wp x (fun es r _ => (∀ e ∈ es, P e) → ∃ a, r = .ok a ∧ V a) s) :
    ∃ es a s', Runs x s es (.ok a) s' ∧ V a := by
  have hplay := run_of_play (fun _ => σ) (x s)
  have hall : ∀ e ∈ ((x s).play (fun _ => σ) []).1, P e := by
    intro e he
    rcases play_answers he with he | ⟨_, i, rfl⟩
    · exact absurd he List.not_mem_nil
    · exact hσ i
  generalize (x s).play (fun _ => σ) [] = outcome at hplay hall
  obtain ⟨es, r, s'⟩ := outcome
  obtain ⟨a, rfl, hv⟩ := h es r s' hplay hall
  exact ⟨es, a, s', hplay, hv⟩

end Dialogue
