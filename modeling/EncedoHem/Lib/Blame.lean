import EncedoHem.Lib.Dialogue

namespace Dialogue
variable {I : Type} {O : I → Type} {S E α β : Type}

/-- What exchanges, and the state after them, have to show for a failure. What came before
them cannot take it away. -/
structure Grounds (I : Type) (O : I → Type) (S E : Type) where
  shown : List (Event I O) → E → S → Prop
  later : ∀ {es es' : List (Event I O)} {e : E} {s : S}, shown es' e s → shown (es ++ es') e s

/-- The failure that a command ends in, whether it throws it or hands it on in its value. -/
def failedWith (o : α → Option E) : Except E α → Option E
  | .ok a => o a
  | .error e => some e

variable {G : Grounds I O S E} {o : α → Option E} {u : β → Option E}

/-- Whatever failure the command ends in, its own exchanges show the grounds for it. -/
structure Blames (G : Grounds I O S E) (o : α → Option E) (x : Cmd I O S E α) : Prop where
  run : ∀ s, wp x (fun es r s' => ∀ e, failedWith o r = some e → G.shown es e s') s

/-- A failure that there were grounds for is handed on with them. -/
structure HandsOn (G : Grounds I O S E) (e : E) (o : α → Option E) (x : Cmd I O S E α) : Prop where
  run : ∀ es s, G.shown es e s → wp x (fun es' r s' => ∀ e', failedWith o r = some e' → G.shown (es ++ es') e' s') s

namespace HandsOn
variable {e : E} {x : Cmd I O S E α} {f : α → Cmd I O S E β}

theorem pure {a : α} (h : ∀ e', o a = some e' → e' = e) : HandsOn G e o (Pure.pure a : Cmd I O S E α) := by
  refine ⟨fun es s hs => wp_pure.mpr fun e' he => ?_⟩
  rw [List.append_nil, h e' he]
  exact hs

theorem throw : HandsOn G e o (Cmd.throw e : Cmd I O S E α) := by
  refine ⟨fun es s hs => wp_throw.mpr fun e' he => ?_⟩
  rw [List.append_nil, ← Option.some.inj he]
  exact hs

/-- What is read is the state that the failure left. -/
theorem get_bind {g : S → Cmd I O S E α} (hg : ∀ es s, G.shown es e s → HandsOn G e o (g s)) :
    HandsOn G e o (Cmd.get >>= g) :=
  ⟨fun es s hs => wp_bind.mpr (wp_get.mpr (by simpa using (hg es s hs).run es s hs))⟩

/-- What blames by itself, needs no other grounds. -/
theorem of_blames (hx : Blames G o x) : HandsOn G e o x :=
  ⟨fun _ s _ => wp_mono (hx.run s) fun _ _ _ h e' he => G.later (h e' he)⟩

theorem ite {c : Prop} [Decidable c] {y : Cmd I O S E α} (hx : c → HandsOn G e o x) (hy : ¬c → HandsOn G e o y) :
    HandsOn G e o (if c then x else y) := by
  split
  · exact hx ‹_›
  · exact hy ‹_›

end HandsOn

namespace Blames
variable {x : Cmd I O S E α} {f : α → Cmd I O S E β}

theorem pure {a : α} (h : o a = none) : Blames G o (Pure.pure a : Cmd I O S E α) := by
  refine ⟨fun s => wp_pure.mpr fun e he => ?_⟩
  rw [failedWith, h] at he
  cases he

theorem throw {e : E} (h : ∀ s, G.shown [] e s) : Blames G o (Cmd.throw e : Cmd I O S E α) :=
  ⟨fun s => wp_throw.mpr fun _ he => Option.some.inj he ▸ h s⟩

/-- A command that never fails. -/
theorem of_throws (h : Throws x fun _ => False) : Blames G (fun _ => none) x := by
  refine ⟨fun s => wp_mono (h.run s) fun es r s' hr e he => ?_⟩
  cases r with
  | ok a => cases he
  | error e' => exact (hr e' rfl).elim

theorem get : Blames G (fun _ => none) (Cmd.get : Cmd I O S E S) := of_throws .get

theorem modify (g : S → S) : Blames G (fun _ => none) (Cmd.modify g : Cmd I O S E Unit) := of_throws (.modify g)

theorem ask (i : I) : Blames G (fun _ => none) (Cmd.ask i : Cmd I O S E (O i)) := of_throws (.ask i)

/-- The failure of what was attempted is there to be handed on. -/
theorem attempt (hx : Blames G o x) : Blames G (failedWith o) x.attempt :=
  ⟨fun s => wp_attempt.mpr (hx.run s)⟩

/-- Nothing has to be said of an attempt whose failure goes no further. -/
theorem attempted (x : Cmd I O S E α) : Blames G (fun _ => none) x.attempt := of_throws (.attempt x)

/-- The rule of sequencing, where the value may hold a failure to be handed on. -/
theorem bind_of (hx : Blames G o x) (hf : ∀ a, o a = none → Blames G u (f a))
    (he : ∀ a e, o a = some e → HandsOn G e u (f a)) : Blames G u (x >>= f) := by
  refine ⟨fun s => wp_bind_of (hx.run s) (fun es a s' h => ?_) fun es e s' h e' he' => h e' he'⟩
  cases ho : o a with
  | none => exact wp_mono ((hf a ho).run s') fun es' r s'' h' e hr => G.later (h' e hr)
  | some e => exact (he a e ho).run es s' (h e ho)

theorem bind (hx : Blames G (fun _ => none) x) (hf : ∀ a, Blames G u (f a)) : Blames G u (x >>= f) :=
  hx.bind_of (fun a _ => hf a) fun _ _ h => by cases h

/-- What was attempted is gone on with as its outcome says. -/
theorem attempt_bind {g : Except E α → Cmd I O S E β} (hx : Blames G (fun _ => none) x)
    (hok : ∀ a, Blames G u (g (.ok a))) (herr : ∀ e, HandsOn G e u (g (.error e))) : Blames G u (x.attempt >>= g) := by
  apply bind_of hx.attempt
  · intro r hr
    cases r with
    | ok a => exact hok a
    | error e => cases hr
  · intro r e hr
    cases r with
    | ok a => cases hr
    | error e' => exact Option.some.inj hr ▸ herr e'

/-- The second part may go by what the exchanges of the first one show. -/
theorem bind_draws {V : List (Event I O) → α → Prop} (hx : Blames G (fun _ => none) x) (hv : Draws x V)
    (hf : ∀ es a s, V es a → wp (f a) (fun es' r s' => ∀ e, failedWith u r = some e → G.shown (es ++ es') e s') s) :
    Blames G u (x >>= f) := by
  refine ⟨fun s => wp_bind_of (wp_and (hx.run s) (hv.run s)) ?_ fun es e s' h e' he => h.1 e' he⟩
  intro es a s' h
  exact hf es a s' (h.2 a rfl)

/-- What came before does not take the grounds away. -/
theorem after (hx : Blames G o x) (es : List (Event I O)) (s : S) :
    wp x (fun es' r s' => ∀ e, failedWith o r = some e → G.shown (es ++ es') e s') s :=
  wp_mono (hx.run s) fun _ _ _ h e he => G.later (h e he)

theorem ite {c : Prop} [Decidable c] {y : Cmd I O S E α} (hx : c → Blames G o x) (hy : ¬c → Blames G o y) :
    Blames G o (if c then x else y) := by
  split
  · exact hx ‹_›
  · exact hy ‹_›

end Blames

/-- What is handed on may be looked at before it goes further. -/
theorem HandsOn.bind_of {e : E} {x : Cmd I O S E α} {f : α → Cmd I O S E β} (hx : HandsOn G e o x)
    (hf : ∀ a, o a = none → Blames G u (f a)) (he : ∀ a e', o a = some e' → HandsOn G e' u (f a)) :
    HandsOn G e u (x >>= f) := by
  refine ⟨fun es s hs => wp_bind_of (hx.run es s hs) (fun es₁ a s₁ h => ?_) fun es₁ e' s₁ h e'' he' => h e'' he'⟩
  simp only [← List.append_assoc]
  cases ho : o a with
  | none => exact (hf a ho).after (es ++ es₁) s₁
  | some e' => exact (he a e' ho).run (es ++ es₁) s₁ (h e' ho)

end Dialogue
