import EncedoHem.Lib.Dialogue

namespace Dialogue
variable {I : Type} {O : I → Type} {S E α β : Type}

/-- A reflexive relation between states: what they have in common. -/
structure Likeness (S : Type) where
  rel : S → S → Prop
  refl : ∀ s, rel s s

/-- The difference between states that are alike has no part in the command at all. -/
structure Erases (L : Likeness S) (x : Cmd I O S E α) : Prop where
  same : ∀ s t, L.rel s t → x t = x s

/-- The command fails, or ends in a value that counts as a failure. -/
def Fails (p : α → Prop) (r : Except E α) : Prop := ∀ a, r = .ok a → p a

/-- From states that are alike the command does the same and comes to the same end, in
states that are alike again. After a failure they are one. -/
structure Blind (L : Likeness S) (p : α → Prop) (x : Cmd I O S E α) : Prop where
  run : ∀ s t, L.rel s t → wp x (fun es r s' =>
    ∃ t', Runs x t es r t' ∧ L.rel s' t' ∧ (Fails p r → t' = s')) s

theorem Runs.bind {x : Cmd I O S E α} {f : α → Cmd I O S E β} {s s' s'' : S}
    {es es' : List (Event I O)} {a : α} {r : Except E β} (hx : Runs x s es (.ok a) s')
    (hf : Runs (f a) s' es' r s'') : Runs (x >>= f) s (es ++ es') r s'' :=
  run_bind.mpr ⟨es, (.ok a, s'), es', rfl, hx, hf⟩

theorem Runs.bind_error {x : Cmd I O S E α} {f : α → Cmd I O S E β} {s s' : S}
    {es : List (Event I O)} {e : E} (hx : Runs x s es (.error e) s') :
    Runs (x >>= f) s es (.error e) s' :=
  run_bind.mpr ⟨es, (.error e, s'), [], (List.append_nil es).symm, hx, .ret _⟩

theorem Runs.attempt {x : Cmd I O S E α} {s s' : S} {es : List (Event I O)} {r : Except E α}
    (hx : Runs x s es r s') : Runs x.attempt s es (.ok r) s' :=
  run_bind.mpr ⟨es, (r, s'), [], (List.append_nil es).symm, hx, .ret _⟩

/-- Once the first part of a sequence is known to have run, the rest is a run of the second. -/
theorem Runs.resume {x : Cmd I O S E α} {f : α → Cmd I O S E β} {s s' s'' : S}
    {es rest : List (Event I O)} {a : α} {r : Except E β} (h : Runs (x >>= f) s (es ++ rest) r s'')
    (hx : Runs x s es (.ok a) s') : Runs (f a) s' rest r s'' := by
  obtain ⟨es₁, ⟨r₁, s₁⟩, es₂, he, hx', hf⟩ := run_bind.mp h
  obtain ⟨rfl, hr⟩ := run_prefix hx hx' he
  obtain ⟨rfl, rfl⟩ := Prod.mk.inj hr
  rw [List.append_cancel_left he]
  exact hf

/-- A first part that is known to succeed with `P` leaves a run of the second from there. -/
theorem Runs.through {x : Cmd I O S E α} {f : α → Cmd I O S E β} {P : α → S → Prop} {s s' : S}
    {es : List (Event I O)} {r : Except E β} (h : Runs (x >>= f) s es r s')
    (hx : wp x (fun _ r s' => ∃ a, r = .ok a ∧ P a s') s) :
    ∃ a s₁ rest, P a s₁ ∧ Runs (f a) s₁ rest r s' := by
  obtain ⟨es₁, ⟨r₁, s₁⟩, es₂, -, hx', hf⟩ := run_bind.mp h
  obtain ⟨a, rfl, ha⟩ := hx es₁ r₁ s₁ hx'
  exact ⟨a, s₁, es₂, ha, hf⟩

namespace Erases
variable {L : Likeness S} {x : Cmd I O S E α} {f : α → Cmd I O S E β}

theorem bind (h : Erases L x) : Erases L (x >>= f) := by
  refine ⟨fun s t hl => ?_⟩
  show (x t).bind _ = (x s).bind _
  rw [h.same s t hl]

theorem attempt (h : Erases L x) : Erases L x.attempt := by
  refine ⟨fun s t hl => ?_⟩
  show (x t).bind _ = (x s).bind _
  rw [h.same s t hl]

theorem modify {g : S → S} (h : ∀ s t, L.rel s t → g t = g s) :
    Erases L (Cmd.modify g : Cmd I O S E Unit) := by
  refine ⟨fun s t hl => ?_⟩
  show Prog.ret (Except.ok (), g t) = Prog.ret (Except.ok (), g s)
  rw [h s t hl]

theorem ite {c : Prop} [Decidable c] {y : Cmd I O S E α} (hx : c → Erases L x)
    (hy : ¬c → Erases L y) : Erases L (if c then x else y) := by
  split
  · exact hx ‹_›
  · exact hy ‹_›

theorem blind (h : Erases L x) (p : α → Prop) : Blind L p x := by
  refine ⟨fun s t hl es r s' hr => ⟨s', ?_, L.refl s', fun _ => rfl⟩⟩
  unfold Runs
  rw [h.same s t hl]
  exact hr

end Erases

namespace Blind
variable {L : Likeness S} {p : α → Prop} {q : β → Prop} {x : Cmd I O S E α} {f : α → Cmd I O S E β}

theorem pure {a : α} (h : ¬p a) : Blind L p (Pure.pure a : Cmd I O S E α) :=
  ⟨fun _ t hl => wp_pure.mpr ⟨t, .ret _, hl, fun hp => absurd (hp a rfl) h⟩⟩

theorem ask (i : I) : Blind L (fun _ => False) (Cmd.ask i : Cmd I O S E (O i)) :=
  ⟨fun _ t hl => wp_ask.mpr fun o => ⟨t, .ask i _ o (.ret _), hl, fun hp => (hp o rfl).elim⟩⟩

theorem modify {g : S → S} (h : ∀ s t, L.rel s t → L.rel (g s) (g t)) :
    Blind L (fun _ => False) (Cmd.modify g : Cmd I O S E Unit) :=
  ⟨fun s t hl => wp_modify.mpr ⟨g t, .ret _, h s t hl, fun hp => (hp () rfl).elim⟩⟩

/-- What is done with the state must not see the difference. -/
theorem get_bind {f : S → Cmd I O S E β} (hf : ∀ s, Blind L q (f s))
    (heq : ∀ s t, L.rel s t → f t = f s) : Blind L q (Cmd.get >>= f) := by
  refine ⟨fun s t hl => wp_bind.mpr (wp_get.mpr ?_)⟩
  refine wp_mono ((hf s).run s t hl) fun es r s' h => ?_
  obtain ⟨t', hr, hl', heq'⟩ := h
  rw [← heq s t hl] at hr
  exact ⟨t', run_bind.mpr ⟨[], _, es, rfl, .ret _, hr⟩, hl', heq'⟩

/-- The second part of a sequence counts after the values only that are no failures: after
a failure the states are one. -/
theorem bind (hx : Blind L p x) (hf : ∀ a, ¬p a → Blind L q (f a)) : Blind L q (x >>= f) := by
  refine ⟨fun s t hl => wp_bind_of (hx.run s t hl) ?_ ?_⟩
  · rintro es a s' ⟨t', hr, hl', heq⟩
    by_cases ha : p a
    · have hsame : t' = s' := heq fun b hb => Except.ok.inj hb ▸ ha
      intro es' r s'' hrun
      rw [hsame] at hr
      exact ⟨s'', hr.bind hrun, L.refl s'', fun _ => rfl⟩
    · refine wp_mono ((hf a ha).run s' t' hl') fun es' r s'' h => ?_
      obtain ⟨t'', hrun, hl'', heq''⟩ := h
      exact ⟨t'', hr.bind hrun, hl'', heq''⟩
  · rintro es e s' ⟨t', hr, hl', heq⟩
    have hsame : t' = s' := heq fun _ hb => nomatch hb
    rw [hsame] at hr
    exact ⟨s', hr.bind_error, L.refl s', fun _ => rfl⟩

/-- A failure that is caught is a value that counts as one. -/
theorem attempt (hx : Blind L p x) : Blind L (Fails p) x.attempt := by
  refine ⟨fun s t hl => wp_attempt.mpr (wp_mono (hx.run s t hl) fun es r s' h => ?_)⟩
  obtain ⟨t', hr, hl', heq⟩ := h
  exact ⟨t', hr.attempt, hl', fun hp => heq (hp r rfl)⟩

theorem ite {c : Prop} [Decidable c] {y : Cmd I O S E α} (hx : c → Blind L p x)
    (hy : ¬c → Blind L p y) : Blind L p (if c then x else y) := by
  split
  · exact hx ‹_›
  · exact hy ‹_›

/-- With fewer values that count as failures less is promised. -/
theorem mono {p' : α → Prop} (hx : Blind L p x) (h : ∀ a, p' a → p a) : Blind L p' x := by
  refine ⟨fun s t hl => wp_mono (hx.run s t hl) fun es r s' h' => ?_⟩
  obtain ⟨t', hr, hl', heq⟩ := h'
  exact ⟨t', hr, hl', fun hp => heq fun a ha => h a (hp a ha)⟩

end Blind

theorem not_fails {p : α → Prop} {r : Except E α} (h : ¬Fails p r) : ∃ a, r = .ok a ∧ ¬p a := by
  cases r with
  | ok a => exact ⟨a, rfl, fun hp => h fun b hb => Except.ok.inj hb ▸ hp⟩
  | error e => exact absurd (fun _ hb => nomatch hb) h

/-- As `Blind`, with nothing said about failures. -/
structure Heedless (L : Likeness S) (x : Cmd I O S E α) : Prop where
  run : ∀ s t, L.rel s t → wp x (fun es r s' => ∃ t', Runs x t es r t' ∧ L.rel s' t') s

namespace Heedless
variable {L : Likeness S} {x : Cmd I O S E α} {f : α → Cmd I O S E β}

theorem pure (a : α) : Heedless L (Pure.pure a : Cmd I O S E α) :=
  ⟨fun _ t hl => wp_pure.mpr ⟨t, .ret _, hl⟩⟩

theorem throw (e : E) : Heedless L (Cmd.throw e : Cmd I O S E α) :=
  ⟨fun _ t hl => wp_throw.mpr ⟨t, .ret _, hl⟩⟩

theorem ask (i : I) : Heedless L (Cmd.ask i : Cmd I O S E (O i)) :=
  ⟨fun _ t hl => wp_ask.mpr fun o => ⟨t, .ask i _ o (.ret _), hl⟩⟩

theorem bind (hx : Heedless L x) (hf : ∀ a, Heedless L (f a)) : Heedless L (x >>= f) := by
  refine ⟨fun s t hl => wp_bind_of (hx.run s t hl) ?_ ?_⟩
  · rintro es a s' ⟨t', hr, hl'⟩
    refine wp_mono ((hf a).run s' t' hl') fun es' r s'' h => ?_
    obtain ⟨t'', hrun, hl''⟩ := h
    exact ⟨t'', hr.bind hrun, hl''⟩
  · rintro es e s' ⟨t', hr, hl'⟩
    exact ⟨t', hr.bind_error, hl'⟩

theorem get_bind {f : S → Cmd I O S E β} (hf : ∀ s, Heedless L (f s))
    (heq : ∀ s t, L.rel s t → f t = f s) : Heedless L (Cmd.get >>= f) := by
  refine ⟨fun s t hl => wp_bind.mpr (wp_get.mpr ?_)⟩
  refine wp_mono ((hf s).run s t hl) fun es r s' h => ?_
  obtain ⟨t', hr, hl'⟩ := h
  rw [← heq s t hl] at hr
  exact ⟨t', run_bind.mpr ⟨[], _, es, rfl, .ret _, hr⟩, hl'⟩

theorem ite {c : Prop} [Decidable c] {y : Cmd I O S E α} (hx : c → Heedless L x)
    (hy : ¬c → Heedless L y) : Heedless L (if c then x else y) := by
  split
  · exact hx ‹_›
  · exact hy ‹_›

theorem modify {g : S → S} (h : ∀ s t, L.rel s t → L.rel (g s) (g t)) :
    Heedless L (Cmd.modify g : Cmd I O S E Unit) :=
  ⟨fun s t hl => wp_modify.mpr ⟨g t, .ret _, h s t hl⟩⟩

theorem attempt (hx : Heedless L x) : Blind L (fun _ => False) x.attempt := by
  refine ⟨fun s t hl => wp_attempt.mpr (wp_mono (hx.run s t hl) fun es r s' h => ?_)⟩
  obtain ⟨t', hr, hl'⟩ := h
  exact ⟨t', hr.attempt, hl', fun hp => (hp r rfl).elim⟩

end Heedless

theorem Blind.heedless {L : Likeness S} {p : α → Prop} {x : Cmd I O S E α} (hx : Blind L p x) :
    Heedless L x :=
  ⟨fun s t hl => wp_mono (hx.run s t hl) fun _ _ _ ⟨t', hr, hl', _⟩ => ⟨t', hr, hl'⟩⟩

/-- From states that are alike the same answers lead to the same outcome. -/
theorem Heedless.unique {L : Likeness S} {x : Cmd I O S E α} (hx : Heedless L x) {s t s' t' : S}
    {es : List (Event I O)} {r r' : Except E α} (hl : L.rel s t) (h : Runs x s es r s')
    (h' : Runs x t es r' t') : r = r' := by
  obtain ⟨t'', hr, -⟩ := hx.run s t hl es r s' h
  exact congrArg Prod.fst (run_unique hr h')

end Dialogue
