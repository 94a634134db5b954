import EncedoHem.Lib.Dialogue

namespace Dialogue
variable {I : Type} {O : I → Type} {S E α β : Type}

/-- Where the last of the exchanges that show anything to `f` stands. -/
theorem latest_split {f : Event I O → Option β} {es : List (Event I O)} {b : β} (h : latest f es = some b) :
    ∃ pre e post, es = pre ++ e :: post ∧ f e = some b ∧ ∀ d ∈ post, f d = none := by
  obtain ⟨ys, hys⟩ := List.getLast?_eq_some_iff.mp h
  obtain ⟨es₁, es₂, rfl, -, h₂⟩ := List.filterMap_eq_append_iff.mp hys
  obtain ⟨mid, e, post, rfl, -, he, hpost⟩ := List.filterMap_eq_cons_iff.mp h₂
  exact ⟨es₁ ++ mid, e, post, by simp, he, List.filterMap_eq_nil_iff.mp hpost⟩

theorem Draws.attempt {x : Cmd I O S E α} {V : List (Event I O) → α → Prop} (hx : Draws x V) :
    Draws x.attempt fun es r => ∀ a, r = .ok a → V es a :=
  ⟨fun s => wp_attempt.mpr (wp_mono (hx.run s) fun _ _ _ h _ hb => Except.ok.inj hb ▸ h)⟩

/-- What was attempted is gone on with as its outcome says. -/
theorem Draws.attempt_bind {x : Cmd I O S E α} {g : Except E α → Cmd I O S E β} {V : List (Event I O) → α → Prop}
    {U : List (Event I O) → β → Prop} (hx : Draws x V)
    (hok : ∀ es a, V es a → Draws (g (.ok a)) fun es' => U (es ++ es'))
    (herr : ∀ es e, Draws (g (.error e)) fun es' => U (es ++ es')) : Draws (x.attempt >>= g) U := by
  refine hx.attempt.bind_of fun es r h => ?_
  cases r with
  | ok a => exact hok es a (h a rfl)
  | error e => exact herr es e

/-- What a command shows whatever it comes to. -/
theorem Draws.any {x : Cmd I O S E α} {V : List (Event I O) → α → Prop} (h : ∀ es a, V es a) : Draws x V :=
  ⟨fun _ es _ _ _ a _ => h es a⟩

/-- What holds of the state after a history, and the exchanges that are allowed after one. -/
structure Law (I : Type) (O : I → Type) (S : Type) where
  inv : List (Event I O) → S → Prop
  allows : List (Event I O) → Event I O → Prop

variable {L : Law I O S} {h es es' : List (Event I O)}

/-- After the history `h` every exchange of `es` is allowed where it is made. -/
def Obeys (L : Law I O S) (h es : List (Event I O)) : Prop :=
  ∀ pre e post, es = pre ++ e :: post → L.allows (h ++ pre) e

namespace Obeys

theorem nil : Obeys L h [] := fun pre e post he => by simp at he

theorem single {e : Event I O} (he : L.allows h e) : Obeys L h [e] := by
  intro pre _ post hs
  cases pre with
  | nil =>
    obtain ⟨rfl, -⟩ := List.cons.inj hs
    simpa using he
  | cons d pre => simp at hs

theorem append (hes : Obeys L h es) (hes' : Obeys L (h ++ es) es') : Obeys L h (es ++ es') := by
  intro pre e post hs
  rcases split_append hs with ⟨mid, rfl, rfl⟩ | ⟨mid, rfl, rfl⟩
  · exact hes pre e mid rfl
  · rw [← List.append_assoc]
    exact hes' mid e post rfl

/-- Exchanges that are allowed after every history. -/
theorem of_forall (he : ∀ e ∈ es, ∀ h, L.allows h e) : Obeys L h es := by
  intro pre e post hs
  exact he e (hs ▸ List.mem_append_right pre List.mem_cons_self) (h ++ pre)

end Obeys

/-- The law is kept from any history on that it holds after. -/
def Law.kept (L : Law I O S) : Contract I O S where
  rel s es s' := ∀ h, L.inv h s → L.inv (h ++ es) s' ∧ Obeys L h es
  refl s h hs := ⟨by simpa using hs, .nil⟩
  trans := by
    intro s es s' es' s'' hr hr' h hs
    obtain ⟨hs', ho⟩ := hr h hs
    obtain ⟨hs'', ho'⟩ := hr' _ hs'
    exact ⟨List.append_assoc h es es' ▸ hs'', ho.append ho'⟩

/-- After the history `h` the command keeps the law, and where it succeeds the history that it leads to and
its value satisfy `V`. -/
structure After (L : Law I O S) (h : List (Event I O)) (x : Cmd I O S E α)
    (V : List (Event I O) → α → Prop) : Prop where
  run : ∀ s, L.inv h s →
    wp x (fun es r s' => L.inv (h ++ es) s' ∧ Obeys L h es ∧ ∀ a, r = .ok a → V (h ++ es) a) s

namespace After
variable {x : Cmd I O S E α} {f : α → Cmd I O S E β} {V W : List (Event I O) → α → Prop}
  {U : List (Event I O) → β → Prop}

theorem pure {a : α} (ha : V h a) : After L h (Pure.pure a : Cmd I O S E α) V := by
  refine ⟨fun s hs => wp_pure.mpr ?_⟩
  rw [List.append_nil]
  exact ⟨hs, .nil, fun b hb => Except.ok.inj hb ▸ ha⟩

theorem throw (e : E) : After L h (Cmd.throw e : Cmd I O S E α) V :=
  ⟨fun _ hs => wp_throw.mpr ⟨by simpa using hs, .nil, fun _ hb => by cases hb⟩⟩

/-- What is read is a state that the history leads to. -/
theorem get : After L h (Cmd.get : Cmd I O S E S) fun h' s => h' = h ∧ L.inv h s := by
  refine ⟨fun s hs => wp_get.mpr ?_⟩
  rw [List.append_nil]
  exact ⟨hs, .nil, fun b hb => Except.ok.inj hb ▸ ⟨rfl, hs⟩⟩

theorem mono (hx : After L h x V) (hv : ∀ h' a, V h' a → W h' a) : After L h x W :=
  ⟨fun s hs => wp_mono (hx.run s hs) fun _ _ _ hk => ⟨hk.1, hk.2.1, fun a ha => hv _ a (hk.2.2 a ha)⟩⟩

/-- A command that keeps the law after every history, with what a success shows by itself. -/
theorem of_draws (hx : Keeps L.kept x) (hv : Draws x V) : After L h x fun h' a => ∃ es, h' = h ++ es ∧ V es a := by
  refine ⟨fun s hs => wp_mono (wp_and (hx.run s) (hv.run s)) fun es r s' hk => ?_⟩
  obtain ⟨hs', ho⟩ := hk.1 h hs
  exact ⟨hs', ho, fun a ha => ⟨es, rfl, hk.2 a ha⟩⟩

theorem of_yields {v : α → Prop} (hx : Keeps L.kept x) (hv : Yields x v) : After L h x fun _ a => v a := by
  refine ⟨fun s hs => wp_mono (wp_and (hx.run s) (hv.run s)) fun es r s' hk => ?_⟩
  obtain ⟨hs', ho⟩ := hk.1 h hs
  exact ⟨hs', ho, hk.2⟩

theorem of_keeps (hx : Keeps L.kept x) : After L h x fun _ _ => True :=
  of_yields hx ⟨fun _ _ _ _ _ _ _ => trivial⟩

theorem of_emits {P : Event I O → Prop} (hx : Keeps L.kept x) (he : Keeps (Emits P) x) :
    After L h x fun h' _ => ∃ es, h' = h ++ es ∧ ∀ e ∈ es, P e :=
  of_draws hx ⟨fun s => wp_mono (he.run s) fun _ _ _ hes _ _ => hes⟩

theorem and (hx : After L h x V) (hx' : After L h x W) : After L h x fun h' a => V h' a ∧ W h' a :=
  ⟨fun s hs => wp_mono (wp_and (hx.run s hs) (hx'.run s hs)) fun _ _ _ hk =>
    ⟨hk.1.1, hk.1.2.1, fun a ha => ⟨hk.1.2.2 a ha, hk.2.2.2 a ha⟩⟩⟩

theorem and_yields {v : α → Prop} (hx : After L h x V) (hv : Yields x v) : After L h x fun h' a => V h' a ∧ v a :=
  ⟨fun s hs => wp_mono (wp_and (hx.run s hs) (hv.run s)) fun _ _ _ hk =>
    ⟨hk.1.1, hk.1.2.1, fun a ha => ⟨hk.1.2.2 a ha, hk.2 a ha⟩⟩⟩

/-- The rule of sequencing. -/
theorem bind (hx : After L h x W) (hf : ∀ h' a, W h' a → After L h' (f a) U) : After L h (x >>= f) U := by
  refine ⟨fun s hs => wp_bind_of (hx.run s hs) ?_ ?_⟩
  · intro es a s' hk
    refine wp_mono ((hf _ a (hk.2.2 a rfl)).run s' hk.1) fun es' r s'' hk' => ?_
    rw [← List.append_assoc]
    exact ⟨hk'.1, hk.2.1.append hk'.2.1, hk'.2.2⟩
  · intro es e s' hk
    exact ⟨hk.1, hk.2.1, fun b hb => by cases hb⟩

theorem attempt (hx : After L h x V) : After L h x.attempt fun h' r => ∀ a, r = .ok a → V h' a := by
  refine ⟨fun s hs => wp_attempt.mpr (wp_mono (hx.run s hs) fun es r s' hk => ?_)⟩
  exact ⟨hk.1, hk.2.1, fun b hb => Except.ok.inj hb ▸ hk.2.2⟩

theorem ite {c : Prop} [Decidable c] {y : Cmd I O S E α} (hx : c → After L h x V) (hy : ¬c → After L h y V) :
    After L h (if c then x else y) V := by
  split
  · exact hx ‹_›
  · exact hy ‹_›

/-- What is established after every history is kept by the contract. -/
theorem keeps (hx : ∀ h, After L h x V) : Keeps L.kept x :=
  ⟨fun s es r s' hr h hs =>
    have hk := (hx h).run s hs es r s' hr
    ⟨hk.1, hk.2.1⟩⟩

end After

/-- The law after those histories alone that `P` holds of. -/
def Law.given (L : Law I O S) (P : List (Event I O) → Prop) : Law I O S where
  inv h s := L.inv h s ∧ P h
  allows := L.allows

section
variable {x : Cmd I O S E α} {V : List (Event I O) → α → Prop} {P : List (Event I O) → Prop}
  (hP : ∀ h es, P h → P (h ++ es))
include hP

theorem Law.given_rel {s s' : S} (hr : L.kept.rel s es s') : (L.given P).kept.rel s es s' := by
  intro h hs
  obtain ⟨hs', ho⟩ := hr h hs.1
  exact ⟨⟨hs', hP h es hs.2⟩, ho⟩

/-- What is established after such histories is kept by the law after them. -/
theorem After.given (hx : ∀ h, P h → After L h x V) : Keeps (L.given P).kept x := by
  refine ⟨fun s es r s' hr h hs => ?_⟩
  obtain ⟨hs', ho, -⟩ := (hx h hs.2).run s hs.1 es r s' hr
  exact ⟨⟨hs', hP h es hs.2⟩, ho⟩

omit hP in
theorem After.of_given (hx : Keeps (L.given P).kept x) (hp : P h) : After L h x fun _ _ => True := by
  refine ⟨fun s hs es r s' hr => ?_⟩
  obtain ⟨hs', ho⟩ := hx.run s es r s' hr h ⟨hs, hp⟩
  exact ⟨hs'.1, ho, fun _ _ => trivial⟩

end

end Dialogue
