import EncedoHem.Lib.Willing
import EncedoHem.Proofs.NotFound
import EncedoHem.Proofs.Random

namespace EncedoHem
open Text Dialogue

namespace Call
variable {c : Call} {cfg : Config}

theorem Final.rest {es es' : List Event} {a : Answer} (h : c.Final es a) (hr : c.Rest es') : c.Final (es ++ es') a := by
  obtain ⟨pre, post, scope, req, rfl, hs, hpost⟩ := h
  refine ⟨pre, post ++ es', scope, req, by simp, hs, fun e he => ?_⟩
  rcases List.mem_append.mp he with he | he
  · exact hpost e he
  · exact hr e he

/-- There is one final answer at most. -/
theorem Final.unique {es : List Event} {a a' : Answer} (h : c.Final es a) (h' : c.Final es a') : a = a' := by
  obtain ⟨pre, post, scope, req, rfl, hs, hr⟩ := h
  obtain ⟨pre', post', scope', req', he, hs', hr'⟩ := h'
  rcases split_append he with ⟨mid, rfl, rfl⟩ | ⟨mid, rfl, hmid⟩
  · have := silent_not_sent (hr' _ (List.mem_append_right mid List.mem_cons_self)).1
    simp [hs] at this
  · cases mid with
    | nil =>
      obtain ⟨hhead, -⟩ := List.cons.inj hmid
      simp only [Event.mk.injEq, Op.send.injEq] at hhead
      obtain ⟨⟨rfl, rfl⟩, ha⟩ := hhead
      exact eq_of_heq ha
    | cons e mid =>
      obtain ⟨-, rfl⟩ := List.cons.inj hmid
      have := silent_not_sent (hr _ (List.mem_append_right mid List.mem_cons_self)).1
      simp [hs'] at this

theorem final_doSend (bearer : Option Bytes) (fresh : Bool) :
    Draws (doSend cfg c.scope c.method c.path c.body bearer c.ov fresh) c.Final := by
  refine ⟨fun s => ?_⟩
  rw [wp_doSend]
  intro a b hb
  obtain rfl := Except.ok.inj hb
  exact Final.later ⟨[], [], c.scope, _, rfl, by simp [sent, buildRequest], .nil⟩

/-- What is gone on with after a step: what it was given, or a final answer of its own. -/
def Kept {α : Type} (c : Call) (answer : α → Answer) (given : α) (es : List Event) (a : α) : Prop :=
  (a = given ∧ es = []) ∨ c.Final es (answer a)

theorem Kept.final {α : Type} {answer : α → Answer} {given a : α} {es es' : List Event}
    (h : c.Kept answer given es' a) (hg : c.Final es (answer given)) : c.Final (es ++ es') (answer a) := by
  rcases h with ⟨rfl, rfl⟩ | h
  · simpa using hg
  · exact h.later

theorem final_recoverCert (checkin : Cmd Unit) (bearer : Option Bytes) (a : Answer) :
    Draws (recoverCert cfg checkin (doSend cfg c.scope c.method c.path c.body bearer c.ov true) c.path c.ov a)
      (c.Kept id a) := by
  unfold recoverCert
  apply Draws.bind_of (W := fun es _ => es = []) ⟨fun s => wp_getCtx.mpr fun _ _ => rfl⟩
  intro es s hes
  subst hes
  simp only [List.nil_append]
  split
  · apply Draws.ite (fun _ => .pure (.inl ⟨rfl, rfl⟩))
    intro _
    apply Draws.bind_any
    intro es crc
    cases crc with
    | error rc => exact .bind_any fun _ _ => .bind_any fun _ _ => .throw _ _
    | ok u =>
      apply (final_doSend bearer true).bind_of
      intro es' a' ha'
      split
      · exact .bind_of (W := fun es _ => es = []) ⟨fun s => wp_modifyCtx.mpr fun _ _ => rfl⟩ fun es₁ _ h₁ =>
          .pure (.inr (by simpa [h₁] using ha'.later))
      · exact .bind_any fun _ _ => .bind_any fun _ _ => .throw _ _
      · exact .pure (.inr (by simpa using ha'.later))
  · exact .pure (.inl ⟨rfl, rfl⟩)

theorem final_retryAuth (ensure : Bytes → Cmd Bytes) (r : Response) :
    Draws (retryAuth ensure (fun bearer => doSend cfg c.scope c.method c.path c.body bearer c.ov true) c.path c.scope r)
      (c.Kept .done r) := by
  unfold retryAuth
  split
  · exact .pure (.inl ⟨rfl, rfl⟩)
  · apply Draws.ite (fun _ => .pure (.inl ⟨rfl, rfl⟩))
    intro _
    apply Draws.bind_any; intro es₁ _
    apply Draws.bind_any; intro es₂ _
    apply Draws.bind_any; intro es₃ bearer
    apply (final_doSend (some bearer) true).bind_of
    intro es₄ a ha
    cases a with
    | done r' => exact .pure (.inr (by simpa using ha.later.later.later))
    | failed why expired detail => exact draws_ctxFail ..

/-- The request hands out the body of its final answer, which is a good one. -/
theorem final_requestRaw : Draws (requestRaw cfg c.method c.path c.body c.scope c.ov) fun es b =>
    ∃ resp text, c.Final es (.done resp) ∧ resp.fault = none ∧ resp.body = some text ∧ b = cstr text := by
  apply Draws.ite (fun _ => draws_ctxFail ..)
  intro _
  apply Draws.bind_any; intro es bearer
  apply (final_doSend bearer false).bind_of; intro es₁ a ha
  apply (final_recoverCert _ bearer a).bind_of; intro es₂ a₂ h₂
  have hdone : Draws (requireDone c.path a₂) fun es r => a₂ = .done r ∧ es = [] := by
    cases a₂ with
    | done r => exact .pure ⟨rfl, rfl⟩
    | failed why expired detail => exact .bind_any fun _ _ => .bind_any fun _ _ => .throw _ _
  apply hdone.bind_of; rintro es₃ r ⟨rfl, rfl⟩
  apply (final_retryAuth _ r).bind_of; intro es₄ r₄ h₄
  refine ⟨fun s => wp_judge_of (fun text hf hb b hok => ?_) fun _ _ _ _ _ _ b hok => by cases hok⟩
  refine ⟨r₄, text, ?_, hf, hb, (Except.ok.inj hok).symm⟩
  have hlast : c.Final (es ++ (es₁ ++ es₂ ++ es₄)) (.done r₄) := (h₄.final (h₂.final ha)).later
  simpa using hlast

/-- The final answer to the call's request is a good one, and an object is its body. -/
structure Holds (c : Call) (es : List Event) (resp : Response) (text : Bytes) (root : Json) : Prop where
  final : c.Final es (.done resp)
  good : resp.fault = none
  body : resp.body = some text
  parsed : jsonParse (cstr text) = some root
  object : root.isObject = true

/-- The final answer holds an object that reads as `v`. -/
def Tells {α : Type} (c : Call) (reading : Json → Option α) (es : List Event) (v : α) : Prop :=
  ∃ resp text root, c.Holds es resp text root ∧ reading root = some v

/-- What the call returns is what the final answer to its request tells; and where there is memory, whatever
that answer tells is returned. -/
structure Hears {α : Type} (c : Call) (reading : Json → Option α) (es : List Event) (r : Except Rc α) : Prop where
  sound : ∀ v, r = .ok v → c.Tells reading es v
  complete : Granted es → ∀ v, c.Tells reading es v → r = .ok v

variable {α : Type} {reading : Json → Option α} {es es' : List Event} {r : Except Rc α}

theorem Holds.later {resp : Response} {text : Bytes} {root : Json} (h : c.Holds es' resp text root) :
    c.Holds (es ++ es') resp text root := { h with final := h.final.later }

theorem Hears.before (h : c.Hears reading es' r) (hs : ∀ e ∈ es, c.Silent e) : c.Hears reading (es ++ es') r := by
  constructor
  · intro v hr
    obtain ⟨resp, text, root, hh, hv⟩ := h.sound v hr
    exact ⟨resp, text, root, hh.later, hv⟩
  · intro hg v hv
    obtain ⟨resp, text, root, hh, hv⟩ := hv
    exact h.complete hg.right v ⟨resp, text, root, { hh with final := hh.final.right hs }, hv⟩

theorem Hears.silent {rc : Rc} (hs : ∀ e ∈ es, c.Silent e) : c.Hears reading es (.error rc) := by
  constructor
  · intro v hr
    cases hr
  · intro _ v hv
    obtain ⟨resp, text, root, hh, -⟩ := hv
    exact absurd hs hh.final.not_silent

end Call

/-- The exchange is not a refusal of memory. -/
def Unrefused (e : Event) : Prop := e ≠ ⟨.alloc, false⟩

theorem Granted.unrefused {es : List Event} (h : Granted es) : ∀ e ∈ es, Unrefused e := fun _ he hn => h (hn ▸ he)

/-- The command comes to `v` without a word, as far as there is memory. -/
structure Renders {α : Type} (y : Cmd α) (v : Option α) : Prop where
  quiet : Quiet y
  yields : Yields y fun a => v = some a
  granted : ∀ a, v = some a → Willing Unrefused y (· = a)

theorem willing_alloc : Willing Unrefused alloc (· = true) := by
  apply Willing.ask
  intro ok hok
  cases ok with
  | true => rfl
  | false => exact absurd rfl hok

theorem willing_need : Willing Unrefused need fun _ => True := by
  apply willing_alloc.bind
  intro ok hok
  subst hok
  exact .pure trivial

namespace Renders
variable {α : Type} {y : Cmd α} {v : Option α}

theorem pure (a : α) : Renders (Pure.pure a : Cmd α) (some a) :=
  ⟨.pure a, .pure rfl, fun _ hb => .pure (Option.some.inj hb)⟩

theorem ctxFail (rc : Rc) (status : Int) (payload : Option Bytes) (fmt : List Piece) :
    Renders (ctxFail rc status payload fmt : Cmd α) none :=
  ⟨quiet_neutral.ctxFail .., yields_ctxFail .., fun a ha => by cases ha⟩

theorem need_bind (hy : Renders y v) : Renders (need >>= fun _ => y) v :=
  ⟨.bind quiet_neutral.need fun _ => hy.quiet, .bind fun _ => hy.yields,
    fun a ha => willing_need.bind fun _ _ => hy.granted a ha⟩

theorem bind {β : Type} {f : α → Cmd β} {g : α → Option β} (hy : Renders y v) (hf : ∀ a, Renders (f a) (g a)) :
    Renders (y >>= f) (v.bind g) := by
  constructor
  · exact .bind hy.quiet fun a => (hf a).quiet
  · apply hy.yields.bind_of
    intro a ha
    rw [ha]
    exact (hf a).yields
  · intro b hb
    obtain ⟨a, ha, hab⟩ := Option.bind_eq_some_iff.mp hb
    apply (hy.granted a ha).bind
    intro found hfound
    rw [hfound]
    exact (hf a).granted b hab

theorem map {β : Type} (hy : Renders y v) (f : α → β) : Renders (y >>= fun a => Pure.pure (f a)) (v.map f) := by
  rw [Option.map_eq_bind]
  exact hy.bind fun a => .pure (f a)

theorem parseBody (path b : Bytes) : Renders (parseBody path b) ((jsonParse b).filter (·.isObject)) := by
  refine ⟨quiet_neutral.parseBody path b, ?_, fun root hroot => ?_⟩
  · refine .bind_of (W := fun root => ∀ v, root = some v → jsonParse b = some v) (.bind fun ok => .pure ?_)
      fun root h => ?_
    · intro v hv
      split at hv
      · exact hv
      · cases hv
    · cases root with
      | none => exact yields_ctxFail ..
      | some v =>
        apply Yields.ite
        · intro hobj
          exact .pure (by simp [h v rfl, hobj])
        · exact fun _ => yields_ctxFail ..
  · obtain ⟨hparse, hobj⟩ := Option.filter_eq_some_iff.mp hroot
    apply Willing.bind (V := (· = some root))
    · apply willing_alloc.bind
      intro ok hok
      subst hok
      exact .pure hparse
    · intro found hfound
      subst hfound
      exact .ite (fun _ => .pure rfl) fun hn => absurd hobj hn

end Renders

/-- In every run the call hears its own request. -/
def Heard {α : Type} (c : Call) (reading : Json → Option α) (x : Cmd α) : Prop :=
  ∀ s, wp x (fun es r _ => c.Hears reading es r) s

namespace Heard
variable {cfg : Config} {c : Call} {α β : Type} {reading : Json → Option α}

theorem refused (rc : Rc) (status : Int) (payload : Option Bytes) (fmt : List Piece) :
    Heard c reading (ctxFail rc status payload fmt) :=
  fun _ => wp_ctxFail_of fun _ _ hc _ _ => .silent (Call.silent_calm hc)

theorem thrown (rc : Rc) : Heard c reading (throwRc rc) := fun _ => wp_throwRc.mpr (.silent (by simp))

/-- Steps that nothing of is seen from outside go before the request. -/
theorem bind_yields {x : Cmd β} {f : β → Cmd α} {V : β → Prop} (hq : Quiet x) (hv : Yields x V)
    (hf : ∀ a, V a → Heard c reading (f a)) : Heard c reading (x >>= f) := by
  intro s
  refine wp_bind_of (wp_and (hq.run s) (hv.run s)) (fun es a s₁ h => ?_) fun es rc s₁ h => .silent (Call.silent_calm h.1)
  exact wp_mono (hf a (h.2 a rfl) s₁) fun es' r s₂ h' => h'.before (Call.silent_calm h.1)

theorem bind {x : Cmd β} {f : β → Cmd α} (hq : Quiet x) (hf : ∀ a, Heard c reading (f a)) :
    Heard c reading (x >>= f) :=
  bind_yields (V := fun _ => True) hq ⟨fun _ _ _ _ _ _ _ => trivial⟩ fun a _ => hf a

theorem ite {p : Prop} [Decidable p] {x y : Cmd α} (hx : p → Heard c reading x) (hy : ¬p → Heard c reading y) :
    Heard c reading (if p then x else y) := by
  split
  · exact hx ‹_›
  · exact hy ‹_›

/-- The request itself, and what is read off the object that answers it. -/
theorem asked {path : Bytes} {parse : Json → Cmd α} (hp : c.path = lit "/api/" ++ path) (ho : c.ov = .default)
    (hparse : ∀ root, Renders (parse root) (reading root)) :
    Heard c reading ((Api.requestJson c.method path c.body c.scope : Api cfg Json).cmd >>= parse) := by
  intro s
  change wp ((EncedoHem.requestRaw cfg c.method (lit "/api/" ++ path) c.body c.scope .default >>= fun b =>
    EncedoHem.parseBody (lit "/api/" ++ path) b) >>= parse) _ s
  rw [← hp, ← ho, Cmd.bind_assoc]
  refine wp_bind_of (wp_and (Call.final_requestRaw.run s) (wp_told_request answered_telling))
    (fun es b s₁ h => ?_) fun es rc s₁ h => ?_
  · obtain ⟨resp, text, hfinal, hgood, hbody, rfl⟩ := h.1 b rfl
    have hread : Renders (EncedoHem.parseBody c.path (cstr text) >>= parse)
        (((jsonParse (cstr text)).filter (·.isObject)).bind reading) :=
      (Renders.parseBody c.path (cstr text)).bind hparse
    refine wp_mono (wp_and (hread.quiet.run s₁) (wp_and (hread.yields.run s₁) fun es' r s' hrun v hv =>
      (hread.granted v hv).run s₁ es' r s' hrun)) fun es' r s₂ h' => ?_
    have hlast : c.Final (es ++ es') (.done resp) := hfinal.rest (.calm h'.1)
    constructor
    · intro v hr
      obtain ⟨root, hroot, hv⟩ := Option.bind_eq_some_iff.mp (h'.2.1 v hr)
      obtain ⟨hparsed, hobj⟩ := Option.filter_eq_some_iff.mp hroot
      exact ⟨resp, text, root, ⟨hlast, hgood, hbody, hparsed, hobj⟩, hv⟩
    · intro hg v hv
      obtain ⟨resp', text', root, hh, hv⟩ := hv
      obtain rfl := Answer.done.inj (hlast.unique hh.final)
      obtain rfl := Option.some.inj (hbody.symm.trans hh.body)
      have hread : ((jsonParse (cstr text)).filter (·.isObject)).bind reading = some v := by
        rw [hh.parsed, Option.filter_some_pos hh.object]
        exact hv
      obtain ⟨w, hr, rfl⟩ := h'.2.2 v hread hg.right.unrefused
      exact hr
  · constructor
    · intro v hr
      cases hr
    · intro _ v hv
      obtain ⟨resp, text, root, hh, -⟩ := hv
      obtain ⟨b, hb⟩ := h.2.complete resp hh.final hh.good
      cases hb

end Heard

end EncedoHem
