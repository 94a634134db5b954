import EncedoHem.Lib.Willing
import EncedoHem.Proofs.CheckinLegs
import EncedoHem.Scripted

namespace EncedoHem
open Text Dialogue

/-- What a call that returns a value leaves in its `*out`, which was `NULL`. -/
def outcome {α : Type} (r : Except Rc α) : Except Rc Unit × Option α :=
  match r with
  | .ok a => (.ok (), some a)
  | .error rc => (.error rc, none)

/-- The dispatches among the events, in their order. -/
def sends (es : List Event) : List (Option Bytes × Request × Answer) := es.filterMap Event.sent

theorem Calm.sends {es : List Event} (h : Calm es) : sends es = [] := by
  apply List.filterMap_eq_nil_iff.mpr
  intro e he
  have hq := h e he
  obtain ⟨op, ans⟩ := e
  cases op with
  | send scope req => exact absurd hq Bool.false_ne_true
  | _ => rfl

/-- There was memory where there was need of it. -/
def Supplied : Event → Prop
  | ⟨.alloc, ok⟩ => ok = true
  | _ => True

/-- The body of an answer that a leg goes on with. -/
def Answer.delivered : Answer → Option Bytes
  | .done ⟨status, some b⟩ => if 200 ≤ status ∧ status < 300 ∧ b ≠ [] then some b else none
  | _ => none

theorem delivered_iff {r : Response} {b : Bytes} :
    (Answer.done r).delivered = some b ↔ r.fault = none ∧ r.body = some b := by
  obtain ⟨status, body⟩ := r
  unfold Response.fault Answer.delivered
  by_cases hs : status < 200 ∨ 300 ≤ status
  · have hbad : ¬(200 ≤ status ∧ status < 300) := by omega
    cases body with
    | none => simp
    | some c => simp [hs, ← and_assoc, hbad]
  · have hgood : 200 ≤ status ∧ status < 300 := by omega
    cases body with
    | none => simp
    | some c =>
      cases c with
      | nil => simp [hs]
      | cons x c => simp [hs, hgood]

/-- The dispatches of a check-in, each leg with the body that the one before it was answered with,
and the body that comes back from the last of them. -/
inductive Relayed (cfg : Config) (relax : Bool) : List (Option Bytes × Request × Answer) → Option Bytes → Prop where
  | unsent (ht : cfg.hasTransport = false) : Relayed cfg relax [] none
  | challenge (a : Answer) (h : a.delivered = none) : Relayed cfg relax
      [(none, buildRequest cfg .get checkinPath none none (deviceOverride relax) false, a)] none
  | verify (a₁ a₂ : Answer) (b₁ : Bytes) (h₁ : a₁.delivered = some b₁) (h₂ : a₂.delivered = none) :
      Relayed cfg relax
        [(none, buildRequest cfg .get checkinPath none none (deviceOverride relax) false, a₁),
          (none, buildRequest cfg .post cfg.checkinUrl (some b₁) none .verify false, a₂)] none
  | deliver (a₁ a₂ a₃ : Answer) (b₁ b₂ : Bytes) (h₁ : a₁.delivered = some b₁) (h₂ : a₂.delivered = some b₂) :
      Relayed cfg relax
        [(none, buildRequest cfg .get checkinPath none none (deviceOverride relax) false, a₁),
          (none, buildRequest cfg .post cfg.checkinUrl (some b₁) none .verify false, a₂),
          (none, buildRequest cfg .post checkinPath (some b₂) none (deviceOverride relax) false, a₃)] a₃.delivered

/-- The body of an answer, whatever its status. -/
def Answer.text : Answer → Option Bytes
  | .done r => r.body
  | .failed _ _ _ => none

/-- The bodies of the answers hold no zero. -/
def Unbroken (es : List Event) : Prop := ∀ a ∈ (sends es).map (·.2.2), ∀ b ∈ a.text, ∀ c ∈ b, c ≠ 0

/-- What came back is an object. -/
def Accepted (final : Option Bytes) (root : Json) : Prop :=
  ∃ b, final = some b ∧ jsonParse b = some root ∧ root.isObject = true

/-- What the legs of a check-in come to. -/
structure Legs (cfg : Config) (relax : Bool) (es : List Event) (r : Except Rc (Bytes × Bytes × Json)) : Prop where
  relayed : Unbroken es → ∃ final, Relayed cfg relax (sends es) final ∧
    (∀ p, r = .ok p → Accepted final p.2.2) ∧
    (∀ rc, r = .error rc → (∀ e ∈ es, Supplied e) → ∀ root, ¬Accepted final root)

/-- A body of an unbroken run goes on as it came. -/
theorem Unbroken.body {es : List Event} (h : Unbroken es) {a : Answer} {b : Bytes}
    (hm : a ∈ (sends es).map (·.2.2)) (hb : a.delivered = some b) : cstr b = b := by
  cases a with
  | failed why expired detail => exact nomatch hb
  | done r => exact cstr_of_no_zero (h _ hm b (delivered_iff.mp hb).right)

/-- A leg that hands nothing on ends the relay. -/
theorem Legs.failed {cfg : Config} {relax : Bool} {es : List Event} {rc : Rc}
    (h : Unbroken es → Relayed cfg relax (sends es) none) : Legs cfg relax es (.error rc) :=
  ⟨fun hu => ⟨none, h hu, (fun _ hr => nomatch hr), fun _ _ _ _ hf => nomatch hf.choose_spec.left⟩⟩

namespace Supplied

abbrev Gathers {α : Type} (x : Cmd α) (V : α → Prop) : Prop := Willing Supplied x V

theorem alloc : Gathers alloc fun ok => ok = true := .ask fun _ ho => ho

theorem need : Gathers need fun _ => True :=
  .bind alloc fun _ hok => .ite (fun _ => .pure trivial) fun hn => absurd hok hn

theorem optStr (root : Json) (key : Bytes) : Gathers (optStr root key) fun _ => True := by
  unfold EncedoHem.optStr
  split
  · exact .pure trivial
  · exact .bind need fun _ _ => .pure trivial

theorem parseJson (b : Bytes) : Gathers (parseJson b) fun _ => True := .bind alloc fun _ _ => .pure trivial

/-- Whatever the envelope holds, only memory can fail the harvest of a claim. -/
theorem harvestJwtClaim (envelope envKey claim : Bytes) : Gathers (harvestJwtClaim envelope envKey claim) fun _ => True := by
  refine .bind (parseJson _) fun env _ => ?_
  split
  · exact .pure trivial
  · refine .ite (fun _ => .pure trivial) fun _ => .bind need fun _ _ => ?_
    split
    · exact .pure trivial
    · refine .bind (parseJson _) fun payload _ => ?_
      split
      · exact .pure trivial
      · exact .bind need fun _ _ => .pure trivial

theorem harvestCurrentSerial (challenge : Bytes) : Gathers (harvestCurrentSerial challenge) fun _ => True := by
  refine .bind (harvestJwtClaim ..) fun csn _ => ?_
  split
  · exact .pure trivial
  · exact .pure trivial
  · exact .bind need fun _ _ => .pure trivial

theorem harvest (challenge verified : Bytes) (root : Json) : Gathers (harvest challenge verified root) fun _ => True := by
  have hparse : Gathers (parseCheckin root) fun _ => True :=
    .bind need fun _ _ => .bind (optStr ..) fun _ _ => .bind (optStr ..) fun _ _ => .bind (optStr ..) fun _ _ =>
      .bind (optStr ..) fun _ _ => .pure trivial
  exact .bind hparse fun info _ => .bind (harvestJwtClaim ..) fun chain _ =>
    .bind (harvestCurrentSerial _) fun _ _ => .pure trivial

end Supplied

end EncedoHem
