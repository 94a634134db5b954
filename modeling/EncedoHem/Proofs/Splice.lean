import EncedoHem.Lib.Traced
import EncedoHem.Proofs.JsonAccepted
import EncedoHem.Proofs.Plain
import EncedoHem.Proofs.CheckinLegs
import EncedoHem.System
import EncedoHem.Scripted

namespace EncedoHem
open Text Dialogue

/-- The cloud at `url` has answered with the bundle, asked under no scope and verified in full. -/
def Provisioned (url : Bytes) (h : List Event) (bundle : Bytes) : Prop :=
  ∃ req r b, (⟨.send none req, .done r⟩ : Event) ∈ h ∧ req.method = .post ∧ req.path = url ∧
    req.tlsOverride = .verify ∧ r.fault = none ∧ r.body = some b ∧ bundle = cstr b

theorem Provisioned.mono {url bundle : Bytes} {es h : List Event} (hs : es ⊆ h) (hp : Provisioned url es bundle) :
    Provisioned url h bundle := by
  obtain ⟨req, r, b, hm, hrest⟩ := hp
  exact ⟨req, r, b, hs hm, hrest⟩

/-- What a recovery may post to the device after a history. -/
structure Installs (url : Bytes) (h : List Event) (sc : Bytes) (req : Request) : Prop where
  scope : sc = systemConfigScope
  path : req.path = lit "/api/system/config"
  bundle : ∃ bundle v, Provisioned url h bundle ∧ req.body = some (Api.spliceBundle bundle) ∧
    jsonParse bundle = some v ∧ (v.getString (lit "crt")).isSome = true

def recoverLaw (url : Bytes) : Law Op Ans Ctx where
  inv _ _ := True
  allows h e := match e with
    | ⟨.send (some sc) req, _⟩ => req.method = .post → Installs url h sc req
    | _ => True

namespace Recovering
variable {cfg : Config} {url bundle : Bytes} {v : Json} {h : List Event} {α : Type}

theorem still {s s' : Ctx} : (recoverLaw url).kept.rel s [] s' := fun _ _ => ⟨trivial, .nil⟩

theorem single {s : Ctx} {e : Event} (he : ∀ h, (recoverLaw url).allows h e) : (recoverLaw url).kept.rel s [e] s :=
  fun h _ => ⟨trivial, .single (he h)⟩

theorem neutral : Neutral (recoverLaw url).kept where
  quiet s e he := by
    apply single
    intro h
    obtain ⟨op, ans⟩ := e
    cases op with
    | send scope req => exact absurd he Bool.false_ne_true
    | _ => exact trivial
  error _ _ := still

/-- The machinery under a request makes none under a scope. -/
theorem plain {x : Cmd α} (hx : Plain x) : Keeps (recoverLaw url).kept x := by
  apply hx.mono
  intro s es s' hp h _
  refine ⟨trivial, .of_forall fun e he h => ?_⟩
  have hpe := hp e he
  obtain ⟨op, ans⟩ := e
  cases op with
  | send scope req =>
    have hn : scope = none := hpe.unscoped
    subst hn
    exact trivial
  | _ => exact trivial

end Recovering

/-- The body of a post under a scope. -/
def Event.posted : Event → Option Bytes
  | ⟨.send (some _) req, _⟩ => if req.method = .post then req.body else none
  | _ => none

end EncedoHem
