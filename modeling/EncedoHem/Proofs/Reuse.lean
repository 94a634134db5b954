import EncedoHem.Proofs.Posture

namespace EncedoHem
open Text

/-- The transport after a sequence of requests. -/
def curlAfter (st : CurlState) : List (Request × Bool × Transfer) → CurlState
  | [] => st
  | (req, memory, t) :: rest => curlAfter (curlSend st req memory t).2.2 rest

/-- The request is set up with a body of its own, be it an empty one. -/
def Request.BringsBody (req : Request) : Prop := req.method = .post ∨ (req.method ≠ .get ∧ req.body ≠ none)

/-- Both limits of the request are set. -/
structure Request.Limited (req : Request) : Prop where
  connect : 0 < req.connectTimeoutMs
  total : 0 < req.totalTimeoutMs

/-- The handle is set up like the other one. A body that is left on it belongs to no request: the handle is one for
a request without a body then. -/
structure Easy.SetUpLike (req : Request) (h h' : Easy) : Prop where
  options : { h with postFields := none } = { h' with postFields := none }
  body : req.BringsBody → h.postFields = h'.postFields
  bodiless : ¬req.BringsBody → h.post = false ∧ h.httpGet = true

namespace CurlState

/-- What a transport keeps of how it was made. -/
structure MadeLike (new st : CurlState) : Prop where
  baseUrl : st.baseUrl = new.baseUrl
  tlsMode : st.tlsMode = new.tlsMode
  caFile : st.caFile = new.caFile
  caInfo : new.tlsMode ≠ .caFile → st.handle.caInfo = new.handle.caInfo

variable {new st : CurlState}

theorem MadeLike.refl (st : CurlState) : MadeLike st st := ⟨rfl, rfl, rfl, fun _ => rfl⟩

/-- The marks of the last request have no part in it. -/
theorem MadeLike.cleared (h : MadeLike new st) : MadeLike new { st with tlsExpired := false, detail := [] } :=
  ⟨h.baseUrl, h.tlsMode, h.caFile, h.caInfo⟩

theorem MadeLike.prepare_caInfo (h : MadeLike new st) (req : Request) :
    (prepare st req).caInfo = (prepare new req).caInfo := by
  rw [CurlState.prepare_caInfo, CurlState.prepare_caInfo, h.tlsMode, h.caFile]
  by_cases hm : new.tlsMode = .caFile
  · rw [if_pos hm, if_pos hm]
  · rw [if_neg hm, if_neg hm, h.caInfo hm]

/-- The method is set up from a clean start, with a body where the request brings one. -/
theorem applyMethod_like (req : Request) (h h' : Easy) :
    let e := applyMethod req.method req.body (resetMethod h)
    let e' := applyMethod req.method req.body (resetMethod h')
    (e.customRequest = e'.customRequest ∧ e.post = e'.post ∧ e.nobody = e'.nobody ∧ e.httpGet = e'.httpGet) ∧
      (req.BringsBody → e.postFields = e'.postFields) ∧ (¬req.BringsBody → e.post = false ∧ e.httpGet = true) := by
  obtain ⟨method, path, headers, body, connect, total, ov, fresh⟩ := req
  cases method with
  | get => simp [applyMethod, resetMethod, Request.BringsBody]
  | post => simp [applyMethod, resetMethod, Request.BringsBody]
  | put => cases body <;> simp [applyMethod, resetMethod, Request.BringsBody]
  | delete => cases body <;> simp [applyMethod, resetMethod, Request.BringsBody]
  | patch => cases body <;> simp [applyMethod, resetMethod, Request.BringsBody]

theorem MadeLike.prepare (h : MadeLike new st) {req : Request} (hl : req.Limited) :
    Easy.SetUpLike req (prepare st req) (prepare new req) := by
  obtain ⟨⟨hcustom, hpost, hnobody, hget⟩, hbody, hbodiless⟩ := applyMethod_like req st.handle new.handle
  have hca := h.prepare_caInfo req
  constructor
  · simp only [EncedoHem.prepare, applyTlsVerify, h.tlsMode, h.caFile, h.baseUrl, hl.connect, hl.total, ↓reduceIte] at hca ⊢
    split at hca
    · rename_i hm
      simp only [hm, ↓reduceIte, hcustom, hpost, hnobody, hget]
    · rename_i hm
      simp only [hm, ↓reduceIte, hcustom, hpost, hnobody, hget, hca]
  · intro hb
    simp only [EncedoHem.prepare, applyTlsVerify, h.tlsMode]
    split
    · exact hbody hb
    · exact hbody hb
  · intro hb
    simp only [EncedoHem.prepare, applyTlsVerify, h.tlsMode]
    split
    · exact hbodiless hb
    · exact hbodiless hb

/-- A request leaves the transport as it was made. -/
theorem MadeLike.send (h : MadeLike new st) (req : Request) (memory : Bool) (t : Transfer) :
    MadeLike new (curlSend st req memory t).2.2 := by
  have hca : new.tlsMode ≠ .caFile → (EncedoHem.prepare { st with tlsExpired := false, detail := [] } req).caInfo =
      new.handle.caInfo := by
    intro hm
    rw [h.cleared.prepare_caInfo req, CurlState.prepare_caInfo, if_neg hm]
  unfold curlSend
  split
  · exact h.cleared
  · dsimp only
    split
    · exact ⟨h.baseUrl, h.tlsMode, h.caFile, hca⟩
    · split
      · exact ⟨h.baseUrl, h.tlsMode, h.caFile, hca⟩
      · exact ⟨h.baseUrl, h.tlsMode, h.caFile, hca⟩

theorem MadeLike.after (h : MadeLike new st) (steps : List (Request × Bool × Transfer)) :
    MadeLike new (curlAfter st steps) := by
  induction steps generalizing st with
  | nil => exact h
  | cons step steps ih =>
    obtain ⟨req, memory, t⟩ := step
    exact ih (h.send req memory t)

end CurlState

end EncedoHem
