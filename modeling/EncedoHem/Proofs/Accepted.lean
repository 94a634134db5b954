import EncedoHem.KeyMgmt
import EncedoHem.Proofs.Expiry

namespace EncedoHem
open Text Dialogue

/-- Every reading of the clock is before the token's expiry. -/
def Unexpired (e : TokenEntry) (es : List Event) : Prop := ∀ n : Int, (⟨.authNow, n⟩ : Event) ∈ es → n < e.exp

/-- The request is dispatched under its scope with the token for a bearer. -/
def Dispatched (cfg : Config) (method : Method) (path body scope token : Bytes) (es : List Event) : Prop :=
  ∃ a : Answer, (⟨.send (some scope) (buildRequest cfg method path (some body)
    (some (lit "Bearer " ++ token)) .default false), a⟩ : Event) ∈ es

/-- The call takes its arguments: with memory granted and an unexpired token for the scope it
posts an object of these members. -/
def Accepts (cfg : Config) {α : Type} (x : Cmd α) (path scope : Bytes) (ms : List (Bytes × Json)) : Prop :=
  ∀ (s : Ctx) (e : TokenEntry), s.auth.bind (·.cacheFind scope) = some e →
    wp x (fun es _ _ => Granted es → Unexpired e es →
      Dispatched cfg .post path (printValue (.obj ms)) scope e.token es) s

/-- The call turns its arguments down before it asks for anything. -/
def Refuses {α : Type} (x : Cmd α) : Prop := ∀ s, wp x (fun es r _ => es = [] ∧ r = .error .arg) s

theorem Unexpired.right {e : TokenEntry} {es es' : List Event} (h : Unexpired e (es ++ es')) :
    Unexpired e es' := fun n hn => h n (List.mem_append.mpr (.inr hn))

section
variable {cfg : Config} {method : Method} {path body scope token : Bytes} {es es' : List Event}

theorem Dispatched.right (h : Dispatched cfg method path body scope token es') :
    Dispatched cfg method path body scope token (es ++ es') := by
  obtain ⟨a, ha⟩ := h
  exact ⟨a, List.mem_append.mpr (.inr ha)⟩

theorem Dispatched.left (h : Dispatched cfg method path body scope token es) :
    Dispatched cfg method path body scope token (es ++ es') := by
  obtain ⟨a, ha⟩ := h
  exact ⟨a, List.mem_append.mpr (.inl ha)⟩

end

/-- Where memory is granted, `need` does nothing. -/
theorem wp_need_granted {s : Ctx} : wp need (fun es r s' => Granted es → r = .ok () ∧ s' = s) s := by
  simp only [need, wp_bind, wp_alloc, wp_ite, wp_pure]
  intro ok
  cases ok with
  | true => simp
  | false =>
    intro es r s' _ hg
    exact absurd List.mem_cons_self hg

/-- A sequence after a part that does nothing where memory is granted. -/
theorem wp_granted_bind {α : Type} {f : Unit → Cmd α} {s : Ctx} {P : List Event → Prop}
    (hp : ∀ es es', P es' → P (es ++ es'))
    (hf : wp (f ()) (fun es _ _ => Granted es → P es) s) :
    wp (need >>= f) (fun es _ _ => Granted es → P es) s := by
  refine wp_bind_of wp_need_granted ?_ ?_
  · intro es u s₁ h es' r s' hrun hg
    obtain ⟨-, rfl⟩ := h hg.left
    exact hp es es' (hf es' r s' hrun hg.right)
  · intro es rc s₁ h hg
    exact nomatch (h hg).1

/-- The token engine hands out the token that it finds, and the bearer is dispatched. -/
theorem wp_requestRaw_held {cfg : Config} (ht : cfg.hasTransport = true) (method : Method)
    (path body scope : Bytes) {s : Ctx} {e : TokenEntry} (he : s.auth.bind (·.cacheFind scope) = some e) :
    wp (requestRaw cfg method path (some body) (some scope) .default) (fun es _ _ => Granted es →
      Unexpired e es → Dispatched cfg method path body scope e.token es) s := by
  unfold requestRaw requestRawWith acquireBearer ensureToken
  rw [if_neg (by simp [ht])]
  simp only [Cmd.bind_assoc]
  rw [wp_bind, wp_authNow]
  intro now
  dsimp only
  rw [wp_bind, wp_getCtx]
  dsimp only
  by_cases hlt : now < e.exp
  · have hfresh : s.freshEntry scope now = some e := by
      unfold Ctx.freshEntry
      rw [he]
      simp [hlt]
    rw [hfresh]
    simp only [Cmd.bind_assoc, Cmd.pure_bind]
    rw [wp_bind, wp_mark]
    dsimp only
    unfold makeBearer
    simp only [Cmd.bind_assoc, Cmd.pure_bind]
    refine wp_mono (wp_granted_bind (P := Dispatched cfg method path body scope e.token)
      (fun _ _ h => h.right) ?_) fun es _ _ h hg _ => (h hg.right.right.right).right.right.right
    unfold exchangeWith
    rw [wp_bind, wp_doSend]
    intro a es r s' _ _
    exact ⟨a, by simp⟩
  · intro es r s' _ _ hu
    exact absurd (hu now (by simp)) hlt

/-- A call that prints its members and does with them what dispatches them accepts its arguments. -/
theorem accepts_printed {cfg : Config} {α β : Type} {path scope : Bytes} {ms : List (Bytes × Json)}
    {x : Bytes → Cmd β} (f : β → Cmd α)
    (hx : ∀ (s : Ctx) (e : TokenEntry), s.auth.bind (·.cacheFind scope) = some e →
      wp (x (printValue (.obj ms))) (fun es _ _ => Granted es → Unexpired e es →
        Dispatched cfg .post path (printValue (.obj ms)) scope e.token es) s) :
    Accepts cfg (clearError >>= fun _ => printObject ms >>= fun body => x body >>= f) path scope ms := by
  intro s e he
  rw [wp_bind, wp_clearError]
  unfold printObject
  simp only [Cmd.bind_assoc, Cmd.pure_bind]
  have hsend : wp (x (printValue (.obj ms)) >>= f)
      (fun es _ _ => Granted es → Unexpired e es →
        Dispatched cfg .post path (printValue (.obj ms)) scope e.token es) (s.setError .clear) := by
    refine wp_bind_of (hx (s.setError .clear) e he) ?_ fun _ _ _ h => h
    intro es b s₁ h es' r s' _ hg hu
    exact (h hg.left fun n hn => hu n (List.mem_append.mpr (.inl hn))).left
  refine wp_mono (wp_granted_bind (P := fun es => Unexpired e es →
    Dispatched cfg .post path (printValue (.obj ms)) scope e.token es) ?_ hsend) fun es _ _ h => h
  intro es es' h hu
  exact (h hu.right).right

theorem accepts_request {cfg : Config} (ht : cfg.hasTransport = true) {α : Type} (path scope : Bytes)
    (ms : List (Bytes × Json)) (f : Bytes → Cmd α) :
    Accepts cfg (clearError >>= fun _ => printObject ms >>= fun body =>
      requestRaw cfg .post path (some body) (some scope) .default >>= f) path scope ms :=
  accepts_printed f fun _ _ he => wp_requestRaw_held ht .post path _ scope he

/-- The same for a request whose success is an empty answer. -/
theorem accepts_empty {cfg : Config} (ht : cfg.hasTransport = true) {α : Type} (path scope : Bytes)
    (ms : List (Bytes × Json)) (f : Except Rc Unit → Api cfg α) :
    Accepts cfg (clearError >>= fun _ => printObject ms >>= fun body =>
      (Api.requestEmpty .post path (some body) (some scope) : Api cfg (Except Rc Unit)).cmd >>= fun r => (f r).cmd)
      (lit "/api/" ++ path) scope ms := by
  have hempty : ∀ body, (Api.requestEmpty .post path (some body) (some scope) : Api cfg (Except Rc Unit)).cmd =
      (requestRaw cfg .post (lit "/api/" ++ path) (some body) (some scope) .default).attempt >>=
        fun r => getCtx >>= fun s => pure (Api.emptyOk r s.lastError.httpStatus) := fun _ => rfl
  simp only [hempty, Cmd.bind_assoc]
  exact accepts_printed _ fun _ _ he => wp_attempt.mpr (wp_requestRaw_held ht .post _ _ scope he)

/-- The same for a request that is answered with an object. -/
theorem accepts_json {cfg : Config} (ht : cfg.hasTransport = true) {α : Type} (path scope : Bytes)
    (ms : List (Bytes × Json)) (f : Json → Api cfg α) :
    Accepts cfg (clearError >>= fun _ => printObject ms >>= fun body =>
      (Api.requestJson .post path (some body) (some scope) : Api cfg Json).cmd >>= fun root => (f root).cmd)
      (lit "/api/" ++ path) scope ms := by
  have hjson : ∀ body, (Api.requestJson .post path (some body) (some scope) : Api cfg Json).cmd =
      requestRaw cfg .post (lit "/api/" ++ path) (some body) (some scope) .default >>=
        parseBody (lit "/api/" ++ path) := fun _ => rfl
  simp only [hjson, Cmd.bind_assoc]
  exact accepts_request ht _ _ _ _

theorem refuses_ctxFail {α : Type} (fmt : List Piece) :
    Refuses (clearError >>= fun _ => (ctxFail .arg 0 none fmt : Cmd α)) := by
  intro s
  simp [recordEvents]

theorem refuses_check {α β : Type} (fmt : List Piece) (f : β → Cmd α) :
    Refuses (clearError >>= fun _ => (ctxFail .arg 0 none fmt : Cmd β) >>= f) := by
  simp only [ctxFail_bind]
  exact refuses_ctxFail fmt

def sampleKid : Bytes := lit "00112233445566778899aabbccddeeff"

end EncedoHem
