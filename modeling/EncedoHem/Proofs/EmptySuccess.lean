import EncedoHem.KeyMgmt
import EncedoHem.Logger
import EncedoHem.Proofs.Mistaken

namespace EncedoHem
open Text Dialogue

/-- The calls whose success an answer without a body is. -/
inductive EmptyCall where
  | verify (kid alg msg : Bytes) (sigCtx : Buf) (sig : Bytes)
  | hmacVerify (kid : Bytes) (alg : Option Bytes) (msg mac : Bytes) (peer : Peer)
  | mldsaVerify (kid msg : Bytes) (sigCtx : Buf) (sig : Bytes)
  | keyDelete (kid : Bytes)
  | keyUpdate (kid label : Bytes) (descr : Buf)
  | systemReboot
  | systemShutdown
  | systemWipeout
  | storageUnlock (disk : Int) (writable : Bool)
  | storageLock (disk : Int)

namespace EmptyCall

def cmd (cfg : Config) : EmptyCall → Cmd Unit
  | verify kid alg msg sigCtx sig => (Api.verify kid alg msg sigCtx sig : Api cfg Unit).cmd
  | hmacVerify kid alg msg mac peer => (Api.hmacVerify kid alg msg mac peer : Api cfg Unit).cmd
  | mldsaVerify kid msg sigCtx sig => (Api.mldsaVerify kid msg sigCtx sig : Api cfg Unit).cmd
  | keyDelete kid => (Api.keyDelete kid : Api cfg Unit).cmd
  | keyUpdate kid label descr => (Api.keyUpdate kid label descr : Api cfg Unit).cmd
  | systemReboot => (Api.systemReboot : Api cfg Unit).cmd
  | systemShutdown => (Api.systemShutdown : Api cfg Unit).cmd
  | systemWipeout => (Api.systemWipeout : Api cfg Unit).cmd
  | storageUnlock disk writable => (Api.storageUnlock disk writable : Api cfg Unit).cmd
  | storageLock disk => (Api.storageLock disk : Api cfg Unit).cmd

/-- A request to the device, verified as the context says. -/
def ask (method : Method) (path : Bytes) (body : Option Bytes) (scope : Bytes) : Call :=
  ⟨method, lit "/api/" ++ path, body, some scope, .default⟩

/-- The request that the call makes. -/
def request : EmptyCall → Call
  | verify kid alg msg sigCtx sig => ask .post (lit "crypto/exdsa/verify") (some (printValue (.obj
      (strMember "kid" kid ++ b64Member "msg" msg ++ b64Member "sign" sig ++ strMember "alg" alg ++
        optB64Member "ctx" sigCtx)))) (useScope kid)
  | hmacVerify kid alg msg mac peer => ask .post (lit "crypto/hmac/verify") (some (printValue (.obj
      (strMember "kid" kid ++ b64Member "msg" msg ++ b64Member "mac" mac ++ optStrMember "alg" alg ++
        peer.members)))) (useScope kid)
  | mldsaVerify kid msg sigCtx sig => ask .post (lit "crypto/pqc/mldsa/verify")
      (some (mldsaVerifyBody kid msg sigCtx sig)) (useScope kid)
  | keyDelete kid => ask .delete (lit "keymgmt/delete/" ++ kid) none keymgmtDelScope
  | keyUpdate kid label descr => ask .post (lit "keymgmt/update") (some (printValue (.obj
      (strMember "kid" kid ++ strMember "label" label ++ optB64Member "descr" descr)))) keymgmtUpdScope
  | systemReboot => ask .get (lit "system/reboot") none systemConfigScope
  | systemShutdown => ask .get (lit "system/shutdown") none systemShutdownScope
  | systemWipeout => ask .post (lit "system/config") (some Api.wipeoutBody) systemConfigScope
  | storageUnlock disk writable => ask .get (lit "storage/unlock") none (Api.diskScope disk writable)
  | storageLock disk => ask .get (lit "storage/lock") none (Api.diskScope disk false)

end EmptyCall

namespace Unheard

theorem nil : Unheard [] := fun _ he => absurd he List.not_mem_nil

theorem calm {es : List Event} (h : Calm es) : Unheard es := by
  intro e he
  have hq := h e he
  obtain ⟨op, ans⟩ := e
  cases op with
  | send scope req => cases hq
  | authNow => cases hq
  | wallTime => cases hq
  | _ => exact ⟨rfl, rfl⟩

theorem mark (m : Mark) : Unheard [⟨.mark m, ()⟩] := by
  intro e he
  rw [List.mem_singleton.mp he]
  exact ⟨rfl, rfl⟩

end Unheard

section
variable {cfg : Config}

/-- It succeeds, and nothing more is dispatched. -/
def Concedes (y : Cmd Unit) : Prop := ∀ s, wp y (fun es r _ => Unheard es ∧ r = .ok ()) s

/-- It fails, and nothing more is dispatched. -/
def Spurns (y : Cmd Unit) : Prop := ∀ s, wp y (fun es r _ => Unheard es ∧ r ≠ .ok ()) s

theorem concedes_clearError : Concedes clearError := fun _ => wp_clearError.mpr ⟨.nil, rfl⟩

theorem spurns_throwRc (rc : Rc) : Spurns (throwRc rc) := fun _ => wp_throwRc.mpr ⟨.nil, by simp⟩

theorem spurns_map406 (rc : Rc) (what : String) : Spurns (Api.map406NotFound rc what : Api cfg Unit).cmd := by
  intro s
  change wp (getCtx >>= fun s => (if rc = .device ∧ s.lastError.httpStatus = 406 then _ else _ : Api cfg Unit).cmd) _ s
  rw [wp_bind, wp_getCtx]
  dsimp only
  rw [Program.cmd_ite, wp_ite]
  split
  · exact wp_ctxFail_of fun es d hc _ _ => ⟨.calm hc, by simp⟩
  · exact spurns_throwRc rc s

/-- The tokens go, and so does the error. -/
theorem concedes_dropTokens : Concedes (Api.dropTokens (.ok ()) : Api cfg Unit).cmd := by
  intro s
  change wp (authInvalidateAll >>= fun _ => clearError) _ s
  unfold authInvalidateAll modifyAuth
  simp only [Cmd.bind_assoc]
  rw [wp_bind, wp_modifyCtx]
  dsimp only
  rw [wp_bind, wp_mark]
  exact wp_clearError.mpr ⟨by simpa using Unheard.mark .reset, rfl⟩

theorem concedes_logout : Concedes logout := by
  intro s
  unfold logout
  rw [wp_bind, wp_clearError]
  dsimp only
  rw [wp_bind, wp_modifyCtx]
  dsimp only
  rw [wp_mark]
  exact ⟨by simpa using Unheard.mark .reset, rfl⟩

/-- A signature check that was answered empty is a good one. -/
theorem concedes_mldsaVerdict : Concedes (Api.mldsaVerdict (.ok ()) : Api cfg Unit).cmd := by
  intro s
  have hok : wp (Api.mldsaVerdict (.ok ()) : Api cfg Unit).cmd (fun _ r _ => r = .ok ()) s := wp_verdict_ok.mpr rfl
  refine wp_mono (wp_and (wp_verdict_quiet (.ok ()) s) hok) fun es r s' h => ?_
  rw [h.1]
  exact ⟨.nil, h.2⟩

theorem spurns_mldsaVerdict (rc : Rc) : Spurns (Api.mldsaVerdict (.error rc) : Api cfg Unit).cmd := by
  intro s
  have hfails : wp (Api.mldsaVerdict (.error rc) : Api cfg Unit).cmd (fun _ r _ => r ≠ .ok ()) s := by
    by_cases h : rc = .protocol
    · subst h
      exact wp_verdict_protocol (fun _ _ _ => by simp) fun _ => by simp
    · exact (wp_verdict_error h).mpr (by simp)
  refine wp_mono (wp_and (wp_verdict_quiet (.error rc) s) hfails) fun es r s' h => ?_
  rw [h.1]
  exact ⟨.nil, h.2⟩

/-- The outcome of a call that an empty success is one of. -/
abbrev EmptyHeeds (c : Call) (x : Cmd Unit) : Prop := Heeds emptySuccess c (· = .ok ()) x

theorem no_success {α : Type} (x : Cmd α) : Throws x fun rc => ¬(Except.error rc : Except Rc Unit) = .ok () :=
  ⟨fun _ _ _ _ _ _ _ h => by cases h⟩

/-- Steps that nothing of is seen from outside go before the request. -/
theorem EmptyHeeds.bind {α : Type} {c : Call} {x : Cmd α} {f : α → Cmd Unit} (hq : Quiet x)
    (hf : ∀ a, EmptyHeeds c (f a)) : EmptyHeeds c (x >>= f) := Heeds.bind hq (no_success x) hf

theorem EmptyHeeds.refused {c : Call} (rc : Rc) (status : Int) (payload : Option Bytes) (fmt : List Piece) :
    EmptyHeeds c (ctxFail rc status payload fmt) :=
  Heeds.fails (quiet_neutral.ctxFail rc status payload fmt) (no_success _) (yields_ctxFail rc status payload fmt _)

theorem EmptyHeeds.asked {c : Call} {path : Bytes} {fin : Except Rc Unit → Cmd Unit} (hp : c.path = lit "/api/" ++ path)
    (ho : c.ov = .default) (hok : Concedes (fin (.ok ()))) (herr : ∀ rc, Spurns (fin (.error rc))) :
    EmptyHeeds c ((Api.requestEmpty c.method path c.body c.scope : Api cfg (Except Rc Unit)).cmd >>= fin) := by
  apply (heeds_requestEmpty hp ho).concludes
  · simp
  · intro v s
    cases v with
    | ok u => exact wp_mono (hok s) fun _ _ _ h => ⟨h.1, by simp [h.2]⟩
    | error rc => exact wp_mono (herr rc s) fun _ _ _ h => ⟨h.1, by simp [h.2]⟩

/-- The same for a request whose body was put together before. -/
theorem EmptyHeeds.built {c : Call} {path : Bytes} {x : Cmd Bytes} {fin : Except Rc Unit → Cmd Unit} (hq : Quiet x)
    (hv : Yields x fun body => some body = c.body) (hp : c.path = lit "/api/" ++ path) (ho : c.ov = .default)
    (hok : Concedes (fin (.ok ()))) (herr : ∀ rc, Spurns (fin (.error rc))) :
    EmptyHeeds c (x >>= fun body =>
      (Api.requestEmpty c.method path (some body) c.scope : Api cfg (Except Rc Unit)).cmd >>= fin) := by
  apply Heeds.bind_yields hq (no_success x) hv
  intro body hbody
  rw [hbody]
  exact asked hp ho hok herr

theorem quiet_notEmpty (what : Bytes) (name suffix : String) (alg : Bytes) :
    Quiet (Api.notEmpty what name suffix alg : Api cfg Unit).cmd := by
  unfold Api.notEmpty
  rw [Program.cmd_ite]
  exact .ite (fun _ => quiet_neutral.ctxFail ..) fun _ => .pure _

theorem quiet_checkPeerArgs (what : Bytes) (p : Peer) (allowNone : Bool) :
    Quiet (Api.checkPeerArgs what p allowNone : Api cfg Unit).cmd := by
  have hrefuse : ∀ fmt, Quiet (Api.refuse what fmt : Api cfg Unit).cmd := fun fmt => quiet_neutral.ctxFail ..
  unfold Api.checkPeerArgs
  simp only [Program.cmd_ite]
  refine .ite (fun _ => hrefuse _) fun _ => .ite (fun _ => hrefuse _) fun _ => ?_
  exact .ite (fun _ => hrefuse _) fun _ => .ite (fun _ => hrefuse _) fun _ => .pure _

theorem quiet_hmacBuild (what kid : Bytes) (alg : Option Bytes) (msg mac : Bytes) (peer : Peer) :
    Quiet (Api.hmacBuild what kid alg msg (some mac) peer : Api cfg Bytes).cmd := by
  have hrefuse : ∀ fmt, Quiet (Api.refuse what fmt : Api cfg Bytes).cmd := fun fmt => quiet_neutral.ctxFail ..
  refine .bind (quiet_neutral.checkKid ..) fun _ => .bind (quiet_neutral.checkSize ..) fun _ => ?_
  refine .bind (quiet_neutral.checkSize ..) fun _ => .bind (quiet_checkPeerArgs ..) fun _ => ?_
  dsimp only
  simp only [Program.cmd_ite]
  exact .ite (fun _ => hrefuse _) fun _ => .ite (fun _ => hrefuse _) fun _ => quiet_neutral.printObject _

theorem yields_hmacBuild (what kid : Bytes) (alg : Option Bytes) (msg mac : Bytes) (peer : Peer) :
    Yields (Api.hmacBuild what kid alg msg (some mac) peer : Api cfg Bytes).cmd fun body =>
      some body = (EmptyCall.hmacVerify kid alg msg mac peer).request.body := by
  refine .bind fun _ => .bind fun _ => .bind fun _ => .bind fun _ => ?_
  dsimp only
  simp only [Program.cmd_ite]
  refine .ite (fun _ => yields_ctxFail ..) fun _ => .ite (fun _ => yields_ctxFail ..) fun _ => ?_
  exact .bind fun _ => .pure rfl

/-- Every such call tells of its request what the final response tells. -/
theorem heeds_emptyCall (x : EmptyCall) : EmptyHeeds x.request (x.cmd cfg) := by
  have hprint : ∀ ms, Quiet (Api.printObject ms : Api cfg Bytes).cmd := fun ms => quiet_neutral.printObject ms
  cases x with
  | verify kid alg msg sigCtx sig =>
    apply EmptyHeeds.bind quiet_neutral.clearError; intro _
    apply EmptyHeeds.bind (quiet_neutral.checkKid _ _); intro _
    apply EmptyHeeds.bind (quiet_notEmpty _ _ _ _); intro _
    apply EmptyHeeds.bind (quiet_neutral.checkSize _ _ _ _ _); intro _
    apply EmptyHeeds.bind (quiet_neutral.checkSize _ _ _ _ _); intro _
    apply EmptyHeeds.bind (quiet_neutral.checkAtMost _ _ _ _); intro _
    exact EmptyHeeds.built (hprint _) (.bind fun _ => .pure rfl) rfl rfl concedes_clearError spurns_throwRc
  | hmacVerify kid alg msg mac peer =>
    apply EmptyHeeds.bind quiet_neutral.clearError; intro _
    exact EmptyHeeds.built (quiet_hmacBuild _ _ _ _ _ _) (yields_hmacBuild _ _ _ _ _ _) rfl rfl concedes_clearError
      spurns_throwRc
  | mldsaVerify kid msg sigCtx sig =>
    apply EmptyHeeds.bind quiet_neutral.clearError; intro _
    apply EmptyHeeds.built (quiet_neutral.mldsaBuild _ _ _ _ _) ?_ rfl rfl concedes_mldsaVerdict spurns_mldsaVerdict
    exact ⟨fun s => wp_mono ((yields_mldsaBuild cfg _ kid msg sig sigCtx).run s) fun _ _ _ h b hb => congrArg some (h b hb)⟩
  | keyDelete kid =>
    apply EmptyHeeds.bind quiet_neutral.clearError; intro _
    dsimp only
    rw [Program.cmd_ite]
    apply Heeds.ite
    · exact fun _ => EmptyHeeds.refused _ _ _ _
    · exact fun _ => EmptyHeeds.asked rfl rfl concedes_clearError fun rc => spurns_map406 rc _
  | keyUpdate kid label descr =>
    apply EmptyHeeds.bind quiet_neutral.clearError; intro _
    dsimp only
    simp only [Program.cmd_ite]
    apply Heeds.ite (fun _ => EmptyHeeds.refused _ _ _ _); intro _
    apply Heeds.ite (fun _ => EmptyHeeds.refused _ _ _ _); intro _
    apply Heeds.ite (fun _ => EmptyHeeds.refused _ _ _ _); intro _
    exact EmptyHeeds.built (hprint _) (.bind fun _ => .pure rfl) rfl rfl concedes_clearError fun rc => spurns_map406 rc _
  | systemReboot =>
    apply EmptyHeeds.bind quiet_neutral.clearError; intro _
    exact EmptyHeeds.asked rfl rfl concedes_dropTokens spurns_throwRc
  | systemShutdown =>
    apply EmptyHeeds.bind quiet_neutral.clearError; intro _
    exact EmptyHeeds.asked rfl rfl concedes_dropTokens spurns_throwRc
  | systemWipeout =>
    apply EmptyHeeds.bind quiet_neutral.clearError; intro _
    exact EmptyHeeds.asked rfl rfl concedes_logout spurns_throwRc
  | storageUnlock disk writable =>
    apply EmptyHeeds.bind quiet_neutral.clearError; intro _
    dsimp only
    rw [Program.cmd_ite]
    apply Heeds.ite
    · exact fun _ => EmptyHeeds.refused _ _ _ _
    · exact fun _ => EmptyHeeds.asked rfl rfl concedes_clearError spurns_throwRc
  | storageLock disk =>
    apply EmptyHeeds.bind quiet_neutral.clearError; intro _
    dsimp only
    rw [Program.cmd_ite]
    apply Heeds.ite
    · exact fun _ => EmptyHeeds.refused _ _ _ _
    · exact fun _ => EmptyHeeds.asked rfl rfl concedes_clearError spurns_throwRc

end

/-- Such a call succeeds where the final response to its request passes, and besides that only where the token
engine took an answer of its own for the one that is missing. -/
theorem empty_success_heard (cfg : Config) (x : EmptyCall) {s s' : Ctx} {es : List Event} {r : Except Rc Unit}
    (h : Runs (x.cmd cfg) s es r s') :
    (r = .ok () → (∃ resp, x.request.Final es (.done resp) ∧ resp.Passes) ∨ Misled es .protocol) ∧
      ∀ resp, x.request.Final es (.done resp) → resp.Passes → r = .ok () :=
  let hr := heeds_emptyCall x s es r s' h
  ⟨hr.sound, hr.complete⟩

/-- A key is reported deleted that the device was never asked to delete: an empty answer to the login challenge is
enough. -/
theorem deletion_never_asked_for :
    (scriptEvents ((EmptyCall.keyDelete sampleKid).cmd .standard) .loggedIn 5 [.status 200]).countP isSend = 1 ∧
      Misled (scriptEvents ((EmptyCall.keyDelete sampleKid).cmd .standard) .loggedIn 5 [.status 200]) .protocol := by
  have hrun := script_runs ((EmptyCall.keyDelete sampleKid).cmd .standard) .loggedIn 5 [.status 200]
  have hsilent : ∀ e ∈ scriptEvents ((EmptyCall.keyDelete sampleKid).cmd .standard) .loggedIn 5 [.status 200],
      (EmptyCall.keyDelete sampleKid).request.Silent e :=
    List.filterMap_eq_nil_iff.mp (List.isEmpty_iff.mp (by decide +kernel))
  refine ⟨by decide +kernel, ?_⟩
  rcases (empty_success_heard .standard (.keyDelete sampleKid) hrun).1 (by decide +kernel) with ⟨resp, hf, -⟩ | hm
  · exact absurd hsilent hf.not_silent
  · exact hm

end EncedoHem
