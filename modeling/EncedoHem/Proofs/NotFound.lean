import EncedoHem.Proofs.EmptySuccess
import EncedoHem.Proofs.KeyWalk

namespace EncedoHem
open Text Dialogue

/-- The calls that tell of a key that it is not there. -/
inductive KeyCall where
  | get (kid : Bytes)
  | delete (kid : Bytes)
  | update (kid label : Bytes) (descr : Buf)

namespace KeyCall

abbrev Out : KeyCall → Type
  | get _ => KeyDetails
  | delete _ => Unit
  | update .. => Unit

def cmd (cfg : Config) : (x : KeyCall) → Cmd x.Out
  | get kid => (Api.keyGet kid : Api cfg KeyDetails).cmd
  | delete kid => (Api.keyDelete kid : Api cfg Unit).cmd
  | update kid label descr => (Api.keyUpdate kid label descr : Api cfg Unit).cmd

def request : KeyCall → Call
  | get kid => EmptyCall.ask .get (lit "keymgmt/get/" ++ kid) none (useScope kid)
  | delete kid => (EmptyCall.keyDelete kid).request
  | update kid label descr => (EmptyCall.keyUpdate kid label descr).request

end KeyCall

theorem Unready.later {es es' : List Event} {rc : Rc} (h : Unready es' rc) : Unready (es ++ es') rc :=
  ⟨h.1, List.mem_append_right es h.2⟩

theorem Unready.unheard {es es' : List Event} {rc : Rc} (h : Unready es rc) (_ : Unheard es') : Unready (es ++ es') rc :=
  ⟨h.1, List.mem_append_left es' h.2⟩

/-- A device says by either status that there is no such key. -/
def Response.Missing (r : Response) : Prop := r.status = 404 ∨ r.status = 406

/-- The answer was given to the token engine, or there was no answer at all. -/
structure Astray (es : List Event) : Prop where
  cause : Misled es .notFound ∨ Misled es .device ∨ Unready es .notFound

def absence : Outlook where
  good := Response.Missing
  other := Astray
  later h := by
    rcases h.cause with hm | hm | hu
    · exact ⟨.inl hm.later⟩
    · exact ⟨.inr (.inl hm.later)⟩
    · exact ⟨.inr (.inr hu.later)⟩
  unheard h hq := by
    rcases h.cause with hm | hm | hu
    · exact ⟨.inl (hm.unheard hq)⟩
    · exact ⟨.inr (.inl (hm.unheard hq))⟩
    · exact ⟨.inr (.inr (hu.unheard hq))⟩

/-- A failure that is mapped to a missing key. -/
def Lacking {α : Type} (r : Except Rc α) (s : Ctx) : Prop :=
  r = .error .notFound ∨ (r = .error .device ∧ s.lastError.httpStatus = 406)

theorem Lacking.mistakable {α : Type} {rc : Rc} {s : Ctx} (h : Lacking (.error rc : Except Rc α) s) :
    Mistakable rc s.lastError.httpStatus := by
  rcases h with h | ⟨h, hs⟩
  · exact .inr (.inl (Except.error.inj h))
  · exact .inr (.inr ⟨Except.error.inj h, hs⟩)

theorem Lacking.not_ok {α : Type} {a : α} {s : Ctx} : ¬Lacking (.ok a : Except Rc α) s := by
  simp [Lacking]

theorem absence_telling : Telltale absence Lacking where
  judged {resp r s} h := by
    cases hfault : resp.fault with
    | none =>
      obtain ⟨b, rfl⟩ := judged_none h hfault
      have h2 := fault_none_passed hfault
      exact iff_of_false Lacking.not_ok fun hm => by rcases hm with hm | hm <;> omega
    | some rc =>
      obtain ⟨rfl, hs⟩ := judged_some h hfault
      have hb := (fault_behind hfault).2
      constructor
      · intro hl
        have hbehind := hb (hs ▸ hl.mistakable)
        rcases hl with hl | ⟨hl, -⟩
        · exact .inl (hbehind.notFound (Except.error.inj hl))
        · exact .inr (hbehind.device (Except.error.inj hl))
      · intro hm
        have hrc := fault_mapped hfault (by rcases hm with hm | hm <;> omega)
        rcases hm with hm | hm
        · exact .inl (by rw [hrc, hm]; rfl)
        · exact .inr ⟨by rw [hrc, hm]; rfl, hs.trans hm⟩
  mistakable h := h.mistakable
  other {es rc s} h hm := by
    rcases hm with hm | hu
    · rcases h with h | ⟨h, -⟩
      · exact ⟨.inl (Except.error.inj h ▸ hm).misled⟩
      · exact ⟨.inr (.inl (Except.error.inj h ▸ hm).misled)⟩
    · exact ⟨.inr (.inr (hu.1 ▸ hu))⟩

section
variable {cfg : Config} {c : Call}

theorem emptyOk_lacking (r : Except Rc Bytes) (s : Ctx) :
    Lacking (Api.emptyOk r s.lastError.httpStatus) s ↔ Lacking r s := by
  cases r with
  | ok b => simp [Api.emptyOk, Lacking]
  | error rc =>
    by_cases h : rc = .protocol
    · subst h
      by_cases hs : s.lastError.httpStatus = 200 <;> simp [Api.emptyOk, Lacking, hs]
    · rw [emptyOk_error h]
      simp [Lacking]

theorem wp_lacking_empty {path : Bytes} (hp : c.path = lit "/api/" ++ path) (ho : c.ov = .default) {s : Ctx} :
    wp (Api.requestEmpty c.method path c.body c.scope : Api cfg (Except Rc Unit)).cmd
      (fun es r s' => ∃ v, r = .ok v ∧ Reads absence c es (Lacking v s')) s := by
  change wp ((EncedoHem.requestRaw cfg c.method (lit "/api/" ++ path) c.body c.scope .default).attempt >>= fun r =>
    getCtx >>= fun s => pure (Api.emptyOk r s.lastError.httpStatus)) _ s
  rw [← hp, ← ho, wp_bind, wp_attempt]
  refine wp_mono (wp_told_request absence_telling) fun es r s' h => ?_
  dsimp only
  rw [wp_bind, wp_getCtx]
  dsimp only
  rw [wp_pure, List.append_nil, List.append_nil]
  exact ⟨_, rfl, h.congr (emptyOk_lacking r s').symm⟩

/-- The outcome of a call that a missing key is one of. -/
abbrev AbsenceHeeds (c : Call) {α : Type} (x : Cmd α) : Prop := Heeds absence c (· = .error .notFound) x

section
variable {α : Type}

variable {P : Rc → Prop}

theorem throws_ctxFail {rc : Rc} (status : Int) (payload : Option Bytes) (fmt : List Piece) (h : P rc) :
    Throws (ctxFail rc status payload fmt : Cmd α) P :=
  ⟨fun _ => wp_ctxFail_of fun _ _ _ _ _ _ he => Except.error.inj he ▸ h⟩

theorem throws_need (h : P .nomem) : Throws need P :=
  .bind (.ask Op.alloc) fun _ => .ite (fun _ => .pure _) fun _ => throws_ctxFail _ _ _ h

theorem throws_decodeOptB64 (root : Json) (key : Bytes) (h : P .nomem) :
    Throws (Api.decodeOptB64 root key : Api cfg (Option Bytes)).cmd P := by
  unfold Api.decodeOptB64
  split
  · exact .pure _
  · exact .pure _
  · exact .bind (throws_need h) fun _ => .pure _

/-- Whatever it fails with is no missing key. -/
abbrev NoAbsence (x : Cmd α) : Prop := Throws x (· ≠ .notFound)

theorem throws_parseBody (path b : Bytes) : Throws (parseBody path b) (· = .protocol) := by
  apply Throws.bind (.bind (.ask Op.alloc) fun _ => .pure _)
  intro root
  split
  · exact throws_ctxFail _ _ _ rfl
  · exact .ite (fun _ => .pure _) fun _ => throws_ctxFail _ _ _ rfl

/-- A body that is no object is neither a missing key nor a failure of the device. -/
theorem wp_parseBody_unheard (path b : Bytes) (s : Ctx) :
    wp (parseBody path b) (fun es r _ => Unheard es ∧ r ≠ .error .notFound ∧ ∀ s', ¬Lacking r s') s := by
  refine wp_mono (wp_and ((quiet_neutral.parseBody path b).run s) ((throws_parseBody path b).run s)) fun es r _ h => ?_
  refine ⟨.calm h.1, ?_⟩
  cases r with
  | ok root => simp [Lacking]
  | error rc => simp [Lacking, h.2 rc rfl]

theorem NoAbsence.parseKeyDetails (root : Json) : NoAbsence (Api.parseKeyDetails root : Api cfg KeyDetails).cmd := by
  apply Throws.bind (throws_need (by simp)); intro _
  dsimp only
  split
  · exact throws_ctxFail _ _ _ (by simp)
  · apply Throws.bind (throws_need (by simp)); intro _
    apply Throws.bind (throws_decodeOptB64 _ _ (by simp)); intro _
    apply Throws.bind (throws_decodeOptB64 _ _ (by simp)); intro _
    apply Throws.bind (throws_decodeOptB64 _ _ (by simp)); intro _
    exact .pure _

theorem quiet_parseKeyDetails (root : Json) : Quiet (Api.parseKeyDetails root : Api cfg KeyDetails).cmd := by
  apply Keeps.bind quiet_neutral.need
  intro _
  dsimp only
  split
  · exact quiet_neutral.ctxFail ..
  · apply Keeps.bind quiet_neutral.need; intro _
    apply Keeps.bind (quiet_neutral.decodeOptB64 ..); intro _
    apply Keeps.bind (quiet_neutral.decodeOptB64 ..); intro _
    apply Keeps.bind (quiet_neutral.decodeOptB64 ..); intro _
    exact .pure _

/-- What neither dispatches nor fails so leaves the verdict as it was. -/
theorem wp_unheard {x : Cmd α} (hx : NoAbsence x) (hq : Quiet x) (s : Ctx) :
    wp x (fun es r _ => Unheard es ∧ r ≠ .error .notFound) s := by
  refine wp_mono (wp_and (hq.run s) (hx.run s)) fun es r _ h => ⟨.calm h.1, fun hr => ?_⟩
  exact h.2 _ hr rfl

/-- What is mapped is what was lacking. -/
theorem wp_map406 (rc : Rc) (what : String) (s : Ctx) :
    wp (Api.map406NotFound rc what : Api cfg α).cmd
      (fun es r _ => Unheard es ∧ (Lacking (.error rc : Except Rc α) s ↔ r = .error .notFound)) s := by
  change wp (getCtx >>= fun s => (if rc = .device ∧ s.lastError.httpStatus = 406 then _ else _ : Api cfg α).cmd) _ s
  rw [wp_bind, wp_getCtx]
  dsimp only
  rw [Program.cmd_ite, wp_ite]
  split
  · rename_i h
    exact wp_ctxFail_of fun es d hc _ _ => ⟨.calm hc, by simp [Lacking, h.1, h.2]⟩
  · rename_i h
    have hthrow : Lacking (.error rc : Except Rc α) s ↔ (.error rc : Except Rc α) = .error .notFound := by
      simp only [Lacking, Except.error.injEq]
      exact or_iff_left h
    exact wp_throwRc.mpr ⟨.nil, hthrow⟩

end

theorem wp_lacking_json {path : Bytes} (hp : c.path = lit "/api/" ++ path) (ho : c.ov = .default) {s : Ctx} :
    wp (Api.requestJson c.method path c.body c.scope : Api cfg Json).cmd
      (fun es r s' => Reads absence c es (Lacking r s')) s := by
  change wp (EncedoHem.requestRaw cfg c.method (lit "/api/" ++ path) c.body c.scope .default >>= fun b =>
    EncedoHem.parseBody (lit "/api/" ++ path) b) _ s
  rw [← hp, ← ho]
  refine wp_bind_of (wp_told_request absence_telling) (fun es b s₁ h => ?_) fun es rc s₁ h => h.congr (by simp [Lacking])
  refine wp_mono (wp_parseBody_unheard c.path b s₁) fun es' r s₂ h' => (h.after h'.1).congr ?_
  exact iff_of_false Lacking.not_ok (h'.2.2 s₂)

theorem AbsenceHeeds.asked {path : Bytes} {fin : Except Rc Unit → Cmd Unit} (what : String)
    (hp : c.path = lit "/api/" ++ path) (ho : c.ov = .default) (hok : fin (.ok ()) = clearError)
    (herr : ∀ rc, fin (.error rc) = (Api.map406NotFound rc what : Api cfg Unit).cmd) :
    AbsenceHeeds c ((Api.requestEmpty c.method path c.body c.scope : Api cfg (Except Rc Unit)).cmd >>= fin) := by
  intro s
  refine wp_bind_of (wp_lacking_empty hp ho) (fun es v s₁ h => ?_) fun es rc s₁ h => ?_
  · obtain ⟨v', hv, h⟩ := h
    obtain rfl := Except.ok.inj hv
    cases v with
    | ok u =>
      rw [hok]
      refine wp_mono (wp_unheard (.modify _) quiet_neutral.clearError s₁) fun es' r s₂ h' => ?_
      exact (h.after h'.1).congr (iff_of_false Lacking.not_ok h'.2)
    | error rc =>
      rw [herr]
      exact wp_mono (wp_map406 rc what s₁) fun es' r s₂ h' => (h.after h'.1).congr h'.2
  · obtain ⟨v, hv, -⟩ := h
    cases hv

theorem AbsenceHeeds.built {path : Bytes} {x : Cmd Bytes} {fin : Except Rc Unit → Cmd Unit} (what : String)
    (hq : Quiet x) (hx : NoAbsence x) (hv : Yields x fun body => some body = c.body)
    (hp : c.path = lit "/api/" ++ path) (ho : c.ov = .default) (hok : fin (.ok ()) = clearError)
    (herr : ∀ rc, fin (.error rc) = (Api.map406NotFound rc what : Api cfg Unit).cmd) :
    AbsenceHeeds c (x >>= fun body =>
      (Api.requestEmpty c.method path (some body) c.scope : Api cfg (Except Rc Unit)).cmd >>= fin) := by
  apply Heeds.bind_yields hq ⟨fun s => wp_mono (hx.run s) fun _ _ _ h rc he => by simpa using h rc he⟩ hv
  intro body hbody
  rw [hbody]
  exact asked what hp ho hok herr

theorem AbsenceHeeds.looked {path : Bytes} {fin : Except Rc Json → Cmd α} (what : String)
    (hp : c.path = lit "/api/" ++ path) (ho : c.ov = .default)
    (hok : ∀ root, NoAbsence (fin (.ok root)) ∧ Quiet (fin (.ok root)))
    (herr : ∀ rc, fin (.error rc) = (Api.map406NotFound rc what : Api cfg α).cmd) :
    AbsenceHeeds c ((Api.requestJson c.method path c.body c.scope : Api cfg Json).cmd.attempt >>= fin) := by
  intro s
  rw [wp_bind, wp_attempt]
  refine wp_mono (wp_lacking_json hp ho) fun es r s₁ h => ?_
  cases r with
  | ok root =>
    refine wp_mono (wp_unheard (hok root).1 (hok root).2 s₁) fun es' r s₂ h' => ?_
    exact (h.after h'.1).congr (iff_of_false Lacking.not_ok h'.2)
  | error rc =>
    dsimp only
    rw [herr]
    refine wp_mono (wp_map406 rc what s₁) fun es' r s₂ h' => (h.after h'.1).congr ?_
    rw [← h'.2]
    simp [Lacking]

theorem AbsenceHeeds.refused {rc : Rc} (status : Int) (payload : Option Bytes) (fmt : List Piece) (h : rc ≠ .notFound) :
    AbsenceHeeds c (ctxFail rc status payload fmt : Cmd α) := by
  apply Heeds.fails (quiet_neutral.ctxFail rc status payload fmt) ?_ (yields_ctxFail rc status payload fmt _)
  exact ⟨fun _ => wp_ctxFail_of fun _ _ _ _ _ _ he => by simpa using Except.error.inj he ▸ h⟩

/-- Every such call tells a missing key as the final response does. -/
theorem heeds_keyCall (x : KeyCall) : AbsenceHeeds x.request (x.cmd cfg) := by
  have hclear : Throws clearError fun rc => ¬(.error rc : Except Rc x.Out) = .error .notFound := .modify _
  cases x with
  | get kid =>
    apply Heeds.bind quiet_neutral.clearError hclear; intro _
    dsimp only
    rw [Program.cmd_ite]
    apply Heeds.ite
    · exact fun _ => AbsenceHeeds.refused _ _ _ (by simp)
    · intro _
      apply AbsenceHeeds.looked "keymgmt/get" rfl rfl
      · exact fun root => ⟨.parseKeyDetails root, quiet_parseKeyDetails root⟩
      · exact fun _ => rfl
  | delete kid =>
    apply Heeds.bind quiet_neutral.clearError hclear; intro _
    dsimp only
    rw [Program.cmd_ite]
    apply Heeds.ite
    · exact fun _ => AbsenceHeeds.refused _ _ _ (by simp)
    · exact fun _ => AbsenceHeeds.asked "keymgmt/delete" rfl rfl rfl fun _ => rfl
  | update kid label descr =>
    apply Heeds.bind quiet_neutral.clearError hclear; intro _
    dsimp only
    simp only [Program.cmd_ite]
    apply Heeds.ite (fun _ => AbsenceHeeds.refused _ _ _ (by simp)); intro _
    apply Heeds.ite (fun _ => AbsenceHeeds.refused _ _ _ (by simp)); intro _
    apply Heeds.ite (fun _ => AbsenceHeeds.refused _ _ _ (by simp)); intro _
    apply AbsenceHeeds.built "keymgmt/update" (quiet_neutral.printObject _) ?_ ?_ rfl rfl rfl fun _ => rfl
    · exact .bind (throws_need (by simp)) fun _ => .pure _
    · exact .bind fun _ => .pure rfl

/-- Nothing matched a search: what its response says, or the token engine's. -/
def noMatch : Outlook where
  good resp := resp.status = 404
  other es := Misled es .notFound ∨ Unready es .notFound
  later h := h.imp Misled.later Unready.later
  unheard h hq := h.imp (·.unheard hq) (·.unheard hq)

def answered : Outlook where
  good resp := resp.fault = none
  other _ := False
  later h := h
  unheard h _ := h

theorem noMatch_telling : Telltale noMatch fun r _ => r = .error .notFound where
  judged {resp r s} h := by
    have hl := absence_telling.judged h
    cases hfault : resp.fault with
    | none =>
      obtain ⟨b, rfl⟩ := judged_none h hfault
      have h2 := fault_none_passed hfault
      exact iff_of_false (by simp) fun hm => by have hm : resp.status = 404 := hm; omega
    | some rc =>
      obtain ⟨rfl, hs⟩ := judged_some h hfault
      constructor
      · intro hrc
        obtain rfl := Except.error.inj hrc
        exact ((fault_behind hfault).2 (.inr (.inl rfl))).notFound rfl
      · intro hm
        have hm : resp.status = 404 := hm
        rw [fault_mapped hfault (by omega), hm]
        rfl
  mistakable h := .inr (.inl (Except.error.inj h))
  other h hm := by
    obtain rfl := Except.error.inj h
    exact hm.imp Misread.misled id

theorem answered_telling : Telltale answered fun r _ => ∃ b, r = .ok b where
  judged {resp r s} h := by
    constructor
    · intro hok
      obtain ⟨b, rfl⟩ := hok
      cases hfault : resp.fault with
      | none => exact hfault
      | some rc => cases (judged_some h hfault).1
    · exact judged_none h
  mistakable h := by
    obtain ⟨b, hb⟩ := h
    cases hb
  other h _ := by
    obtain ⟨b, hb⟩ := h
    cases hb

/-- The request of a search for one page. -/
def searchCall (descr : Bytes) (offset limit : Nat) : Call :=
  EmptyCall.ask .post (lit "keymgmt/search") (some (searchBody descr offset limit)) keymgmtSearchScope

/-- What a page tells of the search: it is of the response to it, and where nothing matched it is an empty one. -/
structure PageHeard (c : Call) (es : List Event) (r : Except Rc KeyPage) : Prop where
  found : ∀ page, r = .ok page →
    (∃ resp, c.Final es (.done resp) ∧ (resp.fault = none ∨ (resp.status = 404 ∧ page = .empty))) ∨
      (page = .empty ∧ noMatch.other es)
  unmatched : ∀ resp, c.Final es (.done resp) → resp.status = 404 → r = .ok .empty ∨ r = .error .nomem

theorem PageHeard.before {es es' : List Event} {r : Except Rc KeyPage} (h : PageHeard c es' r)
    (hs : ∀ e ∈ es, c.Silent e) : PageHeard c (es ++ es') r := by
  refine ⟨fun page hr => ?_, fun resp hf h404 => h.unmatched resp (hf.right hs) h404⟩
  rcases h.found page hr with ⟨resp, hf, hresp⟩ | ⟨hp, ho⟩
  · exact .inl ⟨resp, hf.later, hresp⟩
  · exact .inr ⟨hp, noMatch.later ho⟩

/-- A failure before the search is dispatched. -/
theorem PageHeard.silent {es : List Event} {rc : Rc} (hs : ∀ e ∈ es, c.Silent e) : PageHeard c es (.error rc) :=
  ⟨fun _ hr => (by cases hr), fun _ hf => absurd hs hf.not_silent⟩

theorem wp_searched_json {path : Bytes} (hp : c.path = lit "/api/" ++ path) (ho : c.ov = .default) {s : Ctx} :
    wp (Api.requestJson c.method path c.body c.scope : Api cfg Json).cmd
      (fun es r _ => Reads noMatch c es (r = .error .notFound) ∧
        ∀ root, r = .ok root → ∃ resp, c.Final es (.done resp) ∧ resp.fault = none) s := by
  change wp (EncedoHem.requestRaw cfg c.method (lit "/api/" ++ path) c.body c.scope .default >>= fun b =>
    EncedoHem.parseBody (lit "/api/" ++ path) b) _ s
  rw [← hp, ← ho]
  refine wp_bind_of (wp_and (wp_told_request noMatch_telling) (wp_told_request answered_telling)) ?_ ?_
  · intro es b s₁ h
    refine wp_mono (wp_parseBody_unheard c.path b s₁) fun es' r s₂ h' => ?_
    refine ⟨(h.1.after h'.1).congr (iff_of_false (by simp) h'.2.1), fun root _ => ?_⟩
    rcases (h.2.after h'.1).sound ⟨b, rfl⟩ with hf | hf
    · exact hf
    · exact hf.elim
  · intro es rc s₁ h
    exact ⟨h.1.congr (by simp), fun root hr => by cases hr⟩

theorem wp_pageHeard (descr : Bytes) (offset limit : Nat) (s : Ctx) :
    wp (Api.searchOnePage descr offset limit : Api cfg KeyPage).cmd
      (fun es r _ => PageHeard (searchCall descr offset limit) es r) s := by
  change wp ((need >>= fun _ => pure (searchBody descr offset limit)) >>= _) _ s
  rw [Cmd.bind_assoc]
  refine wp_bind_of (quiet_neutral.need.run s) (fun es _ s₁ hq => ?_) fun es rc s₁ hq => .silent (Call.silent_calm hq)
  rw [Cmd.pure_bind]
  refine wp_mono ?_ fun es' r s' h => PageHeard.before h (Call.silent_calm hq)
  change wp ((Api.requestJson (searchCall descr offset limit).method (lit "keymgmt/search")
    (searchCall descr offset limit).body (searchCall descr offset limit).scope : Api cfg Json).cmd.attempt >>= _) _ s₁
  rw [wp_bind, wp_attempt]
  refine wp_mono (wp_searched_json rfl rfl) fun es₁ r s₂ h => ?_
  dsimp only
  split
  · have hempty : Yields (need >>= fun _ => clearError >>= fun _ => pure KeyPage.empty) (· = .empty) :=
      .bind fun _ => .bind fun _ => .pure rfl
    have hnomem : Throws (need >>= fun _ => clearError >>= fun _ => pure KeyPage.empty) (· = .nomem) :=
      .bind (throws_need rfl) fun _ => .bind (.modify _) fun _ => .pure _
    have hquiet : Quiet (need >>= fun _ => clearError >>= fun _ => pure KeyPage.empty) :=
      .bind quiet_neutral.need fun _ => .bind quiet_neutral.clearError fun _ => .pure _
    refine wp_mono (wp_and (hquiet.run s₂) (wp_and (hempty.run s₂) (hnomem.run s₂))) fun es₂ r s₃ h' => ?_
    have hreads := h.1.after (.calm h'.1)
    refine ⟨fun page hr => ?_, fun resp _ _ => ?_⟩
    · rcases hreads.sound rfl with ⟨resp, hf, h404⟩ | ho
      · exact .inl ⟨resp, hf, .inr ⟨h404, h'.2.1 page hr⟩⟩
      · exact .inr ⟨h'.2.1 page hr, ho⟩
    · cases r with
      | ok page => exact .inl (congrArg _ (h'.2.1 page rfl))
      | error rc => exact .inr (congrArg _ (h'.2.2 rc rfl))
  · rename_i rc hne
    refine wp_throwRc.mpr ⟨fun page hr => (by cases hr), fun resp hf h404 => ?_⟩
    rw [List.append_nil] at hf
    exact absurd (h.1.complete resp hf h404) fun hrc => hne (Except.error.inj hrc)
  · rename_i root
    refine wp_mono ((quiet_neutral.parseKeyPage root).run s₂) fun es₂ r s₃ hq => ?_
    have hu : Unheard es₂ := .calm hq
    refine ⟨fun page _ => ?_, fun resp hf h404 => ?_⟩
    · obtain ⟨resp, hf, hnone⟩ := h.2 root rfl
      exact .inl ⟨resp, hf.unheard hu, .inl hnone⟩
    · cases (h.1.after hu).complete resp hf h404

/-- The same for a search, which checks its pattern first. -/
theorem wp_keySearch_heard (pattern : Buf) (mode : KeySearchMode) (offset limit : Nat) (s : Ctx) :
    wp (Api.keySearch pattern mode offset limit : Api cfg KeyPage).cmd
      (fun es r _ => PageHeard (searchCall (Api.searchDescr mode pattern.bytes) offset limit) es r) s := by
  have hnil : ∀ e ∈ ([] : List Event), (searchCall (Api.searchDescr mode pattern.bytes) offset limit).Silent e := by
    simp
  unfold Api.keySearch
  rw [Program.cmd_ite, wp_ite]
  split
  · exact wp_throwRc.mpr (.silent hnil)
  · change wp (clearError >>= fun _ => need >>= fun _ => _) _ s
    rw [wp_bind, wp_clearError]
    simp only [List.nil_append]
    refine wp_bind_of (quiet_neutral.need.run _) (fun es _ s₁ hq => ?_) fun es rc s₁ hq => .silent (Call.silent_calm hq)
    exact wp_mono (wp_pageHeard _ offset limit s₁) fun es' r s' h => h.before (Call.silent_calm hq)

end

/-- The lookup, the deletion and the update of a key report it missing where the final response to their own request
has one of the two statuses, and besides that only where the token engine was told so. -/
theorem missing_key_heard (cfg : Config) (x : KeyCall) {s s' : Ctx} {es : List Event} {r : Except Rc x.Out}
    (h : Runs (x.cmd cfg) s es r s') :
    (r = .error .notFound → (∃ resp, x.request.Final es (.done resp) ∧ resp.Missing) ∨ Astray es) ∧
      ∀ resp, x.request.Final es (.done resp) → resp.Missing → r = .error .notFound :=
  let hr := heeds_keyCall x s es r s' h
  ⟨hr.sound, hr.complete⟩

/-- A key that was never asked for is reported missing: the login challenge was not there. -/
theorem key_missing_unasked :
    (scriptEvents ((KeyCall.get sampleKid).cmd .standard) .loggedIn 5 [.status 404]).countP isSend = 1 ∧
      Astray (scriptEvents ((KeyCall.get sampleKid).cmd .standard) .loggedIn 5 [.status 404]) := by
  have hrun := script_runs ((KeyCall.get sampleKid).cmd .standard) .loggedIn 5 [.status 404]
  have hsilent : ∀ e ∈ scriptEvents ((KeyCall.get sampleKid).cmd .standard) .loggedIn 5 [.status 404],
      (KeyCall.get sampleKid).request.Silent e :=
    List.filterMap_eq_nil_iff.mp (List.isEmpty_iff.mp (by decide +kernel))
  refine ⟨by decide +kernel, ?_⟩
  rcases (missing_key_heard .standard (.get sampleKid) hrun).1 (by decide +kernel) with ⟨resp, hf, -⟩ | hm
  · exact absurd hsilent hf.not_silent
  · exact hm

/-- A search, and every page of the search for all keys, gives a page that its own response stands behind; the empty
page is also given where the token engine's response said that there was nothing. -/
theorem search_page_heard (cfg : Config) :
    (∀ pattern mode offset limit s es r s', Runs (Api.keySearch pattern mode offset limit : Api cfg KeyPage).cmd s es r s' →
      PageHeard (searchCall (Api.searchDescr mode pattern.bytes) offset limit) es r) ∧
    ∀ descr offset limit s es r s', Runs (Api.searchOnePage descr offset limit : Api cfg KeyPage).cmd s es r s' →
      PageHeard (searchCall descr offset limit) es r :=
  ⟨fun pattern mode offset limit s => wp_keySearch_heard pattern mode offset limit s,
    fun descr offset limit s => wp_pageHeard descr offset limit s⟩

/-- A search that the device never saw matches nothing. -/
theorem search_empty_unasked :
    let run := scriptEvents (Api.keySearch (.null 0) .substring 0 10 : Api .standard KeyPage).cmd .loggedIn 5 [.status 404]
    run.countP isSend = 1 ∧ noMatch.other run := by
  have hrun := script_runs (Api.keySearch (.null 0) .substring 0 10 : Api .standard KeyPage).cmd .loggedIn 5 [.status 404]
  have hsilent : ∀ e ∈ scriptEvents (Api.keySearch (.null 0) .substring 0 10 : Api .standard KeyPage).cmd .loggedIn 5
      [.status 404], (searchCall (Api.searchDescr .substring []) 0 10).Silent e :=
    List.filterMap_eq_nil_iff.mp (List.isEmpty_iff.mp (by decide +kernel))
  have hempty : scriptResult (Api.keySearch (.null 0) .substring 0 10 : Api .standard KeyPage).cmd .loggedIn 5
      [.status 404] = .ok .empty := by decide +kernel
  refine ⟨by decide +kernel, ?_⟩
  rcases ((search_page_heard .standard).1 _ _ _ _ _ _ _ _ hrun).found _ hempty with ⟨resp, hf, -⟩ | ⟨-, hm⟩
  · exact absurd hsilent hf.not_silent
  · exact hm

end EncedoHem
