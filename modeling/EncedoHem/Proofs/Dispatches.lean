import EncedoHem.Proofs.Plain
import EncedoHem.Scripted

namespace EncedoHem
open Text Dialogue

/-- A request as it is handed to `ehem_proto_request_raw`. -/
structure Call where
  method : Method
  path : Bytes
  body : Option Bytes
  scope : Option Bytes
  ov : TlsOverride
  deriving DecidableEq

/-- The exchange is a dispatch of the call's own request. -/
def Call.sent (c : Call) (scope : Option Bytes) (req : Request) : Bool :=
  scope = c.scope && req.tlsOverride = c.ov && req.method = c.method && req.path = c.path &&
    req.body = c.body

/-- What the exchange answered the call's own request, if it is a dispatch of it. -/
def Call.answer? (c : Call) : Event → Option Answer
  | ⟨.send scope req, a⟩ => if c.sent scope req then some a else none
  | _ => none

/-- What the dispatches of the call's own request came to, in order. -/
def Call.answers (c : Call) (es : List Event) : List Answer := es.filterMap c.answer?

/-- The two outcomes of a dispatch that another dispatch may follow: the
transport's expired-certificate verdict, and a 401 under a scope. -/
def Call.Repeatable (c : Call) : Answer → Prop
  | .failed _ expired _ => expired = true
  | .done r => r.status = 401 ∧ c.scope ≠ none

/-- An answer with an HTTP status other than 401. -/
def Answer.settles : Answer → Bool
  | .done r => r.status ≠ 401
  | .failed .. => false

/-- The history of one call's own dispatches: a bounded number, and every one
but the last repeatable. -/
structure Call.Attempts (c : Call) (answers : List Answer) : Prop where
  atMost : answers.length ≤ 3
  unscoped : c.scope = none → answers.length ≤ 2
  repeated : ∀ a ∈ answers.dropLast, c.Repeatable a

namespace Call
variable {c : Call} {cfg : Config}

@[simp] theorem answers_nil : c.answers [] = [] := rfl

@[simp] theorem answers_append (es es' : List Event) :
    c.answers (es ++ es') = c.answers es ++ c.answers es' := List.filterMap_append

theorem answers_pause : c.answers (pause cfg) = [] := by
  unfold pause
  split
  · rfl
  · rfl

theorem answers_record (payload : Option Bytes) (copied : Bool) :
    c.answers (recordEvents payload copied) = [] := by
  cases payload with
  | none => rfl
  | some p => rfl

/-- The exchange is not a dispatch of the call's own request. -/
def Silent (c : Call) (e : Event) : Prop := c.answer? e = none

theorem answers_silent {es : List Event} (h : ∀ e ∈ es, c.Silent e) : c.answers es = [] :=
  List.filterMap_eq_nil_iff.mpr h

theorem silent_neutral : Neutral (Emits c.Silent) := emits_neutral fun ⟨op, ans⟩ he => by
  cases op with
  | send scope req => exact absurd he Bool.false_ne_true
  | _ => rfl

theorem silent_of_override {scope : Option Bytes} {req : Request} {a : Answer}
    (h : req.tlsOverride ≠ c.ov) : c.Silent ⟨.send scope req, a⟩ := by
  simp [Silent, answer?, sent, h]

/-- The machinery under a scoped call makes none of the call's dispatches: its
own are made under no scope. -/
theorem silent_of_plain {e : Event} (hs : c.scope ≠ none) (h : PlainEvent e) : c.Silent e := by
  obtain ⟨op, ans⟩ := e
  cases op with
  | send scope req =>
    have hn : scope = none := h.unscoped
    have hne : scope ≠ c.scope := by
      rw [hn]
      exact hs.symm
    simp [Silent, answer?, sent, hne]
  | _ => rfl

/-- Nor does a check-in started for an unscoped call: its legs are relaxed or
verified in full, the call's own dispatches are neither. -/
theorem silent_recovery (ho : c.ov = .default) : Keeps (Emits c.Silent) (recoveryCheckin cfg) := by
  have hn : Neutral (Emits c.Silent) := silent_neutral
  have hrelax : TlsOverride.relax ≠ c.ov := by simp [ho]
  have hverify : TlsOverride.verify ≠ c.ov := by simp [ho]
  have hlegs : Keeps (Emits c.Silent) (checkinLegs cfg true) :=
    hn.checkinLegs (fun _ => emits_nil) (fun _ _ _ => emits_single (silent_of_override hrelax))
      (fun _ _ _ _ => emits_single (silent_of_override hverify))
      (fun _ _ _ _ => emits_single (silent_of_override hrelax))
  have hmark : ∀ m, Keeps (Emits c.Silent) (mark m) := fun m => .ask fun _ _ => emits_single rfl
  refine .bind (hmark _) fun _ => .bind (.modify fun _ => emits_nil) fun _ => ?_
  refine .bind (.attempt (.bind hlegs fun _ => .pure _)) fun r => ?_
  refine .bind (.modify fun _ => emits_nil) fun _ => .bind (hmark _) fun _ => ?_
  split
  · exact .pure _
  · exact .throw _

/-- What comes after a silent part makes all the dispatches of a sequence. -/
theorem wp_silent_bind {α β : Type} {x : Cmd α} {f : α → Cmd β} {s : Ctx}
    {Q : List Answer → Except Rc β → Prop} (hx : Keeps (Emits c.Silent) x)
    (hf : ∀ a s', wp (f a) (fun es r _ => Q (c.answers es) r) s') (he : ∀ rc, Q [] (.error rc)) :
    wp (x >>= f) (fun es r _ => Q (c.answers es) r) s := by
  refine wp_bind_of (hx.run s) ?_ ?_
  · intro es a s' h
    refine wp_mono (hf a s') fun es' r s'' hq => ?_
    rw [answers_append, answers_silent h]
    exact hq
  · intro es rc s' h
    rw [answers_silent h]
    exact he rc

/-- A part that makes no dispatch of the call leaves its history empty. -/
theorem wp_silent {α : Type} {x : Cmd α} {s : Ctx} {Q : List Answer → Except Rc α → Prop}
    (hx : Keeps (Emits c.Silent) x) (hq : ∀ r, Q [] r) :
    wp x (fun es r _ => Q (c.answers es) r) s := by
  refine wp_mono (hx.run s) fun es r s' h => ?_
  rw [answers_silent h]
  exact hq r

/-- One dispatch of the call's own request, and what follows it. -/
theorem wp_dispatch_bind {β : Type} {f : Answer → Cmd β} {bearer : Option Bytes} {fresh : Bool}
    {s : Ctx} {Q : List Answer → Except Rc β → Prop}
    (hf : ∀ a s', wp (f a) (fun es r _ => Q (a :: c.answers es) r) s') :
    wp (doSend cfg c.scope c.method c.path c.body bearer c.ov fresh >>= f)
      (fun es r _ => Q (c.answers es) r) s := by
  rw [wp_bind, wp_doSend]
  intro a
  refine wp_mono (hf a s) fun es r s' h => ?_
  have hs : c.answers [⟨.send c.scope (buildRequest cfg c.method c.path c.body bearer c.ov fresh), a⟩]
      = [a] := by simp [answers, answer?, sent, buildRequest]
  rw [answers_append, answers_append, answers_pause, hs]
  exact h

/-- Certificate recovery sends again only after the expired verdict, once, and
passes on what the last dispatch came to. -/
structure Recovered (c : Call) (a : Answer) (later : List Answer) (r : Except Rc Answer) : Prop where
  atMost : later.length ≤ 1
  after : later ≠ [] → c.Repeatable a
  last : ∀ b, r = .ok b → (a :: later).getLast? = some b

theorem wp_recoverCert {checkin : Cmd Unit} {bearer : Option Bytes} {a : Answer} {s : Ctx}
    (hc : c.ov = .default → Keeps (Emits c.Silent) checkin) :
    wp (recoverCert cfg checkin (doSend cfg c.scope c.method c.path c.body bearer c.ov true) c.path
        c.ov a) (fun es r _ => c.Recovered a (c.answers es) r) s := by
  have hn : Neutral (Emits c.Silent) := silent_neutral
  have hpass : c.Recovered a [] (.ok a) := ⟨by simp, by simp, by simp⟩
  have hstop : ∀ rc, c.Recovered a [] (.error rc) := fun rc => ⟨by simp, by simp, by simp⟩
  refine wp_silent_bind .get (fun s' _ => ?_) hstop
  cases a with
  | done r => exact wp_pure.mpr hpass
  | failed why expired detail =>
    cases expired with
    | false => exact wp_pure.mpr hpass
    | true =>
      have hagain : ∀ {later : List Answer} {r : Except Rc Answer}, later.length = 1 →
          (∀ b, r = .ok b → later = [b]) → c.Recovered (.failed why true detail) later r := by
        intro later r h1 hl
        exact ⟨by omega, fun _ => rfl, fun b hb => by simp [hl b hb]⟩
      rw [wp_ite]
      split
      · exact wp_pure.mpr hpass
      · rename_i hg
        simp only [not_or, ne_eq, not_not] at hg
        refine wp_silent_bind (.attempt (hc hg.2.2)) (fun crc s' => ?_) hstop
        cases crc with
        | error rc =>
          simp only [wp_bind, wp_record, wp_modifyCtx, wp_throwRc, List.append_nil, answers_record]
          exact fun _ => hstop why.rc
        | ok u =>
          refine wp_dispatch_bind fun b s' => ?_
          cases b with
          | done r' =>
            simp only [wp_bind, wp_modifyCtx, wp_pure]
            exact hagain rfl fun b hb => by rw [Except.ok.inj hb]; rfl
          | failed why' expired' detail' =>
            cases expired' with
            | true =>
              simp only [wp_bind, wp_record, wp_modifyCtx, wp_throwRc, List.append_nil,
                answers_record]
              exact fun _ => hagain rfl (by simp)
            | false => exact wp_pure.mpr (hagain rfl fun b hb => by rw [Except.ok.inj hb]; rfl)

/-- The sanctioned retry sends again only after a 401 under a scope, once. -/
structure Retried (c : Call) (r : Response) (later : List Answer) : Prop where
  atMost : later.length ≤ 1
  after : later ≠ [] → r.status = 401 ∧ c.scope ≠ none

theorem wp_retryAuth {ensure : Bytes → Cmd Bytes} {r : Response} {s : Ctx}
    (he : ∀ sc, c.scope = some sc → Keeps (Emits c.Silent) (ensure sc)) :
    wp (retryAuth ensure
        (fun bearer => doSend cfg c.scope c.method c.path c.body bearer c.ov true) c.path c.scope r)
      (fun es _ _ => c.Retried r (c.answers es)) s := by
  have hn : Neutral (Emits c.Silent) := silent_neutral
  have hpass : c.Retried r [] := ⟨by simp, by simp⟩
  unfold retryAuth
  split
  · exact wp_pure.mpr hpass
  · rename_i sc hs
    rw [wp_ite]
    split
    · exact wp_pure.mpr hpass
    · rename_i h401
      have hsome : c.scope ≠ none := by simp [hs]
      have hagain : ∀ a, c.Retried r [a] := fun a => ⟨by simp, fun _ => ⟨not_not.mp h401, hsome⟩⟩
      refine wp_silent_bind (Q := fun later _ => c.Retried r later) (.modify fun _ => emits_nil)
        (fun _ _ => ?_) fun _ => hpass
      refine wp_silent_bind (Q := fun later _ => c.Retried r later) (he sc hs)
        (fun token _ => ?_) fun _ => hpass
      refine wp_silent_bind (Q := fun later _ => c.Retried r later)
        (.bind hn.need fun _ => .pure _) (fun bearer _ => ?_) fun _ => hpass
      refine wp_dispatch_bind (Q := fun later _ => c.Retried r later) fun a _ => ?_
      refine wp_silent (Q := fun later _ => c.Retried r (a :: later)) ?_ fun _ => hagain a
      cases a with
      | done r' => exact .pure _
      | failed why expired detail => exact hn.ctxFail ..

theorem Recovered.attempts {a : Answer} {later : List Answer} {r : Except Rc Answer}
    (h : c.Recovered a later r) : c.Attempts (a :: later) := by
  have h1 : later.length ≤ 1 := h.atMost
  refine ⟨by simp only [List.length_cons]; omega, fun _ => by simp only [List.length_cons]; omega, ?_⟩
  cases later with
  | nil => simp
  | cons b rest =>
    have hrest : rest = [] := List.length_eq_zero_iff.mp (by simp only [List.length_cons] at h1; omega)
    subst hrest
    intro x hx
    rw [List.mem_singleton.mp hx]
    exact h.after (by simp)

/-- The retry goes after the recovery: what it repeats is the last dispatch so far. -/
theorem Retried.attempts {a : Answer} {earlier later : List Answer} {r : Response}
    (h : c.Recovered a earlier (.ok (.done r))) (h' : c.Retried r later) :
    c.Attempts (a :: (earlier ++ later)) := by
  cases later with
  | nil => simpa using h.attempts
  | cons b rest =>
    obtain ⟨h401, hs⟩ := h'.after (by simp)
    have h1 : rest = [] := by
      have := h'.atMost
      simp only [List.length_cons] at this
      exact List.length_eq_zero_iff.mp (by omega)
    subst h1
    have he : earlier.length ≤ 1 := h.atMost
    refine ⟨by simp only [List.length_cons, List.length_append, List.length_nil]; omega,
      fun hn => absurd hn hs, ?_⟩
    have hd : (a :: (earlier ++ [b])).dropLast = a :: earlier := by
      rw [← List.cons_append, List.dropLast_concat]
    rw [hd]
    intro x hx
    have hl : (a :: earlier).getLast? = some (.done r) := h.last _ rfl
    have hsplit : x ∈ (a :: earlier).dropLast ∨ x = .done r := by
      rw [← List.dropLast_append_getLast? _ hl] at hx
      simpa using hx
    cases hsplit with
    | inl hm => exact h.attempts.repeated x hm
    | inr hx =>
      rw [hx]
      exact ⟨h401, hs⟩

theorem wp_exchange {ensure : Bytes → Cmd Bytes} {checkin : Cmd Unit} {bearer : Option Bytes}
    {s : Ctx} (hc : c.ov = .default → Keeps (Emits c.Silent) checkin)
    (he : ∀ sc, c.scope = some sc → Keeps (Emits c.Silent) (ensure sc)) :
    wp (exchangeWith cfg ensure checkin c.method c.path c.body c.scope c.ov bearer)
      (fun es _ _ => c.Attempts (c.answers es)) s := by
  have hn : Neutral (Emits c.Silent) := silent_neutral
  refine wp_dispatch_bind (Q := fun d _ => c.Attempts d) fun a s' => ?_
  refine wp_bind_of (wp_recoverCert hc) ?_ fun es rc s'' h => h.attempts
  intro es b s'' h
  simp only [answers_append]
  rw [wp_bind]
  cases b with
  | failed why expired detail =>
    simp only [requireDone, sendFailed, wp_bind, wp_record, wp_modifyCtx, wp_throwRc,
      List.append_nil, answers_record]
    exact fun _ => h.attempts
  | done r =>
    refine wp_pure.mpr ?_
    refine wp_bind_of (wp_retryAuth he) ?_ fun es' rc s'' h' => h'.attempts h
    intro es' r' s'' h'
    refine wp_mono ((hn.judge ..).run s'') fun es₂ _ _ hj => ?_
    rw [List.nil_append, answers_append, answers_silent hj, List.append_nil]
    exact h'.attempts h

theorem silent_acquireBearer {ensure : Bytes → Cmd Bytes}
    (he : ∀ sc, c.scope = some sc → Keeps (Emits c.Silent) (ensure sc)) :
    Keeps (Emits c.Silent) (acquireBearer ensure c.scope) := by
  have hn : Neutral (Emits c.Silent) := silent_neutral
  unfold acquireBearer
  split
  · exact .pure _
  · rename_i sc hs
    exact .bind (he sc hs) fun _ => .bind (.bind hn.need fun _ => .pure _) fun _ => .pure _

theorem wp_request {ensure : Bytes → Cmd Bytes} {checkin : Cmd Unit} {s : Ctx}
    (hc : c.ov = .default → Keeps (Emits c.Silent) checkin)
    (he : ∀ sc, c.scope = some sc → Keeps (Emits c.Silent) (ensure sc)) :
    wp (requestRawWith cfg ensure checkin c.method c.path c.body c.scope c.ov)
      (fun es _ _ => c.Attempts (c.answers es)) s := by
  have hn : Neutral (Emits c.Silent) := silent_neutral
  have hnone : c.Attempts [] := ⟨by simp, by simp, by simp⟩
  unfold requestRawWith
  rw [wp_ite]
  split
  · exact wp_silent (Q := fun d _ => c.Attempts d) (hn.ctxFail ..) fun _ => hnone
  · exact wp_silent_bind (Q := fun d _ => c.Attempts d) (silent_acquireBearer he)
      (fun _ _ => wp_exchange hc he) fun _ => hnone

/-- At most one of a history's answers settles the request: the last. -/
theorem Attempts.settled {d : List Answer} (h : c.Attempts d) :
    (d.filter Answer.settles).length ≤ 1 := by
  have hd : ∀ x ∈ d.dropLast, x.settles = false := by
    intro x hx
    have hr := h.repeated x hx
    cases x with
    | failed why expired detail => rfl
    | done r => simp [Answer.settles, hr.1]
  cases hl : d.getLast? with
  | none => simp [List.getLast?_eq_none_iff.mp hl]
  | some a =>
    rw [← List.dropLast_append_getLast? a hl, List.filter_append,
      List.filter_eq_nil_iff.mpr fun x hx => by simp [hd x hx]]
    exact List.length_filter_le ..

/-- What no dispatch follows is the last entry of the history. -/
theorem Attempts.final {d before after : List Answer} {a : Answer} (h : c.Attempts d)
    (hd : d = before ++ a :: after) (ha : ¬c.Repeatable a) : after = [] := by
  by_contra hne
  refine ha (h.repeated a ?_)
  rw [hd, List.dropLast_append_of_ne_nil (by simp), List.dropLast_cons_of_ne_nil hne]
  simp

/-- A dispatch of the call's own request that failed without the verdict on the certificate. -/
def Lost (c : Call) (why : SendFailure) : Event → Prop
  | ⟨.send scope req, a⟩ => c.sent scope req = true ∧ ∃ detail, a = .failed why false detail
  | _ => False

/-- Once such a dispatch is made, nothing more is asked of the environment: the call
ends with the failure and without the verdict on record. -/
def Ends (c : Call) {α : Type} (es : List Event) (r : Except Rc α) (s' : Ctx) : Prop :=
  ∀ pre e post why, es = pre ++ e :: post → c.Lost why e →
    post = [] ∧ r = .error why.rc ∧ s'.lastError.httpStatus = 0 ∧ s'.lastError.tlsExpired = false

theorem Silent.not_lost {e : Event} {why : SendFailure} (h : c.Silent e) : ¬c.Lost why e := by
  obtain ⟨op, ans⟩ := e
  cases op with
  | send scope req =>
    intro hl
    simp [Silent, answer?, hl.1] at h
  | _ => exact id

theorem Ends.of_none {α : Type} {es : List Event} {r : Except Rc α} {s' : Ctx}
    (h : ∀ e ∈ es, ∀ why, ¬c.Lost why e) : c.Ends es r s' := by
  intro pre e post why he hl
  exact absurd hl (h e (by simp [he]) why)

/-- What precedes without a lost dispatch does not matter. -/
theorem Ends.append {α : Type} {es es' : List Event} {r : Except Rc α} {s' : Ctx}
    (h : ∀ e ∈ es, ∀ why, ¬c.Lost why e) (h' : c.Ends es' r s') : c.Ends (es ++ es') r s' := by
  intro pre e post why he hl
  rcases List.append_eq_append_iff.mp he with ⟨mid, rfl, rfl⟩ | ⟨mid, rfl, hm⟩
  · exact h' mid e post why rfl hl
  · cases mid with
    | nil => exact h' [] e post why (by simpa using hm.symm) hl
    | cons x mid =>
      have hx : x = e := by simpa using (List.cons.inj hm).1.symm
      exact absurd hl (h e (by simp [hx]) why)

theorem wp_ends_silent {α : Type} {x : Cmd α} {s : Ctx} (hx : Keeps (Emits c.Silent) x) :
    wp x (fun es r s' => c.Ends es r s') s :=
  wp_mono (hx.run s) fun _ _ _ h => .of_none fun e he _ => (h e he).not_lost

theorem wp_ends_bind {α β : Type} {x : Cmd α} {f : α → Cmd β} {s : Ctx}
    (hx : Keeps (Emits c.Silent) x) (hf : ∀ a s', wp (f a) (fun es r s'' => c.Ends es r s'') s') :
    wp (x >>= f) (fun es r s' => c.Ends es r s') s := by
  refine wp_bind_of (hx.run s) ?_ fun es rc s' h => .of_none fun e he _ => (h e he).not_lost
  intro es a s' h
  exact wp_mono (hf a s') fun es' r s'' h' => h'.append fun e he _ => (h e he).not_lost

/-- What a lost dispatch is followed by. -/
def Closed {α : Type} (why : SendFailure) (es : List Event) (r : Except Rc α) (s' : Ctx) : Prop :=
  es = [] ∧ r = .error why.rc ∧ s'.lastError.httpStatus = 0 ∧ s'.lastError.tlsExpired = false

theorem Ends.single {α : Type} {es : List Event} {e : Event} {why : SendFailure}
    {r : Except Rc α} {s' : Ctx} (he : ∀ why', c.Lost why' e → why' = why)
    (h : Closed why es r s') : c.Ends (e :: es) r s' := by
  obtain ⟨rfl, hr, hs⟩ := h
  intro pre e' post why' hsplit hl
  cases pre with
  | nil =>
    obtain ⟨rfl, rfl⟩ := List.cons.inj hsplit
    exact ⟨rfl, by rw [hr, he why' hl], hs⟩
  | cons x pre => simp at hsplit

/-- One dispatch of the call's own request: what follows it has to close the call
when the dispatch was lost, and may go on otherwise. -/
theorem wp_ends_dispatch {α : Type} {f : Answer → Cmd α} {bearer : Option Bytes} {fresh : Bool}
    {s : Ctx} (hlost : ∀ why detail s', wp (f (.failed why false detail)) (Closed why) s')
    (hf : ∀ a s', (∀ why detail, a ≠ .failed why false detail) →
      wp (f a) (fun es r s'' => c.Ends es r s'') s') :
    wp (doSend cfg c.scope c.method c.path c.body bearer c.ov fresh >>= f)
      (fun es r s' => c.Ends es r s') s := by
  rw [wp_bind, wp_doSend]
  intro a
  have hpause : ∀ e ∈ pause cfg, ∀ why, ¬c.Lost why e := by
    intro e he why
    unfold pause at he
    split at he
    · simp at he
    · rw [List.mem_singleton.mp he]
      exact id
  by_cases ha : ∃ why detail, a = .failed why false detail
  · obtain ⟨why, detail, rfl⟩ := ha
    refine wp_mono (hlost why detail s) fun es r s' h => ?_
    rw [List.append_assoc]
    refine .append hpause (.single ?_ h)
    rintro why' ⟨-, detail', hd⟩
    simp only [Answer.failed.injEq] at hd
    exact hd.1.symm
  · have hne : ∀ why detail, a ≠ .failed why false detail := fun why detail h => ha ⟨why, detail, h⟩
    refine wp_mono (hf a s hne) fun es r s' h => ?_
    rw [List.append_assoc]
    refine .append hpause (.append ?_ h)
    intro e he why hl
    rw [List.mem_singleton.mp he] at hl
    obtain ⟨-, detail, hd⟩ := hl
    exact hne why detail hd

/-- The exchange must have completed, and did not. -/
theorem wp_requireDone_lost {β : Type} {f : Response → Cmd β} {path detail : Bytes}
    {why : SendFailure} {s : Ctx} :
    wp (requireDone path (.failed why false detail) >>= f) (Closed why) s := by
  simp only [requireDone, sendFailed, wp_bind, wp_record, wp_modifyCtx, wp_throwRc, List.append_nil]
  exact fun _ => ⟨rfl, rfl, rfl, rfl⟩

theorem wp_ends_retry {ensure : Bytes → Cmd Bytes} {r : Response} {s : Ctx}
    (he : ∀ sc, c.scope = some sc → Keeps (Emits c.Silent) (ensure sc)) :
    wp (retryAuth ensure
        (fun bearer => doSend cfg c.scope c.method c.path c.body bearer c.ov true) c.path c.scope r >>=
        judge c.path) (fun es r s' => c.Ends es r s') s := by
  have hn : Neutral (Emits c.Silent) := silent_neutral
  unfold retryAuth
  split
  · exact wp_ends_silent (hn.judge ..)
  · rename_i sc hs
    split
    · exact wp_ends_silent (hn.judge ..)
    · simp only [Cmd.bind_assoc]
      refine wp_ends_bind (.modify fun _ => emits_nil) fun _ _ => ?_
      refine wp_ends_bind (he sc hs) fun token _ => ?_
      refine wp_ends_bind (.bind hn.need fun _ => .pure _) fun bearer _ => ?_
      refine wp_ends_dispatch ?_ fun a s' _ => wp_ends_silent ?_
      · intro why detail s'
        simp only [wp_bind, wp_ctxFail, recordEvents]
        exact fun _ => ⟨rfl, rfl, rfl, rfl⟩
      · cases a with
        | done r' => exact hn.judge ..
        | failed why expired detail => exact .bind (hn.ctxFail ..) fun _ => hn.judge ..

/-- What is done with the last answer, once it is not a loss. -/
theorem wp_ends_finish {ensure : Bytes → Cmd Bytes} {a : Answer} {s : Ctx}
    (he : ∀ sc, c.scope = some sc → Keeps (Emits c.Silent) (ensure sc)) :
    wp (requireDone c.path a >>= fun r => retryAuth ensure
        (fun bearer => doSend cfg c.scope c.method c.path c.body bearer c.ov true) c.path c.scope r >>=
        judge c.path) (fun es r s' => c.Ends es r s') s := by
  cases a with
  | done r => exact wp_ends_retry he
  | failed why expired detail =>
    show wp (sendFailed c.path why expired detail >>= _) _ s
    rw [sendFailed_bind]
    exact wp_ends_silent (silent_neutral.sendFailed ..)

theorem wp_ends_exchange {ensure : Bytes → Cmd Bytes} {checkin : Cmd Unit} {bearer : Option Bytes}
    {s : Ctx} (hc : c.ov = .default → Keeps (Emits c.Silent) checkin)
    (he : ∀ sc, c.scope = some sc → Keeps (Emits c.Silent) (ensure sc)) :
    wp (exchangeWith cfg ensure checkin c.method c.path c.body c.scope c.ov bearer)
      (fun es r s' => c.Ends es r s') s := by
  have hn : Neutral (Emits c.Silent) := silent_neutral
  refine wp_ends_dispatch ?_ fun a s' hne => ?_
  · intro why detail s'
    unfold recoverCert
    simp only [Cmd.bind_assoc, Cmd.pure_bind]
    rw [wp_bind, wp_getCtx]
    exact wp_requireDone_lost
  · unfold recoverCert
    simp only [Cmd.bind_assoc]
    refine wp_ends_bind .get fun s _ => ?_
    cases a with
    | done r => exact wp_ends_finish he
    | failed why expired detail =>
      cases expired with
      | false => exact absurd rfl (hne why detail)
      | true =>
        dsimp only
        split
        · exact wp_ends_finish he
        · rename_i hg
          simp only [not_or, ne_eq, not_not] at hg
          simp only [Cmd.bind_assoc]
          refine wp_ends_bind (.attempt (hc hg.2.2)) fun crc s' => ?_
          cases crc with
          | error rc =>
            simp only [Cmd.bind_assoc, throwRc_bind]
            exact wp_ends_silent (.bind (hn.record ..) fun _ => .bind (.modify fun _ => emits_nil) fun _ => .throw _)
          | ok u =>
            simp only [Cmd.bind_assoc]
            refine wp_ends_dispatch ?_ fun b s' hb => ?_
            · intro why' detail' s'
              dsimp only
              rw [Cmd.pure_bind]
              exact wp_requireDone_lost
            · cases b with
              | done r' =>
                simp only [Cmd.bind_assoc]
                exact wp_ends_bind (.modify fun _ => emits_nil) fun _ _ => wp_ends_finish he
              | failed why' expired' detail' =>
                cases expired' with
                | false => exact absurd rfl (hb why' detail')
                | true =>
                  simp only [Cmd.bind_assoc, throwRc_bind]
                  exact wp_ends_silent (.bind (hn.record ..) fun _ => .bind (.modify fun _ => emits_nil) fun _ => .throw _)

theorem wp_ends_request {ensure : Bytes → Cmd Bytes} {checkin : Cmd Unit} {s : Ctx}
    (hc : c.ov = .default → Keeps (Emits c.Silent) checkin)
    (he : ∀ sc, c.scope = some sc → Keeps (Emits c.Silent) (ensure sc)) :
    wp (requestRawWith cfg ensure checkin c.method c.path c.body c.scope c.ov)
      (fun es r s' => c.Ends es r s') s := by
  have hn : Neutral (Emits c.Silent) := silent_neutral
  unfold requestRawWith
  split
  · exact wp_ends_silent (hn.ctxFail ..)
  · exact wp_ends_bind (silent_acquireBearer he) fun _ _ => wp_ends_exchange hc he

theorem silent_ensureToken (sc : Bytes) (hs : c.scope = some sc) :
    Keeps (Emits c.Silent) (ensureToken cfg sc) :=
  (Plain.ensureToken sc).emits fun _ he => silent_of_plain (by simp [hs]) he

end Call

/-- A dispatch of a request that is lost, or that fails in whatever way the transport
gives no verdict on, is the last thing the request does. -/
theorem lost_dispatch_ends (cfg : Config) (c : Call) (s : Ctx) :
    wp (requestRaw cfg c.method c.path c.body c.scope c.ov) (fun es r s' => c.Ends es r s') s :=
  Call.wp_ends_request Call.silent_recovery Call.silent_ensureToken

/-- Whatever the context and the transport do, a request is dispatched at most
three times, at most twice without a scope; it is sent again only after an
expired-certificate verdict or a 401 under its scope; at most one of its
dispatches is answered with another status than 401; and a dispatch that failed
without that verdict is the last. -/
theorem request_never_executed_twice (cfg : Config) (c : Call) (s s' : Ctx) (es : List Event)
    (r : Except Rc Bytes)
    (h : Runs (requestRaw cfg c.method c.path c.body c.scope c.ov) s es r s') :
    (c.answers es).length ≤ 3 ∧ (c.scope = none → (c.answers es).length ≤ 2) ∧
    (∀ before a b after, c.answers es = before ++ a :: b :: after → c.Repeatable a) ∧
    ((c.answers es).filter Answer.settles).length ≤ 1 ∧
    (∀ before why detail after, c.answers es = before ++ .failed why false detail :: after →
      after = []) := by
  have ha : c.Attempts (c.answers es) :=
    Call.wp_request Call.silent_recovery Call.silent_ensureToken es r s' h
  refine ⟨ha.atMost, ha.unscoped, ?_, ha.settled, ?_⟩
  · intro before a b after hd
    by_contra hr
    exact absurd (ha.final hd hr) (by simp)
  · intro before why detail after hd
    exact ha.final hd (by simp [Call.Repeatable])

/-- A key deletion under a cached token. -/
def deletion : Call :=
  ⟨.delete, lit "/api/keymgmt/delete/00", none, some (lit "keymgmt:del"), .default⟩

/-- The certificate turns out expired, the check-in goes through, and the deletion
sent again is answered 401; the login that follows is refused. -/
def deletionAnswers : List Answer :=
  [.expired, .object [], .object [], .object [], .status 401, .status 403]

def deletionCtx : Ctx :=
  { Ctx.initial with auth := some ⟨none, 0, false, none, false,
    [⟨lit "keymgmt:del", lit "t", 9⟩]⟩ }

theorem deletion_executed_once :
    let es := scriptEvents (requestRaw .standard deletion.method deletion.path deletion.body
      deletion.scope deletion.ov) deletionCtx 5 deletionAnswers
    deletion.answers es = [.expired, .status 401] ∧
      ((deletion.answers es).filter Answer.settles).length ≤ 1 :=
  ⟨by decide +kernel, (request_never_executed_twice .standard deletion deletionCtx _ _ _
    (script_runs _ _ 5 deletionAnswers)).2.2.2.1⟩

end EncedoHem
