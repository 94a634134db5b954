import EncedoHem.Proofs.Confirm

namespace EncedoHem
open Text Dialogue

/-- What the client holds at one place stays as it is. -/
def slotKept (i : Nat) : Contract Op Ans Ctx where
  rel s _ s' := ∀ h, s.handles[i]? = some h → s'.handles[i]? = some h
  refl _ _ h := h
  trans h h' c hc := h' c (h c hc)

/-- A call of the interface that is not made on the handle `i`. -/
structure Meanwhile (cfg : Config) (i : Nat) (α : Type) (x : Cmd α) : Prop where
  prim : Prim cfg α x
  off : ¬OnHandle cfg i α x

namespace SlotKept
variable {cfg : Config} {i : Nat} {α : Type}

theorem authOnly : AuthOnly (slotKept i) where
  event _ _ _ h := h
  still _ _ _ hh _ _ h := hh ▸ h

theorem engine (cfg : Config) : Engine cfg (fun _ => True) (slotKept i) :=
  authOnly.engine (fun _ => .modify fun _ _ h => h)
    (fun _ _ _ _ => ⟨fun _ => wp_cachePut (fun _ _ _ h => h) fun _ _ _ h => h⟩)
    (fun _ _ => .modify fun _ _ h => h)
    fun _ _ => ⟨fun _ => wp_needAuth (fun _ _ _ h => h) (fun _ _ _ _ h => h) fun _ _ _ _ _ h => h⟩

theorem setSession (f : Auth → Auth) (m : Mark) : Keeps (slotKept i) (EncedoHem.needAuth >>= fun a =>
    modifyCtx (fun s => s.setAuth (some (f a))) >>= fun _ => mark m) :=
  .bind ((engine .standard).fresh [] trivial) fun _ => .bind (.modify fun _ _ h => h) fun _ =>
    authOnly.mark m

theorem sessional : Sessional cfg (slotKept i) where
  toAuthOnly := authOnly
  toEngine := engine cfg
  login m _ := .bind authOnly.timed.clearError fun _ => .bind authOnly.timed.need fun _ => setSession _ m
  loginMobile := .bind authOnly.timed.clearError fun _ => setSession _ .reset
  logout := .bind authOnly.timed.clearError fun _ => .bind (.modify fun _ _ h => h) fun _ =>
    authOnly.mark _
  invalidate _ := .modify fun _ _ h => h
  invalidateAll := .bind (.modify fun _ _ h => h) fun _ => authOnly.mark _

/-- No other call touches the handle. -/
theorem meanwhile {x : Cmd α} (h : Meanwhile cfg i α x) : Keeps (slotKept i) x := by
  refine sessional.prim h.prim (fun j c hj => .modify fun s d hd => ?_) fun c => .modify fun s d hd => ?_
  · have hne : j ≠ i := fun he => h.off (he ▸ hj)
    show (s.handles.set j c)[i]? = some d
    rw [List.getElem?_set_ne hne]
    exact hd
  · exact List.getElem?_append_left (List.getElem?_eq_some_iff.mp hd).1 ▸ hd

end SlotKept

/-- The client holds the handle at its place. -/
def Ctx.HasHandle (s : Ctx) (i : Nat) (c : Confirm) : Prop := s.handles[i]? = some (some c)

theorem hasHandle_set {s : Ctx} {i : Nat} {c : Confirm} (h : s.HasHandle i c) (c' : Confirm) :
    (s.setHandle i (some c')).HasHandle i c' :=
  List.getElem?_set_self (List.getElem?_eq_some_iff.mp h).1

theorem yields_newHandle (cfg : Config) (url : Option Bytes) (scope : Bytes) (ctxStr note : Option Bytes) :
    Yields (confirmBegin cfg url scope ctxStr note) fun c => ∃ id, c = ⟨url, scope, some id, false⟩ := by
  have hnew : Yields (newConfirm url scope) fun c => c = ⟨url, scope, none, false⟩ := by
    refine .bind fun _ => .bind fun _ => ?_
    cases url with
    | none => exact .pure rfl
    | some u => exact .bind fun _ => .pure rfl
  refine .bind_of hnew fun c hc => .bind fun push => .bind fun outcome => ?_
  split
  · exact .throw _ _
  · rename_i id
    exact .bind fun _ => .pure ⟨id, by rw [hc]⟩

/-- A handle that begins is open and waits for an event of its own. -/
theorem begun_handle {cfg : Config} {url : Option Bytes} {scope : Bytes} {ctxStr note : Option Bytes}
    {s s' : Ctx} {es : List Event} {i : Nat}
    (h : Runs (extConfirmBegin cfg url scope ctxStr note) s es (.ok i) s') :
    ∃ id, s'.HasHandle i ⟨url, scope, some id, false⟩ := by
  have hw : wp (extConfirmBegin cfg url scope ctxStr note) (fun _ r s' => ∀ i, r = .ok i →
      ∃ id, s'.HasHandle i ⟨url, scope, some id, false⟩) s := by
    refine wp_bind_of ((yields_newHandle cfg url scope ctxStr note).run s) ?_ fun _ _ _ _ _ hr => nomatch hr
    intro es c s₁ hc
    obtain ⟨id, rfl⟩ := hc c rfl
    simp only [wp_bind, wp_getCtx, wp_modifyCtx, wp_pure]
    rintro i hi
    obtain rfl := Except.ok.inj hi
    exact ⟨id, List.getElem?_concat_length⟩
  exact hw es (.ok i) s' h i rfl

theorem wp_takeHandle {s : Ctx} {i : Nat} {c : Confirm} (h : s.HasHandle i c)
    {Q : List Event → Except Rc Confirm → Ctx → Prop} (hq : Q [] (.ok c) s) : wp (takeHandle i) Q s := by
  unfold takeHandle
  rw [wp_bind, wp_getCtx]
  dsimp only
  rw [h, Option.join_some]
  exact wp_pure.mpr hq

theorem wp_liftRc {α : Type} {r : Except Rc α} {Q : List Event → Except Rc α → Ctx → Prop} {s : Ctx} :
    wp (liftRc r) Q s ↔ Q [] r s := by
  cases r with
  | ok a => exact wp_pure
  | error rc => exact wp_throwRc

theorem Turn.setHandle {url : Option Bytes} {id scope : Bytes} {es : List Event} {k : Stage} {s : Ctx}
    (h : Turn url id scope es k s) (i : Nat) (c : Option Confirm) :
    Turn url id scope es k (s.setHandle i c) := ⟨h.redeemed, h.spoiled, h.denial, h.approved⟩

/-- A call on a handle: what it does with the handle it finds, and the handle it puts back. -/
theorem wp_onHandle {β : Type} {f : Confirm → Cmd (Except Rc β × Confirm)} {i : Nat} {c : Confirm} {s : Ctx}
    (h : s.HasHandle i c) {P : List Event → Except Rc β → Confirm → Ctx → Prop}
    (hf : wp (f c) (fun es r s₁ => ∃ v c', r = .ok (v, c') ∧ P es v c' s₁ ∧ s₁.HasHandle i c) s) :
    wp (do
      let c ← takeHandle i
      let (r, c) ← f c
      modifyCtx (·.setHandle i (some c))
      liftRc r) (fun es v s' => ∃ c' s₁, P es v c' s₁ ∧ s' = s₁.setHandle i (some c') ∧ s'.HasHandle i c') s := by
  rw [wp_bind]
  refine wp_takeHandle h (wp_bind_of hf ?_ ?_)
  · rintro es ⟨v, c₁⟩ s₁ ⟨v', c', hr, hp, hh⟩
    obtain ⟨rfl, rfl⟩ := Prod.mk.inj (Except.ok.inj hr)
    dsimp only
    rw [wp_bind, wp_modifyCtx]
    refine wp_liftRc.mpr ⟨c₁, s₁, ?_, rfl, hasHandle_set hh _⟩
    rw [List.append_nil, List.append_nil]
    exact hp
  · rintro es rc s₁ ⟨_, _, hr, _⟩
    exact nomatch hr

section
variable (cfg : Config) {url : Option Bytes} {scope id : Bytes} {i : Nat} {s : Ctx}

theorem wp_pollOpen (h : s.HasHandle i ⟨url, scope, some id, false⟩) :
    wp (extConfirmPoll cfg i) (fun es r s' => ∃ k, PollSays k r ∧ Turn url id scope es k s' ∧
      s'.HasHandle i ⟨url, scope, some id, k.final⟩) s := by
  have hslot : Keeps (slotKept i) (confirmPoll cfg ⟨url, scope, some id, false⟩) :=
    (SlotKept.engine cfg).confirmPoll trivial
  have hpoll : wp (confirmPoll cfg ⟨url, scope, some id, false⟩) (fun es r s₁ => ∃ v c', r = .ok (v, c') ∧
      (∃ k, PollSays k v ∧ Turn url id scope es k s₁ ∧ c' = ⟨url, scope, some id, k.final⟩) ∧
      s₁.HasHandle i ⟨url, scope, some id, false⟩) s := by
    refine wp_mono (wp_and (wp_openPoll cfg url scope id s) (hslot.run s)) ?_
    rintro es r s₁ ⟨⟨k, v, hk, hr, hturn⟩, hkeep⟩
    exact ⟨v, _, hr, ⟨k, hk, hturn, rfl⟩, hkeep _ h⟩
  refine wp_mono (wp_onHandle (f := confirmPoll cfg) h hpoll) ?_
  rintro es r s' ⟨c', s₁, ⟨k, hk, hturn, rfl⟩, rfl, hh⟩
  exact ⟨k, hk, hturn.setHandle .., hh⟩

theorem wp_waitOpen {timeoutMs : Int} (ht : 0 < timeoutMs) (h : s.HasHandle i ⟨url, scope, some id, false⟩) :
    wp (extConfirmWait cfg i timeoutMs) (fun es r s' => ∃ k, WaitSays k r ∧ Turn url id scope es k s' ∧
      s'.HasHandle i ⟨url, scope, some id, k.final⟩) s := by
  have hslot : Keeps (slotKept i) (confirmWait cfg ⟨url, scope, some id, false⟩ timeoutMs) :=
    (SlotKept.engine cfg).confirmWait trivial timeoutMs
  have hloop : wp (confirmWait cfg ⟨url, scope, some id, false⟩ timeoutMs) (fun es r s₁ => ∃ v c',
      r = .ok (v, c') ∧
      (∃ k, WaitSays k v ∧ Turn url id scope es k s₁ ∧ c' = ⟨url, scope, some id, k.final⟩) ∧
      s₁.HasHandle i ⟨url, scope, some id, false⟩) s := by
    have hrun : wp (confirmWait cfg ⟨url, scope, some id, false⟩ timeoutMs) (fun es r s' => ∃ k v,
        WaitSays k v ∧ r = .ok (v, ⟨url, scope, some id, k.final⟩) ∧ Turn url id scope es k s') s := by
      unfold confirmWait
      rw [if_neg (by omega)]
      exact wp_openWaitLoop cfg url scope id _ _ s
    refine wp_mono (wp_and hrun (hslot.run s)) ?_
    rintro es r s₁ ⟨⟨k, v, hk, hr, hturn⟩, hkeep⟩
    exact ⟨v, _, hr, ⟨k, hk, hturn, rfl⟩, hkeep _ h⟩
  refine wp_mono (wp_onHandle (f := fun c => confirmWait cfg c timeoutMs) h hloop) ?_
  rintro es r s' ⟨c', s₁, ⟨k, hk, hturn, rfl⟩, rfl, hh⟩
  exact ⟨k, hk, hturn.setHandle .., hh⟩

/-- A handle that is finished refuses a poll, and everything stays as it is. -/
theorem wp_finishedPoll {c : Confirm} (hc : c.terminal = true) (h : s.HasHandle i c) :
    wp (confirmPoll cfg c) (fun es r s₁ => ∃ v c', r = .ok (v, c') ∧
      (es = [] ∧ v = .error .arg ∧ c' = c) ∧ s₁.HasHandle i c) s := by
  unfold confirmPoll
  rw [if_pos hc]
  simp only [wp_bind, wp_attempt, wp_ctxFail, wp_pure, recordEvents]
  exact fun _ => ⟨_, c, rfl, ⟨rfl, rfl, rfl⟩, h⟩

theorem wp_pollFinished {c : Confirm} (hc : c.terminal = true) (h : s.HasHandle i c) :
    wp (extConfirmPoll cfg i) (fun es r s' => es = [] ∧ r = .error .arg ∧ s'.HasHandle i c) s := by
  refine wp_mono (wp_onHandle (f := confirmPoll cfg) h (wp_finishedPoll cfg hc h)) ?_
  rintro es r s' ⟨c', s₁, ⟨rfl, rfl, rfl⟩, rfl, hh⟩
  exact ⟨rfl, rfl, hh⟩

/-- So does a wait, and a wait without time is refused in any case. -/
theorem wp_waitRefused {c : Confirm} {timeoutMs : Int} (hc : c.terminal = true ∨ timeoutMs ≤ 0)
    (h : s.HasHandle i c) : wp (extConfirmWait cfg i timeoutMs)
      (fun es r s' => es = [] ∧ r = .error .arg ∧ s'.HasHandle i c) s := by
  have hloop : wp (confirmWait cfg c timeoutMs) (fun es r s₁ => ∃ v c', r = .ok (v, c') ∧
      (es = [] ∧ v = .error .arg ∧ c' = c) ∧ s₁.HasHandle i c) s := by
    unfold confirmWait
    by_cases ht : timeoutMs ≤ 0
    · rw [if_pos ht]
      exact wp_pure.mpr ⟨_, c, rfl, ⟨rfl, rfl, rfl⟩, h⟩
    · rw [if_neg ht]
      unfold confirmWaitLoop
      refine wp_bind_of (wp_finishedPoll cfg (hc.resolve_right ht) h) ?_ ?_
      · rintro es ⟨v, c'⟩ s₁ ⟨_, _, hr, ⟨rfl, rfl, rfl⟩, hh⟩
        obtain ⟨rfl, rfl⟩ := Prod.mk.inj (Except.ok.inj hr)
        exact wp_pure.mpr ⟨_, c', rfl, ⟨rfl, rfl, rfl⟩, hh⟩
      · rintro es rc s₁ ⟨_, _, hr, _⟩
        cases hr
  refine wp_mono (wp_onHandle (f := fun c => confirmWait cfg c timeoutMs) h hloop) ?_
  rintro es r s' ⟨c', s₁, ⟨rfl, rfl, rfl⟩, rfl, hh⟩
  exact ⟨rfl, rfl, hh⟩

end

/-- One entry in the history of a handle: a call on it, or what is done meanwhile. -/
inductive Use where
  | polled (es : List Event) (r : Except Rc ConfirmStatus)
  | waited (timeoutMs : Int) (es : List Event) (r : Except Rc Unit)
  | other (es : List Event)

/-- One entry is added to a handle's history: a poll, a wait with any timeout, or any calls
that are not made on the handle. -/
inductive Step (cfg : Config) (i : Nat) : Ctx → Use → Ctx → Prop where
  | poll {s s' : Ctx} {es : List Event} {r : Except Rc ConfirmStatus}
      (h : Runs (extConfirmPoll cfg i) s es r s') : Step cfg i s (.polled es r) s'
  | wait (timeoutMs : Int) {s s' : Ctx} {es : List Event} {r : Except Rc Unit}
      (h : Runs (extConfirmWait cfg i timeoutMs) s es r s') : Step cfg i s (.waited timeoutMs es r) s'
  | other {α : Type} (x : Program (Meanwhile cfg i) α) {s s' : Ctx} {es : List Event} {r : Except Rc α}
      (h : Runs x.cmd s es r s') : Step cfg i s (.other es) s'

/-- A history of a handle, from one state to another. -/
inductive Used (cfg : Config) (i : Nat) : Ctx → List Use → Ctx → Prop where
  | nil (s : Ctx) : Used cfg i s [] s
  | snoc {s s₁ s₂ : Ctx} {us : List Use} {u : Use} (h : Used cfg i s us s₁) (hu : Step cfg i s₁ u s₂) :
      Used cfg i s (us ++ [u]) s₂

namespace Use

/-- What the handle's own call exchanged. -/
def events : Use → List Event
  | .polled es _ => es
  | .waited _ es _ => es
  | .other _ => []

def approves : Use → Bool
  | .polled _ r => r = .ok .approved
  | .waited _ _ r => r = .ok ()
  | .other _ => false

def rejects : Use → Bool
  | .polled _ r => r = .error .userRejected
  | .waited _ _ r => r = .error .userRejected
  | .other _ => false

def decisive (u : Use) : Bool := u.approves || u.rejects

/-- The denial was reported, or the broker told it where there was memory to read it. -/
def Denied (url : Option Bytes) (id : Bytes) (u : Use) : Prop :=
  u.rejects = true ∨ ((∃ e ∈ u.events, Denial url id e) ∧ Granted u.events)

/-- A poll, or a wait with time, is turned down and nothing is dispatched. -/
def Refused : Use → Prop
  | .polled es r => r = .error .arg ∧ ∀ e ∈ es, isSend e = false
  | .waited timeoutMs es r => 0 < timeoutMs → r = .error .arg ∧ ∀ e ∈ es, isSend e = false
  | .other _ => True

/-- Time ran out, or the call ended without a decision and without redeeming anything. -/
def Undecided (u : Use) : Prop :=
  (∃ t es, u = .waited t es (.error .confirmTimeout)) ∨
    (u.decisive = false ∧ ∀ e ∈ u.events, e.redeems = false)

end Use

/-- What an entry does to a handle that is finished or not, before and after. -/
structure Stepped (url : Option Bytes) (id scope : Bytes) (t : Bool) (u : Use) (t' : Bool) (s' : Ctx) :
    Prop where
  redeemed : ∀ pre e post, u.events = pre ++ e :: post → e.redeems = true → ∃ a ∈ pre, Approval url id a
  denied : u.Denied url id → t' = true ∧ ∀ e ∈ u.events, e.redeems = false
  decisive : u.decisive = true → t' = true
  finished : t = true → t' = true ∧ u.Refused ∧ u.decisive = false ∧ u.events = []
  approved : u.approves = true → ∃ token, (∃ e ∈ u.events, e.minted = some token) ∧ s'.Holds scope token
  undecided : t = false → u.Undecided → t' = false

/-- A call that is turned down changes nothing. -/
theorem Stepped.refused {url : Option Bytes} {id scope : Bytes} {t : Bool} {u : Use} {s' : Ctx}
    (he : u.events = []) (ha : u.approves = false) (hr : u.rejects = false) (hu : t = true → u.Refused) :
    Stepped url id scope t u t s' where
  redeemed pre e post h := by
    rw [he] at h
    exact absurd (congrArg List.length h) (by simp)
  denied hd := by
    rcases hd with hd | ⟨⟨e, hm, -⟩, -⟩
    · exact nomatch hr.symm.trans hd
    · rw [he] at hm
      exact nomatch hm
  decisive hd := by
    unfold Use.decisive at hd
    rw [ha, hr] at hd
    exact nomatch hd
  finished ht := ⟨ht, hu ht, by unfold Use.decisive; rw [ha, hr]; rfl, he⟩
  approved h := nomatch ha.symm.trans h
  undecided ht _ := ht

/-- A call on an open handle. -/
theorem Stepped.turn {url : Option Bytes} {id scope : Bytes} {u : Use} {k : Stage} {s' : Ctx}
    (h : Turn url id scope u.events k s') (ha : u.approves = true ↔ k = .approved)
    (hr : u.rejects = true ↔ k = .rejected)
    (ht : (∃ t es, u = .waited t es (.error .confirmTimeout)) → k = .pending) :
    Stepped url id scope false u k.final s' where
  redeemed pre e post he hq := (h.redeemed pre e post he hq).2
  denied hd := by
    have hk : k = .rejected := by
      rcases hd with hd | ⟨⟨e, hm, hd⟩, hg⟩
      · exact hr.mp hd
      · rcases h.denial e hm hd with hk | ⟨-, hn⟩
        · exact hk
        · exact absurd hg hn
    subst hk
    refine ⟨rfl, fun e he => ?_⟩
    cases hq : e.redeems with
    | false => rfl
    | true =>
      obtain ⟨pre, post, hsplit⟩ := List.append_of_mem he
      rcases (h.redeemed pre e post hsplit hq).1 with hk | hk
      · exact nomatch hk
      · exact nomatch hk
  decisive hd := by
    unfold Use.decisive at hd
    rcases Bool.or_eq_true_iff.mp hd with hd | hd
    · rw [ha.mp hd]
      rfl
    · rw [hr.mp hd]
      rfl
  finished hf := nomatch hf
  approved h' := h.approved (ha.mp h')
  undecided _ hu := by
    rcases hu with hu | ⟨hn, hq⟩
    · rw [ht hu]
      rfl
    · obtain ⟨hna, hnr⟩ := Bool.or_eq_false_iff.mp hn
      cases k with
      | pending => rfl
      | failed => rfl
      | rejected => exact nomatch hnr.symm.trans (hr.mpr rfl)
      | approved => exact nomatch hna.symm.trans (ha.mpr rfl)
      | spoiled =>
        obtain ⟨e, he, hr⟩ := h.spoiled rfl
        exact nomatch (hq e he).symm.trans hr

theorem PollSays.iff {k : Stage} {r : Except Rc ConfirmStatus} (h : PollSays k r) :
    (r = .ok .approved ↔ k = .approved) ∧ (r = .error .userRejected ↔ k = .rejected) := by
  cases h with
  | pending => simp
  | failed rc h => simp [h.notRejected]
  | rejected => simp
  | approved => simp
  | spoiled rc h => simp [h.notRejected]

theorem WaitSays.iff {k : Stage} {r : Except Rc Unit} (h : WaitSays k r) :
    (r = .ok () ↔ k = .approved) ∧ (r = .error .userRejected ↔ k = .rejected) ∧
      (r = .error .confirmTimeout ↔ k = .pending) := by
  cases h with
  | pending => simp
  | failed rc h => simp [h.notRejected, h.notTimeout]
  | rejected => simp
  | approved => simp
  | spoiled rc h => simp [h.notRejected, h.notTimeout]

/-- What one entry of the history does: it finds the handle open or finished. -/
theorem Step.stepped {cfg : Config} {i : Nat} {url : Option Bytes} {scope id : Bytes} {t : Bool} {s s' : Ctx}
    {u : Use} (hu : Step cfg i s u s') (h : s.HasHandle i ⟨url, scope, some id, t⟩) :
    ∃ t', s'.HasHandle i ⟨url, scope, some id, t'⟩ ∧ Stepped url id scope t u t' s' := by
  cases hu with
  | poll hrun =>
    cases t with
    | true =>
      obtain ⟨rfl, rfl, hh⟩ := wp_pollFinished cfg rfl h _ _ _ hrun
      exact ⟨true, hh, .refused rfl rfl rfl fun _ => ⟨rfl, fun _ he => nomatch he⟩⟩
    | false =>
      obtain ⟨k, hk, hturn, hh⟩ := wp_pollOpen cfg h _ _ _ hrun
      refine ⟨k.final, hh, .turn hturn ?_ ?_ fun ⟨_, _, he⟩ => nomatch he⟩
      · exact decide_eq_true_iff.trans hk.iff.1
      · exact decide_eq_true_iff.trans hk.iff.2
  | wait timeoutMs hrun =>
    by_cases hr : t = true ∨ timeoutMs ≤ 0
    · obtain ⟨rfl, rfl, hh⟩ := wp_waitRefused cfg hr h _ _ _ hrun
      exact ⟨t, hh, .refused rfl rfl rfl fun _ _ => ⟨rfl, fun _ he => nomatch he⟩⟩
    · have ht : t = false := by simpa using fun h => hr (.inl h)
      subst ht
      obtain ⟨k, hk, hturn, hh⟩ := wp_waitOpen cfg (by omega) h _ _ _ hrun
      refine ⟨k.final, hh, .turn hturn ?_ ?_ ?_⟩
      · exact decide_eq_true_iff.trans hk.iff.1
      · exact decide_eq_true_iff.trans hk.iff.2.1
      · rintro ⟨_, _, he⟩
        obtain ⟨-, -, rfl⟩ := Use.waited.inj he
        exact hk.iff.2.2.mp rfl
  | other x hrun =>
    have hkeep := (x.keeps fun _ _ hx => SlotKept.meanwhile hx).run _ _ _ _ hrun
    exact ⟨t, hkeep _ h, .refused rfl rfl rfl fun _ => trivial⟩

/-- What holds of a whole history of a handle. -/
structure Story (url : Option Bytes) (id : Bytes) (us : List Use) (t : Bool) : Prop where
  redeemed : ∀ u ∈ us, ∀ pre e post, u.events = pre ++ e :: post → e.redeems = true →
    ∃ a ∈ pre, Approval url id a
  denied : ∀ before u after, us = before ++ u :: after → u.Denied url id →
    ∀ v ∈ u :: after, ∀ e ∈ v.events, e.redeems = false
  refused : ∀ before u after, us = before ++ u :: after → u.decisive = true → ∀ v ∈ after, v.Refused
  once : us.countP Use.decisive ≤ 1
  closed : ∀ u ∈ us, u.decisive = true ∨ u.Denied url id → t = true

theorem Story.nil (url : Option Bytes) (id : Bytes) (t : Bool) : Story url id [] t where
  redeemed _ hu := nomatch hu
  denied before u after he := absurd (congrArg List.length he) (by simp)
  refused before u after he := absurd (congrArg List.length he) (by simp)
  once := Nat.zero_le _
  closed _ hu := nomatch hu

/-- An entry of a history that grew is an old one or the new one. -/
theorem grown {α : Type} {xs before after : List α} {x y : α} (h : xs ++ [x] = before ++ y :: after) :
    (∃ mid, xs = before ++ y :: mid ∧ after = mid ++ [x]) ∨ (xs = before ∧ x = y ∧ after = []) := by
  rcases split_append h with ⟨mid, rfl, rfl⟩ | ⟨mid, rfl, hm⟩
  · exact .inl ⟨mid, rfl, rfl⟩
  · cases mid with
    | nil =>
      obtain ⟨rfl, rfl⟩ := List.cons.inj hm
      exact .inr ⟨by simp, rfl, rfl⟩
    | cons z mid => exact absurd (congrArg List.length hm) (by simp)

theorem Story.snoc {url : Option Bytes} {id scope : Bytes} {us : List Use} {u : Use} {t t' : Bool} {s' : Ctx}
    (h : Story url id us t) (hs : Stepped url id scope t u t' s') : Story url id (us ++ [u]) t' where
  redeemed v hv := by
    rcases List.mem_append.mp hv with hv | hv
    · exact h.redeemed v hv
    · rw [List.mem_singleton.mp hv]
      exact hs.redeemed
  denied before v after he hd w hw := by
    rcases grown he with ⟨mid, rfl, rfl⟩ | ⟨rfl, rfl, rfl⟩
    · have ht := h.closed v (by simp) (.inr hd)
      rw [← List.cons_append] at hw
      rcases List.mem_append.mp hw with hw | hw
      · exact h.denied before v mid rfl hd w hw
      · rw [List.mem_singleton.mp hw, (hs.finished ht).2.2.2]
        exact fun _ he => nomatch he
    · rw [List.mem_singleton.mp hw]
      exact (hs.denied hd).2
  refused before v after he hd w hw := by
    rcases grown he with ⟨mid, rfl, rfl⟩ | ⟨rfl, rfl, rfl⟩
    · have ht := h.closed v (by simp) (.inl hd)
      rcases List.mem_append.mp hw with hw | hw
      · exact h.refused before v mid rfl hd w hw
      · rw [List.mem_singleton.mp hw]
        exact (hs.finished ht).2.1
    · exact nomatch hw
  once := by
    rw [List.countP_append]
    cases hd : u.decisive with
    | false =>
      rw [List.countP_singleton, hd]
      exact h.once
    | true =>
      have hnone : us.countP Use.decisive = 0 := by
        refine List.countP_eq_zero.mpr fun v hv hdv => ?_
        have ht := h.closed v hv (.inl hdv)
        exact nomatch hd.symm.trans (hs.finished ht).2.2.1
      rw [hnone, List.countP_singleton, hd]
      exact Nat.le_refl 1
  closed v hv hd := by
    rcases List.mem_append.mp hv with hv | hv
    · exact (hs.finished (h.closed v hv hd)).1
    · rw [List.mem_singleton.mp hv] at hd
      rcases hd with hd | hd
      · exact hs.decisive hd
      · exact (hs.denied hd).1

theorem Used.story {cfg : Config} {i : Nat} {url : Option Bytes} {scope id : Bytes} {s₁ s : Ctx} {us : List Use}
    (hu : Used cfg i s₁ us s) (h : s₁.HasHandle i ⟨url, scope, some id, false⟩) :
    ∃ t, s.HasHandle i ⟨url, scope, some id, t⟩ ∧ Story url id us t := by
  induction hu with
  | nil => exact ⟨false, h, .nil ..⟩
  | snoc hu hstep ih =>
    obtain ⟨t, hh, hstory⟩ := ih
    obtain ⟨t', hh', hs⟩ := hstep.stepped hh
    exact ⟨t', hh', hstory.snoc hs⟩

/-- The client can still poll the handle. -/
def Ctx.Pollable (s : Ctx) (i : Nat) : Prop := ∃ c, s.HasHandle i c ∧ c.terminal = false

/-- The confirm handle protocol, over every history of a handle that `ehem_ext_confirm_begin`
gave out, `id` being its event: nothing is redeemed before the broker told an approval of the handle's own event;
nothing is after a denial; at most one call is decisive, and what comes after it is refused;
an approval leaves the minted bearer under the scope; what is undecided leaves the handle open. -/
theorem confirm_handle_protocol (cfg : Config) (url : Option Bytes) (scope : Bytes)
    (ctxStr note : Option Bytes) (s₀ s₁ : Ctx) (es₀ : List Event) (i : Nat)
    (hb : Runs (extConfirmBegin cfg url scope ctxStr note) s₀ es₀ (.ok i) s₁) :
    ∃ id, s₁.HasHandle i ⟨url, scope, some id, false⟩ ∧ ∀ us s, Used cfg i s₁ us s →
      (∀ u ∈ us, ∀ pre e post, u.events = pre ++ e :: post → e.redeems = true →
        ∃ a ∈ pre, Approval url id a) ∧
      (∀ before u after, us = before ++ u :: after → u.Denied url id →
        ∀ v ∈ u :: after, ∀ e ∈ v.events, e.redeems = false) ∧
      us.countP Use.decisive ≤ 1 ∧
      (∀ before u after, us = before ++ u :: after → u.decisive = true → ∀ v ∈ after, v.Refused) ∧
      ∀ u s', Step cfg i s u s' →
        (u.approves = true → ∃ token, (∃ e ∈ u.events, e.minted = some token) ∧ s'.Holds scope token) ∧
        (s.Pollable i → u.Undecided → s'.Pollable i) := by
  obtain ⟨id, h⟩ := begun_handle hb
  refine ⟨id, h, fun us s hu => ?_⟩
  obtain ⟨t, hh, hstory⟩ := hu.story h
  refine ⟨hstory.redeemed, hstory.denied, hstory.once, hstory.refused, fun u s' hstep => ?_⟩
  obtain ⟨t', hh', hs⟩ := hstep.stepped hh
  refine ⟨hs.approved, fun ⟨c, hc, ho⟩ hun => ⟨_, hh', hs.undecided ?_ hun⟩⟩
  have hsame : some (some c) = some (some ⟨url, scope, some id, t⟩) := hc.symm.trans hh
  rw [Option.some.inj (Option.some.inj hsame)] at ho
  exact ho

/-- A push that the broker takes. -/
def pushAnswers : List Answer :=
  [.object [("epk", .str (lit "AAAAAAAAAAAAAAAAAAAAAAAAAAAAAAAAAAAAAAAAAAA="))],
    .object [("authreq", .str (lit "q")), ("epk", .str (lit "k"))],
    .object [("eventid", .str (lit "e"))]]

def pushCtx : Ctx :=
  scriptState (extConfirmBegin .standard none (lit "s") none none) Ctx.initial 5 pushAnswers

/-- The context after a poll that was answered with a denial. -/
def deniedCtx : Ctx :=
  scriptState (extConfirmPoll .standard 0) pushCtx 5 [.object [("deny", .bool true)]]

theorem denied_handle_refuses : scriptResult (extConfirmPoll .standard 0) deniedCtx 5 [] = .error .arg ∧
    ∀ e ∈ scriptEvents (extConfirmPoll .standard 0) deniedCtx 5 [], isSend e = false := by
  have hbegin := script_runs (extConfirmBegin .standard none (lit "s") none none) Ctx.initial 5 pushAnswers
  have hok : scriptResult (extConfirmBegin .standard none (lit "s") none none) Ctx.initial 5 pushAnswers =
    .ok 0 := by decide +kernel
  rw [hok] at hbegin
  have hpoll := script_runs (extConfirmPoll .standard 0) pushCtx 5 [.object [("deny", .bool true)]]
  have hdenied : scriptResult (extConfirmPoll .standard 0) pushCtx 5 [.object [("deny", .bool true)]] =
    .error .userRejected := by decide +kernel
  rw [hdenied] at hpoll
  have hrun := script_runs (extConfirmPoll .standard 0) deniedCtx 5 []
  obtain ⟨id, -, hall⟩ := confirm_handle_protocol .standard none (lit "s") none none _ _ _ 0 hbegin
  have hused : Used .standard 0 pushCtx [.polled _ (.error .userRejected), .polled _ _] _ :=
    .snoc (.snoc (.nil _) (.poll hpoll)) (.poll hrun)
  exact (hall _ _ hused).2.2.2.1 [] _ [_] rfl rfl _ List.mem_cons_self

end EncedoHem
