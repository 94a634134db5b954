import EncedoHem.Options
import EncedoHem.Scripted

namespace EncedoHem
open Text Dialogue

/-- What a context keeps of a member. -/
@[reducible] def Field.Setting : Field → Type
  | .abiSize => Unit
  | .connectTimeoutMs | .totalTimeoutMs | .requestPaceMs | .confirmTimeoutMs | .tlsMode => Int
  | .noAutoCheckin | .noCredentialRetention | .checkinOnLogin => Bool
  | .caFile => Option Bytes
  | .checkinUrl => Bytes
  | .transport | .confirmNotice | .confirmNoticeArg => Option Address

def Settings.value (s : Settings) : (f : Field) → f.Setting
  | .abiSize => ()
  | .connectTimeoutMs => s.connectTimeoutMs
  | .totalTimeoutMs => s.totalTimeoutMs
  | .tlsMode => s.tlsMode
  | .caFile => s.caFile
  | .transport => s.transport
  | .noAutoCheckin => s.noAutoCheckin
  | .checkinUrl => s.checkinUrl
  | .noCredentialRetention => s.noCredentialRetention
  | .requestPaceMs => s.requestPaceMs
  | .checkinOnLogin => s.checkinOnLogin
  | .confirmTimeoutMs => s.confirmTimeoutMs
  | .confirmNotice => s.confirmNotice
  | .confirmNoticeArg => s.confirmNoticeArg

theorem Settings.eq_of_value {s t : Settings} (h : ∀ f, s.value f = t.value f) : s = t := by
  cases s with
  | mk =>
    cases t with
    | mk =>
      congr 1
      · exact h .connectTimeoutMs
      · exact h .totalTimeoutMs
      · exact h .requestPaceMs
      · exact h .tlsMode
      · exact h .caFile
      · exact h .transport
      · exact h .noAutoCheckin
      · exact h .checkinUrl
      · exact h .noCredentialRetention
      · exact h .checkinOnLogin
      · exact h .confirmTimeoutMs
      · exact h .confirmNotice
      · exact h .confirmNoticeArg

namespace Field

/-- The values that ask for the default: zero, a duration that is not positive, `NULL`. -/
def Idle : (f : Field) → f.Val → Prop
  | .abiSize, _ => False
  | .connectTimeoutMs, v | .totalTimeoutMs, v | .requestPaceMs, v | .confirmTimeoutMs, v => v ≤ 0
  | .tlsMode, v | .noAutoCheckin, v | .noCredentialRetention, v | .checkinOnLogin, v => v = 0
  | .caFile, v | .checkinUrl, v => v = none
  | .transport, v | .confirmNotice, v | .confirmNoticeArg, v => v = none

/-- What becomes of a member that may be given. -/
def setting : (f : Field) → Option f.Val → f.Setting
  | .abiSize, _ => ()
  | .connectTimeoutMs, v => positiveOr defaultConnectTimeoutMs v
  | .totalTimeoutMs, v => positiveOr defaultTotalTimeoutMs v
  | .requestPaceMs, v => positiveOr 0 v
  | .confirmTimeoutMs, v => positiveOr defaultConfirmTimeoutMs v
  | .tlsMode, v => v.getD tlsSystem
  | .noAutoCheckin, v | .noCredentialRetention, v | .checkinOnLogin, v => flagged v
  | .caFile, v => v.join
  | .checkinUrl, v => v.join.getD defaultCheckinUrl
  | .transport, v | .confirmNotice, v | .confirmNoticeArg, v => v.join

theorem setting_none (f : Field) : f.setting none = Settings.default.value f := by
  cases f <;> rfl

theorem setting_idle {f : Field} {v : f.Val} (h : f.Idle v) : f.setting (some v) = Settings.default.value f := by
  cases f with
  | abiSize => exact h.elim
  | connectTimeoutMs | totalTimeoutMs | requestPaceMs | confirmTimeoutMs => exact if_neg (Int.not_lt.mpr h)
  | tlsMode => exact h
  | noAutoCheckin | noCredentialRetention | checkinOnLogin =>
    exact decide_eq_false fun hne => hne h
  | caFile | transport | confirmNotice | confirmNoticeArg => exact h
  | checkinUrl => exact congrArg (Option.getD · defaultCheckinUrl) h

end Field

section
variable {abi : Abi}

/-- A member as far as the stamp of its block covers it. -/
def Block.covered (b : Block abi) (f : Field) : Option f.Val :=
  if abi.endOf f ≤ b.value .abiSize then some (b.value f) else none

theorem Block.member_eq {b : Block abi} {f : Field} (h : abi.endOf f ≤ b.allocated) :
    b.member f = pure (b.value f) := if_pos h

/-- Guarded as they are, the reads stay within the block. -/
theorem Block.given_eq (b : Block abi) (f : Field) : b.given f = pure (b.covered f) := by
  rw [Block.given, Block.member_eq b.stamp, Cmd.pure_bind, Block.covered]
  by_cases hcov : abi.endOf f ≤ b.value .abiSize
  · rw [if_pos hcov, if_pos hcov, Block.member_eq (Nat.le_trans hcov b.stamped), Cmd.pure_bind]
  · rw [if_neg hcov, if_neg hcov]

theorem Block.covered_congr {a b : Block abi} (hk : a.value .abiSize = b.value .abiSize)
    (h : ∀ f, abi.endOf f ≤ a.value .abiSize → a.value f = b.value f) : a.covered = b.covered := by
  funext f
  rw [Block.covered, Block.covered, ← hk]
  by_cases hcov : abi.endOf f ≤ a.value .abiSize
  · rw [if_pos hcov, if_pos hcov, h f hcov]
  · rw [if_neg hcov, if_neg hcov]

/-- The creation knows a block by its stamp and by what the stamp covers. -/
theorem ctxCreate_congr {a b : Block abi} (hk : a.value .abiSize = b.value .abiSize)
    (h : ∀ f, abi.endOf f ≤ a.value .abiSize → a.value f = b.value f) (url : Option Bytes) :
    ctxCreate url (some a) = ctxCreate url (some b) := by
  have happly : applyOptions (some a) = applyOptions (some b) := by
    simp only [applyOptions, Block.given_eq, Block.covered_congr hk h]
  have hstamp : checkStamp (some a) = checkStamp (some b) := by
    simp only [checkStamp, Block.member_eq a.stamp, Block.member_eq b.stamp, hk]
  simp only [ctxCreate, happly, hstamp]

/-- CA-file mode without a file to trust. -/
def Block.Unpinned (b : Block abi) : Prop :=
  b.covered .tlsMode = some tlsCaFile ∧ (b.covered .caFile).join = none

def Afforded (es : List Event) : Prop := (⟨Op.alloc, false⟩ : Event) ∉ es

@[simp] theorem afforded_append {es es' : List Event} : Afforded (es ++ es') ↔ Afforded es ∧ Afforded es' := by
  simp only [Afforded, List.mem_append, not_or]

/-- All that a creation from a block can come to. -/
inductive Makes (b : Block abi) : List Event → Except Halt Unit → Option Created → Prop where
  | made {es : List Event} (c : Created) (hall : ∀ f, c.settings.value f = f.setting (b.covered f))
      (hpin : ¬b.Unpinned) : Makes b es (.ok ()) (some c)
  | refused {es : List Event} (rc : Rc)
      (h : b.Unpinned → (rc = .arg ∧ Afforded es) ∨ (rc = .nomem ∧ ¬Afforded es)) :
      Makes b es (.error (.code rc)) none

/-- What the options come to, over whatever is in `*out`. -/
inductive Applies (b : Block abi) : List Event → Except Halt Settings → Prop where
  | chosen {es : List Event} (st : Settings) (hall : ∀ f, st.value f = f.setting (b.covered f))
      (hpin : ¬b.Unpinned) : Applies b es (.ok st)
  | unpinned {es : List Event} (hes : Afforded es) : Applies b es (.error (.code .arg))
  | nomem {es : List Event} (hes : ¬Afforded es) : Applies b es (.error (.code .nomem))

theorem wp_claim {Q : List Event → Except Halt Unit → Option Created → Prop} {s : Option Created} :
    wp claim Q s ↔ Q [⟨.alloc, true⟩] (.ok ()) s ∧ Q [⟨.alloc, false⟩] (.error (.code .nomem)) s := by
  rw [claim, wp_bind, wp_ask]
  constructor
  · intro h
    exact ⟨wp_pure.mp (h true), wp_throw.mp (h false)⟩
  · intro h o
    cases o with
    | true => exact wp_pure.mpr h.left
    | false => exact wp_throw.mpr h.right

theorem wp_strdup {bytes : Bytes} {Q : List Event → Except Halt Bytes → Option Created → Prop} {s : Option Created} :
    wp (ehemStrdup bytes) Q s ↔
      Q [⟨.alloc, true⟩] (.ok bytes) s ∧ Q [⟨.alloc, false⟩] (.error (.code .nomem)) s := by
  rw [ehemStrdup, wp_bind, wp_claim]
  dsimp only
  rw [wp_pure]
  rfl

@[simp] theorem afforded_nil : Afforded [] := List.not_mem_nil

@[simp] theorem afforded_cons {es : List Event} : Afforded (⟨.alloc, true⟩ :: es) ↔ Afforded es := by
  simp [Afforded]

theorem afforded_denied : ¬Afforded [⟨.alloc, false⟩] := by simp [Afforded]

theorem not_afforded {es : List Event} : ¬Afforded (es ++ [⟨.alloc, false⟩]) := by simp [Afforded]

theorem wp_copyFile (file : Option Bytes) (s : Option Created) :
    wp (copyFile file) (fun es r s' => s' = s ∧
      ((r = .ok file ∧ Afforded es) ∨ (r = .error (.code .nomem) ∧ ¬Afforded es))) s := by
  cases file with
  | none => exact wp_pure.mpr ⟨rfl, .inl ⟨rfl, afforded_nil⟩⟩
  | some name =>
    rw [copyFile, wp_bind, wp_strdup]
    exact ⟨wp_pure.mpr ⟨rfl, .inl ⟨rfl, afforded_cons.mpr afforded_nil⟩⟩, rfl, .inr ⟨rfl, afforded_denied⟩⟩

theorem apply_applies (b : Block abi) (s : Option Created) :
    wp (applyOptions (some b)) (fun es r s' => s' = s ∧ Applies b es r) s := by
  simp only [applyOptions, Block.given_eq, Cmd.pure_bind]
  refine wp_bind_of (wp_copyFile (b.covered .caFile).join s) ?_ ?_
  · rintro es file s' ⟨rfl, ⟨hfile, hes⟩ | ⟨herr, -⟩⟩
    · obtain rfl := Except.ok.inj hfile
      rw [wp_bind, wp_strdup]
      refine ⟨?_, rfl, .nomem not_afforded⟩
      dsimp only
      rw [wp_ite]
      by_cases hmode : (b.covered .tlsMode).getD tlsSystem = tlsCaFile ∧ (b.covered .caFile).join = none
      · rw [if_pos hmode]
        exact wp_throw.mpr ⟨rfl, .unpinned (by simpa using hes)⟩
      · rw [if_neg hmode]
        refine wp_pure.mpr ⟨rfl, .chosen _ (fun f => by cases f <;> rfl) ?_⟩
        rintro ⟨ht, hc⟩
        exact hmode ⟨congrArg (Option.getD · tlsSystem) ht, hc⟩
    · cases herr
  · rintro es e s' ⟨rfl, ⟨hok, -⟩ | ⟨herr, hes⟩⟩
    · cases hok
    · obtain rfl := Except.error.inj herr
      exact ⟨rfl, .nomem hes⟩

/-- One step for each part of the creation, in its order. -/
theorem create_makes (url : Option Bytes) (b : Block abi) (s : Option Created) :
    wp (ctxCreate url (some b)) (Makes b) s := by
  rw [ctxCreate, wp_bind, wp_modify]
  dsimp only
  rw [wp_ite]
  by_cases hurl : ¬urlIsValid url
  · rw [if_pos hurl]
    exact wp_throw.mpr (.refused .arg fun _ => .inl ⟨rfl, afforded_nil⟩)
  rw [if_neg hurl, wp_bind, checkStamp, Block.member_eq b.stamp, Cmd.pure_bind, wp_ite]
  by_cases hk : b.value .abiSize < (abi.shapeOf .abiSize).size
  · rw [if_pos hk]
    exact wp_throw.mpr (.refused .arg fun _ => .inl ⟨rfl, afforded_nil⟩)
  rw [if_neg hk, wp_pure]
  dsimp only
  rw [wp_bind, wp_claim]
  refine ⟨?_, .refused .nomem fun _ => .inr ⟨rfl, afforded_denied⟩⟩
  refine wp_bind_of (apply_applies b none) ?_ ?_
  · rintro es st s' ⟨rfl, happ⟩
    cases happ with
    | chosen _ hall hpin =>
      have hother : ∀ es rc, Makes b es (.error (.code rc)) none :=
        fun _ rc => .refused rc fun h => absurd h hpin
      rw [wp_bind, wp_strdup]
      refine ⟨?_, hother _ _⟩
      dsimp only
      cases st.transport with
      | some t => exact wp_modify.mpr (.made _ hall hpin)
      | none =>
        dsimp only
        rw [wp_bind, wp_ask]
        intro init
        cases init with
        | error rc => exact wp_throw.mpr (hother _ rc)
        | ok _ =>
          dsimp only
          rw [wp_bind, wp_claim]
          exact ⟨wp_modify.mpr (.made _ hall hpin), hother _ _⟩
  · rintro es e s' ⟨rfl, happ⟩
    cases happ with
    | unpinned hes => exact .refused .arg fun _ => .inl ⟨rfl, by simpa using hes⟩
    | nomem hes => exact .refused .nomem fun _ => .inr ⟨rfl, by simpa using hes⟩

/-- A size and a layout fix what the creation can see: blocks that agree up to their stamp are one to
it, nothing else is read, and what is not covered or asks for nothing gets the default. -/
theorem creation_covered {a b : Block abi} {k : Nat} (ha : a.value .abiSize = k) (hb : b.value .abiSize = k)
    (hagree : ∀ f, abi.endOf f ≤ k → a.value f = b.value f) (url : Option Bytes) (s : Option Created)
    (es : List Event) (r : Except Halt Unit) (out : Option Created) :
    (Dialogue.Runs (ctxCreate url (some a)) s es r out ↔ Dialogue.Runs (ctxCreate url (some b)) s es r out) ∧
    (Dialogue.Runs (ctxCreate url (some a)) s es r out →
      r ≠ .error .wild ∧ (r = .ok () ↔ out.isSome) ∧
      (∀ c, out = some c → ∀ f, k < abi.endOf f ∨ f.Idle (a.value f) →
        c.settings.value f = Settings.default.value f) ∧
      (abi.endOf .tlsMode ≤ k → a.value .tlsMode = tlsCaFile →
        k < abi.endOf .caFile ∨ a.value .caFile = none →
        out = none ∧ ((r = .error (.code .arg) ∧ Afforded es) ∨ (r = .error (.code .nomem) ∧ ¬Afforded es)))) := by
  subst ha
  constructor
  · rw [ctxCreate_congr hb.symm hagree]
  intro hrun
  have hunpinned : abi.endOf .tlsMode ≤ a.value .abiSize → a.value .tlsMode = tlsCaFile →
      a.value .abiSize < abi.endOf .caFile ∨ a.value .caFile = none → a.Unpinned := by
    intro hcov hmode hfile
    constructor
    · rw [Block.covered, if_pos hcov, hmode]
    · rw [Block.covered]
      rcases hfile with hlt | hnone
      · rw [if_neg (Nat.not_le.mpr hlt)]
        rfl
      · rw [hnone]
        split <;> rfl
  cases create_makes url a s es r out hrun with
  | made c hall hpin =>
    refine ⟨nofun, by simp, ?_, fun hcov hmode hfile => absurd (hunpinned hcov hmode hfile) hpin⟩
    intro c' hc f hf
    obtain rfl := Option.some.inj hc
    rw [hall f, Block.covered]
    by_cases hcov : abi.endOf f ≤ a.value .abiSize
    · rw [if_pos hcov]
      exact Field.setting_idle (hf.resolve_left (Nat.not_lt.mpr hcov))
    · rw [if_neg hcov]
      exact Field.setting_none f
  | refused rc h =>
    refine ⟨?_, by simp, (fun _ hc => nomatch hc), fun hcov hmode hfile => ⟨rfl, ?_⟩⟩
    · simp
    · rcases h (hunpinned hcov hmode hfile) with ⟨rfl, hes⟩ | ⟨rfl, hes⟩
      · exact .inl ⟨rfl, hes⟩
      · exact .inr ⟨rfl, hes⟩

/-- A caller of a smaller structure: the stamp ends before `no_auto_checkin`, and so does the memory. -/
def olderCaller : Block Abi.lp64 where
  allocated := 48
  value := Function.update (optionsInit Abi.lp64).value .abiSize (48 : Nat)
  stamped := Nat.le_refl 48
  stamp := by decide

/-- The same stamp over memory that goes on with something else. -/
def strayTail : Block Abi.lp64 where
  allocated := 112
  value := Function.update (olderCaller.override .checkinUrl (some (lit "http://stray")) nofun).value .noAutoCheckin (1 : Int)
  stamped := by decide
  stamp := by decide

def deviceUrl : Option Bytes := some (lit "https://hem.local")

theorem older_caller_created :
    let p := (ctxCreate deviceUrl (some olderCaller) none).play (scripted 0 []) []
    Dialogue.Runs (ctxCreate deviceUrl (some strayTail)) none p.1 p.2.1 p.2.2 ∧
      p.2.2.map (fun c => (c.settings.noAutoCheckin, c.settings.checkinUrl)) = some (false, defaultCheckinUrl) := by
  have hrun := run_of_play (scripted 0 []) (ctxCreate deviceUrl (some olderCaller) none)
  have hagree : ∀ f, Abi.lp64.endOf f ≤ 48 → olderCaller.value f = strayTail.value f := by
    intro f hf
    cases f <;> first | rfl | exact absurd hf (by decide)
  exact ⟨(creation_covered (k := 48) rfl rfl hagree deviceUrl none _ _ _).left.mp hrun, by decide +kernel⟩

/-- CA-file mode and no file. -/
def fileless : Block Abi.lp64 := (optionsInit Abi.lp64).override .tlsMode tlsCaFile nofun

/-- No memory for anything. -/
def starved : List Event → (i : Op) → Ans i
  | _, .alloc => false
  | h, i => scripted 0 [] h i

/-- Memory that gives out early comes before the verdict on the options. -/
theorem fileless_starved : ¬∀ (b : Block Abi.lp64) (es : List Event) (r : Except Halt Unit) (out : Option Created),
    Abi.lp64.endOf .tlsMode ≤ b.value .abiSize → b.value .tlsMode = tlsCaFile → b.value .caFile = none →
    Dialogue.Runs (ctxCreate deviceUrl (some b)) none es r out → r = .error (.code .arg) ∧ out = none := by
  intro h
  have hrun := run_of_play starved (ctxCreate deviceUrl (some fileless) none)
  obtain ⟨hrc, -⟩ := h fileless _ _ _ (by decide) rfl rfl hrun
  exact absurd hrc (by decide +kernel)

/-- A stamped block that gives each context its defaults is as good as none. -/
theorem ctxCreate_default {b : Block abi} (hk : (abi.shapeOf .abiSize).size ≤ b.value .abiSize)
    (h : ∀ f, f.setting (b.covered f) = Settings.default.value f) (url : Option Bytes) :
    ctxCreate url (some b) = ctxCreate url (none : Option (Block abi)) := by
  have happly : applyOptions (some b) = applyOptions (none : Option (Block abi)) := by
    have hfile : (b.covered .caFile).join = none := h .caFile
    have hurl : (b.covered .checkinUrl).join.getD defaultCheckinUrl = defaultCheckinUrl := h .checkinUrl
    have hmode : ¬(b.covered .tlsMode).getD tlsSystem = tlsCaFile := by
      rw [show (b.covered .tlsMode).getD tlsSystem = tlsSystem from h .tlsMode]
      decide
    simp only [applyOptions, Block.given_eq, Cmd.pure_bind, hfile, hurl, copyFile, hmode, false_and, if_false]
    congr 1
    funext url
    congr 1
    apply Settings.eq_of_value
    intro f
    have hf := h f
    cases f <;> first | rfl | exact hf
  have hstamp : checkStamp (some b) = checkStamp (none : Option (Block abi)) := by
    simp only [checkStamp, Block.member_eq b.stamp, Cmd.pure_bind, if_neg (Nat.not_lt.mpr hk)]
  simp only [ctxCreate, happly, hstamp]

theorem optionsInit_setting (f : Field) :
    f.setting ((optionsInit abi).covered f) = Settings.default.value f := by
  rw [Block.covered]
  split
  · cases f <;> rfl
  · exact Field.setting_none f

/-- `ehem_options_init` prepares what a `NULL` stands for. -/
theorem optionsInit_default (url : Option Bytes) :
    ctxCreate url (some (optionsInit abi)) = ctxCreate url (none : Option (Block abi)) := by
  apply ctxCreate_default
  · exact Nat.le_trans (Nat.le_add_left _ _) abi.endOf_abiSize_le_sizeof
  · exact optionsInit_setting

/-- Without options of its own a context has the standard configuration. -/
theorem default_config {url : Option Bytes} {s : Option Created} {es : List Event} {r : Except Halt Unit} {c : Created}
    (hrun : Dialogue.Runs (ctxCreate url (none : Option (Block abi))) s es r (some c)) :
    c.config 600000 5000 (by decide) = Config.standard := by
  rw [← optionsInit_default] at hrun
  have hset : c.settings = Settings.default := by
    cases create_makes url (optionsInit abi) s es r (some c) hrun with
    | made _ hall _ =>
      apply Settings.eq_of_value
      intro f
      rw [hall f, optionsInit_setting]
  rw [Created.config]
  simp only [hset]
  rfl

end

end EncedoHem
