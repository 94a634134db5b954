import EncedoHem.Context
import EncedoHem.Lib.Layout
import EncedoHem.TransportCurl

namespace EncedoHem
open Text Dialogue

/-- The members of `ehem_options` in the order of the structure. -/
inductive Field where
  | abiSize | connectTimeoutMs | totalTimeoutMs | tlsMode | caFile | transport | noAutoCheckin | checkinUrl
  | noCredentialRetention | requestPaceMs | checkinOnLogin | confirmTimeoutMs | confirmNotice | confirmNoticeArg
  deriving DecidableEq, Repr

/-- The C types of the members. -/
inductive CType where
  | size | long | int | enum | pointer | function
  deriving DecidableEq, Repr

namespace Field

def all : List Field := [abiSize, connectTimeoutMs, totalTimeoutMs, tlsMode, caFile, transport, noAutoCheckin,
  checkinUrl, noCredentialRetention, requestPaceMs, checkinOnLogin, confirmTimeoutMs, confirmNotice, confirmNoticeArg]

def ctype : Field → CType
  | abiSize => .size
  | connectTimeoutMs | totalTimeoutMs | requestPaceMs | confirmTimeoutMs => .long
  | noAutoCheckin | noCredentialRetention | checkinOnLogin => .int
  | tlsMode => .enum
  | caFile | transport | checkinUrl | confirmNoticeArg => .pointer
  | confirmNotice => .function

end Field

/-- An address that is not looked behind. -/
abbrev Address := Nat

/-- What a member holds; `none` is the `NULL` of a pointer. -/
@[reducible] def Field.Val : Field → Type
  | .abiSize => Nat
  | .connectTimeoutMs | .totalTimeoutMs | .requestPaceMs | .confirmTimeoutMs => Int
  | .tlsMode | .noAutoCheckin | .noCredentialRetention | .checkinOnLogin => Int
  | .caFile | .checkinUrl => Option Bytes
  | .transport | .confirmNotice | .confirmNoticeArg => Option Address

/-- How a platform lays out the types of the members. -/
structure Abi where
  shape : CType → Layout.Shape
  size_pos : ∀ t, 0 < (shape t).size
  align_pos : ∀ t, 0 < (shape t).align

namespace Abi

def shapeOf (abi : Abi) (f : Field) : Layout.Shape := abi.shape f.ctype

def offsetof (abi : Abi) (f : Field) : Nat := Layout.offset abi.shapeOf f Field.all 0

/-- Where the member ends. -/
def endOf (abi : Abi) (f : Field) : Nat := abi.offsetof f + (abi.shapeOf f).size

/-- The platforms with a `long` of eight bytes. -/
def lp64 : Abi where
  shape
    | .int | .enum => ⟨4, 4⟩
    | .size | .long | .pointer | .function => ⟨8, 8⟩
  size_pos t := by cases t <;> decide
  align_pos t := by cases t <;> decide

end Abi

/-- The options of a caller, who stamped no more bytes than there are. What is behind them is not
the caller's. -/
structure Block (abi : Abi) where
  allocated : Nat
  value : (f : Field) → f.Val
  stamped : value .abiSize ≤ allocated
  stamp : abi.endOf .abiSize ≤ allocated

def tlsSystem : Int := 0
def tlsCaFile : Int := 1
def tlsInsecure : Int := 2

def defaultConnectTimeoutMs : Int := 10000
def defaultTotalTimeoutMs : Int := 30000
def defaultConfirmTimeoutMs : Int := 60000
def defaultCheckinUrl : Bytes := lit "https://api.encedo.com/checkin"

/-- The options that a context keeps. -/
structure Settings where
  connectTimeoutMs : Int
  totalTimeoutMs : Int
  requestPaceMs : Int
  tlsMode : Int
  caFile : Option Bytes
  transport : Option Address
  noAutoCheckin : Bool
  checkinUrl : Bytes
  noCredentialRetention : Bool
  checkinOnLogin : Bool
  confirmTimeoutMs : Int
  confirmNotice : Option Address
  confirmNoticeArg : Option Address
  confirmTimeout_pos : 0 < confirmTimeoutMs

/-- The transport of a context: one of the caller's, or the built-in one. -/
inductive Carrier where
  | borrowed (t : Address)
  | owned (t : CurlState)

/-- A context as `ehem_ctx_create` hands it out. -/
structure Created where
  url : Bytes
  settings : Settings
  carrier : Carrier

/-- What ends the creation of a context early: a code, or a read outside of the caller's block,
which C leaves undefined. -/
inductive Halt where
  | code (rc : Rc)
  | wild
  deriving DecidableEq, Repr

/-- The creation of a context, over the caller's `*out`. -/
abbrev Making := Dialogue.Cmd Op Ans (Option Created) Halt

def refused {α : Type} (rc : Rc) : Making α := Cmd.throw (.code rc)

/-- Memory for one object. -/
def claim : Making Unit := do
  let ok ← Cmd.ask Op.alloc
  if ok then pure () else refused .nomem

def ehemStrdup (s : Bytes) : Making Bytes := do
  claim
  pure s

/-- A file name is copied where there is one. -/
def copyFile : Option Bytes → Making (Option Bytes)
  | none => pure none
  | some file => do
    let file ← ehemStrdup file
    pure (some file)

/-- A scheme and something of a host behind it. -/
def urlIsValid : Option Bytes → Bool
  | none => false
  | some url =>
    if lit "https://" <+: url then url.drop 8 ≠ []
    else if lit "http://" <+: url then url.drop 7 ≠ []
    else false

section
variable {abi : Abi}

/-- A read of a member. -/
def Block.member (opts : Block abi) (f : Field) : Making f.Val :=
  if abi.endOf f ≤ opts.allocated then pure (opts.value f) else Cmd.throw .wild

/-- `EHEM_OPT_HAS`, and the member where it is covered in full. -/
def Block.given (opts : Block abi) (f : Field) : Making (Option f.Val) := do
  let k ← opts.member .abiSize
  if abi.endOf f ≤ k then do
    let v ← opts.member f
    pure (some v)
  else pure none

/-- A duration that is not positive gives the default. -/
def positiveOr (default : Int) : Option Int → Int
  | some v => if 0 < v then v else default
  | none => default

theorem positiveOr_pos {default : Int} (h : 0 < default) (v : Option Int) : 0 < positiveOr default v := by
  cases v with
  | none => exact h
  | some v =>
    by_cases hv : 0 < v
    · rw [positiveOr, if_pos hv]
      exact hv
    · rw [positiveOr, if_neg hv]
      exact h

/-- A flag that is set by anything but zero. -/
def flagged (v : Option Int) : Bool := decide (v.getD 0 ≠ 0)

def Settings.default : Settings where
  connectTimeoutMs := defaultConnectTimeoutMs
  totalTimeoutMs := defaultTotalTimeoutMs
  requestPaceMs := 0
  tlsMode := tlsSystem
  caFile := none
  transport := none
  noAutoCheckin := false
  checkinUrl := defaultCheckinUrl
  noCredentialRetention := false
  checkinOnLogin := false
  confirmTimeoutMs := defaultConfirmTimeoutMs
  confirmNotice := none
  confirmNoticeArg := none
  confirmTimeout_pos := by decide

/-- `apply_options` on a context just allocated. -/
def applyOptions : Option (Block abi) → Making Settings
  | none => do
    let url ← ehemStrdup defaultCheckinUrl
    pure { Settings.default with checkinUrl := url }
  | some opts => do
    let connect ← opts.given .connectTimeoutMs
    let total ← opts.given .totalTimeoutMs
    let pace ← opts.given .requestPaceMs
    let mode ← opts.given .tlsMode
    let ca ← opts.given .caFile
    let caFile ← copyFile ca.join
    let transport ← opts.given .transport
    let noAutoCheckin ← opts.given .noAutoCheckin
    let noRetention ← opts.given .noCredentialRetention
    let confirm ← opts.given .confirmTimeoutMs
    let notice ← opts.given .confirmNotice
    let noticeArg ← opts.given .confirmNoticeArg
    let onLogin ← opts.given .checkinOnLogin
    let url ← opts.given .checkinUrl
    let url ← ehemStrdup (url.join.getD defaultCheckinUrl)
    let mode := mode.getD tlsSystem
    if mode = tlsCaFile ∧ caFile = none then refused .arg
    else pure {
      connectTimeoutMs := positiveOr defaultConnectTimeoutMs connect
      totalTimeoutMs := positiveOr defaultTotalTimeoutMs total
      requestPaceMs := positiveOr 0 pace
      tlsMode := mode
      caFile := caFile
      transport := transport.join
      noAutoCheckin := flagged noAutoCheckin
      checkinUrl := url
      noCredentialRetention := flagged noRetention
      checkinOnLogin := flagged onLogin
      confirmTimeoutMs := positiveOr defaultConfirmTimeoutMs confirm
      confirmNotice := notice.join
      confirmNoticeArg := noticeArg.join
      confirmTimeout_pos := positiveOr_pos (by decide) confirm }

/-- A block must have been stamped by `ehem_options_init`. -/
def checkStamp : Option (Block abi) → Making Unit
  | none => pure ()
  | some opts => do
    let k ← opts.member .abiSize
    if k < (abi.shapeOf .abiSize).size then refused .arg else pure ()

/-- The mode as the built-in transport goes by it. -/
def tlsModeOf (mode : Int) : TlsMode :=
  if mode = tlsCaFile then .caFile else if mode = tlsInsecure then .insecure else .system

/-- `ehem_ctx_create`. What it allocates before a failure it frees again. -/
def ctxCreate (url : Option Bytes) (opts : Option (Block abi)) : Making Unit := do
  Cmd.modify fun _ => none
  if ¬urlIsValid url then refused .arg
  else do
    checkStamp opts
    claim
    let s ← applyOptions opts
    let own ← ehemStrdup (url.getD [])
    match s.transport with
    | some t => Cmd.modify fun _ => some ⟨own, s, .borrowed t⟩
    | none => do
      let init ← Cmd.ask Op.globalInit
      match init with
      | .error rc => refused rc
      | .ok _ => do
        claim
        Cmd.modify fun _ => some ⟨own, s, .owned (transportDefaultNew own (tlsModeOf s.tlsMode) s.caFile)⟩

end

namespace Abi

theorem shapeOf_align_pos (abi : Abi) (f : Field) : 0 < (abi.shapeOf f).align := abi.align_pos f.ctype

/-- A size that covers a field covers the fields before it. -/
theorem endOf_le {abi : Abi} {f g : Field} {pre post : List Field} (hall : Field.all = pre ++ f :: post)
    (hf : f ∉ pre) (hg : g ∉ pre) : abi.endOf f ≤ abi.endOf g := by
  by_cases hne : f = g
  · exact Nat.le_of_eq (congrArg abi.endOf hne)
  · have hle : Layout.offset abi.shapeOf f (pre ++ f :: post) 0 + (abi.shapeOf f).size ≤
        Layout.offset abi.shapeOf g (pre ++ f :: post) 0 :=
      Layout.end_le_offset (shapeOf_align_pos abi) hf hg hne
    rw [← hall] at hle
    exact Nat.le_trans hle (Nat.le_add_right _ _)

/-- `sizeof(ehem_options)`: the last member rounded up to where the next structure could start. -/
def sizeof (abi : Abi) : Nat :=
  Layout.alignUp (abi.endOf .confirmNoticeArg) ((Field.all.map fun f => (abi.shapeOf f).align).foldl max 1)

theorem endOf_abiSize_le_sizeof (abi : Abi) : abi.endOf .abiSize ≤ abi.sizeof := by
  have hlast : abi.endOf .abiSize ≤ abi.endOf .confirmNoticeArg :=
    endOf_le (List.nil_append _).symm List.not_mem_nil List.not_mem_nil
  refine Nat.le_trans hlast (Layout.le_alignUp ?_)
  rw [List.foldl_max]
  exact Nat.le_max_left _ _

end Abi

/-- `ehem_options_init`. -/
def optionsInit (abi : Abi) : Block abi where
  allocated := abi.sizeof
  value
    | .abiSize => abi.sizeof
    | .connectTimeoutMs => defaultConnectTimeoutMs
    | .totalTimeoutMs => defaultTotalTimeoutMs
    | .requestPaceMs | .confirmTimeoutMs => 0
    | .tlsMode => tlsSystem
    | .noAutoCheckin | .noCredentialRetention | .checkinOnLogin => 0
    | .caFile | .checkinUrl => none
    | .transport | .confirmNotice | .confirmNoticeArg => none
  stamped := Nat.le_refl _
  stamp := abi.endOf_abiSize_le_sizeof

/-- A caller's own value for one member. -/
def Block.override {abi : Abi} (b : Block abi) (f : Field) (v : f.Val) (hf : Field.abiSize ≠ f) : Block abi where
  allocated := b.allocated
  value := Function.update b.value f v
  stamped := by
    rw [Function.update_of_ne hf]
    exact b.stamped
  stamp := b.stamp

/-- A context as the calls on it find it. The rounds of the key derivation and the pause between polls
are no options. -/
def Created.config (c : Created) (kdfIters pollIntervalMs : Nat) (h : 0 < pollIntervalMs) : Config where
  hasTransport := true
  connectTimeoutMs := c.settings.connectTimeoutMs
  totalTimeoutMs := c.settings.totalTimeoutMs
  requestPaceMs := c.settings.requestPaceMs
  tlsMode := tlsModeOf c.settings.tlsMode
  checkinUrl := c.settings.checkinUrl
  noAutoCheckin := c.settings.noAutoCheckin
  checkinOnLogin := c.settings.checkinOnLogin
  confirmTimeoutMs := c.settings.confirmTimeoutMs
  confirmNotice := c.settings.confirmNotice.isSome
  noCredentialRetention := c.settings.noCredentialRetention
  kdfIters := kdfIters
  pollIntervalMs := pollIntervalMs
  confirmTimeout_pos := c.settings.confirmTimeout_pos
  pollInterval_pos := h

end EncedoHem
