import EncedoHem.Types

namespace EncedoHem
open Text

def bip39Words : Nat := 24
def bip39EntropySize : Nat := 32
def bip39SeedSize : Nat := 64
def bip39SecretSize : Nat := 32

/-- 24 words of at most 8 letters, 23 single spaces and the closing zero. -/
def bip39MnemonicCap : Nat := bip39Words * 9

/-- 256 bits of entropy and 8 of checksum in whole bytes. -/
def bip39Bytes : Nat := (bip39Words * 11 + 7) / 8

def bip39Salt : Bytes := lit "mnemonic"
def bip39Rounds : Nat := 2048

/-- The word list: sorted, with words of 3 to 8 letters. -/
structure WordList where
  words : List Bytes
  size : words.length = 2048
  lengths : ∀ w ∈ words, 3 ≤ w.length ∧ w.length ≤ 8
  letters : ∀ w ∈ words, ∀ c ∈ w, 97 ≤ c ∧ c ≤ 122
  sorted : words.Pairwise (· < ·)

/-- The digests the derivation takes from the crypto shim. -/
structure CryptoShim where
  sha256 : Bytes → Except Rc Bytes
  kdfPbkdf2Sha512 : (passwd salt : Bytes) → (iters outLen : Nat) → Except Rc Bytes

abbrev Entropy := { e : Bytes // e.length = bip39EntropySize }

/-- The white space of the C locale. -/
def isSpace (c : UInt8) : Bool := c = 32 || (9 ≤ c && c ≤ 13)

/-- At most `n` bytes of two C strings compared. -/
def strncmp : Nat → Bytes → Bytes → Ordering
  | 0, _, _ => .eq
  | n + 1, a, b =>
    let x := a.headD 0
    let y := b.headD 0
    if x < y then .lt else if y < x then .gt
    else if x = 0 then .eq
    else strncmp n a.tail b.tail

/-- How the word at hand compares with one of the list; a proper prefix sorts first. -/
def compareWord (w c : Bytes) : Ordering :=
  match strncmp w.length w c with
  | .eq => if c.getD w.length 0 ≠ 0 then .lt else .eq
  | o => o

/-- Binary search between `lo` and `hi`; every round leaves less to search. -/
def wordIndexLoop (words : List Bytes) (w : Bytes) : Nat → Int → Int → Option Nat
  | 0, _, _ => none
  | rounds + 1, lo, hi =>
    if hi < lo then none
    else
      let mid := lo + (hi - lo) / 2
      match compareWord w (words.getD mid.toNat []) with
      | .eq => some mid.toNat
      | .lt => wordIndexLoop words w rounds lo (mid - 1)
      | .gt => wordIndexLoop words w rounds (mid + 1) hi

/-- The index of the word in the list. -/
def wordIndex (words : List Bytes) (w : Bytes) : Option Nat :=
  wordIndexLoop words w (words.length + 1) 0 (words.length - 1)

/-- `strncmp` over memory, each string with the bytes it was allocated: a read past the
end of an allocation has no outcome. -/
def strncmpMem : Nat → Bytes → Bytes → Option Ordering
  | 0, _, _ => some .eq
  | n + 1, x :: a, y :: b =>
    if x < y then some .lt else if y < x then some .gt
    else if x = 0 then some .eq
    else strncmpMem n a b
  | _ + 1, _, _ => none

/-- How the `len` bytes at `w` compare with a word of the table, which ends in a zero. -/
def compareWordMem (w : Bytes) (len : Nat) (word : Bytes) : Option Ordering := do
  let cmp ← strncmpMem len w word
  if cmp = .eq then
    let next ← word[len]?
    some (if next ≠ 0 then .lt else .eq)
  else some cmp

/-- The table's entry at an index that may lie outside of it. -/
def tableEntry (table : List Bytes) (mid : Int) : Option Bytes :=
  if mid < 0 then none else table[mid.toNat]?

/-- The loop of `word_index` over memory; it has no outcome either when its rounds run out. -/
def wordIndexMemLoop (table : List Bytes) (w : Bytes) (len : Nat) : Nat → Int → Int → Option Int
  | 0, _, _ => none
  | rounds + 1, lo, hi =>
    if hi < lo then some (-1)
    else do
      let mid := lo + (hi - lo) / 2
      let c ← tableEntry table mid
      let cmp ← compareWordMem w len c
      match cmp with
      | .eq => some mid
      | .lt => wordIndexMemLoop table w len rounds lo (mid - 1)
      | .gt => wordIndexMemLoop table w len rounds (mid + 1) hi

/-- `word_index` over memory. -/
def wordIndexMem (table : List Bytes) (w : Bytes) (len : Nat) : Option Int :=
  wordIndexMemLoop table w len (table.length + 1) 0 (table.length - 1)

/-- The `bit`-th bit of the bytes, the most significant of each first. -/
def bitAt (bits : Bytes) (bit : Nat) : Nat :=
  (bits.getD (bit / 8) 0 >>> UInt8.ofNat (7 - bit % 8) &&& 1).toNat

/-- The eleven bits of the `i`-th word. -/
def readIndex (bits : Bytes) (i : Nat) : Nat :=
  (List.range 11).foldl (fun idx b => idx <<< 1 ||| bitAt bits (i * 11 + b)) 0

section
variable (wl : WordList) (shim : CryptoShim)

/-- `ehem_bip39_from_entropy` into a buffer of `cap` bytes. -/
def bip39FromEntropy (entropy : Entropy) (cap : Nat) : Except Rc Bytes :=
  if cap < bip39MnemonicCap then .error .arg
  else do
    let hash ← shim.sha256 entropy.val
    let bits := entropy.val ++ [hash.getD 0 0]
    .ok ((List.range bip39Words).foldl (fun out i =>
      out ++ (if i ≠ 0 then [32] else []) ++ wl.words.getD (readIndex bits i) []) [])

/-- Why a mnemonic is rejected. -/
inductive Reject where
  | tooMany
  | unknown (n : Nat) (word : Bytes)
  | count (n : Nat)
  | checksum
  deriving DecidableEq, Repr

def Reject.text : Reject → Bytes
  | .tooMany => lit "more than 24 words"
  | .unknown n word => lit "word " ++ digits n ++ lit " (\"" ++ word.take 16 ++
      lit "\") is not in the BIP39 English list (lowercase only)"
  | .count n => digits n ++ lit " words, need exactly 24"
  | .checksum => lit "checksum mismatch - a word is wrong or out of order"

/-- What ends the derivation early: an invalid mnemonic, a failure with a code of its
own, or a write outside of a buffer, which C leaves undefined. -/
inductive Stop where
  | invalid (why : Reject)
  | failed (rc : Rc)
  | overrun
  deriving DecidableEq, Repr

/-- Write the next byte of a buffer of `cap` bytes. -/
def push (cap : Nat) (buf : Bytes) (c : UInt8) : Except Stop Bytes :=
  if buf.length < cap then .ok (buf ++ [c]) else .error .overrun

/-- `memcpy` to the buffer's next bytes. -/
def pushAll (cap : Nat) (buf cs : Bytes) : Except Stop Bytes := cs.foldlM (push cap) buf

/-- Set the `bit`-th bit of the bytes. -/
def setBit (bits : Bytes) (bit : Nat) : Except Stop Bytes :=
  if bit / 8 < bits.length then
    .ok (bits.set (bit / 8) (bits.getD (bit / 8) 0 ||| 0x80 >>> UInt8.ofNat (bit % 8)))
  else .error .overrun

/-- Pack the index of the `n`-th word. -/
def packIndex (n idx : Nat) (bits : Bytes) : Except Stop Bytes :=
  (List.range 11).foldlM (fun bits b =>
    if idx >>> (10 - b) &&& 1 ≠ 0 then setBit bits (n * 11 + b) else .ok bits) bits

/-- The words read so far: how many, the canonical text, and their packed indices. -/
structure Scan where
  n : Nat
  canon : Bytes
  bits : Bytes
  deriving DecidableEq, Repr

/-- One word of the input. -/
def scanWord (st : Scan) (word : Bytes) : Except Stop Scan :=
  if st.n = bip39Words then .error (.invalid .tooMany)
  else
    match if 3 ≤ word.length ∧ word.length ≤ 8 then wordIndex wl.words word else none with
    | none => .error (.invalid (.unknown (st.n + 1) word))
    | some idx => do
      let canon ← if st.n ≠ 0 then push bip39MnemonicCap st.canon 32 else .ok st.canon
      let canon ← pushAll bip39MnemonicCap canon word
      let bits ← packIndex st.n idx st.bits
      .ok ⟨st.n + 1, canon, bits⟩

/-- Split on any white space, word by word; every round takes at least one byte. -/
def scanWords : Nat → Bytes → Scan → Except Stop Scan
  | 0, _, st => .ok st
  | rounds + 1, p, st =>
    match p.dropWhile isSpace with
    | [] => .ok st
    | start => do
      let st ← scanWord wl st (start.takeWhile fun c => !isSpace c)
      scanWords rounds (start.dropWhile fun c => !isSpace c) st

/-- A failure of the shim ends the derivation with its code. -/
def liftShim {α : Type} : Except Rc α → Except Stop α
  | .ok a => .ok a
  | .error rc => .error (.failed rc)

/-- The bytes of the seed moved by half a byte. -/
def shiftSeed (seed : Bytes) : Bytes :=
  (List.range bip39SecretSize).map fun i => seed.getD i 0 <<< 4 ||| seed.getD (i + 1) 0 >>> 4

/-- The secret of a mnemonic. -/
def deriveSecret (words : Bytes) : Except Stop Bytes := do
  let st ← scanWords wl (words.length + 1) words ⟨0, [], List.replicate bip39Bytes 0⟩
  let _ ← push bip39MnemonicCap st.canon 0
  if st.n ≠ bip39Words then .error (.invalid (.count st.n))
  else do
    let hash ← liftShim (shim.sha256 (st.bits.take bip39EntropySize))
    if hash.getD 0 0 ≠ st.bits.getD bip39EntropySize 0 then .error (.invalid .checksum)
    else do
      let seed ← liftShim (shim.kdfPbkdf2Sha512 st.canon bip39Salt bip39Rounds bip39SeedSize)
      .ok (shiftSeed seed)

/-- `ehem_bip39_to_master_secret`: its outcome, the caller's secret and the text in
the caller's reason buffer of `reasonCap` bytes. Missing pointers are refused. -/
def bip39ToMasterSecret (words secret : Option Bytes) (reasonCap : Nat) :
    Except Stop Unit × Option Bytes × Bytes :=
  match words, secret with
  | some words, some secret =>
    match deriveSecret wl shim (cstr words) with
    | .ok s => (.ok (), some s, [])
    | .error (.invalid why) => (.error (.invalid why), some secret, why.text.take (reasonCap - 1))
    | .error stop => (.error stop, some secret, [])
  | _, secret => (.error (.failed .arg), secret, [])

end

end EncedoHem
