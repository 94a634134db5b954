import EncedoHem.Lib.Text
import Mathlib.Data.List.Nodup

namespace EncedoHem
open Text

/-- The two alphabets, each by the bytes it writes for the values 0 to 63. -/
inductive Alphabet where
  | std | url
  deriving DecidableEq, Repr

def Alphabet.chars : Alphabet → Bytes
  | .std => lit "ABCDEFGHIJKLMNOPQRSTUVWXYZabcdefghijklmnopqrstuvwxyz0123456789+/"
  | .url => lit "ABCDEFGHIJKLMNOPQRSTUVWXYZabcdefghijklmnopqrstuvwxyz0123456789-_"

def Alphabet.char (α : Alphabet) (v : UInt32) : UInt8 := α.chars.getD v.toNat 0

/-- The value a byte stands for in the alphabet, if it is one of its bytes. -/
def Alphabet.rev (α : Alphabet) (c : UInt8) : Option Nat :=
  let i := α.chars.idxOf c
  if i < 64 then some i else none

def b64StdEncodedLen (n : Nat) : Nat := 4 * ((n + 2) / 3)

def b64urlEncodedLen (n : Nat) : Nat :=
  let rem := n % 3
  n / 3 * 4 + if rem = 0 then 0 else rem + 1

/-- The characters written for the input, group by group. -/
def b64Chars (α : Alphabet) (pad : Bool) : Bytes → Bytes
  | a :: b :: c :: rest =>
    let v := a.toUInt32 <<< 16 ||| b.toUInt32 <<< 8 ||| c.toUInt32
    α.char (v >>> 18 &&& 63) :: α.char (v >>> 12 &&& 63) :: α.char (v >>> 6 &&& 63) ::
      α.char (v &&& 63) :: b64Chars α pad rest
  | [a, b] =>
    let v := a.toUInt32 <<< 16 ||| b.toUInt32 <<< 8
    [α.char (v >>> 18 &&& 63), α.char (v >>> 12 &&& 63), α.char (v >>> 6 &&& 63)] ++
      if pad then lit "=" else []
  | [a] =>
    let v := a.toUInt32 <<< 16
    [α.char (v >>> 18 &&& 63), α.char (v >>> 12 &&& 63)] ++ if pad then lit "==" else []
  | [] => []

/-- Encoding into a buffer of `cap` bytes, the closing zero included. -/
def b64Encode (α : Alphabet) (pad : Bool) (x : Bytes) (cap : Nat) : Option Bytes :=
  let need := if pad then b64StdEncodedLen x.length else b64urlEncodedLen x.length
  if cap < need + 1 then none else some (b64Chars α pad x)

/-- The decoder's loop: the accumulator takes six bits a character, is never
masked, and gives up a byte whenever eight bits are there. -/
def b64DecodeLoop (α : Alphabet) (cap : Nat) : Bytes → UInt32 → Nat → Bytes → Option Bytes
  | [], _, _, out => some out
  | c :: rest, acc, bits, out =>
    match α.rev c with
    | none => none
    | some v =>
      let acc := acc <<< 6 ||| UInt32.ofNat v
      let bits := bits + 6
      if 8 ≤ bits then
        if cap ≤ out.length then none
        else b64DecodeLoop α cap rest acc (bits - 8)
          (out ++ [UInt8.ofNat (acc >>> UInt32.ofNat (bits - 8) &&& 0xff).toNat])
      else b64DecodeLoop α cap rest acc bits out

/-- The text without its trailing padding. -/
def dropPad (b : Bytes) : Bytes := (b.reverse.dropWhile (· = 61)).reverse

def b64Decode (α : Alphabet) (b : Bytes) (cap : Nat) : Option Bytes :=
  let b := dropPad b
  if b.length % 4 = 1 then none else b64DecodeLoop α cap b 0 0 []

def b64StdEncode (x : Bytes) (cap : Nat) : Option Bytes := b64Encode .std true x cap
def b64urlEncode (x : Bytes) (cap : Nat) : Option Bytes := b64Encode .url false x cap
def b64StdDecode (b : Bytes) (cap : Nat) : Option Bytes := b64Decode .std b cap
def b64urlDecode (b : Bytes) (cap : Nat) : Option Bytes := b64Decode .url b cap

end EncedoHem
