import EncedoHem.Types

namespace EncedoHem
open Text

inductive KeyFamily where
  | unknown
  | secp256r1 | secp384r1 | secp521r1 | secp256k1
  | ed25519 | ed448 | curve25519 | curve448
  | aes128 | aes192 | aes256
  | hmacSha2_256 | hmacSha2_384 | hmacSha2_512 | hmacSha3_256 | hmacSha3_384 | hmacSha3_512
  | mlkem512 | mlkem768 | mlkem1024 | mldsa44 | mldsa65 | mldsa87
  | cert | derPkey
  deriving DecidableEq, Repr

def keyModeExdsa : Nat := 1 <<< 0
def keyModeEcdh : Nat := 1 <<< 1

def keyRoleAtt : Nat := 1 <<< 0
def keyRolePkey : Nat := 1 <<< 1
def keyRoleCert : Nat := 1 <<< 2
def keyRoleGenericDer : Nat := 1 <<< 3

/-- One family's static facts. -/
structure FamilyInfo where
  token : Bytes
  family : KeyFamily
  pubkeyLen : Nat
  sigMaxLen : Nat
  sigDer : Bool
  deriving DecidableEq, Repr

def keyFamilies : List FamilyInfo := [
  ⟨lit "SECP256R1", .secp256r1, 33, 72, true⟩,
  ⟨lit "SECP384R1", .secp384r1, 49, 104, true⟩,
  ⟨lit "SECP521R1", .secp521r1, 67, 141, true⟩,
  ⟨lit "SECP256K1", .secp256k1, 33, 72, true⟩,
  ⟨lit "ED25519", .ed25519, 32, 64, false⟩,
  ⟨lit "ED448", .ed448, 57, 114, false⟩,
  ⟨lit "CURVE25519", .curve25519, 32, 0, false⟩,
  ⟨lit "CURVE448", .curve448, 56, 0, false⟩,
  ⟨lit "AES128", .aes128, 0, 0, false⟩,
  ⟨lit "AES192", .aes192, 0, 0, false⟩,
  ⟨lit "AES256", .aes256, 0, 0, false⟩,
  ⟨lit "SHA2-256", .hmacSha2_256, 0, 0, false⟩,
  ⟨lit "SHA2-384", .hmacSha2_384, 0, 0, false⟩,
  ⟨lit "SHA2-512", .hmacSha2_512, 0, 0, false⟩,
  ⟨lit "SHA3-256", .hmacSha3_256, 0, 0, false⟩,
  ⟨lit "SHA3-384", .hmacSha3_384, 0, 0, false⟩,
  ⟨lit "SHA3-512", .hmacSha3_512, 0, 0, false⟩,
  ⟨lit "MLKEM512", .mlkem512, 800, 0, false⟩,
  ⟨lit "MLKEM768", .mlkem768, 1184, 0, false⟩,
  ⟨lit "MLKEM1024", .mlkem1024, 1568, 0, false⟩,
  ⟨lit "MLDSA44", .mldsa44, 1312, 2420, false⟩,
  ⟨lit "MLDSA65", .mldsa65, 1952, 3309, false⟩,
  ⟨lit "MLDSA87", .mldsa87, 2592, 4627, false⟩,
  ⟨lit "CERT", .cert, 0, 0, false⟩,
  ⟨lit "DER_PKEY", .derPkey, 0, 0, false⟩]

structure KeyTypeInfo where
  family : KeyFamily
  modes : Nat
  roles : Nat
  pubkeyLen : Nat
  sigMaxLen : Nat
  sigDer : Bool
  deriving DecidableEq, Repr

/-- The result cleared by `memset`. -/
def KeyTypeInfo.zero : KeyTypeInfo := ⟨.unknown, 0, 0, 0, 0, false⟩

/-- The `len` characters at `p` are the literal. -/
def tokIs (p : Bytes) (len : Nat) (literal : Bytes) : Bool :=
  decide (literal.length = len) && decide (p.take len = literal)

def familyLookup (family : KeyFamily) : Option FamilyInfo := keyFamilies.find? (·.family = family)

/-- What the `len` characters at `p` add to the result. The first algorithm named
stays, and a token that is not recognized adds nothing. -/
def keyTypeToken (p : Bytes) (len : Nat) (out : KeyTypeInfo) : KeyTypeInfo :=
  if tokIs p len (lit "ExDSA") then { out with modes := out.modes ||| keyModeExdsa }
  else if tokIs p len (lit "ECDH") then { out with modes := out.modes ||| keyModeEcdh }
  else if tokIs p len (lit "ATT") then { out with roles := out.roles ||| keyRoleAtt }
  else if tokIs p len (lit "PKEY") then { out with roles := out.roles ||| keyRolePkey }
  else if tokIs p len (lit "CERT") then { out with roles := out.roles ||| keyRoleCert }
  else if tokIs p len (lit "GENERIC_DER") then { out with roles := out.roles ||| keyRoleGenericDer }
  else if out.family = .unknown then
    match keyFamilies.find? fun fi => tokIs p len fi.token with
    | some fi => { out with family := fi.family }
    | none => out
  else out

/-- The walk over the tokens; every round takes one of them with its comma. -/
def keyTypeWalk : Nat → Bytes → KeyTypeInfo → KeyTypeInfo
  | 0, _, out => out
  | rounds + 1, p, out =>
    if p = [] then out
    else match cutAt 44 p with
      | some (tok, rest) => keyTypeWalk rounds rest (keyTypeToken p tok.length out)
      | none => keyTypeWalk rounds [] (keyTypeToken p p.length out)

/-- DER containers name themselves through role tokens. -/
def resolveContainer (out : KeyTypeInfo) : KeyTypeInfo :=
  if out.family = .unknown then
    if out.roles &&& keyRoleCert ≠ 0 then { out with family := .cert }
    else if out.roles &&& keyRoleGenericDer ≠ 0 then { out with family := .derPkey }
    else out
  else out

def fillSizes (out : KeyTypeInfo) : KeyTypeInfo :=
  match familyLookup out.family with
  | some fi => { out with pubkeyLen := fi.pubkeyLen, sigMaxLen := fi.sigMaxLen, sigDer := fi.sigDer }
  | none => out

/-- `ehem_key_type_parse`, over the memory that `out` points to. -/
def keyTypeParse (type : Option Bytes) (out : Option KeyTypeInfo) : Except Rc Unit × Option KeyTypeInfo :=
  match type, out with
  | _, none => (.error .arg, none)
  | none, some _ => (.error .arg, some .zero)
  | some type, some _ =>
    let p := cstr type
    (.ok (), some (fillSizes (resolveContainer (keyTypeWalk (p.length + 1) p .zero))))

def keyFamilyStr (family : KeyFamily) : Bytes :=
  match familyLookup family with
  | some fi => if family ≠ .unknown then fi.token else lit "unknown"
  | none => lit "unknown"

end EncedoHem
