import Mathlib
import EChainLib.Keys.KeyElement

/-! `CFCA::Verify` of `cfca.cpp`. The vendor's library is loaded at run time and
is the parameter `CfcaLib`; its functions take NUL-terminated texts. -/

namespace EChainLib.Keys

/-- The functions behind `cfca_functions_`, where `none` is a non-zero error code.
A certificate is named by its base64 text. -/
structure CfcaLib where
  handle_ : Bool
  Certificate : Type
  certificateOf : Bytes → Option Certificate
  /-- `GetCertificateInfo` asked for `CertType`. -/
  getCertificateInfo : Bytes → Option Bytes
  info_succeeds : ∀ text, (getCertificateInfo text).isSome ↔ (certificateOf text).isSome
  /-- The type fits `char szAlgorithm[8]`. -/
  info_short : ∀ text info, getCertificateInfo text = some info → info.length < 8
  embedded : Bytes → Option Certificate
  ValidUnder : Certificate → Bytes → Int32 → Bytes → Prop
  verifyDataSignature_PKCS7Detached : Bytes → Bytes → Int32 → Bytes → Option Bytes
  detached_succeeds : ∀ algorithm source size sig,
    (verifyDataSignature_PKCS7Detached algorithm source size sig).isSome ↔
      ∃ certificate, embedded sig = some certificate ∧ ValidUnder certificate source size sig
  detached_returns : ∀ algorithm source size sig text,
    verifyDataSignature_PKCS7Detached algorithm source size sig = some text →
      certificateOf text = embedded sig

def base64Character (key : UInt8) : Bool :=
  ('a'.toUInt8 ≤ key && key ≤ 'z'.toUInt8) || ('A'.toUInt8 ≤ key && key ≤ 'Z'.toUInt8) ||
    ('0'.toUInt8 ≤ key && key ≤ '9'.toUInt8) || key == '/'.toUInt8 || key == '+'.toUInt8

def equalsSign : UInt8 := '='.toUInt8

/-- The `int length`: where the first `=` stands, or the end. -/
def scannedLength (msg : Bytes) : Nat :=
  let found : Int32 :=
    if equalsSign ∈ msg then Int32.ofNat (msg.takeWhile (· ≠ equalsSign)).length else -1
  let length := if found = -1 then Int32.ofNat msg.length else found
  -- a loop up to a negative length makes no round
  length.toInt.toNat

/-- Only what stands before the first `=` is looked at. -/
def isBase64String (msg : Bytes) : Bool :=
  msg.length ≠ 0 && msg.length % 4 == 0 && (msg.take (scannedLength msg)).all base64Character

variable (lib : CfcaLib)

def getAlgorithm (pszBase64CertContent : Bytes) : Option Bytes :=
  lib.getCertificateInfo pszBase64CertContent

/-- The certificate the library hands back through the last argument. -/
def verifySignature (pszAlgorithm source : Bytes) (nSourceSize : Int32) (signature : Bytes) :
    Option Bytes :=
  lib.verifyDataSignature_PKCS7Detached pszAlgorithm source nSourceSize signature

def cfcaVerify (msg sig publickey : Bytes) : Bool :=
  if !lib.handle_ then false
  else if !isBase64String publickey then false
  else if !isBase64String sig then false
  else
    match getAlgorithm lib (cString publickey) with
    | none => false
    | some szAlgorithm =>
        match verifySignature lib szAlgorithm msg (Int32.ofNat msg.length) (cString sig) with
        | none => false
        -- the certificate is freed without being looked at
        | some _ => true

/-- The certificate the key text holds. -/
def heldCertificate (publickey : Bytes) : Option lib.Certificate :=
  lib.certificateOf (cString publickey)

/-- The certificate `VerifyDataSignature_PKCS7Detached` returns. -/
def signingCertificate (sig : Bytes) : Option lib.Certificate := lib.embedded (cString sig)

/-- The text of the key is a certificate `Verify` can read. -/
def KeyReadable (publickey : Bytes) : Prop :=
  isBase64String publickey = true ∧ (heldCertificate lib publickey).isSome

/-- The signature is a good one of whoever's certificate it embeds. -/
def SignatureGood (msg sig : Bytes) : Prop :=
  isBase64String sig = true ∧ ∃ certificate, signingCertificate lib sig = some certificate ∧
    lib.ValidUnder certificate msg (Int32.ofNat msg.length) (cString sig)

/-- The two checks speak of the key and of the signature apart. -/
theorem cfcaVerify_iff (msg sig publickey : Bytes) :
    cfcaVerify lib msg sig publickey = true ↔
      lib.handle_ = true ∧ KeyReadable lib publickey ∧ SignatureGood lib msg sig := by
  have read := lib.info_succeeds (cString publickey)
  unfold cfcaVerify KeyReadable SignatureGood heldCertificate getAlgorithm verifySignature
  cases found : lib.getCertificateInfo (cString publickey) with
  | none =>
      rw [found] at read
      have unreadable : ¬ (lib.certificateOf (cString publickey)).isSome = true := by
        simpa using read
      simp [unreadable]
  | some szAlgorithm =>
      rw [found] at read
      have readable : (lib.certificateOf (cString publickey)).isSome = true := read.mp rfl
      have good := lib.detached_succeeds szAlgorithm msg (Int32.ofNat msg.length) (cString sig)
      unfold signingCertificate
      rw [← good]
      cases answer : lib.verifyDataSignature_PKCS7Detached szAlgorithm msg
        (Int32.ofNat msg.length) (cString sig) with
      | none => simp [answer]
      | some text => simp [answer, readable]

end EChainLib.Keys
