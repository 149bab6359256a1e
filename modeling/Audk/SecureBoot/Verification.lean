import Audk.SecureBoot.Database
import Audk.Base.Firmware

/-!
# `DxeImageVerificationHandler`

The decision whether an image may be executed.  The certificates are those that
`UefiImageGetFirstCertificate` and `UefiImageGetNextCertificate` enumerate.

* `examine`, `examineAll`: the loop over the certificates;
* `dxeImageVerificationHandler`: the handler.
-/

namespace Audk.SecureBoot

open Bytes

/-! ## certificates -/

/-- `WIN_CERTIFICATE`: its header, and the memory from its first byte on -/
structure WinCertificate where
  wCertificateType : Nat
  dwLength : Nat
  bytes : Mem

def winCertTypePkcsSignedData : Nat := 0x0002
def winCertTypeEfiGuid : Nat := 0x0EF1

/-- `sizeof (WIN_CERTIFICATE)` and `OFFSET_OF (WIN_CERTIFICATE_UEFI_GUID, CertData)` -/
def sizeofWinCertificate : Nat := 8
def offsetofUefiGuidCertData : Nat := 24

def certPkcs7Guid : List UInt8 :=
  [0x9d, 0xd2, 0xaf, 0x4a, 0xdf, 0x68, 0xee, 0x49, 0x8a, 0xa9, 0x34, 0x7d, 0x37, 0x56, 0x65, 0xa7]

/-- what the loop makes of a certificate before it looks at the signature -/
inductive CertificateKind where
  | signature (authData : AuthData)
  | tooShort
  | unsupported

def WinCertificate.dataAt (c : WinCertificate) (off : Nat) : CertificateKind :=
  if c.dwLength ≤ off then .tooShort
  else .signature ⟨fun i => c.bytes (off + i), c.dwLength - off⟩

def WinCertificate.authData (c : WinCertificate) : CertificateKind :=
  if c.wCertificateType = winCertTypePkcsSignedData then c.dataAt sizeofWinCertificate
  else if c.wCertificateType = winCertTypeEfiGuid then
    if chunk c.bytes 8 sizeofGuid ≠ certPkcs7Guid then .unsupported
    else c.dataAt offsetofUefiGuidCertData
  else .unsupported

def twoByteEncode : Nat := 0x82

/-- the algorithm whose identifier stands at offset 32 -/
def signatureHashAlg (authData : AuthData) : Option HashAlg :=
  mHash.find? fun alg => decide (32 + alg.oid.length ≤ authData.size) &&
    decide (chunk authData.bytes 32 alg.oid.length = alg.oid)

/-- the algorithm of the signature and the hash of the image -/
def hashPeImageByType (c : Crypto) (authData : AuthData) : Option (HashAlg × List UInt8) :=
  if (authData.bytes 1).toNat &&& twoByteEncode ≠ twoByteEncode then none
  else match signatureHashAlg authData with
    | none => none
    | some alg => (c.imageHash alg).map fun d => (alg, d)

/-! ## signed images -/

/-- `EFI_IMAGE_EXECUTION_ACTION` -/
inductive ExecutionAction where
  | authUntested | authSigFailed | authSigNotFound | authSigFound
deriving DecidableEq

structure LoopState where
  isVerified : Bool
  action : ExecutionAction

/-- the search says no, or fails -/
def foundOrError (r : Option Bool) : Bool := r ≠ some false

/-- the body of the loop for a signature whose hash is `digest`; the flag says that the loop ends -/
def examineSignature (e : Env) (authData : AuthData) (alg : HashAlg) (digest : List UInt8)
    (st : LoopState) : Bool × LoopState :=
  let st := if isForbiddenByDbx e authData digest then ⟨false, .authSigFailed⟩ else st
  let st := if !st.isVerified && isAllowedByDb e authData digest then { st with isVerified := true }
    else st
  if foundOrError (isSignatureFoundInDatabase e.dbx digest alg) then (true, ⟨false, .authSigFound⟩)
  else if st.isVerified then (false, st)
  else if isSignatureFoundInDatabase e.db digest alg = some true then
    (false, { st with isVerified := true })
  else (false, { st with action := .authSigNotFound })

def examine (e : Env) (c : WinCertificate) (st : LoopState) : Bool × LoopState :=
  match c.authData with
  | .unsupported => (false, st)
  | .tooShort => (true, st)
  | .signature authData =>
    match hashPeImageByType e.toCrypto authData with
    | none => (false, st)
    | some (alg, digest) => examineSignature e authData alg digest st

def examineAll (e : Env) : List WinCertificate → LoopState → LoopState
  | [], st => st
  | c :: cs, st =>
    if (examine e c st).1 then (examine e c st).2 else examineAll e cs (examine e c st).2

/-! ## unsigned images -/

/-- the loop over the hash algorithms; `none` if a hash is in `dbx` -/
def unsignedLoop (e : Env) : List HashAlg → Bool → Option Bool
  | [], isFoundInDatabase => some isFoundInDatabase
  | alg :: algs, isFoundInDatabase =>
    match e.imageHash alg with
    | none => unsignedLoop e algs isFoundInDatabase
    | some digest =>
      if foundOrError (isSignatureFoundInDatabase e.dbx digest alg) then none
      else unsignedLoop e algs (isFoundInDatabase || isSignatureFoundInDatabase e.db digest alg == some true)

/-! ## the handler -/

/-- what `GetImageType` says of the device path -/
inductive ImageSource where
  | fv | optionRom | removableMedia | fixedMedia | unknown

def alwaysExecute : Nat := 0
def neverExecute : Nat := 1
def allowExecuteOnSecurityViolation : Nat := 2
def deferExecuteOnSecurityViolation : Nat := 3
def denyExecuteOnSecurityViolation : Nat := 4
def queryUserOnSecurityViolation : Nat := 5

structure VerificationPcd where
  optionRomImageVerificationPolicy : Nat
  removableMediaImageVerificationPolicy : Nat
  fixedMediaImageVerificationPolicy : Nat

def policy (pcd : VerificationPcd) : ImageSource → Nat
  | .fv => alwaysExecute
  | .optionRom => pcd.optionRomImageVerificationPolicy
  | .removableMedia => pcd.removableMediaImageVerificationPolicy
  | .fixedMedia => pcd.fixedMediaImageVerificationPolicy
  | .unknown => denyExecuteOnSecurityViolation

/-- `GetVariable` for `SecureBoot`: the attributes and the value -/
inductive SecureBootVariable where
  | notFound
  | failed
  | found (attributes value : Nat)

/-- `EFI_VARIABLE_BOOTSERVICE_ACCESS | EFI_VARIABLE_RUNTIME_ACCESS` -/
def variableBsRt : Nat := 6

def SecureBootVariable.skipsVerification : SecureBootVariable → Bool
  | .notFound => true
  | .failed => false
  | .found attributes value => decide (attributes = variableBsRt ∧ value = 0)

inductive Outcome where
  | success
  | refused (status : Status) (action : Option ExecutionAction)
  | deadLoop
deriving DecidableEq

/-- the code behind `Failed` -/
def failed (policy : Nat) (action : ExecutionAction) : Outcome :=
  if policy = deferExecuteOnSecurityViolation then .refused .securityViolation (some action)
  else .refused .accessDenied (some action)

/-- the image as the handler sees it: `none` where `UefiImageGetFirstCertificate` finds no
certificate -/
def verifyImage (e : Env) (certificates : Option (List WinCertificate)) : Bool × ExecutionAction :=
  match certificates with
  | none => (unsignedLoop e mHash.reverse false == some true, .authUntested)
  | some cs =>
    let st := examineAll e cs ⟨false, .authUntested⟩
    (st.isVerified, st.action)

def dxeImageVerificationHandler (pcd : VerificationPcd) (source : ImageSource)
    (secureBoot : SecureBootVariable) (e : Env) (certificates : Option (List WinCertificate)) : Outcome :=
  let policy := policy pcd source
  if policy = alwaysExecute then .success
  else if policy = neverExecute then .refused .accessDenied none
  else if policy = queryUserOnSecurityViolation ∨ policy = allowExecuteOnSecurityViolation then
    .deadLoop
  else if secureBoot.skipsVerification then .success
  else
    let r := verifyImage e certificates
    if r.1 then .success else failed policy r.2

end Audk.SecureBoot
