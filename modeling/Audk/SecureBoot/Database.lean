import Audk.Lib.Bytes

/-!
# The signature databases of `DxeImageVerificationLib`

`db`, `dbx` and `dbt` as lists of well-formed `EFI_SIGNATURE_LIST`s, and the functions of the library
that search them.  The cryptographic primitives are functions of their arguments, without further
assumptions.

* `Crypto`: the primitives of `BaseCryptLib` and the image hash;
* `isSignatureFoundInDatabase`, `isCertHashFoundInDbx`, `passTimestampCheck`, `isForbiddenByDbx`,
  `isAllowedByDb`: the searches.
-/

namespace Audk.SecureBoot

open Bytes

/-! ## hash algorithms -/

/-- the entries of `mHash`, in the order of the table -/
inductive HashAlg where
  | sha256 | sha384 | sha512 | sha1
deriving DecidableEq

def mHash : List HashAlg := [.sha256, .sha384, .sha512, .sha1]

def HashAlg.digestLength : HashAlg → Nat
  | .sha256 => 32
  | .sha384 => 48
  | .sha512 => 64
  | .sha1 => 20

def HashAlg.oid : HashAlg → List UInt8
  | .sha256 => [0x60, 0x86, 0x48, 0x01, 0x65, 0x03, 0x04, 0x02, 0x01]
  | .sha384 => [0x60, 0x86, 0x48, 0x01, 0x65, 0x03, 0x04, 0x02, 0x02]
  | .sha512 => [0x60, 0x86, 0x48, 0x01, 0x65, 0x03, 0x04, 0x02, 0x03]
  | .sha1 => [0x2B, 0x0E, 0x03, 0x02, 0x1A]

/-! ## signature lists -/

inductive SignatureType where
  | x509
  | imageHash (alg : HashAlg)
  | x509Sha256 | x509Sha384 | x509Sha512
  | other (guid : Nat)
deriving DecidableEq

/-- the algorithm of a list of revoked certificate hashes -/
def SignatureType.revocationAlg : SignatureType → Option HashAlg
  | .x509Sha256 => some .sha256
  | .x509Sha384 => some .sha384
  | .x509Sha512 => some .sha512
  | _ => none

def sizeofGuid : Nat := 16
def sizeofTime : Nat := 16

/-- a well-formed `EFI_SIGNATURE_LIST`; `signatures` are the `SignatureData` of its entries -/
structure SignatureList where
  signatureType : SignatureType
  signatureSize : Nat
  signatures : List (List UInt8)
  size_eq : ∀ d, d ∈ signatures → sizeofGuid + d.length = signatureSize
  revocation_size : ∀ alg, signatureType.revocationAlg = some alg →
    signatureSize = sizeofGuid + alg.digestLength + sizeofTime

/-- what `GetVariable` says of a database -/
inductive Variable where
  | notFound
  | failed
  | found (lists : List SignatureList)

/-- the certificates of the lists of type `EFI_CERT_X509_GUID`, in order -/
def x509Certs (lists : List SignatureList) : List (List UInt8) :=
  lists.flatMap fun l => if l.signatureType = .x509 then l.signatures else []

/-! ## times -/

/-- the part of `EFI_TIME` that is compared -/
structure EfiTime where
  year : Nat
  month : Nat
  day : Nat
  hour : Nat
  minute : Nat
  second : Nat
deriving DecidableEq

def EfiTime.ofBytes (d : List UInt8) : EfiTime where
  year := (d.getD 0 0).toNat + 256 * (d.getD 1 0).toNat
  month := (d.getD 2 0).toNat
  day := (d.getD 3 0).toNat
  hour := (d.getD 4 0).toNat
  minute := (d.getD 5 0).toNat
  second := (d.getD 6 0).toNat

def isValidSignatureByTimestamp (signing revocation : EfiTime) : Bool :=
  if signing.year ≠ revocation.year then decide (signing.year < revocation.year)
  else if signing.month ≠ revocation.month then decide (signing.month < revocation.month)
  else if signing.day ≠ revocation.day then decide (signing.day < revocation.day)
  else if signing.hour ≠ revocation.hour then decide (signing.hour < revocation.hour)
  else if signing.minute ≠ revocation.minute then decide (signing.minute < revocation.minute)
  else decide (signing.second ≤ revocation.second)

def isTimeZero (t : EfiTime) : Bool := decide (t = ⟨0, 0, 0, 0, 0, 0⟩)

/-! ## primitives -/

/-- the Authenticode data of a signature: the bytes from `AuthData` on, and `AuthDataSize` -/
structure AuthData where
  bytes : Mem
  size : Nat

/-- the primitives; an image hash that cannot be computed is `none` -/
structure Crypto where
  imageHash : HashAlg → Option (List UInt8)
  imageHash_length : ∀ alg d, imageHash alg = some d → d.length = alg.digestLength
  digest : HashAlg → List UInt8 → List UInt8
  x509GetTBSCert : List UInt8 → Option (List UInt8)
  authenticodeVerify : AuthData → List UInt8 → List UInt8 → Bool
  pkcs7GetSigners : AuthData → List (List UInt8)
  imageTimestampVerify : AuthData → List UInt8 → Option EfiTime

/-- everything the decision depends on besides the image -/
structure Env extends Crypto where
  db : Variable
  dbx : Variable
  dbt : Variable

/-! ## searches -/

/-- `CompareMem (a, b, n) == 0` -/
def sameBytes (a b : List UInt8) (n : Nat) : Bool := decide (a.take n = b.take n)

/-- an error of the search is `none` -/
def isSignatureFoundInDatabase (db : Variable) (signature : List UInt8) (alg : HashAlg) : Option Bool :=
  match db with
  | .notFound => some false
  | .failed => none
  | .found lists => some (lists.any fun l =>
      decide (l.signatureSize = sizeofGuid + signature.length ∧ l.signatureType = .imageHash alg) &&
        l.signatures.any fun d => sameBytes d signature signature.length)

/-- the revocation times of the entries of the list that match the certificate -/
def revocationTimes (c : Crypto) (tbsCert : List UInt8) (l : SignatureList) : List EfiTime :=
  match l.signatureType.revocationAlg with
  | none => []
  | some alg => l.signatures.filterMap fun d =>
      if sameBytes d (c.digest alg tbsCert) alg.digestLength then
        some (EfiTime.ofBytes (d.drop alg.digestLength)) else none

/-- the revocation time of the first entry that matches; `none` is an error of the search -/
def isCertHashFoundInDbx (c : Crypto) (certificate : List UInt8) (dbx : List SignatureList) :
    Option (Option EfiTime) :=
  match c.x509GetTBSCert certificate with
  | none => none
  | some tbsCert => some (dbx.flatMap (revocationTimes c tbsCert)).head?

def passTimestampCheck (e : Env) (authData : AuthData) (revocationTime : EfiTime) : Bool :=
  if isTimeZero revocationTime then false
  else match e.dbt with
    | .found lists => (x509Certs lists).any fun rootCert =>
        match e.imageTimestampVerify authData rootCert with
        | none => false
        | some signingTime => isValidSignatureByTimestamp signingTime revocationTime
    | _ => false

/-- the loop over the signers; what an error of the search leaves in `IsForbidden` is overwritten
behind the loop -/
def signersForbidden (e : Env) (authData : AuthData) (dbx : List SignatureList) : List (List UInt8) → Bool
  | [] => false
  | cert :: certs =>
    match isCertHashFoundInDbx e.toCrypto cert dbx with
    | some (some revocationTime) =>
      if passTimestampCheck e authData revocationTime then signersForbidden e authData dbx certs
      else true
    | _ => signersForbidden e authData dbx certs

def isForbiddenByDbx (e : Env) (authData : AuthData) (imageDigest : List UInt8) : Bool :=
  match e.dbx with
  | .notFound => false
  | .failed => true
  | .found lists =>
    if (x509Certs lists).any fun rootCert => e.authenticodeVerify authData rootCert imageDigest then
      true
    else match e.pkcs7GetSigners authData with
      | [] => true
      | signers => signersForbidden e authData lists signers

/-- whether the first certificate of `db` that verifies the signature may still be trusted -/
def rootTrusted (e : Env) (authData : AuthData) (rootCert : List UInt8) : Bool :=
  match e.dbx with
  | .notFound => true
  | .failed => false
  | .found lists =>
    match isCertHashFoundInDbx e.toCrypto rootCert lists with
    | none => false
    | some none => true
    | some (some revocationTime) => passTimestampCheck e authData revocationTime

def isAllowedByDb (e : Env) (authData : AuthData) (imageDigest : List UInt8) : Bool :=
  match e.db with
  | .found lists =>
    match (x509Certs lists).find? fun c => e.authenticodeVerify authData c imageDigest with
    | none => false
    | some rootCert => rootTrusted e authData rootCert
  | _ => false

end Audk.SecureBoot
