import Audk.SecureBoot.Database
import Audk.Base.Firmware

/-!
# Authenticated variables

`SetVariable` of the variable driver with `SecurityPkg/Library/AuthVariableLib`, over a store that is a map from
variables to attributes, data and time stamp.  Writes to the flash succeed; a variable for which there is no room
is refused.  What depends on cryptography, on the certificate database or on other libraries is in `Env`, which
belongs to one call.

* `verifyTimeBasedPayload`, `verifyTimeBasedPayloadAndUpdate`, `processVarWithPk`, `processVarWithKek`,
  `processVariable`, `updatePlatformMode`: the library;
* `variableServiceSetVariable`: the service.
-/

namespace Audk.AuthVar

open SecureBoot (EfiTime isValidSignatureByTimestamp)

/-! ## variables -/

/-- `priv` is any other variable -/
inductive Var where
  | pk | kek | db | dbx | dbt
  | setupMode | secureBoot | secureBootEnable | vendorKeys | vendorKeysNv
  | priv (n : Nat)
deriving DecidableEq

/-- the attributes of a request; `reserved` is set if a bit without a meaning is -/
structure Attributes where
  nonVolatile : Bool
  bootserviceAccess : Bool
  runtimeAccess : Bool
  hardwareErrorRecord : Bool
  authenticatedWriteAccess : Bool
  timeBasedAuthenticatedWriteAccess : Bool
  appendWrite : Bool
  reserved : Bool
deriving DecidableEq

/-- neither boot services nor the runtime may access the variable -/
def Attributes.noAccess (a : Attributes) : Bool := !a.runtimeAccess && !a.bootserviceAccess

def Attributes.zero : Attributes := ⟨false, false, false, false, false, false, false, false⟩

def Attributes.bsRt : Attributes := ⟨false, true, true, false, false, false, false, false⟩

def Attributes.nvBs : Attributes := ⟨true, true, false, false, false, false, false, false⟩

def Attributes.nvBsAt : Attributes := ⟨true, true, false, false, false, true, false, false⟩

structure Entry where
  attributes : Attributes
  data : List UInt8
  timeStamp : EfiTime

inductive Mode where
  | setup | user
deriving DecidableEq

def Mode.toByte : Mode → UInt8
  | .user => 0
  | .setup => 1

structure State where
  vars : Var → Option Entry
  mPlatformMode : Mode
  mVendorKeyModified : Bool

inductive AuthVarType where
  | priv | pk | kek | payload
deriving DecidableEq

/-- the circumstances of a call.  `checks` is the result of the checks of sizes and of the other libraries,
`verify` that of the signature check, `room` says for which variables there is room, `deleteCerts` is the result
of `DeleteCertsFromDb`, `filter` is `FilterSignatureList`. -/
structure Env where
  atRuntime : Bool
  customMode : Bool
  userPhysicalPresent : Bool
  requireSelfSignedPk : Bool
  variablePolicyEnabled : Bool
  hwErrStorage : Bool
  scratch : Bool
  checks : Option Status
  formatOk : Bool
  verify : AuthVarType → Bool
  deleteCerts : Option Status
  room : Var → Bool
  maxDataSize : Nat
  filter : List UInt8 → List UInt8 → List UInt8

/-- a request.  `sane` says that the descriptor of the authentication fits into the data, `timeClean` that the
fields of the time stamp that must be zero are, `certTypeOk` that type and digest algorithm of the signature are
supported; `payload` is what follows the descriptor. -/
structure Request where
  var : Var
  attributes : Attributes
  sane : Bool
  timeStamp : EfiTime
  timeClean : Bool
  certTypeOk : Bool
  payload : List UInt8

/-- `AuthServiceInternalCompareTimeStamp`: the first time is not later than the second -/
def authServiceInternalCompareTimeStamp (first second : EfiTime) : Bool := isValidSignatureByTimestamp first second

def variableCompareTimeStampInternal (first second : EfiTime) : Bool := isValidSignatureByTimestamp first second

/-- `AuthServiceInternalFindVariable`: at runtime, only variables with runtime access are found -/
def find (env : Env) (s : State) (v : Var) : Option Entry :=
  (s.vars v).filter fun e => !env.atRuntime || e.attributes.runtimeAccess

def State.set (v : Var) (e : Option Entry) (s : State) : State := { s with vars := Function.update s.vars v e }

/-! ## the variable driver -/

/-- the time stamp that is stored; a variable that an append creates has none -/
def storedTimeStamp (attributes : Attributes) (old : Option Entry) (timeStamp : Option EfiTime) : EfiTime :=
  match attributes.timeBasedAuthenticatedWriteAccess, timeStamp with
  | true, some t =>
    if attributes.appendWrite = false then t
    else
      match old with
      | some e => if variableCompareTimeStampInternal e.timeStamp t then t else e.timeStamp
      | none => ⟨0, 0, 0, 0, 0, 0⟩
  | _, _ => ⟨0, 0, 0, 0, 0, 0⟩

def writeVariable (env : Env) (v : Var) (data : List UInt8) (attributes : Attributes) (old : Option Entry)
    (timeStamp : Option EfiTime) (s : State) : Option Status × State :=
  if env.room v = false then (some .outOfResources, s)
  else
    (none, s.set v (some
      { attributes := { attributes with appendWrite := false }
        data := data
        timeStamp := storedTimeStamp attributes old timeStamp }))

def updateVariable (env : Env) (v : Var) (data : List UInt8) (attributes : Attributes)
    (timeStamp : Option EfiTime) (s : State) : Option Status × State :=
  match find env s v with
  | some e =>
    if env.atRuntime && !e.attributes.nonVolatile then (some .writeProtected, s)
    else if (!attributes.appendWrite && data.isEmpty) || attributes.noAccess then (none, s.set v none)
    else if e.data = data ∧ attributes.appendWrite = false ∧ timeStamp = none then (none, s)
    else if attributes.appendWrite then
      if env.maxDataSize < (e.data ++ data).length then (some .invalidParameter, s)
      else writeVariable env v (e.data ++ data) attributes (some e) timeStamp s
    else writeVariable env v data attributes (some e) timeStamp s
  | none =>
    if data.isEmpty && attributes.appendWrite then (none, s)
    else if data.isEmpty || attributes.noAccess then (some .notFound, s)
    else if env.atRuntime && !(attributes.runtimeAccess && attributes.nonVolatile) then (some .invalidParameter, s)
    else writeVariable env v data attributes none timeStamp s

/-! ## the library -/

/-- the variables whose data is a list of signatures and filtered when it is appended -/
def isFiltered : Var → Bool
  | .kek | .db | .dbx | .dbt => true
  | _ => false

def updateWithTimeStamp (env : Env) (r : Request) (s : State) : Option Status × State :=
  let data := match find env s r.var with
    | some e => if r.attributes.appendWrite && isFiltered r.var then env.filter e.data r.payload else r.payload
    | none => r.payload
  updateVariable env r.var data r.attributes (some r.timeStamp) s

/-- `InCustomMode`; the variable `CustomMode` is not accessible at runtime -/
def Env.inCustomMode (env : Env) : Bool := env.customMode && !env.atRuntime

def Env.checkSignatureListFormat (env : Env) (payload : List UInt8) : Option Status :=
  if payload.isEmpty || env.formatOk then none else some .invalidParameter

def verifySignature (env : Env) (s : State) (type : AuthVarType) : Option Status :=
  match type with
  | .pk => if (find env s .pk).isSome && env.verify .pk then none else some .securityViolation
  | .kek =>
    if (find env s .kek).isNone then some .notFound
    else if env.verify .kek then none else some .securityViolation
  | .priv => if env.verify .priv then none else some .securityViolation
  | .payload => if env.verify .payload then none else some .securityViolation

/-- deletions without the variable policy are not verified -/
def Request.unverified (r : Request) (env : Env) : Bool :=
  r.payload.isEmpty && !r.attributes.appendWrite && !env.variablePolicyEnabled

def verifyTimeBasedPayload (env : Env) (r : Request) (type : AuthVarType) (orgTimeStamp : Option EfiTime)
    (s : State) : Option Status :=
  if r.timeClean = false then some .securityViolation
  else if (orgTimeStamp.any fun t => authServiceInternalCompareTimeStamp r.timeStamp t) &&
      !r.attributes.appendWrite then some .securityViolation
  else if r.certTypeOk = false then some .securityViolation
  else if r.unverified env then env.checkSignatureListFormat r.payload
  else if env.scratch = false then some .outOfResources
  else
    match verifySignature env s type with
    | some e => some e
    | none => env.checkSignatureListFormat r.payload

/-- `VerifyTimeBasedPayloadAndUpdate`; the second part of the result is `*VarDel` -/
def verifyTimeBasedPayloadAndUpdate (env : Env) (r : Request) (type : AuthVarType) (s : State) :
    Option Status × Bool × State :=
  match verifyTimeBasedPayload env r type ((find env s r.var).map (·.timeStamp)) s with
  | some e => (some e, false, s)
  | none =>
    let isDel := (find env s r.var).isSome && r.payload.isEmpty && !r.attributes.appendWrite
    let (status, s') := updateWithTimeStamp env r s
    let status' := if isDel && decide (type = .priv) && decide (status = none) then env.deleteCerts else status
    (status', isDel && decide (status' = none), s')

def authServiceInternalUpdateVariable (env : Env) (v : Var) (data : List UInt8) (attributes : Attributes)
    (s : State) : Option Status × State :=
  updateVariable env v data attributes none s

def vendorKeyIsModified (env : Env) (s : State) : Option Status × State :=
  if s.mVendorKeyModified then (none, s)
  else
    match authServiceInternalUpdateVariable env .vendorKeysNv [0] .nvBsAt { s with mVendorKeyModified := true } with
    | (some e, s') => (some e, s')
    | (none, s') => authServiceInternalUpdateVariable env .vendorKeys [0] .bsRt s'

def updatePlatformMode (env : Env) (mode : Mode) (s : State) : Option Status × State :=
  match find env s .setupMode with
  | none => (some .notFound, s)
  | some e =>
    -- the data of the variable is changed in place
    let s' := { s.set .setupMode (some { e with data := [mode.toByte] }) with mPlatformMode := mode }
    if env.atRuntime then (none, s')
    else
      let enable := (find env s' .secureBoot).isSome && decide (mode = .user)
      match authServiceInternalUpdateVariable env .secureBoot [if enable then 1 else 0] .bsRt s' with
      | (some status, s'') => (some status, s'')
      | (none, s'') =>
        if enable then authServiceInternalUpdateVariable env .secureBootEnable [1] .nvBs s''
        else if (find env s'' .secureBootEnable).isNone then (none, s'')
        else authServiceInternalUpdateVariable env .secureBootEnable [] .nvBs s''

/-- no signature is needed: custom mode with physical presence, or setup mode -/
def withoutSignature (env : Env) (isPk : Bool) (s : State) : Bool :=
  (env.inCustomMode && env.userPhysicalPresent) ||
    (decide (s.mPlatformMode = .setup) && !(env.requireSelfSignedPk && isPk))

/-- the variable is updated; the second part of the result is `Del` -/
def updateWithPk (env : Env) (r : Request) (isPk : Bool) (s : State) : Option Status × Bool × State :=
  if withoutSignature env isPk s then
    match env.checkSignatureListFormat r.payload with
    | some e => (some e, r.payload.isEmpty, s)
    | none =>
      match updateWithTimeStamp env r s with
      | (some e, s') => (some e, r.payload.isEmpty, s')
      | (none, s') =>
        if s'.mPlatformMode ≠ .setup ∨ (env.requireSelfSignedPk && isPk) = true then
          ((vendorKeyIsModified env s').1, r.payload.isEmpty, (vendorKeyIsModified env s').2)
        else (none, r.payload.isEmpty, s')
  else if s.mPlatformMode = .user then verifyTimeBasedPayloadAndUpdate env r .pk s
  else verifyTimeBasedPayloadAndUpdate env r .payload s

def processVarWithPk (env : Env) (r : Request) (isPk : Bool) (s : State) : Option Status × State :=
  if r.attributes.nonVolatile = false ∨ r.attributes.timeBasedAuthenticatedWriteAccess = false then
    (some .invalidParameter, s)
  else
    match updateWithPk env r isPk s with
    | (some e, _, s') => (some e, s')
    | (none, del, s') =>
      if isPk = false then (none, s')
      else if s'.mPlatformMode = .setup ∧ del = false then updatePlatformMode env .user s'
      else if s'.mPlatformMode = .user ∧ del = true then updatePlatformMode env .setup s'
      else (none, s')

def processVarWithKek (env : Env) (r : Request) (s : State) : Option Status × State :=
  if r.attributes.nonVolatile = false ∨ r.attributes.timeBasedAuthenticatedWriteAccess = false then
    (some .invalidParameter, s)
  else if s.mPlatformMode = .user ∧ (env.inCustomMode && env.userPhysicalPresent) = false then
    ((verifyTimeBasedPayloadAndUpdate env r .kek s).1, (verifyTimeBasedPayloadAndUpdate env r .kek s).2.2)
  else
    match env.checkSignatureListFormat r.payload with
    | some e => (some e, s)
    | none =>
      match updateWithTimeStamp env r s with
      | (some e, s') => (some e, s')
      | (none, s') => if s'.mPlatformMode ≠ .setup then vendorKeyIsModified env s' else (none, s')

def isDeleteAuthVariable (old : Attributes) (r : Request) : Bool :=
  decide (r.attributes = old) &&
    (r.attributes.authenticatedWriteAccess || r.attributes.timeBasedAuthenticatedWriteAccess) && r.payload.isEmpty

def needPhysicallyPresent (env : Env) (v : Var) : Bool := env.variablePolicyEnabled && decide (v = .secureBootEnable)

def processVariable (env : Env) (r : Request) (s : State) : Option Status × State :=
  let old := find env s r.var
  if (old.any fun e => isDeleteAuthVariable e.attributes r) &&
      (env.userPhysicalPresent || !env.variablePolicyEnabled) then
    match authServiceInternalUpdateVariable env r.var [] .zero s with
    | (some e, s') => (some e, s')
    | (none, s') =>
      if r.attributes.timeBasedAuthenticatedWriteAccess then (env.deleteCerts, s') else (none, s')
  else if needPhysicallyPresent env r.var && !env.userPhysicalPresent then (some .securityViolation, s)
  else if r.attributes.authenticatedWriteAccess then (some .unsupported, s)
  else if r.attributes.timeBasedAuthenticatedWriteAccess then
    ((verifyTimeBasedPayloadAndUpdate env r .priv s).1, (verifyTimeBasedPayloadAndUpdate env r .priv s).2.2)
  else if old.any fun e =>
      e.attributes.authenticatedWriteAccess || e.attributes.timeBasedAuthenticatedWriteAccess then
    (some .writeProtected, s)
  else authServiceInternalUpdateVariable env r.var r.payload r.attributes s

def authVariableLibProcessVariable (env : Env) (r : Request) (s : State) : Option Status × State :=
  match r.var with
  | .pk => processVarWithPk env r true s
  | .kek => processVarWithPk env r false s
  | .db | .dbx | .dbt =>
    match processVarWithPk env r false s with
    | (none, s') => (none, s')
    | (some _, s') => processVarWithKek env r s'
  | _ => processVariable env r s

/-! ## the service -/

def checkAttributes (env : Env) (r : Request) : Option Status :=
  let a := r.attributes
  let invalid : Status := if a.authenticatedWriteAccess then .unsupported else .invalidParameter
  if a.reserved then some .invalidParameter
  else if a.runtimeAccess && !a.bootserviceAccess then some invalid
  else if a.nonVolatile && !a.bootserviceAccess && !a.runtimeAccess && !a.hardwareErrorRecord &&
      !a.timeBasedAuthenticatedWriteAccess && !a.appendWrite then some invalid
  else if !a.authenticatedWriteAccess && !a.timeBasedAuthenticatedWriteAccess && a.hardwareErrorRecord &&
      !env.hwErrStorage then some .invalidParameter
  else if a.authenticatedWriteAccess && a.timeBasedAuthenticatedWriteAccess then some .unsupported
  else if a.authenticatedWriteAccess && !r.payload.isEmpty then some .unsupported
  else if a.timeBasedAuthenticatedWriteAccess && !r.sane then some .securityViolation
  else env.checks

def checkExisting (env : Env) (r : Request) (s : State) : Option Status :=
  match s.vars r.var with
  | none => none
  | some e =>
    if !e.attributes.runtimeAccess && env.atRuntime then some .writeProtected
    else if r.attributes ≠ .zero ∧ { r.attributes with appendWrite := false } ≠ e.attributes then
      some .invalidParameter
    else none

def variableServiceSetVariable (env : Env) (r : Request) (s : State) : Option Status × State :=
  match checkAttributes env r with
  | some e => (some e, s)
  | none =>
    match checkExisting env r s with
    | some e => (some e, s)
    | none => authVariableLibProcessVariable env r s

end Audk.AuthVar
