import Audk.Base.Firmware
import Audk.Lib.Sections
import Mathlib.Logic.Function.Basic

/-!
# The handle and protocol database

`MdeModulePkg/Core/Dxe/Hand/Handle.c`, with `CoreRemoveInterfaceFromProtocol` of `Notify.c`.  Every
function runs under `gProtocolDatabaseLock`; where the source releases the lock, to stop or connect
drivers or between two calls, the operation is left as a `Pending` one.

* `resume`: from a release of the lock to the next one;
* `machine`: all of it as sections between releases of the lock.

An access to a handle or an interface that has been freed has no defined outcome.  The release build is
modelled: an `ASSERT` has no effect.  The events that `CoreNotifyProtocolEntry` signals are dispatched when
the lock is released; they are operations of their own.
-/

namespace Audk.Hand

open Sections

/-- an address; `0` is `NULL` -/
abbrev Addr := Nat

abbrev Guid := Nat

/-! ## attributes of an open -/

def byHandleProtocol : Nat := 0x01
def getProtocol : Nat := 0x02
def testProtocol : Nat := 0x04
def byChildController : Nat := 0x08
def byDriver : Nat := 0x10
def exclusive : Nat := 0x20

structure OpenData where
  agentHandle : Addr
  controllerHandle : Addr
  attributes : Nat
  openCount : Nat

def OpenData.has (r : OpenData) (bits : Nat) : Bool := r.attributes &&& bits ≠ 0

/-! ## the database -/

/-- `PROTOCOL_INTERFACE`; a protocol entry is named by its GUID -/
structure Interface where
  handle : Addr
  protocol : Guid
  interface : Addr
  openList : List OpenData
  openListCount : Nat

structure IHandle where
  protocols : List Addr
  key : Nat

/-- `handle` has the handles of `gHandleList`, `entry` the lists `Protocols` of the entries of
`mProtocolDatabase` -/
structure Db where
  handle : Addr → Option IHandle
  entry : Guid → Option (List Addr)
  prot : Addr → Option Interface
  gHandleDatabaseKey : Nat
  gImageHandle : Addr

def Db.empty (gImageHandle : Addr) : Db where
  handle := fun _ => none
  entry := fun _ => none
  prot := fun _ => none
  gHandleDatabaseKey := 0
  gImageHandle := gImageHandle

def Db.setHandle (db : Db) (h : Addr) (H : Option IHandle) : Db :=
  { db with handle := Function.update db.handle h H }

def Db.setEntry (db : Db) (g : Guid) (l : List Addr) : Db :=
  { db with entry := Function.update db.entry g (some l) }

def Db.setProt (db : Db) (p : Addr) (P : Option Interface) : Db :=
  { db with prot := Function.update db.prot p P }

/-- what comes from outside: the blocks the pool has, and whether `CoreDisconnectController` succeeded -/
structure Env where
  openData : Bool
  entry : Bool
  prot : Option Addr
  handle : Option Addr
  disconnected : Bool

/-- the pool returns a block that is not in use, or `NULL` -/
def Env.newProt (e : Env) (db : Db) : Option Addr := e.prot.filter fun p => p ≠ 0 ∧ (db.prot p).isNone

def Env.newHandle (e : Env) (db : Db) : Option Addr := e.handle.filter fun h => h ≠ 0 ∧ (db.handle h).isNone

/-- what an operation returns: the failure, and what it stored for its caller -/
structure Result where
  status : Option Status
  out : Option Addr

def Result.error (st : Status) : Result := ⟨some st, none⟩
def Result.success : Result := ⟨none, none⟩

/-- an operation that has released the lock -/
inductive Pending where
  /-- `CoreInstallProtocolInterfaceNotify` after `CoreHandleProtocol` returned `status` -/
  | install (handle : Addr) (protocol : Guid) (interface : Addr) (status : Status)
  /-- `CoreOpenProtocol` while it stops the driver `agent` -/
  | opening (prot agent imageHandle controllerHandle : Addr) (attributes : Nat)
      (h : attributes = exclusive ∨ attributes = byDriver + exclusive)
  /-- `CoreDisconnectControllersUsingProtocolInterface` while it stops the driver `agent` -/
  | uninstall (handle : Addr) (protocol : Guid) (interface prot agent : Addr)
  /-- `CoreDisconnectControllersUsingProtocolInterface` while it connects the drivers again -/
  | reconnect

/-- a section under the lock -/
abbrev Section := Option (Turn Pending Result × Db)

def finish (r : Result) (db : Db) : Section := some (.done r, db)
def fail (st : Status) (db : Db) : Section := finish (Result.error st) db
def release (k : Pending) (db : Db) : Section := some (.release k, db)

/-! ## searches -/

def coreValidateHandle (db : Db) (h : Addr) : Bool := h ≠ 0 ∧ (db.handle h).isSome

def coreGetProtocolInterface (db : Db) (H : IHandle) (g : Guid) : Option Addr :=
  H.protocols.find? fun p => (db.prot p).any fun P => P.protocol = g

def coreFindProtocolInterface (db : Db) (H : IHandle) (g : Guid) (interface : Addr) : Option Addr :=
  if (db.entry g).isSome then
    H.protocols.find? fun p => (db.prot p).any fun P => P.interface = interface ∧ P.protocol = g
  else none

/-! ## open and close -/

/-- the arguments of `CoreOpenProtocol`; `interface` says that the pointer is not `NULL` -/
structure OpenArgs where
  userHandle : Addr
  protocol : Option Guid
  interface : Bool
  imageHandle : Addr
  controllerHandle : Addr
  attributes : Nat

/-- the `switch` that checks the attributes and the handles they need -/
def OpenArgs.valid (a : OpenArgs) (db : Db) : Bool :=
  if a.attributes = byChildController then
    coreValidateHandle db a.imageHandle && coreValidateHandle db a.controllerHandle &&
      a.userHandle ≠ a.controllerHandle
  else if a.attributes = byDriver ∨ a.attributes = byDriver + exclusive then
    coreValidateHandle db a.imageHandle && coreValidateHandle db a.controllerHandle
  else if a.attributes = exclusive then coreValidateHandle db a.imageHandle
  else a.attributes = byHandleProtocol ∨ a.attributes = getProtocol ∨ a.attributes = testProtocol

def OpenArgs.exactMatch (a : OpenArgs) (r : OpenData) : Bool :=
  r.agentHandle = a.imageHandle ∧ r.attributes = a.attributes ∧ r.controllerHandle = a.controllerHandle

/-- what the loop over the open list finds -/
inductive Scan where
  | alreadyStarted
  | counted (openList : List OpenData)
  | passed (byDriver exclusive : Bool)

/-- the loop over the open list; the records before the current one are in `before` -/
def scan (a : OpenArgs) (before : List OpenData) (driver excl : Bool) : List OpenData → Scan
  | [] => .passed driver excl
  | r :: rs =>
    if r.has byDriver ∧ a.exactMatch r then .alreadyStarted
    else if ¬ r.has exclusive ∧ a.exactMatch r then
      .counted (before ++ { r with openCount := (r.openCount + 1) % 2^32 } :: rs)
    else scan a (before ++ [r]) (driver || r.has byDriver) (excl || r.has exclusive) rs

def Interface.addOpen (P : Interface) (r : OpenData) : Interface :=
  { P with openList := P.openList ++ [r], openListCount := P.openListCount + 1 }

/-- the end of `CoreOpenProtocol`: a new record, unless there is no image handle -/
def openRecord (imageHandle controllerHandle : Addr) (attributes : Nat) (p : Addr) (P : Interface) (e : Env)
    (db : Db) : Section :=
  let out := if attributes = testProtocol then none else some P.interface
  if imageHandle = 0 then finish ⟨none, out⟩ db
  else if ¬ e.openData then fail .outOfResources db
  else
    finish ⟨none, out⟩ (db.setProt p (some (P.addOpen ⟨imageHandle, controllerHandle, attributes, 1⟩)))

/-- the loop of `CoreOpenProtocol` that stops drivers, from the test for a driver on -/
def openExclusive (p imageHandle controllerHandle : Addr) (attributes : Nat)
    (h : attributes = exclusive ∨ attributes = byDriver + exclusive) (e : Env) (db : Db) : Section :=
  match db.prot p with
  | none => none
  | some P =>
    match P.openList.find? (·.has byDriver) with
    | some r => release (.opening p r.agentHandle imageHandle controllerHandle attributes h) db
    | none => openRecord imageHandle controllerHandle attributes p P e db

def openPassed (a : OpenArgs) (p : Addr) (P : Interface) (driver excl : Bool) (e : Env) (db : Db) : Section :=
  if a.attributes = byDriver then
    if excl ∨ driver then fail .accessDenied db
    else openRecord a.imageHandle a.controllerHandle a.attributes p P e db
  else if h : a.attributes = exclusive ∨ a.attributes = byDriver + exclusive then
    if excl then fail .accessDenied db
    else if driver then openExclusive p a.imageHandle a.controllerHandle a.attributes h e db
    else openRecord a.imageHandle a.controllerHandle a.attributes p P e db
  else openRecord a.imageHandle a.controllerHandle a.attributes p P e db

def coreOpenProtocol (a : OpenArgs) (e : Env) (db : Db) : Section :=
  match a.protocol with
  | none => fail .invalidParameter db
  | some g =>
    if a.attributes ≠ testProtocol ∧ ¬ a.interface then fail .invalidParameter db
    else if ¬ coreValidateHandle db a.userHandle then fail .invalidParameter db
    else if ¬ a.valid db then fail .invalidParameter db
    else
      match db.handle a.userHandle with
      | none => none
      | some H =>
        match coreGetProtocolInterface db H g with
        | none => finish ⟨some .unsupported, if a.attributes = testProtocol then none else some 0⟩ db
        | some p =>
          match db.prot p with
          | none => none
          | some P =>
            match scan a [] false false P.openList with
            | .alreadyStarted => finish ⟨some .alreadyStarted, some P.interface⟩ db
            | .counted l =>
              finish ⟨none, if a.attributes = testProtocol then none else some P.interface⟩
                (db.setProt p (some { P with openList := l }))
            | .passed driver excl => openPassed a p P driver excl e db

structure CloseArgs where
  userHandle : Addr
  protocol : Option Guid
  agentHandle : Addr
  controllerHandle : Addr

def CloseArgs.keeps (a : CloseArgs) (r : OpenData) : Bool :=
  ¬ (r.agentHandle = a.agentHandle ∧ r.controllerHandle = a.controllerHandle)

def Interface.filterOpen (P : Interface) (keep : OpenData → Bool) : Interface :=
  { P with
    openList := P.openList.filter keep
    openListCount := P.openListCount - (P.openList.filter fun r => !keep r).length }

def coreCloseProtocol (a : CloseArgs) (db : Db) : Section :=
  if ¬ coreValidateHandle db a.userHandle then fail .invalidParameter db
  else if ¬ coreValidateHandle db a.agentHandle then fail .invalidParameter db
  else if a.controllerHandle ≠ 0 ∧ ¬ coreValidateHandle db a.controllerHandle then fail .invalidParameter db
  else
    match a.protocol, db.handle a.userHandle with
    | none, _ => fail .invalidParameter db
    | some _, none => none
    | some g, some H =>
      match coreGetProtocolInterface db H g with
      | none => fail .notFound db
      | some p =>
        match db.prot p with
        | none => none
        | some P =>
          let st := if P.openList.all a.keeps then some Status.notFound else none
          finish ⟨st, none⟩ (db.setProt p (some (P.filterOpen a.keeps)))

/-! ## install -/

/-- the arguments of `CoreInstallProtocolInterfaceNotify`; `userHandle` is `none` for a `NULL` pointer and
`some 0` for a new handle; `native` says that the interface type is `EFI_NATIVE_INTERFACE` -/
structure InstallArgs where
  userHandle : Option Addr
  protocol : Option Guid
  native : Bool
  interface : Addr

def insertInterface (h : Addr) (H : IHandle) (g : Guid) (l : List Addr) (interface p : Addr) (db : Db) : Db :=
  ((db.setProt p (some ⟨h, g, interface, [], 0⟩)).setHandle h
    (some { H with protocols := p :: H.protocols })).setEntry g (l ++ [p])

/-- `CoreInstallProtocolInterfaceNotify` with the protocol entry found -/
def installAt (h : Addr) (g : Guid) (l : List Addr) (interface : Addr) (e : Env) (db : Db) : Section :=
  match e.newProt db with
  | none => fail .outOfResources db
  | some p =>
    if h = 0 then
      match e.newHandle db with
      | none => fail .outOfResources db
      | some h' =>
        let key := (db.gHandleDatabaseKey + 1) % 2^64
        finish ⟨none, some h'⟩ (insertInterface h' ⟨[], key⟩ g l interface p { db with gHandleDatabaseKey := key })
    else
      match db.handle h with
      | none => fail .invalidParameter db
      | some H => finish ⟨none, some h⟩ (insertInterface h H g l interface p db)

/-- `CoreInstallProtocolInterfaceNotify` from the lock on; `st` is the status so far -/
def installLocked (h : Addr) (g : Guid) (interface : Addr) (st : Status) (e : Env) (db : Db) : Section :=
  match db.entry g with
  | some l => installAt h g l interface e db
  | none => if e.entry then installAt h g [] interface e (db.setEntry g []) else fail st db

def coreHandleProtocol (h : Addr) (g : Guid) (e : Env) (db : Db) : Section :=
  coreOpenProtocol ⟨h, some g, true, db.gImageHandle, 0, byHandleProtocol⟩ e db

/-- `CoreInstallProtocolInterfaceNotify`; the lock is free between `CoreHandleProtocol` and the rest -/
def coreInstallProtocolInterface (a : InstallArgs) (e : Env) (db : Db) : Section :=
  match a.userHandle, a.protocol with
  | some h, some g =>
    if ¬ a.native then fail .invalidParameter db
    else if h = 0 then installLocked 0 g a.interface .outOfResources e db
    else
      match coreHandleProtocol h g e db with
      | some (.done ⟨some st, _⟩, db') => release (.install h g a.interface st) db'
      | some (_, db') => fail .invalidParameter db'
      | none => none
  | _, _ => fail .invalidParameter db

/-! ## uninstall -/

structure UninstallArgs where
  userHandle : Addr
  protocol : Option Guid
  interface : Addr

def freeHandle (h : Addr) (H : IHandle) (db : Db) : Db := db.setHandle h (if H.protocols = [] then none else some H)

def removeInterface (h : Addr) (H : IHandle) (p : Addr) (P : Interface) (db : Db) : Db :=
  let key := (db.gHandleDatabaseKey + 1) % 2^64
  let l := (db.entry P.protocol).getD []
  freeHandle h ⟨H.protocols.erase p, key⟩
    ((({ db with gHandleDatabaseKey := key }).setEntry P.protocol (l.erase p)).setProt p none)

/-- `CoreUninstallProtocolInterface` after the drivers were stopped, with
`CoreRemoveInterfaceFromProtocol` -/
def uninstallStopped (h : Addr) (g : Guid) (interface : Addr) (db : Db) : Section :=
  match db.handle h with
  | none => none
  | some H =>
    match coreFindProtocolInterface db H g interface with
    | none => finish (Result.error .notFound) (freeHandle h H db)
    | some p =>
      match db.prot p with
      | none => none
      | some P => finish Result.success (removeInterface h H p P db)

/-- a record that `CoreDisconnectControllersUsingProtocolInterface` leaves in place -/
def remains (r : OpenData) : Bool := ¬ r.has (byHandleProtocol + getProtocol + testProtocol)

/-- `CoreDisconnectControllersUsingProtocolInterface` from the test for a driver on -/
def disconnect (h : Addr) (g : Guid) (interface p : Addr) (db : Db) : Section :=
  match db.prot p with
  | none => none
  | some P =>
    match P.openList.find? (·.has byDriver) with
    | some r => release (.uninstall h g interface p r.agentHandle) db
    | none =>
      let db' := db.setProt p (some (P.filterOpen remains))
      if (P.filterOpen remains).openListCount > 0 then release .reconnect db'
      else uninstallStopped h g interface db'

def coreUninstallProtocolInterface (a : UninstallArgs) (db : Db) : Section :=
  match a.protocol with
  | none => fail .invalidParameter db
  | some g =>
    if ¬ coreValidateHandle db a.userHandle then fail .invalidParameter db
    else
      match db.handle a.userHandle with
      | none => none
      | some H =>
        match coreFindProtocolInterface db H g a.interface with
        | none => fail .notFound db
        | some p => disconnect a.userHandle g a.interface p db

/-! ## the sections -/

inductive Op where
  | install (a : InstallArgs)
  | uninstall (a : UninstallArgs)
  | openProtocol (a : OpenArgs)
  | closeProtocol (a : CloseArgs)

def start : Op → Env → Db → Section
  | .install a, e, db => coreInstallProtocolInterface a e db
  | .uninstall a, _, db => coreUninstallProtocolInterface a db
  | .openProtocol a, e, db => coreOpenProtocol a e db
  | .closeProtocol a, _, db => coreCloseProtocol a db

def resume : Pending → Env → Db → Section
  | .install h g i st, e, db => installLocked h g i st e db
  | .opening p _ image controller attributes h, e, db =>
    if e.disconnected then openExclusive p image controller attributes h e db else fail .accessDenied db
  | .uninstall h g i p _, e, db =>
    if e.disconnected then disconnect h g i p db else release .reconnect db
  | .reconnect, _, db => fail .accessDenied db

def machine : Machine Db Pending Op Env Result := ⟨start, resume⟩

end Audk.Hand
