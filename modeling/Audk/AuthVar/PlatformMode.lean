import Audk.AuthVar.Model

/-!
# The platform mode and `PK`

What a request on `PK` does to `PK`, to the platform mode and to `SetupMode`.

* `AppendsNothing`: the accepted appends of nothing for which `Del` is wrong;
* `platformMode_history`: a history of requests keeps `Sound` if and only if there is none of them.
-/

namespace Audk.AuthVar

open List Function Option

open SecureBoot (EfiTime)

variable {env : Env} {s s' : State} {v w : Var} {data : List UInt8} {a : Attributes} {t : Option EfiTime}
  {r : Request} {e : Entry}

/-! ## the variable driver -/

@[simp] lemma State.set_vars_same (o : Option Entry) : (s.set v o).vars v = o := update_self _ _ _

lemma State.set_vars_of_ne {o : Option Entry} (h : w ≠ v) : (s.set v o).vars w = s.vars w :=
  update_of_ne h _ _

lemma State.set_self : s.set v (s.vars v) = s := by
  unfold State.set
  rw [update_eq_self]

/-- the entry that is stored when `data` is written -/
def written (data : List UInt8) (a : Attributes) (old : Option Entry) (t : Option EfiTime) : Entry where
  attributes := { a with appendWrite := false }
  data := data
  timeStamp := storedTimeStamp a old t

lemma writeVariable_room {old : Option Entry} (hroom : env.room v = true) :
    writeVariable env v data a old t s = (none, s.set v (some (written data a old t))) := by
  unfold writeVariable
  rw [hroom]
  rfl

lemma updateVariable_exists {t : EfiTime} (hfind : find env s v = some e)
    (hwritable : (env.atRuntime && !e.attributes.nonVolatile) = false) (hacc : a.noAccess = false)
    (hroom : env.room v = true) : updateVariable env v data a (some t) s =
      if (!a.appendWrite && data.isEmpty) = true then (none, s.set v none)
      else if a.appendWrite = true then
        if env.maxDataSize < (e.data ++ data).length then (some .invalidParameter, s)
        else (none, s.set v (some (written (e.data ++ data) a (some e) (some t))))
      else (none, s.set v (some (written data a (some e) (some t)))) := by
  unfold updateVariable
  simp only [hfind, hwritable, hacc, Bool.or_false, reduceCtorEq, and_false, if_false, writeVariable_room hroom]

lemma updateVariable_missing (hfind : find env s v = none) (hroom : env.room v = true) :
    updateVariable env v data a t s =
      if (data.isEmpty && a.appendWrite) = true then (none, s)
      else if (data.isEmpty || a.noAccess) = true then (some .notFound, s)
      else if (env.atRuntime && !(a.runtimeAccess && a.nonVolatile)) = true then (some .invalidParameter, s)
      else (none, s.set v (some (written data a none t))) := by
  unfold updateVariable
  simp only [hfind, writeVariable_room hroom]

structure Touches (v : Var) (s s' : State) : Prop where
  mode : s'.mPlatformMode = s.mPlatformMode
  others : ∀ w, w ≠ v → s'.vars w = s.vars w

lemma Touches.refl (v : Var) (s : State) : Touches v s s := ⟨rfl, fun _ _ => rfl⟩

lemma Touches.set (v : Var) (o : Option Entry) (s : State) : Touches v s (s.set v o) :=
  ⟨rfl, fun _ hw => State.set_vars_of_ne hw⟩

lemma writeVariable_touches (old : Option Entry) : Touches v s (writeVariable env v data a old t s).2 := by
  unfold writeVariable
  split
  · exact .refl v s
  · exact .set v _ s

lemma updateVariable_touches : Touches v s (updateVariable env v data a t s).2 := by
  unfold updateVariable
  repeat' split
  all_goals first | exact .refl v s | exact .set v _ s | exact writeVariable_touches _

structure Keeps (s s' : State) : Prop where
  mode : s'.mPlatformMode = s.mPlatformMode
  pk : s'.vars .pk = s.vars .pk
  setupMode : s'.vars .setupMode = s.vars .setupMode

lemma Keeps.refl (s : State) : Keeps s s := ⟨rfl, rfl, rfl⟩

lemma Keeps.trans {s1 s2 s3 : State} (h : Keeps s1 s2) (h' : Keeps s2 s3) : Keeps s1 s3 :=
  ⟨h'.mode.trans h.mode, h'.pk.trans h.pk, h'.setupMode.trans h.setupMode⟩

lemma Touches.keeps (h : Touches v s s') (hpk : Var.pk ≠ v) (hsetup : Var.setupMode ≠ v) : Keeps s s' :=
  ⟨h.mode, h.others _ hpk, h.others _ hsetup⟩

lemma updateVariable_keeps (env : Env) (data : List UInt8) (a : Attributes) (t : Option EfiTime) (s : State)
    (hpk : Var.pk ≠ v) (hsetup : Var.setupMode ≠ v) : Keeps s (updateVariable env v data a t s).2 :=
  updateVariable_touches.keeps hpk hsetup

lemma keeps_of_updateVariable {o : Option Status} (h : updateVariable env v data a t s = (o, s'))
    (hpk : Var.pk ≠ v) (hsetup : Var.setupMode ≠ v) : Keeps s s' := by
  have hkeeps := updateVariable_keeps env data a t s hpk hsetup
  rwa [h] at hkeeps

/-! ## the vendor keys and the platform mode -/

lemma vendorKeyIsModified_keeps (env : Env) (s : State) : Keeps s (vendorKeyIsModified env s).2 := by
  have hmod : Keeps s { s with mVendorKeyModified := true } := ⟨rfl, rfl, rfl⟩
  unfold vendorKeyIsModified authServiceInternalUpdateVariable
  split
  · exact .refl s
  · split
    next e s1 h => exact hmod.trans (keeps_of_updateVariable h nofun nofun)
    next s1 h =>
      exact (hmod.trans (keeps_of_updateVariable h nofun nofun)).trans (updateVariable_keeps _ _ _ _ _ nofun nofun)

lemma updateVariable_fresh (s : State) (hrt : env.atRuntime = false) (hroom : env.room v = true)
    (hdata : data ≠ []) (hacc : a.noAccess = false) (happ : a.appendWrite = false) :
    (updateVariable env v data a none s).1 = none := by
  have hempty : data.isEmpty = false := List.isEmpty_eq_false_iff.mpr hdata
  unfold updateVariable
  simp only [hrt, hempty, hacc, happ, Bool.false_and, Bool.and_false, Bool.or_false, Bool.false_eq_true, if_false,
    writeVariable_room hroom]
  split
  · split
    · rfl
    · rfl
  · rfl

lemma vendorKeyIsModified_ok (hrt : env.atRuntime = false) (hroom : ∀ v, env.room v = true) :
    (vendorKeyIsModified env s).1 = none := by
  unfold vendorKeyIsModified authServiceInternalUpdateVariable
  split
  · rfl
  have hnv := updateVariable_fresh (v := .vendorKeysNv) (a := .nvBsAt) { s with mVendorKeyModified := true } hrt
    (hroom _) (cons_ne_nil 0 []) rfl rfl
  split
  next e s1 h =>
    rw [h] at hnv
    cases hnv
  next s1 h => exact updateVariable_fresh s1 hrt (hroom _) (cons_ne_nil _ _) rfl rfl

/-- what follows the change of the mode changes `SecureBoot` and `SecureBootEnable` only -/
lemma updatePlatformMode_keeps (mode : Mode) (hfind : find env s .setupMode = some e) :
    Keeps { s.set .setupMode (some { e with data := [mode.toByte] }) with mPlatformMode := mode }
      (updatePlatformMode env mode s).2 := by
  unfold updatePlatformMode authServiceInternalUpdateVariable
  simp only [hfind]
  split
  · exact .refl _
  split
  next status s1 h => exact keeps_of_updateVariable h nofun nofun
  next s1 h =>
    have hkeeps := keeps_of_updateVariable h nofun nofun
    split
    · exact hkeeps.trans (updateVariable_keeps _ _ _ _ _ nofun nofun)
    · split
      · exact hkeeps
      · exact hkeeps.trans (updateVariable_keeps _ _ _ _ _ nofun nofun)

/-! ## requests on `PK` -/

/-- the mode is `USER_MODE` exactly if `PK` exists, and `SetupMode` has the mode -/
structure Sound (s : State) : Prop where
  mode : s.mPlatformMode = .user ↔ (s.vars .pk).isSome = true
  setupMode : (s.vars .setupMode).map (·.data) = some [s.mPlatformMode.toByte]

/-- `SetupMode` is accessible at runtime, and `PK` has the attributes without which it is not written -/
structure Formed (s : State) : Prop where
  setupMode : ∃ e, s.vars .setupMode = some e ∧ e.attributes.runtimeAccess = true
  pk : ∀ e, s.vars .pk = some e → e.attributes.nonVolatile = true ∧ e.attributes.noAccess = false

/-- the request passes the checks of the service and of `ProcessVarWithPk` that do not depend on the mode -/
structure Admitted (env : Env) (r : Request) (s : State) : Prop where
  attributes : checkAttributes env r = none
  existing : checkExisting env r s = none
  nonVolatile : r.attributes.nonVolatile = true
  timeBased : r.attributes.timeBasedAuthenticatedWriteAccess = true

/-- what is true of the requests for which `Del` is wrong: nothing is appended to `PK`, in custom mode to one that
exists, and otherwise to one that does not and needs a signature of its own -/
def AppendsNothing (env : Env) (r : Request) (s : State) : Prop :=
  Admitted env r s ∧ r.payload = [] ∧ r.attributes.appendWrite = true ∧
    (((env.inCustomMode && env.userPhysicalPresent) = true ∧
        ∃ e, s.vars .pk = some e ∧ e.data.length ≤ env.maxDataSize) ∨
      ((env.inCustomMode && env.userPhysicalPresent) = false ∧ env.requireSelfSignedPk = true ∧ s.vars .pk = none ∧
        r.timeClean = true ∧ r.certTypeOk = true ∧ env.scratch = true ∧ env.verify .payload = true))

lemma find_of_checkExisting (hex : checkExisting env r s = none) : find env s r.var = s.vars r.var := by
  unfold checkExisting at hex
  unfold find
  cases hv : s.vars r.var with
  | none => rfl
  | some e =>
    simp only [hv] at hex
    have hrt : (!e.attributes.runtimeAccess && env.atRuntime) = false := by
      by_contra hne
      rw [if_pos (Bool.not_eq_false _ ▸ hne)] at hex
      cases hex
    cases hb : env.atRuntime
    · rfl
    · rw [hb, Bool.and_true] at hrt
      simpa using hrt

lemma attributes_of_checkExisting (hex : checkExisting env r s = none) (hv : s.vars r.var = some e) :
    r.attributes = .zero ∨ { r.attributes with appendWrite := false } = e.attributes := by
  unfold checkExisting at hex
  simp only [hv] at hex
  by_contra hne
  split at hex
  · cases hex
  · rw [if_pos (not_or.mp hne)] at hex
    cases hex

lemma Admitted.find_eq (h : Admitted env r s) : find env s r.var = s.vars r.var := find_of_checkExisting h.existing

lemma Admitted.attributes_eq (h : Admitted env r s) (hv : s.vars r.var = some e) :
    { r.attributes with appendWrite := false } = e.attributes := by
  refine (attributes_of_checkExisting h.existing hv).resolve_left fun hz => ?_
  have hnv := h.nonVolatile
  rw [hz] at hnv
  cases hnv

section Pk

variable (h : Admitted env r s) (hform : Formed s) (hpk : r.var = .pk) (hroom : ∀ v, env.room v = true)

include hpk in
lemma updateWithTimeStamp_eq :
    updateWithTimeStamp env r s = updateVariable env .pk r.payload r.attributes (some r.timeStamp) s := by
  unfold updateWithTimeStamp
  rw [hpk]
  cases find env s .pk with
  | none => rfl
  | some e => simp [isFiltered]

include h hform hpk hroom in
lemma updateWithTimeStamp_exists (hv : s.vars .pk = some e) :
    updateWithTimeStamp env r s =
      if (!r.attributes.appendWrite && r.payload.isEmpty) = true then (none, s.set .pk none)
      else if r.attributes.appendWrite = true then
        if env.maxDataSize < (e.data ++ r.payload).length then (some .invalidParameter, s)
        else (none, s.set .pk (some (written (e.data ++ r.payload) r.attributes (some e) (some r.timeStamp))))
      else (none, s.set .pk (some (written r.payload r.attributes (some e) (some r.timeStamp)))) := by
  obtain ⟨hnv, hacc⟩ := hform.pk e hv
  have hfind := h.find_eq
  rw [hpk, hv] at hfind
  have hsame := h.attributes_eq (hpk ▸ hv)
  rw [updateWithTimeStamp_eq hpk]
  refine updateVariable_exists hfind ?_ ?_ (hroom .pk)
  · rw [hnv, Bool.not_true, Bool.and_false]
  · rw [← hsame] at hacc
    exact hacc

include h hpk hroom in
lemma updateWithTimeStamp_missing (hv : s.vars .pk = none) :
    updateWithTimeStamp env r s =
      if (r.payload.isEmpty && r.attributes.appendWrite) = true then (none, s)
      else if (r.payload.isEmpty || r.attributes.noAccess) = true then (some .notFound, s)
      else if (env.atRuntime && !(r.attributes.runtimeAccess && r.attributes.nonVolatile)) = true then
        (some .invalidParameter, s)
      else (none, s.set .pk (some (written r.payload r.attributes none (some r.timeStamp)))) := by
  have hfind := h.find_eq
  rw [hpk, hv] at hfind
  rw [updateWithTimeStamp_eq hpk]
  exact updateVariable_missing hfind (hroom .pk)

/-- an accepted update of `PK` leaves a `PK` unless it is a deletion or the append of nothing to nothing -/
structure Updated (r : Request) (s : State) (o : Option Entry) : Prop where
  formed : ∀ e, o = some e → e.attributes.nonVolatile = true ∧ e.attributes.noAccess = false
  isSome : o.isSome = true ↔ r.payload ≠ [] ∨ r.attributes.appendWrite = true ∧ (s.vars .pk).isSome = true
  append : r.payload = [] → r.attributes.appendWrite = true ∨ (s.vars .pk).isSome = true

include h hform hpk hroom in
lemma updateWithTimeStamp_cases :
    (∃ st, updateWithTimeStamp env r s = (some st, s)) ∨
      ∃ o, updateWithTimeStamp env r s = (none, s.set .pk o) ∧ Updated r s o := by
  have hformed (data : List UInt8) (old : Option Entry) (hacc : r.attributes.noAccess = false) (e : Entry)
      (he : some (written data r.attributes old (some r.timeStamp)) = some e) :
      e.attributes.nonVolatile = true ∧ e.attributes.noAccess = false := by
    cases he
    exact ⟨h.nonVolatile, hacc⟩
  cases hv : s.vars .pk with
  | some e =>
    have hacc : r.attributes.noAccess = false := by
      have hacc := (hform.pk e hv).2
      rw [← h.attributes_eq (hpk ▸ hv)] at hacc
      exact hacc
    rw [updateWithTimeStamp_exists h hform hpk hroom hv]
    by_cases hdel : (!r.attributes.appendWrite && r.payload.isEmpty) = true
    · rw [if_pos hdel]
      simp only [Bool.and_eq_true, Bool.not_eq_true', List.isEmpty_iff] at hdel
      exact .inr ⟨none, rfl, nofun, by simp [hdel.1, hdel.2], fun _ => .inr (by simp [hv])⟩
    rw [if_neg hdel]
    simp only [Bool.and_eq_true, Bool.not_eq_true', List.isEmpty_iff, not_and] at hdel
    by_cases happ : r.attributes.appendWrite = true
    · rw [if_pos happ]
      by_cases hlong : env.maxDataSize < (e.data ++ r.payload).length
      · exact .inl ⟨_, if_pos hlong⟩
      · rw [if_neg hlong]
        exact .inr ⟨_, rfl, hformed _ _ hacc, by simp [happ, hv], fun _ => .inl happ⟩
    · rw [if_neg happ]
      have hne : r.payload ≠ [] := fun hnil => hdel (Bool.not_eq_true _ ▸ happ) hnil
      exact .inr ⟨_, rfl, hformed _ _ hacc, by simp [hne], fun hnil => absurd hnil hne⟩
  | none =>
    rw [updateWithTimeStamp_missing h hpk hroom hv]
    by_cases hnone : (r.payload.isEmpty && r.attributes.appendWrite) = true
    · rw [if_pos hnone]
      simp only [Bool.and_eq_true, List.isEmpty_iff] at hnone
      refine .inr ⟨none, ?_, nofun, by simp [hnone.1, hv], fun _ => .inl hnone.2⟩
      rw [← hv, State.set_self]
    rw [if_neg hnone]
    by_cases hfound : (r.payload.isEmpty || r.attributes.noAccess) = true
    · exact .inl ⟨_, if_pos hfound⟩
    rw [if_neg hfound]
    simp only [Bool.or_eq_true, List.isEmpty_iff, not_or, Bool.not_eq_true] at hfound
    by_cases hrt : (env.atRuntime && !(r.attributes.runtimeAccess && r.attributes.nonVolatile)) = true
    · exact .inl ⟨_, if_pos hrt⟩
    · rw [if_neg hrt]
      exact .inr ⟨_, rfl, hformed _ _ hfound.2, by simp [hfound.1], fun hnil => absurd hnil hfound.1⟩

include h hform hpk hroom in
/-- nothing can be appended exactly to a `PK` of an allowed size, or to none -/
lemma updateWithTimeStamp_nothing (hnil : r.payload = []) (happ : r.attributes.appendWrite = true) :
    (updateWithTimeStamp env r s).1 = none ↔ ∀ e, s.vars .pk = some e → e.data.length ≤ env.maxDataSize := by
  cases hv : s.vars .pk with
  | some e =>
    rw [updateWithTimeStamp_exists h hform hpk hroom hv]
    by_cases hlong : env.maxDataSize < e.data.length
    · simp [hnil, happ, hlong]
    · simp [hnil, happ, hlong, Nat.not_lt.mp hlong]
  | none =>
    rw [updateWithTimeStamp_missing h hpk hroom hv]
    simp [hnil, happ]

/-! ## `ProcessVarWithPk` -/

/-- `Del`: in custom mode and in setup mode for every empty payload, otherwise for the deletion of a `PK` -/
def Deletes (env : Env) (r : Request) (s : State) : Prop :=
  r.payload = [] ∧
    (withoutSignature env true s = true ∨ (s.vars .pk).isSome = true ∧ r.attributes.appendWrite = false)

include h hform hpk hroom in
lemma verifyTimeBasedPayloadAndUpdate_cases {type : AuthVarType} (htype : type ≠ .priv) :
    (∃ st, verifyTimeBasedPayloadAndUpdate env r type s = (some st, false, s)) ∨
      ∃ o del, verifyTimeBasedPayloadAndUpdate env r type s = (none, del, s.set .pk o) ∧ Updated r s o ∧
        (del = true ↔ r.payload = [] ∧ (s.vars .pk).isSome = true ∧ r.attributes.appendWrite = false) := by
  unfold verifyTimeBasedPayloadAndUpdate
  have hfind := h.find_eq
  rw [hpk] at hfind
  rw [hpk, hfind]
  split
  · exact .inl ⟨_, rfl⟩
  rcases updateWithTimeStamp_cases h hform hpk hroom with ⟨st, hup⟩ | ⟨o, hup, hupd⟩
  · refine .inl ⟨st, ?_⟩
    simp only [hup, reduceCtorEq, decide_false, Bool.and_false, Bool.false_eq_true, if_false]
  · refine .inr ⟨o, (s.vars .pk).isSome && r.payload.isEmpty && !r.attributes.appendWrite, ?_, hupd, ?_⟩
    · simp only [hup, htype, decide_false, Bool.and_false, Bool.false_eq_true, if_false,
        decide_true, Bool.and_true]
    · simp only [Bool.and_eq_true, List.isEmpty_iff, Bool.not_eq_true', and_assoc, and_left_comm]

lemma atRuntime_of_vendorKey (hw : withoutSignature env true s = true)
    (hvendor : s.mPlatformMode ≠ .setup ∨ (env.requireSelfSignedPk && true) = true) : env.atRuntime = false := by
  unfold withoutSignature Env.inCustomMode at hw
  simp only [Bool.or_eq_true, Bool.and_eq_true, Bool.not_eq_true', decide_eq_true_eq, Bool.and_true] at hw hvendor
  rcases hw with hw | hw
  · exact hw.1.2
  · rcases hvendor with hmode | hself
    · exact absurd hw.1 hmode
    · rw [hself] at hw
      exact absurd hw.2 (by decide)

include h hform hpk hroom in
lemma updateWithPk_cases :
    (∃ st del, updateWithPk env r true s = (some st, del, s)) ∨
      ∃ o del s', updateWithPk env r true s = (none, del, s') ∧ Keeps (s.set .pk o) s' ∧ Updated r s o ∧
        (del = true ↔ Deletes env r s) := by
  unfold updateWithPk
  split
  next hw =>
    have hdel : r.payload.isEmpty = true ↔ Deletes env r s := by
      simp [Deletes, hw]
    split
    · exact .inl ⟨_, _, rfl⟩
    rcases updateWithTimeStamp_cases h hform hpk hroom with ⟨st, hup⟩ | ⟨o, hup, hupd⟩
    · exact .inl ⟨st, _, by rw [hup]⟩
    · simp only [hup]
      by_cases hvendor : (s.set .pk o).mPlatformMode ≠ .setup ∨ (env.requireSelfSignedPk && true) = true
      · refine .inr ⟨o, _, _, ?_, vendorKeyIsModified_keeps env _, hupd, hdel⟩
        rw [if_pos hvendor, vendorKeyIsModified_ok (atRuntime_of_vendorKey hw hvendor) hroom]
      · exact .inr ⟨o, _, _, if_neg hvendor, .refl _, hupd, hdel⟩
  next hw =>
    have hcases {type : AuthVarType} (htype : type ≠ .priv) :
        (∃ st del, verifyTimeBasedPayloadAndUpdate env r type s = (some st, del, s)) ∨
          ∃ o del s', verifyTimeBasedPayloadAndUpdate env r type s = (none, del, s') ∧ Keeps (s.set .pk o) s' ∧
            Updated r s o ∧ (del = true ↔ Deletes env r s) := by
      rcases verifyTimeBasedPayloadAndUpdate_cases h hform hpk hroom htype with ⟨st, heq⟩ | ⟨o, del, heq, hupd, hdel⟩
      · exact .inl ⟨st, _, heq⟩
      · refine .inr ⟨o, del, _, heq, .refl _, hupd, hdel.trans ?_⟩
        simp [Deletes, hw]
    split
    · exact hcases nofun
    · exact hcases nofun

lemma verifyTimeBasedPayload_nothing (hnil : r.payload = []) (happ : r.attributes.appendWrite = true)
    (o : Option EfiTime) : verifyTimeBasedPayload env r .payload o s = none ↔
      r.timeClean = true ∧ r.certTypeOk = true ∧ env.scratch = true ∧ env.verify .payload = true := by
  unfold verifyTimeBasedPayload verifySignature Request.unverified Env.checkSignatureListFormat
  cases r.timeClean <;> cases r.certTypeOk <;> cases env.scratch <;> cases env.verify .payload <;> simp [hnil, happ]

include h hform hpk hroom in
/-- without signatures, an append of nothing is accepted if the size of `PK` is allowed -/
lemma updateWithPk_nothing (hw : withoutSignature env true s = true) (hnil : r.payload = [])
    (happ : r.attributes.appendWrite = true) :
    (updateWithPk env r true s).1 = none ↔ ∀ e, s.vars .pk = some e → e.data.length ≤ env.maxDataSize := by
  rw [← updateWithTimeStamp_nothing h hform hpk hroom hnil happ]
  have hformat : env.checkSignatureListFormat r.payload = none := by
    rw [hnil]
    rfl
  unfold updateWithPk
  simp only [if_pos hw, hformat]
  rcases updateWithTimeStamp_cases h hform hpk hroom with ⟨st, hup⟩ | ⟨o, hup, -⟩
  · simp only [hup]
  · simp only [hup, iff_true]
    by_cases hvendor : (s.set .pk o).mPlatformMode ≠ .setup ∨ (env.requireSelfSignedPk && true) = true
    · rw [if_pos hvendor, vendorKeyIsModified_ok (atRuntime_of_vendorKey hw hvendor) hroom]
    · rw [if_neg hvendor]

include h hform hpk hroom in
lemma updateWithPk_nothing_signed (hw : withoutSignature env true s = false) (hv : s.vars .pk = none)
    (hmode : s.mPlatformMode = .setup) (hnil : r.payload = []) (happ : r.attributes.appendWrite = true) :
    (updateWithPk env r true s).1 = none ↔
      r.timeClean = true ∧ r.certTypeOk = true ∧ env.scratch = true ∧ env.verify .payload = true := by
  have hup : (updateWithTimeStamp env r s).1 = none := by
    rw [updateWithTimeStamp_nothing h hform hpk hroom hnil happ, hv]
    exact nofun
  rw [← verifyTimeBasedPayload_nothing (s := s) hnil happ ((find env s r.var).map (·.timeStamp))]
  unfold updateWithPk verifyTimeBasedPayloadAndUpdate
  simp only [hw, hmode, Bool.false_eq_true, if_false, reduceCtorEq, decide_false, Bool.and_false, Bool.false_and]
  cases verifyTimeBasedPayload env r .payload ((find env s r.var).map (·.timeStamp)) s with
  | some e => simp
  | none => simpa using hup

lemma updatePlatformMode_mode (env : Env) (he : s.vars .setupMode = some e)
    (hrt : e.attributes.runtimeAccess = true) (mode : Mode) : (updatePlatformMode env mode s).2.mPlatformMode = mode ∧
      (updatePlatformMode env mode s).2.vars .pk = s.vars .pk ∧
      ∃ e, (updatePlatformMode env mode s).2.vars .setupMode = some e ∧ e.attributes.runtimeAccess = true ∧
        e.data = [mode.toByte] := by
  have hfind : find env s .setupMode = some e := by
    unfold find
    rw [he, Option.filter_some, hrt, Bool.or_true, if_pos rfl]
  have hkeeps := updatePlatformMode_keeps mode hfind
  have hpk : (s.set .setupMode (some { e with data := [mode.toByte] })).vars .pk = s.vars .pk :=
    State.set_vars_of_ne nofun
  refine ⟨hkeeps.mode, hkeeps.pk.trans hpk,
    { e with data := [mode.toByte] }, hkeeps.setupMode.trans (State.set_vars_same (s := s) (v := .setupMode) _),
    hrt, rfl⟩

/-- **the mode after an accepted update of `PK`** is `USER_MODE` exactly if `Del` is false -/
theorem processVarWithPk_mode {o : Option Entry} {del : Bool} {s1 : State} (hform : Formed s) (hsound : Sound s)
    (hnv : r.attributes.nonVolatile = true) (htb : r.attributes.timeBasedAuthenticatedWriteAccess = true)
    (hup : updateWithPk env r true s = (none, del, s1)) (hkeeps : Keeps (s.set .pk o) s1) :
    ((processVarWithPk env r true s).2.mPlatformMode = .user ↔ del = false) ∧
      (processVarWithPk env r true s).2.vars .pk = o ∧
      ∃ e, (processVarWithPk env r true s).2.vars .setupMode = some e ∧ e.attributes.runtimeAccess = true ∧
        e.data = [(processVarWithPk env r true s).2.mPlatformMode.toByte] := by
  obtain ⟨e, he, hrt⟩ := hform.setupMode
  have hpk1 : s1.vars .pk = o := hkeeps.pk.trans (State.set_vars_same _)
  have hsetup1 : s1.vars .setupMode = some e :=
    hkeeps.setupMode.trans ((State.set_vars_of_ne (w := .setupMode) (v := .pk) nofun).trans he)
  have hmode1 : s1.mPlatformMode = s.mPlatformMode := hkeeps.mode
  have hdata : e.data = [s1.mPlatformMode.toByte] := by
    have hdata := hsound.setupMode
    rw [he, Option.map_some, Option.some_inj] at hdata
    rw [hmode1, hdata]
  have hswitch (mode : Mode) := updatePlatformMode_mode env hsetup1 hrt mode
  unfold processVarWithPk
  rw [if_neg (by simp [hnv, htb])]
  simp only [hup, Bool.true_eq_false, if_false]
  cases hm : s1.mPlatformMode <;> cases del
  · obtain ⟨hmode, hpk, hset⟩ := hswitch .user
    simp only [and_self, if_true]
    exact ⟨by simp [hmode], hpk.trans hpk1, by rw [hmode]; exact hset⟩
  · simp only [hm, reduceCtorEq, Bool.true_eq_false, and_false, and_true, if_false]
    exact ⟨by simp, hpk1, e, hsetup1, hrt, hm ▸ hdata⟩
  · simp only [hm, reduceCtorEq, Bool.false_eq_true, and_false, and_true, if_false]
    exact ⟨by simp, hpk1, e, hsetup1, hrt, hm ▸ hdata⟩
  · obtain ⟨hmode, hpk, hset⟩ := hswitch .setup
    simp only [reduceCtorEq, and_self, Bool.true_eq_false, if_false, if_true]
    exact ⟨by simp [hmode], hpk.trans hpk1, by rw [hmode]; exact hset⟩

include h hform hpk hroom in
/-- an accepted update is one for which `Del` is wrong exactly if it appends nothing -/
lemma deletes_iff (hsound : Sound s) {o : Option Entry} (hupd : Updated r s o)
    (hok : (updateWithPk env r true s).1 = none) :
    (¬ Deletes env r s ↔ o.isSome = true) ↔ ¬ AppendsNothing env r s := by
  have hcustom : (env.inCustomMode && env.userPhysicalPresent) = true → withoutSignature env true s = true := by
    intro hc
    rw [withoutSignature, hc, Bool.true_or]
  rw [hupd.isSome]
  unfold Deletes AppendsNothing
  by_cases hnil : r.payload = []
  swap
  · simp [hnil]
  cases hw : withoutSignature env true s with
  | true =>
    -- the mode is not `SETUP_MODE` if there is a `PK`, so the reason is the custom mode
    cases hv : s.vars .pk with
    | none =>
      have hself (hc : (env.inCustomMode && env.userPhysicalPresent) = false) : env.requireSelfSignedPk = false := by
        rw [withoutSignature, hc, Bool.false_or] at hw
        simp only [Bool.and_true, Bool.and_eq_true, Bool.not_eq_true'] at hw
        exact hw.2
      simp only [hnil, true_and, true_or, not_true_eq_false, ne_eq, false_or, Option.isSome_none, Bool.false_eq_true,
        and_false, iff_self, true_iff, reduceCtorEq, false_and, exists_false]
      intro ⟨_, _, hc, hreq, _⟩
      rw [hself hc] at hreq
      cases hreq
    | some e =>
      have hc : (env.inCustomMode && env.userPhysicalPresent) = true := by
        have hmode : s.mPlatformMode = .user := hsound.mode.mpr (by rw [hv]; rfl)
        rw [withoutSignature, hmode] at hw
        simpa using hw
      by_cases happ : r.attributes.appendWrite = true
      · have hsize := (updateWithPk_nothing h hform hpk hroom hw hnil happ).mp hok e hv
        simp [hnil, happ, hc, hsize, h]
      · simp [hnil, happ]
  | false =>
    have hc : (env.inCustomMode && env.userPhysicalPresent) = false := by
      by_contra hc
      rw [hcustom (Bool.not_eq_false _ ▸ hc)] at hw
      cases hw
    cases hv : s.vars .pk with
    | none =>
      have hmode : s.mPlatformMode = .setup := by
        cases hm : s.mPlatformMode with
        | setup => rfl
        | user => exact absurd (hsound.mode.mp hm) (by simp [hv])
      have happ : r.attributes.appendWrite = true := by
        refine (hupd.append hnil).resolve_right ?_
        simp [hv]
      have hself : env.requireSelfSignedPk = true := by
        rw [withoutSignature, hc, hmode] at hw
        simpa using hw
      have hsigned := (updateWithPk_nothing_signed h hform hpk hroom hw hv hmode hnil happ).mp hok
      simp [hnil, happ, hc, hself, hsigned, h]
    | some e => simp [hnil, hc]

/-- **a request that is admitted**: the mode stays sound exactly if it does not append nothing -/
theorem processVarWithPk_sound (hsound : Sound s) (h : Admitted env r s) (hform : Formed s) (hpk : r.var = .pk)
    (hroom : ∀ v, env.room v = true) : Formed (processVarWithPk env r true s).2 ∧
      (Sound (processVarWithPk env r true s).2 ↔ ¬ AppendsNothing env r s) := by
  rcases updateWithPk_cases h hform hpk hroom with ⟨st, del, hup⟩ | ⟨o, del, s1, hup, hkeeps, hupd, hdel⟩
  · have hsame : (processVarWithPk env r true s).2 = s := by
      unfold processVarWithPk
      rw [if_neg (by simp [h.nonVolatile, h.timeBased])]
      simp only [hup]
    rw [hsame]
    refine ⟨hform, iff_of_true hsound ?_⟩
    intro ⟨_, hnil, happ, hor⟩
    have hrej : (updateWithPk env r true s).1 ≠ none := by
      rw [hup]
      exact nofun
    rcases hor with ⟨hc, e, hv, hsize⟩ | ⟨hc, hself, hv, hsigned⟩
    · have hw : withoutSignature env true s = true := by rw [withoutSignature, hc, Bool.true_or]
      refine hrej ((updateWithPk_nothing h hform hpk hroom hw hnil happ).mpr ?_)
      intro e' he'
      rw [hv, some_inj] at he'
      exact he' ▸ hsize
    · have hw : withoutSignature env true s = false := by
        simp [withoutSignature, hc, hself]
      have hmode : s.mPlatformMode = .setup := by
        cases hm : s.mPlatformMode with
        | setup => rfl
        | user => exact absurd (hsound.mode.mp hm) (by simp [hv])
      exact hrej ((updateWithPk_nothing_signed h hform hpk hroom hw hv hmode hnil happ).mpr hsigned)
  · obtain ⟨hmode, hpk', e, he, hrt, hdata⟩ := processVarWithPk_mode hform hsound h.nonVolatile h.timeBased hup hkeeps
    refine ⟨⟨⟨e, he, hrt⟩, ?_⟩, ?_⟩
    · rw [hpk']
      exact hupd.formed
    · rw [← deletes_iff h hform hpk hroom hsound hupd (by rw [hup]), ← hdel, ← hpk', Bool.not_eq_true, ← hmode]
      constructor
      · exact Sound.mode
      · intro hiff
        exact ⟨hiff, by rw [he, map_some, hdata]⟩

end Pk

/-! ## histories -/

/-- a request is not admitted and changes nothing, or `ProcessVarWithPk` runs -/
lemma variableServiceSetVariable_pk (env : Env) (s : State) (hpk : r.var = .pk) :
    (¬ Admitted env r s ∧ (variableServiceSetVariable env r s).2 = s) ∨
      (Admitted env r s ∧ variableServiceSetVariable env r s = processVarWithPk env r true s) := by
  unfold variableServiceSetVariable authVariableLibProcessVariable
  cases hattr : checkAttributes env r with
  | some e => exact .inl ⟨fun h => (nomatch hattr.symm.trans h.attributes), rfl⟩
  | none =>
    cases hex : checkExisting env r s with
    | some e => exact .inl ⟨fun h => (nomatch hex.symm.trans h.existing), rfl⟩
    | none =>
      simp only [hpk]
      by_cases hreq : r.attributes.nonVolatile = false ∨ r.attributes.timeBasedAuthenticatedWriteAccess = false
      · refine .inl ⟨fun h => ?_, ?_⟩
        · simp [h.nonVolatile, h.timeBased] at hreq
        · unfold processVarWithPk
          rw [if_pos hreq]
      · simp only [not_or, Bool.not_eq_false] at hreq
        exact .inr ⟨⟨hattr, hex, hreq.1, hreq.2⟩, trivial⟩

lemma variableServiceSetVariable_sound (hform : Formed s) (hsound : Sound s) (hpk : r.var = .pk)
    (hroom : ∀ v, env.room v = true) : Formed (variableServiceSetVariable env r s).2 ∧
      (Sound (variableServiceSetVariable env r s).2 ↔ ¬ AppendsNothing env r s) := by
  rcases variableServiceSetVariable_pk env s hpk with ⟨hnot, hsame⟩ | ⟨hadm, heq⟩
  · rw [hsame]
    exact ⟨hform, iff_of_true hsound fun h => hnot h.1⟩
  · rw [heq]
    exact processVarWithPk_sound hsound hadm hform hpk hroom

def AllSound : List (Env × Request) → State → Prop
  | [], _ => True
  | (env, r) :: calls, s =>
    Sound (variableServiceSetVariable env r s).2 ∧ AllSound calls (variableServiceSetVariable env r s).2

def AllFine : List (Env × Request) → State → Prop
  | [], _ => True
  | (env, r) :: calls, s => ¬ AppendsNothing env r s ∧ AllFine calls (variableServiceSetVariable env r s).2

/-- **the platform mode over a history**: if the store has room, then after each request on `PK` the mode is
`USER_MODE` exactly if `PK` exists, and `SetupMode` has it, if and only if no accepted request appends nothing to
a `PK` in custom mode, or in setup mode with a signature of its own -/
theorem platformMode_history (calls : List (Env × Request)) (hpk : ∀ c ∈ calls, c.2.var = .pk)
    (hroom : ∀ c ∈ calls, ∀ v, c.1.room v = true) (s : State) (hform : Formed s) (hsound : Sound s) :
    AllSound calls s ↔ AllFine calls s := by
  induction calls generalizing s with
  | nil => exact Iff.rfl
  | cons c calls ih =>
    obtain ⟨hform', hiff⟩ := variableServiceSetVariable_sound hform hsound (hpk c mem_cons_self)
      (hroom c mem_cons_self)
    have hrest (hsound' : Sound (variableServiceSetVariable c.1 c.2 s).2) :=
      ih (fun c hc => hpk c (mem_cons_of_mem _ hc)) (fun c hc => hroom c (mem_cons_of_mem _ hc)) _ hform'
        hsound'
    constructor
    · intro ⟨hs, hall⟩
      exact ⟨hiff.mp hs, (hrest hs).mp hall⟩
    · intro ⟨hfine, hall⟩
      have hs := hiff.mpr hfine
      exact ⟨hs, (hrest hs).mpr hall⟩

/-! ## the two requests -/

/-- boot services, physical presence, custom mode, all checks succeed -/
def presentEnv : Env where
  atRuntime := false
  customMode := true
  userPhysicalPresent := true
  requireSelfSignedPk := false
  variablePolicyEnabled := true
  hwErrStorage := true
  scratch := true
  checks := none
  formatOk := true
  verify := fun _ => true
  deleteCerts := none
  room := fun _ => true
  maxDataSize := 100
  filter := fun _ data => data

/-- a request with the attributes of `PK`, and with the append attribute -/
def pkRequest (append : Bool) (payload : List UInt8) : Request where
  var := .pk
  attributes := ⟨true, true, true, false, false, true, append, false⟩
  sane := true
  timeStamp := ⟨2020, 1, 1, 0, 0, 0⟩
  timeClean := true
  certTypeOk := true
  payload := payload

/-- setup mode, with `SetupMode` only -/
def setupState : State where
  vars := fun v => if v = .setupMode then some ⟨.bsRt, [1], ⟨0, 0, 0, 0, 0, 0⟩⟩ else none
  mPlatformMode := .setup
  mVendorKeyModified := false

/-- after `PK` was enrolled in custom mode, appending nothing to it switches to setup mode and leaves `PK`; and if
`PK` must be signed by itself, appending nothing switches to user mode without `PK` -/
theorem emptyAppend_switches :
    (∃ s, (variableServiceSetVariable presentEnv (pkRequest false [7]) setupState).2 = s ∧
      s.mPlatformMode = .user ∧ (s.vars .pk).isSome = true ∧
      (variableServiceSetVariable presentEnv (pkRequest true []) s).2.mPlatformMode = .setup ∧
      ((variableServiceSetVariable presentEnv (pkRequest true []) s).2.vars .pk).isSome = true) ∧
    ∃ s, (variableServiceSetVariable { presentEnv with customMode := false, requireSelfSignedPk := true }
        (pkRequest true []) setupState).2 = s ∧
      s.mPlatformMode = .user ∧ (s.vars .pk).isSome = false := by
  exact ⟨⟨_, rfl, by decide +kernel⟩, _, rfl, by decide +kernel⟩

lemma formed_setupState : Formed setupState := ⟨⟨⟨.bsRt, [1], ⟨0, 0, 0, 0, 0, 0⟩⟩, rfl, rfl⟩, fun _ he => nomatch he⟩

lemma sound_setupState : Sound setupState := ⟨⟨nofun, nofun⟩, rfl⟩

theorem enrollAndDelete_history :
    AllFine [(presentEnv, pkRequest false [7]), (presentEnv, pkRequest false [])] setupState ∧
      AllSound [(presentEnv, pkRequest false [7]), (presentEnv, pkRequest false [])] setupState := by
  have hfine : AllFine [(presentEnv, pkRequest false [7]), (presentEnv, pkRequest false [])] setupState :=
    ⟨fun h => (nomatch h.2.2.1), fun h => (nomatch h.2.2.1), trivial⟩
  refine ⟨hfine, (platformMode_history _ ?_ ?_ _ formed_setupState sound_setupState).mpr hfine⟩
  · intro c hc
    rcases mem_cons.mp hc with rfl | hc
    · rfl
    · rw [mem_singleton.mp hc]
      rfl
  · intro c hc
    rcases mem_cons.mp hc with rfl | hc
    · exact fun _ => rfl
    · rw [mem_singleton.mp hc]
      exact fun _ => rfl

end Audk.AuthVar
