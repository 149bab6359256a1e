import Audk.AuthVar.PlatformMode
import Audk.SecureBoot.Soundness

/-!
# No rollback of authenticated variables

What a request in user mode, outside custom mode, does to a time-based authenticated variable that exists.

* `setVariable_guarded`: one request;
* `rollback_history`: a history of requests, for as long as the variable exists;
* `platformKey_needed`: a history of requests on all variables, without the platform key.
-/

namespace Audk.AuthVar

open List

open SecureBoot (EfiTime LexLe isValidSignatureByTimestamp isValidSignatureByTimestamp_iff)

variable {env : Env} {s s' : State} {v : Var} {data : List UInt8} {a : Attributes} {t : Option EfiTime}
  {r : Request} {e : Entry}

/-! ## time stamps -/

def Later (a b : EfiTime) : Prop := LexLe a.key b.key ∧ a.key ≠ b.key

lemma lexLe_self (as : List Nat) : LexLe as as := by
  induction as with
  | nil => rfl
  | cons a as ih => exact .inr ⟨rfl, ih⟩

lemma lexLe_total {as bs : List Nat} (hlen : as.length = bs.length) (h : ¬ LexLe as bs) : LexLe bs as ∧ bs ≠ as := by
  induction as generalizing bs with
  | nil => exact absurd (length_eq_zero_iff.mp hlen.symm).symm h
  | cons a as ih =>
    cases bs with
    | nil => cases hlen
    | cons b bs =>
      rcases Nat.lt_trichotomy a b with hlt | rfl | hgt
      · exact absurd (.inl hlt) h
      · obtain ⟨hle, hne⟩ := ih (Nat.succ_inj.mp hlen) fun hle => h (.inr ⟨rfl, hle⟩)
        exact ⟨.inr ⟨rfl, hle⟩, fun heq => hne (List.cons.inj heq).2⟩
      · exact ⟨.inl hgt, fun heq => absurd (List.cons.inj heq).1 (Nat.ne_of_lt hgt)⟩

lemma later_of_compare {a b : EfiTime} (h : authServiceInternalCompareTimeStamp a b = false) : Later b a := by
  refine lexLe_total rfl fun hle => ?_
  have htrue := (isValidSignatureByTimestamp_iff a b).mpr hle
  rw [authServiceInternalCompareTimeStamp, htrue] at h
  cases h

lemma lexLe_storedTimeStamp {t : EfiTime} (hat : a.timeBasedAuthenticatedWriteAccess = true)
    (hlater : a.appendWrite = false → Later e.timeStamp t) :
    LexLe e.timeStamp.key (storedTimeStamp a (some e) (some t)).key := by
  unfold storedTimeStamp
  simp only [hat]
  split
  next happ => exact (hlater happ).1
  next =>
    split
    next hle => exact (isValidSignatureByTimestamp_iff _ _).mp hle
    next => exact lexLe_self _

/-! ## what a request may do -/

/-- the signature checks that admit a change of a variable -/
def signers : Var → List AuthVarType
  | .pk | .kek => [.pk]
  | .db | .dbx | .dbt => [.pk, .kek]
  | _ => [.priv]

def isPrivate : Var → Bool
  | .pk | .kek | .db | .dbx | .dbt => false
  | _ => true

def Request.IsDeletion (r : Request) : Prop := r.payload = [] ∧ r.attributes.appendWrite = false

/-- a deletion that needs no signature -/
def Exempt (env : Env) (r : Request) : Prop :=
  r.IsDeletion ∧ (env.variablePolicyEnabled = false ∨ isPrivate r.var = true ∧ env.userPhysicalPresent = true)

/-- what follows a deletion fails: the platform mode or the certificates -/
def FollowUpFails (env : Env) (r : Request) (s : State) : Prop :=
  (r.var = .pk ∧ ((∃ w, env.room w = false) ∨ find env s .setupMode = none)) ∨
    (isPrivate r.var = true ∧ env.deleteCerts ≠ none)

/-- what the request `r` did to its variable, of which `e` was the entry -/
structure Guarded (env : Env) (r : Request) (s : State) (e : Entry) (result : Option Status × State) : Prop where
  later : result.1 = none → r.attributes.appendWrite = false →
    Later e.timeStamp r.timeStamp ∨ (isPrivate r.var = true ∧ Exempt env r)
  monotone : ∀ e', result.2.vars r.var = some e' → LexLe e.timeStamp.key e'.timeStamp.key
  signed : (result.2.vars r.var).map (·.data) ≠ some e.data →
    (∃ type ∈ signers r.var, verifySignature env s type = none) ∨ Exempt env r
  rejected : result.1 ≠ none → result.2.vars r.var = some e ∨ (r.IsDeletion ∧ FollowUpFails env r s)
  attributes : ∀ e', result.2.vars r.var = some e' → e'.attributes = e.attributes

lemma Guarded.error (hv : s.vars r.var = some e) (status : Status) : Guarded env r s e (some status, s) where
  later := nofun
  monotone := fun e' he' => by
    rw [hv, Option.some_inj] at he'
    exact he' ▸ lexLe_self _
  signed := fun hne => absurd (by rw [hv]; rfl) hne
  rejected := fun _ => .inl hv
  attributes := fun e' he' => by
    rw [hv, Option.some_inj] at he'
    rw [he']

/-- what follows the update leaves the variable as it is, and fails as `FollowUpFails` says -/
lemma Guarded.followUp (h : Guarded env r s e (none, s')) {result : Option Status × State}
    (hsame : result.2.vars r.var = s'.vars r.var)
    (hfails : result.1 ≠ none → r.IsDeletion ∧ FollowUpFails env r s) : Guarded env r s e result where
  later := fun _ => h.later rfl
  monotone := by
    rw [hsame]
    exact h.monotone
  signed := by
    rw [hsame]
    exact h.signed
  rejected := fun hne => .inr (hfails hne)
  attributes := by
    rw [hsame]
    exact h.attributes

/-! ## the update -/

lemma writeVariable_cases (env : Env) (v : Var) (data : List UInt8) (a : Attributes) (old : Option Entry)
    (t : Option EfiTime) (s : State) : (∃ st, writeVariable env v data a old t s = (some st, s)) ∨
      writeVariable env v data a old t s = (none, s.set v (some (written data a old t))) := by
  unfold writeVariable
  split
  · exact .inl ⟨_, rfl⟩
  · exact .inr rfl

lemma updateVariable_cases {t : EfiTime} (hfind : find env s v = some e) :
    (∃ st, updateVariable env v data a (some t) s = (some st, s)) ∨
      updateVariable env v data a (some t) s = (none, s.set v none) ∨
      ∃ d, updateVariable env v data a (some t) s = (none, s.set v (some (written d a (some e) (some t)))) := by
  unfold updateVariable
  simp only [hfind, reduceCtorEq, and_false, if_false]
  split
  · exact .inl ⟨_, rfl⟩
  split
  · exact .inr (.inl rfl)
  · split
    · split
      · exact .inl ⟨_, rfl⟩
      · exact (writeVariable_cases _ _ _ _ _ _ _).imp id fun h => .inr ⟨_, h⟩
    · exact (writeVariable_cases _ _ _ _ _ _ _).imp id fun h => .inr ⟨_, h⟩

/-- what a verification shows: the time stamp of a write is later, and there is a signature unless the request is
a deletion without the variable policy -/
lemma verifyTimeBasedPayload_later {type : AuthVarType} {o : EfiTime}
    (h : verifyTimeBasedPayload env r type (some o) s = none) :
    (r.attributes.appendWrite = false → Later o r.timeStamp) ∧
      (verifySignature env s type = none ∨ r.unverified env = true) := by
  unfold verifyTimeBasedPayload at h
  split at h
  · cases h
  split at h
  · cases h
  next hreplay =>
    refine ⟨fun happ => ?_, ?_⟩
    · refine later_of_compare ?_
      simpa [happ] using hreplay
    · split at h
      · cases h
      · split at h
        next hun => exact .inr hun
        next =>
          split at h
          · cases h
          · split at h
            · cases h
            next hsig => exact .inl hsig

lemma exempt_of_unverified (h : r.unverified env = true) : Exempt env r := by
  unfold Request.unverified at h
  simp only [Bool.and_eq_true, List.isEmpty_iff, Bool.not_eq_true'] at h
  exact ⟨⟨h.1.1, h.1.2⟩, .inl h.2⟩

section Existing

variable (hfind : find env s r.var = some e) (hv : s.vars r.var = some e)
  (hattr : { r.attributes with appendWrite := false } = e.attributes)
  (hat : r.attributes.timeBasedAuthenticatedWriteAccess = true)

include hfind hv hattr hat in
lemma updateWithTimeStamp_guarded {type : AuthVarType} (htype : type ∈ signers r.var)
    (hverify : verifyTimeBasedPayload env r type (some e.timeStamp) s = none) :
    Guarded env r s e (updateWithTimeStamp env r s) := by
  obtain ⟨hlater, hsigned⟩ := verifyTimeBasedPayload_later hverify
  have hsigned' : (∃ type ∈ signers r.var, verifySignature env s type = none) ∨ Exempt env r :=
    hsigned.imp (fun hsig => ⟨type, htype, hsig⟩) exempt_of_unverified
  unfold updateWithTimeStamp
  rcases updateVariable_cases hfind with ⟨st, hup⟩ | hup | ⟨d, hup⟩
  · rw [hup]
    exact .error hv st
  · rw [hup]
    exact
      { later := fun _ happ => .inl (hlater happ)
        monotone := fun e' he' => by
          rw [State.set_vars_same] at he'
          cases he'
        signed := fun _ => hsigned'
        rejected := fun hne => absurd rfl hne
        attributes := fun e' he' => by
          rw [State.set_vars_same] at he'
          cases he' }
  · rw [hup]
    exact
      { later := fun _ happ => .inl (hlater happ)
        monotone := fun e' he' => by
          rw [State.set_vars_same, Option.some_inj] at he'
          rw [← he']
          exact lexLe_storedTimeStamp hat hlater
        signed := fun _ => hsigned'
        rejected := fun hne => absurd rfl hne
        attributes := fun e' he' => by
          rw [State.set_vars_same, Option.some_inj] at he'
          rw [← he']
          exact hattr }

include hfind hv hattr hat in
lemma verifyTimeBasedPayloadAndUpdate_guarded {type : AuthVarType} (htype : type ∈ signers r.var) :
    Guarded env r s e ((verifyTimeBasedPayloadAndUpdate env r type s).1,
      (verifyTimeBasedPayloadAndUpdate env r type s).2.2) := by
  unfold verifyTimeBasedPayloadAndUpdate
  simp only [hfind, Option.map_some, Option.isSome_some, Bool.true_and]
  split
  next st _ => exact .error hv st
  next hverify =>
    have hguard := updateWithTimeStamp_guarded hfind hv hattr hat htype hverify
    generalize updateWithTimeStamp env r s = result at hguard ⊢
    obtain ⟨status, s1⟩ := result
    simp only
    split
    next hcerts =>
      simp only [Bool.and_eq_true, List.isEmpty_iff, Bool.not_eq_true', decide_eq_true_eq] at hcerts
      obtain ⟨⟨⟨hnil, happ⟩, rfl⟩, rfl⟩ := hcerts
      refine hguard.followUp rfl fun hne => ⟨⟨hnil, happ⟩, .inr ⟨?_, hne⟩⟩
      revert htype
      cases r.var <;> simp [signers, isPrivate]
    next => exact hguard

/-- a request that is rejected by a signature check of the platform changes nothing -/
lemma verifyTimeBasedPayloadAndUpdate_error (type : AuthVarType) (st : Status) (htype : type ≠ .priv)
    (hfind : find env s r.var = some e) (h : (verifyTimeBasedPayloadAndUpdate env r type s).1 = some st) :
    (verifyTimeBasedPayloadAndUpdate env r type s).2.2 = s := by
  unfold verifyTimeBasedPayloadAndUpdate updateWithTimeStamp at *
  split at h
  next st' hv => rfl
  next hv =>
    simp only [htype, decide_false, Bool.and_false, Bool.false_and, Bool.false_eq_true, if_false] at h
    rcases updateVariable_cases hfind with ⟨st, hup⟩ | hup | ⟨d, hup⟩
    · rw [hup]
    · rw [hup] at h
      cases h
    · rw [hup] at h
      cases h

end Existing

lemma verifyTimeBasedPayloadAndUpdate_touches (env : Env) (r : Request) (type : AuthVarType) (s : State) :
    Touches r.var s (verifyTimeBasedPayloadAndUpdate env r type s).2.2 := by
  unfold verifyTimeBasedPayloadAndUpdate
  split
  · exact .refl _ s
  · exact updateVariable_touches

lemma verifyTimeBasedPayloadAndUpdate_del (env : Env) (r : Request) (type : AuthVarType) (s : State)
    (h : (verifyTimeBasedPayloadAndUpdate env r type s).2.1 = true) : r.IsDeletion := by
  unfold verifyTimeBasedPayloadAndUpdate at h
  split at h
  · cases h
  · simp only [Bool.and_eq_true, List.isEmpty_iff, Bool.not_eq_true'] at h
    exact ⟨h.1.1.2, h.1.2⟩

lemma updatePlatformMode_pk (env : Env) (mode : Mode) (s : State) :
    (updatePlatformMode env mode s).2.vars .pk = s.vars .pk := by
  cases hfind : find env s .setupMode with
  | none =>
    unfold updatePlatformMode
    rw [hfind]
  | some e =>
    have hpk : (s.set .setupMode (some { e with data := [mode.toByte] })).vars .pk = s.vars .pk :=
      State.set_vars_of_ne nofun
    exact (updatePlatformMode_keeps mode hfind).pk.trans hpk

/-- with room for every variable, `UpdatePlatformMode` fails only if there is no `SetupMode` -/
lemma updatePlatformMode_ok (mode : Mode) (hroom : ∀ w, env.room w = true) (hfind : find env s .setupMode = some e) :
    (updatePlatformMode env mode s).1 = none := by
  unfold updatePlatformMode authServiceInternalUpdateVariable
  simp only [hfind]
  cases hrt : env.atRuntime with
  | true => rfl
  | false =>
    simp only [Bool.false_eq_true, if_false]
    split
    next status s1 hup =>
      refine absurd (congrArg Prod.fst hup) ?_
      rw [updateVariable_fresh _ hrt (hroom _) (cons_ne_nil _ _) rfl rfl]
      exact nofun
    next s1 hup =>
      split
      · exact updateVariable_fresh _ hrt (hroom _) (cons_ne_nil _ _) rfl rfl
      split
      · rfl
      next hsome =>
        cases henable : find env s1 .secureBootEnable with
        | none => simp [henable] at hsome
        | some e => simp [updateVariable, henable, hrt, Attributes.nvBs]

/-! ## requests on a variable that exists -/

section Request

variable (hmode : s.mPlatformMode = .user) (hcustom : env.inCustomMode = false)
  (hfind : find env s r.var = some e) (hv : s.vars r.var = some e)
  (hattr : r.attributes = .zero ∨ { r.attributes with appendWrite := false } = e.attributes)
  (hat : e.attributes.timeBasedAuthenticatedWriteAccess = true)

include hattr in
lemma attributes_of_timeBased (h : r.attributes.timeBasedAuthenticatedWriteAccess = true) :
    { r.attributes with appendWrite := false } = e.attributes := by
  refine hattr.resolve_left fun hz => ?_
  rw [hz] at h
  cases h

include hmode hcustom in
lemma updateWithPk_user (isPk : Bool) : updateWithPk env r isPk s = verifyTimeBasedPayloadAndUpdate env r .pk s := by
  have hw : withoutSignature env isPk s = false := by
    simp [withoutSignature, hcustom, hmode]
  unfold updateWithPk
  rw [hw, if_neg Bool.false_ne_true, if_pos hmode]

include hmode hcustom hfind hv hattr in
lemma processVarWithPk_guarded (isPk : Bool) (hpk : isPk = true → r.var = .pk) (htype : .pk ∈ signers r.var) :
    Guarded env r s e (processVarWithPk env r isPk s) := by
  unfold processVarWithPk
  split
  · exact .error hv _
  next hreq =>
    simp only [not_or, Bool.not_eq_false] at hreq
    have hguard := verifyTimeBasedPayloadAndUpdate_guarded hfind hv (attributes_of_timeBased hattr hreq.2) hreq.2 htype
    have htouch := verifyTimeBasedPayloadAndUpdate_touches env r .pk s
    have hdel := verifyTimeBasedPayloadAndUpdate_del env r .pk s
    rw [updateWithPk_user hmode hcustom]
    generalize verifyTimeBasedPayloadAndUpdate env r .pk s = result at hguard htouch hdel ⊢
    obtain ⟨status, del, s1⟩ := result
    cases status with
    | some st => exact hguard
    | none =>
      have hmode1 : s1.mPlatformMode = .user := htouch.mode.trans hmode
      simp only [hmode1, reduceCtorEq, false_and, if_false, true_and]
      split
      · exact hguard
      next hnot =>
        have hvar := hpk (Bool.not_eq_false _ ▸ hnot)
        split
        next hd =>
          refine hguard.followUp ?_ fun hne => ⟨hdel hd, .inl ⟨hvar, ?_⟩⟩
          · rw [hvar]
            exact updatePlatformMode_pk env .setup s1
          · -- `SetupMode` is not the variable that was deleted
            have hsetup : find env s1 .setupMode = find env s .setupMode := by
              unfold find
              rw [htouch.others .setupMode (by rw [hvar]; exact nofun)]
            by_contra hfine
            rw [not_or, not_exists] at hfine
            obtain ⟨e1, he1⟩ := Option.ne_none_iff_exists'.mp hfine.2
            exact hne (updatePlatformMode_ok .setup (fun w => Bool.not_eq_false _ ▸ hfine.1 w) (hsetup.trans he1))
        next => exact hguard

include hmode hcustom hfind in
/-- `db`, `dbx` and `dbt`: the check against `KEK` follows one against `PK` that changed nothing -/
lemma processVarWithPk_error (st : Status) (h : (processVarWithPk env r false s).1 = some st) :
    (processVarWithPk env r false s).2 = s := by
  unfold processVarWithPk at *
  split at h
  next hreq => rw [if_pos hreq]
  next hreq =>
    rw [if_neg hreq]
    rw [updateWithPk_user hmode hcustom] at *
    have herror := verifyTimeBasedPayloadAndUpdate_error .pk st nofun hfind
    generalize verifyTimeBasedPayloadAndUpdate env r .pk s = result at herror h ⊢
    obtain ⟨status, del, s1⟩ := result
    cases status with
    | some st' => exact herror h
    | none => cases h

include hmode hcustom hfind hv hattr in
lemma processVarWithKek_guarded (htype : .kek ∈ signers r.var) : Guarded env r s e (processVarWithKek env r s) := by
  unfold processVarWithKek
  split
  · exact .error hv _
  next hreq =>
    simp only [not_or, Bool.not_eq_false] at hreq
    rw [if_pos ⟨hmode, by rw [hcustom, Bool.false_and]⟩]
    exact verifyTimeBasedPayloadAndUpdate_guarded hfind hv (attributes_of_timeBased hattr hreq.2) hreq.2 htype

include hfind hv hattr hat in
lemma processVariable_guarded (hpriv : isPrivate r.var = true) (htype : .priv ∈ signers r.var) :
    Guarded env r s e (processVariable env r s) := by
  unfold processVariable authServiceInternalUpdateVariable
  simp only [hfind, Option.any_some]
  split
  next hdel =>
    simp only [isDeleteAuthVariable, Bool.and_eq_true, decide_eq_true_eq, List.isEmpty_iff, Bool.or_eq_true,
      Bool.not_eq_true'] at hdel
    obtain ⟨⟨⟨hsame, -⟩, hnil⟩, hfree⟩ := hdel
    have happ : r.attributes.appendWrite = false := by
      rcases hattr with hz | hattr
      · rw [hz]
        rfl
      · rw [hsame, ← hattr]
    have hexempt : Exempt env r := ⟨⟨hnil, happ⟩, hfree.elim (fun h => .inr ⟨hpriv, h⟩) .inl⟩
    have hguard : Guarded env r s e (updateVariable env r.var [] .zero none s) := by
      unfold updateVariable
      simp only [hfind]
      split
      · exact .error hv _
      have hdeletes : (!Attributes.zero.appendWrite && ([] : List UInt8).isEmpty || Attributes.zero.noAccess) = true :=
        rfl
      rw [if_pos hdeletes]
      exact
        { later := fun _ _ => .inr ⟨hpriv, hexempt⟩
          monotone := fun e' he' => by
            rw [State.set_vars_same] at he'
            cases he'
          signed := fun _ => .inr hexempt
          rejected := fun hne => absurd rfl hne
          attributes := fun e' he' => by
            rw [State.set_vars_same] at he'
            cases he' }
    generalize updateVariable env r.var [] .zero none s = result at hguard ⊢
    obtain ⟨status, s1⟩ := result
    cases status with
    | some st => exact hguard
    | none =>
      simp only
      split
      · exact hguard.followUp rfl fun hne => ⟨hexempt.1, .inr ⟨hpriv, hne⟩⟩
      · exact hguard
  next =>
    split
    · exact .error hv _
    split
    · exact .error hv _
    split
    next htb =>
      exact verifyTimeBasedPayloadAndUpdate_guarded hfind hv (attributes_of_timeBased hattr htb) htb htype
    next =>
      rw [if_pos (by rw [hat, Bool.or_true])]
      exact .error hv _

end Request

/-- **one request** on a time-based authenticated variable in user mode, outside custom mode -/
theorem setVariable_guarded (env : Env) (r : Request) (s : State) (e : Entry) (hmode : s.mPlatformMode = .user)
    (hcustom : env.inCustomMode = false) (hv : s.vars r.var = some e)
    (hat : e.attributes.timeBasedAuthenticatedWriteAccess = true) :
    Guarded env r s e (variableServiceSetVariable env r s) := by
  unfold variableServiceSetVariable
  cases checkAttributes env r with
  | some st => exact .error hv st
  | none =>
    cases hex : checkExisting env r s with
    | some st => exact .error hv st
    | none =>
      have hfind : find env s r.var = some e := (find_of_checkExisting hex).trans hv
      have hattr := attributes_of_checkExisting hex hv
      have hpk (isPk : Bool) (hvar : isPk = true → r.var = .pk) (h : signers r.var = [.pk]) :
          Guarded env r s e (processVarWithPk env r isPk s) :=
        processVarWithPk_guarded hmode hcustom hfind hv hattr isPk hvar (by rw [h]; exact mem_cons_self)
      have hprivate (h : isPrivate r.var = true) (h' : signers r.var = [.priv]) :
          Guarded env r s e (processVariable env r s) :=
        processVariable_guarded hfind hv hattr hat h (by rw [h']; exact mem_cons_self)
      unfold authVariableLibProcessVariable
      cases hvar : r.var <;> rw [hvar] at hpk hprivate
      case pk => exact hpk true (fun _ => rfl) rfl
      case kek => exact hpk false nofun rfl
      case db | dbx | dbt =>
        have hsigners : signers r.var = [.pk, .kek] := by
          rw [hvar]
          rfl
        have hguard := processVarWithPk_guarded hmode hcustom hfind hv hattr false nofun
          (by rw [hsigners]; exact mem_cons_self)
        have herror := processVarWithPk_error hmode hcustom hfind
        dsimp only
        generalize processVarWithPk env r false s = result at hguard herror ⊢
        obtain ⟨status, s1⟩ := result
        cases status with
        | none => exact hguard
        | some st =>
          have hs1 : s1 = s := herror st rfl
          rw [hs1]
          exact processVarWithKek_guarded hmode hcustom hfind hv hattr
            (by rw [hsigners]; exact mem_cons_of_mem _ mem_cons_self)
      all_goals exact hprivate rfl rfl

/-! ## histories -/

/-- for as long as the variable exists, and the platform is in user mode, the requests are `Guarded` -/
def AllGuarded (v : Var) : List (Env × Request) → State → Prop
  | [], _ => True
  | (env, r) :: calls, s => ∀ e, s.mPlatformMode = .user → s.vars v = some e →
    Guarded env r s e (variableServiceSetVariable env r s) ∧ AllGuarded v calls (variableServiceSetVariable env r s).2

/-- **no rollback**: for as long as a time-based authenticated variable exists, in user mode and outside custom
mode, accepted writes without the append attribute are strictly later, the stored time stamp never decreases, the
data changes only after a signature check, and rejected requests change nothing, except for the deletions that
are `Exempt` and those after which the platform mode or the certificates cannot be updated -/
theorem rollback_history (v : Var) (calls : List (Env × Request)) (hv : ∀ c ∈ calls, c.2.var = v)
    (hcustom : ∀ c ∈ calls, c.1.inCustomMode = false) (s : State)
    (hat : ∀ e, s.vars v = some e → e.attributes.timeBasedAuthenticatedWriteAccess = true) :
    AllGuarded v calls s := by
  induction calls generalizing s with
  | nil => exact trivial
  | cons c calls ih =>
    intro e hmode he
    have hvar : c.2.var = v := hv c mem_cons_self
    have hguard := setVariable_guarded c.1 c.2 s e hmode (hcustom c mem_cons_self) (hvar ▸ he) (hat e he)
    refine ⟨hguard, ih (fun c hc => hv c (mem_cons_of_mem _ hc))
      (fun c hc => hcustom c (mem_cons_of_mem _ hc)) _ ?_⟩
    -- a variable keeps its attributes for as long as it exists
    intro e' he'
    rw [hguard.attributes e' (hvar ▸ he')]
    exact hat e he

/-- user mode, with `db` and a private variable of 2020 -/
def userState : State where
  vars := fun v =>
    if v = .setupMode then some ⟨.bsRt, [0], ⟨0, 0, 0, 0, 0, 0⟩⟩
    else if v = .pk ∨ v = .db ∨ v = .priv 0 then
      some ⟨⟨true, true, true, false, false, true, false, false⟩, [7], ⟨2020, 1, 1, 0, 0, 0⟩⟩
    else none
  mPlatformMode := .user
  mVendorKeyModified := false

/-- a private variable is deleted by a request of 2000 without a signature if the user is present, or if the
variable policy is off -/
theorem presentUser_deletes :
    let r : Request := { pkRequest false [] with var := .priv 0, timeStamp := ⟨2000, 1, 1, 0, 0, 0⟩ }
    let env : Env := { presentEnv with customMode := false, verify := fun _ => false }
    ((variableServiceSetVariable env r userState).1 = none ∧
      (variableServiceSetVariable env r userState).2.vars (.priv 0) = none) ∧
    ((variableServiceSetVariable { env with userPhysicalPresent := false, variablePolicyEnabled := false } r
        userState).1 = none ∧
      (variableServiceSetVariable { env with userPhysicalPresent := false, variablePolicyEnabled := false } r
        userState).2.vars (.priv 0) = none) := by
  decide +kernel

theorem replay_history :
    let env : Env := { presentEnv with customMode := false }
    let r : Request := { pkRequest false [8] with var := .db, timeStamp := ⟨2021, 1, 1, 0, 0, 0⟩ }
    ((variableServiceSetVariable env r userState).1 = none ∧
      (variableServiceSetVariable env r (variableServiceSetVariable env r userState).2).1 = some .securityViolation) ∧
      AllGuarded .db [(env, r), (env, r)] userState := by
  intro env r
  refine ⟨by decide +kernel, rollback_history .db _ ?_ ?_ userState ?_⟩
  · intro c hc
    simp only [List.mem_cons, List.not_mem_nil, or_false, or_self] at hc
    rw [hc]
  · intro c hc
    simp only [List.mem_cons, List.not_mem_nil, or_false, or_self] at hc
    rw [hc]
    rfl
  · intro e he
    cases he
    rfl

/-! ## without the platform key -/

/-- outside custom mode, under the variable policy, no signature of the platform key is accepted -/
structure Keyless (env : Env) : Prop where
  custom : env.inCustomMode = false
  policy : env.variablePolicyEnabled = true
  unsigned : env.verify .pk = false

lemma Keyless.processVarWithPk_error (h : Keyless env) (hmode : s.mPlatformMode = .user) (isPk : Bool) :
    ∃ st, processVarWithPk env r isPk s = (some st, s) := by
  -- a deletion is verified as well
  have hverify (o : Option EfiTime) : verifyTimeBasedPayload env r .pk o s ≠ none := by
    simp only [verifyTimeBasedPayload, verifySignature, Request.unverified, h.policy, h.unsigned, Bool.not_true,
      Bool.and_false, Bool.false_eq_true, if_false]
    split_ifs <;> exact nofun
  obtain ⟨st, hst⟩ := Option.ne_none_iff_exists'.mp (hverify ((find env s r.var).map (·.timeStamp)))
  unfold processVarWithPk
  rw [updateWithPk_user hmode h.custom, verifyTimeBasedPayloadAndUpdate, hst]
  split
  · exact ⟨_, rfl⟩
  · exact ⟨_, rfl⟩

lemma processVariable_touches : Touches r.var s (processVariable env r s).2 := by
  unfold processVariable
  dsimp only
  repeat' split
  all_goals first
    | exact .refl _ s
    | exact verifyTimeBasedPayloadAndUpdate_touches env r .priv s
    | exact updateVariable_touches
    | exact congrArg Prod.snd ‹authServiceInternalUpdateVariable env r.var [] .zero s = _› ▸ updateVariable_touches

lemma Keyless.touches (h : Keyless env) (hmode : s.mPlatformMode = .user) :
    ∃ v, v ≠ .pk ∧ v ≠ .kek ∧ Touches v s (variableServiceSetVariable env r s).2 := by
  have hkek : Touches r.var s (processVarWithKek env r s).2 := by
    unfold processVarWithKek
    rw [if_pos (show s.mPlatformMode = .user ∧ _ from ⟨hmode, by rw [h.custom, Bool.false_and]⟩)]
    split
    · exact .refl _ s
    · exact verifyTimeBasedPayloadAndUpdate_touches env r .kek s
  obtain ⟨st, hpk⟩ := h.processVarWithPk_error (r := r) hmode true
  obtain ⟨st', hother⟩ := h.processVarWithPk_error (r := r) hmode false
  have hsame : ∃ v, v ≠ .pk ∧ v ≠ .kek ∧ Touches v s s := ⟨.db, nofun, nofun, .refl _ s⟩
  unfold variableServiceSetVariable authVariableLibProcessVariable
  rw [hpk, hother]
  split
  · exact hsame
  split
  · exact hsame
  split
  all_goals first
    | exact hsame
    | exact ⟨r.var, by simp [*], by simp [*], hkek⟩ -- `db`, `dbx` and `dbt`
    | exact ⟨r.var, ‹_›, ‹_›, processVariable_touches⟩

/-- **without the platform key**, no requests on any variables leave user mode, or change `PK` or `KEK` -/
theorem platformKey_needed (calls : List (Env × Request)) (hcalls : ∀ c ∈ calls, Keyless c.1) (s : State)
    (hmode : s.mPlatformMode = .user) :
    let s' := calls.foldl (fun s c => (variableServiceSetVariable c.1 c.2 s).2) s
    s'.mPlatformMode = .user ∧ s'.vars .pk = s.vars .pk ∧ s'.vars .kek = s.vars .kek := by
  induction calls generalizing s with
  | nil => exact ⟨hmode, rfl, rfl⟩
  | cons c calls ih =>
    obtain ⟨v, hpk, hkek, htouch⟩ := (hcalls c mem_cons_self).touches (r := c.2) hmode
    obtain ⟨h1, h2, h3⟩ := ih (fun c hc => hcalls c (mem_cons_of_mem _ hc)) _ (htouch.mode.trans hmode)
    exact ⟨h1, h2.trans (htouch.others _ hpk.symm), h3.trans (htouch.others _ hkek.symm)⟩

/-- a key of `KEK` does not delete `PK` -/
theorem kekSigned_history :
    let env : Env := { presentEnv with customMode := false, verify := fun type => type = .kek }
    let s := (variableServiceSetVariable env (pkRequest false []) userState).2
    s.mPlatformMode = .user ∧ s.vars .pk = userState.vars .pk ∧ s.vars .kek = userState.vars .kek :=
  platformKey_needed [(_, pkRequest false [])] (fun _ hc => mem_singleton.mp hc ▸ ⟨rfl, rfl, rfl⟩) userState rfl

end Audk.AuthVar
