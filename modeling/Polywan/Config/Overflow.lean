import Polywan.Config.Accept

/-!
# Arithmetic of validation

Validation multiplies the timeout of a probe by the number of attempts before it compares the
product with the interval, and the timeout has no upper bound.  The other sums and products
are of numbers that were checked before.

## Main definitions

* `Raw.Health.Fits` — the products of the health settings of an uplink are representable.

## Main results

* `validate_isSome_iff` — validation ends exactly for files whose products fit.
-/

namespace Polywan

open Lib Duration

namespace Validate

/-- The integer that validation goes on with. -/
def intValue (value : Option ℤ) (default low high : ℤ) : ℤ :=
  match value with
  | none => default
  | some v => if low ≤ v ∧ v ≤ high then v else default

/-- The duration that validation goes on with. -/
def durationValue (value : Option String) (default : ℕ) : ℕ :=
  (value.bind Duration.parse).getD default

end Validate

open Validate

namespace Raw.Health

/-- The texts of the targets of a family. -/
def targetTexts (h : Health) (f : Family) : List String :=
  (match f with
    | .v4 => h.ipv4
    | .v6 => h.ipv6).getD (defaultTargets f)

/-- The address of a text that is a target of the family. -/
def targetAddress (t : Texts) (f : Family) (text : String) : Option IpAddr :=
  match parseTarget t text with
  | .ok x => if Family.of x.addr = f ∧ isGlobalUnicast x.addr = true then some x.addr else none
  | .error _ => none

/-- The number of distinct addresses that the targets of a family name. -/
def addressCount (t : Texts) (h : Health) (f : Family) : ℕ :=
  ((h.targetTexts f).filterMap (targetAddress t f)).dedup.length

/-- Whether some gate is written. -/
def gated (h : Health) : Bool :=
  let q := h.quality.getD {}
  q.maxRtt.isSome || q.maxJitter.isSome || q.maxLoss.isSome

/-- The products of the settings are representable: a timeout times the attempts as a duration,
and the samples of a full window, if there are gates, as a size. -/
structure Fits (t : Texts) (families : List Family) (h : Health) : Prop where
  round : durationValue h.timeout (ofSecs 1) * (intValue h.attempts 2 1 5).toNat < Duration.limit
  capacity : h.gated = true → ∀ n ∈ (families.map (h.addressCount t)).min?,
    n * (intValue h.qualityWindow 6 2 100).toNat < 2 ^ 64

end Raw.Health

namespace Raw.Uplink

/-- The families that an uplink enables. -/
def families (u : Uplink) : List Family :=
  (if u.ipv4.isSome then [Family.v4] else []) ++ if u.ipv6.isSome then [Family.v6] else []

/-- The health settings of an uplink, over the global ones. -/
def merged (globalHealth : Option (Spanned Health)) (u : Uplink) : Health :=
  mergeHealth (globalHealth.map Spanned.value) (u.health.map Spanned.value)

end Raw.Uplink

namespace Validate

/-! ## Checks that always have a result -/

section Values

variable {line : Option ℕ} {key message : String}

theorem returns_errIf (c : Prop) [Decidable c] :
    (errIf c line key message).Returns fun _ => True := Collect.Returns.reportIf c _

theorem returns_err_pure {α : Type} {a : α} {P : α → Prop} (h : P a) :
    (err line key message >>= fun _ => pure a).Returns P :=
  (Collect.Returns.report _).bind fun _ _ => Collect.Returns.pure h

theorem returns_errOf (result : Except String Unit) :
    (errOf result line key).Returns fun _ => True := by
  cases result with
  | ok u => exact Collect.Returns.pure True.intro
  | error m => exact Collect.Returns.report _

theorem returns_int {type : IntType} {value : Option ℤ} {default low high : ℤ}
    (hfits : ∀ v, low ≤ v → v ≤ high → type.fits v = true) :
    (int type value default low high line key).Returns
      fun v => v = intValue value default low high := by
  cases value with
  | none => exact Collect.Returns.pure rfl
  | some v =>
    refine Collect.Returns.ite (fun hout => returns_err_pure ?_) fun hin => ?_
    · rw [intValue, if_neg (by omega)]
    · rw [not_or, not_lt, not_lt] at hin
      refine Collect.Returns.pure ?_
      rw [intValue, if_pos hin, if_pos (hfits v hin.1 hin.2)]

/-- An integer, whatever the file says. -/
theorem returns_int_range {type : IntType} {value : Option ℤ} {default low high : ℤ}
    (hlow : low ≤ default) (hhigh : default ≤ high) :
    (int type value default low high line key).Returns fun v => low ≤ v ∧ v ≤ high := by
  cases value with
  | none => exact Collect.Returns.pure ⟨hlow, hhigh⟩
  | some v =>
    refine Collect.Returns.ite (fun _ => returns_err_pure ⟨hlow, hhigh⟩) fun hin => ?_
    rw [not_or, not_lt, not_lt] at hin
    refine Collect.Returns.pure ?_
    split
    · exact hin
    · exact ⟨hlow, hhigh⟩

theorem returns_checkedU32 {n : ℕ} (h : n < 2 ^ 32) :
    (checkedU32 n).Returns fun m => m = n := by
  intro ds
  exact ⟨n, ds, by rw [checkedU32, if_pos h]; rfl, rfl⟩

variable (t : Texts)

theorem returns_duration (value : Option String) (default : ℕ) :
    (duration t value default line key).Returns fun d => d = durationValue value default := by
  cases value with
  | none => exact Collect.Returns.pure rfl
  | some text =>
    simp only [duration, durationValue, Option.bind_some]
    cases Duration.parse text with
    | none => exact returns_err_pure rfl
    | some d => exact Collect.Returns.pure rfl

theorem returns_durationIn (value : Option String) (default low high : ℕ) :
    (durationIn t value default low high line key).Returns fun _ => True :=
  (returns_duration t value default).bind fun _ _ =>
    Collect.Returns.ite (fun _ => returns_err_pure True.intro)
      fun _ => Collect.Returns.pure True.intro

theorem returns_tableId (ref : Raw.TableRef) :
    (tableId t line ref).Returns fun _ => True := by
  cases ref with
  | id n =>
    exact Collect.Returns.ite (fun _ => Collect.Returns.pure True.intro)
      fun _ => returns_err_pure True.intro
  | name n =>
    refine Collect.Returns.ite (fun _ => Collect.Returns.pure True.intro) fun _ => ?_
    exact Collect.Returns.ite (fun _ => Collect.Returns.pure True.intro)
      fun _ => returns_err_pure True.intro

theorem returns_discoveryTable {tableBase : ℕ} (h : tableBase + 191 < 2 ^ 32) (tables : List ℕ)
    (ref : Raw.TableRef) :
    (discoveryTable t line tableBase tables ref).Returns fun _ => True := by
  refine (returns_tableId t ref).bind fun id _ => ?_
  cases id with
  | none => exact Collect.Returns.pure True.intro
  | some id =>
    refine (returns_checkedU32 h).bind fun last _ => ?_
    refine Collect.Returns.ite (fun _ => returns_err_pure True.intro) fun _ => ?_
    exact Collect.Returns.ite (fun _ => Collect.Returns.pure True.intro)
      fun _ => Collect.Returns.pure True.intro

theorem returns_fwmarkMask (value : Option ℤ) :
    (fwmarkMask value line).Returns fun _ => True := by
  cases value with
  | none => exact Collect.Returns.pure True.intro
  | some v =>
    simp only [fwmarkMask]
    split
    · exact Collect.Returns.pure True.intro
    · exact returns_err_pure True.intro

/-- The last table is a 32-bit number. -/
theorem returns_routing (raw : Option (Spanned Raw.Routing)) :
    (routing t raw).Returns fun _ => True := by
  refine (returns_int_range (by decide) (by decide)).bind fun base hbase => ?_
  refine (returns_checkedU32 (by omega)).bind fun last _ => ?_
  refine (returns_errIf _).bind fun _ _ => ?_
  refine (returns_int_range (by decide) (by decide)).bind fun _ _ => ?_
  refine (returns_int_range (by decide) (by decide)).bind fun _ _ => ?_
  refine (returns_fwmarkMask _).bind fun _ _ => ?_
  refine (Collect.Returns.foldlM_of_step fun tables ref _ =>
    returns_discoveryTable t (by omega) tables ref).bind fun _ _ => ?_
  refine (returns_durationIn t _ _ _ _).bind fun _ _ => ?_
  exact Collect.Returns.pure True.intro

theorem returns_firewall (raw : Option (Spanned Raw.Firewall)) :
    (firewall raw).Returns fun _ => True :=
  (returns_int_range (by decide) (by decide)).bind fun _ _ =>
    (returns_errIf _).bind fun _ _ => Collect.Returns.pure True.intro

theorem returns_addr (f : Family) (value : Option String) :
    (addr t f line key value).Returns fun _ => True := by
  cases value with
  | none => exact Collect.Returns.pure True.intro
  | some text =>
    refine Collect.Returns.ite (fun _ => Collect.Returns.pure True.intro) fun _ => ?_
    cases t.parseAddr text with
    | none => exact returns_err_pure True.intro
    | some a =>
      exact Collect.Returns.ite (fun _ => Collect.Returns.pure True.intro)
        fun _ => returns_err_pure True.intro

theorem returns_path (raw : Spanned Raw.Path) (f : Family) :
    (path t raw f key).Returns fun _ => True := by
  refine (returns_addr t f _).bind fun source _ => ?_
  refine (returns_addr t f _).bind fun gateway _ => ?_
  refine Collect.Returns.bind (P := fun _ => True) ?_ fun _ _ => ?_
  · cases source with
    | auto => exact Collect.Returns.pure True.intro
    | static a => exact returns_errIf _
  refine (returns_errIf _).bind fun _ _ => ?_
  refine Collect.Returns.bind (P := fun _ => True) ?_ fun nat _ => ?_
  · simp only [nat]
    split
    · exact Collect.Returns.pure True.intro
    · exact Collect.Returns.pure True.intro
    · exact returns_err_pure True.intro
  exact (returns_errIf _).bind fun _ _ => Collect.Returns.pure True.intro

/-! ## Health -/

/-- The targets after some texts: their addresses are those of the texts. -/
theorem returns_target (f : Family) {before : List String} {l : List Target}
    (h : ∀ a, a ∈ l.map Target.addr ↔ a ∈ before.filterMap (Raw.Health.targetAddress t f))
    (text : String) :
    (target t f line key l text).Returns fun l' => ∀ a, a ∈ l'.map Target.addr ↔
      a ∈ (before ++ [text]).filterMap (Raw.Health.targetAddress t f) := by
  simp only [List.filterMap_append, List.mem_append, List.filterMap_cons, List.filterMap_nil,
    Raw.Health.targetAddress, target]
  cases parseTarget t text with
  | error e => exact returns_err_pure fun a => by simp [h]
  | ok x =>
    dsimp only
    by_cases hfamily : Family.of x.addr = f
    · by_cases hglobal : isGlobalUnicast x.addr = true
      · have hboth : Family.of x.addr = f ∧ isGlobalUnicast x.addr = true := ⟨hfamily, hglobal⟩
        rw [if_neg (not_not.mpr hfamily), if_neg (not_not.mpr hglobal), if_pos hboth]
        refine Collect.Returns.ite (fun hmem => returns_err_pure fun a => ?_)
          fun _ => Collect.Returns.pure fun a => ?_
        · have haddr : x.addr ∈ l.map Target.addr := List.mem_map_of_mem hmem
          rw [← h a, List.mem_singleton]
          exact ⟨.inl, fun ha => ha.elim id fun ha => ha ▸ haddr⟩
        · rw [List.map_append, List.mem_append, h a]
          simp
      · rw [if_neg (not_not.mpr hfamily), if_pos hglobal, if_neg fun hboth => hglobal hboth.2]
        exact returns_err_pure fun a => by simp [h]
    · rw [if_pos hfamily, if_neg fun hboth => hfamily hboth.1]
      exact returns_err_pure fun a => by simp [h]

theorem returns_targets (h : Raw.Health) (families : List Family) (f : Family) :
    (targets t h families line key f).Returns
      fun l => distinctAddresses l = h.addressCount t f := by
  refine (Collect.Returns.foldlM (fun before (l : List Target) => ∀ a, a ∈ l.map Target.addr ↔
    a ∈ before.filterMap (Raw.Health.targetAddress t f)) (by simp)
    fun before text l hl _ => returns_target t f hl text).bind fun l hl => ?_
  refine (returns_errIf _).bind fun _ _ => Collect.Returns.pure ?_
  have hsame : (l.map Target.addr).dedup.Perm
      ((h.targetTexts f).filterMap (Raw.Health.targetAddress t f)).dedup :=
    (List.perm_ext_iff_of_nodup (List.nodup_dedup _) (List.nodup_dedup _)).mpr fun a => by
      rw [List.mem_dedup, List.mem_dedup]
      exact hl a
  exact hsame.length_eq

theorem returns_quality (q : Raw.Quality) :
    (quality t q line key).Returns fun gates =>
      gates.enabled = (q.maxRtt.isSome || q.maxJitter.isSome || q.maxLoss.isSome) := by
  have hgate : ∀ (value : Option String) (key : String),
      (quality.gate t line value key).Returns fun d => d.isSome = value.isSome := by
    intro value key
    cases value with
    | none => exact Collect.Returns.pure rfl
    | some text => exact (returns_duration t _ _).bind fun _ _ => Collect.Returns.pure rfl
  refine (hgate _ _).bind fun rtt hrtt => ?_
  refine (hgate _ _).bind fun jitter hjitter => ?_
  refine (returns_errIf _).bind fun _ _ => Collect.Returns.pure ?_
  rw [Quality.enabled, hrtt, hjitter, Option.isSome_map]

theorem definedIff_sampleCapacity (enabled : Bool) (fewest : Option ℕ) (window : ℕ) :
    (sampleCapacity enabled fewest window).DefinedIff
      (enabled = true → ∀ n ∈ fewest, n * window < 2 ^ 64) := by
  cases enabled with
  | false => exact (Collect.DefinedIff.pure _).congr (by simp)
  | true =>
    cases fewest with
    | none => exact (Collect.DefinedIff.pure _).congr (by simp)
    | some n =>
      refine ((Collect.DefinedIff.ofOption _).bind fun _ => Collect.DefinedIff.pure _).congr ?_
      simp

/-- The products of the settings decide. -/
theorem definedIff_health (h : Raw.Health) (families : List Family) :
    (health t h families line key).DefinedIff (h.Fits t families) := by
  have hfits : (h.Fits t families) ↔
      (checkedMul (durationValue h.timeout (ofSecs 1)) (intValue h.attempts 2 1 5).toNat).isSome ∧
      (h.gated = true → ∀ n ∈ (families.map (h.addressCount t)).min?,
        n * (intValue h.qualityWindow 6 2 100).toNat < 2 ^ 64) := by
    rw [checkedMul, isSome_checked]
    exact ⟨fun h => ⟨h.round, h.capacity⟩, fun h => ⟨h.1, h.2⟩⟩
  refine Collect.DefinedIff.congr ?_ hfits.symm
  refine Collect.DefinedIff.after (returns_durationIn t _ _ _ _) fun interval _ => ?_
  refine Collect.DefinedIff.after (returns_duration t _ _) fun timeout htimeout => ?_
  refine Collect.DefinedIff.after (returns_errIf _) fun _ _ => ?_
  refine Collect.DefinedIff.after (returns_int (by decide)) fun attempts hattempts => ?_
  subst htimeout hattempts
  refine Collect.DefinedIff.bind (Collect.DefinedIff.ofOption _) fun round => ?_
  refine Collect.DefinedIff.after (returns_errIf _) fun _ _ => ?_
  refine Collect.DefinedIff.after (returns_int_range (by decide) (by decide)) fun fall _ => ?_
  refine Collect.DefinedIff.after (returns_int_range (by decide) (by decide)) fun rise _ => ?_
  refine Collect.DefinedIff.after (returns_targets t h families .v4) fun targetsV4 hv4 => ?_
  refine Collect.DefinedIff.after (returns_targets t h families .v6) fun targetsV6 hv6 => ?_
  refine Collect.DefinedIff.after (returns_int_range (by decide) (by decide)) fun required _ => ?_
  refine Collect.DefinedIff.after (Collect.Returns.forM fun f _ => returns_errIf _) fun _ _ => ?_
  refine Collect.DefinedIff.after (returns_quality t _) fun gates hgates => ?_
  refine Collect.DefinedIff.after (returns_int (by decide)) fun window hwindow => ?_
  refine Collect.DefinedIff.after (returns_int_range (by decide) (by decide)) fun samples _ => ?_
  refine ((definedIff_sampleCapacity _ _ _).before (Q := fun _ => True) fun capacity =>
    (returns_errIf _).bind fun _ _ => Collect.Returns.pure True.intro).congr ?_
  have hcounts : ∀ f, distinctAddresses (match f with
      | .v4 => targetsV4
      | .v6 => targetsV6) = h.addressCount t f := by
    intro f
    cases f with
    | v4 => exact hv4
    | v6 => exact hv6
  rw [hgates, hwindow, ← funext hcounts]
  rfl

/-! ## Uplinks -/

theorem returns_interface (seen : List String) (name taken : String) :
    (downlink.interface t seen name line key taken).Returns fun _ => True := by
  simp only [downlink.interface]
  cases checkInterfaceName t name with
  | error e => exact returns_err_pure True.intro
  | ok u =>
    exact Collect.Returns.ite (fun _ => returns_err_pure True.intro)
      fun _ => Collect.Returns.pure True.intro

theorem returns_uplinkId (id : ℤ) : (uplinkId id line key).Returns fun _ => True := by
  simp only [uplinkId]
  split
  · exact Collect.Returns.pure True.intro
  · exact returns_err_pure True.intro

theorem returns_optionalPath (raw : Option (Spanned Raw.Path)) (f : Family) :
    (optionalPath t raw f key).Returns fun p => p.isSome = raw.isSome := by
  cases raw with
  | none => exact Collect.Returns.pure rfl
  | some raw => exact (returns_path t raw f).bind fun _ _ => Collect.Returns.pure rfl

theorem returns_staticSource (name : String) (seen : List (IpAddr × String)) (p : PathSettings) :
    (staticSource t line key name seen p).Returns fun _ => True := by
  simp only [staticSource]
  split
  · exact Collect.Returns.pure True.intro
  · exact (returns_errIf _).bind fun _ _ => Collect.Returns.pure True.intro

theorem returns_optionalInt {type : IntType} (value : Option ℤ) {default low high : ℤ}
    (hlow : low ≤ default) (hhigh : default ≤ high) :
    (optionalInt type value default low high line key).Returns fun _ => True := by
  cases value with
  | none => exact Collect.Returns.pure True.intro
  | some v => exact (returns_int_range hlow hhigh).bind fun _ _ => Collect.Returns.pure True.intro

theorem definedIff_uplink (globalHealth : Option (Spanned Raw.Health)) (seen : Seen)
    (raw : Spanned Raw.Uplink × ℕ) :
    (uplink t globalHealth seen raw).DefinedIff
      ((raw.1.value.merged globalHealth).Fits t raw.1.value.families) := by
  refine Collect.DefinedIff.after (returns_uplinkId _) fun id _ => ?_
  refine Collect.DefinedIff.after (returns_errIf _) fun _ _ => ?_
  refine Collect.DefinedIff.after (P := fun _ => True) ?_ fun _ _ => ?_
  · exact Collect.Returns.ite (fun _ => Collect.Returns.report _) fun _ => returns_errIf _
  refine Collect.DefinedIff.after (returns_interface t _ _ _) fun interfaces _ => ?_
  refine Collect.DefinedIff.after (returns_optionalInt _ (by decide) (by decide)) fun _ _ => ?_
  refine Collect.DefinedIff.after (returns_int_range (by decide) (by decide)) fun weight _ => ?_
  refine Collect.DefinedIff.after (returns_errIf _) fun _ _ => ?_
  refine Collect.DefinedIff.after (returns_optionalPath t _ _) fun ipv4 hipv4 => ?_
  refine Collect.DefinedIff.after (returns_optionalPath t _ _) fun ipv6 hipv6 => ?_
  refine Collect.DefinedIff.after (Collect.Returns.foldlM_of_step fun sources p _ =>
    returns_staticSource t _ sources p) fun sources _ => ?_
  rw [hipv4, hipv6]
  exact (definedIff_health t _ _).before (Q := fun _ => True)
    fun _ => Collect.Returns.pure True.intro

/-! ## Policies and the rest -/

theorem returns_policyNet (value : Option String) (f : Family) :
    (policyNet t value f line key).Returns fun _ => True := by
  cases value with
  | none => exact Collect.Returns.pure True.intro
  | some text =>
    simp only [policyNet]
    split
    · exact Collect.Returns.ite (fun _ => Collect.Returns.pure True.intro)
        fun _ => returns_err_pure True.intro
    · exact returns_err_pure True.intro

theorem returns_destinationPort (spec : Option Raw.PortSpec) (protocol : Option Protocol) :
    (destinationPort spec protocol line key).Returns fun _ => True := by
  cases spec with
  | none => exact Collect.Returns.pure True.intro
  | some spec =>
    refine Collect.Returns.ite (fun _ => returns_err_pure True.intro) fun _ => ?_
    split
    · exact Collect.Returns.pure True.intro
    · exact returns_err_pure True.intro

theorem returns_policy (uplinks : List Uplink) (downlinks : List String) (l : List Policy)
    (raw : Spanned Raw.Policy × ℕ) :
    (policy t uplinks downlinks l raw).Returns fun _ => True := by
  refine Collect.Returns.count.bind fun before _ => ?_
  refine Collect.Returns.bind (P := fun _ => True) ?_ fun id _ => ?_
  · simp only [policyUplink]
    split
    · exact (returns_errIf _).bind fun _ _ => Collect.Returns.pure True.intro
    · exact returns_err_pure True.intro
  refine (returns_errIf _).bind fun _ _ => ?_
  refine (returns_policyNet t _ _).bind fun source _ => ?_
  refine (returns_policyNet t _ _).bind fun destination _ => ?_
  refine Collect.Returns.bind (P := fun _ => True) ?_ fun _ _ => ?_
  · simp only [policyProtocol]
    split
    · exact Collect.Returns.report _
    · exact Collect.Returns.report _
    · exact Collect.Returns.pure True.intro
  refine (returns_destinationPort _ _).bind fun port _ => ?_
  refine Collect.Returns.count.bind fun after _ => ?_
  refine Collect.Returns.ite (fun _ => Collect.Returns.pure True.intro) fun _ => ?_
  cases id <;> exact Collect.Returns.pure True.intro

theorem returns_checkEvents (events : List String) :
    (checkEvents t events line key).Returns fun _ => True :=
  (returns_errIf _).bind fun _ _ => Collect.Returns.forM fun _ _ => returns_errIf _

theorem returns_email (raw : Spanned Raw.Email) : (email t raw).Returns fun _ => True := by
  refine (returns_int_range (by decide) (by decide)).bind fun _ _ => ?_
  refine (returns_errOf _).bind fun _ _ => ?_
  refine (returns_errIf _).bind fun _ _ => ?_
  refine (Collect.Returns.forM fun _ _ => returns_errOf _).bind fun _ _ => ?_
  refine (returns_errIf _).bind fun _ _ => ?_
  refine Collect.Returns.bind (P := fun _ => True) ?_ fun _ _ => Collect.Returns.pure True.intro
  simp only [emailEvents]
  split
  · exact Collect.Returns.pure True.intro
  · exact (returns_checkEvents t _).bind fun _ _ => Collect.Returns.pure True.intro

theorem returns_hook (l : List Hook) (raw : Spanned Raw.Hook × ℕ) :
    (hook t l raw).Returns fun _ => True := by
  refine (returns_errIf _).bind fun _ _ => ?_
  refine Collect.Returns.bind (P := fun _ => True) ?_ fun _ _ => ?_
  · simp only [optionalEvents]
    split
    · exact Collect.Returns.pure True.intro
    · exact returns_checkEvents t _
  refine (returns_duration t _ _).bind fun timeout _ => ?_
  exact (returns_errIf _).bind fun _ _ => Collect.Returns.pure True.intro

theorem returns_notify (raw : Option (Spanned Raw.Notify)) :
    (notify t raw).Returns fun _ => True := by
  cases raw with
  | none => exact Collect.Returns.pure True.intro
  | some raw =>
    refine (returns_duration t _ _).bind fun coalesce _ => ?_
    refine Collect.Returns.bind (P := fun _ => True) ?_ fun email _ => ?_
    · simp only [optionalEmail]
      split
      · exact Collect.Returns.pure True.intro
      · exact (returns_email t _).bind fun _ _ => Collect.Returns.pure True.intro
    refine (Collect.Returns.foldlM_of_step fun l raw _ => returns_hook t l raw).bind fun _ _ => ?_
    exact (returns_errOf _).bind fun _ _ => Collect.Returns.pure True.intro

theorem returns_api (raw : Option (Spanned Raw.Api)) : (api t raw).Returns fun _ => True := by
  refine (returns_errOf _).bind fun _ _ => ?_
  refine Collect.Returns.bind (P := fun _ => True) ?_ fun _ _ => ?_
  · simp only [statusSocket]
    split
    · exact Collect.Returns.pure True.intro
    · split
      · exact Collect.Returns.report _
      · exact returns_errIf _
  refine (returns_errOf _).bind fun _ _ => ?_
  refine Collect.Returns.bind (P := fun _ => True) ?_ fun _ _ => Collect.Returns.pure True.intro
  cases ((raw.map Spanned.value).getD {}).statusGroup with
  | none => exact Collect.Returns.pure True.intro
  | some g => exact returns_errOf _

theorem returns_metricsListen (raw : Option (Spanned Raw.Metrics)) :
    (metricsListen t raw).Returns fun _ => True := by
  simp only [metricsListen]
  split
  · exact Collect.Returns.pure True.intro
  · split
    · exact Collect.Returns.pure True.intro
    · exact returns_err_pure True.intro

theorem returns_stateDir (raw : Option (Spanned String)) :
    (stateDir raw).Returns fun _ => True := by
  cases raw with
  | none => exact Collect.Returns.pure True.intro
  | some s => exact (returns_errOf _).bind fun _ _ => Collect.Returns.pure True.intro

theorem definedIff_configuration (raw : Raw.Config) :
    (configuration t raw).DefinedIff (∀ u ∈ raw.uplink.zipIdx,
      (u.1.value.merged raw.health).Fits t u.1.value.families) := by
  refine Collect.DefinedIff.after (returns_routing t _) fun routing _ => ?_
  refine Collect.DefinedIff.after (returns_firewall _) fun firewall _ => ?_
  refine Collect.DefinedIff.after (returns_errIf _) fun _ _ => ?_
  refine Collect.DefinedIff.after (Collect.Returns.foldlM_of_step fun seen d _ =>
    (returns_interface t _ _ _).bind fun _ _ => Collect.Returns.pure True.intro)
    fun downlinks _ => ?_
  refine Collect.DefinedIff.after (returns_errIf _) fun _ _ => ?_
  refine (Collect.DefinedIff.foldlM fun seen u _ => definedIff_uplink t raw.health seen u).before
    (Q := fun _ => True) fun seen => ?_
  refine (Collect.Returns.tidy _).bind fun _ _ => ?_
  refine (Collect.Returns.foldlM_of_step fun l p _ => returns_policy t _ _ l p).bind
    fun policies _ => ?_
  refine (Collect.Returns.foldlM_of_step fun names p _ => (returns_errIf _).bind
    fun _ _ => Collect.Returns.pure True.intro).bind fun _ _ => ?_
  refine (returns_notify t _).bind fun notify _ => ?_
  refine (returns_api t _).bind fun api _ => ?_
  refine (returns_metricsListen t _).bind fun metrics _ => ?_
  exact (returns_stateDir _).bind fun _ _ => Collect.Returns.pure True.intro

end Values

end Validate

/-- **Validation ends exactly for files whose products fit.** -/
theorem validate_isSome_iff (t : Texts) (raw : Raw.Config) :
    (validate t raw).isSome = true ↔
      ∀ u ∈ raw.uplink, (u.value.merged raw.health).Fits t u.value.families := by
  rw [validate, Option.isSome_map, Validate.definedIff_configuration t raw []]
  constructor
  · intro h u hu
    obtain ⟨i, hi⟩ := List.mem_iff_getElem?.mp hu
    exact h (u, i) (List.mem_zipIdx_iff_getElem?.mpr hi)
  · intro h u hu
    exact h u.1 (List.fst_mem_of_mem_zipIdx hu)

/-- A file with the longest timeout that can be read. -/
def Sample.endless : Raw.Config :=
  { raw with health := some ⟨{ rawHealth with timeout := some "18446744073709551615s" }, 9⟩ }

/-- Three attempts of the longest timeout do not fit: the process stops. -/
theorem validate_endless : validate Sample.texts Sample.endless = none := by decide +kernel

end Polywan
