import Polywan.Config.Validate
import Polywan.Nft

/-!
# Accepted configurations

What validation guarantees when it finds no problem: no default that stands for a refused
value reaches the result.

## Main definitions

* `Health.Accepted`, `PathSettings.Accepted` — the settings of an uplink.
* `Config.Validated` — what the rest of the program assumes, beyond `Config.Valid`.

## Main results

* `accepted_of_validate` — an accepted configuration satisfies it.
* `validate_sound` — the part that routing, probing and the firewall rely on.
-/

namespace Polywan

open Lib Duration

/-- A name without quotes, white space and control characters. -/
def PlainName (name : String) : Prop :=
  ∀ c ∈ name.toList, c.toNat ≠ 0x22 ∧ c.toNat ≠ 0x27 ∧ isWhitespace c = false ∧
    Nft.isControl c = false

/-- The settings of a path in its family. -/
structure PathSettings.Accepted (f : Family) (p : PathSettings) : Prop where
  source_family : ∀ a, p.source = .static a → Family.of a = f
  gateway_family : ∀ a, p.gateway = .static a → Family.of a = f
  onlink : p.gatewayOnlink = true → p.gateway ≠ .auto
  snat : p.nat = .snat → p.source ≠ .auto

/-- The health settings of an uplink with its enabled families. -/
structure Health.Accepted (families : List Family) (h : Health) : Prop where
  timeout_pos : 0 < h.timeout
  attempts_pos : 1 ≤ h.attempts
  attempts_le : h.attempts ≤ 5
  round_lt : h.timeout * h.attempts < h.interval
  interval_le : h.interval ≤ ofSecs 300
  target_family : ∀ f, ∀ x ∈ h.targets f, Family.of x.addr = f
  nodup_targets : ∀ f, (h.targets f).Nodup
  targets_ne_nil : ∀ f ∈ families, h.targets f ≠ []
  required_pos : 1 ≤ h.requiredReachable
  required_le : ∀ f ∈ families, h.requiredReachable ≤ distinctAddresses (h.targets f)
  window_mem : 2 ≤ h.qualityWindow ∧ h.qualityWindow ≤ 100
  samples_le : h.quality.enabled = true → ∀ f ∈ families,
    h.qualityMinSamples ≤ distinctAddresses (h.targets f) * h.qualityWindow

structure Uplink.Accepted (u : Uplink) : Prop where
  name : validUplinkName u.name = true
  weight_mem : 1 ≤ u.weight ∧ u.weight ≤ 256
  families_ne_nil : u.families ≠ []
  path : ∀ f p, u.path f = some p → p.Accepted f
  health : u.health.Accepted u.families

def PathSettings.staticSource (p : PathSettings) : Option IpAddr :=
  match p.source with
  | .auto => none
  | .static a => some a

/-- The static source addresses of the paths of an uplink. -/
def Uplink.staticSources (u : Uplink) : List IpAddr :=
  (u.ipv4.toList ++ u.ipv6.toList).filterMap PathSettings.staticSource

/-- The static source addresses of all paths. -/
def Config.staticSources (c : Config) : List IpAddr := c.uplinks.flatMap Uplink.staticSources

structure Routing.Accepted (r : Routing) : Prop where
  tableBase_pos : 1 ≤ r.tableBase
  tableBase_le : r.tableBase + 191 ≤ 4294967294
  tables_unreserved : r.tableBase + 191 < 253 ∨ 255 < r.tableBase
  priorityBase_pos : 1 ≤ r.rulePriorityBase
  priorityBase_le : r.rulePriorityBase + 699 ≤ 32765
  protocol_mem : 5 ≤ r.routeProtocol ∧ r.routeProtocol ≤ 255
  discovery_outside : ∀ t ∈ r.discoveryTables, t < r.tableBase ∨ r.tableBase + 191 < t
  nodup_discovery : r.discoveryTables.Nodup

/-- What validation guarantees beyond what routing needs. -/
structure Config.Validated (c : Config) : Prop extends c.Valid where
  each : ∀ u ∈ c.uplinks, u.Accepted
  nodup_names : (c.uplinks.map Uplink.name).Nodup
  plain_names : ∀ i ∈ c.downlinks ++ c.uplinks.map Uplink.interface, PlainName i
  nodup_sources : c.staticSources.Nodup
  nodup_discovery : c.routing.discoveryTables.Nodup
  nodup_policies : (c.policies.map Policy.name).Nodup

structure Email.Accepted (t : Texts) (e : Email) : Prop where
  sender : checkMailbox t e.sender = .ok ()
  recipients_ne_nil : e.recipients ≠ []
  recipients : ∀ r ∈ e.recipients, checkMailbox t r = .ok ()

/-- What validation guarantees about notifications. -/
structure Notify.Accepted (t : Texts) (n : Notify) : Prop where
  coalesce_lt : n.coalesce < Duration.limit
  email : ∀ e ∈ n.email, e.Accepted t
  timeout_mem : ∀ h ∈ n.hooks, 0 < h.timeout ∧ h.timeout < Duration.limit

structure Configuration.Accepted (t : Texts) (c : Configuration) : Prop
    extends c.toConfig.Validated where
  notify : c.notify.Accepted t

namespace Validate

/-! ## Single values -/

section Values

variable {line : Option ℕ} {key message : String}

theorem clean_errIf (c : Prop) [Decidable c] :
    (errIf c line key message).Clean fun _ => ¬ c := Collect.Clean.reportIf c _

theorem clean_err {P : Unit → Prop} : (err line key message).Clean P :=
  (Collect.Clean.report _).mono fun _ h => h.elim

/-- What follows a problem does not matter. -/
theorem clean_err_bind {α : Type} {m : Check α} {P : α → Prop} :
    (err line key message >>= fun _ => m).Clean P :=
  (Collect.Clean.report _).bind fun _ h => h.elim

theorem clean_errOf (result : Except String Unit) :
    (errOf result line key).Clean fun _ => result = .ok () := by
  cases result with
  | ok u => exact Collect.Clean.pure rfl
  | error m => exact clean_err

theorem clean_checkedU32 (n : ℕ) : (checkedU32 n).Clean fun m => m = n := by
  refine (Collect.Clean.ofOption _).mono fun m hm => ?_
  exact (Option.some.inj (Option.ite_none_right_eq_some.mp hm).2).symm

theorem clean_int {type : IntType} {value : Option ℤ} {default low high : ℤ}
    (hlow : low ≤ default) (hhigh : default ≤ high) :
    (int type value default low high line key).Clean fun v => low ≤ v ∧ v ≤ high := by
  cases value with
  | none => exact Collect.Clean.pure ⟨hlow, hhigh⟩
  | some v =>
    refine Collect.Clean.ite (fun _ => clean_err_bind) fun hrange => ?_
    rw [not_or, not_lt, not_lt] at hrange
    refine Collect.Clean.pure ?_
    split
    · exact hrange
    · exact ⟨hlow, hhigh⟩

variable (t : Texts)

theorem clean_duration {value : Option String} {default : ℕ} (hdefault : default < Duration.limit) :
    (duration t value default line key).Clean fun d => d < Duration.limit := by
  cases value with
  | none => exact Collect.Clean.pure hdefault
  | some text =>
    simp only [duration]
    cases hparse : Duration.parse text with
    | none => exact clean_err_bind
    | some d => exact Collect.Clean.pure (lt_limit_of_parse hparse)

theorem clean_durationIn {value : Option String} {default low high : ℕ} :
    (durationIn t value default low high line key).Clean fun d => low ≤ d ∧ d ≤ high := by
  refine (Collect.Clean.trivial _).bind fun d _ => ?_
  refine Collect.Clean.ite (fun _ => clean_err_bind) fun hrange => ?_
  rw [not_or, not_lt, not_lt] at hrange
  exact Collect.Clean.pure hrange

theorem nodup_concat {α : Type} {l : List α} {a : α} (hl : l.Nodup) (ha : a ∉ l) :
    (l ++ [a]).Nodup := by
  rw [← List.concat_eq_append]
  exact hl.concat ha

theorem clean_discoveryTable {tableBase : ℕ} {tables : List ℕ} (ref : Raw.TableRef)
    (h : tables.Nodup ∧ ∀ id ∈ tables, id < tableBase ∨ tableBase + 191 < id) :
    (discoveryTable t line tableBase tables ref).Clean fun tables =>
      tables.Nodup ∧ ∀ id ∈ tables, id < tableBase ∨ tableBase + 191 < id := by
  refine (Collect.Clean.trivial _).bind fun id _ => ?_
  cases id with
  | none => exact Collect.Clean.pure h
  | some id =>
    refine (clean_checkedU32 _).bind fun last hlast => ?_
    refine Collect.Clean.ite (fun _ => clean_err_bind) fun hout => ?_
    refine Collect.Clean.ite (fun _ => Collect.Clean.pure h) fun hnew => ?_
    refine Collect.Clean.pure ⟨nodup_concat h.1 hnew, fun i hi => ?_⟩
    rcases List.mem_append.mp hi with hi | hi
    · exact h.2 i hi
    · obtain rfl := List.mem_singleton.mp hi
      omega

theorem clean_routing (raw : Option (Spanned Raw.Routing)) :
    (routing t raw).Clean Routing.Accepted := by
  refine (clean_int (by decide) (by decide)).bind fun base hbase => ?_
  refine (clean_checkedU32 _).bind fun last hlast => ?_
  refine (clean_errIf _).bind fun _ hreserved => ?_
  refine (clean_int (by decide) (by decide)).bind fun priorityBase hpriority => ?_
  refine (clean_int (by decide) (by decide)).bind fun protocol hprotocol => ?_
  refine (Collect.Clean.trivial _).bind fun mask _ => ?_
  refine (Collect.Clean.foldlM (fun _ tables => tables.Nodup ∧ ∀ id ∈ tables,
    id < base.toNat ∨ base.toNat + 191 < id) ⟨List.nodup_nil, by simp⟩
    fun _ ref tables h _ => clean_discoveryTable t ref h).bind fun tables htables => ?_
  refine (Collect.Clean.trivial _).bind fun interval _ => ?_
  exact Collect.Clean.pure
    { tableBase_pos := by dsimp only; omega
      tableBase_le := by dsimp only; omega
      tables_unreserved := by dsimp only; omega
      priorityBase_pos := by dsimp only; omega
      priorityBase_le := by dsimp only; omega
      protocol_mem := by dsimp only; omega
      discovery_outside := htables.2
      nodup_discovery := htables.1 }

/-! ## Paths and health -/

theorem clean_addr (f : Family) (value : Option String) :
    (addr t f line key value).Clean fun a => ∀ x, a = .static x → Family.of x = f := by
  have hauto : (pure .auto : Check (AutoOr IpAddr)).Clean
      fun a => ∀ x, a = .static x → Family.of x = f := Collect.Clean.pure (by simp)
  cases value with
  | none => exact hauto
  | some text =>
    refine Collect.Clean.ite (fun _ => hauto) fun _ => ?_
    cases t.parseAddr text with
    | none => exact clean_err_bind
    | some a =>
      refine Collect.Clean.ite (fun hfamily => ?_) fun _ => clean_err_bind
      refine Collect.Clean.pure fun x hx => ?_
      cases hx
      exact hfamily

theorem clean_path (raw : Spanned Raw.Path) (f : Family) :
    (path t raw f key).Clean (PathSettings.Accepted f) := by
  refine (clean_addr t f _).bind fun source hsource => ?_
  refine (clean_addr t f _).bind fun gateway hgateway => ?_
  refine (Collect.Clean.trivial _).bind fun _ _ => ?_
  refine (clean_errIf _).bind fun _ honlink => ?_
  refine (Collect.Clean.trivial _).bind fun nat _ => ?_
  refine (clean_errIf _).bind fun _ hsnat => ?_
  exact Collect.Clean.pure
    { source_family := hsource
      gateway_family := hgateway
      onlink := fun h hauto => honlink ⟨h, hauto⟩
      snat := fun h hauto => hsnat ⟨h, hauto⟩ }

/-- The targets so far: of the family, and no two the same. -/
def TargetsOf (f : Family) (l : List Target) : Prop :=
  l.Nodup ∧ ∀ x ∈ l, Family.of x.addr = f

theorem clean_target {f : Family} {l : List Target} (h : TargetsOf f l) (text : String) :
    (target t f line key l text).Clean (TargetsOf f) := by
  simp only [target]
  cases parseTarget t text with
  | error e => exact clean_err_bind
  | ok x =>
    refine Collect.Clean.ite (fun _ => clean_err_bind) fun hfamily => ?_
    refine Collect.Clean.ite (fun _ => clean_err_bind) fun _ => ?_
    refine Collect.Clean.ite (fun _ => clean_err_bind) fun hnew => ?_
    refine Collect.Clean.pure ⟨nodup_concat h.1 hnew, fun y hy => ?_⟩
    rcases List.mem_append.mp hy with hy | hy
    · exact h.2 y hy
    · obtain rfl := List.mem_singleton.mp hy
      exact not_not.mp hfamily

theorem clean_targets (h : Raw.Health) (families : List Family) (f : Family) :
    (targets t h families line key f).Clean fun l =>
      TargetsOf f l ∧ (f ∈ families → l ≠ []) := by
  refine (Collect.Clean.foldlM (fun _ => TargetsOf f) ⟨List.nodup_nil, by simp⟩
    fun _ text l hl _ => clean_target t hl text).bind fun l hl => ?_
  refine (clean_errIf _).bind fun _ hempty => ?_
  exact Collect.Clean.pure ⟨hl, fun hf hnil => hempty ⟨hnil, hf⟩⟩

theorem clean_sampleCapacity (enabled : Bool) (fewest : Option ℕ) (window : ℕ) :
    (sampleCapacity enabled fewest window).Clean fun capacity =>
      enabled = true → ∀ n ∈ fewest, capacity = some (n * window) := by
  cases enabled with
  | false => exact Collect.Clean.pure (by simp)
  | true =>
    cases fewest with
    | none => exact Collect.Clean.pure (by simp)
    | some n =>
      refine (Collect.Clean.ofOption _).bind fun capacity hcapacity => ?_
      refine Collect.Clean.pure fun _ m hm => ?_
      cases hm
      rw [← (Option.ite_none_right_eq_some.mp hcapacity).2]

theorem distinctAddresses_pos {l : List Target} (h : l ≠ []) : 0 < distinctAddresses l := by
  obtain ⟨x, hx⟩ := List.exists_mem_of_ne_nil l h
  exact List.length_pos_of_mem (List.mem_dedup.mpr (List.mem_map_of_mem hx))

/-- The smallest list bounds the samples of every family. -/
theorem samples_le_of_capacity {families : List Family} {size : Family → ℕ} {capacity : Option ℕ}
    {samples window : ℕ}
    (hcapacity : ∀ n ∈ (families.map size).min?, capacity = some (n * window))
    (henough : ¬ capacity.any (· < samples) = true) {f : Family} (hf : f ∈ families) :
    samples ≤ size f * window := by
  have hne : families.map size ≠ [] := List.ne_nil_of_mem (List.mem_map_of_mem hf)
  obtain ⟨n, hn⟩ := Option.isSome_iff_exists.mp (List.isSome_min?_of_ne_nil hne)
  rw [hcapacity n hn] at henough
  have hle : n ≤ size f := (List.min?_eq_some_iff.mp hn).2 _ (List.mem_map_of_mem hf)
  simp only [Option.any_some, decide_eq_true_eq, not_lt] at henough
  exact henough.trans (Nat.mul_le_mul_right window hle)

theorem clean_health (h : Raw.Health) (families : List Family) :
    (health t h families line key).Clean (Health.Accepted families) := by
  refine (clean_durationIn t).bind fun interval hinterval => ?_
  refine (Collect.Clean.trivial _).bind fun timeout _ => ?_
  refine (clean_errIf _).bind fun _ htimeout => ?_
  refine (clean_int (by decide) (by decide)).bind fun attempts hattempts => ?_
  refine (Collect.Clean.ofOption _).bind fun round hround => ?_
  refine (clean_errIf _).bind fun _ hshort => ?_
  refine (Collect.Clean.trivial _).bind fun fall _ => ?_
  refine (Collect.Clean.trivial _).bind fun rise _ => ?_
  refine (clean_targets t h families .v4).bind fun targetsV4 hv4 => ?_
  refine (clean_targets t h families .v6).bind fun targetsV6 hv6 => ?_
  refine (clean_int (by decide) (by decide)).bind fun required hrequired => ?_
  refine (Collect.Clean.forM fun f _ => clean_errIf _).bind fun _ hreachable => ?_
  refine (Collect.Clean.trivial _).bind fun gates _ => ?_
  refine (clean_int (by decide) (by decide)).bind fun window hwindow => ?_
  refine (clean_int (by decide) (by decide)).bind fun samples hsamples => ?_
  refine (clean_sampleCapacity _ _ _).bind fun capacity hcapacity => ?_
  refine (clean_errIf _).bind fun _ henough => ?_
  have htargets : ∀ (r : Health), r.targetsV4 = targetsV4 → r.targetsV6 = targetsV6 →
      ∀ f, TargetsOf f (r.targets f) ∧ (f ∈ families → r.targets f ≠ []) := by
    rintro r rfl rfl f
    cases f with
    | v4 => exact hv4
    | v6 => exact hv6
  refine Collect.Clean.pure
    { timeout_pos := Nat.pos_of_ne_zero htimeout
      attempts_pos := by dsimp only; omega
      attempts_le := by dsimp only; omega
      round_lt := ?_
      interval_le := hinterval.2
      target_family := fun f => (htargets _ rfl rfl f).1.2
      nodup_targets := fun f => (htargets _ rfl rfl f).1.1
      targets_ne_nil := fun f => (htargets _ rfl rfl f).2
      required_pos := by dsimp only; omega
      required_le := fun f hf => ?_
      window_mem := by dsimp only; omega
      samples_le := fun hgates f hf => ?_ }
  · obtain ⟨-, rfl⟩ := checked_eq_some.mp hround
    exact not_le.mp hshort
  · -- As many answers are required as there are addresses, at most.
    have hrequired : ∀ l : List Target, l ≠ [] →
        ¬ (0 < distinctAddresses l ∧ distinctAddresses l < required.toNat) →
        required.toNat ≤ distinctAddresses l := by
      intro l hl h
      have hpos := distinctAddresses_pos hl
      omega
    cases f with
    | v4 => exact hrequired _ (hv4.2 hf) (hreachable .v4 hf)
    | v6 => exact hrequired _ (hv6.2 hf) (hreachable .v6 hf)
  · have hsmallest := samples_le_of_capacity (hcapacity hgates) henough hf
    cases f with
    | v4 => exact hsmallest
    | v6 => exact hsmallest

/-! ## Uplinks -/

/-- What has been seen, after the downlinks. -/
structure Seen.Sound (downlinks : List String) (s : Seen) : Prop where
  taken : ∀ i ∈ downlinks ++ s.uplinks.map Uplink.interface, i ∈ s.interfaces
  nodup_interfaces : (downlinks ++ s.uplinks.map Uplink.interface).Nodup
  plain_names : ∀ i ∈ downlinks ++ s.uplinks.map Uplink.interface, PlainName i
  nodup_ids : (s.uplinks.map Uplink.id).Nodup
  nodup_names : (s.uplinks.map Uplink.name).Nodup
  each : ∀ u ∈ s.uplinks, u.Accepted
  sources : s.staticSources.map Prod.fst = s.uplinks.flatMap Uplink.staticSources
  nodup_sources : (s.staticSources.map Prod.fst).Nodup

theorem interfaceChar_plain {c : Char} (h : interfaceChar c = true) :
    c.toNat ≠ 0x22 ∧ c.toNat ≠ 0x27 ∧ isWhitespace c = false ∧ Nft.isControl c = false := by
  have hrange : (45 ≤ c.toNat ∧ c.toNat ≤ 58) ∨ (65 ≤ c.toNat ∧ c.toNat ≤ 122) ∨ c.toNat = 43 := by
    simp only [interfaceChar, Char.isAlphanum] at h
    delta Char.isAlpha Char.isUpper Char.isLower at h
    simp only [Char.isDigit, Bool.or_eq_true, Bool.and_eq_true, decide_eq_true_eq,
      UInt32.le_iff_toNat_le, ge_iff_le] at h
    have hnat : c.val.toNat = c.toNat := rfl
    rcases h with (((((h | h) | rfl) | rfl) | rfl) | rfl) | rfl
    · have hA : 'A'.val.toNat = 65 := rfl
      have hz : 'z'.val.toNat = 122 := rfl
      have hZ : 'Z'.val.toNat = 90 := rfl
      have ha : 'a'.val.toNat = 97 := rfl
      omega
    · have h0 : '0'.val.toNat = 48 := rfl
      have h9 : '9'.val.toNat = 57 := rfl
      omega
    all_goals decide
  simp only [isWhitespace, Nft.isControl, Bool.or_eq_false_iff, Bool.and_eq_false_iff,
    decide_eq_false_iff_not]
  omega

theorem plainName_of_check {name : String} (h : checkInterfaceName t name = .ok ()) :
    PlainName name := by
  simp only [checkInterfaceName] at h
  split at h
  · cases h
  · next hok =>
      simp only [not_or, not_not] at hok
      intro c hc
      exact interfaceChar_plain (List.all_eq_true.mp hok.2.2.2.2 c hc)

/-- A name that is taken is plain, and was free. -/
theorem clean_interface (seen : List String) (name taken : String) :
    (downlink.interface t seen name line key taken).Clean fun seen' =>
      PlainName name ∧ name ∉ seen ∧ seen' = name :: seen := by
  simp only [downlink.interface]
  cases hcheck : checkInterfaceName t name with
  | error e => exact clean_err_bind
  | ok u =>
    refine Collect.Clean.ite (fun _ => clean_err_bind) fun hfree => ?_
    exact Collect.Clean.pure ⟨plainName_of_check t hcheck, hfree, rfl⟩

/-- The downlinks so far. -/
structure DownlinksSound (seen : List String × List String) : Prop where
  taken : ∀ i ∈ seen.2, i ∈ seen.1
  nodup : seen.2.Nodup
  plain : ∀ i ∈ seen.2, PlainName i

theorem clean_downlink {seen : List String × List String} (h : DownlinksSound seen)
    (d : Spanned Raw.Downlink × ℕ) :
    (downlink t seen d).Clean fun seen' =>
      DownlinksSound seen' ∧ seen'.2 = seen.2 ++ [d.1.value.interface] := by
  refine (clean_interface t _ _ _).bind fun interfaces hinterface => ?_
  obtain ⟨hplain, hfree, rfl⟩ := hinterface
  refine Collect.Clean.pure ⟨⟨fun i hi => ?_, ?_, fun i hi => ?_⟩, rfl⟩
  · rcases List.mem_append.mp hi with hi | hi
    · exact List.mem_cons_of_mem _ (h.taken i hi)
    · exact List.mem_cons.mpr (.inl (List.mem_singleton.mp hi))
  · exact nodup_concat h.nodup fun hmem => hfree (h.taken _ hmem)
  · rcases List.mem_append.mp hi with hi | hi
    · exact h.plain i hi
    · exact List.mem_singleton.mp hi ▸ hplain

theorem clean_uplinkName (seen : List Uplink) (name : String) :
    (uplinkName t seen name line key).Clean fun _ =>
      validUplinkName name = true ∧ name ∉ seen.map Uplink.name := by
  refine Collect.Clean.ite (fun _ => clean_err) fun hvalid => ?_
  refine (clean_errIf _).mono fun _ hfree => ⟨not_not.mp hvalid, fun hmem => hfree ?_⟩
  obtain ⟨u, hu, hname⟩ := List.mem_map.mp hmem
  exact ⟨u, hu, hname⟩

theorem clean_staticSource {seen : List (IpAddr × String)} (name : String) (p : PathSettings)
    (h : (seen.map Prod.fst).Nodup) :
    (staticSource t line key name seen p).Clean fun seen' =>
      (seen'.map Prod.fst).Nodup ∧
      seen'.map Prod.fst = seen.map Prod.fst ++ p.staticSource.toList := by
  simp only [staticSource, PathSettings.staticSource]
  cases p.source with
  | auto => exact Collect.Clean.pure ⟨h, by simp⟩
  | static a =>
    refine (clean_errIf _).bind fun _ hfree => ?_
    have hnew : a ∉ seen.map Prod.fst := by
      intro hmem
      obtain ⟨s, hs, rfl⟩ := List.mem_map.mp hmem
      exact hfree (List.find?_isSome.mpr ⟨s, hs, decide_eq_true rfl⟩)
    have hmap : (seen ++ [(a, name)]).map Prod.fst = seen.map Prod.fst ++ [a] := by simp
    refine Collect.Clean.pure ⟨?_, hmap⟩
    rw [hmap]
    exact nodup_concat h hnew

theorem clean_uplinkId (id : ℤ) :
    (uplinkId id line key).Clean fun _ => 1 ≤ id ∧ id ≤ 63 := by
  simp only [uplinkId]
  cases hid : if 0 ≤ id ∧ id < 2 ^ 8 then UplinkId.new (BitVec.ofInt 8 id) else none with
  | none => exact clean_err_bind
  | some i =>
    refine Collect.Clean.pure ?_
    obtain ⟨hrange, hnew⟩ := Option.ite_none_right_eq_some.mp hid
    have hbits : (BitVec.ofInt 8 id).toNat = id.toNat := by
      rw [BitVec.toNat_ofInt]
      omega
    simp only [UplinkId.new, hbits] at hnew
    split at hnew
    · omega
    · cases hnew

theorem clean_optionalPath (raw : Option (Spanned Raw.Path)) (f : Family) :
    (optionalPath t raw f key).Clean fun p =>
      p.isSome = raw.isSome ∧ ∀ q ∈ p, q.Accepted f := by
  cases raw with
  | none => exact Collect.Clean.pure (by simp)
  | some raw =>
    refine (clean_path t raw f).bind fun p hp => Collect.Clean.pure ⟨rfl, ?_⟩
    rintro q ⟨⟩
    exact hp

theorem clean_staticSources {seen : List (IpAddr × String)} (name : String)
    (l : List PathSettings) (h : (seen.map Prod.fst).Nodup) :
    (l.foldlM (staticSource t line key name) seen).Clean fun seen' =>
      (seen'.map Prod.fst).Nodup ∧
      seen'.map Prod.fst = seen.map Prod.fst ++ l.filterMap PathSettings.staticSource := by
  refine Collect.Clean.foldlM (fun before (b : List (IpAddr × String)) =>
    (b.map Prod.fst).Nodup ∧ b.map Prod.fst =
    seen.map Prod.fst ++ before.filterMap PathSettings.staticSource) ⟨h, by simp⟩ ?_
  intro before p b hb _
  refine (clean_staticSource t name p hb.1).mono fun b' hb' => ⟨hb'.1, ?_⟩
  rw [hb'.2, hb.2, List.filterMap_append, List.append_assoc, List.filterMap_cons,
    List.filterMap_nil]
  cases p.staticSource <;> rfl

/-- One more uplink. -/
theorem Seen.Sound.concat {downlinks : List String} {seen : Seen} (h : seen.Sound downlinks)
    {u : Uplink} (hu : u.Accepted) (hplain : PlainName u.interface)
    (hfree : u.interface ∉ seen.interfaces) (hid : u.id ∉ seen.uplinks.map Uplink.id)
    (hname : u.name ∉ seen.uplinks.map Uplink.name) {sources : List (IpAddr × String)}
    (hnodup : (sources.map Prod.fst).Nodup)
    (hsources : sources.map Prod.fst = seen.staticSources.map Prod.fst ++ u.staticSources)
    {interfaces : List String} (htaken : interfaces = u.interface :: seen.interfaces) :
    Seen.Sound downlinks ⟨interfaces, seen.uplinks ++ [u], sources⟩ := by
  subst htaken
  have hinterfaces : downlinks ++ (seen.uplinks ++ [u]).map Uplink.interface =
      (downlinks ++ seen.uplinks.map Uplink.interface) ++ [u.interface] := by simp
  constructor
  · dsimp only
    rw [hinterfaces]
    intro i hi
    rcases List.mem_append.mp hi with hi | hi
    · exact List.mem_cons_of_mem _ (h.taken i hi)
    · exact List.mem_cons.mpr (.inl (List.mem_singleton.mp hi))
  · dsimp only
    rw [hinterfaces]
    exact nodup_concat h.nodup_interfaces fun hmem => hfree (h.taken _ hmem)
  · dsimp only
    rw [hinterfaces]
    intro i hi
    rcases List.mem_append.mp hi with hi | hi
    · exact h.plain_names i hi
    · exact List.mem_singleton.mp hi ▸ hplain
  · rw [List.map_append]
    exact nodup_concat h.nodup_ids hid
  · rw [List.map_append]
    exact nodup_concat h.nodup_names hname
  · intro v hv
    rcases List.mem_append.mp hv with hv | hv
    · exact h.each v hv
    · exact List.mem_singleton.mp hv ▸ hu
  · rw [hsources, h.sources, List.flatMap_append]
    simp
  · exact hnodup

theorem clean_uplink (globalHealth : Option (Spanned Raw.Health)) {downlinks : List String}
    {seen : Seen} (h : seen.Sound downlinks) (raw : Spanned Raw.Uplink × ℕ) :
    (uplink t globalHealth seen raw).Clean fun seen' =>
      seen'.Sound downlinks ∧ seen'.uplinks ≠ [] := by
  refine (clean_uplinkId _).bind fun id hrange => ?_
  refine (clean_errIf _).bind fun _ hid => ?_
  refine (clean_uplinkName t _ _).bind fun _ hname => ?_
  refine (clean_interface t _ _ _).bind fun interfaces hinterface => ?_
  refine (Collect.Clean.trivial _).bind fun priority _ => ?_
  refine (clean_int (by decide) (by decide)).bind fun weight hweight => ?_
  refine (clean_errIf _).bind fun _ hfamily => ?_
  refine (clean_optionalPath t _ _).bind fun ipv4 hipv4 => ?_
  refine (clean_optionalPath t _ _).bind fun ipv6 hipv6 => ?_
  refine (clean_staticSources t _ _ h.nodup_sources).bind fun sources hsources => ?_
  refine (clean_health t _ _).bind fun health hhealth => ?_
  obtain ⟨hplain, hfree, rfl⟩ := hinterface
  have hids : id ∉ seen.uplinks.map Uplink.id := by
    intro hmem
    obtain ⟨o, ho, heq⟩ := List.mem_map.mp hmem
    exact hid ⟨⟨o, ho, heq⟩, hrange⟩
  refine Collect.Clean.pure ⟨?_, by simp⟩
  refine h.concat ?_ ?_ ?_ ?_ ?_ hsources.1 ?_ ?_
  · have hfamilies : ∀ u : Uplink, u.ipv4 = ipv4 → u.ipv6 = ipv6 → u.families =
        (if ipv4.isSome then [Family.v4] else []) ++ if ipv6.isSome then [Family.v6] else [] := by
      rintro u rfl rfl
      cases h4 : u.ipv4 <;> cases h6 : u.ipv6 <;>
        simp [Uplink.families, Family.all, Uplink.path, h4, h6]
    refine ⟨hname.1, by dsimp only; omega, ?_, ?_, ?_⟩
    · rw [hfamilies _ rfl rfl, hipv4.1, hipv6.1]
      intro hnil
      cases h4 : raw.1.value.ipv4 <;> cases h6 : raw.1.value.ipv6 <;> simp_all
    · intro f p hp
      cases f with
      | v4 => exact hipv4.2 p hp
      | v6 => exact hipv6.2 p hp
    · rw [hfamilies _ rfl rfl]
      exact hhealth
  · exact hplain
  · exact hfree
  · exact hids
  · exact hname.2
  · exact hsources.2
  · rfl

/-! ## Policies -/

theorem clean_policyUplink (uplinks : List Uplink) (name : String) (f : Family) :
    (policyUplink t uplinks name f line key).Clean fun id =>
      ∀ i ∈ id, ∃ u ∈ uplinks, u.id = i ∧ (u.path f).isSome = true := by
  simp only [policyUplink]
  cases hfind : uplinks.find? fun u => u.name = name with
  | none => exact clean_err_bind
  | some u =>
    refine (clean_errIf _).bind fun _ henabled => ?_
    refine Collect.Clean.pure fun i hi => ?_
    cases hi
    exact ⟨u, List.mem_of_find?_eq_some hfind, rfl, Option.isSome_iff_ne_none.mpr henabled⟩

/-- The policies so far: each has an uplink for its family, and takes from a downlink. -/
def PoliciesSound (uplinks : List Uplink) (downlinks : List String) (l : List Policy) : Prop :=
  ∀ p ∈ l, (∃ u ∈ uplinks, u.id = p.uplink ∧ (u.path p.family).isSome) ∧
    ∀ i ∈ p.inputInterface, i ∈ downlinks

theorem clean_policy {uplinks : List Uplink} {downlinks : List String} {l : List Policy}
    (h : PoliciesSound uplinks downlinks l) (raw : Spanned Raw.Policy × ℕ) :
    (policy t uplinks downlinks l raw).Clean (PoliciesSound uplinks downlinks) := by
  refine (Collect.Clean.trivial _).bind fun before _ => ?_
  refine (clean_policyUplink t _ _ _).bind fun uplink huplink => ?_
  refine (clean_errIf _).bind fun _ hinput => ?_
  refine (Collect.Clean.trivial _).bind fun source _ => ?_
  refine (Collect.Clean.trivial _).bind fun destination _ => ?_
  refine (Collect.Clean.trivial _).bind fun _ _ => ?_
  refine (Collect.Clean.trivial _).bind fun port _ => ?_
  refine (Collect.Clean.trivial _).bind fun after _ => ?_
  refine Collect.Clean.ite (fun _ => Collect.Clean.pure h) fun _ => ?_
  cases uplink with
  | none => exact Collect.Clean.pure h
  | some id =>
    refine Collect.Clean.pure fun p hp => ?_
    rcases List.mem_append.mp hp with hp | hp
    · exact h p hp
    · obtain rfl := List.mem_singleton.mp hp
      refine ⟨huplink id rfl, fun i hi => ?_⟩
      by_contra hout
      exact hinput ((Option.any_eq_true _ _).mpr ⟨i, hi, decide_eq_true hout⟩)

theorem clean_policyNames (l : List (Policy × ℕ)) :
    (l.foldlM (policyName t) []).Clean fun _ => (l.map fun p => p.1.name).Nodup := by
  refine (Collect.Clean.foldlM (fun before (names : List String) =>
    (before.map fun p => p.1.name).Nodup ∧ ∀ p ∈ before, p.1.name ∈ names)
    ⟨List.nodup_nil, by simp⟩ fun before p names h _ => ?_).mono fun _ h => h.1
  refine (clean_errIf _).bind fun _ hnew => Collect.Clean.pure ⟨?_, fun q hq => ?_⟩
  · rw [List.map_append]
    refine nodup_concat h.1 fun hmem => ?_
    obtain ⟨q, hq, hname⟩ := List.mem_map.mp hmem
    have hmem := h.2 q hq
    rw [hname] at hmem
    exact hnew hmem
  · rcases List.mem_append.mp hq with hq | hq
    · exact List.mem_cons_of_mem _ (h.2 q hq)
    · rw [List.mem_singleton.mp hq]
      exact List.mem_cons_self

/-! ## Notifications -/

theorem clean_email (raw : Spanned Raw.Email) : (email t raw).Clean (Email.Accepted t) := by
  refine (Collect.Clean.trivial _).bind fun maxPerHour _ => ?_
  refine (clean_errOf _).bind fun _ hsender => ?_
  refine (clean_errIf _).bind fun _ hsome => ?_
  refine (Collect.Clean.forM fun r _ => clean_errOf _).bind fun _ hrecipients => ?_
  refine (clean_errIf _).bind fun _ _ => ?_
  refine (Collect.Clean.trivial _).bind fun events _ => ?_
  refine Collect.Clean.pure ⟨hsender, hsome, fun r hr => ?_⟩
  obtain ⟨i, hi⟩ := List.mem_iff_getElem?.mp hr
  exact hrecipients (r, i) (List.mem_zipIdx_iff_getElem?.mpr hi)

theorem clean_optionalEmail (raw : Option (Spanned Raw.Email)) :
    (optionalEmail t raw).Clean fun e => ∀ x ∈ e, x.Accepted t := by
  cases raw with
  | none => exact Collect.Clean.pure (by simp)
  | some raw =>
    refine (clean_email t raw).bind fun e he => Collect.Clean.pure ?_
    rintro x ⟨⟩
    exact he

theorem clean_hook {l : List Hook}
    (h : ∀ x ∈ l, 0 < x.timeout ∧ x.timeout < Duration.limit) (raw : Spanned Raw.Hook × ℕ) :
    (hook t l raw).Clean fun l => ∀ x ∈ l, 0 < x.timeout ∧ x.timeout < Duration.limit := by
  refine (clean_errIf _).bind fun _ _ => ?_
  refine (Collect.Clean.trivial _).bind fun _ _ => ?_
  refine (clean_duration t (by decide)).bind fun timeout htimeout => ?_
  refine (clean_errIf _).bind fun _ hpos => Collect.Clean.pure fun x hx => ?_
  rcases List.mem_append.mp hx with hx | hx
  · exact h x hx
  · rw [List.mem_singleton.mp hx]
    exact ⟨Nat.pos_of_ne_zero hpos, htimeout⟩

theorem clean_notify (raw : Option (Spanned Raw.Notify)) :
    (notify t raw).Clean (Notify.Accepted t) := by
  cases raw with
  | none => exact Collect.Clean.pure ⟨by decide, by simp, by simp⟩
  | some raw =>
    refine (clean_duration t (by decide)).bind fun coalesce hcoalesce => ?_
    refine (clean_optionalEmail t _).bind fun email hemail => ?_
    refine (Collect.Clean.foldlM (fun _ (l : List Hook) =>
      ∀ x ∈ l, 0 < x.timeout ∧ x.timeout < Duration.limit) (by simp)
      fun _ raw l hl _ => clean_hook t hl raw).bind fun hooks hhooks => ?_
    refine (clean_errOf _).bind fun _ _ => ?_
    exact Collect.Clean.pure ⟨hcoalesce, hemail, hhooks⟩

/-! ## The whole configuration -/

/-- **A run without problems gives an accepted configuration.** -/
theorem clean_configuration (raw : Raw.Config) :
    (configuration t raw).Clean (Configuration.Accepted t) := by
  refine (clean_routing t _).bind fun routing hrouting => ?_
  refine (Collect.Clean.trivial _).bind fun firewall _ => ?_
  refine (clean_errIf _).bind fun _ hdownlink => ?_
  refine (Collect.Clean.foldlM (fun before (seen : List String × List String) =>
    DownlinksSound seen ∧ (before ≠ [] → seen.2 ≠ [])) ⟨⟨by simp, by simp, by simp⟩, by simp⟩
    fun before d seen h _ => (clean_downlink t h.1 d).mono
      fun seen' h' => ⟨h'.1, fun _ => by simp [h'.2]⟩).bind fun downlinks hdownlinks => ?_
  refine (clean_errIf _).bind fun _ huplink => ?_
  refine (Collect.Clean.foldlM (fun before (seen : Seen) =>
    seen.Sound downlinks.2 ∧ (before ≠ [] → seen.uplinks ≠ [])) ⟨?_, by simp⟩
    fun before u seen h _ => (clean_uplink t raw.health h.1 u).mono
      fun seen' h' => ⟨h'.1, fun _ => h'.2⟩).bind fun seen hseen => ?_
  · exact ⟨by simpa using hdownlinks.1.taken, by simpa using hdownlinks.1.nodup,
      by simpa using hdownlinks.1.plain, by simp, by simp, by simp, by simp, by simp⟩
  refine (Collect.Clean.trivial _).bind fun _ _ => ?_
  refine (Collect.Clean.foldlM (fun _ => PoliciesSound seen.uplinks downlinks.2)
    (by simp [PoliciesSound]) fun _ p l hl _ => clean_policy t hl p).bind
      fun policies hpolicies => ?_
  refine (clean_policyNames t _).bind fun _ hnames => ?_
  refine (clean_notify t _).bind fun notify hnotify => ?_
  refine (Collect.Clean.trivial _).bind fun api _ => ?_
  refine (Collect.Clean.trivial _).bind fun metricsListen _ => ?_
  refine (Collect.Clean.trivial _).bind fun stateDir _ => Collect.Clean.pure ?_
  obtain ⟨hseen, hsome⟩ := hseen
  have hzip : ∀ {α : Type} {l : List α}, l ≠ [] → l.zipIdx ≠ [] := by
    intro α l hl hnil
    exact hl (List.zipIdx_eq_nil_iff.mp hnil)
  exact
    { nodup_ids := hseen.nodup_ids
      nodup_interfaces := hseen.nodup_interfaces
      uplinks_ne_nil := hsome (hzip huplink)
      downlinks_ne_nil := hdownlinks.2 (hzip hdownlink)
      families_ne_nil := fun u hu => (hseen.each u hu).families_ne_nil
      weight_mem := fun u hu => (hseen.each u hu).weight_mem
      tableBase_pos := hrouting.tableBase_pos
      tableBase_le := hrouting.tableBase_le
      tables_unreserved := hrouting.tables_unreserved
      priorityBase_pos := hrouting.priorityBase_pos
      priorityBase_le := hrouting.priorityBase_le
      protocol_mem := hrouting.protocol_mem
      discovery_outside := hrouting.discovery_outside
      policy_uplink := fun p hp => (hpolicies p hp).1
      policy_input := fun p hp => (hpolicies p hp).2
      each := hseen.each
      nodup_names := hseen.nodup_names
      plain_names := hseen.plain_names
      nodup_sources := by
        have hnodup := hseen.nodup_sources
        rwa [hseen.sources] at hnodup
      nodup_discovery := hrouting.nodup_discovery
      nodup_policies := by
        have hmap : policies.zipIdx.map (Policy.name ∘ Prod.fst) = policies.map Policy.name := by
          rw [← List.map_map, List.zipIdx_map_fst]
        exact hmap ▸ hnames
      notify := hnotify }

end Values

end Validate

/-- **What is accepted satisfies what the rest of the program assumes.** -/
theorem accepted_of_validate {t : Texts} {raw : Raw.Config} {c : Configuration}
    (h : validate t raw = some (.ok c)) : c.Accepted t := by
  obtain ⟨⟨c', ds⟩, hrun, hresult⟩ := Option.map_eq_some_iff.mp h
  dsimp only at hresult
  split at hresult
  · next hds =>
      cases hresult
      rw [hds] at hrun
      exact Validate.clean_configuration t raw [] c hrun
  · cases hresult

/-- **Accepted configurations satisfy what the rest of the program assumes.** -/
theorem validate_sound (t : Texts) (raw : Raw.Config) (c : Configuration)
    (h : validate t raw = some (.ok c)) :
    c.toConfig.Validated ∧ ∀ u ∈ c.uplinks, 1 ≤ u.id.num ∧ u.id.num ≤ 63 :=
  ⟨(accepted_of_validate h).toValidated, fun u _ => ⟨u.id.num_pos, u.id.num_le⟩⟩

namespace Sample

/-- Texts without escapes, and two addresses. -/
def texts : Texts where
  debug := fun text => "\"" ++ text ++ "\""
  addr := fun _ => "1.1.1.1"
  fraction := fun _ => "2"
  parseAddr := fun text =>
    if text = "1.1.1.1" then some (.v4 0x01010101)
    else if text = "192.0.2.1" then some (.v4 0xc0000201)
    else none
  parseSocketAddr := fun _ => none
  parseNet := fun _ => none

/-- The health settings of a file. -/
def rawHealth : Raw.Health where
  attempts := some 3
  requiredReachable := some 1
  ipv4 := some ["icmp:1.1.1.1"]
  ipv6 := some []

/-- A file with one uplink and a policy. -/
def raw : Raw.Config where
  downlink := [⟨⟨"lan0"⟩, 1⟩]
  uplink := [⟨{ id := 1, name := "fibre", interface := "wan1", priority := some 1
                ipv4 := some ⟨{ source := some "192.0.2.1", nat := some .snat }, 5⟩ }, 3⟩]
  health := some ⟨rawHealth, 9⟩
  policy := [⟨⟨"phones", .v4, some "lan0", none, none, some .udp, some (.port 5060), "fibre",
    none⟩, 12⟩]

/-- What becomes of it. -/
def configuration : Configuration where
  routing := routing
  firewall := firewall
  downlinks := ["lan0"]
  uplinks := [{ uplink id1 "fibre" "wan1" with
    ipv4 := some { settings with source := .static (.v4 0xc0000201), nat := .snat }
    health := { health with attempts := 3 } }]
  policies := [⟨"phones", .v4, some "lan0", none, none, some .udp, some (5060, 5060), id1,
    .balance⟩]
  notify := { coalesce := ofSecs 30, email := none, hooks := [], hookUser := "nobody" }
  api := { socket := "/run/polywan/api.sock", group := "polywan"
           statusSocket := some "/run/polywan/status.sock", statusGroup := none }
  metricsListen := none
  stateDir := "/var/lib/polywan"

theorem validate_raw : validate texts raw = some (.ok configuration) := by decide +kernel

end Sample

theorem validate_sound_sample : Sample.configuration.toConfig.Validated ∧
    ∀ u ∈ Sample.configuration.uplinks, 1 ≤ u.id.num ∧ u.id.num ≤ 63 :=
  validate_sound Sample.texts Sample.raw Sample.configuration Sample.validate_raw

end Polywan
