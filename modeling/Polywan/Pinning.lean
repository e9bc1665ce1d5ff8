import Polywan.Nft.Ownership
import Polywan.Routing

/-!
# A connection stays on its path

The chains and the routing rules together: once the mark of a connection holds a
path id, no packet of the connection is ever routed by another table of the
program, whatever happens to the configuration or to the path.

## Main definitions

* `OfConnection k f e` — a packet of a connection of family `f` at a chain of an
  accepted configuration that manages the family.
* `OnPath` — the outcomes a pinned packet may have.
-/

namespace Polywan

open Nft

/-- A tracked packet of a connection, at a chain of an accepted configuration
that manages its family and keeps the field in place. -/
structure OfConnection (k : FwMask) (f : Family) (e : Event) : Prop where
  valid : e.config.Valid
  mask : e.config.routing.fwmarkMask = k
  manages : e.config.manages f = true
  family : e.packet.family = f
  tracked : e.packet.tracked = true
  host : e.hook = .prerouting → e.packet.host = true

/-- The main table, the path's own table, or a rejection. -/
def OnPath (c : Config) (id : UplinkId) (covered : Bool) (v : Verdict) : Prop :=
  v = .main ∧ covered = true ∨ v = .unreachable ∨
    ∃ r, v = .route r ∧ r.table = (Layout.of c).pathTable id

section Pinned

variable {k : FwMask} {f : Family} {ct : BitVec 32} {id : UplinkId} {e : Event}

/-- No chain writes the mark of a connection that has a path. -/
theorem conntrack_marks_of_pinned (hk : e.config.routing.fwmarkMask = k)
    (hpin : k.field ct = .path id) : (e.marks ct).conntrack = ct := by
  subst hk
  have hpath : pathOf e.config.routing.fwmarkMask ct = some id := (pathOf_eq_some_iff _).mpr hpin
  have key : ∀ {m' : Marks} {h : Nft.Hook}, Change e.config e.packet ⟨e.mark, ct⟩ h m' →
      m'.conntrack = ct := by
    intro m' h hch
    cases hch with
    | keep | restore | policy => rfl
    | assign _ u hu hf hskip htracked hunicast horiginal hnone hinterface => simp [hpath] at hnone
  exact key (change_run e.config e.hook e.packet ⟨e.mark, ct⟩)

theorem conntrackAfter_of_pinned {events : List Event}
    (hk : ∀ e ∈ events, e.config.routing.fwmarkMask = k) (hpin : k.field ct = .path id) :
    conntrackAfter ct events = ct := by
  induction events with
  | nil => rfl
  | cons e events ih =>
    have hstep : (e.marks ct).conntrack = ct :=
      conntrack_marks_of_pinned (hk e List.mem_cons_self) hpin
    have hrest := ih fun e' he' => hk e' (List.mem_cons_of_mem e he')
    simpa [conntrackAfter, hstep] using hrest

/-- Before it is routed, a packet of a pinned connection is restored. -/
theorem OfConnection.restores (he : OfConnection k f e) (hpin : k.field ct = .path id)
    (hhook : e.hook = .prerouting ∨ e.hook = .output ∧ (k.field e.mark).cls ≠ .probe) :
    Restores e.config e.hook e.packet ⟨e.mark, ct⟩ id where
  hook := by
    rw [he.mask]
    exact hhook.imp_left fun hh => ⟨hh, he.host hh⟩
  managed := he.family ▸ he.manages
  tracked := he.tracked
  path := by rwa [he.mask]

/-- It carries the path then. -/
theorem field_marks_of_pinned (he : OfConnection k f e) (hpin : k.field ct = .path id)
    (hhook : e.hook = .prerouting ∨ e.hook = .output ∧ (k.field e.mark).cls ≠ .probe) :
    k.field (e.marks ct).packet = .path id := by
  have hmarks : e.marks ct = (⟨e.mark, ct⟩ : Marks).restored e.config.routing.fwmarkMask id :=
    run_of_restores he.valid (he.restores hpin hhook)
  rw [hmarks, he.mask]
  exact field_overwrite k e.mark (.path id)

/-- A path value is routed on its path by every plan. -/
theorem onPath_of_field {c : Config} {i : Input} {l : List Rule} {p : Flow}
    (hm : c.manages p.family = true) (ho : (plan c i).Order l)
    (hfield : c.routing.fwmarkMask.field p.mark = .path id) :
    ∃ v, Lib.walk (Rule.decide (plan c i).table p) l = some v ∧ OnPath c id p.covered v := by
  obtain ⟨hc, hid⟩ := (FieldValue.eq_path_iff _ _).mp hfield
  cases hcov : p.covered with
  | true => exact ⟨.main, walk_covered hm ho (by simp [hc]) hcov, .inl ⟨rfl, rfl⟩⟩
  | false =>
    refine ⟨_, walk_path hm ho hcov hc hid, .inr ?_⟩
    cases hr : tableRoute c i p.family (.path id) with
    | none => exact .inl rfl
    | some r =>
      refine .inr ⟨r, rfl, ?_⟩
      exact congrArg TableKey.table (tableRoute_key hr)

/-- **A connection stays on its path.**  Once the mark of a connection holds a
path id it holds it for ever, and every later packet, probes aside, is routed by
the main table when that covers it, by the table of the path, or rejected,
whatever configuration and state the rules are planned from by then. -/
theorem pinned_forever {before after : List Event}
    (hevents : ∀ e ∈ before ++ after, OfConnection k f e)
    (hpin : k.field (conntrackAfter ct before) = .path id) :
    k.field (conntrackAfter ct (before ++ after)) = .path id ∧
      ∀ e, OfConnection k f e →
        (e.hook = .prerouting ∨ e.hook = .output ∧ (k.field e.mark).cls ≠ .probe) →
        ∀ (c : Config) (i : Input) (l : List Rule) (source : IpAddr) (covered : Bool),
          c.routing.fwmarkMask = k → c.manages f = true → (plan c i).Order l →
          ∃ v, Lib.walk (Rule.decide (plan c i).table
              ⟨f, (e.marks (conntrackAfter ct (before ++ after))).packet, source, covered⟩) l =
                some v ∧ OnPath c id covered v := by
  have hsame : conntrackAfter ct (before ++ after) = conntrackAfter ct before := by
    have hk : ∀ e ∈ after, e.config.routing.fwmarkMask = k :=
      fun e he => (hevents e (List.mem_append_right before he)).mask
    rw [conntrackAfter, List.foldl_append]
    exact conntrackAfter_of_pinned hk hpin
  rw [hsame]
  refine ⟨hpin, ?_⟩
  intro e he hhook c i l source covered hmask hm ho
  have hfield := field_marks_of_pinned he hpin hhook
  subst hmask
  exact onPath_of_field
    (p := ⟨f, (e.marks (conntrackAfter ct before)).packet, source, covered⟩) hm ho hfield

end Pinned

/-- A connection that came in through the first uplink of the sample is rejected,
and not balanced, once the uplink is gone from the configuration. -/
theorem pinned_forever_sample :
    let c : Config := { Sample.config with uplinks := [Sample.uplink Sample.id2 "radio" "wan2"] }
    let e : Event := ⟨Sample.config, .prerouting, Nft.Sample.inbound, 0⟩
    ∃ v, Lib.walk (Rule.decide (plan c Sample.input).table
        ⟨.v4, (e.marks (conntrackAfter 0 [e])).packet, .v4 0x01010101, false⟩)
        (plan c Sample.input).ordered = some v ∧ OnPath c Sample.id1 false v := by
  intro c e
  have he : OfConnection FwMask.default .v4 e :=
    ⟨Sample.config_valid, rfl, by decide, rfl, rfl, fun _ => rfl⟩
  have h := @pinned_forever FwMask.default .v4 0 Sample.id1 [e] [] (by simpa using he) (by decide)
  exact h.2 e he (.inl rfl) c Sample.input _ (.v4 0x01010101) false rfl (by decide)
    (Desired.order_ordered _)

end Polywan
