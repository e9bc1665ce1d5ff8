import Polywan.Api

/-!
# Prepared sockets

A preparation publishes the sockets of new places and serves none of them; taking it back
removes exactly these.

## Main results

* `Api.Manager.files_discard_prepare`, `Api.Manager.serving_prepare` — a preparation, but
  for what it bound, leaves the sockets and what is served.
-/

namespace Polywan.Api

theorem filter_true (x : Option ℕ) : (x.filter fun _ => true) = x := by
  cases x <;> simp [Option.filter_some]

/-- The object at a path after a socket is removed. -/
theorem getElem?_unpublish (files : Std.ExtTreeMap String ℕ) (l : Listener) (k : String) :
    (unpublish files l)[k]? = (files[k]?).filter fun i => l.published ≠ some ⟨k, i⟩ := by
  cases hpublished : l.published with
  | none => simp [unpublish, hpublished, filter_true]
  | some p =>
    obtain ⟨path, inode⟩ := p
    simp only [unpublish, hpublished]
    by_cases hpath : path = k
    · subst hpath
      cases hfile : files[path]? with
      | none => simp [hfile]
      | some i =>
        by_cases hinode : i = inode
        · simp [hinode, Option.filter_some]
        · simp [hinode, Ne.symm hinode, hfile, Option.filter_some]
    · have hother : (unpublish files l)[k]? = files[k]? := by
        simp only [unpublish, hpublished]
        split
        · simp [Std.ExtTreeMap.getElem?_erase, hpath]
        · rfl
      simpa [unpublish, hpublished, hpath, filter_true] using hother

/-- The object at a path after some sockets are removed. -/
theorem getElem?_foldl_unpublish (ls : List Listener) (files : Std.ExtTreeMap String ℕ)
    (k : String) :
    (ls.foldl unpublish files)[k]? =
      (files[k]?).filter fun i => !ls.any fun l => l.published = some ⟨k, i⟩ := by
  induction ls generalizing files with
  | nil => simp [filter_true]
  | cons l ls ih =>
    rw [List.foldl_cons, ih, getElem?_unpublish, Option.filter_filter]
    congr 1
    funext i
    simp

namespace Manager

variable {m m' : Manager} {o : Outcomes}

theorem files_discard_bind {e : Endpoint} (h : m.bind o e = some m') :
    m'.discard.files = m.discard.files := by
  apply Std.ExtTreeMap.ext_getElem?
  intro k
  simp only [discard, getElem?_foldl_unpublish]
  simp only [bind] at h
  split at h
  · simp at h
  · split at h
    · next path _ _ =>
        split at h
        · simp at h
        · next hfree =>
            obtain rfl := Option.some.inj h
            have hnone : m.files[path]? = none := by simpa using hfree
            by_cases hk : path = k
            · subst hk
              simp [hnone]
            · simp [Std.ExtTreeMap.getElem?_insert, hk]
    · obtain rfl := Option.some.inj h
      simp

theorem serving_bind {e : Endpoint} (h : m.bind o e = some m') : m'.serving = m.serving := by
  simp only [bind] at h
  split at h
  · simp at h
  · split at h
    · split at h
      · simp at h
      · obtain rfl := Option.some.inj h
        rfl
    · obtain rfl := Option.some.inj h
      rfl

theorem bindAll_frame (m : Manager) (o : Outcomes) (endpoints : List Endpoint) :
    (m.bindAll o endpoints).1.discard.files = m.discard.files ∧
      (m.bindAll o endpoints).1.serving = m.serving := by
  induction endpoints generalizing m with
  | nil => exact ⟨rfl, rfl⟩
  | cons e rest ih =>
    simp only [bindAll]
    split
    · split
      · exact ⟨rfl, rfl⟩
      · exact ih m
    · split
      · next m' hbind =>
          obtain ⟨hfiles, hserving⟩ := ih m'
          exact ⟨hfiles.trans (files_discard_bind hbind), hserving.trans (serving_bind hbind)⟩
      · exact ⟨rfl, rfl⟩

theorem serving_prepare (m : Manager) (o : Outcomes) (endpoints : List Endpoint) :
    (m.prepare o endpoints).1.serving = m.serving := by
  have hserving := (m.discard.bindAll_frame o endpoints).2
  simp only [prepare]
  split
  · exact hserving
  · exact hserving

end Manager

end Polywan.Api
