import Mathlib.Logic.Relation
import Polywan.Config.Check

/-!
# What resolving a path goes through

The check of a trusted path looks at every directory that its resolution traverses, through
symbolic links too: the owner of each can replace what follows.  The links themselves are left
out, since their directory decides who can replace them.

## Main definitions

* `traversed` — the directories and the file, root first, by at most 40 links.
* `Looks` — a step of resolving a path, as the kernel takes it.

## Main results

* `traversed_sees` — the result has every directory that a component is looked up in.
-/

namespace Polywan.Checks

/-- A component of a path. -/
inductive Component
  | root
  | parent
  | normal (name : List Char)
deriving DecidableEq

/-- The components of a path; those that stay in a directory are left out. -/
def components (path : List Char) : List Component :=
  (if path.head? = some '/' then [.root] else []) ++ (splitOn '/' path).filterMap fun part =>
    if part = [] ∨ part = ['.'] then none
    else if part = ['.', '.'] then some .parent
    else some (.normal part)

/-- An absolute path without links, by the names on the way from the root. -/
abbrev Resolved : Type := List (List Char)

/-- What a file system has at a path: an error, the target of a symbolic link, or something
else. -/
abbrev FileSystem : Type := Resolved → Except String (Option (List Char))

/-- Resolves the components that are left, in a directory. -/
def resolve (link : FileSystem) (links : ℕ) (cur : Resolved) (out : List Resolved) :
    List Component → Except String (List Resolved)
  | [] => .ok out
  | .root :: rest => resolve link links [] out rest
  | .parent :: rest => resolve link links cur.dropLast out rest
  | .normal name :: rest =>
    let next := cur ++ [name]
    match link next with
    | .error e => .error e
    | .ok (some target) =>
      if 40 < links + 1 then .error "too many levels of symbolic links"
      else resolve link (links + 1) cur out (components target ++ rest)
    | .ok none => resolve link links next (if next ∈ out then out else out ++ [next]) rest
termination_by rest => (40 - links, rest.length)

/-- The directories and the file that resolving a path goes through. -/
def traversed (link : FileSystem) (path : List Char) : Except String (List Resolved) :=
  resolve link 0 [] [[]] (components path)

/-! ## Resolving a path -/

/-- The resolution of a path: the directory, the components to look up, and the links followed. -/
structure Lookup where
  cur : Resolved
  rest : List Component
  links : ℕ

/-- A component is looked up; a relative target resolves from the directory of its link. -/
inductive Looks (link : FileSystem) : Lookup → Lookup → Prop
  | root {cur rest links} : Looks link ⟨cur, .root :: rest, links⟩ ⟨[], rest, links⟩
  | parent {cur rest links} : Looks link ⟨cur, .parent :: rest, links⟩ ⟨cur.dropLast, rest, links⟩
  | entry {cur name rest links} (h : link (cur ++ [name]) = .ok none) :
      Looks link ⟨cur, .normal name :: rest, links⟩ ⟨cur ++ [name], rest, links⟩
  | follow {cur name rest links target} (h : link (cur ++ [name]) = .ok (some target)) :
      Looks link ⟨cur, .normal name :: rest, links⟩ ⟨cur, components target ++ rest, links + 1⟩

/-- The lookups of a resolution. -/
def Visits (link : FileSystem) : Lookup → Lookup → Prop := Relation.ReflTransGen (Looks link)

/-- A lookup that finds nothing. -/
def Missing (link : FileSystem) (s : Lookup) : Prop :=
  ∃ name rest e, s.rest = .normal name :: rest ∧ link (s.cur ++ [name]) = .error e

variable {link : FileSystem} {s s' : Lookup}

theorem Looks.unique {t t' : Lookup} (h : Looks link s t) (h' : Looks link s t') : t = t' := by
  cases h <;> cases h' <;> simp_all

/-- A resolution is at its first lookup or goes on from the next. -/
theorem Visits.cases_of_looks {t : Lookup} (hlooks : Looks link s t) (h : Visits link s s') :
    s' = s ∨ Visits link t s' := by
  rcases h.cases_head with rfl | ⟨t', ht, hrest⟩
  · exact .inl rfl
  · exact .inr (hlooks.unique ht ▸ hrest)

/-- What holds of a resolution that succeeds with `out`, from a lookup on. -/
structure Seen (link : FileSystem) (s : Lookup) (out : List Resolved) : Prop where
  links_le : ∀ s', Visits link s s' → s'.links ≤ 40
  ancestors : ∀ s', Visits link s s' → ∀ p, p <+: s'.cur → p ∈ out
  found : ∀ s', Visits link s s' → ¬ Missing link s'
  ends : ∃ s', Visits link s s' ∧ s'.rest = []

/-- What holds from the next lookup on holds from a lookup on. -/
theorem Seen.of_looks {t : Lookup} {out : List Resolved} (hlooks : Looks link s t)
    (h : Seen link t out) (hlinks : s.links ≤ 40) (hcur : ∀ p, p <+: s.cur → p ∈ out)
    (hfound : ¬ Missing link s) : Seen link s out where
  links_le s' hs := by
    rcases hs.cases_of_looks hlooks with rfl | hs
    · exact hlinks
    · exact h.links_le s' hs
  ancestors s' hs := by
    rcases hs.cases_of_looks hlooks with rfl | hs
    · exact hcur
    · exact h.ancestors s' hs
  found s' hs := by
    rcases hs.cases_of_looks hlooks with rfl | hs
    · exact hfound
    · exact h.found s' hs
  ends := by
    obtain ⟨s', hs, hend⟩ := h.ends
    exact ⟨s', Relation.ReflTransGen.head hlooks hs, hend⟩

theorem prefix_of_prefix_dropLast {p cur : Resolved} (h : p <+: cur.dropLast) : p <+: cur :=
  h.trans (List.dropLast_prefix cur)

/-- Resolving keeps what it has, adds what is not a link, and sees every directory. -/
theorem resolve_sees {links : ℕ} {cur : Resolved} {out out' : List Resolved}
    {rest : List Component} (hlinks : links ≤ 40) (hcur : ∀ p, p <+: cur → p ∈ out)
    (h : resolve link links cur out rest = .ok out') :
    out ⊆ out' ∧ (∀ p ∈ out', p ∈ out ∨ link p = .ok none) ∧ Seen link ⟨cur, rest, links⟩ out' := by
  fun_induction resolve link links cur out rest with
  | case1 links cur out =>
    obtain rfl := Except.ok.inj h
    have hself : ∀ s', Visits link ⟨cur, [], links⟩ s' → s' = ⟨cur, [], links⟩ := by
      intro s' hs
      rcases hs.cases_head with rfl | ⟨t, ht, -⟩
      · rfl
      · cases ht
    refine ⟨List.Subset.refl _, fun p hp => .inl hp, ?_⟩
    exact
      { links_le := fun s' hs => hself s' hs ▸ hlinks
        ancestors := fun s' hs => hself s' hs ▸ hcur
        found := fun s' hs => by
          rw [hself s' hs]
          rintro ⟨name, rest, e, hrest, -⟩
          cases hrest
        ends := ⟨_, Relation.ReflTransGen.refl, rfl⟩ }
  | case2 links cur out rest ih =>
    have hroot : ∀ p : Resolved, p <+: [] → p ∈ out := fun p hp =>
      hcur p (hp.trans List.nil_prefix)
    obtain ⟨hsub, hnew, hseen⟩ := ih hlinks hroot h
    refine ⟨hsub, hnew, hseen.of_looks .root hlinks (fun p hp => hsub (hcur p hp)) ?_⟩
    rintro ⟨name, rest, e, hrest, -⟩
    cases hrest
  | case3 links cur out rest ih =>
    obtain ⟨hsub, hnew, hseen⟩ := ih hlinks (fun p hp => hcur p (prefix_of_prefix_dropLast hp)) h
    refine ⟨hsub, hnew, hseen.of_looks .parent hlinks (fun p hp => hsub (hcur p hp)) ?_⟩
    rintro ⟨name, rest, e, hrest, -⟩
    cases hrest
  | case4 links cur out name rest next e hlink => cases h
  | case5 links cur out name rest next target hlink hmany => cases h
  | case6 links cur out name rest next target hlink hfew ih =>
    obtain ⟨hsub, hnew, hseen⟩ := ih (by omega) hcur h
    refine ⟨hsub, hnew, hseen.of_looks (.follow hlink) hlinks (fun p hp => hsub (hcur p hp)) ?_⟩
    rintro ⟨name', rest', e, hrest, herror⟩
    cases hrest
    cases hlink.symm.trans herror
  | case7 links cur out name rest next hlink ih =>
    have hmem : ∀ p, p ∈ (if next ∈ out then out else out ++ [next]) ↔ p ∈ out ∨ p = next := by
      intro p
      split_ifs with hnext
      · exact ⟨.inl, fun hp => hp.elim id fun hp => hp ▸ hnext⟩
      · simp
    have hprefix : ∀ p, p <+: next → p ∈ if next ∈ out then out else out ++ [next] := by
      intro p hp
      rcases List.prefix_concat_iff.mp hp with rfl | hp
      · exact (hmem _).mpr (.inr rfl)
      · exact (hmem _).mpr (.inl (hcur p hp))
    obtain ⟨hsub, hnew, hseen⟩ := ih hlinks hprefix h
    have hout : out ⊆ out' := fun p hp => hsub ((hmem p).mpr (.inl hp))
    refine ⟨hout, fun p hp => ?_,
      hseen.of_looks (.entry hlink) hlinks (fun p hp => hout (hcur p hp)) ?_⟩
    · rcases hnew p hp with hp | hp
      · rcases (hmem p).mp hp with hp | rfl
        · exact .inl hp
        · exact .inr hlink
      · exact .inr hp
    · rintro ⟨name', rest', e, hrest, herror⟩
      cases hrest
      cases hlink.symm.trans herror

/-- **The check sees every directory that matters.**  If resolving a path succeeds, it took at most
40 links, everything looked up exists, and the result has the root, each directory that a component
is looked up in with every directory above it, and what the path leads to; it has no symbolic link
but the root, which is not looked up.  Resolving fails if a component is missing or there are more
than 40 links. -/
theorem traversed_sees (link : FileSystem) (path : List Char) :
    (∀ out, traversed link path = .ok out →
      [] ∈ out ∧ (∀ p ∈ out, p = [] ∨ link p = .ok none) ∧ Seen link ⟨[], components path, 0⟩ out) ∧
    ((∃ s, Visits link ⟨[], components path, 0⟩ s ∧ (Missing link s ∨ 40 < s.links)) →
      ∃ e, traversed link path = .error e) := by
  have hstart : ∀ p : Resolved, p <+: [] → p ∈ [([] : Resolved)] := fun p hp =>
    List.mem_singleton.mpr (List.prefix_nil.mp hp)
  constructor
  · intro out h
    obtain ⟨hsub, hnew, hseen⟩ := resolve_sees (Nat.zero_le 40) hstart h
    exact ⟨hsub List.mem_cons_self, fun p hp => (hnew p hp).imp List.mem_singleton.mp id, hseen⟩
  · rintro ⟨s, hs, hbad⟩
    cases h : traversed link path with
    | error e => exact ⟨e, rfl⟩
    | ok out =>
      obtain ⟨-, -, hseen⟩ := resolve_sees (Nat.zero_le 40) hstart h
      rcases hbad with hmissing | hmany
      · exact absurd hmissing (hseen.found s hs)
      · exact absurd (hseen.links_le s hs) (by omega)

/-- A relative link `/e/a` to `../b`, and an absolute one from `/b` to `/c`. -/
def linked : FileSystem := fun p =>
  if p = [['e']] ∨ p = [['c']] then .ok none
  else if p = [['e'], ['a']] then .ok (some ['.', '.', '/', 'b'])
  else if p = [['b']] then .ok (some ['/', 'c'])
  else .error "no such file"

/-- A path through both links, and a missing one. -/
theorem traversed_sees_linked :
    Seen linked ⟨[], components "/e/a".toList, 0⟩ [[], [['e']], [['c']]] ∧
      ∃ e, traversed linked "/x".toList = .error e := by
  have hpath : components "/e/a".toList = [.root, .normal ['e'], .normal ['a']] := by decide
  have hrelative : components ['.', '.', '/', 'b'] = [.parent, .normal ['b']] := by decide
  have habsolute : components ['/', 'c'] = [.root, .normal ['c']] := by decide
  have hmissing : components "/x".toList = [.root, .normal ['x']] := by decide
  constructor
  · refine ((traversed_sees _ _).1 _ ?_).2.2
    rw [traversed, hpath]
    simp [resolve, linked, hrelative, habsolute]
  · refine (traversed_sees _ _).2 ⟨⟨[], [.normal ['x']], 0⟩, ?_, .inl ⟨['x'], [], _, rfl, rfl⟩⟩
    rw [hmissing]
    exact Relation.ReflTransGen.single .root

/-- A file system whose root is a link, which nothing looks up. -/
theorem root_not_looked_up :
    let link : FileSystem := fun _ => .ok (some "x".toList)
    traversed link "/".toList = .ok [[]] ∧ link [] = .ok (some "x".toList) := by
  intro link
  refine ⟨?_, rfl⟩
  have hcomponents : components "/".toList = [.root] := by decide
  rw [traversed, hcomponents, resolve, resolve]

end Polywan.Checks
