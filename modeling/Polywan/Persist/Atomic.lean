import Mathlib.Data.List.Basic
import Mathlib.Data.List.Induction
import Mathlib.Tactic.IntervalCases

/-!
# State files and crashes

A state file is written through a temporary file, which is written, flushed and renamed over it
before the directory is flushed.  After a crash a name stands for any file that it stood for
since the directory was flushed last, and a file that was not flushed may hold anything.

## Main definitions

* `StateDir.Disk`, `StateDir.Disk.crash` — the files, and what a crash leaves of them.
* `StateDir.writeAtomic` — a write, up to where it failed or was cut off.
* `StateDir.Store` — what a reader may find of each state file.

## Main results

* `StateDir.atomic_run` — a reader finds whole files, and the last that was written.
-/

namespace Polywan.StateDir

/-! ## The disk -/

/-- The item at a place; the first for a place that there is not. -/
def pick {α : Type} (l : List α) (i : ℕ) : List α :=
  match l[i]? with
  | some a => [a]
  | none => l.take 1

theorem mem_of_mem_pick {α : Type} {l : List α} {i : ℕ} {a : α} (h : a ∈ pick l i) : a ∈ l := by
  unfold pick at h
  split at h
  · next hget => exact List.mem_singleton.mp h ▸ List.mem_of_getElem? hget
  · exact List.mem_of_mem_take h

theorem pick_ne_nil {α : Type} {l : List α} (h : l ≠ []) (i : ℕ) : pick l i ≠ [] := by
  unfold pick
  split
  · simp
  · simpa using h

theorem map_pick {α β : Type} (f : α → β) (l : List α) (i : ℕ) :
    (pick l i).map f = pick (l.map f) i := by
  unfold pick
  rw [List.getElem?_map]
  cases l[i]? with
  | some a => rfl
  | none => exact List.map_take

/-- A state file by its stem, or the temporary file beside it. -/
structure Name where
  stem : String
  temporary : Bool
deriving DecidableEq

structure File where
  content : List UInt8
  synced : Bool

/-- The files by number, and what each name stands for; behind it, what it stood for since the
directory was flushed. -/
structure Disk where
  entries : Name → List (Option ℕ) := fun _ => [none]
  files : ℕ → File := fun _ => ⟨[], false⟩
  next : ℕ := 0

/-- The calls of a write; those on an open file take its name. -/
inductive Call
  | remove (n : Name)
  | create (n : Name)
  | write (n : Name) (content : List UInt8)
  | sync (n : Name)
  | rename (n m : Name)
  | syncDirectory

namespace Disk

variable (d : Disk)

def file (n : Name) : Option ℕ := (d.entries n).head?.join

def read (stem : String) : Option (List UInt8) :=
  (d.file ⟨stem, false⟩).map fun k => (d.files k).content

/-- A name stands for another file. -/
def point (n : Name) (file : Option ℕ) : Disk :=
  { d with entries := Function.update d.entries n (file :: d.entries n) }

def change (n : Name) (f : File → File) : Disk :=
  match d.file n with
  | some k => { d with files := Function.update d.files k (f (d.files k)) }
  | none => d

def call : Call → Disk
  | .remove n => d.point n none
  | .create n =>
    { d.point n (some d.next) with
      files := Function.update d.files d.next ⟨[], false⟩
      next := d.next + 1 }
  | .write n content => d.change n fun _ => ⟨content, false⟩
  | .sync n => d.change n fun f => { f with synced := true }
  | .rename n m => (d.point m (d.file n)).point n none
  | .syncDirectory => { d with entries := fun n => (d.entries n).take 1 }

/-- What a crash leaves: under each name one of its files, and anything in files that were not
flushed. -/
def crash (choice : Name → ℕ) (torn : ℕ → List UInt8) : Disk :=
  { d with
    entries := fun n => pick (d.entries n) (choice n)
    files := fun k => if (d.files k).synced then d.files k else ⟨torn k, true⟩ }

end Disk

/-- The calls of a write, in order. -/
def calls (stem : String) (content : List UInt8) : List Call :=
  [.remove ⟨stem, true⟩, .create ⟨stem, true⟩, .write ⟨stem, true⟩ content, .sync ⟨stem, true⟩,
    .rename ⟨stem, true⟩ ⟨stem, false⟩, .syncDirectory]

/-- A write whose first `done` calls succeed, and whether it reports success. -/
def writeAtomic (d : Disk) (stem : String) (content : List UInt8) (done : ℕ) : Disk × Bool :=
  (((calls stem content).take done).foldl Disk.call d, decide (6 ≤ done))

/-- A write that fails or is cut off somewhere, or a crash. -/
inductive Event
  | write (stem : String) (content : List UInt8) (done : ℕ)
  | crash (choice : Name → ℕ) (torn : ℕ → List UInt8)

def Disk.step (d : Disk) : Event → Disk
  | .write stem content done => (writeAtomic d stem content done).1
  | .crash choice torn => d.crash choice torn

def Disk.run (d : Disk) (events : List Event) : Disk := events.foldl Disk.step d

/-! ## What a reader may find -/

/-- What a reader finds of each state file, and what else after a crash. -/
abbrev Store : Type := String → List (Option (List UInt8))

/-- A write counts once the file is renamed, and for good once the directory is flushed. -/
def Store.step (s : Store) : Event → Store
  | .write stem content done =>
    if done < 5 then s
    else
      let renamed : Store := Function.update s stem (some content :: s stem)
      if done < 6 then renamed else fun m => (renamed m).take 1
  | .crash choice _ => fun stem => pick (s stem) (choice ⟨stem, false⟩)

def Store.run (s : Store) (events : List Event) : Store := events.foldl Store.step s

/-- The disk holds what the store says: every file that a state file stood for was flushed. -/
structure Refines (d : Disk) (s : Store) : Prop where
  content : ∀ stem, (d.entries ⟨stem, false⟩).map (Option.map fun k => (d.files k).content) =
    s stem
  synced : ∀ stem k, some k ∈ d.entries ⟨stem, false⟩ →
    (d.files k).synced = true ∧ k < d.next

variable {d d' : Disk} {s : Store} {stem : String}

theorem refines_empty : Refines {} fun _ => [none] where
  content _ := rfl
  synced _ k hk := by simp at hk

theorem Refines.read (h : Refines d s) (stem : String) : d.read stem = (s stem).head?.join := by
  rw [Disk.read, Disk.file, ← h.content stem]
  cases hentries : d.entries ⟨stem, false⟩ <;> simp

/-- What happens to temporary files and to new ones does not matter. -/
theorem Refines.frame (h : Refines d s)
    (hentries : ∀ stem, d'.entries ⟨stem, false⟩ = d.entries ⟨stem, false⟩)
    (hfiles : ∀ k < d.next, d'.files k = d.files k) (hnext : d.next ≤ d'.next) : Refines d' s where
  content stem := by
    rw [hentries stem, ← h.content stem]
    refine List.map_congr_left fun e he => ?_
    cases e with
    | none => rfl
    | some k => simp [hfiles k (h.synced stem k he).2]
  synced stem k hk := by
    rw [hentries stem] at hk
    obtain ⟨hsynced, hlt⟩ := h.synced stem k hk
    rw [hfiles k hlt]
    exact ⟨hsynced, by omega⟩

/-! ## Steps -/

/-- Until the rename only temporary and new files change. -/
theorem refines_prepare (h : Refines d s) (stem : String) (content : List UInt8) {done : ℕ}
    (hdone : done ≤ 4) : Refines (((calls stem content).take done).foldl Disk.call d) s := by
  refine h.frame (fun m => ?_) (fun k hk => ?_) ?_
  · interval_cases done <;> simp [calls, Disk.call, Disk.point, Disk.change, Disk.file]
  · have hne : k ≠ d.next := by omega
    interval_cases done <;>
      simp [calls, Disk.call, Disk.point, Disk.change, Disk.file, hne]
  · interval_cases done <;> simp [calls, Disk.call, Disk.point, Disk.change, Disk.file]

/-- The renamed file is a new one, flushed. -/
theorem refines_rename (h : Refines d s) (stem : String) (content : List UInt8) :
    Refines (((calls stem content).take 5).foldl Disk.call d)
      (Function.update s stem (some content :: s stem)) := by
  have hprepared := refines_prepare h stem content (Nat.le_refl 4)
  set d' := ((calls stem content).take 4).foldl Disk.call d with hd'
  have hcalls : ((calls stem content).take 5).foldl Disk.call d =
      d'.call (.rename ⟨stem, true⟩ ⟨stem, false⟩) := rfl
  have hfile : d'.file ⟨stem, true⟩ = some d.next ∧ d'.files d.next = ⟨content, true⟩ ∧
      d.next < d'.next := by
    simp [hd', calls, Disk.call, Disk.point, Disk.change, Disk.file]
  have hentries : ∀ m, (d'.call (.rename ⟨stem, true⟩ ⟨stem, false⟩)).entries ⟨m, false⟩ =
      if m = stem then some d.next :: d'.entries ⟨stem, false⟩ else d'.entries ⟨m, false⟩ := by
    intro m
    simp [Disk.call, Disk.point, hfile.1, Function.update_apply]
  rw [hcalls]
  constructor
  · intro m
    rw [hentries m, Function.update_apply]
    split_ifs with heq
    · simp only [List.map_cons, ← hprepared.content stem, Option.map_some]
      simp [Disk.call, Disk.point, hfile]
    · exact hprepared.content m
  · intro m k hk
    rw [hentries m] at hk
    split_ifs at hk with heq
    · rcases List.mem_cons.mp hk with hk | hk
      · obtain rfl := Option.some.inj hk
        simp [Disk.call, Disk.point, hfile]
      · exact hprepared.synced stem k hk
    · exact hprepared.synced m k hk

theorem refines_syncDirectory (h : Refines d s) :
    Refines (d.call .syncDirectory) fun m => (s m).take 1 where
  content m := by
    rw [← h.content m, ← List.map_take]
    rfl
  synced m k hk := h.synced m k (List.mem_of_mem_take hk)

theorem refines_crash (h : Refines d s) (choice : Name → ℕ) (torn : ℕ → List UInt8) :
    Refines (d.crash choice torn) (s.step (.crash choice torn)) where
  content m := by
    simp only [Store.step, ← h.content m, ← map_pick]
    refine List.map_congr_left fun e he => ?_
    cases e with
    | none => rfl
    | some k => simp [Disk.crash, (h.synced m k (mem_of_mem_pick he)).1]
  synced m k hk := by
    obtain ⟨hsynced, hlt⟩ := h.synced m k (mem_of_mem_pick hk)
    exact ⟨by simp [Disk.crash, hsynced], hlt⟩

theorem refines_step (h : Refines d s) (e : Event) : Refines (d.step e) (s.step e) := by
  cases e with
  | crash choice torn => exact refines_crash h choice torn
  | write stem content done =>
    simp only [Disk.step, writeAtomic, Store.step]
    split_ifs with hprepared hrenamed
    · exact refines_prepare h stem content (by omega)
    · obtain rfl : done = 5 := by omega
      exact refines_rename h stem content
    · have hall : (calls stem content).take done =
          (calls stem content).take 5 ++ [.syncDirectory] := by
        rw [List.take_of_length_le (by simpa [calls] using hrenamed)]
        rfl
      rw [hall, List.foldl_concat]
      exact refines_syncDirectory (refines_rename h stem content)

/-! ## Runs -/

theorem refines_run (h : Refines d s) (events : List Event) :
    Refines (d.run events) (s.run events) := by
  induction events generalizing d s with
  | nil => exact h
  | cons e events ih => exact ih (refines_step h e)

/-- What is found was found before, or was written since. -/
theorem mem_run {events : List Event} {found : Option (List UInt8)}
    (h : found ∈ s.run events stem) : found ∈ s stem ∨ ∃ content done, found = some content ∧
      5 ≤ done ∧ .write stem content done ∈ events := by
  induction events generalizing s with
  | nil => exact .inl h
  | cons e events ih =>
    rcases ih h with h | ⟨content, done, hfound, hdone, hmem⟩
    · cases e with
      | crash choice torn => exact .inl (mem_of_mem_pick h)
      | write m content done =>
        simp only [Store.step] at h
        split_ifs at h with hprepared hrenamed
        · exact .inl h
        all_goals
          replace h : found ∈ Function.update s m (some content :: s m) stem := by
            first | exact h | exact List.mem_of_mem_take h
          by_cases hm : stem = m
          · subst hm
            rw [Function.update_self, List.mem_cons] at h
            refine h.symm.imp_right fun hfound => ?_
            exact ⟨content, done, hfound, by omega, List.mem_cons_self⟩
          · rw [Function.update_of_ne hm] at h
            exact .inl h
    · exact .inr ⟨content, done, hfound, hdone, List.mem_cons_of_mem e hmem⟩

theorem run_ne_nil (h : s stem ≠ []) (events : List Event) : s.run events stem ≠ [] := by
  induction events generalizing s with
  | nil => exact h
  | cons e events ih =>
    refine ih ?_
    cases e with
    | crash choice torn => exact pick_ne_nil h _
    | write m content done =>
      have hrenamed : Function.update s m (some content :: s m) stem ≠ [] := by
        rw [Function.update_apply]
        split_ifs <;> simp [h]
      simp only [Store.step]
      split_ifs
      · exact h
      · exact hrenamed
      · simpa using hrenamed

/-- **State files are whole, and the last one written.**  Writes fail or are cut off anywhere,
and crashes come at any time.  What a reader finds after a crash was given to a write that had
renamed it; and after a write that reported success, it is that content or a later one. -/
theorem atomic_run (events : List Event) (stem : String) (choice : Name → ℕ)
    (torn : ℕ → List UInt8) :
    let found := ((Disk.run {} events).crash choice torn).read stem
    (∀ content, found = some content → ∃ done, 5 ≤ done ∧ .write stem content done ∈ events) ∧
    ∀ before content done after, events = before ++ .write stem content done :: after → 6 ≤ done →
      found = some content ∨ ∃ content' done', found = some content' ∧ 5 ≤ done' ∧
        .write stem content' done' ∈ after := by
  intro found
  have hmem : found ∈ Store.run (fun _ => [none]) events stem := by
    have hread := (refines_run refines_empty (events ++ [.crash choice torn])).read stem
    rw [Disk.run, Store.run, List.foldl_concat, List.foldl_concat] at hread
    change found = (pick (Store.run (fun _ => [none]) events stem) _).head?.join at hread
    have hne : Store.run (fun _ => [none]) events stem ≠ [] :=
      run_ne_nil (List.cons_ne_nil _ _) events
    obtain ⟨a, l, hpick⟩ := List.exists_cons_of_ne_nil (pick_ne_nil hne (choice ⟨stem, false⟩))
    rw [hpick, List.head?_cons, Option.join_some] at hread
    rw [hread]
    exact mem_of_mem_pick (hpick ▸ List.mem_cons_self : a ∈ pick _ (choice ⟨stem, false⟩))
  constructor
  · intro content hcontent
    rcases mem_run hmem with hnone | ⟨content', done, hfound, hdone, hwrite⟩
    · rw [hcontent] at hnone
      cases List.mem_singleton.mp hnone
    · obtain rfl := Option.some.inj (hcontent.symm.trans hfound)
      exact ⟨done, hdone, hwrite⟩
  · rintro before content done after rfl hdone
    rw [Store.run, List.foldl_append, List.foldl_cons] at hmem
    rcases mem_run hmem with hlast | hlater
    · rw [Store.step, if_neg (by omega), if_neg (by omega), Function.update_self] at hlast
      exact .inl (List.mem_singleton.mp hlast)
    · exact .inr hlater

end Polywan.StateDir
