/-
  Scriptorium.Proofs.Manifests.Search: the search for the nearest manifest.

  A manifest is looked for in a directory, in the one above it, and so on.  The directories
  on the way are the iterates of `Path.parent`: each has one name less than the one before,
  until the root is its own parent.  What is found at the candidate in a directory lets the
  search go on, or ends it; so the first candidate that it does not go past decides.

  Main results:
    * `Path.names_iterate_parent`, `Path.parent_eq_self_iff`: the way up, and where it ends.
    * `find_of_passes_here`, `find_of_stops_here`: one round of the search.
    * `find_of_stops`, `find_of_passes`: the whole search, by its first candidate that ends it.
    * `find_cases`: what the search can come to.
    * `nearest_manifest_is_found`: what is found, refused or missed.
-/

import Mathlib.Logic.Function.Iterate
import Scriptorium.Manifest.Basic

namespace Scriptorium

/-! ## §1. Names in paths. -/

namespace Text

/-- No part of a text that is cut at a byte holds this byte. -/
theorem notMem_of_mem_splitOnByte {b : UInt8} {t part : Text} (h : part ∈ t.splitOnByte b) :
    b ∉ part := by
  induction t generalizing part with
  | nil =>
    obtain rfl := List.mem_singleton.1 h
    exact List.not_mem_nil
  | cons a t ih =>
    unfold splitOnByte at h
    split at h
    · rcases List.mem_cons.1 h with rfl | h
      · exact List.not_mem_nil
      · exact ih h
    · next hab =>
      -- the byte goes to the front of the first part
      split at h
      · obtain rfl := List.mem_singleton.1 h
        simpa using Ne.symm hab
      · next head tail hsplit =>
        rcases List.mem_cons.1 h with rfl | h
        · have hhead : b ∉ head := ih (by rw [hsplit]; exact List.mem_cons_self)
          simp [Ne.symm hab, hhead]
        · exact ih (by rw [hsplit]; exact List.mem_cons_of_mem _ h)

end Text

namespace Path

/-- Whether a text can be the name of an entry of a directory. -/
def IsEntry (name : Text) : Prop :=
  name ≠ [] ∧ name ≠ Text.ofString "." ∧ name ≠ Text.ofString ".." ∧ 0x2F ∉ name

/-- Following one name leaves names that were there, or adds one that is an entry's. -/
theorem mem_step {names : List Text} {name other : Text} (hslash : 0x2F ∉ name)
    (h : other ∈ step names name) : other ∈ names ∨ IsEntry other := by
  unfold step at h
  split at h
  · exact .inl h
  · next hdot =>
    split at h
    · exact .inl (List.dropLast_subset _ h)
    · next hdots =>
      rcases List.mem_append.1 h with h | h
      · exact .inl h
      · obtain rfl := List.mem_singleton.1 h
        simp at hdot
        exact .inr ⟨hdot.1, hdot.2, hdots, hslash⟩

/-- **A text is followed to a clean path**: what does not come from the directory is the name
    of an entry. -/
theorem mem_names_resolve {dir : Path} {t name : Text} (h : name ∈ (dir.resolve t).names) :
    name ∈ dir.names ∨ IsEntry name := by
  -- name after name, from the directory or from the root
  have hfollow : ∀ (parts : List Text) (start : List Text), (∀ part ∈ parts, 0x2F ∉ part) →
      name ∈ parts.foldl step start → name ∈ start ∨ IsEntry name := by
    intro parts
    induction parts with
    | nil => exact fun _ _ h => .inl h
    | cons part parts ih =>
      intro start hparts h
      rcases ih _ (fun p hp => hparts p (List.mem_cons_of_mem _ hp)) h with h | h
      · exact mem_step (hparts part List.mem_cons_self) h
      · exact .inr h
  rcases hfollow _ _ (fun _ => Text.notMem_of_mem_splitOnByte) h with h | h
  · split at h
    · exact absurd h List.not_mem_nil
    · exact .inl h
  · exact .inr h

/-! ## §2. The way up. -/

/-- The root. -/
def root : Path := ⟨[]⟩

/-- The directory `i` steps up lacks the last `i` names. -/
theorem names_iterate_parent (p : Path) (i : Nat) :
    (parent^[i] p).names = p.names.take (p.names.length - i) := by
  induction i generalizing p with
  | zero => simp
  | succ i ih =>
    rw [Function.iterate_succ_apply, ih]
    simp only [parent, List.dropLast_eq_take, List.length_take, List.take_take]
    congr 1
    omega

theorem length_iterate_parent (p : Path) (i : Nat) :
    (parent^[i] p).names.length = p.names.length - i := by
  rw [names_iterate_parent, List.length_take]
  omega

theorem eq_root_iff {p : Path} : p = root ↔ p.names.length = 0 := by
  obtain ⟨names⟩ := p
  simp [root]

/-- Only the root is its own parent. -/
theorem parent_eq_self_iff {p : Path} : p.parent = p ↔ p = root := by
  constructor
  · intro h
    have hlength := congrArg (fun p : Path => p.names.length) h
    simp only [parent, List.length_dropLast] at hlength
    exact eq_root_iff.2 (by omega)
  · intro h
    rw [h]
    rfl

/-- The root is reached after as many steps as there are names, and not before. -/
theorem iterate_parent_eq_root_iff {p : Path} {i : Nat} :
    parent^[i] p = root ↔ p.names.length ≤ i := by
  rw [eq_root_iff, length_iterate_parent]
  omega

/-- A name in a directory, as text. -/
theorem text_child (p : Path) (name : Text) :
    (p.child name).text = (if p = root then [] else p.text) ++ ("/" ++ name) := by
  by_cases hroot : p = root
  · subst hroot
    simp [text, child, root]
  · have hnil : p.names ≠ [] := fun h => hroot (eq_root_iff.2 (by rw [h]; rfl))
    simp [text, child, hroot, hnil]

end Path

/-! ## §3. One round, and the whole search. -/

namespace Manifest

/-- Where a manifest is looked for, `i` directories up. -/
def candidate (start : Path) (i : Nat) : Path := (Path.parent^[i] start).child fileName

/-- Whether the search goes on past a path: nothing is there, or a directory. -/
def Passes (files : Files Id) (p : Path) : Prop :=
  files.stat p = .error .missing ∨ files.stat p = .ok .directory

/-- What is said at a candidate that the search does not go past. -/
def verdict (p : Path) : Except FileError Presence → Except ManifestError (Option Path)
  | .ok _ => .ok (some p)
  | .error e => .error (.unsearchable p e)

section Search

variable {files : Files Id} {start : Path} {i : Nat}

theorem candidate_zero (start : Path) : candidate start 0 = start.child fileName := rfl

theorem candidate_succ (start : Path) (i : Nat) :
    candidate start (i + 1) = candidate start.parent i := by
  unfold candidate
  rw [Function.iterate_succ_apply]

/-- **A round that goes on**: at the root the search is over, and everywhere else it is the
    search from the directory above. -/
theorem find_of_passes_here (h : Passes files (candidate start 0)) :
    (start = Path.root → find files start = .ok none) ∧
      (start ≠ Path.root → find files start = find files start.parent) := by
  -- a missing file and a directory are passed over alike
  have hround : find files start =
      if start.parent = start then .ok none else find files start.parent := by
    rw [find]
    unfold Passes at h
    simp only [bind, candidate_zero] at h ⊢
    rcases h with h | h
    · rw [h]
      by_cases hself : start.parent = start
      · simp only [hself]
        rfl
      · simp only [hself]
        rfl
    · rw [h]
      by_cases hself : start.parent = start
      · simp only [hself]
        rfl
      · simp only [hself]
        rfl
  constructor
  · intro hroot
    rw [hround, if_pos (Path.parent_eq_self_iff.2 hroot)]
  · intro hroot
    rw [hround, if_neg fun hself => hroot (Path.parent_eq_self_iff.1 hself)]

/-- **A round that ends the search.** -/
theorem find_of_stops_here (h : ¬ Passes files (candidate start 0)) :
    find files start = verdict (candidate start 0) (files.stat (candidate start 0)) := by
  rw [find]
  unfold Passes at h
  simp only [bind, candidate_zero] at h ⊢
  cases hstat : files.stat (start.child fileName) with
  | ok presence =>
    cases presence with
    | file => rfl
    | directory => exact absurd (.inr hstat) h
  | error e =>
    cases e with
    | missing => exact absurd (.inl hstat) h
    | _ => rfl

/-- The first candidate that the search does not go past decides. -/
theorem find_of_stops (hi : i ≤ start.names.length)
    (hbefore : ∀ j < i, Passes files (candidate start j))
    (hstop : ¬ Passes files (candidate start i)) :
    find files start = verdict (candidate start i) (files.stat (candidate start i)) := by
  induction i generalizing start with
  | zero => exact find_of_stops_here hstop
  | succ i ih =>
    -- there is a directory above, for the names are not used up
    have hroot : start ≠ Path.root := fun h => by
      have := Path.eq_root_iff.1 h
      omega
    rw [(find_of_passes_here (hbefore 0 (by omega))).2 hroot, candidate_succ]
    rw [candidate_succ] at hstop
    refine ih ?_ ?_ hstop
    · simp only [Path.parent, List.length_dropLast]
      omega
    · intro j hj
      rw [← candidate_succ]
      exact hbefore (j + 1) (by omega)

/-- If the search goes past every candidate, there is no manifest. -/
theorem find_of_passes (h : ∀ i ≤ start.names.length, Passes files (candidate start i)) :
    find files start = .ok none := by
  -- by induction on the number of directories above
  generalize hn : start.names.length = n at h
  induction n generalizing start with
  | zero => exact (find_of_passes_here (h 0 (Nat.le_refl 0))).1 (Path.eq_root_iff.2 hn)
  | succ n ih =>
    have hroot : start ≠ Path.root := fun hroot => by
      have := Path.eq_root_iff.1 hroot
      omega
    rw [(find_of_passes_here (h 0 (by omega))).2 hroot]
    refine ih ?_ ?_
    · simp [Path.parent, hn]
    · intro i hi
      rw [← candidate_succ]
      exact h (i + 1) (by omega)

/-- Either the search goes past every candidate, or there is a first one that it does not go
    past. -/
theorem passes_or_stops (files : Files Id) (start : Path) (n : Nat) :
    (∀ i ≤ n, Passes files (candidate start i)) ∨
      ∃ i ≤ n, (∀ j < i, Passes files (candidate start j)) ∧
        ¬ Passes files (candidate start i) := by
  induction n with
  | zero =>
    by_cases h : Passes files (candidate start 0)
    · refine .inl fun i hi => ?_
      rw [Nat.le_zero.1 hi]
      exact h
    · exact .inr ⟨0, Nat.le_refl 0, fun j hj => absurd hj (Nat.not_lt_zero j), h⟩
  | succ n ih =>
    rcases ih with hall | ⟨i, hi, hbefore, hstop⟩
    · by_cases h : Passes files (candidate start (n + 1))
      · refine .inl fun i hi => ?_
        rcases Nat.le_succ_iff.1 hi with hi | rfl
        · exact hall i hi
        · exact h
      · exact .inr ⟨n + 1, Nat.le_refl _, fun j hj => hall j (by omega), h⟩
    · exact .inr ⟨i, by omega, hbefore, hstop⟩

/-- The search does not go past a file. -/
theorem find_of_file (hi : i ≤ start.names.length)
    (hbefore : ∀ j < i, Passes files (candidate start j))
    (hfile : files.stat (candidate start i) = .ok .file) :
    find files start = .ok (some (candidate start i)) := by
  have hstop : ¬ Passes files (candidate start i) := by
    rintro (h | h)
    · rw [hfile] at h
      cases h
    · rw [hfile] at h
      cases h
  rw [find_of_stops hi hbefore hstop, hfile]
  rfl

/-- Nor does it go past a failure that says something else than that nothing is there. -/
theorem find_of_failure {e : FileError} (hi : i ≤ start.names.length)
    (hbefore : ∀ j < i, Passes files (candidate start j)) (hne : e ≠ .missing)
    (he : files.stat (candidate start i) = .error e) :
    find files start = .error (.unsearchable (candidate start i) e) := by
  have hstop : ¬ Passes files (candidate start i) := by
    rintro (h | h)
    · rw [he] at h
      cases h
      exact hne rfl
    · rw [he] at h
      cases h
  rw [find_of_stops hi hbefore hstop, he]
  rfl

/-- **What the search can come to**: nothing, a file, or a failure, each at the first candidate
    that it does not go past. -/
theorem find_cases (files : Files Id) (start : Path) :
    (∀ i ≤ start.names.length, Passes files (candidate start i)) ∧ find files start = .ok none ∨
      ∃ i ≤ start.names.length, (∀ j < i, Passes files (candidate start j)) ∧
        (files.stat (candidate start i) = .ok .file ∧
            find files start = .ok (some (candidate start i)) ∨
          ∃ e, e ≠ .missing ∧ files.stat (candidate start i) = .error e ∧
            find files start = .error (.unsearchable (candidate start i) e)) := by
  rcases passes_or_stops files start start.names.length with hall | ⟨i, hi, hbefore, hstop⟩
  · exact .inl ⟨hall, find_of_passes hall⟩
  · refine .inr ⟨i, hi, hbefore, ?_⟩
    cases hstat : files.stat (candidate start i) with
    | ok presence =>
      cases presence with
      | file => exact .inl ⟨rfl, find_of_file hi hbefore hstat⟩
      | directory => exact absurd (.inr hstat) hstop
    | error e =>
      have hne : e ≠ .missing := fun he => hstop (.inl (by rw [hstat, he]))
      exact .inr ⟨e, hne, rfl, find_of_failure hi hbefore hne hstat⟩

end Search

/-! ## §4. What the search finds. -/

/-- **The nearest manifest is found.**  Let a directory be named by any text, taken from any
    working directory: the names of the path to it come from the working directory, or are
    names of entries.  Going up from it, each directory has one name less than the one before,
    up to the root, which is its own parent and is reached after as many steps as the path has
    names.  Whatever the file system says about each path, the search ends, and asks for
    `quill.yml` in these directories in order.  It gives the first one that is there and is no
    directory, if up to it there was nothing or a directory at each candidate; it fails if,
    and only if, another failure comes first, which it names; and it finds nothing if, and
    only if, there is nothing or a directory at each candidate up to the root. -/
theorem nearest_manifest_is_found (files : Files Id) (cwd : Path) (dir : Text) :
    let start := cwd.resolve dir
    let m := start.names.length
    let d := fun i => Path.parent^[i] start
    (∀ name ∈ start.names, name ∈ cwd.names ∨ Path.IsEntry name) ∧
    (∀ i, (d i).names.length = m - i ∧ (d (i + 1) = d i ↔ d i = Path.root) ∧
      (d i = Path.root ↔ m ≤ i)) ∧
    (∀ i, candidate start i = (d i).child fileName ∧
      (candidate start i).text = (if d i = Path.root then [] else (d i).text) ++ "/quill.yml") ∧
    (∀ p, find files start = .ok (some p) ↔ ∃ i ≤ m, p = candidate start i ∧
      files.stat (candidate start i) = .ok .file ∧
      ∀ j < i, Passes files (candidate start j)) ∧
    (∀ err, find files start = .error err ↔ ∃ i ≤ m, ∃ e, e ≠ .missing ∧
      files.stat (candidate start i) = .error e ∧ err = .unsearchable (candidate start i) e ∧
      ∀ j < i, Passes files (candidate start j)) ∧
    (find files start = .ok none ↔ ∀ i ≤ m, Passes files (candidate start i)) := by
  intro start m d
  have hcases := find_cases files start
  refine ⟨fun name h => Path.mem_names_resolve h, ?_, ?_, ?_, ?_, ?_⟩
  · intro i
    refine ⟨Path.length_iterate_parent start i, ?_, Path.iterate_parent_eq_root_iff⟩
    show Path.parent^[i + 1] start = Path.parent^[i] start ↔ _
    rw [Function.iterate_succ_apply']
    exact Path.parent_eq_self_iff
  · exact fun i => ⟨rfl, Path.text_child _ _⟩
  · intro p
    constructor
    · intro hfind
      rw [hfind] at hcases
      rcases hcases with ⟨_, h⟩ | ⟨i, hi, hbefore, ⟨hfile, h⟩ | ⟨e, _, _, h⟩⟩
      · cases h
      · cases h
        exact ⟨i, hi, rfl, hfile, hbefore⟩
      · cases h
    · rintro ⟨i, hi, rfl, hfile, hbefore⟩
      exact find_of_file hi hbefore hfile
  · intro err
    constructor
    · intro hfind
      rw [hfind] at hcases
      rcases hcases with ⟨_, h⟩ | ⟨i, hi, hbefore, ⟨_, h⟩ | ⟨e, hne, he, h⟩⟩
      · cases h
      · cases h
      · cases h
        exact ⟨i, hi, e, hne, he, rfl, hbefore⟩
    · rintro ⟨i, hi, e, hne, he, rfl, hbefore⟩
      exact find_of_failure hi hbefore hne he
  · refine ⟨fun hfind => ?_, find_of_passes⟩
    rw [hfind] at hcases
    rcases hcases with ⟨hall, _⟩ | ⟨i, _, _, ⟨_, h⟩ | ⟨e, _, _, h⟩⟩
    · exact hall
    · cases h
    · cases h

end Manifest

end Scriptorium
