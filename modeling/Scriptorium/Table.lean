/-
  Scriptorium.Table: finite maps.

  A table has at most one value under each key.  The variables of a scope are kept in
  one, and so are the fields of an object, whose order is kept beside it.

  Main results:
    * `get?_insert`: an insertion is seen under its key and nowhere else.
    * `keys_insert`: an insertion adds its key, unless that is known.
    * `get?_mapKeyed`: a table of which each value is rewritten.
    * `mapKeyed_of_get?`: it is the same if each value is.
-/

namespace Scriptorium

/-- A finite map. -/
structure Table (κ ν : Type) where
  entries : List (κ × ν)
  nodup : (entries.map Prod.fst).Nodup

namespace Table

variable {κ ν : Type}

/-- The table without entries. -/
def empty : Table κ ν := ⟨[], by simp⟩

instance : Inhabited (Table κ ν) := ⟨empty⟩

/-- The keys. -/
def keys (m : Table κ ν) : List κ := m.entries.map Prod.fst

/-- The table with each value rewritten, in view of its key. -/
def mapKeyed {ν' : Type} (f : κ → ν → ν') (m : Table κ ν) : Table κ ν' :=
  ⟨m.entries.map fun entry => (entry.1, f entry.1 entry.2), by
    rw [List.map_map]
    exact m.nodup⟩

@[simp]
theorem keys_mapKeyed {ν' : Type} (f : κ → ν → ν') (m : Table κ ν) :
    (m.mapKeyed f).keys = m.keys := by
  unfold keys mapKeyed
  rw [List.map_map]
  rfl

variable [DecidableEq κ]

/-- The value stored under a key. -/
def get? (m : Table κ ν) (key : κ) : Option ν :=
  (m.entries.find? fun entry => entry.1 = key).map Prod.snd

/-- Whether the key is there. -/
def contains (m : Table κ ν) (key : κ) : Bool := m.entries.any fun entry => entry.1 = key

/-- Entries with `key` set to `value`, in place if it is there and else at the end. -/
def setEntry (key : κ) (value : ν) : List (κ × ν) → List (κ × ν)
  | [] => [(key, value)]
  | entry :: rest =>
    if entry.1 = key then (key, value) :: rest else entry :: setEntry key value rest

/-- The keys after an entry was set. -/
theorem map_fst_setEntry (key : κ) (value : ν) (l : List (κ × ν)) :
    (setEntry key value l).map Prod.fst =
      if key ∈ l.map Prod.fst then l.map Prod.fst else l.map Prod.fst ++ [key] := by
  induction l with
  | nil => simp [setEntry]
  | cons entry rest ih =>
    by_cases h : entry.1 = key
    · simp [setEntry, h]
    · have h' : ¬ key = entry.1 := fun e => h e.symm
      simp only [setEntry, h, if_false, List.map_cons, ih, List.mem_cons, h', false_or]
      split <;> simp

/-- The table with `key` set to `value`. -/
def insert (m : Table κ ν) (key : κ) (value : ν) : Table κ ν :=
  ⟨setEntry key value m.entries, by
    rw [map_fst_setEntry]
    split
    · exact m.nodup
    · next h =>
      rw [List.nodup_append]
      refine ⟨m.nodup, by simp, ?_⟩
      intro a ha b hb
      simp only [List.mem_singleton] at hb
      subst hb
      exact fun e => h (e ▸ ha)⟩

/-- An insertion adds its key, unless that is known. -/
theorem keys_insert (m : Table κ ν) (key : κ) (value : ν) :
    (m.insert key value).keys = if key ∈ m.keys then m.keys else m.keys ++ [key] :=
  map_fst_setEntry key value m.entries

/-- Looking a key up after an entry was set. -/
theorem find?_setEntry (key other : κ) (value : ν) (l : List (κ × ν)) :
    ((setEntry key value l).find? fun entry => entry.1 = other) =
      if key = other then some (key, value) else l.find? fun entry => entry.1 = other := by
  induction l with
  | nil => by_cases h : key = other <;> simp [setEntry, h]
  | cons entry rest ih =>
    by_cases h : entry.1 = key
    · by_cases h' : key = other
      · simp [setEntry, h, h']
      · simp [setEntry, h, h']
    · have hs : setEntry key value (entry :: rest) = entry :: setEntry key value rest := by
        simp [setEntry, h]
      by_cases h' : entry.1 = other
      · have hne : ¬ key = other := fun e => h (h'.trans e.symm)
        simp [hs, h', hne]
      · simp [hs, h', ih]

/-- An insertion is seen under its key and nowhere else. -/
theorem get?_insert (m : Table κ ν) (key other : κ) (value : ν) :
    (m.insert key value).get? other = if key = other then some value else m.get? other := by
  simp only [get?, insert, find?_setEntry]
  split <;> simp

/-- A key is there exactly if it has a value. -/
theorem contains_eq_isSome (m : Table κ ν) (key : κ) :
    m.contains key = (m.get? key).isSome := by
  unfold contains get?
  generalize m.entries = l
  induction l with
  | nil => rfl
  | cons entry rest ih => by_cases h : entry.1 = key <;> simp_all

/-- A key is there exactly if it is one of the keys. -/
theorem contains_iff_mem_keys (m : Table κ ν) (key : κ) :
    m.contains key = true ↔ key ∈ m.keys := by
  simp [contains, keys]

theorem contains_insert (m : Table κ ν) (key other : κ) (value : ν) :
    (m.insert key value).contains other = (decide (key = other) || m.contains other) := by
  rw [contains_eq_isSome, contains_eq_isSome, get?_insert]
  by_cases h : key = other <;> simp [h]

@[simp]
theorem get?_empty (key : κ) : (empty : Table κ ν).get? key = none := rfl

/-- Rewriting finds what was there. -/
theorem get?_mapKeyed {ν' : Type} (f : κ → ν → ν') (m : Table κ ν) (key : κ) :
    (m.mapKeyed f).get? key = (m.get? key).map (f key) := by
  unfold get? mapKeyed
  rw [List.find?_map, Option.map_map, Option.map_map]
  cases h : m.entries.find? fun entry => entry.1 = key with
  | none =>
    have hcomp : m.entries.find? ((fun entry : κ × ν' => decide (entry.1 = key)) ∘
        fun entry => (entry.1, f entry.1 entry.2)) = none := h
    rw [hcomp]
    rfl
  | some entry =>
    have hcomp : m.entries.find? ((fun entry : κ × ν' => decide (entry.1 = key)) ∘
        fun entry => (entry.1, f entry.1 entry.2)) = some entry := h
    have hkey : entry.1 = key := by simpa using List.find?_some h
    rw [hcomp]
    simp [hkey]

/-- An entry of a table is found under its key. -/
theorem get?_of_mem {m : Table κ ν} {entry : κ × ν} (h : entry ∈ m.entries) :
    m.get? entry.1 = some entry.2 := by
  obtain ⟨entries, hnodup⟩ := m
  unfold get?
  dsimp only at h ⊢
  induction entries with
  | nil => cases h
  | cons first rest ih =>
    rw [List.map_cons, List.nodup_cons] at hnodup
    rcases List.mem_cons.1 h with rfl | hrest
    · simp
    · have hne : first.1 ≠ entry.1 := by
        intro heq
        exact hnodup.1 (heq ▸ List.mem_map_of_mem hrest)
      simp only [List.find?_cons, hne, decide_false]
      exact ih hnodup.2 hrest

/-- A table each value of which is rewritten to itself is the same. -/
theorem mapKeyed_of_get? {m : Table κ ν} {f : κ → ν → ν}
    (hf : ∀ key v, m.get? key = some v → f key v = v) : m.mapKeyed f = m := by
  have hentries : m.entries.map (fun entry => (entry.1, f entry.1 entry.2)) =
      m.entries.map id := by
    apply List.map_congr_left
    intro entry hentry
    have hvalue := hf entry.1 entry.2 (get?_of_mem hentry)
    show (entry.1, f entry.1 entry.2) = entry
    rw [hvalue]
  rw [List.map_id] at hentries
  cases m
  unfold mapKeyed
  simp only [hentries]

/-- Rewriting the values goes along with an insertion. -/
theorem mapKeyed_insert {ν' : Type} (f : ν → ν') (m : Table κ ν) (key : κ) (value : ν) :
    (m.insert key value).mapKeyed (fun _ => f) = (m.mapKeyed fun _ => f).insert key (f value) := by
  have hentries : (setEntry key value m.entries).map (fun entry => (entry.1, f entry.2)) =
      setEntry key (f value) (m.entries.map fun entry => (entry.1, f entry.2)) := by
    induction m.entries with
    | nil => rfl
    | cons entry rest ih =>
      by_cases hkey : entry.1 = key
      · simp [setEntry, hkey]
      · simp [setEntry, hkey, ih]
  unfold mapKeyed insert
  simp only [hentries]

end Table

end Scriptorium
