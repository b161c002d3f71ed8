/-
  Scriptorium.Proofs.Manifests.Validation: what is said about a manifest.

  A manifest is refused with a report of everything that is wrong with it.  What can be wrong
  is stated here apart from the checks, point by point: the name, the entry, a script that
  runs before it, a native function that is unknown or was listed before, the limit.  The
  points have an order, and a report goes through them in this order.  Each check reports on
  some region of the points, and regions that follow each other are put together.

  Main results:
    * `isName_iff`: names are what a regular expression matches.
    * `Reports.append`: the report on two regions, one after the other.
    * `reports_checkPrelude`, `reports_nativeIssues`: the two loops, from any point on.
    * `reports_issues`: the whole report.
    * `Draft.valid_iff`: a manifest is valid if no point of it is violated.
    * `binds_session_iff`, `outcome_evaluateAll`: what a session binds, and its limit.
    * `validation_reports_every_violation`: loading, and sessions under what was loaded.
-/

import Mathlib.Computability.RegularExpressions
import Scriptorium.Manifest.Session
import Scriptorium.Proofs.Evaluation.Again
import Scriptorium.Proofs.Evaluation.Allowance

namespace Scriptorium

namespace Manifest

/-! ## §1. Names. -/

/-- The bytes from `first` to `last`. -/
def byteRange (first last : UInt8) : Text :=
  (List.range' first.toNat (last.toNat + 1 - first.toNat)).map .ofNat

/-- The bytes that a name can start with: `[A-Za-z_]`. -/
def startBytes : Text := byteRange 0x41 0x5A ++ byteRange 0x61 0x7A ++ [0x5F]

/-- The bytes that a name can go on with: `[A-Za-z0-9_-]`. -/
def partBytes : Text := startBytes ++ byteRange 0x30 0x39 ++ [0x2D]

/-- The expression for one byte out of some. -/
def oneOf (bytes : Text) : RegularExpression UInt8 := (bytes.map .char).sum

/-- The names that projects can have: `[A-Za-z_][A-Za-z0-9_-]*`. -/
def namePattern : RegularExpression UInt8 := oneOf startBytes * (oneOf partBytes).star

theorem mem_byteRange {first last b : UInt8} :
    b ∈ byteRange first last ↔ first ≤ b ∧ b ≤ last := by
  have hlast := last.toNat_lt
  unfold byteRange
  rw [List.mem_map, UInt8.le_iff_toNat_le, UInt8.le_iff_toNat_le]
  constructor
  · rintro ⟨n, hn, rfl⟩
    rw [List.mem_range'_1] at hn
    rw [UInt8.toNat_ofNat']
    omega
  · rintro ⟨hfirst, hb⟩
    refine ⟨b.toNat, List.mem_range'_1.2 (by omega), UInt8.ofNat_toNat⟩

theorem mem_oneOf {bytes t : Text} : t ∈ (oneOf bytes).matches' ↔ ∃ b ∈ bytes, t = [b] := by
  induction bytes with
  | nil =>
    constructor
    · exact fun h => absurd h (Language.notMem_zero t)
    · rintro ⟨b, hb, -⟩
      exact absurd hb List.not_mem_nil
  | cons b bytes ih =>
    have hsum : oneOf (b :: bytes) = .char b + oneOf bytes := List.sum_cons
    have hchar : t ∈ (RegularExpression.char b).matches' ↔ t = [b] := Iff.rfl
    rw [hsum, RegularExpression.matches'_add, Language.mem_add, hchar, ih]
    simp only [List.exists_mem_cons_iff]

/-- Texts of such bytes are what the repeated expression matches. -/
theorem mem_oneOf_star {bytes t : Text} :
    t ∈ (oneOf bytes).star.matches' ↔ ∀ b ∈ t, b ∈ bytes := by
  rw [RegularExpression.matches'_star, Language.mem_kstar]
  constructor
  · rintro ⟨parts, rfl, hparts⟩ b hb
    obtain ⟨part, hpart, hb⟩ := List.mem_flatten.1 hb
    obtain ⟨c, hc, rfl⟩ := mem_oneOf.1 (hparts part hpart)
    rw [List.mem_singleton.1 hb]
    exact hc
  · intro h
    refine ⟨t.map fun b => [b], ?_, ?_⟩
    · rw [← List.flatMap_def]
      exact (List.flatMap_singleton' t).symm
    · intro part hpart
      obtain ⟨b, hb, rfl⟩ := List.mem_map.1 hpart
      exact mem_oneOf.2 ⟨b, h b hb, rfl⟩

theorem isNameStart_iff {b : UInt8} : isNameStart b = true ↔ b ∈ startBytes := by
  simp [isNameStart, startBytes, mem_byteRange, or_assoc]

theorem isNamePart_iff {b : UInt8} : isNamePart b = true ↔ b ∈ partBytes := by
  simp [isNamePart, partBytes, isNameStart_iff, mem_byteRange, or_assoc]

/-- **Names are what the expression matches.** -/
theorem isName_iff {t : Text} : isName t = true ↔ t ∈ namePattern.matches' := by
  unfold namePattern
  rw [RegularExpression.matches'_mul, Language.mem_mul]
  cases t with
  | nil =>
    constructor
    · exact fun h => nomatch h
    · rintro ⟨first, hfirst, rest, -, hnil⟩
      obtain ⟨b, -, rfl⟩ := mem_oneOf.1 hfirst
      cases hnil
  | cons b rest =>
    simp only [isName, Bool.and_eq_true, List.all_eq_true, isNameStart_iff, isNamePart_iff]
    constructor
    · rintro ⟨hb, hrest⟩
      exact ⟨[b], mem_oneOf.2 ⟨b, hb, rfl⟩, rest, mem_oneOf_star.2 hrest, rfl⟩
    · rintro ⟨first, hfirst, rest', hrest, happend⟩
      obtain ⟨c, hc, rfl⟩ := mem_oneOf.1 hfirst
      cases happend
      exact ⟨hc, mem_oneOf_star.1 hrest⟩

/-! ## §2. What can be wrong, and where. -/

/-- A point at which a manifest can be wrong. -/
inductive Point where
  | name
  | entry
  | prelude (index : Nat)
  /-- The native function at a position is unknown. -/
  | unknown (position : Nat)
  /-- The native function at a position was listed before. -/
  | repeated (position : Nat)
  | steps
deriving DecidableEq, Repr

/-- The place of a point in reports; places are ordered like words. -/
def Point.place : Point → List Nat
  | .name => [0]
  | .entry => [1]
  | .prelude index => [2, index]
  | .unknown position => [3, position, 0]
  | .repeated position => [3, position, 1]
  | .steps => [4]

/-- What can be wrong with a script. -/
inductive ScriptFault (files : Files Id) (field : ScriptField) (path : Path) : Issue → Prop where
  | missing (h : files.stat path = .error .missing) :
      ScriptFault files field path (.scriptMissing field path)
  | directory (h : files.stat path = .ok .directory) :
      ScriptFault files field path (.scriptDirectory field path)
  | unreachable {e : FileError} (hne : e ≠ .missing) (h : files.stat path = .error e) :
      ScriptFault files field path (.scriptUnreachable field path e)

/-- What is wrong with a draft of a manifest in the directory `dir`, and where. -/
inductive Draft.Violates (files : Files Id) (dir : Path) (d : Draft) : Point → Issue → Prop where
  | nameMissing (h : d.name.trim = []) : Violates files dir d .name .nameMissing
  | nameMalformed (hsome : d.name.trim ≠ []) (h : d.name.trim ∉ namePattern.matches') :
      Violates files dir d .name (.nameMalformed d.name.trim)
  | entry {issue : Issue} (hsome : d.entry.trim ≠ [])
      (h : ScriptFault files .entry (dir.resolve d.entry.trim) issue) :
      Violates files dir d .entry issue
  /-- Scripts are counted after the blank ones were dropped. -/
  | prelude {index : Nat} {script : Text} {issue : Issue}
      (hscript : (trimmed d.prelude)[index]? = some script)
      (h : ScriptFault files (.prelude index) (dir.resolve script) issue) :
      Violates files dir d (.prelude index) issue
  | unknown {position : Nat} {name : Text}
      (hname : (trimmed d.natives)[position]? = some name) (h : name ∉ Native.names) :
      Violates files dir d (.unknown position) (.nativeUnknown name)
  | repeated {position earlier : Nat} {name : Text}
      (hname : (trimmed d.natives)[position]? = some name) (hlt : earlier < position)
      (h : (trimmed d.natives)[earlier]? = some name) :
      Violates files dir d (.repeated position) (.nativeRepeated name)
  | steps (h : d.steps < 0) : Violates files dir d .steps (.stepsNegative d.steps)

/-- Whether a draft of a manifest in the directory `dir` is as it must be. -/
structure Draft.Valid (files : Files Id) (dir : Path) (d : Draft) : Prop where
  name : d.name.trim ∈ namePattern.matches'
  entry : d.entry.trim ≠ [] → files.stat (dir.resolve d.entry.trim) = .ok .file
  prelude : ∀ script ∈ trimmed d.prelude, files.stat (dir.resolve script) = .ok .file
  known : ∀ name ∈ trimmed d.natives, name ∈ Native.names
  distinct : (trimmed d.natives).Nodup
  steps : 0 ≤ d.steps

section Faults

variable {files : Files Id} {field : ScriptField} {path : Path} {issue : Issue}

theorem scriptIssues_of_unreachable {e : FileError} (h : e ≠ .missing) :
    scriptIssues field path (.error e) = [.scriptUnreachable field path e] := by
  cases e with
  | missing => exact absurd rfl h
  | _ => rfl

theorem mem_scriptIssues_iff :
    issue ∈ scriptIssues field path (files.stat path) ↔ ScriptFault files field path issue := by
  constructor
  · intro h
    cases hstat : files.stat path with
    | ok presence =>
      rw [hstat] at h
      cases presence with
      | file => exact absurd h List.not_mem_nil
      | directory =>
        obtain rfl := List.mem_singleton.1 h
        exact .directory hstat
    | error e =>
      rw [hstat] at h
      by_cases hmissing : e = .missing
      · subst hmissing
        obtain rfl := List.mem_singleton.1 h
        exact .missing hstat
      · rw [scriptIssues_of_unreachable hmissing] at h
        obtain rfl := List.mem_singleton.1 h
        exact .unreachable hmissing hstat
  · intro h
    cases h with
    | missing h =>
      rw [h]
      exact List.mem_singleton_self _
    | directory h =>
      rw [h]
      exact List.mem_singleton_self _
    | unreachable hne h =>
      rw [h, scriptIssues_of_unreachable hne]
      exact List.mem_singleton_self _

theorem length_scriptIssues_le (found : Except FileError Presence) :
    (scriptIssues field path found).length ≤ 1 := by
  unfold scriptIssues
  split <;> simp

/-- A script has no fault if it is there and is no directory. -/
theorem no_scriptFault_iff :
    (∀ issue, ¬ ScriptFault files field path issue) ↔ files.stat path = .ok .file := by
  constructor
  · intro h
    cases hstat : files.stat path with
    | ok presence =>
      cases presence with
      | file => rfl
      | directory => exact absurd (.directory hstat) (h _)
    | error e =>
      by_cases hmissing : e = .missing
      · subst hmissing
        exact absurd (.missing hstat) (h _)
      · exact absurd (.unreachable hmissing hstat) (h _)
  · intro hfile issue h
    have hmem := mem_scriptIssues_iff.2 h
    rw [hfile] at hmem
    exact List.not_mem_nil hmem

/-- An issue with a script begins with the name of its field. -/
theorem ScriptFault.text_of_field (h : ScriptFault files field path issue) :
    field.text ++ Text.ofString ": " <+: issue.text := by
  cases h with
  | missing h => exact ⟨path.text ++ " does not exist", by simp [Issue.text]⟩
  | directory h => exact ⟨path.text ++ " is a directory", by simp [Issue.text]⟩
  | @unreachable e _ h => exact ⟨e.asking path, by simp [Issue.text]⟩

end Faults

/-! ## §3. Reports on regions. -/

/-- Whether issues are just what is violated in a region, once each and in order. -/
def Reports (violates : Point → Issue → Prop) (region : Point → Prop) (issues : List Issue) :
    Prop :=
  ∃ report : List (Point × Issue), report.map Prod.snd = issues ∧
    report.Pairwise (fun a b => a.1.place < b.1.place) ∧
    ∀ point issue, (point, issue) ∈ report ↔ region point ∧ violates point issue

namespace Reports

variable {violates : Point → Issue → Prop} {region other : Point → Prop}
  {issues more : List Issue}

/-- The report on a region in which nothing is violated. -/
theorem nil (h : ∀ point issue, region point → ¬ violates point issue) :
    Reports violates region [] := by
  refine ⟨[], rfl, .nil, fun point issue => ?_⟩
  constructor
  · exact fun hmem => absurd hmem List.not_mem_nil
  · exact fun ⟨hpoint, hviolates⟩ => absurd hviolates (h point issue hpoint)

/-- The report on one point, at which at most one thing is wrong. -/
theorem single {point : Point} (hone : issues.length ≤ 1)
    (h : ∀ issue, issue ∈ issues ↔ violates point issue) :
    Reports violates (· = point) issues := by
  refine ⟨issues.map fun issue => (point, issue), ?_, ?_, ?_⟩
  · simp
  · match issues, hone with
    | [], _ => exact .nil
    | [issue], _ => exact List.pairwise_singleton _ _
  · intro other issue
    constructor
    · intro hmem
      obtain ⟨_, hissue, hpair⟩ := List.mem_map.1 hmem
      cases hpair
      exact ⟨rfl, (h _).1 hissue⟩
    · rintro ⟨rfl, hviolates⟩
      exact List.mem_map_of_mem ((h _).2 hviolates)

/-- The report on one point, at which one thing is wrong under some condition. -/
theorem cond {point : Point} {issue : Issue} {p : Prop} [Decidable p]
    (h : ∀ other, violates point other ↔ p ∧ other = issue) :
    Reports violates (· = point) (if p then [issue] else []) := by
  refine .single (by split <;> simp) fun other => ?_
  rw [h]
  split
  · next hp => simp [hp]
  · next hp => simp [hp]

/-- **Reports on two regions, one after the other.** -/
theorem append (h : Reports violates region issues) (hmore : Reports violates other more)
    (hlt : ∀ a b, region a → other b → a.place < b.place) :
    Reports violates (fun point => region point ∨ other point) (issues ++ more) := by
  obtain ⟨report, rfl, hordered, hexact⟩ := h
  obtain ⟨rest, rfl, hrest, hrestExact⟩ := hmore
  refine ⟨report ++ rest, List.map_append, ?_, ?_⟩
  · refine List.pairwise_append.2 ⟨hordered, hrest, ?_⟩
    intro a ha b hb
    exact hlt a.1 b.1 ((hexact _ _).1 ha).1 ((hrestExact _ _).1 hb).1
  · intro point issue
    rw [List.mem_append, hexact, hrestExact, or_and_right]

/-- The same report on a region that differs only where nothing is violated. -/
theorem congr (h : Reports violates region issues)
    (hregion : ∀ point issue, violates point issue → (region point ↔ other point)) :
    Reports violates other issues := by
  obtain ⟨report, hissues, hordered, hexact⟩ := h
  refine ⟨report, hissues, hordered, fun point issue => ?_⟩
  rw [hexact]
  exact and_congr_left (hregion point issue)

end Reports

/-! ## §4. The checks. -/

section Checks

variable {files : Files Id} {dir : Path} {d : Draft}

theorem reports_nameIssues :
    Reports (d.Violates files dir) (· = .name) (nameIssues d.name.trim) := by
  have hiff : ∀ issue, issue ∈ nameIssues d.name.trim ↔ d.Violates files dir .name issue := by
    intro issue
    unfold nameIssues
    by_cases hnil : d.name.trim = []
    · rw [if_pos (by simp [hnil]), List.mem_singleton]
      constructor
      · rintro rfl
        exact .nameMissing hnil
      · intro h
        cases h with
        | nameMissing _ => rfl
        | nameMalformed hsome _ => exact absurd hnil hsome
    · rw [if_neg (by simp [hnil])]
      by_cases hname : isName d.name.trim = true
      · rw [if_pos hname]
        constructor
        · exact fun h => absurd h List.not_mem_nil
        · intro h
          cases h with
          | nameMissing h => exact absurd h hnil
          | nameMalformed _ h => exact absurd (isName_iff.1 hname) h
      · rw [if_neg hname, List.mem_singleton]
        constructor
        · rintro rfl
          exact .nameMalformed hnil fun h => hname (isName_iff.2 h)
        · intro h
          cases h with
          | nameMissing h => exact absurd h hnil
          | nameMalformed _ _ => rfl
  refine .single ?_ hiff
  unfold nameIssues
  split
  · simp
  · split <;> simp

/-- What is said about the entry, if there is one. -/
theorem reports_entry :
    Reports (d.Violates files dir) (· = .entry)
      (if d.entry.trim = [] then []
        else scriptIssues .entry (dir.resolve d.entry.trim)
          (files.stat (dir.resolve d.entry.trim))) := by
  split
  · next hnil =>
    refine .nil ?_
    rintro _ issue rfl h
    cases h with
    | entry hsome _ => exact hsome hnil
  · next hsome =>
    refine .single (length_scriptIssues_le _) fun issue => ?_
    rw [mem_scriptIssues_iff]
    constructor
    · exact .entry hsome
    · intro h
      cases h with
      | entry _ h => exact h

/-- **The scripts before the entry**, from any of them on. -/
theorem reports_checkPrelude {index : Nat} {scripts : List Text}
    (h : (trimmed d.prelude).drop index = scripts) :
    Reports (d.Violates files dir) (fun point => ∃ i, index ≤ i ∧ point = .prelude i)
      (checkPrelude files index (scripts.map dir.resolve)) := by
  induction scripts generalizing index with
  | nil =>
    refine .nil ?_
    rintro _ issue ⟨i, hi, rfl⟩ hviolates
    cases hviolates with
    | prelude hscript _ =>
      -- there are no scripts from `index` on
      have hnone : (trimmed d.prelude)[i]? = none :=
        List.getElem?_eq_none (Nat.le_trans (List.drop_eq_nil_iff.1 h) hi)
      rw [hnone] at hscript
      cases hscript
  | cons script scripts ih =>
    have hscript : (trimmed d.prelude)[index]? = some script := by
      rw [← List.head?_drop, h]
      rfl
    have hrest : (trimmed d.prelude).drop (index + 1) = scripts := by
      rw [← List.tail_drop, h]
      rfl
    have hhere : Reports (d.Violates files dir) (· = .prelude index)
        (scriptIssues (.prelude index) (dir.resolve script)
          (files.stat (dir.resolve script))) := by
      refine .single (length_scriptIssues_le _) fun issue => ?_
      rw [mem_scriptIssues_iff]
      constructor
      · exact .prelude hscript
      · intro h
        cases h with
        | prelude hscript' h =>
          rw [hscript] at hscript'
          cases hscript'
          exact h
    refine (hhere.append (ih hrest) ?_).congr ?_
    · rintro _ _ rfl ⟨i, hi, rfl⟩
      simp [Point.place, List.cons_lt_cons_iff]
      omega
    · intro point issue _
      constructor
      · rintro (rfl | ⟨i, hi, rfl⟩)
        · exact ⟨index, Nat.le_refl _, rfl⟩
        · exact ⟨i, by omega, rfl⟩
      · rintro ⟨i, hi, rfl⟩
        rcases Nat.eq_or_lt_of_le hi with rfl | hlt
        · exact .inl rfl
        · exact .inr ⟨i, hlt, rfl⟩

theorem reports_stepsIssues :
    Reports (d.Violates files dir) (· = .steps) (stepsIssues d.steps) := by
  refine .cond fun issue => ?_
  constructor
  · intro h
    cases h with
    | steps hneg => exact ⟨hneg, rfl⟩
  · rintro ⟨hneg, rfl⟩
    exact .steps hneg

/-- Whether the native function at a position is known. -/
theorem reports_unknown {position : Nat} {name : Text}
    (hname : (trimmed d.natives)[position]? = some name) :
    Reports (d.Violates files dir) (· = .unknown position)
      (if Native.isKnown name then [] else [.nativeUnknown name]) := by
  have hknown : Native.isKnown name = true ↔ name ∈ Native.names := by simp [Native.isKnown]
  rw [← ite_not]
  refine .cond fun issue => ?_
  rw [hknown]
  constructor
  · intro h
    cases h with
    | unknown hname' hnot =>
      rw [hname] at hname'
      cases hname'
      exact ⟨hnot, rfl⟩
  · rintro ⟨hnot, rfl⟩
    exact .unknown hname hnot

/-- **The native functions**, after those that were seen. -/
theorem reports_nativeIssues {seen rest : List Text}
    (h : trimmed d.natives = seen.reverse ++ rest) :
    Reports (d.Violates files dir)
      (fun point => ∃ k, seen.length ≤ k ∧ (point = .unknown k ∨ point = .repeated k))
      (nativeIssues seen rest) := by
  induction rest generalizing seen with
  | nil =>
    refine .nil ?_
    rintro point issue ⟨k, hk, hpoint⟩ hviolates
    have hnone : (trimmed d.natives)[k]? = none := by
      rw [h]
      exact List.getElem?_eq_none (by simpa using hk)
    rcases hpoint with rfl | rfl
    · cases hviolates with
      | unknown hname _ =>
        rw [hnone] at hname
        cases hname
    · cases hviolates with
      | repeated hname _ _ =>
        rw [hnone] at hname
        cases hname
  | cons name rest ih =>
    have hname : (trimmed d.natives)[seen.length]? = some name := by
      rw [h, List.getElem?_append_right (by simp)]
      simp
    -- what was seen stands before this position
    have hseen : name ∈ seen ↔ ∃ earlier < seen.length,
        (trimmed d.natives)[earlier]? = some name := by
      rw [← List.mem_reverse, List.mem_iff_getElem?, h]
      constructor
      · rintro ⟨j, hj⟩
        have hlt : j < seen.reverse.length := (List.getElem?_eq_some_iff.1 hj).1
        refine ⟨j, by simpa using hlt, ?_⟩
        rw [List.getElem?_append_left hlt]
        exact hj
      · rintro ⟨j, hlt, hj⟩
        rw [List.getElem?_append_left (by simpa using hlt)] at hj
        exact ⟨j, hj⟩
    have hrepeated : Reports (d.Violates files dir) (· = .repeated seen.length)
        (if seen.contains name then [.nativeRepeated name] else []) := by
      refine .cond fun issue => ?_
      rw [List.contains_iff_mem, hseen]
      constructor
      · intro h
        cases h with
        | repeated hname' hlt hearlier =>
          rw [hname] at hname'
          cases hname'
          exact ⟨⟨_, hlt, hearlier⟩, rfl⟩
      · rintro ⟨⟨_, hlt, hearlier⟩, rfl⟩
        exact .repeated hname hlt hearlier
    have hnext : trimmed d.natives = (name :: seen).reverse ++ rest := by simp [h]
    refine (((reports_unknown hname).append hrepeated ?_).append (ih hnext) ?_).congr ?_
    · rintro _ _ rfl rfl
      simp [Point.place, List.cons_lt_cons_iff]
    · rintro _ _ (rfl | rfl) ⟨k, hk, rfl | rfl⟩ <;>
        simp [Point.place, List.cons_lt_cons_iff] at hk ⊢ <;> omega
    · intro point issue _
      rw [List.length_cons]
      constructor
      · rintro ((rfl | rfl) | ⟨k, hk, hpoint⟩)
        · exact ⟨_, Nat.le_refl _, .inl rfl⟩
        · exact ⟨_, Nat.le_refl _, .inr rfl⟩
        · exact ⟨k, by omega, hpoint⟩
      · rintro ⟨k, hk, hpoint⟩
        rcases Nat.eq_or_lt_of_le hk with rfl | hlt
        · exact .inl hpoint
        · exact .inr ⟨k, hlt, hpoint⟩

/-- The report is put together from the checks. -/
theorem issues_ofDraft (files : Files Id) (path : Path) (d : Draft) :
    (ofDraft path d).issues files =
      nameIssues d.name.trim ++
        (if d.entry.trim = [] then []
          else scriptIssues .entry (path.parent.resolve d.entry.trim)
            (files.stat (path.parent.resolve d.entry.trim))) ++
        (checkPrelude files 0 ((trimmed d.prelude).map path.parent.resolve)).run ++
        nativeIssues [] (trimmed d.natives) ++ stepsIssues d.steps := by
  unfold issues ofDraft
  by_cases hentry : d.entry.trim = []
  · simp [hentry, bind, pure, Id.run]
  · simp [hentry, bind, pure, Id.run, checkScript]

/-- **The whole report** is on all that is violated. -/
theorem reports_issues (files : Files Id) (path : Path) (d : Draft) :
    Reports (d.Violates files path.parent) (fun _ => True) ((ofDraft path d).issues files) := by
  rw [issues_ofDraft]
  have hscripts : (trimmed d.prelude).drop 0 = trimmed d.prelude := List.drop_zero
  have hlisted : trimmed d.natives = [].reverse ++ trimmed d.natives := rfl
  -- five regions, one after the other
  refine ((((reports_nameIssues.append reports_entry ?_).append
    (reports_checkPrelude hscripts) ?_).append (reports_nativeIssues hlisted) ?_).append
    reports_stepsIssues ?_).congr ?_
  · rintro _ _ rfl rfl
    decide
  · rintro _ _ (rfl | rfl) ⟨i, _, rfl⟩ <;> simp [Point.place, List.cons_lt_cons_iff]
  · rintro _ _ ((rfl | rfl) | ⟨i, _, rfl⟩) ⟨k, _, rfl | rfl⟩ <;>
      simp [Point.place, List.cons_lt_cons_iff]
  · rintro _ _ (((rfl | rfl) | ⟨i, _, rfl⟩) | ⟨k, _, rfl | rfl⟩) rfl <;>
      simp [Point.place, List.cons_lt_cons_iff]
  · intro point issue _
    cases point <;> simp

/-- **A draft is valid if no point of it is violated.** -/
theorem Draft.valid_iff :
    d.Valid files dir ↔ ∀ point issue, ¬ d.Violates files dir point issue := by
  constructor
  · intro h point issue hviolates
    cases hviolates with
    | nameMissing hnil =>
      have hname := isName_iff.2 h.name
      rw [hnil] at hname
      cases hname
    | nameMalformed _ hbad => exact hbad h.name
    | entry hsome hfault => exact no_scriptFault_iff.2 (h.entry hsome) _ hfault
    | prelude hscript hfault =>
      exact no_scriptFault_iff.2 (h.prelude _ (List.mem_of_getElem? hscript)) _ hfault
    | unknown hname hnot => exact hnot (h.known _ (List.mem_of_getElem? hname))
    | repeated hname hlt hearlier =>
      have hpos := (List.getElem?_eq_some_iff.1 hearlier).1
      have heq := (List.getElem?_inj hpos h.distinct).1 (hearlier.trans hname.symm)
      omega
    | steps hneg =>
      have := h.steps
      omega
  · intro h
    refine ⟨?_, ?_, ?_, ?_, ?_, ?_⟩
    · by_contra hbad
      by_cases hnil : d.name.trim = []
      · exact h _ _ (.nameMissing hnil)
      · exact h _ _ (.nameMalformed hnil hbad)
    · intro hsome
      exact no_scriptFault_iff.1 fun issue hfault => h _ _ (.entry hsome hfault)
    · intro script hscript
      obtain ⟨index, hindex⟩ := List.mem_iff_getElem?.1 hscript
      exact no_scriptFault_iff.1 fun issue hfault => h _ _ (.prelude hindex hfault)
    · intro name hname
      obtain ⟨position, hposition⟩ := List.mem_iff_getElem?.1 hname
      by_contra hnot
      exact h _ _ (.unknown hposition hnot)
    · rw [List.nodup_iff_pairwise_ne, List.pairwise_iff_getElem]
      intro earlier position hearlier hposition hlt heq
      refine h _ _ (.repeated (List.getElem?_eq_getElem hposition) hlt ?_)
      rw [List.getElem?_eq_getElem hearlier, heq]
    · by_contra hneg
      exact h _ _ (.steps (by omega))

end Checks

/-! ## §5. Loading. -/

section Loading

variable {files : Files Id} {path : Path} {d : Draft}

/-- Loading a manifest that can be decoded is checking its draft. -/
theorem load_of_draft {decode : Decoder} {cwd : Path} {t content : Text} (ht : t ≠ [])
    (hread : files.read (cwd.resolve t) = .ok content)
    (hdraft : decode content = .ok (some d)) :
    load files decode cwd t = check files (cwd.resolve t) d := by
  have hsome : t.isEmpty = false := by simpa using ht
  unfold load loadAt
  rw [hsome]
  simp [bind, hread, hdraft]

/-- Nothing is reported on a draft if it is valid, and only then. -/
theorem issues_eq_nil_iff :
    (ofDraft path d).issues files = [] ↔ d.Valid files path.parent := by
  obtain ⟨report, hissues, -, hexact⟩ := reports_issues files path d
  rw [← hissues, List.map_eq_nil_iff, Draft.valid_iff]
  constructor
  · intro hnil point issue hviolates
    have hmem := (hexact point issue).2 ⟨trivial, hviolates⟩
    rw [hnil] at hmem
    exact List.not_mem_nil hmem
  · intro hnone
    refine List.eq_nil_iff_forall_not_mem.2 fun entry hmem => ?_
    exact hnone entry.1 entry.2 ((hexact _ _).1 hmem).2

/-- A valid draft is accepted as it stands. -/
theorem check_of_valid (h : d.Valid files path.parent) :
    check files path d = .ok (ofDraft path d) := by
  unfold check
  simp [bind, pure, issues_eq_nil_iff.2 h]

/-- Any other draft is refused with the whole report. -/
theorem check_of_not_valid (h : ¬ d.Valid files path.parent) :
    check files path d = .error (.invalid ((ofDraft path d).issues files)) := by
  have hsome : (ofDraft path d).issues files ≠ [] := fun hnil => h (issues_eq_nil_iff.1 hnil)
  unfold check
  simp [bind, pure, hsome]

theorem check_eq_ok_iff {x : Manifest} :
    check files path d = .ok x ↔ d.Valid files path.parent ∧ x = ofDraft path d := by
  constructor
  · intro h
    by_cases hvalid : d.Valid files path.parent
    · rw [check_of_valid hvalid] at h
      cases h
      exact ⟨hvalid, rfl⟩
    · rw [check_of_not_valid hvalid] at h
      cases h
  · rintro ⟨hvalid, rfl⟩
    exact check_of_valid hvalid

end Loading

end Manifest

/-! ## §6. Sessions under a manifest. -/

namespace Manifest

/-- The names of the allowed functions are those listed, if these are known. -/
theorem exists_allowed_iff {allowed : List Text} (hknown : ∀ name ∈ allowed, name ∈ Native.names)
    {name : Text} :
    (∃ fn : Native, fn.Allowed allowed ∧ name = fn.name) ↔
      name ∈ if allowed = [] then Native.names else allowed := by
  have hnames : name ∈ Native.names ↔ ∃ fn ∈ Native.table, name = fn.name := by
    simp [Native.names, eq_comm]
  by_cases hnil : allowed = []
  · rw [if_pos hnil, hnames]
    simp [Native.Allowed, hnil]
  · rw [if_neg hnil]
    constructor
    · rintro ⟨fn, ⟨-, hallowed⟩, rfl⟩
      exact hallowed.resolve_left hnil
    · intro hname
      obtain ⟨fn, htable, rfl⟩ := hnames.1 (hknown name hname)
      exact ⟨fn, ⟨htable, .inr hname⟩, rfl⟩

section Sessions

variable (x : Manifest) (sink : Sink) (outside : Outside)

/-- A session is a new one with the native functions of its manifest. -/
theorem session_eq_new :
    x.session sink outside = .new (x.session sink outside).settings x.natives :=
  calc x.session sink outside
      = .new (x.session sink outside).settings (x.session sink outside).allowed := rfl
    _ = .new (x.session sink outside).settings x.natives := by rw [allowed_session]

theorem outside_session : (x.session sink outside).settings.outside = outside := by
  unfold session sessionUnder restrictions
  by_cases hn : x.natives = []
  · by_cases hs : 0 < x.steps
    · simp [hn, hs, Restriction.apply, Interpreter.new]
    · simp [hn, hs, Interpreter.new]
  · by_cases hs : 0 < x.steps
    · simp [hn, hs, Restriction.apply, Interpreter.new]
    · simp [hn, hs, Restriction.apply, Interpreter.new]

theorem bindsExactly_session :
    (x.session sink outside).machine.scopes.BindsExactly (x.session sink outside).global
      x.natives := by
  rw [session_eq_new]
  exact Forest.empty.bindsExactly_add x.natives

/-- **What a session binds**, if the native functions of its manifest are all known: three
    constants, and each function that is listed. -/
theorem binds_session_iff (hknown : ∀ name ∈ x.natives, name ∈ Native.names) (name : Text) :
    (x.session sink outside).machine.scopes.binds (x.session sink outside).global name = true ↔
      name = "true" ∨ name = "false" ∨ name = "null" ∨
        name ∈ if x.natives = [] then Native.names else x.natives := by
  have hbinds := bindsExactly_session x sink outside name
  rw [Forest.binds_eq_isSome, Option.isSome_iff_exists, ← exists_allowed_iff hknown]
  constructor
  · rintro ⟨b, hb⟩
    rcases ((hbinds b).1 hb).2 with ⟨h, -⟩ | ⟨h, -⟩ | ⟨h, -⟩ | ⟨fn, hfn, hname, -⟩
    · exact .inl h
    · exact .inr (.inl h)
    · exact .inr (.inr (.inl h))
    · exact .inr (.inr (.inr ⟨fn, hfn, hname⟩))
  · rintro (h | h | h | ⟨fn, hfn, hname⟩)
    · exact ⟨⟨.boolean true, true⟩, (hbinds _).2 ⟨rfl, .inl ⟨h, rfl⟩⟩⟩
    · exact ⟨⟨.boolean false, true⟩, (hbinds _).2 ⟨rfl, .inr (.inl ⟨h, rfl⟩)⟩⟩
    · exact ⟨⟨.null, true⟩, (hbinds _).2 ⟨rfl, .inr (.inr (.inl ⟨h, rfl⟩))⟩⟩
    · exact ⟨⟨.native fn, true⟩, (hbinds _).2 ⟨rfl, .inr (.inr (.inr ⟨fn, hfn, hname, rfl⟩))⟩⟩

/-- The limit of a manifest that is valid is the limit of its sessions, at any time. -/
theorem withLimit_evaluateAll (hsteps : 0 ≤ x.steps) (earlier : List (ScopeId × Node)) :
    ((x.session sink outside).evaluateAll earlier).withLimit x.steps =
      (x.session sink outside).evaluateAll earlier := by
  have hlimit : ((x.session sink outside).evaluateAll earlier).settings.stepLimit = x.steps := by
    rw [Interpreter.settings_evaluateAll, stepLimit_session]
    omega
  rw [← hlimit]
  rfl

/-- **What the limit does in a session**, at any time: it is no limit if it is zero or is not
    reached, and else it ends the evaluation. -/
theorem outcome_evaluateAll (hsteps : 0 ≤ x.steps) (hquiet : outside.Quiet)
    (earlier : List (ScopeId × Node)) (scope : ScopeId) (node : Node) :
    let j := (x.session sink outside).evaluateAll earlier
    let visits := (j.record scope node).visits
    (x.steps = 0 ∨ visits.length ≤ x.steps →
      j.outcome scope node = outcomeOf (j.record scope node).ending) ∧
    (0 < x.steps → x.steps < visits.length → ∃ pos,
      (j.outcome scope node).1 = .error (.error ⟨.stepLimit x.steps, pos⟩)) := by
  intro j visits
  have hj : j.withLimit x.steps = j := withLimit_evaluateAll x sink outside hsteps earlier
  have hquiet' : j.settings.outside.Quiet := by
    rw [Interpreter.settings_evaluateAll, outside_session]
    exact hquiet
  constructor
  · intro hle
    have henough : x.steps ≤ 0 ∨ (visits.length : Int) ≤ x.steps := hle.imp_left Int.le_of_eq
    have hrun := j.outcome_of_le hquiet' scope node henough
    rw [hj] at hrun
    exact hrun
  · intro hpos hlt
    -- the visit after as many others as the limit allows
    obtain ⟨limit, hlimit⟩ := Int.eq_ofNat_of_zero_le hsteps
    rw [hlimit] at hj hpos hlt ⊢
    have hv : visits[limit]? = some visits[limit] := List.getElem?_eq_getElem (by omega)
    have hrun := j.outcome_of_visit hquiet' scope node (Int.natCast_pos.1 hpos) hv
    rw [hj] at hrun
    exact ⟨_, by rw [hrun]⟩

end Sessions

/-! ## §7. What loading says. -/

/-- **Validation reports every violation, once, in order.**  Let a manifest be read from a file,
    in any file system, and decoded, in whatever way, to any draft.  It is loaded if, and only
    if, it is valid: its name, trimmed, matches `[A-Za-z_][A-Za-z0-9_-]*`; at its entry, unless
    that is blank, and at each script before it that is not blank, followed from its directory,
    there is something and no directory; its native functions that are not blank are known and
    are different; and its limit is not negative.  Otherwise it is refused with the issues of a
    report that lists just what is violated, each with its point, by the order of the points:
    the name, the entry, the scripts by their index after blank ones were dropped, for each
    native function whether it is unknown and then whether it was listed before, the limit.  An
    issue with a script before the entry begins with the index.  A manifest that is loaded is
    the one that the file states.  A new session under it binds `true`, `false`, `null` and the
    native functions that are listed, all of them if none is, as constants, and nothing else;
    and at any time, if the host leaves the counter alone, an evaluation that needs more steps
    than a positive limit fails at the limit, while any other one goes as if there were
    none. -/
theorem validation_reports_every_violation (files : Files Id) (decode : Decoder) (cwd : Path)
    (t content : Text) (d : Draft) (ht : t ≠ [])
    (hread : files.read (cwd.resolve t) = .ok content)
    (hdraft : decode content = .ok (some d)) :
    let path := cwd.resolve t
    ((∃ x, load files decode cwd t = .ok x) ↔ d.Valid files path.parent) ∧
    (¬ d.Valid files path.parent → ∃ report : List (Point × Issue), report ≠ [] ∧
      load files decode cwd t = .error (.invalid (report.map Prod.snd)) ∧
      report.Pairwise (fun a b => a.1.place < b.1.place) ∧
      (∀ point issue, (point, issue) ∈ report ↔ d.Violates files path.parent point issue) ∧
      ∀ index issue, (.prelude index, issue) ∈ report →
        Text.ofString "prelude[" ++ Text.ofNat index ++ Text.ofString "]: " <+: issue.text) ∧
    ∀ x, load files decode cwd t = .ok x → x = ofDraft path d ∧ ∀ sink outside,
      let i := x.session sink outside
      i.machine.scopes.BindsExactly i.global (trimmed d.natives) ∧
      (∀ name, i.machine.scopes.binds i.global name = true ↔
        name = "true" ∨ name = "false" ∨ name = "null" ∨
          name ∈ if trimmed d.natives = [] then Native.names else trimmed d.natives) ∧
      (outside.Quiet → ∀ earlier scope node,
        let j := i.evaluateAll earlier
        let visits := (j.record scope node).visits
        (d.steps = 0 ∨ visits.length ≤ d.steps →
          j.outcome scope node = outcomeOf (j.record scope node).ending) ∧
        (0 < d.steps → d.steps < visits.length → ∃ pos,
          (j.outcome scope node).1 = .error (.error ⟨.stepLimit d.steps, pos⟩))) := by
  intro path
  have hload : load files decode cwd t = check files path d := load_of_draft ht hread hdraft
  rw [hload]
  refine ⟨?_, ?_, ?_⟩
  · constructor
    · rintro ⟨x, hx⟩
      exact (check_eq_ok_iff.1 hx).1
    · exact fun hvalid => ⟨_, check_of_valid hvalid⟩
  · intro hinvalid
    obtain ⟨report, hissues, hordered, hexact⟩ := reports_issues files path d
    have hviolates : ∀ point issue, (point, issue) ∈ report ↔
        d.Violates files path.parent point issue := by
      intro point issue
      rw [hexact, true_and]
    refine ⟨report, ?_, ?_, hordered, hviolates, ?_⟩
    · rintro rfl
      exact hinvalid (issues_eq_nil_iff.1 hissues.symm)
    · rw [check_of_not_valid hinvalid, hissues]
    · intro index issue hmem
      cases (hviolates _ _).1 hmem with
      | prelude _ hfault =>
        have hlabel : Text.ofString "]: " = Text.ofString "]" ++ Text.ofString ": " := by decide
        rw [hlabel, ← List.append_assoc]
        exact hfault.text_of_field
  · intro x hx
    obtain ⟨hvalid, rfl⟩ := check_eq_ok_iff.1 hx
    refine ⟨rfl, fun sink outside => ⟨?_, ?_, ?_⟩⟩
    · exact bindsExactly_session (ofDraft path d) sink outside
    · exact binds_session_iff (ofDraft path d) sink outside hvalid.known
    · exact outcome_evaluateAll (ofDraft path d) sink outside hvalid.steps

/-- A manifest with something wrong at most points; the first script before the entry is
    blank. -/
def faulty : Text :=
  "name: 1 a\nentry: b\nprelude: [' ', lib, main/c]\n" ++
    "natives: [max, d, ' max']\nlimits: \x7bsteps: -1\x7d"

/-- The draft that it states. -/
def faultyDraft : Draft := ⟨"1 a", "b", [" ", "lib", "main/c"], ["max", "d", " max"], -1⟩

/-- A manifest with nothing wrong. -/
def sound : Text := "name: a\nentry: ' main '\nnatives: print\nlimits:\n  steps: 2"

/-- The draft that it states. -/
def soundDraft : Draft := ⟨"a", " main ", [], ["print"], 2⟩

/-- A decoder for the two. -/
def projectDecoder : Decoder := fun content =>
  if content = faulty then .ok (some faultyDraft)
  else if content = sound then .ok (some soundDraft)
  else .ok none

/-- A directory with both manifests, an empty directory and a script. -/
def project : FileTree :=
  .directory [("p", .directory [("faulty.yml", .file faulty), ("sound.yml", .file sound),
    ("lib", .empty), ("main", .file "print(null)")])]

/-- The script `print(null)`. -/
def printNull : Node := .program ⟨⟨⟨1, 1⟩, ⟨1, 12⟩⟩, [
  .expression (.call ⟨⟨1, 1⟩, ⟨1, 12⟩⟩ (.identifier ⟨⟨1, 1⟩, ⟨1, 6⟩⟩ "print")
    [.identifier ⟨⟨1, 7⟩, ⟨1, 11⟩⟩ "null"])]⟩

/-- One manifest is refused with seven issues; under the other one a script may print, but not
    compare, and has two steps. -/
theorem validation_reports_every_violation_project :
    (project.files.read ⟨["p", "faulty.yml"]⟩ = .ok faulty ∧
      projectDecoder faulty = .ok (some faultyDraft) ∧
      ¬ faultyDraft.Valid project.files ⟨["p"]⟩ ∧
      load project.files projectDecoder ⟨["p"]⟩ "faulty.yml" = .error (.invalid [
        .nameMalformed "1 a",
        .scriptMissing .entry ⟨["p", "b"]⟩,
        .scriptDirectory (.prelude 0) ⟨["p", "lib"]⟩,
        .scriptUnreachable (.prelude 1) ⟨["p", "main", "c"]⟩ .notDirectory,
        .nativeUnknown "d", .nativeRepeated "max", .stepsNegative (-1)]) ∧
      ∃ report : List (Point × Issue),
        load project.files projectDecoder ⟨["p"]⟩ "faulty.yml" =
          .error (.invalid (report.map Prod.snd)) ∧
        (.repeated 2, .nativeRepeated "max") ∈ report) ∧
    (project.files.read ⟨["p", "sound.yml"]⟩ = .ok sound ∧
      projectDecoder sound = .ok (some soundDraft) ∧
      soundDraft.Valid project.files ⟨["p"]⟩ ∧
      ∃ x, load project.files projectDecoder ⟨["p"]⟩ "sound.yml" = .ok x ∧
        let i := x.session .collect .bare
        i.machine.scopes.binds i.global "print" = true ∧
        i.machine.scopes.binds i.global "max" ≠ true ∧
        ∃ pos, (i.outcome i.global printNull).1 = .error (.error ⟨.stepLimit 2, pos⟩)) := by
  have hread : project.files.read ⟨["p", "faulty.yml"]⟩ = .ok faulty := by rfl
  have hdraft : projectDecoder faulty = .ok (some faultyDraft) := by decide +kernel
  have hinvalid : ¬ faultyDraft.Valid project.files ⟨["p"]⟩ := fun h => absurd h.steps (by decide)
  obtain ⟨-, hrefused, -⟩ := validation_reports_every_violation project.files
    projectDecoder ⟨["p"]⟩ "faulty.yml" faulty faultyDraft (by decide) hread hdraft
  obtain ⟨report, -, hreport, -, hexact, -⟩ := hrefused hinvalid
  have hread' : project.files.read ⟨["p", "sound.yml"]⟩ = .ok sound := by rfl
  have hdraft' : projectDecoder sound = .ok (some soundDraft) := by decide +kernel
  have hload : load project.files projectDecoder ⟨["p"]⟩ "sound.yml" =
      .ok (ofDraft ⟨["p", "sound.yml"]⟩ soundDraft) := by
    rw [load_of_draft (by decide) hread' hdraft']
    exact Id.ext (by decide +kernel)
  obtain ⟨hvalid, -, haccepted⟩ := validation_reports_every_violation project.files
    projectDecoder ⟨["p"]⟩ "sound.yml" sound soundDraft (by decide) hread' hdraft'
  obtain ⟨-, hsession⟩ := haccepted _ hload
  obtain ⟨-, hbinds, hlimit⟩ := hsession .collect .bare
  refine ⟨⟨hread, hdraft, hinvalid, ?_, report, hreport, ?_⟩, hread', hdraft', hvalid.1 ⟨_, hload⟩,
    _, hload, ?_, ?_, ?_⟩
  · rw [load_of_draft (by decide) hread hdraft]
    exact Id.ext (by decide +kernel)
  · have hname : (trimmed faultyDraft.natives)[2]? = some (Text.ofString "max") := by
      decide +kernel
    have hbefore : (trimmed faultyDraft.natives)[0]? = some (Text.ofString "max") := by
      decide +kernel
    exact (hexact _ _).2 (.repeated hname (by decide) hbefore)
  · exact (hbinds _).2 (by decide +kernel)
  · exact fun h => absurd ((hbinds _).1 h) (by decide +kernel)
  · exact (hlimit Outside.bare_quiet [] _ printNull).2 (by decide) (by decide +kernel)

end Manifest

end Scriptorium
