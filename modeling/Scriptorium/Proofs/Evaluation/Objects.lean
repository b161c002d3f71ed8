/-
  Scriptorium.Proofs.Evaluation.Objects: an object is its members in the order of setting.

  An object keeps the order of its keys beside the table of its values.  However the members
  of a new object are set, whether one by one or by a literal, the two stay in step: there is
  one key in the order for every key that was set, in the place that it got when it was set for
  the first time, and the table has the value that it was given last.  That is what one sees
  through the map, in the printed text and in the list of keys.  The object may be a member of
  itself.

  Main results:
    * `OrderedMap.agrees_insertAll`: order and table stay in step.
    * `OrderedMap.keys_insertAll`, `OrderedMap.get?_insertAll`: keys and values after any number
      of entries were set.
    * `setMembers_of_object`: setting members one by one.
    * `evalExpr_object_eq`: a literal sets its properties in the order of writing.
    * `objects_keep_first_places`: all that is seen of an object.
-/

import Mathlib.Data.List.Basic
import Scriptorium.Proofs.Evaluation.Slots
import Scriptorium.Proofs.Values.Depiction

namespace Scriptorium

/-! ## §1. Maps and the entries that were set. -/

namespace OrderedMap

variable {κ ν : Type} [DecidableEq κ] {m : OrderedMap κ ν} {sets : List (κ × ν)}

/-- The map after entries were set, from the first to the last. -/
def insertAll (m : OrderedMap κ ν) (sets : List (κ × ν)) : OrderedMap κ ν :=
  sets.foldl (fun m entry => m.insert entry.1 entry.2) m

/-- The keys of entries, each of them once, in the order in which they are first there. -/
def firstKeys (sets : List (κ × ν)) : List κ := (sets.map Prod.fst).eraseDups

/-- `m.BuiltBy sets`: the map is what becomes of a map without entries when these are set.  The
    keys are in the order in which they were first set, and under a key there is what was set
    last. -/
structure BuiltBy (m : OrderedMap κ ν) (sets : List (κ × ν)) : Prop where
  keys : m.keys = firstKeys sets
  size : m.size = (firstKeys sets).length
  latest : ∀ key v, m.get? key = some v ↔
    ∃ earlier later, sets = earlier ++ (key, v) :: later ∧ key ∉ later.map Prod.fst
  missing : ∀ key, m.get? key = none ↔ key ∉ sets.map Prod.fst
  contains : ∀ key, m.contains key = (m.get? key).isSome

theorem mem_firstKeys {key : κ} : key ∈ firstKeys sets ↔ key ∈ sets.map Prod.fst :=
  List.mem_eraseDups

/-- A key that was set before changes no place. -/
theorem firstKeys_concat (sets : List (κ × ν)) (key : κ) (v : ν) :
    firstKeys (sets ++ [(key, v)]) =
      if key ∈ firstKeys sets then firstKeys sets else firstKeys sets ++ [key] := by
  have happend : firstKeys (sets ++ [(key, v)]) =
      firstKeys sets ++ ([key].removeAll (sets.map Prod.fst)).eraseDups := by
    unfold firstKeys
    rw [List.map_append, List.eraseDups_append]
    rfl
  rw [happend]
  by_cases hkey : key ∈ firstKeys sets
  · rw [if_pos hkey]
    simp [List.removeAll, mem_firstKeys.1 hkey]
  · rw [if_neg hkey]
    simp [List.removeAll, mt mem_firstKeys.2 hkey, List.eraseDups_cons]

theorem insertAll_concat (m : OrderedMap κ ν) (sets : List (κ × ν)) (key : κ) (v : ν) :
    m.insertAll (sets ++ [(key, v)]) = (m.insertAll sets).insert key v := by
  unfold insertAll
  rw [List.foldl_append]
  rfl

/-- **Order and table stay in step**, whatever is set. -/
theorem agrees_insertAll (sets : List (κ × ν)) :
    ((empty : OrderedMap κ ν).insertAll sets).Agrees := by
  induction sets using List.reverseRecOn with
  | nil => exact .empty
  | append_singleton sets entry ih =>
    rw [insertAll_concat]
    exact ih.insert entry.1 entry.2

/-- The keys after entries were set. -/
theorem keys_insertAll (sets : List (κ × ν)) :
    ((empty : OrderedMap κ ν).insertAll sets).keys = firstKeys sets := by
  induction sets using List.reverseRecOn with
  | nil => rfl
  | append_singleton sets entry ih =>
    -- the table is asked whether the key is known, and the order answers the same
    have hknown := (agrees_insertAll sets).mem_keys entry.1
    rw [ih] at hknown
    rw [insertAll_concat, keys_insert, ih, firstKeys_concat]
    simp only [hknown]

/-- A key has the value that is met first from the end. -/
theorem get?_insertAll (sets : List (κ × ν)) (key : κ) :
    ((empty : OrderedMap κ ν).insertAll sets).get? key =
      (sets.reverse.find? fun entry => entry.1 = key).map Prod.snd := by
  induction sets using List.reverseRecOn with
  | nil => rfl
  | append_singleton sets entry ih =>
    rw [insertAll_concat, get?_insert, ih, List.reverse_concat, List.find?_cons]
    by_cases hkey : entry.1 = key
    · simp [hkey]
    · simp [hkey]

/-- What is found first from the end has nothing with the same key behind it. -/
theorem find?_reverse_eq_some_iff {key : κ} {v : ν} :
    (sets.reverse.find? fun entry => entry.1 = key).map Prod.snd = some v ↔
      ∃ earlier later, sets = earlier ++ (key, v) :: later ∧ key ∉ later.map Prod.fst := by
  have hnotMem : ∀ l : List (κ × ν), key ∉ l.map Prod.fst ↔ ∀ entry ∈ l, ¬ entry.1 = key := by
    intro l
    simp only [List.mem_map, not_exists, not_and]
  simp only [Option.map_eq_some_iff, List.find?_eq_some_iff_append, List.reverse_eq_append_iff,
    List.reverse_cons, List.append_assoc, List.singleton_append, decide_eq_true_eq,
    Bool.not_eq_true', decide_eq_false_iff_not, hnotMem]
  constructor
  · intro ⟨(_, _), ⟨hkey, later, earlier, hsets, hnone⟩, hv⟩
    cases hkey
    cases hv
    exact ⟨earlier.reverse, later.reverse, hsets, by simpa using hnone⟩
  · intro ⟨earlier, later, hsets, hnone⟩
    refine ⟨(key, v), ⟨rfl, later.reverse, earlier.reverse, ?_, by simpa using hnone⟩, rfl⟩
    rw [List.reverse_reverse, List.reverse_reverse]
    exact hsets

/-- **A map is built by the entries that are set in it.** -/
theorem builtBy_insertAll (sets : List (κ × ν)) :
    ((empty : OrderedMap κ ν).insertAll sets).BuiltBy sets where
  keys := keys_insertAll sets
  size := by rw [← length_keys, keys_insertAll]
  latest key v := by rw [get?_insertAll, find?_reverse_eq_some_iff]
  missing key := by
    rw [← mem_firstKeys, ← keys_insertAll, (agrees_insertAll sets).mem_keys, contains_eq_isSome,
      Option.not_isSome_iff_eq_none]
  contains := contains_eq_isSome _

end OrderedMap

/-! ## §2. What is seen of an object. -/

/-- The text of an object with these keys, from the texts of what it has under them. -/
def Text.ofMembers (keys : List Text) (text : Text → Text) : Text :=
  if keys = [] then "\x7b\x7d"
  else "\x7b " ++ Text.join ", " (keys.map fun key => key ++ ": " ++ text key) ++ " \x7d"

/-- An object is printed key by key. -/
theorem Heap.text_object {h : Heap} {a : Address} {fields : OrderedMap Text Value}
    (hc : h.get? a = some (.object fields)) :
    h.text (.ref a) =
      .ofMembers fields.keys fun key => h.render [a] ((fields.get? key).getD .nothing) := by
  have hentries : (fields.entries.map fun entry =>
        entry.1 ++ Text.ofString ": " ++ h.render [a] entry.2) =
      fields.keys.map fun key =>
        key ++ Text.ofString ": " ++ h.render [a] ((fields.get? key).getD .nothing) := by
    unfold OrderedMap.entries
    rw [List.map_map]
    rfl
  -- the printer asks for the size, the text for the keys
  have hempty : fields.size = 0 ↔ fields.keys = [] := by
    rw [← OrderedMap.length_keys, List.length_eq_zero_iff]
  have hprinted : h.text (.ref a) = h.render [] (.ref a) := h.text_eq (.ref a)
  rw [hprinted, render_container List.not_mem_nil hc]
  unfold Container.written Text.ofMembers
  dsimp only
  rw [hentries]
  simp only [hempty]

/-- The keys of an object are listed in their order, in a new list. -/
theorem callNative_keys {m : Machine} {a : Address} {fields : OrderedMap Text Value}
    (hc : m.heap.get? a = some (.object fields)) {fn : Native} (hfn : fn ∈ Native.table)
    (hname : fn.name = "keys") (settings : Settings) (scope : ScopeId) (span : Span) :
    ∃ list m', callNative settings scope span fn [.ref a] m = .ok list m' ∧
      list.IsNew (.list (fields.keys.map .string)) m m' := by
  have hnative : fn = ⟨"keys", 1, .keys⟩ := by
    revert fn
    decide
  have hlist : Action.keysOf (.ref a) m = Eval.alloc (.list (fields.keys.map .string)) m := by
    have hget : (get : Eval Machine) m = .ok m m := rfl
    unfold Action.keysOf
    rw [Eval.bind_ok hget]
    dsimp only
    rw [hc]
  obtain ⟨list, m', halloc⟩ : ∃ list m', Eval.alloc (.list (fields.keys.map .string)) m =
      .ok list m' := ⟨_, _, rfl⟩
  have hnew := Eval.isNew_of_alloc_eq_ok halloc
  refine ⟨list, m', ?_, hnew⟩
  obtain ⟨b, rfl, _⟩ := hnew.present
  have hrun : fn.action.run settings scope [.ref a] m = .ok (.ref b) m' := by
    rw [hnative]
    exact hlist.trans halloc
  refine callNative_of_ok (.inr ?_) (by simp) hrun span
  rw [hnative]
  rfl

/-- `m.HasObject a fields sets`: at the address there is an object that is built by these
    members, and so it is printed and its keys are listed. -/
structure Machine.HasObject (m : Machine) (a : Address) (fields : OrderedMap Text Value)
    (sets : List (Text × Value)) : Prop where
  present : m.heap.get? a = some (.object fields)
  built : fields.BuiltBy sets
  text : m.heap.text (.ref a) = .ofMembers (OrderedMap.firstKeys sets) fun key =>
    m.heap.render [a] ((fields.get? key).getD .nothing)
  listed : ∀ fn ∈ Native.table, fn.name = "keys" → ∀ settings scope span, ∃ list m',
    callNative settings scope span fn [.ref a] m = .ok list m' ∧
      list.IsNew (.list ((OrderedMap.firstKeys sets).map .string)) m m'

/-- An object that is built by members is seen as such. -/
theorem Machine.HasObject.of_builtBy {m : Machine} {a : Address} {fields : OrderedMap Text Value}
    {sets : List (Text × Value)} (hc : m.heap.get? a = some (.object fields))
    (hbuilt : fields.BuiltBy sets) : m.HasObject a fields sets where
  present := hc
  built := hbuilt
  text := by rw [← hbuilt.keys, Heap.text_object hc]
  listed fn hfn hname settings scope span := by
    rw [← hbuilt.keys]
    exact callNative_keys hc hfn hname settings scope span

/-! ## §3. Setting members one by one. -/

/-- Sets members of an object, from the first to the last. -/
def setMembers (span : Span) (object : Value) : List (Text × Value) → Eval Unit
  | [] => pure ()
  | (key, v) :: sets => do
    let _ ← writeMember span object (.string key) v
    setMembers span object sets

section Members

variable {m : Machine} {a : Address} {fields : OrderedMap Text Value}

theorem writeMember_of_object (hc : m.heap.get? a = some (.object fields)) (span : Span)
    (key : Text) (v : Value) :
    writeMember span (.ref a) (.string key) v m =
      .ok v { m with heap := m.heap.set a (.object (fields.insert key v)) } := by
  have hwrite : outcomeOf (writeMember span (.ref a) (.string key) v m) =
      (.ok v, { m with heap := m.heap.set a (.object (fields.insert key v)) }) :=
    writeMember_eq hc span (.string key) v
  cases hrun : writeMember span (.ref a) (.string key) v m with
  | ok w m' =>
    rw [hrun] at hwrite
    cases hwrite
    rfl
  | error s m' =>
    rw [hrun] at hwrite
    cases hwrite

/-- **Members are set one by one**, and nothing else changes. -/
theorem setMembers_of_object (hc : m.heap.get? a = some (.object fields)) (span : Span)
    (sets : List (Text × Value)) :
    ∃ heap : Heap, setMembers span (.ref a) sets m = .ok () { m with heap } ∧
      heap.get? a = some (.object (fields.insertAll sets)) ∧
      ∀ b, b ≠ a → heap.get? b = m.heap.get? b := by
  induction sets generalizing m fields with
  | nil => exact ⟨m.heap, rfl, hc, fun _ _ => rfl⟩
  | cons entry sets ih =>
    obtain ⟨key, v⟩ := entry
    have hset : (m.heap.set a (.object (fields.insert key v))).get? a =
        some (.object (fields.insert key v)) := by
      rw [Heap.get?_set, if_pos rfl, hc]
      rfl
    -- the first write leaves an object there, and the others go on from it
    obtain ⟨heap, hrun, hget, hothers⟩ :=
      ih (m := { m with heap := m.heap.set a (.object (fields.insert key v)) }) hset
    refine ⟨heap, ?_, hget, ?_⟩
    · rw [setMembers, Eval.bind_ok (writeMember_of_object hc span key v)]
      exact hrun
    · intro b hb
      rw [hothers b hb, Heap.get?_set, if_neg (Ne.symm hb)]

end Members

/-! ## §4. Literals. -/

section Literals

variable (settings : Settings) (scope : ScopeId)

/-- The key and the value of a property; a bare key has the value of the name. -/
def evalProperty : Property → Eval (Text × Value)
  | .mk span key .absent => do return (key, ← Eval.lookup scope key span.start)
  | .mk _ key value => do return (key, ← evalExpr settings scope value)

/-- The members of a literal: it is visited, and its properties are computed from the first to
    the last. -/
def evalMembers (span : Span) (properties : List Property) : Eval (List (Text × Value)) := do
  Eval.visit settings span.start
  properties.mapM (evalProperty settings scope)

/-- Computing properties and setting them one after the other is computing them all and then
    setting them. -/
theorem evalProperties_eq (properties : List Property) (fields : OrderedMap Text Value) :
    evalProperties settings scope properties fields = (do
      let sets ← properties.mapM (evalProperty settings scope)
      return fields.insertAll sets) := by
  induction properties generalizing fields with
  | nil =>
    rw [evalProperties, List.mapM_nil, pure_bind]
    rfl
  | cons p rest ih =>
    obtain ⟨span, key, value⟩ := p
    rw [List.mapM_cons]
    by_cases hvalue : value = .absent
    · subst hvalue
      rw [evalProperties, evalProperty]
      simp only [ih, bind_assoc, pure_bind]
      rfl
    · rw [evalProperties, evalProperty]
      · simp only [ih, bind_assoc, pure_bind]
        rfl
      · exact hvalue
      · exact hvalue

/-- **A literal sets its properties in the order of writing.** -/
theorem evalExpr_object_eq (span : Span) (properties : List Property) :
    evalExpr settings scope (.object span properties) = (do
      let sets ← evalMembers settings scope span properties
      Eval.alloc (.object (OrderedMap.empty.insertAll sets))) := by
  rw [evalExpr, evalProperties_eq]
  unfold evalMembers
  simp only [bind_assoc, pure_bind]

variable {settings scope}

/-- The keys are those of the properties. -/
theorem keys_of_mapM {properties : List Property} {sets : List (Text × Value)} {m m' : Machine}
    (h : properties.mapM (evalProperty settings scope) m = .ok sets m') :
    sets.map Prod.fst = properties.map Property.key := by
  induction properties generalizing sets m with
  | nil =>
    rw [List.mapM_nil] at h
    cases h
    rfl
  | cons p rest ih =>
    rw [List.mapM_cons] at h
    obtain ⟨entry, n, hentry, h⟩ := Eval.exists_of_bind_eq_ok h
    obtain ⟨more, n', hmore, h⟩ := Eval.exists_of_bind_eq_ok h
    cases h
    have hkey : entry.1 = p.key := by
      unfold evalProperty at hentry
      split at hentry
      all_goals
        obtain ⟨v, _, _, hpair⟩ := Eval.exists_of_bind_eq_ok hentry
        cases hpair
        rfl
    rw [List.map_cons, List.map_cons, hkey, ih hmore]

end Literals

/-- **An object keeps first places and last values.**  Members of a new object, itself among
    their values or not, can be set in any number.  Then the map has the keys in the order in
    which they were first set, and under each key what was set last; the printed text and the
    list of keys follow it.  A literal whose properties are computed without error gives such an
    object, which is new, with the properties set in the order of writing.  Otherwise it stops
    as the computation of its properties does. -/
theorem objects_keep_first_places (settings : Settings) (scope : ScopeId) (m : Machine) :
    (∃ a m₀, Eval.alloc (.object .empty) m = .ok (.ref a) m₀ ∧
      ∀ (span : Span) (sets : List (Text × Value)), ∃ m₁ fields,
        setMembers span (.ref a) sets m₀ = .ok () m₁ ∧ m₁.HasObject a fields sets) ∧
    ∀ (span : Span) (properties : List Property),
      (∀ sets before, evalMembers settings scope span properties m = .ok sets before →
        sets.map Prod.fst = properties.map Property.key ∧
        ∃ a m₁ fields, evalExpr settings scope (.object span properties) m = .ok (.ref a) m₁ ∧
          (Value.ref a).IsNew (.object fields) before m₁ ∧ m₁.HasObject a fields sets) ∧
      ∀ stop m₁, evalMembers settings scope span properties m = .error stop m₁ →
        evalExpr settings scope (.object span properties) m = .error stop m₁ := by
  refine ⟨⟨m.heap.size, { m with heap := (m.heap.alloc (.object .empty)).2 }, rfl, ?_⟩, ?_⟩
  · -- the address is known before the members are, so it may be among their values
    intro span sets
    have hnew : (m.heap.alloc (.object .empty)).2.get? m.heap.size = some (.object .empty) := by
      rw [Heap.get?_alloc, if_pos rfl]
    obtain ⟨heap, hrun, hget, _⟩ := setMembers_of_object
      (m := { m with heap := (m.heap.alloc (.object .empty)).2 }) hnew span sets
    exact ⟨_, _, hrun, .of_builtBy hget (OrderedMap.builtBy_insertAll sets)⟩
  · intro span properties
    rw [evalExpr_object_eq]
    refine ⟨?_, fun stop m₁ hstop => Eval.bind_error hstop⟩
    intro sets before hsets
    obtain ⟨_, _, _, hproperties⟩ := Eval.exists_of_bind_eq_ok hsets
    refine ⟨keys_of_mapM hproperties, ?_⟩
    obtain ⟨a, m₁, halloc⟩ : ∃ a m₁, Eval.alloc (.object (OrderedMap.empty.insertAll sets)) before =
        .ok (.ref a) m₁ := ⟨_, _, rfl⟩
    have hnew := Eval.isNew_of_alloc_eq_ok halloc
    obtain ⟨b, hb, hget⟩ := hnew.present
    cases hb
    refine ⟨a, m₁, _, (Eval.bind_ok hsets).trans halloc, hnew, ?_⟩
    exact .of_builtBy hget (OrderedMap.builtBy_insertAll sets)

/-- The properties of `{ b: 1, keys, b: 3 }`. -/
def repeatedKey : List Property :=
  [.mk somewhere "b" (.number somewhere 1), .mk somewhere "keys" .absent,
    .mk somewhere "b" (.number somewhere 3)]

/-- The literal has the repeated key in the first place, with the last value.  An object that is
    a member of itself is printed with its keys in the order in which they were first set. -/
theorem objects_keep_first_places_repeatedKey :
    let m := (Interpreter.new ⟨0, .collect, .bare⟩ []).machine
    (∃ a m₁ fields, evalExpr ⟨0, .collect, .bare⟩ 0 (.object somewhere repeatedKey) m =
        .ok (.ref a) m₁ ∧ m₁.heap.get? a = some (.object fields) ∧
      fields.keys = [Text.ofString "b", Text.ofString "keys"] ∧
      fields.get? "b" = some (.number 3)) ∧
    ∃ a m₀ m₁, Eval.alloc (.object .empty) m = .ok (.ref a) m₀ ∧
      setMembers somewhere (.ref a) [("b", .boolean true), ("a", .ref a), ("b", .null)] m₀ =
        .ok () m₁ ∧
      m₁.heap.text (.ref a) = "\x7b b: null, a: [Circular] \x7d" := by
  intro m
  obtain ⟨⟨a, m₀, halloc, hsets⟩, hliteral⟩ := objects_keep_first_places ⟨0, .collect, .bare⟩ 0 m
  constructor
  · have hmembers : (outcomeOf (evalMembers ⟨0, .collect, .bare⟩ 0 somewhere repeatedKey m)).1 =
        .ok [("b", .number 1), ("keys", .native ⟨"keys", 1, .keys⟩), ("b", .number 3)] := by
      decide +kernel
    obtain ⟨before, hmembers⟩ := exists_eq_ok_of_outcomeOf hmembers
    obtain ⟨_, a, m₁, fields, hrun, _, hobject⟩ :=
      (hliteral somewhere repeatedKey).1 _ before hmembers
    refine ⟨a, m₁, fields, hrun, hobject.present, hobject.built.keys.trans ?_, ?_⟩
    · decide +kernel
    · exact (hobject.built.latest _ _).2 ⟨[_, _], [], rfl, List.not_mem_nil⟩
  · obtain ⟨m₁, fields, hrun, hobject⟩ :=
      hsets somewhere [("b", .boolean true), ("a", .ref a), ("b", .null)]
    refine ⟨a, m₀, m₁, halloc, hrun, ?_⟩
    have hb : fields.get? "b" = some .null :=
      (hobject.built.latest _ _).2 ⟨[_, _], [], rfl, List.not_mem_nil⟩
    have ha : fields.get? "a" = some (.ref a) :=
      (hobject.built.latest _ _).2 ⟨[_], [_], rfl, by decide⟩
    have hkeys : OrderedMap.firstKeys [(Text.ofString "b", Value.boolean true),
        (Text.ofString "a", .ref a), (Text.ofString "b", .null)] =
        [Text.ofString "b", Text.ofString "a"] := by
      show List.eraseDups [Text.ofString "b", Text.ofString "a", Text.ofString "b"] = _
      decide
    rw [hobject.text, hkeys]
    unfold Text.ofMembers
    rw [if_neg (List.cons_ne_nil _ _), List.map_cons, List.map_cons, List.map_nil]
    dsimp only
    rw [hb, ha, Option.getD_some, Option.getD_some, Heap.render_circular List.mem_cons_self,
      Heap.render]
    decide

end Scriptorium
