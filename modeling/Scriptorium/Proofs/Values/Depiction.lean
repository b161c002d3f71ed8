/-
  Scriptorium.Proofs.Values.Depiction: what the text of a value shows.

  Printed text is the text of a picture: a tree of words, of containers shown in full and of
  marks for containers that are shown already.  A place in the picture is a path of member
  numbers, and the same path leads through the heap from the printed value, past the
  containers around the place.  A mark stands exactly where the container is one of those.

  Without cycles no mark is needed, and printing is what it would be without any record of
  the containers on the way.  Which addresses containers have makes no difference.

  Main results:
    * `shows_draw`, `eq_draw_of_shows`: there is one picture that shows a value.
    * `exists_spells_iff`, `Spells.eq_render`: printing without a record.
    * `render_rename`: printing after a change of addresses.
    * `text_is_exact`: all of it about the text of a value on its own.
-/

import Mathlib.Data.List.Basic
import Mathlib.Logic.Equiv.Basic
import Scriptorium.Proofs.Values.Links

namespace Scriptorium

/-! ## §1. The text of one value from the texts of its members. -/

/-- The text of a value without members, inside a container. -/
def Value.inline : Value → Text
  | .null | .nothing | .ref _ => "null"
  | .number x => Number.text x
  | .string t => t.quote
  | .boolean b => if b then "true" else "false"
  | .native fn => "<native fn " ++ fn.name ++ ">"
  | .foreign kind => "<" ++ (Kind.ofIndex kind).name ++ ">"

/-- The text of a value on its own, if `inside` is its text inside a container: a string
    loses its quotes. -/
def Value.alone (inside : Text) : Value → Text
  | .string t => t
  | _ => inside

/-- The text of a container around the texts of its members. -/
def Container.written (text : Value → Text) : Container → Text
  | .list items => "[" ++ Text.join ", " (items.map text) ++ "]"
  | .object fields =>
    if fields.size = 0 then "\x7b\x7d"
    else
      "\x7b " ++ Text.join ", " (fields.entries.map fun entry => entry.1 ++ ": " ++ text entry.2) ++
        " \x7d"

/-- Only the texts of members matter. -/
theorem Container.written_congr {c : Container} {text text' : Value → Text}
    (h : ∀ w ∈ c.members, text w = text' w) : c.written text = c.written text' := by
  cases c with
  | list items =>
    have hsame : items.map text = items.map text' := List.map_congr_left h
    simp only [written]
    rw [hsame]
  | object fields =>
    have hsame : (fields.entries.map fun entry => entry.1 ++ Text.ofString ": " ++ text entry.2) =
        fields.entries.map fun entry => entry.1 ++ Text.ofString ": " ++ text' entry.2 := by
      apply List.map_congr_left
      intro entry hentry
      rw [h entry.2 (List.mem_map.2 ⟨entry, hentry, rfl⟩)]
    simp only [written]
    rw [hsame]

namespace Heap

variable {h h' : Heap} {active : List Address} {v w : Value} {a : Address} {c : Container}
  {t : Text}

theorem render_circular (ha : a ∈ active) : h.render active (.ref a) = "[Circular]" := by
  rw [render, dif_pos ha]

theorem render_container (ha : a ∉ active) (hc : h.get? a = some c) :
    h.render active (.ref a) = c.written (h.render (a :: active)) := by
  rw [render, dif_neg ha]
  cases c with
  | list items =>
    split
    · next hnone => simp [hc] at hnone
    · next hlist =>
      rw [hc] at hlist
      cases hlist
      rfl
    · next hobject =>
      rw [hc] at hobject
      cases hobject
  | object fields =>
    split
    · next hnone => simp [hc] at hnone
    · next hlist =>
      rw [hc] at hlist
      cases hlist
    · next hobject =>
      rw [hc] at hobject
      cases hobject
      rfl

theorem render_inline (hc : h.container? v = none) (hv : ∀ a ∈ active, v ≠ .ref a) :
    h.render active v = v.inline := by
  cases v with
  | ref a =>
    have ha : a ∉ active := fun ha => hv a ha rfl
    rw [render, dif_neg ha]
    split
    · rfl
    · next hlist => simp [container?, hlist] at hc
    · next hobject => simp [container?, hobject] at hc
  | _ => rw [render]; rfl

theorem text_eq (h : Heap) (v : Value) : h.text v = v.alone (h.render [] v) := by
  cases v with
  | string t => rfl
  | _ => exact h.made_print [] _

/-- A value is circular, has no container or enters one. -/
theorem entry_cases (h : Heap) (active : List Address) (v : Value) :
    (∃ a ∈ active, v = .ref a) ∨ ((∀ a ∈ active, v ≠ .ref a) ∧ h.container? v = none) ∨
      ∃ a c, v = .ref a ∧ a ∉ active ∧ h.get? a = some c := by
  by_cases hcircular : ∃ a ∈ active, v = .ref a
  · exact .inl hcircular
  · cases hc : h.container? v with
    | none => exact .inr (.inl ⟨fun a ha hv => hcircular ⟨a, ha, hv⟩, rfl⟩)
    | some c =>
      obtain ⟨a, rfl, hget⟩ := exists_ref_of_container? hc
      exact .inr (.inr ⟨a, c, rfl, fun ha => hcircular ⟨a, ha, rfl⟩, hget⟩)

end Heap

/-! ## §2. Pictures. -/

/-- What a printed text shows. -/
inductive Picture where
  /-- A value without members. -/
  | word (t : Text)
  /-- The mark for a container that is being shown already. -/
  | circular
  /-- A list in full. -/
  | list (members : List Picture)
  /-- An object in full. -/
  | object (keys : List Text) (members : List Picture)

namespace Picture

mutual

/-- The text of a picture. -/
def text : Picture → Text
  | .word t => t
  | .circular => "[Circular]"
  | .list members => "[" ++ Text.join ", " (texts members) ++ "]"
  | .object keys members =>
    if keys.length = 0 then "\x7b\x7d"
    else
      "\x7b " ++
        Text.join ", " (List.zipWith (fun key t => key ++ ": " ++ t) keys (texts members)) ++
        " \x7d"

/-- The texts of pictures. -/
def texts : List Picture → List Text
  | [] => []
  | p :: rest => p.text :: texts rest

end

theorem texts_eq_map (ps : List Picture) : texts ps = ps.map text := by
  induction ps with
  | nil => rfl
  | cons p rest ih => rw [texts, ih, List.map_cons]

/-- The pictures of the members. -/
def members : Picture → List Picture
  | .word _ | .circular => []
  | .list members | .object _ members => members

/-- The part of the picture at a place, given by the numbers of the members on the way. -/
def at? (p : Picture) : List Nat → Option Picture
  | [] => some p
  | i :: path => p.members[i]?.bind fun q => q.at? path

end Picture

/-- The picture of a container around pictures of its members. -/
def Container.framed (members : List Picture) : Container → Picture
  | .list _ => .list members
  | .object fields => .object fields.keys members

@[simp]
theorem Container.members_framed (c : Container) (ps : List Picture) :
    (c.framed ps).members = ps := by
  cases c <;> rfl

theorem Container.framed_ne_circular (c : Container) (ps : List Picture) :
    c.framed ps ≠ .circular := by
  cases c <;> exact fun h => nomatch h

theorem Container.text_framed (c : Container) (draw : Value → Picture) :
    (c.framed (c.members.map draw)).text = c.written fun w => (draw w).text := by
  cases c with
  | list items =>
    show "[" ++ Text.join ", " (Picture.texts (items.map draw)) ++ "]" = _
    rw [Picture.texts_eq_map, List.map_map]
    rfl
  | object fields =>
    simp only [framed, written, members, Picture.text]
    rw [Picture.texts_eq_map, List.map_map, List.map_map, OrderedMap.length_keys]
    unfold OrderedMap.keys OrderedMap.entries
    rw [List.map_map, List.map_map, List.zipWith_map_right, List.zipWith_self]
    rfl

/-- The containers on the way from a value to a place below it, from the outermost on, and
    the value there. -/
def Heap.walk? (h : Heap) (v : Value) : List Nat → Option (List Address × Value)
  | [] => some ([], v)
  | i :: path =>
    match v with
    | .ref a =>
      (h.get? a).bind fun c => c.members[i]?.bind fun w =>
        (h.walk? w path).map fun (passed, last) => (a :: passed, last)
    | _ => none

/-- Whether the picture shows the value, which may be a container, in full: it has the shape
    of the container, with a picture for each member. -/
def Picture.InFull (h : Heap) (v : Value) (q : Picture) : Prop :=
  match h.container? v with
  | none => q = .word v.inline
  | some c => ∃ members, q = c.framed members ∧ members.length = c.members.length

/-- Whether the picture is the right one of the value where these containers are around it:
    a mark if it is one of them, and else all of it. -/
structure Picture.Depicts (h : Heap) (around : List Address) (v : Value) (q : Picture) :
    Prop where
  circular : q = .circular ↔ ∃ a ∈ around, v = .ref a
  full : q ≠ .circular → q.InFull h v

/-- Whether every part of the picture is the right one for the value that is found at the
    same place, where the containers `active` are around the whole. -/
def Picture.Shows (h : Heap) (active : List Address) (v : Value) (p : Picture) : Prop :=
  ∀ path q, p.at? path = some q → ∃ passed w, h.walk? v path = some (passed, w) ∧
    q.Depicts h (active ++ passed) w

/-! ## §3. The picture that shows a value. -/

namespace Picture

variable {h : Heap} {active around around' : List Address} {v : Value} {p : Picture}

/-- Which containers are around matters, not in which order. -/
theorem Depicts.of_mem_iff (hp : p.Depicts h around v)
    (hmem : ∀ a, a ∈ around ↔ a ∈ around') : p.Depicts h around' v := by
  constructor
  · rw [hp.circular]
    exact exists_congr fun a => and_congr_left' (hmem a)
  · exact hp.full

theorem Shows.depicts (hp : p.Shows h active v) : p.Depicts h active v := by
  obtain ⟨passed, w, hwalk, hdepicts⟩ := hp [] p rfl
  cases hwalk
  rwa [List.append_nil] at hdepicts

/-- A picture without members has one place only. -/
theorem Depicts.shows (hp : p.Depicts h active v) (hmembers : p.members = []) :
    p.Shows h active v := by
  intro path q hq
  cases path with
  | nil =>
    cases hq
    exact ⟨[], v, rfl, hp.of_mem_iff (by simp)⟩
  | cons i path =>
    rw [at?, hmembers] at hq
    cases hq

end Picture

namespace Heap

variable {h h' : Heap} {active : List Address} {v w : Value} {a : Address} {c : Container}
  {t : Text} {p : Picture}

theorem walk?_cons {i : Nat} {path : List Nat} (hc : h.get? a = some c)
    (hw : c.members[i]? = some w) :
    h.walk? (.ref a) (i :: path) =
      (h.walk? w path).map fun (passed, last) => (a :: passed, last) := by
  rw [walk?, hc, Option.bind_some, hw, Option.bind_some]

theorem inFull_ref (hc : h.get? a = some c) : p.InFull h (.ref a) ↔
    ∃ members, p = c.framed members ∧ members.length = c.members.length := by
  have hcontainer : h.container? (.ref a) = some c := hc
  unfold Picture.InFull
  rw [hcontainer]

/-- A container in full is the right picture if it has a picture for each member. -/
theorem depicts_framed {ps : List Picture} (ha : a ∉ active) (hc : h.get? a = some c) :
    (c.framed ps).Depicts h active (.ref a) ↔ ps.length = c.members.length := by
  constructor
  · intro hp
    obtain ⟨members, hsame, hlength⟩ := (inFull_ref hc).1 (hp.full (c.framed_ne_circular ps))
    have hmembers := congrArg Picture.members hsame
    rw [Container.members_framed, Container.members_framed] at hmembers
    rw [hmembers, hlength]
  · intro hlength
    constructor
    · constructor
      · exact fun hcircular => absurd hcircular (c.framed_ne_circular ps)
      · rintro ⟨b, hb, hab⟩
        cases hab
        exact absurd hb ha
    · exact fun _ => (inFull_ref hc).2 ⟨ps, rfl, hlength⟩

/-- It shows the container if in addition each member is shown, inside of it. -/
theorem shows_framed {ps : List Picture} (ha : a ∉ active) (hc : h.get? a = some c) :
    (c.framed ps).Shows h active (.ref a) ↔ ps.length = c.members.length ∧
      ∀ (i : Nat) (q : Picture) (w : Value), ps[i]? = some q → c.members[i]? = some w →
        q.Shows h (a :: active) w := by
  have hat : ∀ i path, (c.framed ps).at? (i :: path) = ps[i]?.bind fun q => q.at? path := by
    intro i path
    rw [Picture.at?, Container.members_framed]
  -- on the way to a member one passes the container
  have haround : ∀ (passed : List Address) b,
      b ∈ active ++ a :: passed ↔ b ∈ (a :: active) ++ passed := by
    intro passed b
    simp only [List.mem_append, List.mem_cons]
    rw [or_left_comm, or_assoc]
  constructor
  · intro hp
    refine ⟨(depicts_framed ha hc).1 hp.depicts, ?_⟩
    intro i q w hq hw path part hpart
    obtain ⟨passed, last, hwalk, hdepicts⟩ := hp (i :: path) part (by rw [hat, hq]; exact hpart)
    rw [walk?_cons hc hw] at hwalk
    obtain ⟨⟨passed, last⟩, hrest, hsame⟩ := Option.map_eq_some_iff.1 hwalk
    cases hsame
    exact ⟨passed, last, hrest, hdepicts.of_mem_iff (haround passed)⟩
  · rintro ⟨hlength, hmembers⟩ path part hpart
    cases path with
    | nil =>
      cases hpart
      exact ⟨[], .ref a, rfl, ((depicts_framed ha hc).2 hlength).of_mem_iff (by simp)⟩
    | cons i path =>
      rw [hat] at hpart
      obtain ⟨q, hq, hpart⟩ := Option.bind_eq_some_iff.1 hpart
      have hi : i < c.members.length := hlength ▸ (List.getElem?_eq_some_iff.1 hq).1
      have hw : c.members[i]? = some c.members[i] := List.getElem?_eq_getElem hi
      obtain ⟨passed, last, hwalk, hdepicts⟩ := hmembers i q _ hq hw path part hpart
      refine ⟨a :: passed, last, ?_, hdepicts.of_mem_iff fun b => (haround passed b).symm⟩
      rw [walk?_cons hc hw, hwalk]
      rfl

/-- The picture of a value inside containers that are being drawn. -/
def draw (h : Heap) (active : List Address) (v : Value) : Picture :=
  match v with
  | .ref a =>
    if ha : a ∈ active then .circular
    else
      match hc : h.get? a with
      | none => .word (Value.inline (.ref a))
      | some c =>
        have := unvisited_cons_lt (lt_size_of_get? hc) ha
        c.framed (c.members.map fun w => h.draw (a :: active) w)
  | v => .word v.inline
termination_by h.unvisited active

theorem draw_circular (ha : a ∈ active) : h.draw active (.ref a) = .circular := by
  rw [draw, dif_pos ha]

theorem draw_container (ha : a ∉ active) (hc : h.get? a = some c) :
    h.draw active (.ref a) = c.framed (c.members.map (h.draw (a :: active))) := by
  rw [draw, dif_neg ha]
  split
  · next hnone => simp [hc] at hnone
  · next c' hc' =>
    rw [hc] at hc'
    cases hc'
    rfl

theorem draw_inline (hc : h.container? v = none) (hv : ∀ a ∈ active, v ≠ .ref a) :
    h.draw active v = .word v.inline := by
  cases v with
  | ref a =>
    have ha : a ∉ active := fun ha => hv a ha rfl
    rw [draw, dif_neg ha]
    split
    · rfl
    · next c hc' => simp [container?, hc'] at hc
  | _ =>
    rw [draw]
    intro _ hv
    cases hv

/-- What is drawn shows the value. -/
theorem shows_draw (h : Heap) (active : List Address) (v : Value) :
    (h.draw active v).Shows h active v := by
  apply descent (h := h) (motive := fun active v => (h.draw active v).Shows h active v)
  intro active v ih
  rcases h.entry_cases active v with ⟨a, ha, rfl⟩ | ⟨hv, hc⟩ | ⟨a, c, rfl, ha, hc⟩
  · rw [draw_circular ha]
    apply Picture.Depicts.shows _ rfl
    exact ⟨⟨fun _ => ⟨a, ha, rfl⟩, fun _ => rfl⟩, fun hne => absurd rfl hne⟩
  · rw [draw_inline hc hv]
    apply Picture.Depicts.shows _ rfl
    refine ⟨⟨fun hword => (nomatch hword), fun ⟨a, ha, hva⟩ => absurd hva (hv a ha)⟩, fun _ => ?_⟩
    unfold Picture.InFull
    rw [hc]
  · rw [draw_container ha hc, shows_framed ha hc]
    refine ⟨List.length_map _, ?_⟩
    intro i q w hq hw
    rw [List.getElem?_map, hw] at hq
    cases hq
    exact ih a c rfl ha hc w (List.mem_of_getElem? hw)

/-- Whatever shows the value is what is drawn. -/
theorem eq_draw_of_shows (hp : p.Shows h active v) : p = h.draw active v := by
  revert p
  apply descent (h := h)
    (motive := fun active v => ∀ {p : Picture}, p.Shows h active v → p = h.draw active v)
  intro active v ih p hp
  have hroot := hp.depicts
  rcases h.entry_cases active v with ⟨a, ha, rfl⟩ | ⟨hv, hc⟩ | ⟨a, c, rfl, ha, hc⟩
  · rw [draw_circular ha, hroot.circular]
    exact ⟨a, ha, rfl⟩
  · have hplain : p ≠ .circular := by
      intro hcircular
      obtain ⟨a, ha, hva⟩ := hroot.circular.1 hcircular
      exact hv a ha hva
    have hfull := hroot.full hplain
    unfold Picture.InFull at hfull
    rw [hc] at hfull
    rw [draw_inline hc hv, hfull]
  · have hplain : p ≠ .circular := by
      intro hcircular
      obtain ⟨b, hb, hab⟩ := hroot.circular.1 hcircular
      cases hab
      exact ha hb
    obtain ⟨ps, rfl, hlength⟩ := (inFull_ref hc).1 (hroot.full hplain)
    obtain ⟨_, hmembers⟩ := (shows_framed ha hc).1 hp
    have hsame : ps = c.members.map (h.draw (a :: active)) := by
      apply List.ext_getElem
      · rw [List.length_map, hlength]
      · intro i hi hi'
        have hlt : i < c.members.length := hlength ▸ hi
        have hw := List.getElem?_eq_getElem hlt
        rw [List.getElem_map]
        exact ih a c rfl ha hc _ (List.getElem_mem hlt)
          (hmembers i _ _ (List.getElem?_eq_getElem hi) hw)
    rw [draw_container ha hc, hsame]

/-- The text is the text of what is drawn. -/
theorem text_draw (h : Heap) (active : List Address) (v : Value) :
    (h.draw active v).text = h.render active v := by
  apply descent (h := h) (motive := fun active v => (h.draw active v).text = h.render active v)
  intro active v ih
  rcases h.entry_cases active v with ⟨a, ha, rfl⟩ | ⟨hv, hc⟩ | ⟨a, c, rfl, ha, hc⟩
  · rw [draw_circular ha, render_circular ha]
    rfl
  · rw [draw_inline hc hv, render_inline hc hv]
    rfl
  · rw [draw_container ha hc, render_container ha hc, Container.text_framed]
    exact Container.written_congr (ih a c rfl ha hc)

/-- No place lies deeper than there are containers left. -/
theorem length_le_unvisited (h : Heap) (active : List Address) (v : Value) (path : List Nat)
    (q : Picture) (hq : (h.draw active v).at? path = some q) :
    path.length ≤ h.unvisited active := by
  revert path q
  apply descent (h := h) (motive := fun active v => ∀ path q,
    (h.draw active v).at? path = some q → path.length ≤ h.unvisited active)
  intro active v ih path q hq
  cases path with
  | nil => exact Nat.zero_le _
  | cons i path =>
    rw [Picture.at?] at hq
    obtain ⟨part, hpart, hq⟩ := Option.bind_eq_some_iff.1 hq
    rcases h.entry_cases active v with ⟨a, ha, rfl⟩ | ⟨hv, hc⟩ | ⟨a, c, rfl, ha, hc⟩
    · rw [draw_circular ha] at hpart
      cases hpart
    · rw [draw_inline hc hv] at hpart
      cases hpart
    · rw [draw_container ha hc, Container.members_framed, List.getElem?_map] at hpart
      obtain ⟨w, hw, rfl⟩ := Option.map_eq_some_iff.1 hpart
      have hbelow := ih a c rfl ha hc w (List.mem_of_getElem? hw) path q hq
      have hfewer := unvisited_cons_lt (lt_size_of_get? hc) ha
      rw [List.length_cons]
      omega

theorem unvisited_nil (h : Heap) : h.unvisited [] = h.size := by
  have hall : (List.range h.size).filter (fun a => a ∉ ([] : List Address)) =
      List.range h.size := by simp
  unfold unvisited
  rw [hall, List.length_range]

/-! ## §4. Printing without a record. -/

/-- Whether the text is that of the value, printed with no record of the containers on the
    way: the text of a value without members, or that of a container from the texts of its
    members.  Values that contain themselves have none. -/
inductive Spells (h : Heap) : Value → Text → Prop where
  | inline {v : Value} : h.container? v = none → h.Spells v v.inline
  | container {v : Value} {c : Container} (text : Value → Text) : h.container? v = some c →
      (∀ w ∈ c.members, h.Spells w (text w)) → h.Spells v (c.written text)

theorem Spells.acyclic (ht : h.Spells v t) : h.Acyclic v := by
  induction ht with
  | inline hc => exact acyclic_of_no_container hc
  | container text hc _ ih => exact acyclic_of_members hc ih

theorem Spells.unique {t' : Text} (ht : h.Spells v t) (ht' : h.Spells v t') : t = t' := by
  induction ht generalizing t' with
  | inline hc =>
    cases ht' with
    | inline _ => rfl
    | container _ hc' _ =>
      rw [hc] at hc'
      cases hc'
  | container text hc _ ih =>
    cases ht' with
    | inline hc' =>
      rw [hc] at hc'
      cases hc'
    | container text' hc' hmembers =>
      rw [hc] at hc'
      cases hc'
      exact Container.written_congr fun w hw => ih w hw (hmembers w hw)

/-- An acyclic value is printed as without a record, also below containers that lead to it. -/
theorem spells_render (hv : h.Acyclic v) (hpath : h.LeadsTo active v) :
    h.Spells v (h.render active v) := by
  revert hv hpath
  apply descent (h := h)
    (motive := fun active v => h.Acyclic v → h.LeadsTo active v → h.Spells v (h.render active v))
  intro active v ih hv hpath
  rcases h.entry_cases active v with ⟨a, ha, rfl⟩ | ⟨hne, hc⟩ | ⟨a, c, rfl, ha, hc⟩
  · exact absurd ha (hpath.notMem hv)
  · rw [render_inline hc hne]
    exact .inline hc
  · rw [render_container ha hc]
    apply Spells.container _ (show h.container? (.ref a) = some c from hc)
    intro w hw
    exact ih a c rfl ha hc w hw (hv.member hc hw) (hpath.member hc hw)

theorem exists_spells_iff (h : Heap) (v : Value) : (∃ t, h.Spells v t) ↔ h.Acyclic v := by
  constructor
  · exact fun ⟨t, ht⟩ => ht.acyclic
  · exact fun hv => ⟨h.render [] v, spells_render hv fun _ _ _ hb => nomatch hb⟩

theorem Spells.eq_render (ht : h.Spells v t) : t = h.render [] v :=
  ht.unique (spells_render ht.acyclic fun _ _ _ hb => nomatch hb)

end Heap

/-! ## §5. Other addresses. -/

namespace OrderedMap

variable {κ ν ν' : Type}

/-- The map with each value replaced. -/
def mapValues (f : ν → ν') (m : OrderedMap κ ν) : OrderedMap κ ν' :=
  ⟨m.fields.mapKeyed fun _ => f, m.order⟩

@[simp]
theorem keys_mapValues (f : ν → ν') (m : OrderedMap κ ν) : (m.mapValues f).keys = m.keys := rfl

@[simp]
theorem size_mapValues (f : ν → ν') (m : OrderedMap κ ν) : (m.mapValues f).size = m.size := rfl

@[simp]
theorem get?_mapValues [DecidableEq κ] (f : ν → ν') (m : OrderedMap κ ν) (key : κ) :
    (m.mapValues f).get? key = (m.get? key).map f :=
  m.fields.get?_mapKeyed (fun _ => f) key

/-- A key without a value is shown with none, so this is to be left as it is. -/
theorem entries_mapValues [DecidableEq κ] [Inhabited ν] [Inhabited ν'] {f : ν → ν'}
    (hf : f default = default) (m : OrderedMap κ ν) :
    (m.mapValues f).entries = m.entries.map fun entry => (entry.1, f entry.2) := by
  have hentry : ∀ key, (key, ((m.mapValues f).get? key).getD default) =
      (key, f ((m.get? key).getD default)) := by
    intro key
    rw [get?_mapValues, ← hf, Option.getD_map]
  unfold entries
  rw [List.map_map]
  exact List.map_congr_left fun key _ => hentry key

end OrderedMap

/-- The value with references to other addresses. -/
def Value.rename (σ : Address → Address) : Value → Value
  | .ref a => .ref (σ a)
  | v => v

/-- The container with references to other addresses. -/
def Container.rename (σ : Address → Address) : Container → Container
  | .object fields => .object (fields.mapValues (Value.rename σ))
  | .list items => .list (items.map (Value.rename σ))

section Rename

variable {σ : Address → Address} {h h' : Heap} {v : Value} {active : List Address}

theorem Value.exists_of_rename_eq_ref {b : Address} (hv : v.rename σ = .ref b) :
    ∃ a, v = .ref a ∧ b = σ a := by
  cases v with
  | ref a =>
    cases hv
    exact ⟨a, rfl, rfl⟩
  | _ => cases hv

theorem Value.inline_rename (σ : Address → Address) (v : Value) :
    (v.rename σ).inline = v.inline := by
  cases v <;> rfl

theorem Value.alone_rename (σ : Address → Address) (v : Value) (t : Text) :
    (v.rename σ).alone t = v.alone t := by
  cases v <;> rfl

theorem Container.written_rename (σ : Address → Address) (c : Container) (text : Value → Text) :
    (c.rename σ).written text = c.written fun w => text (w.rename σ) := by
  cases c with
  | list items =>
    simp only [rename, written]
    rw [List.map_map]
    rfl
  | object fields =>
    simp only [rename, written, OrderedMap.size_mapValues]
    rw [OrderedMap.entries_mapValues (f := Value.rename σ) rfl, List.map_map]
    rfl

/-- Printing after a change of addresses. -/
theorem Heap.render_rename (hσ : Function.Injective σ)
    (hget : ∀ a, h'.get? (σ a) = (h.get? a).map (Container.rename σ)) (active : List Address)
    (v : Value) : h'.render (active.map σ) (v.rename σ) = h.render active v := by
  apply descent (h := h) (motive := fun active v =>
    h'.render (active.map σ) (v.rename σ) = h.render active v)
  intro active v ih
  rcases h.entry_cases active v with ⟨a, ha, rfl⟩ | ⟨hv, hc⟩ | ⟨a, c, rfl, ha, hc⟩
  · rw [render_circular ha]
    exact render_circular (List.mem_map_of_mem ha)
  · have hv' : ∀ b ∈ active.map σ, v.rename σ ≠ .ref b := by
      intro b hb hvb
      obtain ⟨a, rfl, rfl⟩ := Value.exists_of_rename_eq_ref hvb
      exact hv a ((List.mem_map_of_injective hσ).1 hb) rfl
    have hc' : h'.container? (v.rename σ) = none := by
      cases v with
      | ref a =>
        show h'.get? (σ a) = none
        rw [hget, show h.get? a = none from hc]
        rfl
      | _ => rfl
    rw [render_inline hc hv, render_inline hc' hv', Value.inline_rename]
  · have ha' : σ a ∉ active.map σ := fun hmem => ha ((List.mem_map_of_injective hσ).1 hmem)
    have hc' : h'.get? (σ a) = some (c.rename σ) := by
      rw [hget, hc]
      rfl
    show h'.render (active.map σ) (.ref (σ a)) = _
    rw [render_container ha hc, render_container ha' hc', Container.written_rename]
    exact Container.written_congr (ih a c rfl ha hc)

end Rename

/-! ## §6. The text of a value is exact. -/

/-- **The text of a value is exact on every heap.**  There is one picture in which each part
    is a mark if it is one of the containers around it, from the printed value on, and is
    shown in full otherwise; it is no deeper than the heap is large, and the text is its text,
    with a string on its own bare.  Printing without a record of containers ends exactly on
    values that contain no cycle, and gives the text there.  And the text does not depend on
    the addresses of the containers. -/
theorem text_is_exact (h : Heap) (v : Value) :
    (∃ p : Picture, (∀ p' : Picture, p'.Shows h [] v ↔ p' = p) ∧
      (∀ path q, p.at? path = some q → path.length ≤ h.size) ∧ h.text v = v.alone p.text) ∧
    ((∃ t, h.Spells v t) ↔ h.Acyclic v) ∧
    (∀ t, h.Spells v t → h.text v = v.alone t) ∧
    ∀ (σ : Address → Address) (h' : Heap), Function.Injective σ →
      (∀ a, h'.get? (σ a) = (h.get? a).map (Container.rename σ)) →
      h'.text (v.rename σ) = h.text v := by
  refine ⟨⟨h.draw [] v, ?_, ?_, ?_⟩, h.exists_spells_iff v, ?_, ?_⟩
  · intro p
    constructor
    · exact Heap.eq_draw_of_shows
    · rintro rfl
      exact h.shows_draw [] v
  · intro path q hq
    rw [← h.unvisited_nil]
    exact h.length_le_unvisited [] v path q hq
  · rw [h.text_draw, h.text_eq]
  · intro t ht
    rw [h.text_eq, ht.eq_render]
  · intro σ h' hσ hget
    rw [h.text_eq, h'.text_eq, Value.alone_rename, ← Heap.render_rename hσ hget [] v]
    rfl

/-- A list that holds itself and, twice, an empty object; it is printed the same with the
    addresses of the two changed. -/
theorem text_is_exact_swapped :
    let h : Heap := ⟨#[.list [.ref 0, .ref 1, .ref 1], .object .empty]⟩
    let h' : Heap := ⟨#[.object .empty, .list [.ref 1, .ref 0, .ref 0]]⟩
    h.text (.ref 0) = "[[Circular], \x7b\x7d, \x7b\x7d]" ∧ h'.text (.ref 1) = h.text (.ref 0) ∧
      h.text (.ref 1) = "\x7b\x7d" := by
  intro h h'
  have hobject : h.Spells (.ref 1) ((Container.object .empty).written fun _ => []) :=
    .container (fun _ => []) rfl (List.forall_mem_nil _)
  have hswapped : ∀ a, h'.get? (Equiv.swap 0 1 a) =
      (h.get? a).map (Container.rename (Equiv.swap 0 1)) := by
    intro a
    rcases a with _ | _ | a
    · rfl
    · rfl
    · have hsame : Equiv.swap 0 1 (a + 1 + 1) = a + 1 + 1 :=
        Equiv.swap_apply_of_ne_of_ne (by omega) (by omega)
      rw [hsame]
      rfl
  obtain ⟨_, _, hplain, _⟩ := text_is_exact h (.ref 1)
  obtain ⟨_, _, _, hrenamed⟩ := text_is_exact h (.ref 0)
  refine ⟨?_, hrenamed (Equiv.swap 0 1) h' (Equiv.injective _) hswapped, hplain _ hobject⟩
  cbv

end Scriptorium
