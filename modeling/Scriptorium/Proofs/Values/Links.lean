/-
  Scriptorium.Proofs.Values.Links: what leads from a value to a container.

  A container holds its members, and a member may refer to a container again.  Following
  references from a value one reaches containers, by more than one way if some are shared
  and without end if some contain themselves.  A value is acyclic if no container that it
  reaches can be reached from itself.

  Main results:
    * `Reaches.member`: what a member reaches is reached by the container.
    * `descent`: what follows for a value from the members that are entered from it holds of
      every value.
    * `Acyclic.induction`: what follows for a value from its members follows for every
      acyclic value, because a heap has finitely many containers.
-/

import Mathlib.Logic.Relation
import Scriptorium.Value.Printer

namespace Scriptorium

/-- The values in a container, in order. -/
def Container.members : Container → List Value
  | .object fields => fields.entries.map Prod.snd
  | .list items => items

/-- The keys of an object; a list has none. -/
def Container.keys : Container → List Text
  | .object fields => fields.keys
  | .list _ => []

namespace Heap

variable {h : Heap} {v w : Value} {a b : Address} {c : Container}

/-- The container that a value refers to. -/
def container? (h : Heap) : Value → Option Container
  | .ref a => h.get? a
  | _ => none

/-- Whether a container holds a reference to another one, or to itself. -/
def Links (h : Heap) (a b : Address) : Prop := ∃ c, h.get? a = some c ∧ .ref b ∈ c.members

/-- Whether one gets from the value to the container through fields and elements. -/
def Reaches (h : Heap) (v : Value) (a : Address) : Prop :=
  ∃ root, v = .ref root ∧ Relation.ReflTransGen h.Links root a

/-- Whether no container that is reached from the value contains itself. -/
def Acyclic (h : Heap) (v : Value) : Prop :=
  ∀ a, h.Reaches v a → ¬ Relation.TransGen h.Links a a

theorem exists_ref_of_container? (hc : h.container? v = some c) :
    ∃ a, v = .ref a ∧ h.get? a = some c := by
  cases v with
  | ref a => exact ⟨a, rfl, hc⟩
  | _ => cases hc

theorem Reaches.self (h : Heap) (a : Address) : h.Reaches (.ref a) a :=
  ⟨a, rfl, .refl⟩

/-- What a member reaches is reached by the container. -/
theorem Reaches.member (hc : h.container? v = some c) (hw : w ∈ c.members)
    (ha : h.Reaches w a) : h.Reaches v a := by
  obtain ⟨root, rfl, hget⟩ := exists_ref_of_container? hc
  obtain ⟨next, rfl, hnext⟩ := ha
  have hlink : h.Links root next := ⟨c, hget, hw⟩
  exact ⟨root, rfl, .head hlink hnext⟩

theorem Acyclic.member (hv : h.Acyclic v) (hc : h.container? v = some c) (hw : w ∈ c.members) :
    h.Acyclic w :=
  fun a ha => hv a (ha.member hc hw)

/-- A value without a container contains no cycle. -/
theorem acyclic_of_no_container (hv : h.container? v = none) : h.Acyclic v := by
  rintro a ⟨root, rfl, hroot⟩ hcycle
  have hstuck : ∀ b, ¬ h.Links root b := by
    rintro b ⟨c, hc, _⟩
    rw [container?, hc] at hv
    cases hv
  rcases hroot.cases_head with rfl | ⟨b, hb, _⟩
  · obtain ⟨b, hb, _⟩ := Relation.TransGen.head'_iff.1 hcycle
    exact hstuck b hb
  · exact hstuck b hb

/-- A cycle through a container goes through one of its members. -/
theorem acyclic_of_members (hc : h.container? v = some c)
    (hmembers : ∀ w ∈ c.members, h.Acyclic w) : h.Acyclic v := by
  obtain ⟨root, rfl, hget⟩ := exists_ref_of_container? hc
  have hfrom : ∀ b, h.Links root b → h.Acyclic (.ref b) := by
    rintro b ⟨c', hc', hb⟩
    rw [hget] at hc'
    cases hc'
    exact hmembers (.ref b) hb
  rintro a ⟨start, hstart, hreach⟩ hcycle
  cases hstart
  rcases hreach.cases_head with rfl | ⟨b, hb, hrest⟩
  · obtain ⟨b, hb, hback⟩ := Relation.TransGen.head'_iff.1 hcycle
    exact hfrom b hb root ⟨b, rfl, hback⟩ hcycle
  · exact hfrom b hb a ⟨b, rfl, hrest⟩ hcycle

/-! ## Inductions -/

/-- **What follows for a value from the members that are entered from it holds of every
    value**, in any heap, as fewer and fewer containers are left to enter. -/
theorem descent {motive : List Address → Value → Prop}
    (step : ∀ active v, (∀ a c, v = .ref a → a ∉ active → h.get? a = some c →
      ∀ w ∈ c.members, motive (a :: active) w) → motive active v)
    (active : List Address) (v : Value) : motive active v := by
  -- the measure is that of printing: the containers that are not active yet
  induction hleft : h.unvisited active using Nat.strongRecOn generalizing active v with
  | ind left ih =>
    apply step
    intro a c _ ha hc w _
    have hfewer := unvisited_cons_lt (lt_size_of_get? hc) ha
    exact ih (h.unvisited (a :: active)) (by omega) (a :: active) w rfl

/-- Whether every container of the path leads to the value. -/
def LeadsTo (h : Heap) (path : List Address) (v : Value) : Prop :=
  ∀ a, v = .ref a → ∀ b ∈ path, Relation.TransGen h.Links b a

/-- The containers that lead to an acyclic value are not met again. -/
theorem LeadsTo.notMem {path : List Address} (hpath : h.LeadsTo path (.ref a))
    (hv : h.Acyclic (.ref a)) : a ∉ path :=
  fun ha => hv a (Reaches.self h a) (hpath a rfl a ha)

theorem LeadsTo.member {path : List Address} (hpath : h.LeadsTo path (.ref a))
    (hc : h.get? a = some c) (hw : w ∈ c.members) : h.LeadsTo (a :: path) w := by
  rintro next rfl b hb
  have hlink : h.Links a next := ⟨c, hc, hw⟩
  rcases List.mem_cons.1 hb with rfl | hb
  · exact .single hlink
  · exact (hpath a rfl b hb).tail hlink

/-- **What follows for a value from its members holds of every acyclic value.** -/
theorem Acyclic.induction {motive : Value → Prop}
    (step : ∀ v, (∀ c, h.container? v = some c → ∀ w ∈ c.members, motive w) → motive v)
    (hv : h.Acyclic v) : motive v := by
  have hinside : ∀ path v, h.Acyclic v → h.LeadsTo path v → motive v := by
    apply descent (h := h) (motive := fun path v => h.Acyclic v → h.LeadsTo path v → motive v)
    intro path v ih hv hpath
    apply step
    intro c hc w hw
    obtain ⟨a, rfl, hget⟩ := exists_ref_of_container? hc
    exact ih a c rfl (hpath.notMem hv) hget w hw (hv.member hc hw) (hpath.member hget hw)
  exact hinside [] v hv fun _ _ _ hb => nomatch hb

end Heap

end Scriptorium
