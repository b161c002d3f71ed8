/-
  Scriptorium.Value.Printer: values as text.

  A string is shown bare on its own and quoted inside a container.  A container
  that is being printed already is shown as a marker, so values that contain
  themselves end; one that merely occurs twice is shown in full each time.

  Printing hands on a set of the containers that are being printed, and takes a container
  out again when it is done with it.  The recursion ends because a container is entered
  only while it is not in the set, and there are finitely many (`unvisited_cons_lt`).

  Main results:
    * `made_print`: the text that is made is the one that `render` describes, which has
      the set as an argument only.
-/

import Scriptorium.Number.Written
import Scriptorium.Text.Quoted
import Scriptorium.Value.Heap

namespace Scriptorium.Heap

/-- How many containers are not being printed. -/
def unvisited (h : Heap) (active : List Address) : Nat :=
  ((List.range h.size).filter fun a => a ∉ active).length

/-- Entering a container leaves fewer to enter. -/
theorem unvisited_cons_lt {h : Heap} {active : List Address} {a : Address}
    (hlt : a < h.size) (hnot : a ∉ active) :
    h.unvisited (a :: active) < h.unvisited active := by
  unfold unvisited
  have hsplit : ((List.range h.size).filter fun b => b ∉ a :: active) =
      ((List.range h.size).filter fun b => b ∉ active).filter fun b => b ≠ a := by
    rw [List.filter_filter]
    congr 1
    funext b
    simp
  rw [hsplit]
  refine List.length_filter_lt_length_iff_exists.2 ⟨a, ?_, by simp⟩
  simp [hlt, hnot]

/-- What was made, and the set of containers afterwards, which is the one from before. -/
structure Restored (α : Type) (active : List Address) where
  made : α
  set : List Address
  restored : set = active

/-- Prints one after the other; each is given the set that the one before it left. -/
def printEach {α : Type} (active : List Address)
    (print : (set : List Address) → set = active → α → Restored Text set) :
    List α → Restored (List Text) active
  | [] => ⟨[], active, rfl⟩
  | x :: rest =>
    let first := print active rfl x
    let others := printEach first.set (fun s hs => print s (hs.trans first.restored)) rest
    ⟨first.made :: others.made, others.set, others.restored.trans first.restored⟩

/-- Prints a value inside containers that are being printed. -/
def print (h : Heap) (active : List Address) (v : Value) : Restored Text active :=
  match v with
  | .null | .nothing => ⟨"null", active, rfl⟩
  | .number x => ⟨Number.text x, active, rfl⟩
  | .string t => ⟨t.quote, active, rfl⟩
  | .boolean b => ⟨if b then "true" else "false", active, rfl⟩
  | .native fn => ⟨"<native fn " ++ fn.name ++ ">", active, rfl⟩
  | .foreign kind => ⟨"<" ++ (Kind.ofIndex kind).name ++ ">", active, rfl⟩
  | .ref a =>
    -- only ancestors count: a container met again beside itself is shown in full
    if ha : a ∈ active then ⟨"[Circular]", active, rfl⟩
    else
      match hc : h.get? a with
      | none => ⟨"null", active, rfl⟩
      | some (.list items) =>
        have hlt := unvisited_cons_lt (lt_size_of_get? hc) ha
        let inside := printEach (a :: active) (fun s hs item =>
          have : h.unvisited s < h.unvisited active := hs ▸ hlt
          h.print s item) items
        ⟨"[" ++ Text.join ", " inside.made ++ "]", inside.set.erase a, by
          rw [inside.restored, List.erase_cons_head]⟩
      | some (.object fields) =>
        have hlt := unvisited_cons_lt (lt_size_of_get? hc) ha
        if fields.size = 0 then ⟨"\x7b\x7d", (a :: active).erase a, List.erase_cons_head a active⟩
        else
          let inside := printEach (a :: active) (fun s hs (entry : Text × Value) =>
            have : h.unvisited s < h.unvisited active := hs ▸ hlt
            let shown := h.print s entry.2
            ⟨entry.1 ++ ": " ++ shown.made, shown.set, shown.restored⟩) fields.entries
          ⟨"\x7b " ++ Text.join ", " inside.made ++ " \x7d", inside.set.erase a, by
            rw [inside.restored, List.erase_cons_head]⟩
termination_by h.unvisited active

/-- The text of a value on its own. -/
def text (h : Heap) (v : Value) : Text :=
  match v with
  | .string t => t
  | v => (h.print [] v).made

/-! ## Printing without a set that changes -/

/-- The text of a value inside containers that are being printed, without a set that changes. -/
def render (h : Heap) (active : List Address) (v : Value) : Text :=
  match v with
  | .null | .nothing => "null"
  | .number x => Number.text x
  | .string t => t.quote
  | .boolean b => if b then "true" else "false"
  | .native fn => "<native fn " ++ fn.name ++ ">"
  | .foreign kind => "<" ++ (Kind.ofIndex kind).name ++ ">"
  | .ref a =>
    if ha : a ∈ active then "[Circular]"
    else
      match hc : h.get? a with
      | none => "null"
      | some (.list items) =>
        have := unvisited_cons_lt (lt_size_of_get? hc) ha
        "[" ++ Text.join ", " (items.map fun item => h.render (a :: active) item) ++ "]"
      | some (.object fields) =>
        have := unvisited_cons_lt (lt_size_of_get? hc) ha
        if fields.size = 0 then "\x7b\x7d"
        else
          "\x7b " ++
            Text.join ", " (fields.entries.map fun entry =>
              entry.1 ++ ": " ++ h.render (a :: active) entry.2) ++
            " \x7d"
termination_by h.unvisited active

/-- Each is printed with the same set, so the texts are those of the elements. -/
theorem made_printEach {α : Type} {active : List Address}
    {print : (set : List Address) → set = active → α → Restored Text set} {text : α → Text}
    {l : List α} (h : ∀ set hset, ∀ x ∈ l, (print set hset x).made = text x) :
    (printEach active print l).made = l.map text := by
  induction l generalizing active with
  | nil => rfl
  | cons x rest ih =>
    have hrest := @ih (print active rfl x).set
      (fun s hs => print s (hs.trans (print active rfl x).restored))
      fun set hset y hy => h set _ y (List.mem_cons_of_mem _ hy)
    show (print active rfl x).made :: _ = _
    rw [h active rfl x List.mem_cons_self, List.map_cons]
    exact congrArg _ hrest

/-- **The set makes no difference but that of an argument.** -/
theorem made_print (h : Heap) (active : List Address) (v : Value) :
    (h.print active v).made = h.render active v := by
  cases v with
  | ref a =>
    rw [print, render]
    by_cases ha : a ∈ active
    · rw [dif_pos ha, dif_pos ha]
    rw [dif_neg ha, dif_neg ha]
    split
    · rfl
    · next items hc =>
      have hlt := unvisited_cons_lt (lt_size_of_get? hc) ha
      refine congrArg (fun ts => Text.ofString "[" ++ Text.join ", " ts ++ "]") ?_
      refine made_printEach fun set hset item _ => ?_
      subst hset
      exact made_print h (a :: active) item
    · next fields hc =>
      have hlt := unvisited_cons_lt (lt_size_of_get? hc) ha
      dsimp only
      split
      · rfl
      · refine congrArg (fun ts => Text.ofString "\x7b " ++ Text.join ", " ts ++ " \x7d") ?_
        refine made_printEach fun set hset entry _ => ?_
        subst hset
        exact congrArg (fun t => entry.1 ++ Text.ofString ": " ++ t)
          (made_print h (a :: active) entry.2)
  | _ => rw [print, render]
termination_by h.unvisited active

end Scriptorium.Heap
