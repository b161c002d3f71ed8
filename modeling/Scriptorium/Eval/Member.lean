/-
  Scriptorium.Eval.Member: reading and writing members.

  An object has a member under every key that was written to it; keys are strings,
  or numbers taken by their text.  A list has members under the integers below its
  length.
-/

import Scriptorium.Eval.Machine
import Scriptorium.Number.Written

namespace Scriptorium

/-- The key of an object that a value stands for. -/
def memberKey (span : Span) (key : Value) : Eval Text := do
  match key with
  | .string t => return t
  | .number x => return Number.text x
  | v => Eval.fail (.objectKey (← Eval.kindOf v)) span.start

/-- The index of a list of the given length that a number stands for. -/
def indexOf (x : Float) (length : Nat) : Except Cause Nat :=
  match Number.read x with
  | .nan => .error (.indexFraction x)
  | .infinite _ => .error (.indexRange x length)
  | .finite d =>
    if d.isWhole then
      if (d.negative && d.mantissa ≠ 0) || length ≤ d.whole then .error (.indexRange x length)
      else .ok d.whole
    else .error (.indexFraction x)

/-- The index of a list of the given length that a value stands for. -/
def memberIndex (span : Span) (key : Value) (length : Nat) : Eval Nat := do
  match key with
  | .number x =>
    match indexOf x length with
    | .ok i => return i
    | .error cause => Eval.fail cause span.start
  | v => Eval.fail (.indexKind (← Eval.kindOf v)) span.start

/-- Reads a member. -/
def readMember (span : Span) (container key : Value) : Eval Value := do
  match container with
  | .ref a =>
    match (← get).heap.get? a with
    | some (.object fields) =>
      let name ← memberKey span key
      -- a missing member is no error
      return (fields.get? name).getD .null
    | some (.list items) =>
      let i ← memberIndex span key items.length
      return items.getD i .null
    | none => Eval.defect .absentValue
  | v => Eval.fail (.noMemberToRead (← Eval.kindOf v)) span.start

/-- Writes a member and gives the value back. -/
def writeMember (span : Span) (container key value : Value) : Eval Value := do
  match container with
  | .ref a =>
    match (← get).heap.get? a with
    | some (.object fields) =>
      let name ← memberKey span key
      modify fun m => { m with heap := m.heap.set a (.object (fields.insert name value)) }
      return value
    | some (.list items) =>
      let i ← memberIndex span key items.length
      modify fun m => { m with heap := m.heap.set a (.list (items.set i value)) }
      return value
    | none => Eval.defect .absentValue
  | v => Eval.fail (.noMemberToWrite (← Eval.kindOf v)) span.start

end Scriptorium
