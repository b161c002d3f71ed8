/-
  Scriptorium.Manifest.Session: sessions under a manifest.

  A manifest restricts scripts in up to two ways: to some native functions and to a
  number of steps.  What it leaves out is not restricted.

  Main results: `allowed_session` and `stepLimit_session`, a session has the native
  functions and the limit that its manifest states.
-/

import Scriptorium.Interpreter
import Scriptorium.Manifest.Basic

namespace Scriptorium.Manifest

/-- A restriction on scripts. -/
inductive Restriction where
  /-- Only these native functions. -/
  | natives (names : List Text)
  /-- At most this many steps. -/
  | steps (limit : Int)
deriving DecidableEq, Repr

/-- Settings and allowed native functions under a restriction. -/
def Restriction.apply : Settings × List Text → Restriction → Settings × List Text
  | (settings, _), .natives names => (settings, names)
  | (settings, allowed), .steps limit => ({ settings with stepLimit := limit }, allowed)

/-- The restrictions that a manifest states. -/
def restrictions (x : Manifest) : List Restriction :=
  (if x.natives.isEmpty then [] else [.natives x.natives]) ++
    (if 0 < x.steps then [.steps x.steps] else [])

/-- A new session under restrictions. -/
def sessionUnder (sink : Sink) (outside : Outside) (l : List Restriction) : Interpreter :=
  let (settings, allowed) := l.foldl Restriction.apply (⟨0, sink, outside⟩, [])
  .new settings allowed

/-- A new session under a manifest. -/
def session (x : Manifest) (sink : Sink) (outside : Outside) : Interpreter :=
  sessionUnder sink outside x.restrictions

/-- A session has the native functions that its manifest lists. -/
@[simp]
theorem allowed_session (x : Manifest) (sink : Sink) (outside : Outside) :
    (x.session sink outside).allowed = x.natives := by
  unfold session sessionUnder restrictions
  by_cases hn : x.natives = []
  · by_cases hs : 0 < x.steps
    · simp [hn, hs, Restriction.apply, Interpreter.new]
    · simp [hn, hs, Interpreter.new]
  · by_cases hs : 0 < x.steps
    · simp [hn, hs, Restriction.apply, Interpreter.new]
    · simp [hn, hs, Restriction.apply, Interpreter.new]

/-- A session has the step limit of its manifest if that is positive, and else none. -/
@[simp]
theorem stepLimit_session (x : Manifest) (sink : Sink) (outside : Outside) :
    (x.session sink outside).settings.stepLimit = max 0 x.steps := by
  unfold session sessionUnder restrictions
  by_cases hs : 0 < x.steps
  · have hmax : max 0 x.steps = x.steps := by omega
    by_cases hn : x.natives = [] <;> simp [hn, hs, hmax, Restriction.apply, Interpreter.new]
  · have hmax : max 0 x.steps = 0 := by omega
    by_cases hn : x.natives = [] <;> simp [hn, hs, hmax, Restriction.apply, Interpreter.new]

end Scriptorium.Manifest
