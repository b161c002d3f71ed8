/-
  Scriptorium.Yaml.Draft: a decoder of manifests, for YAML documents.

  Content that does not fit is noted and reading goes on, so that one report names all
  of it; only a list field that cannot be read ends the reading at once.  Everything
  that is said about manifests holds for any decoder; this is the one that the program
  is started with.
-/

import Scriptorium.Manifest.Draft
import Scriptorium.Text.Quoted
import Scriptorium.Yaml.Meaning
import Scriptorium.Yaml.Node

namespace Scriptorium.Yaml

open Manifest (Draft)

/-! ## What can be wrong with a document -/

/-- What a part of a document is read as. -/
inductive Shape where
  | text
  | count
  | manifest
  | limits
deriving DecidableEq, Repr

/-- The name a shape is shown under. -/
def Shape.name : Shape → String
  | .text => "string"
  | .count => "int"
  | .manifest => "driver.manifestFile"
  | .limits => "driver.limitsYAML"

/-- Something in a document that does not fit. -/
inductive Complaint where
  /-- Content of the wrong kind; scalars show their text. -/
  | mismatch (line : Nat) (tag : String) (content : Option Text) (shape : Shape)
  /-- A key that a mapping already has. -/
  | repeatedKey (line : Nat) (key : Text) (first : Nat)
  /-- A field that was already set under another spelling of its key. -/
  | repeatedField (line : Nat) (field : Text) (shape : Shape)
  /-- A field that the shape does not have. -/
  | unknownField (line : Nat) (field : Text) (shape : Shape)
deriving DecidableEq, Repr

namespace Complaint

/-- A scalar as a complaint shows it, cut if it is long. -/
def excerpt (t : Text) : Text :=
  if 10 < t.length then " \x60" ++ t.take 7 ++ "...\x60" else " \x60" ++ t ++ "\x60"

/-- The wording of a complaint. -/
def text : Complaint → Text
  | .mismatch line tag content shape =>
    "line " ++ Text.ofNat line ++ ": cannot unmarshal " ++ tag ++
      (content.map excerpt).getD [] ++ " into " ++ shape.name
  | .repeatedKey line key first =>
    "line " ++ Text.ofNat line ++ ": mapping key " ++ key.quote ++ " already defined at line " ++
      Text.ofNat first
  | .repeatedField line field shape =>
    "line " ++ Text.ofNat line ++ ": field " ++ field ++ " already set in type " ++ shape.name
  | .unknownField line field shape =>
    "line " ++ Text.ofNat line ++ ": field " ++ field ++ " not found in type " ++ shape.name

/-- The wording of several complaints. -/
def report (l : List Complaint) : Text :=
  "yaml: unmarshal errors:\n  " ++ Text.join "\n  " (l.map text)

end Complaint

/-- Why a document gives no draft. -/
inductive DraftError where
  /-- Its content does not fit. -/
  | unfit (complaints : List Complaint)
  /-- Items of a list of texts are no texts. -/
  | unfitItems (line : Nat) (complaints : List Complaint)
  /-- A mapping stands where a text or a list of texts is needed. -/
  | mappingForList (line : Nat)
deriving DecidableEq, Repr

/-- What is said about a document that gives no draft. -/
def DraftError.text : DraftError → Text
  | .unfit complaints => Complaint.report complaints
  | .unfitItems line complaints =>
    "manifest: line " ++ Text.ofNat line ++ ": " ++ Complaint.report complaints
  | .mappingForList line =>
    "manifest: line " ++ Text.ofNat line ++
      ": expected a string or a list of strings, found !!map"

/-! ## Drafting -/

/-- A reading that notes complaints and may end at once. -/
abbrev Drafting := StateT (List Complaint) (Except DraftError)

namespace Drafting

/-- Notes a complaint. -/
def complain (c : Complaint) : Drafting Unit := modify (· ++ [c])

/-- Notes that a scalar does not fit. -/
def misfit (line : Nat) (m : Meaning) (t : Text) (shape : Shape) : Drafting Unit :=
  complain (.mismatch line m.tag (some t) shape)

/-- Whether two keys count as the same: both are written alike. -/
def sameKey : Node → Node → Bool
  | .scalar _ _ a, .scalar _ _ b => a = b
  | .alias _ a _, .alias _ b _ => a = b
  | .sequence .., .sequence .. | .mapping .., .mapping .. => true
  | _, _ => false

/-- The text of a key in a complaint. -/
def keyText : Node → Text
  | .scalar _ _ t => t
  | .alias _ anchor _ => anchor
  | _ => []

/-- The complaints about keys that occur again after their first place. -/
def repeatedKeys : List Node → List Complaint
  | [] => []
  | key :: rest =>
    ((rest.filter (sameKey key)).map fun other =>
      .repeatedKey other.line (keyText other) key.line) ++ repeatedKeys rest

/-- Notes repeated keys; tells whether there are none. -/
def keysDiffer (entries : List (Node × Node)) : Drafting Bool := do
  let complaints := repeatedKeys (entries.map Prod.fst)
  modify (· ++ complaints)
  return complaints.isEmpty

/-- Reads a text.  Null is none. -/
def text? (d : Document) (n : Node) : Drafting (Option Text) := do
  match d.follow n with
  | .scalar _ style t =>
    match Meaning.ofScalar style t with
    | .null => return none
    | _ => return some t
  | .mapping line entries =>
    if ← keysDiffer entries then complain (.mismatch line "!!map" none .text)
    return none
  | other =>
    complain (.mismatch other.line "!!seq" none .text)
    return none

/-- The whole number of a double toward zero, in a signed word; what does not fit
    becomes the least word. -/
def wordOf (x : Float) : Int :=
  match Number.read x with
  | .finite v =>
    let n : Int := if v.negative then -v.whole else v.whole
    if Number.fitsWord n then n else Number.leastWord
  | _ => Number.leastWord

/-- Reads a number of steps.  Null is none. -/
def count? (d : Document) (n : Node) : Drafting (Option Int) := do
  match d.follow n with
  | .scalar line style t =>
    let meaning := Meaning.ofScalar style t
    match meaning with
    | .null => return none
    | .integer k =>
      if Number.fitsWord k then return some k
      misfit line meaning t .count
      return none
    | .real x =>
      if x ≤ Float.ofNat Number.wordBound then return some (wordOf x)
      misfit line meaning t .count
      return none
    | _ =>
      misfit line meaning t .count
      return none
  | .mapping line entries =>
    if ← keysDiffer entries then complain (.mismatch line "!!map" none .count)
    return none
  | other =>
    complain (.mismatch other.line "!!seq" none .count)
    return none

/-- Reads a list of texts; a single text is a list of one. -/
def texts (d : Document) (n : Node) : Drafting (List Text) := do
  match d.follow n with
  | .scalar _ style t =>
    match Meaning.ofScalar style t with
    | .null => return []
    | _ => return [t]
  | .sequence line items =>
    let (found, complaints) ← (items.mapM (text? d)).run []
    if complaints.isEmpty then return found.filterMap id
    else throw (.unfitItems line complaints)
  | other => throw (.mappingForList other.line)

/-- Reads the entries of a mapping into a draft, field by field.  `set` says what to
    do with a field; `done` are the fields that were set. -/
def fields (d : Document) (shape : Shape)
    (set : Text → Option (Node → Draft → Drafting Draft)) :
    (done : List Text) → List (Node × Node) → Draft → Drafting Draft
  | _, [], draft => pure draft
  | done, (key, value) :: rest, draft => do
    match ← text? d key with
    | none => fields d shape set done rest draft
    | some field =>
      match set field with
      | none =>
        complain (.unknownField key.line field shape)
        fields d shape set done rest draft
      | some read =>
        if done.contains field then
          complain (.repeatedField key.line field shape)
          fields d shape set done rest draft
        else
          let draft ← read value draft
          fields d shape set (field :: done) rest draft

/-- Reads a mapping of some shape into a draft.  Null states nothing. -/
def record (d : Document) (shape : Shape)
    (set : Text → Option (Node → Draft → Drafting Draft)) (n : Node) (draft : Draft) :
    Drafting Draft := do
  match d.follow n with
  | .scalar line style t =>
    match Meaning.ofScalar style t with
    | .null => return draft
    | meaning =>
      misfit line meaning t shape
      return draft
  | .mapping _ entries =>
    if ← keysDiffer entries then fields d shape set [] entries draft else return draft
  | other =>
    complain (.mismatch other.line "!!seq" none shape)
    return draft

/-- The fields of the limits. -/
def limitsField (d : Document) (field : Text) : Option (Node → Draft → Drafting Draft) :=
  if field = Text.ofString "steps" then some fun n draft => do
    return { draft with steps := (← count? d n).getD draft.steps }
  else none

/-- The fields of a manifest. -/
def manifestField (d : Document) (field : Text) : Option (Node → Draft → Drafting Draft) :=
  if field = Text.ofString "name" then some fun n draft => do
    return { draft with name := (← text? d n).getD draft.name }
  else if field = Text.ofString "entry" then some fun n draft => do
    return { draft with entry := (← text? d n).getD draft.entry }
  else if field = Text.ofString "prelude" then some fun n draft => do
    return { draft with prelude := ← texts d n }
  else if field = Text.ofString "natives" then some fun n draft => do
    return { draft with natives := ← texts d n }
  else if field = Text.ofString "limits" then some (record d .limits (limitsField d))
  else none

end Drafting

/-- The draft that a document states. -/
def Document.draft (d : Document) : Except DraftError Draft := do
  let (draft, complaints) ←
    (Drafting.record d .manifest (Drafting.manifestField d) d.root ⟨[], [], [], [], 0⟩).run []
  if complaints.isEmpty then return draft else throw (.unfit complaints)

/-- The draft that a text states; none if there is no document in it. -/
def decode : Manifest.Decoder := fun t =>
  match Document.ofText? t with
  | .error f => .error f.text
  | .ok none => .ok none
  | .ok (some d) =>
    match d.draft with
    | .ok draft => .ok (some draft)
    | .error e => .error e.text

end Scriptorium.Yaml
