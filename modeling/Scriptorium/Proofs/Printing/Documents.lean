/-
  Scriptorium.Proofs.Printing.Documents: the text of a document determines it.

  A document is told from every other by its text, and the text tells where it ends.  This is
  shown for whatever comes after the text, as long as it does not carry on a number: strings
  end at the first quote that is not escaped, numbers where no character of a number follows,
  and lists and objects at the bracket that comes where a comma could.  Both layouts are one
  writer that differs in what stands between the entries, so all of this is said once.

  A text gives back characters and doubles.  It does not give back bytes that are part of no
  character, which are all written alike, and there is none for NaN and the infinities.

  Main results:
    * `Json.unwritable?_eq_none_iff`: a document can be written where all its numbers can.
    * `Json.unescape_escapeChar`: a character is read back from what it is written as.
    * `Json.compact_eq_write`, `Json.indented_eq_write`: the layouts are one writer.
    * `Json.Faithful.tellsApart`: the text tells the document and its end.
-/

import Scriptorium.Json
import Scriptorium.Proofs.Numbers.Decimals

namespace Scriptorium

/-! ## §1. Documents taken apart. -/

namespace Json

/-- What holds of a document if it holds of its parts, holds of every document. -/
theorem induction {P : Json → Prop} (null : P .null) (bool : ∀ b, P (.bool b))
    (number : ∀ x, P (.number x)) (string : ∀ t, P (.string t))
    (array : ∀ items, (∀ j ∈ items, P j) → P (.array items))
    (object : ∀ fields, (∀ f ∈ fields, P f.2) → P (.object fields)) (j : Json) : P j := by
  refine @Json.rec P (fun items => ∀ j ∈ items, P j) (fun fields => ∀ f ∈ fields, P f.2)
    (fun f => P f.2) null bool number string array object ?_ ?_ ?_ ?_ ?_ j
  · exact List.forall_mem_nil _
  · exact fun j rest hj hrest => List.forall_mem_cons.2 ⟨hj, hrest⟩
  · exact List.forall_mem_nil _
  · exact fun f rest hf hrest => List.forall_mem_cons.2 ⟨hf, hrest⟩
  · exact fun key j hj => hj

/-- Whether all numbers and all strings in a document are of some sort. -/
inductive All (N : Float → Prop) (T : Text → Prop) : Json → Prop where
  | null : All N T .null
  | bool (b : Bool) : All N T (.bool b)
  | number {x : Float} (h : N x) : All N T (.number x)
  | string {t : Text} (h : T t) : All N T (.string t)
  | array {items : List Json} (h : ∀ j ∈ items, All N T j) : All N T (.array items)
  | object {fields : List (String × Json)} (h : ∀ f ∈ fields, All N T f.2) :
    All N T (.object fields)

section All

variable {N : Float → Prop} {T : Text → Prop}

@[simp]
theorem all_null : All N T .null := .null

@[simp]
theorem all_bool (b : Bool) : All N T (.bool b) := .bool b

@[simp]
theorem all_number {x : Float} : All N T (.number x) ↔ N x :=
  ⟨fun h => by cases h with | number h => exact h, .number⟩

@[simp]
theorem all_string {t : Text} : All N T (.string t) ↔ T t :=
  ⟨fun h => by cases h with | string h => exact h, .string⟩

@[simp]
theorem all_array {items : List Json} : All N T (.array items) ↔ ∀ j ∈ items, All N T j :=
  ⟨fun h => by cases h with | array h => exact h, .array⟩

@[simp]
theorem all_object {fields : List (String × Json)} :
    All N T (.object fields) ↔ ∀ f ∈ fields, All N T f.2 :=
  ⟨fun h => by cases h with | object h => exact h, .object⟩

end All

/-- Whether every number in the document can be written. -/
abbrev Writable : Json → Prop := All (fun x => ∃ t, Number.json? x = some t) fun _ => True

theorem unwritableItem?_eq_none_iff (items : List Json) :
    unwritableItem? items = none ↔ ∀ j ∈ items, j.unwritable? = none := by
  induction items with
  | nil => exact iff_of_true rfl (List.forall_mem_nil _)
  | cons j rest ih => rw [unwritableItem?, Option.or_eq_none_iff, ih, List.forall_mem_cons]

theorem unwritableField?_eq_none_iff (fields : List (String × Json)) :
    unwritableField? fields = none ↔ ∀ f ∈ fields, f.2.unwritable? = none := by
  induction fields with
  | nil => exact iff_of_true rfl (List.forall_mem_nil _)
  | cons f rest ih => rw [unwritableField?, Option.or_eq_none_iff, ih, List.forall_mem_cons]

/-- There is nothing to report exactly where every number can be written. -/
theorem unwritable?_eq_none_iff (j : Json) : j.unwritable? = none ↔ j.Writable := by
  induction j using Json.induction with
  | null => exact iff_of_true rfl .null
  | bool b => exact iff_of_true rfl (.bool b)
  | number x => cases h : Number.json? x <;> simp [unwritable?, h]
  | string t => exact iff_of_true rfl (.string trivial)
  | array items ih =>
    rw [unwritable?, unwritableItem?_eq_none_iff]
    exact (forall₂_congr ih).trans all_array.symm
  | object fields ih =>
    rw [unwritable?, unwritableField?_eq_none_iff]
    exact (forall₂_congr ih).trans all_object.symm

end Json

/-! ## §2. Strings. -/

/-- Whether the text is the encoding of some characters. -/
def Text.IsUtf8 (t : Text) : Prop := ∃ s : String, t = Text.ofString s

theorem Text.isUtf8_ofString (s : String) : (Text.ofString s).IsUtf8 := ⟨s, rfl⟩

namespace Json

/-- The number that a hexadecimal digit stands for. -/
def hexDigitValue (c : Char) : Nat := if c.isDigit then c.toNat - 0x30 else c.toNat - 0x57

/-- The number that hexadecimal digits stand for. -/
def hexValue (digits : List Char) : Nat :=
  digits.foldl (fun n c => 16 * n + hexDigitValue c) 0

theorem hexDigitValue_hexDigit : ∀ n < 16, hexDigitValue (Text.hexDigit n) = n := by decide

theorem hexValue_hex (width n : Nat) : hexValue (Text.hex width n) = n % 16 ^ width := by
  induction width generalizing n with
  | zero => rw [Nat.pow_zero, Nat.mod_one]; rfl
  | succ width ih =>
    rw [Text.hex, hexValue, List.foldl_append, ← hexValue, ih (n / 16), List.foldl_cons,
      List.foldl_nil, hexDigitValue_hexDigit _ (Nat.mod_lt _ (by decide)), Nat.pow_succ',
      Nat.mod_mul]
    omega

/-- The character that is meant by what stands after a backslash, and what comes after it. -/
def unescapeTail : List Symbol → Option (Char × List Symbol)
  | .char 'u' :: .char a :: .char b :: .char c :: .char d :: rest =>
    some (Char.ofNat (hexValue [a, b, c, d]), rest)
  | .char 'b' :: rest => some ('\x08', rest)
  | .char 't' :: rest => some ('\t', rest)
  | .char 'n' :: rest => some ('\n', rest)
  | .char 'f' :: rest => some ('\x0c', rest)
  | .char 'r' :: rest => some ('\x0d', rest)
  | .char c :: rest => some (c, rest)
  | _ => none

/-- The character that the inside of a string begins with, and what comes after it. -/
def unescape : List Symbol → Option (Char × List Symbol)
  | .char '\\' :: rest => unescapeTail rest
  | .char c :: rest => some (c, rest)
  | _ => none

theorem unescapeTail_hex {c : Char} (hc : c.toNat < 16 ^ 4) (rest : List Symbol) :
    unescapeTail (('u' :: Text.hex 4 c.toNat).map .char ++ rest) = some (c, rest) := by
  have hvalue := hexValue_hex 4 c.toNat
  rw [Nat.mod_eq_of_lt hc] at hvalue
  show some (Char.ofNat (hexValue (Text.hex 4 c.toNat)), rest) = some (c, rest)
  rw [hvalue, Char.ofNat_toNat]

/-- A character is read back from what it is written as. -/
theorem unescape_escapeChar (c : Char) (rest : List Symbol) :
    unescape ((escapeChar c).map .char ++ rest) = some (c, rest) := by
  have hcode : ∀ n, c.toNat = n → c = Char.ofNat n := by
    rintro n rfl
    exact (Char.ofNat_toNat c).symm
  unfold escapeChar
  dsimp only
  split
  · next h =>
    rcases Bool.or_eq_true .. ▸ h with h | h <;> cases of_decide_eq_true h <;> rfl
  next hplain =>
  -- the five short escapes, each for one code
  split
  · next h => rw [hcode _ h]; rfl
  split
  · next h => rw [hcode _ h]; rfl
  split
  · next h => rw [hcode _ h]; rfl
  split
  · next h => rw [hcode _ h]; rfl
  split
  · next h => rw [hcode _ h]; rfl
  split
  · next h =>
    -- whatever is escaped by its code has one of four digits
    refine unescapeTail_hex ?_ rest
    simp only [Bool.or_eq_true, decide_eq_true_eq] at h
    rcases h with ((((h | rfl) | rfl) | rfl) | h) | h
    · omega
    · decide
    · decide
    · decide
    · omega
    · omega
  · have hne : c ≠ '\\' := by
      rintro rfl
      exact hplain rfl
    show unescape (.char c :: rest) = _
    rw [unescape]
    rintro rfl
    exact hne rfl

/-- No character is written with a quote in front. -/
theorem head?_escapeChar (c : Char) (rest : List Symbol) :
    ((escapeChar c).map Symbol.char ++ rest).head? ≠ some (.char '"') := by
  unfold escapeChar
  dsimp only
  split
  · exact fun h => by cases h
  next hplain =>
  repeat' split
  all_goals intro h; cases h
  exact hplain rfl

/-- The characters inside a string, and where it ends, can be told from its symbols. -/
theorem eq_of_escaped {l l' : List Char} {s s' : List Symbol}
    (h : (l.flatMap escapeChar).map Symbol.char ++ .char '"' :: s =
      (l'.flatMap escapeChar).map Symbol.char ++ .char '"' :: s') : l = l' ∧ s = s' := by
  induction l generalizing l' with
  | nil =>
    cases l' with
    | nil => exact ⟨rfl, (List.cons.inj h).2⟩
    | cons c' l' =>
      rw [List.flatMap_cons, List.map_append, List.append_assoc] at h
      exact absurd (congrArg List.head? h.symm) (head?_escapeChar c' _)
  | cons c l ih =>
    rw [List.flatMap_cons, List.map_append, List.append_assoc] at h
    cases l' with
    | nil => exact absurd (congrArg List.head? h) (head?_escapeChar c _)
    | cons c' l' =>
      rw [List.flatMap_cons, List.map_append, List.append_assoc] at h
      -- both sides are read by one and the same function
      have hread := congrArg unescape h
      rw [unescape_escapeChar, unescape_escapeChar] at hread
      obtain ⟨rfl, hrest⟩ := Prod.mk.inj (Option.some.inj hread)
      obtain ⟨rfl, rfl⟩ := ih hrest
      exact ⟨rfl, rfl⟩

theorem symbols_quote_append (s : String) (t : Text) :
    (quote (Text.ofString s) ++ t).symbols =
      .char '"' :: ((s.toList.flatMap escapeChar).map Symbol.char ++ .char '"' :: t.symbols) := by
  have hescape : (s.toList.map Symbol.char).flatMap escapeSymbol = s.toList.flatMap escapeChar :=
    List.flatMap_map ..
  rw [quote, Text.symbols_ofString_append, Text.symbols_ofString, hescape, String.toList_ofList,
    List.cons_append, List.map_cons, List.map_append, List.cons_append, List.append_assoc]
  rfl

/-- **A quoted string tells where it ends.** -/
theorem eq_of_quote_append {t t' s s' : Text} (ht : t.IsUtf8) (ht' : t'.IsUtf8)
    (h : quote t ++ s = quote t' ++ s') : t = t' ∧ s = s' := by
  obtain ⟨u, rfl⟩ := ht
  obtain ⟨u', rfl⟩ := ht'
  have hsymbols := congrArg Text.symbols h
  rw [symbols_quote_append, symbols_quote_append] at hsymbols
  obtain ⟨hchars, hrest⟩ := eq_of_escaped (List.cons.inj hsymbols).2
  exact ⟨congrArg Text.ofString (String.toList_injective hchars), Text.eq_of_symbols hrest⟩

end Json

/-! ## §3. Numbers. -/

/-- Whether a number in front of the text would end there. -/
def Text.EndsNumber (t : Text) : Prop :=
  ∀ c, t.symbols.head? = some (.char c) → Number.isNumberChar c = false

namespace Number

/-- Whether the symbol may occur in a number. -/
def isNumberSymbol : Symbol → Bool
  | .char c => isNumberChar c
  | .stray _ => false

theorem chars_of_json? {x : Float} {t : Text} (h : json? x = some t) :
    ∃ c l, t = Text.ofString (String.ofList (c :: l)) ∧ (c.isDigit = true ∨ c = '-') ∧
      ∀ a ∈ c :: l, isNumberChar a = true := by
  obtain ⟨d, l, r, _, rfl, ⟨⟨c, hc, hdigit⟩, hall, _⟩, _⟩ := exists_of_json? h
  cases l with
  | nil => cases hc
  | cons a l =>
    obtain rfl : a = c := Option.some.inj hc
    unfold signed
    split
    · exact ⟨'-', a :: l, rfl, .inr rfl, List.forall_mem_cons.2 ⟨rfl, hall⟩⟩
    · exact ⟨a, l, rfl, .inl hdigit, hall⟩

theorem takeWhile_number {l : List Char} {s : Text} (hl : ∀ c ∈ l, isNumberChar c = true)
    (hs : s.EndsNumber) :
    (l.map Symbol.char ++ s.symbols).takeWhile isNumberSymbol = l.map Symbol.char := by
  have hall : ∀ a ∈ l.map Symbol.char, isNumberSymbol a = true := by
    intro a ha
    obtain ⟨c, hc, rfl⟩ := List.mem_map.1 ha
    exact hl c hc
  have hrest : s.symbols.takeWhile isNumberSymbol = [] := by
    unfold Text.EndsNumber at hs
    cases hsymbols : s.symbols with
    | nil => rfl
    | cons a rest =>
      refine List.takeWhile_cons_of_neg ?_
      cases a with
      | char c =>
        rw [hsymbols] at hs
        rw [isNumberSymbol, hs c rfl]
        exact Bool.false_ne_true
      | stray b => exact Bool.false_ne_true
  rw [List.takeWhile_append_of_pos hall, hrest, List.append_nil]

/-- **A number tells where it ends**, and which one it is. -/
theorem eq_of_json?_append {x y : Float} {t t' s s' : Text} (hx : json? x = some t)
    (hy : json? y = some t') (hs : s.EndsNumber) (hs' : s'.EndsNumber) (h : t ++ s = t' ++ s') :
    x = y ∧ s = s' := by
  obtain ⟨c, l, rfl, _, hl⟩ := chars_of_json? hx
  obtain ⟨c', l', rfl, _, hl'⟩ := chars_of_json? hy
  have hsymbols := congrArg Text.symbols h
  rw [Text.symbols_ofString_append, Text.symbols_ofString_append, String.toList_ofList,
    String.toList_ofList] at hsymbols
  -- the number is all that a number can be made of, on either side
  have hsame := congrArg (List.takeWhile isNumberSymbol) hsymbols
  rw [takeWhile_number hl hs, takeWhile_number hl' hs'] at hsame
  have hchars := List.map_injective_iff.2 (fun _ _ hc => Symbol.char.inj hc) hsame
  rw [← hchars] at hy h
  exact ⟨json?_injective hx hy, List.append_cancel_left h⟩

end Number

/-! ## §4. One writer for both layouts. -/

/-- Whether the text may stand where entries are parted: it is empty or begins a line. -/
def Text.IsGap (t : Text) : Prop := t = [] ∨ ∃ rest, t = Text.ofString "\n" ++ rest

/-- How a document is laid out: what stands before an entry and before the end of a list of
    them, and what stands between a key and its value. -/
structure Layout where
  gap : Nat → Text
  colon : Text
  isGap : ∀ level, (gap level).IsGap

namespace Layout

/-- Everything on one line. -/
def line : Layout := ⟨fun _ => [], ":", fun _ => .inl rfl⟩

/-- One entry per line. -/
def lines : Layout := ⟨Json.newline, ": ", fun _ => .inr ⟨_, rfl⟩⟩

end Layout

/-- Entries with commas between them, from one bracket to the other. -/
def Text.enclose (first last : Text) (gap : Text) : List Text → Text
  | [] => first ++ last
  | t :: rest => first ++ t ++ rest.flatMap (Text.ofString "," ++ ·) ++ gap ++ last

theorem Text.join_cons (sep t : Text) (rest : List Text) :
    Text.join sep (t :: rest) = t ++ rest.flatMap (sep ++ ·) := by
  induction rest generalizing t with
  | nil => exact (List.append_nil t).symm
  | cons u rest ih =>
    rw [Text.join, ih u, List.flatMap_cons, List.append_assoc, List.append_assoc]
    intro h
    cases h

namespace Json

mutual

/-- The document in a layout. -/
def write (lay : Layout) (level : Nat) : Json → Text
  | .null => "null"
  | .bool b => if b then "true" else "false"
  | .number x => (Number.json? x).getD "null"
  | .string t => quote t
  | .array items => Text.enclose "[" "]" (lay.gap level) (writeItems lay (level + 1) items)
  | .object fields =>
    Text.enclose "\x7b" "\x7d" (lay.gap level) (writeFields lay (level + 1) fields)

/-- The entries of a list in a layout. -/
def writeItems (lay : Layout) (level : Nat) : List Json → List Text
  | [] => []
  | j :: rest => (lay.gap level ++ j.write lay level) :: writeItems lay level rest

/-- The entries of an object in a layout. -/
def writeFields (lay : Layout) (level : Nat) : List (String × Json) → List Text
  | [] => []
  | (key, j) :: rest =>
    (lay.gap level ++ (quote key ++ (lay.colon ++ j.write lay level))) ::
      writeFields lay level rest

end

mutual

theorem compact_eq_write (j : Json) (level : Nat) : j.compact = j.write .line level := by
  cases j with
  | array items =>
    rw [compact, write, compactItems_eq_write items (level + 1)]
    cases items with
    | nil => rfl
    | cons j rest =>
      rw [writeItems, Text.join_cons, Text.enclose, ← List.append_assoc]
      exact (congrArg (· ++ Text.ofString "]") (List.append_nil _)).symm
  | object fields =>
    rw [compact, write, compactFields_eq_write fields (level + 1)]
    cases fields with
    | nil => rfl
    | cons f rest =>
      rw [writeFields, Text.join_cons, Text.enclose, ← List.append_assoc]
      exact (congrArg (· ++ Text.ofString "\x7d") (List.append_nil _)).symm
  | _ => rfl

theorem compactItems_eq_write (items : List Json) (level : Nat) :
    compactItems items = Text.join "," (writeItems .line level items) := by
  cases items with
  | nil => rfl
  | cons j rest =>
    have hj := compact_eq_write j level
    cases rest with
    | nil => exact hj
    | cons j' rest =>
      rw [compactItems, hj, compactItems_eq_write (j' :: rest) level]
      · rfl
      · exact List.cons_ne_nil _ _

theorem compactFields_eq_write (fields : List (String × Json)) (level : Nat) :
    compactFields fields = Text.join "," (writeFields .line level fields) := by
  cases fields with
  | nil => rfl
  | cons f rest =>
    obtain ⟨key, j⟩ := f
    have hj := compact_eq_write j level
    cases rest with
    | nil =>
      rw [compactFields, hj, List.append_assoc]
      rfl
    | cons f' rest =>
      rw [compactFields, hj, compactFields_eq_write (f' :: rest) level,
        List.append_assoc (quote _)]
      · rfl
      · exact List.cons_ne_nil _ _

end

mutual

theorem indented_eq_write (j : Json) (level : Nat) : j.indented level = j.write .lines level := by
  cases j with
  | array items =>
    cases items with
    | nil => rfl
    | cons j rest =>
      rw [indented, write, indentedItems_eq_write (j :: rest) (level + 1), writeItems,
        Text.join_cons, Text.enclose, ← List.append_assoc (Text.ofString "[")]
      · rfl
      · exact List.cons_ne_nil _ _
  | object fields =>
    cases fields with
    | nil => rfl
    | cons f rest =>
      rw [indented, write, indentedFields_eq_write (f :: rest) (level + 1), writeFields,
        Text.join_cons, Text.enclose, ← List.append_assoc (Text.ofString "\x7b")]
      · rfl
      · exact List.cons_ne_nil _ _
  | _ => rfl

theorem indentedItems_eq_write (items : List Json) (level : Nat) :
    indentedItems level items = Text.join "," (writeItems .lines level items) := by
  cases items with
  | nil => rfl
  | cons j rest =>
    have hj := indented_eq_write j level
    cases rest with
    | nil =>
      rw [indentedItems, hj]
      rfl
    | cons j' rest =>
      rw [indentedItems, hj, indentedItems_eq_write (j' :: rest) level]
      · rfl
      · exact List.cons_ne_nil _ _

theorem indentedFields_eq_write (fields : List (String × Json)) (level : Nat) :
    indentedFields level fields = Text.join "," (writeFields .lines level fields) := by
  cases fields with
  | nil => rfl
  | cons f rest =>
    obtain ⟨key, j⟩ := f
    have hj := indented_eq_write j level
    cases rest with
    | nil =>
      rw [indentedFields, hj, List.append_assoc, List.append_assoc]
      rfl
    | cons f' rest =>
      rw [indentedFields, hj, indentedFields_eq_write (f' :: rest) level,
        List.append_assoc (newline level), List.append_assoc (newline level),
        List.append_assoc (quote _)]
      · rfl
      · exact List.cons_ne_nil _ _

end

theorem writeItems_eq_map (lay : Layout) (level : Nat) (items : List Json) :
    writeItems lay level items = items.map fun j => lay.gap level ++ j.write lay level := by
  induction items with
  | nil => rfl
  | cons j rest ih => rw [writeItems, ih, List.map_cons]

theorem writeFields_eq_map (lay : Layout) (level : Nat) (fields : List (String × Json)) :
    writeFields lay level fields = fields.map fun f =>
      lay.gap level ++ (quote f.1 ++ (lay.colon ++ f.2.write lay level)) := by
  induction fields with
  | nil => rfl
  | cons f rest ih => rw [writeFields, ih, List.map_cons]

end Json

/-! ## §5. How texts open. -/

/-- Whether the text begins with the character. -/
def Text.Opens (t : Text) (c : Char) : Prop := t.symbols.head? = some (.char c)

namespace Text

theorem Opens.unique {t : Text} {c d : Char} (hc : t.Opens c) (hd : t.Opens d) : c = d :=
  Symbol.char.inj (Option.some.inj (hc.symm.trans hd))

theorem opens_ofList_append (c : Char) (l : List Char) (t : Text) :
    (Text.ofString (String.ofList (c :: l)) ++ t).Opens c := by
  rw [Opens, Text.symbols_ofString_append, String.toList_ofList]
  rfl

theorem Opens.endsNumber {t : Text} {c : Char} (h : t.Opens c)
    (hc : Number.isNumberChar c = false) : t.EndsNumber := by
  intro d hd
  rw [← h.unique hd]
  exact hc

/-- Whether the text is a closing bracket. -/
def IsClosing (t : Text) : Prop := t = Text.ofString "]" ∨ t = Text.ofString "\x7d"

/-- What stands after the last entry opens neither an entry nor another number. -/
theorem opens_end {gap last : Text} (hgap : gap.IsGap) (hlast : last.IsClosing) (s : Text) :
    ∃ c ∈ ['\n', ']', '\x7d'], (gap ++ (last ++ s)).Opens c := by
  rcases hgap with rfl | ⟨t, rfl⟩
  · rcases hlast with rfl | rfl
    · exact ⟨']', by decide, opens_ofList_append ']' [] s⟩
    · exact ⟨'\x7d', by decide, opens_ofList_append '\x7d' [] s⟩
  · refine ⟨'\n', by decide, ?_⟩
    rw [List.append_assoc]
    exact opens_ofList_append '\n' [] _

/-- The brackets of a list of entries open its text. -/
theorem exists_enclose_eq (first last gap : Text) (ts : List Text) :
    ∃ t, Text.enclose first last gap ts = first ++ t := by
  cases ts with
  | nil => exact ⟨last, rfl⟩
  | cons t rest =>
    refine ⟨t ++ (rest.flatMap (Text.ofString "," ++ ·) ++ (gap ++ last)), ?_⟩
    simp only [Text.enclose, List.append_assoc]

/-- Whether the text of `x` tells it from `y`, and tells where it ends, in front of texts that
    do not carry on a number. -/
def TellsApart {α : Type} (f : α → Text) (x y : α) : Prop :=
  ∀ s s' : Text, s.EndsNumber → s'.EndsNumber → f x ++ s = f y ++ s' → x = y ∧ s = s'

section Entries

variable {α : Type} {f : α → Text} {gap last s s' : Text}

theorem endsNumber_further (hgap : gap.IsGap) (hlast : last.IsClosing) (ts : List Text)
    (s : Text) :
    EndsNumber (ts.flatMap (Text.ofString "," ++ ·) ++ (gap ++ (last ++ s))) := by
  cases ts with
  | nil =>
    obtain ⟨c, hc, hopens⟩ := opens_end hgap hlast s
    refine hopens.endsNumber ?_
    simp only [List.mem_cons, List.not_mem_nil, or_false] at hc
    rcases hc with rfl | rfl | rfl <;> rfl
  | cons t rest =>
    rw [List.flatMap_cons, List.append_assoc, List.append_assoc]
    exact (opens_ofList_append ',' [] _).endsNumber (by decide)

/-- The entries after the first, and where they end, can be told from the text. -/
theorem eq_of_further (hgap : gap.IsGap) (hlast : last.IsClosing) {xs ys : List α}
    (hf : ∀ x ∈ xs, ∀ y ∈ ys, TellsApart f x y)
    (h : (xs.map f).flatMap (Text.ofString "," ++ ·) ++ (gap ++ (last ++ s)) =
      (ys.map f).flatMap (Text.ofString "," ++ ·) ++ (gap ++ (last ++ s'))) :
    xs = ys ∧ s = s' := by
  -- a comma before the next entry is told from what stands after the last
  have hcomma : ∀ (t : Text) (s : Text), Text.ofString "," ++ t ≠ gap ++ (last ++ s) := by
    intro t s heq
    obtain ⟨c, hc, hopens⟩ := opens_end hgap hlast s
    rw [← heq] at hopens
    have hsame := hopens.unique (opens_ofList_append ',' [] t)
    subst hsame
    revert hc
    decide
  induction xs generalizing ys with
  | nil =>
    cases ys with
    | nil => exact ⟨rfl, List.append_cancel_left (List.append_cancel_left h)⟩
    | cons y ys =>
      rw [List.map_cons, List.flatMap_cons, List.append_assoc, List.append_assoc] at h
      exact absurd h.symm (hcomma _ s)
  | cons x xs ih =>
    rw [List.map_cons, List.flatMap_cons, List.append_assoc, List.append_assoc] at h
    cases ys with
    | nil => exact absurd h (hcomma _ s')
    | cons y ys =>
      rw [List.map_cons, List.flatMap_cons, List.append_assoc, List.append_assoc] at h
      obtain ⟨rfl, hrest⟩ := hf x List.mem_cons_self y List.mem_cons_self _ _
        (endsNumber_further hgap hlast _ _) (endsNumber_further hgap hlast _ _)
        (List.append_cancel_left h)
      obtain ⟨rfl, rfl⟩ := ih (fun x hx y hy =>
        hf x (List.mem_cons_of_mem _ hx) y (List.mem_cons_of_mem _ hy)) hrest
      exact ⟨rfl, rfl⟩

/-- Entries between brackets, and where they end, can be told from the text. -/
theorem eq_of_enclose {first : Text} (hgap : gap.IsGap) (hlast : last.IsClosing)
    {xs ys : List α} (hf : ∀ x ∈ xs, ∀ y ∈ ys, TellsApart f x y)
    (hopens : ∀ x, x ∈ xs ∨ x ∈ ys → ∀ t, ∃ c, (f x ++ t).Opens c ∧ c ∉ [']', '\x7d'])
    (h : Text.enclose first last gap (xs.map f) ++ s =
      Text.enclose first last gap (ys.map f) ++ s') : xs = ys ∧ s = s' := by
  -- the first entry is told from the closing bracket
  have hentry : ∀ x, x ∈ xs ∨ x ∈ ys → ∀ t s, f x ++ t ≠ last ++ s := by
    intro x hx t s heq
    obtain ⟨c, hc, hnot⟩ := hopens x hx t
    rw [heq] at hc
    rcases hlast with rfl | rfl
    · rw [hc.unique (opens_ofList_append ']' [] s)] at hnot
      exact hnot (by decide)
    · rw [hc.unique (opens_ofList_append '\x7d' [] s)] at hnot
      exact hnot (by decide)
  cases xs with
  | nil =>
    cases ys with
    | nil =>
      exact ⟨rfl, List.append_cancel_left h⟩
    | cons y ys =>
      simp only [List.map_nil, List.map_cons, Text.enclose, List.append_assoc] at h
      exact absurd (List.append_cancel_left h).symm (hentry y (.inr List.mem_cons_self) _ _)
  | cons x xs =>
    cases ys with
    | nil =>
      simp only [List.map_nil, List.map_cons, Text.enclose, List.append_assoc] at h
      exact absurd (List.append_cancel_left h) (hentry x (.inl List.mem_cons_self) _ _)
    | cons y ys =>
      simp only [List.map_cons, Text.enclose, List.append_assoc] at h
      obtain ⟨rfl, hrest⟩ := hf x List.mem_cons_self y List.mem_cons_self _ _
        (endsNumber_further hgap hlast _ _) (endsNumber_further hgap hlast _ _)
        (List.append_cancel_left h)
      obtain ⟨rfl, rfl⟩ := eq_of_further hgap hlast (fun x hx y hy =>
        hf x (List.mem_cons_of_mem _ hx) y (List.mem_cons_of_mem _ hy)) hrest
      exact ⟨rfl, rfl⟩

end Entries

end Text

/-! ## §6. Documents that can be read back. -/

namespace Json

/-- The kinds of documents. -/
inductive Kind where
  | null
  | bool
  | number
  | string
  | array
  | object
deriving DecidableEq

/-- The kind of a document. -/
def kind : Json → Kind
  | .null => .null
  | .bool _ => .bool
  | .number _ => .number
  | .string _ => .string
  | .array _ => .array
  | .object _ => .object

/-- The kind of the documents that begin with a character. -/
def Kind.ofChar (c : Char) : Option Kind :=
  if c = 'n' then some .null
  else if c = 't' || c = 'f' then some .bool
  else if c = '"' then some .string
  else if c = '[' then some .array
  else if c = '\x7b' then some .object
  else if c.isDigit || c = '-' then some .number
  else none

/-- Whether the document has numbers that can be written and strings that are encodings of
    characters, which is what a text can give back. -/
abbrev Faithful : Json → Prop := All (fun x => ∃ t, Number.json? x = some t) Text.IsUtf8

/-- The first character of a text tells the kind of the document. -/
theorem Faithful.opens_write {j : Json} (hj : Faithful j) (lay : Layout) (level : Nat)
    (s : Text) : ∃ c, (j.write lay level ++ s).Opens c ∧ Kind.ofChar c = some j.kind := by
  cases hj with
  | null => exact ⟨'n', Text.opens_ofList_append 'n' ['u', 'l', 'l'] s, rfl⟩
  | bool b =>
    cases b with
    | false => exact ⟨'f', Text.opens_ofList_append 'f' ['a', 'l', 's', 'e'] s, rfl⟩
    | true => exact ⟨'t', Text.opens_ofList_append 't' ['r', 'u', 'e'] s, rfl⟩
  | number hx =>
    obtain ⟨t, h⟩ := hx
    obtain ⟨c, l, rfl, hc, _⟩ := Number.chars_of_json? h
    refine ⟨c, ?_, ?_⟩
    · rw [write, h]
      exact Text.opens_ofList_append c l s
    · rcases hc with hdigit | rfl
      · have hne : ∀ d : Char, d.isDigit = false → c ≠ d := fun d hd =>
          of_decide_eq_true (Number.ne_of_isDigit hdigit hd)
        rw [Kind.ofChar, if_neg (hne 'n' rfl), if_neg, if_neg (hne '"' rfl), if_neg (hne '[' rfl),
          if_neg (hne '\x7b' rfl), if_pos]
        · rfl
        · rw [hdigit, Bool.true_or]
        · simp [hne 't' rfl, hne 'f' rfl]
      · rfl
  | string h => exact ⟨'"', Text.opens_ofList_append '"' _ s, rfl⟩
  | array h =>
    obtain ⟨t, ht⟩ := Text.exists_enclose_eq "[" "]" (lay.gap level) (writeItems lay (level + 1) _)
    refine ⟨'[', ?_, rfl⟩
    rw [write, ht, List.append_assoc]
    exact Text.opens_ofList_append '[' [] _
  | object h =>
    obtain ⟨t, ht⟩ :=
      Text.exists_enclose_eq "\x7b" "\x7d" (lay.gap level) (writeFields lay (level + 1) _)
    refine ⟨'\x7b', ?_, rfl⟩
    rw [write, ht, List.append_assoc]
    exact Text.opens_ofList_append '\x7b' [] _

theorem Faithful.kind_eq {j j' : Json} (hj : Faithful j) (hj' : Faithful j') {lay : Layout}
    {level : Nat} {s s' : Text} (h : j.write lay level ++ s = j'.write lay level ++ s') :
    j.kind = j'.kind := by
  obtain ⟨c, hopens, hkind⟩ := hj.opens_write lay level s
  obtain ⟨c', hopens', hkind'⟩ := hj'.opens_write lay level s'
  rw [h] at hopens
  rw [hopens.unique hopens', hkind'] at hkind
  exact (Option.some.inj hkind).symm

/-- An entry is told from a closing bracket by what it begins with. -/
theorem opens_entry {t : Text} {c : Char} (h : t.Opens c) (hc : c ∉ [']', '\x7d']) (lay : Layout)
    (level : Nat) : ∃ c, (lay.gap level ++ t).Opens c ∧ c ∉ [']', '\x7d'] := by
  rcases lay.isGap level with hgap | ⟨u, hgap⟩
  · exact ⟨c, by rwa [hgap, List.nil_append], hc⟩
  · refine ⟨'\n', ?_, by decide⟩
    rw [hgap, List.append_assoc]
    exact Text.opens_ofList_append '\n' [] _

theorem Faithful.opens_item {j : Json} (hj : Faithful j) (lay : Layout) (level : Nat) (t : Text) :
    ∃ c, (lay.gap level ++ j.write lay level ++ t).Opens c ∧ c ∉ [']', '\x7d'] := by
  obtain ⟨c, hopens, hkind⟩ := hj.opens_write lay level t
  rw [List.append_assoc]
  refine opens_entry hopens (fun hc => ?_) lay level
  -- no document begins with a closing bracket
  simp only [List.mem_cons, List.not_mem_nil, or_false] at hc
  rcases hc with rfl | rfl <;> cases hkind

/-- **The text of a document tells which one it is, and where it ends**, in every layout. -/
theorem Faithful.tellsApart {j j' : Json} (hj : Faithful j) (hj' : Faithful j') (lay : Layout)
    (level : Nat) : Text.TellsApart (write lay level) j j' := by
  intro s s' hs hs' h
  -- over the first document; the first character tells that the other is of its kind
  induction hj generalizing j' level s s' with
  | null =>
    have hkind := Faithful.kind_eq .null hj' h
    cases hj' <;> cases hkind
    exact ⟨rfl, List.append_cancel_left h⟩
  | bool b =>
    have hkind := Faithful.kind_eq (.bool b) hj' h
    cases hj' <;> cases hkind
    next b' =>
    have hsame : b = b' := by
      cases b <;> cases b' <;> first | rfl | cases h
    subst hsame
    exact ⟨rfl, List.append_cancel_left h⟩
  | number hx =>
    have hkind := Faithful.kind_eq (.number hx) hj' h
    cases hj' <;> cases hkind
    next hx' =>
    obtain ⟨⟨t, ht⟩, t', ht'⟩ := And.intro hx hx'
    rw [write, write, ht, ht'] at h
    obtain ⟨rfl, rfl⟩ := Number.eq_of_json?_append ht ht' hs hs' h
    exact ⟨rfl, rfl⟩
  | string ht =>
    have hkind := Faithful.kind_eq (.string ht) hj' h
    cases hj' <;> cases hkind
    next ht' =>
    obtain ⟨rfl, rfl⟩ := eq_of_quote_append ht ht' h
    exact ⟨rfl, rfl⟩
  | array hitems ih =>
    have hkind := Faithful.kind_eq (.array hitems) hj' h
    cases hj' <;> cases hkind
    next items items' hitems' =>
    rw [write, write, writeItems_eq_map, writeItems_eq_map] at h
    have hfaithful : ∀ j, j ∈ items ∨ j ∈ items' → Faithful j := by
      rintro j (hj | hj)
      · exact hitems j hj
      · exact hitems' j hj
    -- entries are one level deeper, and behind each stands what ends a number
    have hitem : ∀ j ∈ items, ∀ j' ∈ items',
        Text.TellsApart (fun j => lay.gap (level + 1) ++ j.write lay (level + 1)) j j' := by
      intro j hj j' hj' s s' hs hs' h
      rw [List.append_assoc, List.append_assoc] at h
      exact ih j hj (hitems' j' hj') _ _ _ hs hs' (List.append_cancel_left h)
    obtain ⟨rfl, rfl⟩ := Text.eq_of_enclose (lay.isGap level) (.inl rfl) hitem
      (fun j hj => (hfaithful j hj).opens_item lay (level + 1)) h
    exact ⟨rfl, rfl⟩
  | object hfields ih =>
    have hkind := Faithful.kind_eq (.object hfields) hj' h
    cases hj' <;> cases hkind
    next fields fields' hfields' =>
    rw [write, write, writeFields_eq_map, writeFields_eq_map] at h
    have hfield : ∀ f ∈ fields, ∀ f' ∈ fields', Text.TellsApart (fun f : String × Json =>
        lay.gap (level + 1) ++ (quote f.1 ++ (lay.colon ++ f.2.write lay (level + 1)))) f f' := by
      rintro ⟨key, j⟩ hf ⟨key', j'⟩ hf' s s' hs hs' h
      simp only [List.append_assoc] at h
      obtain ⟨hkey, hrest⟩ := eq_of_quote_append (Text.isUtf8_ofString key)
        (Text.isUtf8_ofString key') (List.append_cancel_left h)
      obtain ⟨rfl, rfl⟩ := ih (key, j) hf (hfields' (key', j') hf') _ _ _ hs hs'
        (List.append_cancel_left hrest)
      rw [Text.ofString_injective hkey]
      exact ⟨rfl, rfl⟩
    have hopens : ∀ f, f ∈ fields ∨ f ∈ fields' → ∀ t : Text, ∃ c, Text.Opens
        (lay.gap (level + 1) ++ (quote f.1 ++ (lay.colon ++ f.2.write lay (level + 1))) ++ t) c ∧
          c ∉ [']', '\x7d'] := by
      intro f _ t
      simp only [List.append_assoc]
      exact opens_entry (Text.opens_ofList_append '"' _ _) (by decide) lay (level + 1)
    obtain ⟨rfl, rfl⟩ := Text.eq_of_enclose (lay.isGap level) (.inr rfl) hfield hopens h
    exact ⟨rfl, rfl⟩

/-- A document that can be read back is the only one with its text. -/
theorem Faithful.eq_of_write {j j' : Json} (hj : j.Faithful) (hj' : j'.Faithful) {lay : Layout}
    {level : Nat} (h : j.write lay level = j'.write lay level) : j = j' := by
  have hnil : Text.EndsNumber [] := by
    intro c hc
    rw [Text.symbols_nil] at hc
    cases hc
  exact (hj.tellsApart hj' lay level [] [] hnil hnil (by rw [h])).1

/-! ## §7. Encoding. -/

/-- The ways to encode a document: on one line and over several. -/
def encodings : List (Json → Except Float Text) := [encode, encodeIndented]

theorem encode_eq_ok_iff (j : Json) (t : Text) :
    j.encode = .ok t ↔ j.Writable ∧ j.write .line 0 = t := by
  rw [encode, ← unwritable?_eq_none_iff, ← compact_eq_write]
  cases j.unwritable? <;> simp

theorem encodeIndented_eq_ok_iff (j : Json) (t : Text) :
    j.encodeIndented = .ok t ↔ j.Writable ∧ j.write .lines 0 = t := by
  rw [encodeIndented, ← unwritable?_eq_none_iff, ← indented_eq_write]
  cases j.unwritable? <;> simp

/-- Either way, a document is encoded exactly where its numbers can be written, as its text in
    some layout. -/
theorem exists_layout {enc : Json → Except Float Text} (henc : enc ∈ encodings) :
    ∃ lay : Layout, ∀ j t, enc j = .ok t ↔ j.Writable ∧ j.write lay 0 = t := by
  simp only [encodings, List.mem_cons, List.not_mem_nil, or_false] at henc
  rcases henc with rfl | rfl
  · exact ⟨.line, encode_eq_ok_iff⟩
  · exact ⟨.lines, encodeIndented_eq_ok_iff⟩

end Json

end Scriptorium
