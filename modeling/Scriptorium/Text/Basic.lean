/-
  Scriptorium.Text.Basic: text as bytes, and the symbols a reader sees in it.

  Scripts, names, string values and messages are byte sequences that need not be
  valid UTF-8.  A reader nevertheless sees symbols: each well-formed UTF-8
  sequence is one character, and every byte that belongs to none stands for
  itself.  Columns, lengths and quoting all count symbols.

  Main results:
    * `ofSymbols_symbols`: reading a text symbol by symbol loses nothing, the
      bytes of its symbols are the text.
    * `length_symbols_le`: a text has at most as many symbols as bytes.
-/

namespace Scriptorium

/-- A text is a sequence of bytes. -/
abbrev Text := List UInt8

namespace Text

/-! ## Texts from strings and numbers -/

/-- The UTF-8 bytes of a string. -/
def ofString (s : String) : Text := s.toList.flatMap String.utf8EncodeChar

instance : Coe String Text := ⟨ofString⟩

/-- The decimal digits of a natural number. -/
def ofNat (n : Nat) : Text := ofString (Nat.repr n)

/-- The decimal digits of an integer, after a minus sign if it is negative. -/
def ofInt : Int → Text
  | .ofNat n => ofNat n
  | .negSucc n => "-" ++ ofNat (n + 1)

/-- Joins the parts, with `sep` between neighbours. -/
def join (sep : Text) : List Text → Text
  | [] => []
  | [t] => t
  | t :: rest => t ++ sep ++ join sep rest

/-- Whether `t` begins with `head`. -/
def startsWith (t head : Text) : Bool := head.isPrefixOf t

/-- Byte-wise lexicographic order. -/
def le : Text → Text → Bool
  | [], _ => true
  | _ :: _, [] => false
  | a :: s, b :: t => if a = b then le s t else decide (a < b)

/-- The parts between occurrences of the byte `b`: one more than there are
    occurrences. -/
def splitOnByte (b : UInt8) : Text → List Text
  | [] => [[]]
  | a :: t =>
    if a = b then [] :: splitOnByte b t
    else
      match splitOnByte b t with
      | [] => [[a]]
      | head :: tail => (a :: head) :: tail

/-- ASCII letters in lower case, every other byte as it is. -/
def lowerAscii (t : Text) : Text :=
  t.map fun b => if 0x41 ≤ b ∧ b ≤ 0x5A then b + 0x20 else b

end Text

/-! ## Symbols -/

/-- What a reader sees at one place of a text. -/
inductive Symbol where
  /-- A character, written as a well-formed UTF-8 sequence. -/
  | char (c : Char)
  /-- A byte that is part of no well-formed sequence. -/
  | stray (b : UInt8)
deriving DecidableEq, Repr

namespace Symbol

/-- The bytes a symbol is written with. -/
def bytes : Symbol → Text
  | .char c => String.utf8EncodeChar c
  | .stray b => [b]

/-- The code point a symbol is reported as: a stray byte counts as the
    replacement character. -/
def code : Symbol → Nat
  | .char c => c.toNat
  | .stray _ => 0xFFFD

/-- The character of a symbol that is one. -/
def char? : Symbol → Option Char
  | .char c => some c
  | .stray _ => none

/-- Whether the symbol is the character `c`. -/
def isChar (s : Symbol) (c : Char) : Bool := s = .char c

end Symbol

namespace Text

/-- The code point that the bytes `b, rest` spell if they begin with a
    well-formed sequence.  Missing bytes count as zero. -/
def candidate (b : UInt8) (rest : Text) : Nat :=
  let low (i : Nat) : Nat := (rest.getD i 0).toNat % 64
  if b < 0x80 then b.toNat
  else if b < 0xE0 then b.toNat % 32 * 64 + low 0
  else if b < 0xF0 then b.toNat % 16 * 4096 + low 0 * 64 + low 1
  else b.toNat % 8 * 262144 + low 0 * 4096 + low 1 * 64 + low 2

/-- The character that the bytes `b, rest` begin with.  The candidate counts only
    if its own encoding is what stands there, which rules out overlong forms,
    surrogates, code points beyond the last and truncated sequences. -/
def leadingChar (b : UInt8) (rest : Text) : Option Char :=
  let c := Char.ofNat (candidate b rest)
  if (String.utf8EncodeChar c).isPrefixOf (b :: rest) then some c else none

/-- The symbols of a text, from the first to the last. -/
def symbols : Text → List Symbol
  | [] => []
  | b :: rest =>
    match leadingChar b rest with
    | some c => .char c :: symbols (rest.drop (c.utf8Size - 1))
    | none => .stray b :: symbols rest
termination_by t => t.length
decreasing_by all_goals simp; try omega

/-- The bytes of a sequence of symbols. -/
def ofSymbols (l : List Symbol) : Text := l.flatMap Symbol.bytes

/-- The number of symbols. -/
def symbolCount (t : Text) : Nat := t.symbols.length

/-- The characters of a text that is valid UTF-8. -/
def toString? (t : Text) : Option String :=
  (t.symbols.mapM Symbol.char?).map String.ofList

/-! ## What was read is what was written -/

/-- The character found at the front of a text is written there. -/
theorem eq_of_leadingChar {b : UInt8} {rest : Text} {c : Char}
    (h : leadingChar b rest = some c) :
    String.utf8EncodeChar c ++ rest.drop (c.utf8Size - 1) = b :: rest := by
  simp only [leadingChar] at h
  split at h
  · next hp =>
    cases h
    obtain ⟨t, ht⟩ := List.isPrefixOf_iff_prefix.1 hp
    have hlen := String.length_utf8EncodeChar (Char.ofNat (candidate b rest))
    have hpos := (Char.ofNat (candidate b rest)).utf8Size_pos
    generalize hk : (Char.ofNat (candidate b rest)).utf8Size = k at hlen hpos ⊢
    generalize String.utf8EncodeChar (Char.ofNat (candidate b rest)) = e at hlen ht ⊢
    cases e with
    | nil => simp at hlen; omega
    | cons a e =>
      simp only [List.cons_append, List.cons.injEq] at ht
      obtain ⟨rfl, rfl⟩ := ht
      simp only [List.length_cons] at hlen
      have : k - 1 = e.length := by omega
      simp [this]
  · cases h

/-- Reading a text symbol by symbol loses nothing. -/
@[simp]
theorem ofSymbols_symbols (t : Text) : ofSymbols t.symbols = t := by
  fun_induction symbols t with
  | case1 => rfl
  | case2 b rest c h ih =>
    have := eq_of_leadingChar h
    simp only [ofSymbols, List.flatMap_cons, Symbol.bytes] at ih ⊢
    rw [ih, this]
  | case3 b rest h ih =>
    simp only [ofSymbols, List.flatMap_cons, Symbol.bytes] at ih ⊢
    rw [ih]; rfl

/-- A text has at most as many symbols as bytes. -/
theorem length_symbols_le (t : Text) : t.symbols.length ≤ t.length := by
  fun_induction symbols t with
  | case1 => simp
  | case2 b rest c h ih =>
    simp only [List.length_cons, List.length_drop] at ih ⊢
    omega
  | case3 b rest h ih =>
    simp only [List.length_cons] at ih ⊢
    omega

@[simp]
theorem ofSymbols_nil : ofSymbols [] = [] := rfl

@[simp]
theorem ofSymbols_append (l r : List Symbol) :
    ofSymbols (l ++ r) = ofSymbols l ++ ofSymbols r := by
  simp [ofSymbols]

end Text

end Scriptorium
