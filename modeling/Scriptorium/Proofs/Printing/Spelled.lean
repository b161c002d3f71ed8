/-
  Scriptorium.Proofs.Printing.Spelled: any tokens can be spelled and are read back.

  What a token of each kind may be written with is listed kind by kind, without the
  scanner.  Tokens that are written so can follow one another in any order.  Spaces, tabs,
  line feeds and carriage returns may stand before, between and after them, and have to
  stand only between two numbers and between a word and the word or number after it.

  Main results:
    * `Sign.WellFormed.legible`: what is written as its kind asks for is read as its kind.
    * `tokens_read_back`: the text has just these tokens, and the end of the input.
-/

import Scriptorium.Proofs.Printing.RoundTrip

namespace Scriptorium

/-! ## §1. What tokens are written with. -/

/-- Whether the sign is written as its kind asks for: marks as they are, numbers with ASCII
    digits, words with letters, underscores and digits, strings with anything but quotes. -/
def Sign.WellFormed (s : Sign) : Prop :=
  match s.kind with
  | .openParen => s.lexeme = "("
  | .closeParen => s.lexeme = ")"
  | .openBrace => s.lexeme = "\x7b"
  | .closeBrace => s.lexeme = "\x7d"
  | .openBracket => s.lexeme = "["
  | .closeBracket => s.lexeme = "]"
  | .semicolon => s.lexeme = ";"
  | .comma => s.lexeme = ","
  | .colon => s.lexeme = ":"
  | .dot => s.lexeme = "."
  | .equals => s.lexeme = "="
  | .binaryOperator => s.lexeme ∈ (["+", "-", "*", "/", "%"] : List Text)
  | .number => s.lexeme ≠ [] ∧ ∀ b ∈ s.lexeme, 0x30 ≤ b ∧ b ≤ 0x39
  | .letKeyword => s.lexeme = "let"
  | .constKeyword => s.lexeme = "const"
  | .identifier => s.lexeme.IsName
  | .string => 0x22 ∉ s.lexeme
  | .endOfInput => False

/-- The symbols of ASCII digits are digits. -/
theorem Text.isNumeral_of_bytes {run : Text} (hne : run ≠ [])
    (h : ∀ b ∈ run, 0x30 ≤ b ∧ b ≤ 0x39) : run.IsNumeral := by
  refine ⟨hne, ?_⟩
  clear hne
  induction run with
  | nil =>
    rw [Text.symbols_nil]
    exact List.forall_mem_nil _
  | cons b run ih =>
    obtain ⟨hb, hrun⟩ := List.forall_mem_cons.1 h
    have hlow : 48 ≤ b.toNat := UInt8.le_iff_toNat_le.1 hb.1
    have hhigh : b.toNat ≤ 57 := UInt8.le_iff_toNat_le.1 hb.2
    have hascii : b < 0x80 := by
      rw [UInt8.lt_iff_toNat_lt]
      show b.toNat < 128
      omega
    rw [Text.symbols_ascii_cons hascii]
    refine List.forall_mem_cons.2 ⟨?_, ih hrun⟩
    have hdigits : ∀ n : Fin 10, (Char.ofNat (48 + n.val)).isDigit = true := by decide
    have hdigit := hdigits ⟨b.toNat - 48, by omega⟩
    rw [show 48 + (b.toNat - 48) = b.toNat by omega] at hdigit
    exact hdigit

/-- What is written as its kind asks for is read as its kind. -/
theorem Sign.WellFormed.legible {s : Sign} (h : s.WellFormed) : s.Legible := by
  obtain ⟨kind, text⟩ := s
  cases kind with
  | number => exact .number (Text.isNumeral_of_bytes h.1 h.2)
  | identifier => exact .name h
  | letKeyword =>
    cases (show text = "let" from h)
    exact legible_let
  | constKeyword =>
    cases (show text = "const" from h)
    exact legible_const
  | string => exact .string h
  | binaryOperator => exact legible_operator h
  | endOfInput => exact h.elim
  | equals =>
    cases (show text = "=" from h)
    exact .mark (c := '=') rfl
  | openParen =>
    cases (show text = "(" from h)
    exact .mark (c := '(') rfl
  | closeParen =>
    cases (show text = ")" from h)
    exact .mark (c := ')') rfl
  | openBrace =>
    cases (show text = "\x7b" from h)
    exact .mark (c := '\x7b') rfl
  | closeBrace =>
    cases (show text = "\x7d" from h)
    exact .mark (c := '\x7d') rfl
  | openBracket =>
    cases (show text = "[" from h)
    exact .mark (c := '[') rfl
  | closeBracket =>
    cases (show text = "]" from h)
    exact .mark (c := ']') rfl
  | semicolon =>
    cases (show text = ";" from h)
    exact .mark (c := ';') rfl
  | comma =>
    cases (show text = "," from h)
    exact .mark (c := ',') rfl
  | colon =>
    cases (show text = ":" from h)
    exact .mark (c := ':') rfl
  | dot =>
    cases (show text = "." from h)
    exact .mark (c := '.') rfl

/-! ## §2. Reading back. -/

/-- **Any sequence of tokens can be spelled and is read back.**  Let each token be written as
    its kind asks for, after any spaces, tabs, line feeds and carriage returns, and let there
    be some between a number and a number after it and between a word and a word or number
    after it.  Then the text, with more such blanks at its end, has tokens of just these kinds
    with just these texts, and the end of the input after them. -/
theorem tokens_read_back {pieces : List (Text × Sign)} {tail : Text}
    (hsigns : ∀ p ∈ pieces, p.2.WellFormed) (hspaced : Sign.Spaced pieces)
    (htail : tail.IsBlank) :
    ∃ ts stop, tokenize (Sign.spelled pieces ++ tail) = .ok (ts ++ [.atEnd stop]) ∧
      ts.map Token.sign = pieces.map Prod.snd :=
  Sign.exists_tokens_spelled (fun p hp => (hsigns p hp).legible) hspaced htail

/-- A number, a keyword, a string that ends within a character, a name and a number: blanks
    stand only where they must, and at the end. -/
def crowded : List (Text × Sign) := [
  ([], ⟨.number, "1"⟩), ([], ⟨.letKeyword, "let"⟩), ([], ⟨.string, [0xE2, 0x82]⟩),
  ([], ⟨.identifier, "é"⟩), ([0x0A], ⟨.number, "2"⟩), ([], ⟨.binaryOperator, "%"⟩)]

/-- The crowded text is read as the tokens that it was written with. -/
theorem tokens_read_back_crowded :
    (∀ p ∈ crowded, p.2.WellFormed) ∧ Sign.Spaced crowded ∧ Text.IsBlank [0x0D] ∧
    ∃ ts stop,
      tokenize [0x31, 0x6C, 0x65, 0x74, 0x22, 0xE2, 0x82, 0x22, 0xC3, 0xA9, 0x0A, 0x32, 0x25,
        0x0D] = .ok (ts ++ [.atEnd stop]) ∧
      ts.map Token.sign = [⟨.number, "1"⟩, ⟨.letKeyword, "let"⟩, ⟨.string, [0xE2, 0x82]⟩,
        ⟨.identifier, "é"⟩, ⟨.number, "2"⟩, ⟨.binaryOperator, "%"⟩] := by
  have hname : Text.IsName "é" :=
    ⟨⟨.char 'é', [], Text.symbols_ofString "é", by decide, List.forall_mem_nil _⟩, by decide,
      by decide⟩
  have hone : ∀ b ∈ ([0x31] : Text), 0x30 ≤ b ∧ b ≤ 0x39 :=
    List.forall_mem_singleton.2 (by decide)
  have htwo : ∀ b ∈ ([0x32] : Text), 0x30 ≤ b ∧ b ≤ 0x39 :=
    List.forall_mem_singleton.2 (by decide)
  have hsigns : ∀ p ∈ crowded, p.2.WellFormed := by
    unfold crowded
    simp only [List.forall_mem_cons]
    refine ⟨⟨by decide, hone⟩, rfl, ?_, hname, ⟨by decide, htwo⟩, ?_, List.forall_mem_nil _⟩
    · show (0x22 : UInt8) ∉ ([0xE2, 0x82] : Text)
      decide
    · show Text.ofString "%" ∈ (["+", "-", "*", "/", "%"] : List Text)
      decide
  have hnone : Text.IsBlank [] := List.forall_mem_nil _
  have hline : Text.IsBlank [0x0A] := List.forall_mem_singleton.2 (by decide)
  have hend : Text.IsBlank [0x0D] := List.forall_mem_singleton.2 (by decide)
  have hspaced : Sign.Spaced crowded := by
    refine ⟨?_, by unfold crowded; decide⟩
    unfold crowded
    simp only [List.forall_mem_cons]
    exact ⟨hnone, hnone, hnone, hnone, hline, hnone, List.forall_mem_nil _⟩
  exact ⟨hsigns, hspaced, hend, tokens_read_back hsigns hspaced hend⟩

end Scriptorium
