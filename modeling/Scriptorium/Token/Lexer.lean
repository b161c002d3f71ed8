/-
  Scriptorium.Token.Lexer: from text to tokens.

  `lexeme` splits the symbols at the front of a text into one token and the rest;
  `Cursor.next` skips blanks, takes one token and keeps the place; `Cursor.scan`
  takes tokens until the text ends or one cannot be read.  A script's tokens are
  those of `tokenize`.

  Main results:
    * `lexeme_token_append`: a token's symbols and the rest are what was there.
    * `next_rest_lt`: a token takes at least one symbol, which is why scanning
      ends.
-/

import Scriptorium.Error
import Scriptorium.Text.Letter

namespace Scriptorium

/-! ## Classes of symbols -/

namespace Symbol

/-- What may stand between tokens. -/
def isBlank : Symbol → Bool
  | .char c => c = ' ' || c = '\t' || c = '\n' || c = '\r'
  | .stray _ => false

/-- The ASCII digits. -/
def isDigit : Symbol → Bool
  | .char c => c.isDigit
  | .stray _ => false

/-- What a word begins with: a letter or an underscore. -/
def isWordStart : Symbol → Bool
  | .char c => c = '_' || Text.isLetter c.toNat
  | .stray _ => false

/-- What a word goes on with: letters, underscores and digits. -/
def isWordPart (s : Symbol) : Bool := s.isWordStart || s.isDigit

/-- The kind of the one-symbol token a symbol stands for. -/
def mark? : Symbol → Option TokenKind
  | .stray _ => none
  | .char c =>
    match c with
    | '(' => some .openParen
    | ')' => some .closeParen
    | '\x7b' => some .openBrace
    | '\x7d' => some .closeBrace
    | '[' => some .openBracket
    | ']' => some .closeBracket
    | ';' => some .semicolon
    | ',' => some .comma
    | ':' => some .colon
    | '.' => some .dot
    | '+' | '-' | '*' | '/' | '%' => some .binaryOperator
    | '=' => some .equals
    | _ => none

end Symbol

/-- The kind of a word: a keyword or an identifier. -/
def wordKind (word : Text) : TokenKind :=
  if word = Text.ofString "let" then .letKeyword
  else if word = Text.ofString "const" then .constKeyword
  else .identifier

/-! ## One token -/

/-- What stands at the front of a text that does not begin with a blank. -/
inductive Lexeme where
  /-- A token, the symbols it was written with and what follows. -/
  | token (kind : TokenKind) (raw rest : List Symbol)
  /-- A quote without another one after it. -/
  | unterminated
  /-- A symbol that begins no token. -/
  | unrecognized
deriving Repr

/-- The token that begins with the symbol `s`. -/
def lexeme (s : Symbol) (rest : List Symbol) : Lexeme :=
  match s.mark? with
  | some kind => .token kind [s] rest
  | none =>
    if s.isDigit then
      .token .number (s :: rest.takeWhile Symbol.isDigit) (rest.dropWhile Symbol.isDigit)
    else if s.isWordStart then
      -- keywords are words first, so `lets` is no keyword
      let word := s :: rest.takeWhile Symbol.isWordPart
      .token (wordKind (Text.ofSymbols word)) word (rest.dropWhile Symbol.isWordPart)
    else if s.isChar '"' then
      -- there are no escapes: the next quote ends the string
      let body := rest.takeWhile fun t => !t.isChar '"'
      match rest.dropWhile fun t => !t.isChar '"' with
      | [] => .unterminated
      | close :: after => .token .string (s :: body ++ [close]) after
    else .unrecognized

/-- The text a token keeps of the symbols it was written with: all of them, except
    the quotes of a string. -/
def lexemeText (kind : TokenKind) (raw : List Symbol) : Text :=
  match kind with
  | .string => Text.ofSymbols raw.tail.dropLast
  | _ => Text.ofSymbols raw

/-- A token's symbols and the rest are what was there, and it has at least one. -/
theorem lexeme_token_append {s : Symbol} {rest raw after : List Symbol} {kind : TokenKind}
    (h : lexeme s rest = .token kind raw after) : raw ++ after = s :: rest ∧ raw ≠ [] := by
  unfold lexeme at h
  split at h
  · cases h; simp
  · split at h
    · cases h; simp [List.takeWhile_append_dropWhile]
    · split at h
      · cases h; simp [List.takeWhile_append_dropWhile]
      · split at h
        · split at h
          · cases h
          · next close tail hd =>
            cases h
            have := List.takeWhile_append_dropWhile
              (p := fun t : Symbol => !t.isChar '"') (l := rest)
            rw [hd] at this
            simp [this]
        · cases h

/-! ## Token after token -/

/-- A place in a text and the symbols from there on. -/
structure Cursor where
  rest : List Symbol
  pos : Position
deriving Repr

namespace Cursor

/-- The beginning of a text. -/
def ofText (t : Text) : Cursor := ⟨t.symbols, .first⟩

/-- Moves past the blanks. -/
def skipBlanks (c : Cursor) : Cursor :=
  ⟨c.rest.dropWhile Symbol.isBlank, c.pos.after (c.rest.takeWhile Symbol.isBlank)⟩

/-- Reads one token.  At the end of the text, and at a symbol that begins no token,
    the cursor stays where it is; a string without end takes all that is left. -/
def next (c : Cursor) : Except Error Token × Cursor :=
  let c := c.skipBlanks
  match c.rest with
  | [] => (.ok (.atEnd c.pos), c)
  | s :: rest =>
    match lexeme s rest with
    | .token kind raw after =>
      (.ok ⟨kind, lexemeText kind raw, c.pos⟩, ⟨after, c.pos.after raw⟩)
    | .unterminated =>
      (.error ⟨.unterminatedString, c.pos⟩, ⟨[], c.pos.after (s :: rest)⟩)
    | .unrecognized => (.error ⟨.unrecognized s, c.pos⟩, c)

/-- Skipping blanks never adds symbols. -/
theorem skipBlanks_rest_le (c : Cursor) : c.skipBlanks.rest.length ≤ c.rest.length := by
  simpa [skipBlanks] using (List.dropWhile_suffix Symbol.isBlank).length_le

/-- The kinds of tokens other than the end of the input are those that `lexeme`
    gives. -/
theorem lexeme_kind_ne_endOfInput {s : Symbol} {rest raw after : List Symbol}
    {kind : TokenKind} (h : lexeme s rest = .token kind raw after) : kind ≠ .endOfInput := by
  unfold lexeme at h
  split at h
  · next k hk =>
    cases h
    unfold Symbol.mark? at hk
    split at hk
    · cases hk
    · split at hk <;> cases hk <;> decide
  · split at h
    · cases h; decide
    · split at h
      · cases h
        simp only [wordKind]
        split
        · decide
        · split <;> decide
      · split at h
        · split at h
          · cases h
          · cases h; decide
        · cases h

/-- A token takes at least one symbol. -/
theorem next_rest_lt {c after : Cursor} {t : Token} (h : c.next = (.ok t, after))
    (ht : t.kind ≠ .endOfInput) : after.rest.length < c.rest.length := by
  have hle := c.skipBlanks_rest_le
  unfold next at h
  simp only at h
  split at h
  · cases h; exact absurd rfl ht
  · next s rest hs =>
    rw [hs] at hle
    split at h
    · next kind raw rest' hl =>
      cases h
      have ⟨happ, hne⟩ := lexeme_token_append hl
      have hlen := congrArg List.length happ
      have hpos := List.length_pos_iff.2 hne
      simp only [List.length_append] at hlen
      simp only at hle ⊢
      omega
    · cases h
    · cases h

/-- How a scan ends. -/
inductive Ending where
  /-- At the end of the text. -/
  | finished (pos : Position)
  /-- At a token that cannot be read; `after` is where the cursor is left. -/
  | failed (error : Error) (after : Cursor)
deriving Repr

/-- Reads tokens as long as there are any. -/
def scan (c : Cursor) : List Token × Ending :=
  match h : c.next with
  | (.error e, after) => ([], .failed e after)
  | (.ok t, after) =>
    if ht : t.kind = .endOfInput then ([], .finished t.pos)
    else
      have := next_rest_lt h ht
      let (tokens, ending) := after.scan
      (t :: tokens, ending)
termination_by c.rest.length

end Cursor

/-- The tokens of a text, with the end of the input as the last one, or the first
    error. -/
def tokenize (t : Text) : Except Error (List Token) :=
  match (Cursor.ofText t).scan with
  | (tokens, .finished pos) => .ok (tokens ++ [.atEnd pos])
  | (_, .failed e _) => .error e

/-- The outcomes of reading `n` tokens one after the other, also past an error. -/
def Cursor.outcomes : (n : Nat) → Cursor → List (Except Error Token)
  | 0, _ => []
  | n + 1, c =>
    let (outcome, after) := c.next
    outcome :: after.outcomes n

end Scriptorium
