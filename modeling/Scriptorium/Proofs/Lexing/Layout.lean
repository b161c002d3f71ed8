/-
  Scriptorium.Proofs.Lexing.Layout: where the tokens of a text stand in it.

  A text that can be read is a sequence of pieces, each of them blanks and then the raw
  spelling of a token, with blanks at the end.  The place of every token can be
  computed from the bytes before it, without scanning them: the line from the number of
  line feeds, the column from the number of symbols since the last one.

  Main results:
    * `first_after_eq_placeAfter`: the place that scanning keeps is that of the bytes
      it has passed.
    * `tokenize_lossless`: a text is its tokens and the blanks between them, and every
      token is maximal and knows its place.
-/

import Mathlib.Data.List.DropRight
import Scriptorium.Number.Digits
import Scriptorium.Proofs.Lexing.Scan
import Scriptorium.Proofs.Lexing.Symbols

namespace Scriptorium

/-! ## §1. ASCII bytes. -/

namespace Text

/-- An ASCII byte is the encoding of a character. -/
theorem utf8EncodeChar_of_ascii {b : UInt8} (hb : b < 0x80) :
    String.utf8EncodeChar (Char.ofNat b.toNat) = [b] := by
  have hlt : b.toNat < 128 := UInt8.lt_iff_toNat_lt.1 hb
  have hvalid : b.toNat.isValidChar := .inl (by omega)
  have hcode : (Char.ofNat b.toNat).val.toNat = b.toNat := by
    rw [Char.ofNat, dif_pos hvalid]
    rfl
  unfold String.utf8EncodeChar
  dsimp only
  rw [hcode, if_pos (by omega), UInt8.ofNat_toNat]

theorem leadingChar_of_ascii {b : UInt8} (hb : b < 0x80) (rest : Text) :
    leadingChar b rest = some (Char.ofNat b.toNat) := by
  rw [leadingChar_eq_some_iff]
  refine ⟨rest, ?_⟩
  rw [utf8EncodeChar_of_ascii hb]
  rfl

theorem symbols_ascii_cons {b : UInt8} (hb : b < 0x80) (rest : Text) :
    symbols (b :: rest) = .char (Char.ofNat b.toNat) :: symbols rest := by
  rw [← symbols_char_append, utf8EncodeChar_of_ascii hb]
  rfl

/-- No ASCII byte is stray. -/
theorem not_stray_of_ascii {t : Text} {b : UInt8} (hb : b < 0x80) : .stray b ∉ t.symbols := by
  fun_induction symbols t with
  | case1 => simp
  | case2 _ _ _ _ ih => simpa using ih
  | case3 b' rest h ih =>
    intro hmem
    rcases List.mem_cons.1 hmem with hs | hmem
    · cases hs
      rw [leadingChar_of_ascii hb] at h
      cases h
    · exact ih hmem

/-- An ASCII byte of a symbol is all of it. -/
theorem bytes_of_mem_ascii {s : Symbol} {b : UInt8} (hb : b < 0x80) (h : b ∈ s.bytes) :
    s = .char (Char.ofNat b.toNat) ∨ s = .stray b := by
  cases s with
  | stray x =>
    right
    rw [List.mem_singleton.1 h]
  | char c =>
    left
    obtain ⟨x, tail, hc, _, htail⟩ := utf8EncodeChar_eq_cons c
    have hmem : b ∈ x :: tail := by
      rw [← hc]
      exact h
    rcases List.mem_cons.1 hmem with rfl | hmem
    · -- a character that begins with an ASCII byte is that byte
      have hlead : leadingChar b tail = some c :=
        leadingChar_eq_some_iff.2 ⟨[], by rw [hc, List.append_nil]⟩
      rw [leadingChar_of_ascii hb] at hlead
      cases hlead
      rfl
    · -- and bytes that continue a character are not ASCII
      have hcont := htail b hmem
      simp only [isContinuation, Bool.and_eq_true, decide_eq_true_eq] at hcont
      exact absurd hb (UInt8.not_lt.2 hcont.1)

end Text

/-! ## §2. Places. -/

namespace Text

/-- What stands after the last line feed. -/
def lastLine (t : Text) : Text := t.rtakeWhile (· ≠ 0x0A)

/-- The place just past a text that begins a script: one line for every line feed, and
    one column for every symbol after the last of them. -/
def placeAfter (t : Text) : Position := ⟨1 + t.count 0x0A, 1 + t.lastLine.symbolCount⟩

/-- Whether the text consists of spaces, tabs, line feeds and carriage returns. -/
def IsBlank (t : Text) : Prop := ∀ b ∈ t, b = 0x20 ∨ b = 0x09 ∨ b = 0x0A ∨ b = 0x0D

end Text

/-- A symbol that opens no line. -/
def Symbol.staysOnLine (s : Symbol) : Bool := !s.isChar '\n'

/-- Line and column by counting symbols. -/
theorem Position.first_after (l : List Symbol) : Position.first.after l =
    ⟨1 + l.countP (fun s => s.isChar '\n'), 1 + (l.rtakeWhile Symbol.staysOnLine).length⟩ := by
  induction l using List.reverseRecOn with
  | nil => rfl
  | append_singleton l s ih =>
    rw [Position.after_append, ih]
    show Position.next _ s = _
    unfold Position.next
    -- a line feed resets the column, everything else adds to the last line
    by_cases hs : s.isChar '\n' = true
    · rw [if_pos hs, List.rtakeWhile_concat_neg _ _ _ (by simp [Symbol.staysOnLine, hs])]
      simp [List.countP_append, hs]
      omega
    · rw [if_neg hs, List.rtakeWhile_concat_pos _ _ _ (by simp [Symbol.staysOnLine, hs])]
      simp [List.countP_append, hs]
      omega

namespace Text

/-- A line feed is a symbol by itself, and no other symbol has one in it. -/
theorem lineFeed_bytes {s : Symbol} (hs : s ≠ .stray 0x0A) :
    (s = .char '\n' ∧ s.bytes = [0x0A]) ∨ (s.isChar '\n' = false ∧ 0x0A ∉ s.bytes) := by
  by_cases h : s = .char '\n'
  · left
    subst h
    exact ⟨rfl, rfl⟩
  · right
    refine ⟨by simp [Symbol.isChar, h], fun hmem => ?_⟩
    rcases bytes_of_mem_ascii (by decide) hmem with hc | hc
    · exact h hc
    · exact hs hc

theorem count_lineFeed {l : List Symbol} (h : .stray 0x0A ∉ l) :
    (ofSymbols l).count 0x0A = l.countP (fun s => s.isChar '\n') := by
  induction l with
  | nil => rfl
  | cons s l ih =>
    have hs : s ≠ .stray 0x0A := fun he => h (by rw [he]; exact List.mem_cons_self)
    have hl := ih fun hmem => h (List.mem_cons_of_mem _ hmem)
    rw [ofSymbols_cons, List.count_append, hl, List.countP_cons]
    rcases lineFeed_bytes hs with ⟨rfl, hbytes⟩ | ⟨hline, hbytes⟩
    · rw [hbytes]
      exact Nat.add_comm _ _
    · rw [List.count_eq_zero.2 hbytes, hline]
      simp

theorem lastLine_ofSymbols {l : List Symbol} (h : .stray 0x0A ∉ l) :
    (ofSymbols l).lastLine = ofSymbols (l.rtakeWhile Symbol.staysOnLine) := by
  induction l using List.reverseRecOn with
  | nil => rfl
  | append_singleton l s ih =>
    have hs : s ≠ .stray 0x0A := fun he => h (by simp [he])
    have hl := ih fun hmem => h (List.mem_append_left _ hmem)
    have happend : ofSymbols (l ++ [s]) = ofSymbols l ++ s.bytes := by simp
    unfold lastLine at hl ⊢
    rw [happend]
    rcases lineFeed_bytes hs with ⟨rfl, hbytes⟩ | ⟨hline, hbytes⟩
    · -- a line feed opens an empty line
      rw [hbytes, List.rtakeWhile_concat_neg _ _ _ (by simp),
        List.rtakeWhile_concat_neg _ _ _ (by decide)]
      rfl
    · rw [List.rtakeWhile_concat_pos _ _ _ (by simp [Symbol.staysOnLine, hline]), ofSymbols_append,
        ← hl]
      have hall : ∀ b ∈ s.bytes.reverse, decide (b ≠ 0x0A) = true := by
        intro b hb
        exact decide_eq_true fun he => hbytes (by rw [← he]; exact List.mem_reverse.1 hb)
      simp only [List.rtakeWhile, List.reverse_append, List.takeWhile_append_of_pos hall]
      simp

end Text

/-- **The place that scanning keeps** is that of the bytes it has passed. -/
theorem first_after_eq_placeAfter {t : Text} {pre post : List Symbol}
    (h : t.symbols = pre ++ post) : Position.first.after pre = (Text.ofSymbols pre).placeAfter := by
  -- a stray line feed would be a line that no symbol opens; texts have none
  have hstray : .stray 0x0A ∉ pre := by
    intro hmem
    refine Text.not_stray_of_ascii (t := t) (b := 0x0A) (by decide) ?_
    rw [h]
    exact List.mem_append_left _ hmem
  -- the last line is a stretch of the text between two symbols
  have hline : (Text.ofSymbols (pre.rtakeWhile Symbol.staysOnLine)).symbols =
      pre.rtakeWhile Symbol.staysOnLine := by
    obtain ⟨before, hbefore⟩ := List.rtakeWhile_suffix Symbol.staysOnLine pre
    exact Text.symbols_ofSymbols_right ((Text.symbols_ofSymbols_left h).trans hbefore.symm)
  unfold Text.placeAfter Text.symbolCount
  rw [Position.first_after, Text.count_lineFeed hstray, Text.lastLine_ofSymbols hstray, hline]

/-! ## §3. Tokens in their text. -/

namespace Text

/-- Whether the text is a run of digits, and not an empty one. -/
def IsNumeral (t : Text) : Prop := t ≠ [] ∧ ∀ s ∈ t.symbols, s.isDigit = true

/-- A digit is written with one byte. -/
theorem isDigit_of_mem_bytes {s : Symbol} {b : UInt8} (hs : s.isDigit = true)
    (hb : b ∈ s.bytes) : Number.isDigit b = true := by
  cases s with
  | stray b' => cases hs
  | char c =>
    simp only [Symbol.isDigit, Char.isDigit, Bool.and_eq_true, decide_eq_true_eq] at hs
    have hlow : 48 ≤ c.val.toNat := hs.1
    have hhigh : c.val.toNat ≤ 57 := hs.2
    simp only [Symbol.bytes, String.utf8EncodeChar] at hb
    rw [if_pos (by omega), List.mem_singleton] at hb
    have hbyte : b.toNat = c.val.toNat := by
      rw [hb, UInt8.toNat_ofNat']
      omega
    unfold Number.isDigit
    simp only [Bool.and_eq_true, decide_eq_true_eq, UInt8.le_iff_toNat_le, hbyte]
    exact ⟨hlow, hhigh⟩

/-- A run of digits writes the number that it is read as. -/
theorem IsNumeral.ofText? {t : Text} (h : t.IsNumeral) :
    Number.ofText? t = some (Number.ofDigits t) := by
  refine Number.ofText?_digits h.1 fun b hb => ?_
  rw [← ofSymbols_symbols t] at hb
  obtain ⟨s, hs, hb⟩ := List.mem_flatMap.1 hb
  exact isDigit_of_mem_bytes (h.2 s hs) hb

/-- Whether the text is a word: letters, underscores and digits, no digit first. -/
def IsWord (t : Text) : Prop :=
  ∃ first run, t.symbols = first :: run ∧ first.isWordStart = true ∧
    ∀ s ∈ run, s.isWordPart = true

end Text

namespace Token

/-- What a token is written with: its text, between quotes if it is a string. -/
def raw (t : Token) : Text :=
  match t.kind with
  | .string => 0x22 :: (t.lexeme ++ [0x22])
  | .endOfInput => []
  | _ => t.lexeme

/-- Whether the token is what its kind says and, with `after` next, cannot be longer. -/
def Proper (t : Token) (after : Text) : Prop :=
  match t.kind with
  | .number => t.lexeme.IsNumeral ∧ ¬ GoesOn Symbol.isDigit after.symbols
  | .identifier =>
    t.lexeme.IsWord ∧ ¬ GoesOn Symbol.isWordPart after.symbols ∧
      t.lexeme ≠ "let" ∧ t.lexeme ≠ "const"
  | .letKeyword =>
    t.lexeme.IsWord ∧ ¬ GoesOn Symbol.isWordPart after.symbols ∧ t.lexeme = "let"
  | .constKeyword =>
    t.lexeme.IsWord ∧ ¬ GoesOn Symbol.isWordPart after.symbols ∧ t.lexeme = "const"
  | .string => 0x22 ∉ t.lexeme
  | .endOfInput => False
  | kind => ∃ s : Symbol, t.lexeme = s.bytes ∧ s.mark? = some kind

/-- A mark is written as it stands. -/
theorem raw_ofRaw_mark {s : Symbol} {kind : TokenKind} (h : s.mark? = some kind)
    (pos : Position) (after : Text) :
    (ofRaw kind [s] pos).raw = Text.ofSymbols [s] ∧ (ofRaw kind [s] pos).Proper after := by
  have hkind := Symbol.kind_of_mark? h
  have hlexeme : Text.ofSymbols [s] = s.bytes := by simp
  cases kind <;> first
    | exact absurd (by decide) hkind
    | exact ⟨rfl, _, hlexeme, h⟩

/-- A word is written as it stands, and its kind says which keyword it is. -/
theorem raw_ofRaw_word {word : List Symbol} {pos : Position} {after : Text}
    (hword : (Text.ofSymbols word).IsWord) (hmax : ¬ GoesOn Symbol.isWordPart after.symbols) :
    (ofRaw (wordKind (Text.ofSymbols word)) word pos).raw = Text.ofSymbols word ∧
      (ofRaw (wordKind (Text.ofSymbols word)) word pos).Proper after := by
  unfold wordKind
  split
  · next hlet => exact ⟨rfl, hword, hmax, hlet⟩
  · next hlet =>
    split
    · next hconst => exact ⟨rfl, hword, hmax, hconst⟩
    · next hconst => exact ⟨rfl, hword, hmax, hlet, hconst⟩

/-- **What is spelled as a token is one**, and its raw text is what it was spelled with. -/
theorem raw_ofRaw {kind : TokenKind} {raw after : List Symbol} (h : kind.Spelling raw after)
    {src : Text} {pre : List Symbol} (hsrc : src.symbols = pre ++ (raw ++ after))
    (pos : Position) :
    (ofRaw kind raw pos).raw = Text.ofSymbols raw ∧
      (ofRaw kind raw pos).Proper (Text.ofSymbols after) := by
  -- token and rest are stretches of the text between symbols, so they read as they did
  have hafter : (Text.ofSymbols after).symbols = after := by
    rw [← List.append_assoc] at hsrc
    exact Text.symbols_ofSymbols_right hsrc
  have hraw : (Text.ofSymbols raw).symbols = raw := by
    rw [← List.append_assoc] at hsrc
    exact Text.symbols_ofSymbols_right (Text.symbols_ofSymbols_left hsrc)
  cases h with
  | mark hm => exact raw_ofRaw_mark hm pos (Text.ofSymbols after)
  | number hne hdigits hmax =>
    refine ⟨rfl, ⟨?_, ?_⟩, ?_⟩
    · intro hnil
      rw [show Text.ofSymbols raw = [] from hnil, Text.symbols_nil] at hraw
      exact hne hraw.symm
    · show ∀ s ∈ (Text.ofSymbols raw).symbols, s.isDigit = true
      rw [hraw]
      exact hdigits
    · rw [hafter]
      exact hmax
  | @word first run _ hstart hparts hmax =>
    refine raw_ofRaw_word ⟨first, run, hraw, hstart, hparts⟩ ?_
    rw [hafter]
    exact hmax
  | @string body _ hbody =>
    have hlexeme : lexemeText .string (.quote :: (body ++ [.quote])) = Text.ofSymbols body := by
      simp [lexemeText]
    refine ⟨?_, ?_⟩
    · show 0x22 :: (lexemeText .string (.quote :: (body ++ [.quote])) ++ [0x22]) = _
      rw [hlexeme, Text.ofSymbols_cons, Text.ofSymbols_append]
      rfl
    · show 0x22 ∉ lexemeText .string (.quote :: (body ++ [.quote]))
      rw [hlexeme]
      intro hmem
      obtain ⟨s, hs, hb⟩ := List.mem_flatMap.1 hmem
      -- a quote byte in the body would be a quote, or a stray byte that no text has
      rcases Text.bytes_of_mem_ascii (by decide) hb with rfl | rfl
      · exact hbody _ hs rfl
      · refine Text.not_stray_of_ascii (t := src) (b := 0x22) (by decide) ?_
        rw [hsrc]
        simp [hs]

end Token

/-! ## §4. Texts in pieces. -/

/-- A token and the blanks before it. -/
structure Piece where
  blanks : Text
  token : Token

namespace Piece

/-- The text of a sequence of pieces. -/
def layout (pieces : List Piece) : Text := pieces.flatMap fun p => p.blanks ++ p.token.raw

@[simp]
theorem layout_nil : layout [] = [] := rfl

@[simp]
theorem layout_cons (p : Piece) (pieces : List Piece) :
    layout (p :: pieces) = p.blanks ++ (p.token.raw ++ layout pieces) := by
  simp [layout]

/-- Whether a piece stands between two texts: its blanks are blank, and its token is a
    proper one and knows its place. -/
structure StandsBetween (p : Piece) (before after : Text) : Prop where
  blank : p.blanks.IsBlank
  notEnd : p.token.kind ≠ .endOfInput
  place : p.token.pos = (before ++ p.blanks).placeAfter
  proper : p.token.Proper after

end Piece

theorem Blank.isBlank {blanks : List Symbol} (h : Blank blanks) :
    (Text.ofSymbols blanks).IsBlank := by
  intro b hb
  obtain ⟨s, hs, hmem⟩ := List.mem_flatMap.1 hb
  obtain ⟨c, hc, rfl⟩ := Symbol.isBlank_eq_true_iff.1 (h s hs)
  have hall : Symbol.blankChars.all (fun c => (Symbol.char c).bytes.all fun b =>
      decide (b = 0x20 ∨ b = 0x09 ∨ b = 0x0A ∨ b = 0x0D)) = true := by decide
  exact of_decide_eq_true (List.all_eq_true.1 (List.all_eq_true.1 hall c hc) b hmem)

theorem Text.IsBlank.ascii {b : UInt8} (h : b = 0x20 ∨ b = 0x09 ∨ b = 0x0A ∨ b = 0x0D) :
    b < 0x80 := by
  rcases h with rfl | rfl | rfl | rfl <;> decide

/-- The symbols of a blank text are blank. -/
theorem Text.IsBlank.symbols {t : Text} (h : t.IsBlank) : Blank t.symbols := by
  induction t with
  | nil =>
    rw [Text.symbols_nil]
    exact List.forall_mem_nil _
  | cons b t ih =>
    have hb := h b List.mem_cons_self
    rw [Text.symbols_ascii_cons (Text.IsBlank.ascii hb)]
    refine List.forall_mem_cons.2 ⟨?_, ih fun x hx => h x (List.mem_cons_of_mem _ hx)⟩
    rcases hb with rfl | rfl | rfl | rfl <;> decide

/-- A scan that finishes has cut what it read into pieces.  The invariant is that the
    cursor stands between the symbols `pre` that were passed and those that are left. -/
theorem Cursor.Scans.pieces {c : Cursor} {tokens : List Token} {ending : Ending}
    (h : c.Scans tokens ending) {src : Text} {pre : List Symbol} {stop : Position}
    (hending : ending = .finished stop) (hsrc : src.symbols = pre ++ c.rest)
    (hpos : c.pos = Position.first.after pre) :
    ∃ (pieces : List Piece) (tail : Text), tokens = pieces.map Piece.token ∧
      stop = src.placeAfter ∧ Text.ofSymbols c.rest = Piece.layout pieces ++ tail ∧
      tail.IsBlank ∧ ∀ before p after, pieces = before ++ p :: after →
        p.StandsBetween (Text.ofSymbols pre ++ Piece.layout before)
          (Piece.layout after ++ tail) := by
  induction h generalizing pre with
  | @finished blanks pos hblank =>
    cases hending
    dsimp only at hsrc hpos
    refine ⟨[], Text.ofSymbols blanks, rfl, ?_, rfl, hblank.isBlank, ?_⟩
    · rw [hpos, ← Position.after_append, ← hsrc]
      have hplace := first_after_eq_placeAfter (List.append_nil src.symbols).symm
      rw [hplace, Text.ofSymbols_symbols]
    · intro before p after hnil
      simp at hnil
  | @token blanks raw after pos kind tokens ending hblank hspell _ ih =>
    dsimp only at hsrc hpos
    -- the invariant for the cursor past this token
    have hplace : (pos.after blanks).after raw = Position.first.after (pre ++ blanks ++ raw) := by
      rw [hpos, Position.after_append, Position.after_append]
    have hmore : src.symbols = pre ++ blanks ++ raw ++ after := by
      rw [hsrc]
      simp
    have htoken : src.symbols = (pre ++ blanks) ++ (raw ++ after) := by
      rw [hsrc]
      simp
    obtain ⟨hraw, hproper⟩ := Token.raw_ofRaw hspell htoken (pos.after blanks)
    obtain ⟨pieces, tail, rfl, hstop, hlayout, htail, hall⟩ := ih hending hmore hplace
    dsimp only at hlayout
    refine ⟨⟨Text.ofSymbols blanks, .ofRaw kind raw (pos.after blanks)⟩ :: pieces, tail, rfl,
      hstop, ?_, htail, ?_⟩
    · rw [Piece.layout_cons, hraw]
      simp [hlayout]
    · -- a split of the pieces is at this one or at a later one
      intro before p rest hsplit
      cases before with
      | nil =>
        obtain ⟨rfl, rfl⟩ := List.cons.inj hsplit
        refine ⟨hblank.isBlank, hspell.kind_ne_endOfInput, ?_, ?_⟩
        · show pos.after blanks = _
          rw [hpos, ← Position.after_append, first_after_eq_placeAfter htoken]
          simp
        · rw [← hlayout]
          exact hproper
      | cons q before =>
        rw [List.cons_append] at hsplit
        obtain ⟨rfl, hpieces⟩ := List.cons.inj hsplit
        have hstands := hall before p rest hpieces
        simp only [Text.ofSymbols_append, List.append_assoc] at hstands
        rw [Piece.layout_cons, hraw]
        exact hstands
  | unterminated _ _ => cases hending
  | unrecognized _ _ _ => cases hending

/-- **Tokenizing loses nothing, and every place is exact.**  The text is its pieces and
    blanks; the end of the input stands only at the end, at the place just past the text;
    every other token is preceded by blanks, is what its kind says, is maximal, and has
    the place of the bytes before it. -/
theorem tokenize_lossless {src : Text} {tokens : List Token} (h : tokenize src = .ok tokens) :
    ∃ (pieces : List Piece) (tail : Text),
      tokens = pieces.map Piece.token ++ [.atEnd src.placeAfter] ∧
      src = Piece.layout pieces ++ tail ∧ tail.IsBlank ∧
      ∀ before p after, pieces = before ++ p :: after →
        p.StandsBetween (Piece.layout before) (Piece.layout after ++ tail) := by
  obtain ⟨ts, stop, hscan, rfl⟩ := tokenize_eq_ok_iff.1 h
  obtain ⟨pieces, tail, rfl, rfl, hlayout, htail, hall⟩ :=
    hscan.pieces rfl (List.nil_append src.symbols).symm rfl
  refine ⟨pieces, tail, rfl, ?_, htail, hall⟩
  rw [← hlayout]
  exact (Text.ofSymbols_symbols src).symm

/-- A text with a two-byte character, a stray byte, a line feed and a keyword. -/
theorem tokenize_lossless_stray :
    tokenize [0x22, 0xC3, 0xA9, 0xFF, 0x22, 0x0A, 0x6C, 0x65, 0x74] =
      .ok [⟨.string, [0xC3, 0xA9, 0xFF], ⟨1, 1⟩⟩, ⟨.letKeyword, "let", ⟨2, 1⟩⟩, .atEnd ⟨2, 4⟩] ∧
    ∃ (pieces : List Piece) (tail : Text),
      [⟨.string, [0xC3, 0xA9, 0xFF], ⟨1, 1⟩⟩, ⟨.letKeyword, "let", ⟨2, 1⟩⟩, .atEnd ⟨2, 4⟩] =
        pieces.map Piece.token ++
          [.atEnd (Text.placeAfter [0x22, 0xC3, 0xA9, 0xFF, 0x22, 0x0A, 0x6C, 0x65, 0x74])] ∧
      [0x22, 0xC3, 0xA9, 0xFF, 0x22, 0x0A, 0x6C, 0x65, 0x74] = Piece.layout pieces ++ tail ∧
      tail.IsBlank ∧ ∀ before p after, pieces = before ++ p :: after →
        p.StandsBetween (Piece.layout before) (Piece.layout after ++ tail) := by
  have hsymbols : Text.symbols [0x22, 0xC3, 0xA9, 0xFF, 0x22, 0x0A, 0x6C, 0x65, 0x74] =
      [.char '"', .char 'é', .stray 0xFF, .char '"', .char '\n', .char 'l', .char 'e',
        .char 't'] := by
    show Text.symbols (String.utf8EncodeChar '"' ++ (String.utf8EncodeChar 'é' ++
      (0xFF :: Text.ofString "\"\nlet"))) = _
    rw [Text.symbols_char_append, Text.symbols_char_append, Text.symbols_stray (by decide),
      Text.symbols_ofString]
    decide
  have htokens : tokenize [0x22, 0xC3, 0xA9, 0xFF, 0x22, 0x0A, 0x6C, 0x65, 0x74] =
      .ok [⟨.string, [0xC3, 0xA9, 0xFF], ⟨1, 1⟩⟩, ⟨.letKeyword, "let", ⟨2, 1⟩⟩, .atEnd ⟨2, 4⟩] := by
    unfold tokenize Cursor.ofText
    rw [hsymbols, Cursor.scan_of_token rfl (by decide), Cursor.scan_of_token rfl (by decide),
      Cursor.scan_of_end rfl rfl]
    rfl
  exact ⟨htokens, tokenize_lossless htokens⟩

end Scriptorium
