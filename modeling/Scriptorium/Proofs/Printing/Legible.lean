/-
  Scriptorium.Proofs.Printing.Legible: signs that are written can be read.

  A sign is `Legible` if it is spelled as its kind requires.  Legible signs, set next
  to each other, are read back as the same signs in the same order, with any blanks
  between them and with none, as long as a number is kept apart from a number before
  it, and a word or a number from a word before it.  Nothing else runs together.

  Main results:
    * `Sign.Legible.spelling`: a legible sign is one token before anything that it does
      not go on with.
    * `Sign.exists_tokens_spelled`: signs that are spelled with blanks where they would
      run together are the tokens of the text.
    * `Hand.tokenize_render`: what any hand renders is read as what it rendered.
-/

import Scriptorium.Proofs.Printing.Writing

namespace Scriptorium

/-! ## §1. Legible signs. -/

/-- Whether a sign is spelled as its kind requires. -/
inductive Sign.Legible : Sign → Prop where
  | mark {c kind} (isMark : (Symbol.char c).mark? = some kind) :
      Legible ⟨kind, String.utf8EncodeChar c⟩
  | number {run : Text} (isNumeral : run.IsNumeral) : Legible ⟨.number, run⟩
  | word {word : Text} (isWord : word.IsWord) : Legible ⟨wordKind word, word⟩
  | string {text : Text} (unquoted : 0x22 ∉ text) : Legible ⟨.string, text⟩

theorem Symbol.isChar_of_class {s : Symbol} (h : s.isDigit = true ∨ s.isWordStart = true) :
    ∃ c, s = .char c := by
  cases s with
  | char c => exact ⟨c, rfl⟩
  | stray b => rcases h with h | h <;> cases h

/-- A text whose first symbol is a character can stand after any other. -/
theorem Text.startsFresh_of_symbols {t : Text} {c : Char} {l : List Symbol}
    (h : t.symbols = .char c :: l) (after : Text) : StartsFresh (t ++ after) := by
  obtain ⟨rest, ht, _, _⟩ := exists_of_symbols_eq_cons h
  rw [ht, List.append_assoc]
  exact startsFresh_char c (rest ++ after)

/-- The symbols between and with the quotes of a string. -/
theorem symbols_quoted (text : Text) :
    Text.symbols (0x22 :: (text ++ [0x22])) = .quote :: (text.symbols ++ [.quote]) := by
  have hquote : Text.symbols [0x22] = [.quote] := Text.symbols_ofString "\""
  show Text.symbols (String.utf8EncodeChar '"' ++ (text ++ [0x22])) = _
  rw [Text.symbols_char_append, Text.symbols_append (Text.startsFresh_cons (by decide)), hquote]
  rfl

theorem quote_notMem_symbols {text : Text} (h : 0x22 ∉ text) :
    ∀ s ∈ text.symbols, s ≠ Symbol.quote := by
  rintro s hs rfl
  have hmem : 0x22 ∈ Text.ofSymbols text.symbols :=
    List.mem_flatMap.2 ⟨.quote, hs, List.mem_singleton.2 rfl⟩
  rw [Text.ofSymbols_symbols] at hmem
  exact h hmem

theorem Text.IsNumeral.symbols_eq_cons {t : Text} (h : t.IsNumeral) :
    ∃ c l, t.symbols = .char c :: l := by
  cases hs : t.symbols with
  | nil =>
    have hnil := t.ofSymbols_symbols
    rw [hs] at hnil
    exact absurd hnil.symm h.1
  | cons s l =>
    have hdigit := h.2 s (by rw [hs]; exact List.mem_cons_self)
    obtain ⟨c, rfl⟩ := Symbol.isChar_of_class (.inl hdigit)
    exact ⟨c, l, rfl⟩

namespace Sign

/-- The kinds of words are written as they stand. -/
theorem raw_word (word : Text) : raw ⟨wordKind word, word⟩ = word := by
  unfold wordKind
  split
  · rfl
  · split <;> rfl

/-- Marks are written as they stand. -/
theorem raw_mark {s : Symbol} {kind : TokenKind} (h : s.mark? = some kind) (text : Text) :
    raw ⟨kind, text⟩ = text := by
  have hkind := Symbol.kind_of_mark? h
  cases kind <;> first
    | exact absurd (by decide) hkind
    | rfl

/-- The text of a token that is no string is all that was written. -/
theorem lexemeText_of_ne_string {kind : TokenKind} (h : kind ≠ .string) (text : Text) :
    lexemeText kind text.symbols = text := by
  have hall : lexemeText kind text.symbols = Text.ofSymbols text.symbols := by
    unfold lexemeText
    split
    · exact absurd rfl h
    · rfl
  rw [hall, Text.ofSymbols_symbols]

/-- Whether the sign is a word. -/
def isWord (s : Sign) : Bool :=
  s.kind = .identifier || s.kind = .letKeyword || s.kind = .constKeyword

/-- What the sign goes on with where the text does: a number with digits, a word with
    letters, underscores and digits, and anything else with nothing. -/
def takes (s : Sign) (next : Symbol) : Bool :=
  if s.kind = .number then next.isDigit else s.isWord && next.isWordPart

/-- Whether the second sign, right after the first, is read as more of it: a number after a
    number, and a word or a number after a word. -/
def runsInto (a b : Sign) : Bool :=
  (a.kind = .number && b.kind = .number) || (a.isWord && b.isWordLike)

theorem isWordLike_eq (s : Sign) : s.isWordLike = (s.isWord || decide (s.kind = .number)) := by
  unfold isWordLike isWord
  rw [Bool.or_comm _ (decide (s.kind = .number)), Bool.or_assoc, Bool.or_assoc, Bool.or_assoc]

/-- Only words and numbers run together. -/
theorem isWordLike_of_runsInto {a b : Sign} (h : a.runsInto b = true) :
    a.isWordLike = true ∧ b.isWordLike = true := by
  rw [isWordLike_eq a, isWordLike_eq b]
  rcases Bool.or_eq_true_iff.1 h with h | h
  · obtain ⟨ha, hb⟩ := Bool.and_eq_true_iff.1 h
    simp [ha, hb]
  · obtain ⟨ha, hb⟩ := Bool.and_eq_true_iff.1 h
    rw [isWordLike_eq] at hb
    exact ⟨by simp [ha], hb⟩

/-- A word is a word, whichever of the three kinds it has. -/
theorem kind_word (word : Text) :
    isWord ⟨wordKind word, word⟩ = true ∧ wordKind word ≠ .number ∧ wordKind word ≠ .string := by
  unfold wordKind
  split
  · exact ⟨rfl, by decide, by decide⟩
  · split <;> exact ⟨rfl, by decide, by decide⟩

/-- A legible sign is one token before anything that it does not go on with. -/
theorem Legible.spelling {s : Sign} (h : s.Legible) {after : List Symbol}
    (hafter : ¬ GoesOn s.takes after) :
    s.kind.Spelling s.raw.symbols after ∧ lexemeText s.kind s.raw.symbols = s.lexeme := by
  cases h with
  | @mark c kind hm =>
    have hstring : kind ≠ .string := fun hk => Symbol.kind_of_mark? hm (by simp [hk])
    have hone := Text.symbols_char_append c []
    rw [List.append_nil, Text.symbols_nil] at hone
    rw [raw_mark hm]
    refine ⟨?_, lexemeText_of_ne_string hstring _⟩
    rw [hone]
    exact .mark hm
  | @number run hrun =>
    have hstring : TokenKind.number ≠ .string := by decide
    refine ⟨.number ?_ hrun.2 hafter, lexemeText_of_ne_string hstring _⟩
    obtain ⟨c, l, hs⟩ := hrun.symbols_eq_cons
    show run.symbols ≠ []
    rw [hs]
    exact List.cons_ne_nil _ _
  | @word word hword =>
    obtain ⟨first, run, hs, hstart, hparts⟩ := hword
    -- the kind is read off the text, so the text has to be rebuilt from its symbols
    have hback : Text.ofSymbols (first :: run) = word := by rw [← hs, Text.ofSymbols_symbols]
    obtain ⟨hword, hnumber, hstring⟩ := kind_word word
    have hmax : ¬ GoesOn Symbol.isWordPart after := by
      rintro ⟨d, hd, hpart⟩
      exact hafter ⟨d, hd, by simp [takes, hnumber, hword, hpart]⟩
    rw [raw_word]
    refine ⟨?_, lexemeText_of_ne_string hstring _⟩
    show (wordKind word).Spelling word.symbols after
    rw [hs, ← hback]
    exact .word hstart hparts hmax
  | @string text htext =>
    have hraw : (raw ⟨.string, text⟩).symbols = .quote :: (text.symbols ++ [.quote]) :=
      symbols_quoted text
    rw [hraw]
    refine ⟨.string (quote_notMem_symbols htext), ?_⟩
    simp [lexemeText]

/-- A legible sign begins with a character, with a digit if it is a number and with the
    beginning of a word if it is one. -/
theorem Legible.raw_symbols_eq_cons {s : Sign} (h : s.Legible) :
    ∃ c l, s.raw.symbols = .char c :: l ∧
      (Symbol.char c).isDigit = decide (s.kind = .number) ∧
      (Symbol.char c).isWordStart = s.isWord := by
  cases h with
  | @mark c kind hm =>
    obtain ⟨_, hdigit, hstart, _⟩ := Symbol.classes_of_mark? hm
    have hkind := Symbol.kind_of_mark? hm
    refine ⟨c, [], ?_, ?_, ?_⟩
    · rw [raw_mark hm, ← List.append_nil (String.utf8EncodeChar c), Text.symbols_char_append,
        Text.symbols_nil]
    · rw [hdigit]
      cases kind <;> first
        | rfl
        | exact absurd (by decide) hkind
    · rw [hstart]
      cases kind <;> first
        | rfl
        | exact absurd (by decide) hkind
  | @number run hrun =>
    obtain ⟨c, l, hs⟩ := hrun.symbols_eq_cons
    have hdigit : (Symbol.char c).isDigit = true := hrun.2 _ (by rw [hs]; exact List.mem_cons_self)
    exact ⟨c, l, hs, hdigit, Symbol.isWordStart_eq_false_of_isDigit hdigit⟩
  | @word word hword =>
    obtain ⟨first, run, hs, hstart, _⟩ := hword
    obtain ⟨c, rfl⟩ := Symbol.isChar_of_class (.inr hstart)
    have hdigit : (Symbol.char c).isDigit = false := by
      rw [← Bool.not_eq_true]
      intro hd
      rw [Symbol.isWordStart_eq_false_of_isDigit hd] at hstart
      cases hstart
    obtain ⟨hword, hnumber, _⟩ := kind_word word
    refine ⟨c, run, by rw [raw_word, hs], ?_, ?_⟩
    · rw [hdigit]
      exact (decide_eq_false hnumber).symm
    · rw [hstart, hword]
  | string _ => exact ⟨'"', _, symbols_quoted _, rfl, rfl⟩

/-- Two signs that do not run together: the first does not go on with the second. -/
theorem Legible.not_goesOn {s next : Sign} (h : next.Legible) (hapart : s.runsInto next = false)
    (after : List Symbol) : ¬ GoesOn s.takes (next.raw.symbols ++ after) := by
  obtain ⟨c, l, hs, hdigit, hstart⟩ := h.raw_symbols_eq_cons
  rw [hs]
  apply not_goesOn_cons.2
  obtain ⟨hnumbers, hwords⟩ := Bool.or_eq_false_iff.1 hapart
  unfold takes
  split
  · next hnumber =>
    rw [hdigit]
    simpa [hnumber] using hnumbers
  · rw [Symbol.isWordPart, hstart, hdigit, ← isWordLike_eq]
    exact hwords

end Sign

/-! ## §2. Signs with blanks before them. -/

/-- Words do not go on with blanks. -/
theorem Symbol.isWordPart_of_isBlank {s : Symbol} (h : s.isBlank = true) :
    s.isWordPart = false := by
  obtain ⟨c, hc, rfl⟩ := isBlank_eq_true_iff.1 h
  have hall : blankChars.all (fun c => !(Symbol.char c).isWordPart) = true := by decide
  simpa using List.all_eq_true.1 hall c hc

namespace Sign

/-- No sign goes on with a blank. -/
theorem takes_of_isBlank (s : Sign) {b : Symbol} (h : b.isBlank = true) : s.takes b = false := by
  have hpart := Symbol.isWordPart_of_isBlank h
  have hdigit : b.isDigit = false := (Bool.or_eq_false_iff.1 hpart).2
  unfold takes
  rw [hdigit, hpart, Bool.and_false, ite_self]

theorem not_goesOn_blank {s : Sign} {blanks after : List Symbol} (hblank : Blank blanks)
    (h : blanks = [] → ¬ GoesOn s.takes after) : ¬ GoesOn s.takes (blanks ++ after) := by
  cases blanks with
  | nil => exact h rfl
  | cons b blanks => exact not_goesOn_cons.2 (s.takes_of_isBlank (hblank b List.mem_cons_self))

/-- Signs next to each other, each after the blanks that it is given with. -/
def spelled (pieces : List (Text × Sign)) : Text := pieces.flatMap fun p => p.1 ++ p.2.raw

@[simp]
theorem spelled_cons (blanks : Text) (s : Sign) (rest : List (Text × Sign)) :
    spelled ((blanks, s) :: rest) = blanks ++ (s.raw ++ spelled rest) := by
  simp [spelled]

/-- Whether there is nothing but blanks between the signs, and some where two of them would
    run together. -/
structure Spaced (pieces : List (Text × Sign)) : Prop where
  blank : ∀ p ∈ pieces, p.1.IsBlank
  apart : pieces.IsChain fun a b => a.2.runsInto b.2 = true → b.1 ≠ []

theorem Spaced.tail {p : Text × Sign} {rest : List (Text × Sign)} (h : Spaced (p :: rest)) :
    Spaced rest :=
  ⟨fun q hq => h.blank q (List.mem_cons_of_mem p hq), h.apart.of_cons⟩

end Sign

/-- Blanks can stand after any text, before what can. -/
theorem Text.IsBlank.startsFresh {blanks after : Text} (h : blanks.IsBlank)
    (hafter : StartsFresh after) : StartsFresh (blanks ++ after) := by
  cases blanks with
  | nil => exact hafter
  | cons b blanks =>
    apply Text.startsFresh_cons
    rcases h b List.mem_cons_self with rfl | rfl | rfl | rfl <;> decide

namespace Sign

section Spelled

variable {pieces : List (Text × Sign)} {tail : Text}

/-- What is spelled can stand after any text. -/
theorem startsFresh_spelled (hall : ∀ p ∈ pieces, p.2.Legible)
    (hblank : ∀ p ∈ pieces, p.1.IsBlank) (htail : tail.IsBlank) :
    Text.StartsFresh (spelled pieces ++ tail) := by
  cases pieces with
  | nil =>
    have hnil : Text.StartsFresh [] := fun b hb => nomatch hb
    have hfresh := htail.startsFresh hnil
    rw [List.append_nil] at hfresh
    exact hfresh
  | cons p rest =>
    obtain ⟨c, l, hs, _⟩ := (hall p List.mem_cons_self).raw_symbols_eq_cons
    rw [spelled_cons, List.append_assoc, List.append_assoc]
    apply (hblank p List.mem_cons_self).startsFresh
    exact Text.startsFresh_of_symbols hs _

/-- A sign does not go on with what is spelled after it. -/
theorem not_goesOn_spelled {s : Sign} {blanks : Text} (hall : ∀ p ∈ pieces, p.2.Legible)
    (hspaced : Spaced ((blanks, s) :: pieces)) (htail : tail.IsBlank) :
    ¬ GoesOn s.takes (spelled pieces ++ tail).symbols := by
  cases pieces with
  | nil =>
    have hend := not_goesOn_blank (s := s) htail.symbols fun _ => not_goesOn_nil s.takes
    rw [List.append_nil] at hend
    exact hend
  | cons p rest =>
    obtain ⟨gap, next⟩ := p
    obtain ⟨hnext, hrest⟩ := List.forall_mem_cons.1 hall
    have hgap : gap.IsBlank := hspaced.blank (gap, next) (by simp)
    have hfresh := startsFresh_spelled hrest hspaced.tail.tail.blank htail
    obtain ⟨c, l, hs, _⟩ := hnext.raw_symbols_eq_cons
    rw [spelled_cons, List.append_assoc, List.append_assoc,
      Text.symbols_append (Text.startsFresh_of_symbols hs _), Text.symbols_append hfresh]
    apply not_goesOn_blank hgap.symbols
    -- without blanks the two signs must not run together
    intro hnone
    have hempty : gap = [] := by
      rw [← Text.ofSymbols_symbols gap, hnone]
      rfl
    have hapart : s.runsInto next = false := by
      rw [← Bool.not_eq_true]
      intro hjoin
      exact (List.isChain_cons_cons.1 hspaced.apart).1 hjoin hempty
    exact hnext.not_goesOn hapart _

/-- **Spelled signs are scanned as what they are.**  The induction is on the signs; what
    comes after the first of them does not go on with it. -/
theorem exists_scans_spelled (hall : ∀ p ∈ pieces, p.2.Legible) (hspaced : Spaced pieces)
    (htail : tail.IsBlank) (pos : Position) :
    ∃ ts stop, Cursor.Scans ⟨(spelled pieces ++ tail).symbols, pos⟩ ts (.finished stop) ∧
      ts.map Token.sign = pieces.map Prod.snd := by
  induction pieces generalizing pos with
  | nil => exact ⟨[], pos.after tail.symbols, .finished htail.symbols, rfl⟩
  | cons p rest ih =>
    obtain ⟨blanks, s⟩ := p
    obtain ⟨hs, hrest⟩ := List.forall_mem_cons.1 hall
    have hblank : blanks.IsBlank := hspaced.blank (blanks, s) List.mem_cons_self
    have hfresh := startsFresh_spelled hrest hspaced.tail.blank htail
    obtain ⟨hspell, hlexeme⟩ := hs.spelling (not_goesOn_spelled hrest hspaced htail)
    obtain ⟨ts, stop, hscan, hts⟩ := ih hrest hspaced.tail
      ((pos.after blanks.symbols).after s.raw.symbols)
    have hsymbols : (spelled ((blanks, s) :: rest) ++ tail).symbols =
        blanks.symbols ++ (s.raw.symbols ++ (spelled rest ++ tail).symbols) := by
      obtain ⟨c, l, hfirst, _⟩ := hs.raw_symbols_eq_cons
      rw [spelled_cons, List.append_assoc, List.append_assoc,
        Text.symbols_append (Text.startsFresh_of_symbols hfirst _), Text.symbols_append hfresh]
    rw [hsymbols]
    refine ⟨_, stop, .token hblank.symbols hspell hscan, ?_⟩
    simp only [List.map_cons, Token.sign, Token.ofRaw, hlexeme]
    rw [← hts]

/-- Spelled signs are the tokens of the text. -/
theorem exists_tokens_spelled (hall : ∀ p ∈ pieces, p.2.Legible) (hspaced : Spaced pieces)
    (htail : tail.IsBlank) :
    ∃ ts stop, tokenize (spelled pieces ++ tail) = .ok (ts ++ [.atEnd stop]) ∧
      ts.map Token.sign = pieces.map Prod.snd := by
  obtain ⟨ts, stop, hscan, hts⟩ := exists_scans_spelled hall hspaced htail Position.first
  exact ⟨ts, stop, tokenize_eq_ok_iff.2 ⟨ts, stop, hscan, rfl⟩, hts⟩

end Spelled

end Sign

/-! ## §3. Rendered signs. -/

namespace Hand

variable (hand : Hand)

/-- The signs after another one, each with the blanks that the hand leaves before it. -/
def spaced (hand : Hand) : Sign → List Sign → List (Text × Sign)
  | _, [] => []
  | s, next :: rest => (hand.gap s next, next) :: hand.spaced next rest

theorem render_eq_spelled (s : Sign) (rest : List Sign) :
    hand.render (s :: rest) = Sign.spelled (([], s) :: hand.spaced s rest) := by
  induction rest generalizing s with
  | nil =>
    rw [Sign.spelled_cons]
    exact (List.append_nil _).symm
  | cons next rest ih =>
    rw [render, ih next, spaced, Sign.spelled_cons, Sign.spelled_cons, Sign.spelled_cons]
    rfl

theorem map_snd_spaced (s : Sign) (rest : List Sign) :
    (hand.spaced s rest).map Prod.snd = rest := by
  induction rest generalizing s with
  | nil => rfl
  | cons next rest ih => rw [spaced, List.map_cons, ih]

/-- A hand leaves blanks where signs would run together. -/
theorem spaced_cons (blanks : Text) (hblanks : blanks.IsBlank) (s : Sign) (rest : List Sign) :
    Sign.Spaced ((blanks, s) :: hand.spaced s rest) := by
  induction rest generalizing s blanks with
  | nil => exact ⟨List.forall_mem_singleton.2 hblanks, .singleton _⟩
  | cons next rest ih =>
    have hmore := ih (hand.gap s next) (hand.gap_blank s next) next
    refine ⟨List.forall_mem_cons.2 ⟨hblanks, hmore.blank⟩, ?_⟩
    refine List.isChain_cons_cons.2 ⟨?_, hmore.apart⟩
    intro hjoin
    obtain ⟨hs, hnext⟩ := Sign.isWordLike_of_runsInto hjoin
    exact hand.gap_apart s next hs hnext

/-- Rendered signs are the tokens of the text. -/
theorem tokenize_render {signs : List Sign} (hall : ∀ s ∈ signs, Sign.Legible s) :
    ∃ ts stop, tokenize (hand.render signs) = .ok (ts ++ [.atEnd stop]) ∧
      ts.map Token.sign = signs := by
  have hnone : Text.IsBlank [] := List.forall_mem_nil _
  cases signs with
  | nil =>
    exact Sign.exists_tokens_spelled (List.forall_mem_nil _) ⟨List.forall_mem_nil _, .nil⟩ hnone
  | cons s rest =>
    have hpieces : (([], s) :: hand.spaced s rest).map Prod.snd = s :: rest := by
      rw [List.map_cons, hand.map_snd_spaced]
    have hlegible : ∀ p ∈ ([], s) :: hand.spaced s rest, p.2.Legible := by
      intro p hp
      apply hall
      rw [← hpieces]
      exact List.mem_map_of_mem hp
    have hread := Sign.exists_tokens_spelled hlegible (hand.spaced_cons [] hnone s rest) hnone
    rw [List.append_nil, ← hand.render_eq_spelled, hpieces] at hread
    exact hread

end Hand

end Scriptorium
