/-
  Scriptorium.Proofs.Lexing.Scan: what the scanner does, said as rules.

  `kind.Spelling raw after` says which symbols `raw` are a token of the kind when
  `after` comes next; `c.Scans tokens ending` says, rule by rule, what a scan from the
  cursor `c` reads and how it ends.  Neither mentions the functions that scan.

  Main results:
    * `lexeme_eq_token_iff`: one token is read exactly where a spelling stands.
    * `Cursor.scan_eq_iff`: the scanner follows the rules and nothing else.
    * `tokenize_eq_ok_iff`: the tokens of a text are those of a scan that finishes,
      with the end of the input after them.
-/

import Mathlib.Data.List.TakeWhile
import Scriptorium.Token.Lexer

namespace Scriptorium

/-! ## §1. Runs of symbols. -/

/-- Whether a text goes on with a symbol of the class. -/
def GoesOn (p : Symbol → Bool) (after : List Symbol) : Prop := ∃ s ∈ after.head?, p s = true

theorem not_goesOn_nil (p : Symbol → Bool) : ¬ GoesOn p [] := by
  rintro ⟨s, hs, _⟩
  cases hs

theorem not_goesOn_cons {p : Symbol → Bool} {s : Symbol} {after : List Symbol} :
    ¬ GoesOn p (s :: after) ↔ p s = false := by
  simp [GoesOn]

/-- A run ends where the text does not go on with its class. -/
theorem not_goesOn_dropWhile (p : Symbol → Bool) (l : List Symbol) :
    ¬ GoesOn p (l.dropWhile p) := by
  rintro ⟨s, hs, hp⟩
  have hnot := List.head?_dropWhile_not p l
  rw [Option.mem_def.1 hs] at hnot
  simp [hp] at hnot

/-- The run at the front of a text. -/
theorem takeWhile_run {p : Symbol → Bool} {run after : List Symbol} (hrun : ∀ s ∈ run, p s = true)
    (hafter : ¬ GoesOn p after) : (run ++ after).takeWhile p = run := by
  rw [List.takeWhile_append_of_pos hrun]
  cases after with
  | nil => simp
  | cons s after => simp [not_goesOn_cons.1 hafter]

/-- What follows the run at the front of a text. -/
theorem dropWhile_run {p : Symbol → Bool} {run after : List Symbol} (hrun : ∀ s ∈ run, p s = true)
    (hafter : ¬ GoesOn p after) : (run ++ after).dropWhile p = after := by
  rw [List.dropWhile_append_of_pos hrun]
  cases after with
  | nil => rfl
  | cons s after => simp [not_goesOn_cons.1 hafter]

/-! ## §2. The classes of symbols are apart. -/

namespace Symbol

/-- The quote that opens and closes a string. -/
def quote : Symbol := .char '"'

theorem isChar_eq_true_iff {s : Symbol} {c : Char} : s.isChar c = true ↔ s = .char c := by
  simp [isChar]

/-- The characters that are tokens by themselves. -/
def markChars : List Char :=
  ['(', ')', '\x7b', '\x7d', '[', ']', ';', ',', ':', '.', '+', '-', '*', '/', '%', '=']

theorem mem_markChars_of_mark? {s : Symbol} {kind : TokenKind} (h : s.mark? = some kind) :
    ∃ c ∈ markChars, s = .char c := by
  cases s with
  | stray b => cases h
  | char c =>
    refine ⟨c, ?_, rfl⟩
    unfold mark? at h
    dsimp only at h
    split at h
    all_goals first | decide | cases h

/-- The token of a mark is of none of the other kinds. -/
theorem kind_of_mark? {s : Symbol} {kind : TokenKind} (h : s.mark? = some kind) :
    kind ∉ [.number, .identifier, .letKeyword, .constKeyword, .string, .endOfInput] := by
  obtain ⟨c, hc, rfl⟩ := mem_markChars_of_mark? h
  have hall : markChars.all (fun c => decide ((Symbol.char c).mark? ∉
      [some .number, some .identifier, some .letKeyword, some .constKeyword, some .string,
        some .endOfInput])) = true := by decide
  have hkind := of_decide_eq_true (List.all_eq_true.1 hall c hc)
  rw [h] at hkind
  simpa using hkind

/-- A mark is no blank, digit, beginning of a word or quote. -/
theorem classes_of_mark? {s : Symbol} {kind : TokenKind} (h : s.mark? = some kind) :
    s.isBlank = false ∧ s.isDigit = false ∧ s.isWordStart = false ∧ s ≠ quote := by
  obtain ⟨c, hc, rfl⟩ := mem_markChars_of_mark? h
  have hall : markChars.all (fun c => !(Symbol.char c).isBlank && !(Symbol.char c).isDigit &&
      !(Symbol.char c).isWordStart && decide (Symbol.char c ≠ quote)) = true := by decide
  have hc' := List.all_eq_true.1 hall c hc
  simp only [Bool.and_eq_true, Bool.not_eq_true', decide_eq_true_eq] at hc'
  obtain ⟨⟨⟨hblank, hdigit⟩, hstart⟩, hquote⟩ := hc'
  exact ⟨hblank, hdigit, hstart, hquote⟩

theorem mark?_eq_none_of_isDigit {s : Symbol} (h : s.isDigit = true) : s.mark? = none := by
  cases hm : s.mark? with
  | none => rfl
  | some kind => rw [(classes_of_mark? hm).2.1] at h; cases h

theorem mark?_eq_none_of_isWordStart {s : Symbol} (h : s.isWordStart = true) :
    s.mark? = none := by
  cases hm : s.mark? with
  | none => rfl
  | some kind => rw [(classes_of_mark? hm).2.2.1] at h; cases h

/-- A digit is neither an underscore nor a letter. -/
theorem isWordStart_eq_false_of_isDigit {s : Symbol} (h : s.isDigit = true) :
    s.isWordStart = false := by
  cases s with
  | stray b => rfl
  | char c =>
    simp only [isDigit, Char.isDigit, Bool.and_eq_true, decide_eq_true_eq] at h
    obtain ⟨hlo, hhi⟩ := h
    have hlo' : 48 ≤ c.toNat := hlo
    have hhi' : c.toNat ≤ 57 := hhi
    have hne : c ≠ '_' := by
      rintro rfl
      exact absurd hhi' (by decide)
    have hletter : Text.isLetter c.toNat = false := by
      unfold Text.isLetter
      rw [if_pos (by omega)]
      simp
      omega
    simp [isWordStart, hne, hletter]

/-- A quote is nothing else. -/
theorem classes_quote : quote.mark? = none ∧ quote.isDigit = false ∧ quote.isWordStart = false := by
  decide

/-- Whether a token can begin with the symbol. -/
def BeginsToken (s : Symbol) : Prop :=
  s.mark?.isSome = true ∨ s.isDigit = true ∨ s.isWordStart = true ∨ s = quote

/-- The blank characters. -/
def blankChars : List Char := [' ', '\t', '\n', '\r']

theorem isBlank_eq_true_iff {s : Symbol} :
    s.isBlank = true ↔ ∃ c ∈ blankChars, s = .char c := by
  cases s with
  | stray b => simp [isBlank]
  | char c => simp [isBlank, blankChars, or_assoc]

/-- No token begins with a blank. -/
theorem BeginsToken.isBlank {s : Symbol} (h : s.BeginsToken) : s.isBlank = false := by
  rw [← Bool.not_eq_true, isBlank_eq_true_iff]
  rintro ⟨c, hc, rfl⟩
  have hall : blankChars.all (fun c => !(Symbol.char c).mark?.isSome && !(Symbol.char c).isDigit &&
      !(Symbol.char c).isWordStart && decide (Symbol.char c ≠ quote)) = true := by decide
  have hc' := List.all_eq_true.1 hall c hc
  simp only [Bool.and_eq_true, Bool.not_eq_true', decide_eq_true_eq] at hc'
  obtain ⟨⟨⟨hmark, hdigit⟩, hstart⟩, hquote⟩ := hc'
  rcases h with h | h | h | h
  · rw [hmark] at h; cases h
  · rw [hdigit] at h; cases h
  · rw [hstart] at h; cases h
  · exact hquote h

end Symbol

/-! ## §3. The spelling of one token. -/

/-- `kind.Spelling raw after`: the symbols `raw`, with `after` next, are one token of the
    kind.  Numbers and words go on as long as the text does. -/
inductive TokenKind.Spelling : TokenKind → (raw after : List Symbol) → Prop where
  /-- A mark. -/
  | mark {kind s after} (isMark : s.mark? = some kind) : Spelling kind [s] after
  /-- A maximal run of digits. -/
  | number {run after} (nonempty : run ≠ []) (digits : ∀ s ∈ run, s.isDigit = true)
      (maximal : ¬ GoesOn Symbol.isDigit after) : Spelling .number run after
  /-- A maximal run of letters, underscores and digits that begins with no digit. -/
  | word {first run after} (start : first.isWordStart = true)
      (parts : ∀ s ∈ run, s.isWordPart = true) (maximal : ¬ GoesOn Symbol.isWordPart after) :
      Spelling (wordKind (Text.ofSymbols (first :: run))) (first :: run) after
  /-- Anything but quotes between two quotes. -/
  | string {body after} (unquoted : ∀ s ∈ body, s ≠ Symbol.quote) :
      Spelling .string (.quote :: (body ++ [.quote])) after

theorem TokenKind.Spelling.ne_nil {kind : TokenKind} {raw after : List Symbol}
    (h : kind.Spelling raw after) : raw ≠ [] := by
  cases h with
  | number hne _ _ => exact hne
  | _ => exact List.cons_ne_nil _ _

/-- What is read as one token is spelled as one. -/
theorem spelling_of_lexeme {s : Symbol} {rest raw after : List Symbol} {kind : TokenKind}
    (h : lexeme s rest = .token kind raw after) : kind.Spelling raw after := by
  unfold lexeme at h
  split at h
  · next k hk =>
    cases h
    exact .mark hk
  · split at h
    · next hdigit =>
      cases h
      refine .number (List.cons_ne_nil _ _) ?_ (not_goesOn_dropWhile _ _)
      intro t ht
      rcases List.mem_cons.1 ht with rfl | ht
      · exact hdigit
      · exact List.mem_takeWhile_imp ht
    · split at h
      · next hstart =>
        cases h
        exact .word hstart (fun t ht => List.mem_takeWhile_imp ht) (not_goesOn_dropWhile _ _)
      · split at h
        · next hquote =>
          split at h
          · cases h
          · next close tail hd =>
            cases h
            -- the run of the body stopped at a symbol, so that symbol is a quote
            have hstop := not_goesOn_dropWhile (fun t : Symbol => !t.isChar '"') rest
            rw [hd, not_goesOn_cons, Bool.not_eq_false', Symbol.isChar_eq_true_iff] at hstop
            have hs : s = .quote := Symbol.isChar_eq_true_iff.1 hquote
            have hclose : close = .quote := hstop
            rw [hs, hclose]
            refine .string fun t ht => ?_
            have hbody := List.mem_takeWhile_imp ht
            intro hq
            rw [hq] at hbody
            exact absurd hbody (by decide)
        · cases h

/-- What is spelled as one token is read as one. -/
theorem lexeme_of_spelling {s : Symbol} {rest raw after : List Symbol} {kind : TokenKind}
    (happ : raw ++ after = s :: rest) (h : kind.Spelling raw after) :
    lexeme s rest = .token kind raw after := by
  unfold lexeme
  cases h with
  | mark hm =>
    obtain ⟨rfl, rfl⟩ := List.cons.inj happ
    rw [hm]
    rfl
  | number hne hdigits hmax =>
    cases raw with
    | nil => exact absurd rfl hne
    | cons d run =>
      rw [List.cons_append] at happ
      obtain ⟨rfl, rfl⟩ := List.cons.inj happ
      have hd := hdigits d List.mem_cons_self
      have hrun : ∀ t ∈ run, t.isDigit = true := fun t ht => hdigits t (List.mem_cons_of_mem _ ht)
      rw [Symbol.mark?_eq_none_of_isDigit hd]
      dsimp only
      rw [if_pos hd, takeWhile_run hrun hmax, dropWhile_run hrun hmax]
  | @word first run _ hstart hparts hmax =>
    rw [List.cons_append] at happ
    obtain ⟨rfl, rfl⟩ := List.cons.inj happ
    -- numbers are tried before words, and no digit begins a word
    have hdigit : ¬ first.isDigit = true := fun hd => by
      rw [Symbol.isWordStart_eq_false_of_isDigit hd] at hstart
      cases hstart
    rw [Symbol.mark?_eq_none_of_isWordStart hstart]
    dsimp only
    rw [if_neg hdigit, if_pos hstart, takeWhile_run hparts hmax, dropWhile_run hparts hmax]
  | @string body _ hbody =>
    simp only [List.cons_append, List.append_assoc, List.nil_append] at happ
    obtain ⟨rfl, rfl⟩ := List.cons.inj happ
    have hrun : ∀ t ∈ body, (fun t : Symbol => !t.isChar '"') t = true := by
      intro t ht
      have hne : ¬ t = .char '"' := hbody t ht
      simp [Symbol.isChar, hne]
    -- the body is the run up to the first quote
    have hstop : ¬ GoesOn (fun t : Symbol => !t.isChar '"') (Symbol.quote :: after) :=
      not_goesOn_cons.2 (by decide)
    obtain ⟨hmark, hdigit, hstart⟩ := Symbol.classes_quote
    rw [hmark]
    dsimp only
    rw [if_neg (by rw [hdigit]; decide), if_neg (by rw [hstart]; decide), if_pos (by decide),
      takeWhile_run hrun hstop, dropWhile_run hrun hstop]
    rfl

/-- **One token is read exactly where a spelling stands.** -/
theorem lexeme_eq_token_iff {s : Symbol} {rest raw after : List Symbol} {kind : TokenKind} :
    lexeme s rest = .token kind raw after ↔ raw ++ after = s :: rest ∧ kind.Spelling raw after := by
  constructor
  · intro h
    exact ⟨(lexeme_token_append h).1, spelling_of_lexeme h⟩
  · intro ⟨happ, h⟩
    exact lexeme_of_spelling happ h

/-- A string is not terminated where a quote has no other one after it. -/
theorem lexeme_eq_unterminated_iff {s : Symbol} {rest : List Symbol} :
    lexeme s rest = .unterminated ↔ s = .quote ∧ ∀ t ∈ rest, t ≠ Symbol.quote := by
  constructor
  · intro h
    unfold lexeme at h
    split at h
    · cases h
    · split at h
      · cases h
      · split at h
        · cases h
        · split at h
          · next hquote =>
            split at h
            · next hd =>
              refine ⟨Symbol.isChar_eq_true_iff.1 hquote, fun t ht hq => ?_⟩
              have hall := List.dropWhile_eq_nil_iff.1 hd t ht
              rw [hq] at hall
              exact absurd hall (by decide)
            · cases h
          · cases h
  · rintro ⟨rfl, hall⟩
    have hd : rest.dropWhile (fun t : Symbol => !t.isChar '"') = [] := by
      rw [List.dropWhile_eq_nil_iff]
      intro t ht
      have hne : ¬ t = .char '"' := hall t ht
      simp [Symbol.isChar, hne]
    obtain ⟨hmark, hdigit, hstart⟩ := Symbol.classes_quote
    unfold lexeme
    rw [hmark]
    dsimp only
    rw [if_neg (by rw [hdigit]; decide), if_neg (by rw [hstart]; decide), if_pos (by decide), hd]

/-- A symbol is not recognized where no token begins. -/
theorem lexeme_eq_unrecognized_iff {s : Symbol} {rest : List Symbol} :
    lexeme s rest = .unrecognized ↔ ¬ s.BeginsToken := by
  unfold lexeme Symbol.BeginsToken
  cases hm : s.mark? with
  | some kind => simp
  | none =>
    by_cases hd : s.isDigit = true
    · simp [hd]
    by_cases hw : s.isWordStart = true
    · simp [hd, hw]
    by_cases hq : s.isChar '"' = true
    · obtain rfl : s = .quote := Symbol.isChar_eq_true_iff.1 hq
      cases hrest : rest.dropWhile fun t : Symbol => !t.isChar '"' <;> simp [hd, hw, hq]
    · have hquote : s ≠ .quote := fun h => hq (Symbol.isChar_eq_true_iff.2 h)
      simp [hd, hw, hq, hquote]

theorem GoesOn.append {p : Symbol → Bool} {l : List Symbol} (h : GoesOn p l) (r : List Symbol) :
    GoesOn p (l ++ r) := by
  obtain ⟨s, hs, hp⟩ := h
  refine ⟨s, ?_, hp⟩
  rw [List.head?_append, Option.mem_def.1 hs]
  rfl

/-- A token is one too if the text ends earlier, but not within it. -/
theorem TokenKind.Spelling.of_append {kind : TokenKind} {raw after more : List Symbol}
    (h : kind.Spelling raw (after ++ more)) : kind.Spelling raw after := by
  cases h with
  | mark hm => exact .mark hm
  | number hne hdigits hmax => exact .number hne hdigits fun hon => hmax (hon.append more)
  | word hstart hparts hmax => exact .word hstart hparts fun hon => hmax (hon.append more)
  | string hbody => exact .string hbody

/-! ## §4. Token after token. -/

/-- Whether all symbols are blank. -/
def Blank (blanks : List Symbol) : Prop := ∀ s ∈ blanks, s.isBlank = true

/-- A token of the kind that is written with the symbols `raw` and begins at `pos`. -/
def Token.ofRaw (kind : TokenKind) (raw : List Symbol) (pos : Position) : Token :=
  ⟨kind, lexemeText kind raw, pos⟩

theorem TokenKind.Spelling.beginsToken {kind : TokenKind} {s : Symbol} {raw after : List Symbol}
    (h : kind.Spelling (s :: raw) after) : s.BeginsToken := by
  cases h with
  | mark hm => exact .inl (by simp [hm])
  | number _ hdigits _ => exact .inr (.inl (hdigits s List.mem_cons_self))
  | word hstart _ _ => exact .inr (.inr (.inl hstart))
  | string _ => exact .inr (.inr (.inr rfl))

theorem TokenKind.Spelling.kind_ne_endOfInput {kind : TokenKind} {raw after : List Symbol}
    (h : kind.Spelling raw after) : kind ≠ .endOfInput := by
  cases raw with
  | nil => exact absurd rfl h.ne_nil
  | cons s raw => exact Cursor.lexeme_kind_ne_endOfInput (lexeme_of_spelling rfl h)

namespace Cursor

/-- `c.Scans tokens ending`: from the cursor the tokens are read, and then the scan ends.
    What comes before a token, before the end and before a fault is blank. -/
inductive Scans : Cursor → List Token → Ending → Prop where
  /-- Nothing but blanks is left. -/
  | finished {blanks pos} (blank : Blank blanks) :
      Scans ⟨blanks, pos⟩ [] (.finished (pos.after blanks))
  /-- One token, and then what the rest gives. -/
  | token {blanks raw after pos kind tokens ending} (blank : Blank blanks)
      (spelling : kind.Spelling raw after)
      (more : Scans ⟨after, (pos.after blanks).after raw⟩ tokens ending) :
      Scans ⟨blanks ++ (raw ++ after), pos⟩ (.ofRaw kind raw (pos.after blanks) :: tokens) ending
  /-- A quote without another one. -/
  | unterminated {blanks body pos} (blank : Blank blanks)
      (unquoted : ∀ s ∈ body, s ≠ Symbol.quote) :
      Scans ⟨blanks ++ .quote :: body, pos⟩ []
        (.failed ⟨.unterminatedString, pos.after blanks⟩
          ⟨[], (pos.after blanks).after (.quote :: body)⟩)
  /-- A symbol that begins no token. -/
  | unrecognized {blanks s rest pos} (blank : Blank blanks) (notBlank : s.isBlank = false)
      (begins : ¬ s.BeginsToken) :
      Scans ⟨blanks ++ s :: rest, pos⟩ []
        (.failed ⟨.unrecognized s, pos.after blanks⟩ ⟨s :: rest, pos.after blanks⟩)

/-- Skipping blanks stops where something else stands. -/
theorem skipBlanks_eq {blanks rest : List Symbol} {pos : Position} (hblank : Blank blanks)
    (hrest : ¬ GoesOn Symbol.isBlank rest) :
    skipBlanks ⟨blanks ++ rest, pos⟩ = ⟨rest, pos.after blanks⟩ := by
  unfold skipBlanks
  rw [takeWhile_run hblank hrest, dropWhile_run hblank hrest]

/-- Every text is blank up to some place where it is not. -/
theorem exists_blank_append (l : List Symbol) :
    ∃ blanks rest, l = blanks ++ rest ∧ Blank blanks ∧ ¬ GoesOn Symbol.isBlank rest :=
  ⟨l.takeWhile Symbol.isBlank, l.dropWhile Symbol.isBlank, List.takeWhile_append_dropWhile.symm,
    fun _ hs => List.mem_takeWhile_imp hs, not_goesOn_dropWhile _ _⟩

/-- What `next` does at the end of the text. -/
theorem next_of_blank {blanks : List Symbol} {pos : Position} (hblank : Blank blanks) :
    next ⟨blanks, pos⟩ = (.ok (.atEnd (pos.after blanks)), ⟨[], pos.after blanks⟩) := by
  have hskip : skipBlanks ⟨blanks ++ [], pos⟩ = ⟨[], pos.after blanks⟩ :=
    skipBlanks_eq hblank (not_goesOn_nil _)
  rw [List.append_nil] at hskip
  unfold next
  rw [hskip]

/-- What `next` does where something stands that is not blank. -/
theorem next_of_cons {blanks rest : List Symbol} {s : Symbol} {pos : Position}
    (hblank : Blank blanks) (hs : s.isBlank = false) :
    next ⟨blanks ++ s :: rest, pos⟩ =
      match lexeme s rest with
      | .token kind raw after =>
        (.ok (.ofRaw kind raw (pos.after blanks)), ⟨after, (pos.after blanks).after raw⟩)
      | .unterminated =>
        (.error ⟨.unterminatedString, pos.after blanks⟩,
          ⟨[], (pos.after blanks).after (s :: rest)⟩)
      | .unrecognized =>
        (.error ⟨.unrecognized s, pos.after blanks⟩, ⟨s :: rest, pos.after blanks⟩) := by
  unfold next
  rw [skipBlanks_eq hblank (not_goesOn_cons.2 hs)]
  dsimp only
  cases lexeme s rest <;> rfl

theorem scan_of_error {c after : Cursor} {e : Error} (h : c.next = (.error e, after)) :
    c.scan = ([], .failed e after) := by
  rw [scan]
  split
  · next h' => rw [h] at h'; cases h'; rfl
  · next h' => rw [h] at h'; cases h'

theorem scan_of_end {c after : Cursor} {t : Token} (h : c.next = (.ok t, after))
    (ht : t.kind = .endOfInput) : c.scan = ([], .finished t.pos) := by
  rw [scan]
  split
  · next h' => rw [h] at h'; cases h'
  · next h' =>
    rw [h] at h'
    cases h'
    rw [dif_pos ht]

theorem scan_of_token {c after : Cursor} {t : Token} (h : c.next = (.ok t, after))
    (ht : t.kind ≠ .endOfInput) : c.scan = (t :: after.scan.1, after.scan.2) := by
  rw [scan]
  split
  · next h' => rw [h] at h'; cases h'
  · next h' =>
    rw [h] at h'
    cases h'
    rw [dif_neg ht]

theorem next_of_token {blanks raw after : List Symbol} {pos : Position} {kind : TokenKind}
    (hblank : Blank blanks) (h : kind.Spelling raw after) :
    next ⟨blanks ++ (raw ++ after), pos⟩ =
      (.ok (.ofRaw kind raw (pos.after blanks)), ⟨after, (pos.after blanks).after raw⟩) := by
  cases raw with
  | nil => exact absurd rfl h.ne_nil
  | cons s raw =>
    have hlex : lexeme s (raw ++ after) = .token kind (s :: raw) after := lexeme_of_spelling rfl h
    rw [List.cons_append, next_of_cons hblank h.beginsToken.isBlank, hlex]

/-- The rules describe a scan. -/
theorem Scans.scan_eq {c : Cursor} {tokens : List Token} {ending : Ending}
    (h : c.Scans tokens ending) : c.scan = (tokens, ending) := by
  induction h with
  | finished hblank => exact scan_of_end (next_of_blank hblank) rfl
  | token hblank hspell _ ih =>
    rw [scan_of_token (next_of_token hblank hspell) hspell.kind_ne_endOfInput, ih]
  | unterminated hblank hbody =>
    refine scan_of_error ?_
    rw [next_of_cons hblank (by decide), lexeme_eq_unterminated_iff.2 ⟨rfl, hbody⟩]
  | unrecognized hblank hs hbegins =>
    refine scan_of_error ?_
    rw [next_of_cons hblank hs, lexeme_eq_unrecognized_iff.2 hbegins]

/-- From everywhere the rules lead to an end. -/
theorem exists_scans (l : List Symbol) (pos : Position) :
    ∃ tokens ending, Scans ⟨l, pos⟩ tokens ending := by
  obtain ⟨blanks, rest, hl, hblank, hend⟩ := exists_blank_append l
  cases rest with
  | nil =>
    rw [hl, List.append_nil]
    exact ⟨[], _, .finished hblank⟩
  | cons s rest =>
    cases hlex : lexeme s rest with
    | token kind raw after =>
      obtain ⟨happ, hspell⟩ := lexeme_eq_token_iff.1 hlex
      rw [← happ] at hl
      -- the recursion ends because a token takes at least one symbol
      have hshorter : after.length < l.length := by
        have hpos := List.length_pos_iff.2 hspell.ne_nil
        rw [hl, List.length_append, List.length_append]
        omega
      obtain ⟨tokens, ending, hmore⟩ := exists_scans after ((pos.after blanks).after raw)
      rw [hl]
      exact ⟨_, ending, .token hblank hspell hmore⟩
    | unterminated =>
      obtain ⟨rfl, hbody⟩ := lexeme_eq_unterminated_iff.1 hlex
      rw [hl]
      exact ⟨[], _, .unterminated hblank hbody⟩
    | unrecognized =>
      rw [hl]
      exact ⟨[], _, .unrecognized hblank (not_goesOn_cons.1 hend)
        (lexeme_eq_unrecognized_iff.1 hlex)⟩
termination_by l.length

/-- **The scanner follows the rules and nothing else.** -/
theorem scan_eq_iff {c : Cursor} {tokens : List Token} {ending : Ending} :
    c.scan = (tokens, ending) ↔ c.Scans tokens ending := by
  constructor
  · intro h
    -- the rules lead somewhere, and what they lead to is what the scan gives
    obtain ⟨tokens', ending', hscans⟩ := exists_scans c.rest c.pos
    rw [hscans.scan_eq] at h
    cases h
    exact hscans
  · exact Scans.scan_eq

/-- No token that is read is the end of the input. -/
theorem Scans.kind_ne_endOfInput {c : Cursor} {tokens : List Token} {ending : Ending}
    (h : c.Scans tokens ending) : ∀ t ∈ tokens, t.kind ≠ .endOfInput := by
  induction h with
  | token _ hspell _ ih =>
    intro t ht
    rcases List.mem_cons.1 ht with rfl | ht
    · exact hspell.kind_ne_endOfInput
    · exact ih t ht
  | _ =>
    intro t ht
    cases ht

end Cursor

/-- **The tokens of a text** are those of a scan that finishes, and the end of the input. -/
theorem tokenize_eq_ok_iff {source : Text} {tokens : List Token} :
    tokenize source = .ok tokens ↔ ∃ ts stop,
      (Cursor.ofText source).Scans ts (.finished stop) ∧ tokens = ts ++ [.atEnd stop] := by
  unfold tokenize
  constructor
  · intro h
    split at h
    · next ts stop hscan =>
      cases h
      exact ⟨ts, stop, Cursor.scan_eq_iff.1 hscan, rfl⟩
    · cases h
  · rintro ⟨ts, stop, hscan, rfl⟩
    rw [Cursor.scan_eq_iff.2 hscan]

/-- The error of a text is that of a scan that fails. -/
theorem tokenize_eq_error_iff {source : Text} {e : Error} :
    tokenize source = .error e ↔ ∃ ts after,
      (Cursor.ofText source).Scans ts (.failed e after) := by
  unfold tokenize
  constructor
  · intro h
    split at h
    · cases h
    · next ts e' after hscan =>
      cases h
      exact ⟨ts, after, Cursor.scan_eq_iff.1 hscan⟩
  · rintro ⟨ts, after, hscan⟩
    rw [Cursor.scan_eq_iff.2 hscan]

end Scriptorium
