/-
  Scriptorium.Proofs.Lexing.Symbols: how the symbols of a text come apart.

  A text is read from the front, one symbol at a time, and what a byte stands for may
  depend on the bytes after it.  The results here say where that does not matter: a
  character is read back from its encoding whatever follows, a text splits before
  every byte that continues no character, and the stretches between two symbols of a
  text have the symbols that they have in the text.

  Main results:
    * `symbols_char_append`: a character in front of a text is its first symbol.
    * `symbols_ofString_append`: a string in front of a text is read as its characters.
    * `symbols_append`: a text splits before a byte that continues nothing.
    * `symbols_ofSymbols_left`, `symbols_ofSymbols_right`: what stands before and after
      a place between two symbols reads as it did in the whole.
-/

import Mathlib.Data.List.Basic
import Scriptorium.Text.Basic

namespace Scriptorium.Text

/-! ## §1. One character. -/

/-- The code point that the encoding of a character spells is its own, whatever comes
    after it. -/
theorem candidate_utf8EncodeChar {c : Char} {b : UInt8} {rest after : Text}
    (h : String.utf8EncodeChar c ++ after = b :: rest) : candidate b rest = c.toNat := by
  have hmax : c.val.toNat < 0x110000 := by
    have hvalid : c.val.toNat < 0xd800 ∨ 0xdfff < c.val.toNat ∧ c.val.toNat < 0x110000 := c.valid
    omega
  unfold String.utf8EncodeChar at h
  show candidate b rest = c.val.toNat
  dsimp only at h
  generalize c.val.toNat = v at h hmax ⊢
  -- one case for each length of an encoding; the first byte tells the length
  split at h
  · cases h
    simp only [candidate, UInt8.lt_iff_toNat_lt, UInt8.toNat_ofNat', UInt8.reduceToNat,
      Nat.reducePow]
    rw [if_pos (by omega)]
    omega
  · split at h
    · cases h
      simp only [candidate, UInt8.lt_iff_toNat_lt, UInt8.toNat_ofNat', UInt8.reduceToNat,
        Nat.reducePow, List.getD_cons_zero, List.append_eq, List.cons_append, List.nil_append]
      rw [if_neg (by omega), if_pos (by omega)]
      omega
    · split at h
      · cases h
        simp only [candidate, UInt8.lt_iff_toNat_lt, UInt8.toNat_ofNat', UInt8.reduceToNat,
          Nat.reducePow, List.getD_cons_zero, List.getD_cons_succ, List.append_eq,
          List.cons_append, List.nil_append]
        rw [if_neg (by omega), if_neg (by omega), if_pos (by omega)]
        omega
      · cases h
        simp only [candidate, UInt8.lt_iff_toNat_lt, UInt8.toNat_ofNat', UInt8.reduceToNat,
          Nat.reducePow, List.getD_cons_zero, List.getD_cons_succ, List.append_eq,
          List.cons_append, List.nil_append]
        rw [if_neg (by omega), if_neg (by omega), if_neg (by omega)]
        omega

/-- A character stands in front of a text exactly where its encoding does. -/
theorem leadingChar_eq_some_iff {b : UInt8} {rest : Text} {c : Char} :
    leadingChar b rest = some c ↔ ∃ after, String.utf8EncodeChar c ++ after = b :: rest := by
  constructor
  · intro h
    exact ⟨_, eq_of_leadingChar h⟩
  · rintro ⟨after, h⟩
    have hchar : Char.ofNat (candidate b rest) = c := by
      rw [candidate_utf8EncodeChar h, Char.ofNat_toNat]
    unfold leadingChar
    dsimp only
    rw [hchar, if_pos]
    exact List.isPrefixOf_iff_prefix.2 ⟨after, h⟩

/-- A character in front of a text is its first symbol. -/
theorem symbols_char_append (c : Char) (after : Text) :
    symbols (String.utf8EncodeChar c ++ after) = .char c :: symbols after := by
  cases h : String.utf8EncodeChar c ++ after with
  | nil =>
    have hlen := congrArg List.length h
    rw [List.length_append, String.length_utf8EncodeChar] at hlen
    have hpos := c.utf8Size_pos
    simp only [List.length_nil] at hlen
    omega
  | cons b rest =>
    have hlead := leadingChar_eq_some_iff.2 ⟨after, h⟩
    -- what is dropped with the character is the rest of its encoding
    have hrest : rest.drop (c.utf8Size - 1) = after := by
      have hsame := (eq_of_leadingChar hlead).trans h.symm
      exact List.append_cancel_left hsame
    rw [symbols]
    split
    · next c' hc =>
      rw [hlead] at hc
      cases hc
      rw [hrest]
    · next hc =>
      rw [hlead] at hc
      cases hc

/-- A byte that begins no character is a symbol of its own. -/
theorem symbols_stray {b : UInt8} {rest : Text} (h : leadingChar b rest = none) :
    symbols (b :: rest) = .stray b :: symbols rest := by
  rw [symbols]
  split
  · next c hc =>
    rw [h] at hc
    cases hc
  · rfl

@[simp]
theorem symbols_nil : symbols [] = [] := by
  rw [symbols]

@[simp]
theorem ofSymbols_cons (s : Symbol) (l : List Symbol) :
    ofSymbols (s :: l) = s.bytes ++ ofSymbols l := by
  simp [ofSymbols]

/-- A string in front of a text is read as its characters. -/
theorem symbols_ofString_append (s : String) (after : Text) :
    (ofString s ++ after).symbols = s.toList.map .char ++ after.symbols := by
  unfold ofString
  induction s.toList with
  | nil => rfl
  | cons c l ih =>
    rw [List.flatMap_cons, List.append_assoc, symbols_char_append, ih, List.map_cons,
      List.cons_append]

/-- The symbols of a string are its characters. -/
theorem symbols_ofString (s : String) : (ofString s).symbols = s.toList.map .char := by
  have hsymbols := symbols_ofString_append s []
  rwa [List.append_nil, symbols_nil, List.append_nil] at hsymbols

/-- The symbols determine the text. -/
theorem eq_of_symbols {s t : Text} (h : s.symbols = t.symbols) : s = t := by
  rw [← ofSymbols_symbols s, h, ofSymbols_symbols]

theorem ofString_injective {s t : String} (h : ofString s = ofString t) : s = t := by
  have hsymbols := congrArg symbols h
  rw [symbols_ofString, symbols_ofString] at hsymbols
  exact String.toList_injective
    (List.map_injective_iff.2 (fun _ _ hc => Symbol.char.inj hc) hsymbols)

/-! ## §2. Stretches between symbols. -/

/-- The first symbol of a text and what comes after it. -/
theorem exists_of_symbols_eq_cons {t : Text} {s : Symbol} {l : List Symbol}
    (h : t.symbols = s :: l) : ∃ rest, t = s.bytes ++ rest ∧ rest.symbols = l ∧
      ∀ b, s = .stray b → leadingChar b rest = none := by
  cases t with
  | nil => rw [symbols_nil] at h; cases h
  | cons b rest =>
    cases hlead : leadingChar b rest with
    | some c =>
      rw [← eq_of_leadingChar hlead, symbols_char_append] at h
      obtain ⟨rfl, hl⟩ := List.cons.inj h
      exact ⟨_, (eq_of_leadingChar hlead).symm, hl, fun _ hs => by cases hs⟩
    | none =>
      rw [symbols_stray hlead] at h
      obtain ⟨rfl, hl⟩ := List.cons.inj h
      refine ⟨rest, rfl, hl, fun _ hs => ?_⟩
      cases hs
      exact hlead

/-- What stands before a place between two symbols reads as it did in the whole. -/
theorem symbols_ofSymbols_left {t : Text} {pre post : List Symbol}
    (h : t.symbols = pre ++ post) : (ofSymbols pre).symbols = pre := by
  induction pre generalizing t with
  | nil => exact symbols_nil
  | cons s pre ih =>
    rw [List.cons_append] at h
    obtain ⟨rest, _, hrest, hstray⟩ := exists_of_symbols_eq_cons h
    rw [ofSymbols_cons]
    cases s with
    | char c =>
      show symbols (String.utf8EncodeChar c ++ ofSymbols pre) = _
      rw [symbols_char_append, ih hrest]
    | stray b =>
      -- a character that the cut text began with would begin the whole text too
      have hcut : leadingChar b (ofSymbols pre) = none := by
        rw [Option.eq_none_iff_forall_ne_some]
        intro c hc
        obtain ⟨after, ha⟩ := leadingChar_eq_some_iff.1 hc
        have hwhole : String.utf8EncodeChar c ++ (after ++ ofSymbols post) = b :: rest := by
          rw [← List.append_assoc, ha, List.cons_append, ← ofSymbols_append, ← hrest,
            ofSymbols_symbols]
        have hlead := hstray b rfl
        rw [leadingChar_eq_some_iff.2 ⟨_, hwhole⟩] at hlead
        cases hlead
      show symbols (b :: ofSymbols pre) = _
      rw [symbols_stray hcut, ih hrest]

/-- What stands after a place between two symbols reads as it did in the whole. -/
theorem symbols_ofSymbols_right {t : Text} {pre post : List Symbol}
    (h : t.symbols = pre ++ post) : (ofSymbols post).symbols = post := by
  induction pre generalizing t with
  | nil =>
    rw [List.nil_append] at h
    rw [← h, ofSymbols_symbols]
  | cons s pre ih =>
    obtain ⟨rest, _, hrest, _⟩ := exists_of_symbols_eq_cons h
    exact ih hrest

/-! ## §3. Where texts can be joined. -/

/-- Whether the byte goes on with a character that began before it. -/
def isContinuation (b : UInt8) : Bool := 0x80 ≤ b && b < 0xC0

/-- Whether a text can stand after any other without changing how that one reads. -/
def StartsFresh (t : Text) : Prop := ∀ b ∈ t.head?, isContinuation b = false

theorem isContinuation_ofNat {n : Nat} (h : n < 256) :
    isContinuation (UInt8.ofNat n) = (decide (0x80 ≤ n) && decide (n < 0xC0)) := by
  simp only [isContinuation, UInt8.le_iff_toNat_le, UInt8.lt_iff_toNat_lt, UInt8.toNat_ofNat',
    UInt8.reduceToNat, Nat.reducePow, Nat.mod_eq_of_lt h]

/-- The first byte of a character begins it, and the others go on with it. -/
theorem utf8EncodeChar_eq_cons (c : Char) : ∃ b tail, String.utf8EncodeChar c = b :: tail ∧
    isContinuation b = false ∧ ∀ x ∈ tail, isContinuation x = true := by
  -- the first byte lies below 0x80 or from 0xC0 on, every other one between
  have hlead : ∀ n, n < 256 → n < 0x80 ∨ 0xC0 ≤ n → isContinuation (UInt8.ofNat n) = false := by
    intro n hn hrange
    rw [isContinuation_ofNat hn, Bool.and_eq_false_iff, decide_eq_false_iff_not,
      decide_eq_false_iff_not]
    omega
  have htail : ∀ n, isContinuation (UInt8.ofNat (n % 0x40 + 0x80)) = true := by
    intro n
    rw [isContinuation_ofNat (by omega), Bool.and_eq_true, decide_eq_true_eq, decide_eq_true_eq]
    omega
  unfold String.utf8EncodeChar
  dsimp only
  generalize c.val.toNat = v
  split
  · exact ⟨_, _, rfl, hlead _ (by omega) (by omega), List.forall_mem_nil _⟩
  · split
    · refine ⟨_, _, rfl, hlead _ (by omega) (by omega), ?_⟩
      exact List.forall_mem_singleton.2 (htail _)
    · split
      · refine ⟨_, _, rfl, hlead _ (by omega) (by omega), ?_⟩
        exact List.forall_mem_cons.2 ⟨htail _, List.forall_mem_singleton.2 (htail _)⟩
      · refine ⟨_, _, rfl, hlead _ (by omega) (by omega), ?_⟩
        exact List.forall_mem_cons.2 ⟨htail _, List.forall_mem_cons.2
          ⟨htail _, List.forall_mem_singleton.2 (htail _)⟩⟩

theorem startsFresh_cons {b : UInt8} {t : Text} (h : isContinuation b = false) :
    StartsFresh (b :: t) := by
  intro x hx
  cases hx
  exact h

/-- A text that begins with a character can stand after any other. -/
theorem startsFresh_char (c : Char) (t : Text) :
    StartsFresh (String.utf8EncodeChar c ++ t) := by
  obtain ⟨b, tail, hc, hb, _⟩ := utf8EncodeChar_eq_cons c
  rw [hc]
  exact startsFresh_cons hb

/-- Bytes that begin no character still begin none before a text that starts fresh. -/
theorem leadingChar_append_eq_none {b : UInt8} {rest t : Text} (h : leadingChar b rest = none)
    (ht : StartsFresh t) : leadingChar b (rest ++ t) = none := by
  rw [Option.eq_none_iff_forall_ne_some]
  intro c hc
  obtain ⟨after, ha⟩ := leadingChar_eq_some_iff.1 hc
  rw [← List.cons_append] at ha
  -- the encoding ends within `b :: rest`, or it goes on with the first byte of `t`
  rcases List.append_eq_append_iff.1 ha with ⟨mid, hmid, _⟩ | ⟨mid, hmid, hafter⟩
  · rw [leadingChar_eq_some_iff.2 ⟨mid, hmid.symm⟩] at h
    cases h
  · cases mid with
    | nil =>
      rw [List.append_nil] at hmid
      rw [leadingChar_eq_some_iff.2 ⟨[], by rw [hmid, List.append_nil]⟩] at h
      cases h
    | cons x mid =>
      obtain ⟨b', tail, hc', _, htail⟩ := utf8EncodeChar_eq_cons c
      rw [hc', List.cons_append] at hmid
      have hx : x ∈ tail := by
        rw [(List.cons.inj hmid).2]
        simp
      have hfresh := ht x (by rw [hafter]; rfl)
      rw [htail x hx] at hfresh
      cases hfresh

/-- **A text splits** before a byte that continues nothing. -/
theorem symbols_append {s t : Text} (ht : StartsFresh t) :
    symbols (s ++ t) = symbols s ++ symbols t := by
  fun_induction symbols s with
  | case1 => rfl
  | case2 b rest c h ih =>
    rw [← eq_of_leadingChar h, List.append_assoc, symbols_char_append, ih, List.cons_append]
  | case3 b rest h ih =>
    rw [List.cons_append, symbols_stray (leadingChar_append_eq_none h ht), ih, List.cons_append]

end Scriptorium.Text
