/-
  Scriptorium.Proofs.Printing.Neat: the hand that values are printed in.

  The neat hand writes a blank after commas and colons and inside braces that are not empty,
  and writes natural numbers with all their digits.  What it leaves between two signs depends
  on the marks among them only, so that a sequence of signs is rendered part by part as long
  as no part begins or ends with a mark that its neighbours care about.

  Main results:
    * `Hand.neat_render_after`, `Hand.neat_render_before`: a mark next to a part.
    * `Hand.neat_render_commas`, `Hand.neat_render_list`, `Hand.neat_render_object`: parts with
      commas between them, and brackets or braces around them.
-/

import Scriptorium.Proofs.Numbers.Whole
import Scriptorium.Proofs.Printing.Writing

namespace Scriptorium

/-! ## §1. The neat hand. -/

/-- The marks with a blank after them. -/
def Sign.spacing : List TokenKind := [.comma, .colon, .openBrace]

/-- Whether the neat hand leaves a blank between the signs.  Braces with nothing in them stay
    together. -/
def Sign.isSpaced (a b : Sign) : Bool :=
  a.isWordLike && b.isWordLike ||
    if b.kind = .closeBrace then a.kind ≠ .openBrace else a.kind ∈ Sign.spacing

/-- The hand that values are printed in. -/
noncomputable def Hand.neat : Hand where
  digits x := if Number.isNatural x then Number.text x else Hand.tight.digits x
  gap a b := if a.isSpaced b then [0x20] else []
  digits_numeral := by
    intro run hrun
    by_cases hnatural : Number.isNatural (Number.ofDigits run) = true
    · rw [if_pos hnatural]
      exact Number.ofDigits_text hnatural
    · rw [if_neg hnatural]
      exact Hand.tight.digits_numeral run hrun
  gap_blank := by
    intro a b x hx
    split at hx
    · exact .inl (List.mem_singleton.1 hx)
    · cases hx
  gap_apart := by
    intro a b ha hb
    simp [Sign.isSpaced, ha, hb]

theorem Hand.neat_digits {x : Float} (h : Number.isNatural x = true) :
    Hand.neat.digits x = Number.text x :=
  if_pos h

/-! ## §2. Parts that can stand anywhere. -/

namespace Sign

/-- Whether the signs begin with something else than a closing brace. -/
def BeginsPart (signs : List Sign) : Prop :=
  ∃ first rest, signs = first :: rest ∧ first.kind ≠ .closeBrace

/-- Whether the signs end with something else than a mark with a blank after it. -/
def EndsPart (signs : List Sign) : Prop :=
  ∃ before last, signs = before ++ [last] ∧ last.kind ∉ spacing

theorem BeginsPart.append {l : List Sign} (h : BeginsPart l) (r : List Sign) :
    BeginsPart (l ++ r) := by
  obtain ⟨first, rest, rfl, hfirst⟩ := h
  exact ⟨first, rest ++ r, rfl, hfirst⟩

theorem EndsPart.append {r : List Sign} (h : EndsPart r) (l : List Sign) : EndsPart (l ++ r) := by
  obtain ⟨before, last, rfl, hlast⟩ := h
  exact ⟨l ++ before, last, (List.append_assoc l before [last]).symm, hlast⟩

/-- Whether the signs can stand next to any marks. -/
structure IsPart (signs : List Sign) : Prop where
  begins : BeginsPart signs
  ends : EndsPart signs

theorem IsPart.singleton {kind : TokenKind} (hbegin : kind ≠ .closeBrace) (hend : kind ∉ spacing)
    (lexeme : Text) : IsPart [⟨kind, lexeme⟩] :=
  ⟨⟨_, [], rfl, hbegin⟩, ⟨[], _, rfl, hend⟩⟩

/-- Signs between two marks are a part. -/
theorem IsPart.between {opening closing : Sign} (hbegin : opening.kind ≠ .closeBrace)
    (hend : closing.kind ∉ spacing) (signs : List Sign) :
    IsPart (opening :: (signs ++ [closing])) :=
  ⟨⟨opening, _, rfl, hbegin⟩, ⟨opening :: signs, closing, rfl, hend⟩⟩

theorem IsPart.commas {parts : List (List Sign)} (h : ∀ part ∈ parts, IsPart part)
    (hne : parts ≠ []) : IsPart (commas parts) := by
  induction parts with
  | nil => exact absurd rfl hne
  | cons part rest ih =>
    obtain ⟨hpart, hrest⟩ := List.forall_mem_cons.1 h
    cases rest with
    | nil => exact hpart
    | cons next rest =>
      have hmore := ih hrest (List.cons_ne_nil _ _)
      exact ⟨hpart.begins.append _, (hmore.ends.append [⟨.comma, ","⟩]).append part⟩

end Sign

/-! ## §3. Rendering part by part. -/

namespace Hand

open Sign

theorem render_append (hand : Hand) (before rest : List Sign) (a b : Sign) :
    hand.render (before ++ a :: b :: rest) =
      hand.render (before ++ [a]) ++ (hand.gap a b ++ hand.render (b :: rest)) := by
  induction before with
  | nil => rfl
  | cons s before ih =>
    -- the sign after `s` is the same on both sides
    cases before with
    | nil =>
      show s.raw ++ (hand.gap s a ++ hand.render (a :: b :: rest)) =
        (s.raw ++ (hand.gap s a ++ hand.render [a])) ++ _
      rw [show hand.render (a :: b :: rest) = _ from ih]
      simp only [List.append_assoc, List.nil_append]
    | cons next before =>
      show s.raw ++ (hand.gap s next ++ hand.render (next :: (before ++ a :: b :: rest))) =
        (s.raw ++ (hand.gap s next ++ hand.render (next :: (before ++ [a])))) ++ _
      rw [show hand.render (next :: (before ++ a :: b :: rest)) = _ from ih]
      simp only [List.append_assoc, List.cons_append]

/-- A mark before a part. -/
theorem neat_render_after {a : Sign} {l : List Sign} (ha : a.isWordLike = false)
    (hl : BeginsPart l) :
    neat.render (a :: l) =
      a.raw ++ ((if a.kind ∈ spacing then [0x20] else []) ++ neat.render l) := by
  obtain ⟨b, rest, rfl, hb⟩ := hl
  have hspaced : a.isSpaced b = decide (a.kind ∈ spacing) := by
    unfold isSpaced
    rw [ha, if_neg hb]
    rfl
  show a.raw ++ ((if a.isSpaced b then [0x20] else []) ++ neat.render (b :: rest)) = _
  simp only [hspaced, decide_eq_true_eq]

/-- A mark after a part. -/
theorem neat_render_before {b : Sign} {l : List Sign} (hb : b.isWordLike = false)
    (hl : EndsPart l) (rest : List Sign) :
    neat.render (l ++ b :: rest) = neat.render l ++
      ((if b.kind = .closeBrace then [0x20] else []) ++ neat.render (b :: rest)) := by
  obtain ⟨before, a, rfl, ha⟩ := hl
  have hspaced : a.isSpaced b = decide (b.kind = .closeBrace) := by
    have hbrace : a.kind ≠ .openBrace := by
      intro hkind
      exact ha (by simp [spacing, hkind])
    unfold isSpaced
    rw [hb, Bool.and_false, Bool.false_or]
    by_cases hclose : b.kind = .closeBrace
    · simp [hclose, hbrace]
    · simp [hclose, ha]
  rw [List.append_assoc, List.singleton_append, render_append]
  show _ ++ ((if a.isSpaced b then [0x20] else []) ++ _) = _
  simp only [hspaced, decide_eq_true_eq]

/-- Parts with commas between them. -/
theorem neat_render_commas {parts : List (List Sign)} (h : ∀ part ∈ parts, IsPart part) :
    neat.render (commas parts) = Text.join ", " (parts.map neat.render) := by
  induction parts with
  | nil => rfl
  | cons part rest ih =>
    obtain ⟨hpart, hrest⟩ := List.forall_mem_cons.1 h
    cases rest with
    | nil => rfl
    | cons next rest =>
      have hmore := IsPart.commas hrest (List.cons_ne_nil _ _)
      show neat.render (part ++ ⟨.comma, ","⟩ :: commas (next :: rest)) =
        neat.render part ++ ", " ++ Text.join ", " ((next :: rest).map neat.render)
      rw [neat_render_before rfl hpart.ends, neat_render_after rfl hmore.begins, ih hrest,
        List.append_assoc]
      rfl

/-- A list of parts in the neat hand. -/
theorem neat_render_list {parts : List (List Sign)} (h : ∀ part ∈ parts, IsPart part) :
    neat.render (⟨.openBracket, "["⟩ :: (commas parts ++ [⟨.closeBracket, "]"⟩])) =
      "[" ++ Text.join ", " (parts.map neat.render) ++ "]" := by
  by_cases hne : parts = []
  · rw [hne]
    rfl
  · have hpart := IsPart.commas h hne
    rw [neat_render_after rfl (hpart.begins.append _), neat_render_before rfl hpart.ends,
      neat_render_commas h, List.append_assoc]
    rfl

/-- An object of parts in the neat hand. -/
theorem neat_render_object {parts : List (List Sign)} (h : ∀ part ∈ parts, IsPart part) :
    neat.render (⟨.openBrace, "\x7b"⟩ :: (commas parts ++ [⟨.closeBrace, "\x7d"⟩])) =
      if parts.length = 0 then Text.ofString "\x7b\x7d"
      else "\x7b " ++ Text.join ", " (parts.map neat.render) ++ " \x7d" := by
  by_cases hne : parts = []
  · rw [hne]
    rfl
  · have hpart := IsPart.commas h hne
    have hlength : ¬ parts.length = 0 := fun hzero => hne (List.length_eq_zero_iff.1 hzero)
    rw [if_neg hlength, neat_render_after rfl (hpart.begins.append _),
      neat_render_before rfl hpart.ends, neat_render_commas h, List.append_assoc]
    rfl

end Hand

end Scriptorium
