/-
  Scriptorium.Number.Word: integers that fit into a word of sixty-four bits.
-/

namespace Scriptorium.Number

/-- The least integer of a signed word. -/
def leastWord : Int := -0x8000000000000000

/-- The first integer beyond a signed word. -/
def wordBound : Nat := 0x8000000000000000

/-- Whether an integer fits into a signed word. -/
def fitsWord (n : Int) : Bool := leastWord ≤ n && n < wordBound

/-- Whether a natural number fits into an unsigned word. -/
def fitsUnsigned (n : Nat) : Bool := n < 2 * wordBound

end Scriptorium.Number
