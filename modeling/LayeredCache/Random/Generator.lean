import LayeredCache.Random.Keystream

/-!
# Random numbers from a seed

A generator reads the ChaCha keystream of a key that a seed of 64 bits is expanded to, two words for
a number, the low one first. Numbers below a bound are drawn without a bias: a draw is multiplied by
the bound, the upper half of the product is the result, and draws whose lower half lies above the
greatest multiple that fits are taken again.
-/

namespace LayeredCache

/-- A generator: the key, the counter of the next block, and the words of the last block that were
not yet read. -/
structure Generator where
  key : Vector UInt32 8
  counter : UInt64 := 0
  unread : List UInt32 := []

namespace Generator

/-- One step of the expansion of a seed: the next state and a word. -/
def expand (state : UInt64) : UInt64 × UInt32 :=
  let state := state * 6364136223846793005 + 11634580027462260723
  let word := (((state >>> 18) ^^^ state) >>> 27).toUInt32
  let turn := (state >>> 59).toUInt32
  (state, (word >>> turn) ||| (word <<< ((32 - turn) % 32)))

/-- The words that a seed is expanded to. -/
def expandAll : (count : Nat) → UInt64 → List UInt32
  | 0, _ => []
  | count + 1, state =>
    let r := expand state
    r.2 :: expandAll count r.1

/-- The generator of a seed. -/
def ofSeed (seed : UInt64) : Generator :=
  let words := expandAll 8 seed
  { key := Vector.ofFn fun i => words.getD i 0 }

/-- Draws a number of 64 bits. -/
def next (r : Generator) : UInt64 × Generator :=
  match r.unread with
  | low :: high :: unread => (low.toUInt64 ||| (high.toUInt64 <<< 32), { r with unread := unread })
  | _ =>
    let words := Keystream.block r.key r.counter
    (words[0].toUInt64 ||| (words[1].toUInt64 <<< 32),
      { r with counter := r.counter + 1, unread := words.toList.drop 2 })

/-- The greatest lower half of a product that is accepted for a bound. -/
def zone (bound : Nat) : Nat := bound * Nat.pow 2 (63 - bound.log2) - 1

/-- How many draws are made for a number below a bound before the last one is taken as it is. A draw
is refused less often than every second time. -/
def attempts : Nat := 4096

/-- Draws until a draw is accepted. -/
def drawBelow (bound : Nat) : (fuel : Nat) → Generator → Nat × Generator
  | 0, r => let d := r.next; (d.1.toNat * bound / Nat.pow 2 64, d.2)
  | fuel + 1, r =>
    let d := r.next
    let product := d.1.toNat * bound
    if product % Nat.pow 2 64 ≤ zone bound then (product / Nat.pow 2 64, d.2)
    else drawBelow bound fuel d.2

/-- Draws a number below a positive bound. -/
def below (r : Generator) (bound : Nat) : Nat × Generator := drawBelow bound attempts r

/-- Draws whether something of which `2 ^ 64` draws contain `threshold` cases occurs. -/
def occurs (r : Generator) (threshold : UInt64) : Bool × Generator :=
  let d := r.next
  (d.1 < threshold, d.2)

theorem drawBelow_lt {bound : Nat} (h : 0 < bound) (fuel : Nat) (r : Generator) :
    (drawBelow bound fuel r).1 < bound := by
  have lt (u : UInt64) : u.toNat * bound / Nat.pow 2 64 < bound := by
    have hu := u.toNat_lt
    exact Nat.div_lt_of_lt_mul (Nat.mul_lt_mul_of_pos_right hu h)
  induction fuel generalizing r with
  | zero => exact lt _
  | succ fuel ih =>
    simp only [drawBelow]
    split
    · exact lt _
    · exact ih _

/-- A number below a bound is below it. -/
theorem below_lt {bound : Nat} (h : 0 < bound) (r : Generator) : (r.below bound).1 < bound :=
  drawBelow_lt h _ r

end Generator

end LayeredCache
