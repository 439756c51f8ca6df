/-!
# Random draws

One seeded stream of 32-bit words feeds every choice, so a seed fixes everything that follows.  The
words are those of the ChaCha stream cipher with twelve rounds: the seed is stretched to a key, and
the blocks of the stream are numbered from nought.

A draw below a bound multiplies a word by the bound and takes the high half.  To be even it refuses
the words whose low half lies above a zone, and draws again.  Whatever the stream holds, the answer
lies below the bound (`below_lt`).
-/

namespace TemplateGrammar

/-- A place in a stream of random words: the key, the number of the next block, and the words of the
present block that have not been drawn. -/
structure Random where
  key : Vector UInt32 8
  block : UInt64
  ready : List UInt32
  deriving DecidableEq

namespace Random

/-! ### The stream -/

/-- A word turned left. -/
def rotateLeft (x n : UInt32) : UInt32 :=
  (x <<< n) ||| (x >>> (32 - n))

/-- A quarter round on four words of the state. -/
def quarter (s : Vector UInt32 16) (a b c d : Fin 16) : Vector UInt32 16 :=
  let s := s.set a (s[a] + s[b])
  let s := s.set d (rotateLeft (s[d] ^^^ s[a]) 16)
  let s := s.set c (s[c] + s[d])
  let s := s.set b (rotateLeft (s[b] ^^^ s[c]) 12)
  let s := s.set a (s[a] + s[b])
  let s := s.set d (rotateLeft (s[d] ^^^ s[a]) 8)
  let s := s.set c (s[c] + s[d])
  s.set b (rotateLeft (s[b] ^^^ s[c]) 7)

/-- Two rounds: the columns, then the diagonals. -/
def doubleRound (s : Vector UInt32 16) : Vector UInt32 16 :=
  let s := quarter s 0 4 8 12
  let s := quarter s 1 5 9 13
  let s := quarter s 2 6 10 14
  let s := quarter s 3 7 11 15
  let s := quarter s 0 5 10 15
  let s := quarter s 1 6 11 12
  let s := quarter s 2 7 8 13
  quarter s 3 4 9 14

/-- The state a block starts from: the four constants, the key, the number of the block, and two
zeros. -/
def blockStart (key : Vector UInt32 8) (block : UInt64) : Vector UInt32 16 :=
  (#v[0x61707865, 0x3320646e, 0x79622d32, 0x6b206574] : Vector UInt32 4) ++ key ++
    (#v[block.toUInt32, (block >>> 32).toUInt32, 0, 0] : Vector UInt32 4)

/-- The sixteen words of a block. -/
def blockWords (key : Vector UInt32 8) (block : UInt64) : List UInt32 :=
  let start := blockStart key block
  let mixed := Nat.repeat doubleRound 6 start
  (Vector.zipWith (· + ·) mixed start).toList

/-- The words of a key, one after another, from the state that stretches the seed. -/
def keyWords : Nat → UInt64 → List UInt32
  | 0, _ => []
  | n + 1, state =>
    let next := state * 6364136223846793005 + 11634580027462260723
    let mixed := (((next >>> 18) ^^^ next) >>> 27).toUInt32
    let turn := (next >>> 59).toUInt32
    ((mixed >>> turn) ||| (mixed <<< ((32 - turn) % 32))) :: keyWords n next

theorem length_keyWords (n : Nat) (state : UInt64) : (keyWords n state).length = n := by
  induction n generalizing state with
  | zero => rfl
  | succ n ih => rw [keyWords, List.length_cons, ih]

/-- The stream of a seed. -/
def ofSeed (seed : UInt64) : Random :=
  ⟨⟨(keyWords 8 seed).toArray, by rw [List.size_toArray, length_keyWords]⟩, 0, []⟩

/-- The next word. -/
def draw (r : Random) : UInt32 × Random :=
  match r.ready with
  | w :: rest => (w, { r with ready := rest })
  | [] =>
    match blockWords r.key r.block with
    | w :: rest => (w, { r with block := r.block + 1, ready := rest })
    | [] => (0, r)

/-! ### Draws below a bound -/

/-- How often in a row a word may be refused.  Drawing again has no end of its own, and this is one
that it does not come to: at least half of all words are in the zone, and so many refusals in a row
are not to be expected of any stream. -/
def patience : Nat := 1024

/-- A draw below `bound` that takes only words whose low half is at most `zone`. -/
def drawZone (bound zone : Nat) : Nat → Random → Nat × Random
  | 0, r => (r.draw.1.toNat * bound / UInt32.size, r.draw.2)
  | n + 1, r =>
    if r.draw.1.toNat * bound % UInt32.size ≤ zone
      then (r.draw.1.toNat * bound / UInt32.size, r.draw.2)
    else drawZone bound zone n r.draw.2

theorem drawZone_lt {bound : Nat} (h : 0 < bound) (zone n : Nat) (r : Random) :
    (drawZone bound zone n r).1 < bound := by
  have scaled : ∀ w : UInt32, w.toNat * bound / UInt32.size < bound := fun w =>
    Nat.div_lt_of_lt_mul (Nat.mul_lt_mul_of_pos_right w.toNat_lt_size h)
  induction n generalizing r with
  | zero => exact scaled _
  | succ n ih =>
    rw [drawZone]
    split
    · exact scaled _
    · exact ih _

/-- The zone of a draw that places one item: the largest multiple of the bound by a power of two. -/
def placeZone (bound : Nat) : Nat :=
  bound * Nat.pow 2 (31 - bound.log2) - 1

/-- The zone of a draw by weight: the largest multiple of the total. -/
def weightZone (total : Nat) : Nat :=
  UInt32.size - 1 - (UInt32.size - total) % total

/-- An even draw below `bound`, as a shuffle makes it. -/
def below (bound : Nat) (r : Random) : Nat × Random :=
  drawZone bound (placeZone bound) patience r

theorem below_lt {bound : Nat} (h : 0 < bound) (r : Random) : (r.below bound).1 < bound :=
  drawZone_lt h _ _ r

/-- An even draw below the sum of some weights. -/
def belowTotal (total : Nat) (r : Random) : Nat × Random :=
  drawZone total (weightZone total) patience r

theorem belowTotal_lt {total : Nat} (h : 0 < total) (r : Random) : (r.belowTotal total).1 < total :=
  drawZone_lt h _ _ r

/-! ### Shuffling -/

/-- Swap each place from `n` down with one at or below it. -/
def shuffleFrom : Nat → Array Nat → Random → Array Nat × Random
  | 0, xs, r => (xs, r)
  | n + 1, xs, r => shuffleFrom n (xs.swapIfInBounds (n + 1) (r.below (n + 2)).1)
    (r.below (n + 2)).2

theorem shuffleFrom_perm (n : Nat) (xs : Array Nat) (r : Random) :
    (shuffleFrom n xs r).1.Perm xs := by
  induction n generalizing xs r with
  | zero => exact Array.Perm.refl _
  | succ n ih =>
    rw [shuffleFrom]
    refine (ih _ _).trans ?_
    unfold Array.swapIfInBounds
    split
    · split
      · exact Array.swap_perm _ _
      · exact Array.Perm.refl _
    · exact Array.Perm.refl _

/-- The numbers below `count`, shuffled. -/
def shuffled (count : Nat) (r : Random) : List Nat × Random :=
  let out := shuffleFrom (count - 1) (Array.range count) r
  (out.1.toList, out.2)

/-- **A shuffle loses nothing.** -/
theorem shuffled_perm (count : Nat) (r : Random) :
    (r.shuffled count).1.Perm (List.range count) := by
  have h := (shuffleFrom_perm (count - 1) (Array.range count) r).toList
  rwa [Array.toList_range] at h

end Random

end TemplateGrammar
