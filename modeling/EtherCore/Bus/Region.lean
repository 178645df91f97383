/-!
Regions of bus addresses: what a slave asks for, where it is placed, and the window of a power of
two that the bus decodes for it.  Addresses are 64-bit words; sums and products that leave the
words stay at the greatest word.
-/

namespace EtherCore

/-! ### Sums and products held to a word -/

/-- The greatest 64-bit word. -/
def maxWord : Nat := 0xffffffffffffffff

/-- The sum, or the greatest word where the sum is greater. -/
def addHeld (a b : Nat) : Nat := min (a + b) maxWord

/-- The product, or the greatest word where the product is greater. -/
def mulHeld (a b : Nat) : Nat := min (a * b) maxWord

theorem addHeld_le_maxWord (a b : Nat) : addHeld a b ≤ maxWord := Nat.min_le_right ..

theorem mulHeld_le_maxWord (a b : Nat) : mulHeld a b ≤ maxWord := Nat.min_le_right ..

/-! ### Regions -/

/-- The addresses that a slave asks for. -/
structure Region where
  /-- The first address, unless the bus is to choose it. -/
  origin : Option UInt64
  size : UInt64
  cached : Bool
deriving DecidableEq

/-- The uncached region of receive and transmit buffers of one size each. -/
def Region.ofSlots (receive transmit : UInt32) (slot : UInt64) (origin : Option UInt64) : Region :=
  ⟨origin, UInt64.ofNat (mulHeld (receive.toNat + transmit.toNat) slot.toNat), false⟩

/-- A region at its place on the bus. -/
structure PlacedRegion where
  name : String
  origin : UInt64
  size : UInt64
  cached : Bool
deriving DecidableEq

/-! ### Decoded windows -/

/-- The least power of two that is at least `n` and at least one. -/
def powerAbove (n : Nat) : Nat := if n ≤ 1 then 1 else Nat.pow 2 ((n - 1).log2 + 1)

/-- The size of the window that the bus decodes for a size: the least power of two that holds it,
or the greatest word where that power is no word. -/
def decodeSize (size : UInt64) : Nat := min (powerAbove size.toNat) maxWord

namespace PlacedRegion

/-- The size of the decoded window of a region. -/
def decoded (r : PlacedRegion) : Nat := decodeSize r.size

/-- The address after the decoded window, or the greatest word. -/
def stop (r : PlacedRegion) : Nat := addHeld r.origin.toNat r.decoded

/-- Tells whether the window of `size` addresses from `origin` on meets the decoded window. -/
def overlaps (r : PlacedRegion) (origin size : Nat) : Bool :=
  origin < r.stop && r.origin.toNat < addHeld origin size

end PlacedRegion

theorem powerAbove_pos (n : Nat) : 0 < powerAbove n := by
  unfold powerAbove; split
  · exact Nat.one_pos
  · exact Nat.two_pow_pos _

theorem le_powerAbove (n : Nat) : n ≤ powerAbove n := by
  unfold powerAbove
  split
  · assumption
  · next h =>
    have below : n - 1 < Nat.pow 2 ((n - 1).log2 + 1) := Nat.lt_log2_self
    omega

theorem decodeSize_pos (size : UInt64) : 0 < decodeSize size := by
  have := powerAbove_pos size.toNat
  unfold decodeSize maxWord
  omega

end EtherCore
