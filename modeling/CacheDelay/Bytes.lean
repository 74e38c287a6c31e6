/-!
# Little-endian words

Unsigned numbers as bytes, lowest byte first, and lists cut into blocks.
-/

namespace CacheDelay

/-- The `width` lowest bytes of `n`, lowest first. -/
def littleEndian : Nat → Nat → List UInt8
  | 0, _ => []
  | width + 1, n => UInt8.ofNat n :: littleEndian width (n / 256)

/-- The number whose bytes, lowest first, are `bytes`. -/
def ofLittleEndian : List UInt8 → Nat
  | [] => 0
  | b :: rest => b.toNat + 256 * ofLittleEndian rest

/-- The `width` bytes of `bytes` from `offset` on. -/
def slice (bytes : List UInt8) (offset width : Nat) : List UInt8 :=
  (bytes.drop offset).take width

/-- `bytes` with `word` in place of what stood from `offset` on. -/
def overwrite (bytes : List UInt8) (offset : Nat) (word : List UInt8) : List UInt8 :=
  bytes.take offset ++ word ++ bytes.drop (offset + word.length)

/-- The first `count` blocks of `size` items of a list. -/
def blocks {α : Type} (size : Nat) : Nat → List α → List (List α)
  | 0, _ => []
  | count + 1, items => items.take size :: blocks size count (items.drop size)

/-- A list cut into blocks of `size` items, the last one perhaps shorter. -/
def chunks {α : Type} (size : Nat) (items : List α) : List (List α) :=
  blocks size ((items.length + size - 1) / size) items

end CacheDelay
