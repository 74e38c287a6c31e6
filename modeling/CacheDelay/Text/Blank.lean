/-!
# Blank characters

The characters with the Unicode property White_Space, and the removal of such characters from both
ends of a text. Every reader of kernel files and of CPU lists trims with this class.
-/

namespace CacheDelay.Text

/-- The code points with the property White_Space, as inclusive ranges in ascending order. -/
def blankRanges : List (Nat × Nat) :=
  [(0x9, 0xD), (0x20, 0x20), (0x85, 0x85), (0xA0, 0xA0), (0x1680, 0x1680), (0x2000, 0x200A),
    (0x2028, 0x2029), (0x202F, 0x202F), (0x205F, 0x205F), (0x3000, 0x3000)]

/-- Whether `c` is a blank. -/
def isBlank (c : Char) : Bool :=
  blankRanges.any fun range => range.1 ≤ c.toNat && c.toNat ≤ range.2

/-- `cs` without its leading and trailing blanks. -/
def trim (cs : List Char) : List Char :=
  ((cs.dropWhile isBlank).reverse.dropWhile isBlank).reverse

/-- Twenty-five characters are blank. -/
example : blankRanges.foldl (fun n range => n + (range.2 + 1 - range.1)) 0 = 25 := by decide

end CacheDelay.Text
