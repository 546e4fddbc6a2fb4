/-!
# Blanks

The characters with the property `White_Space`, and the removal of blanks at both ends.
-/

namespace HostObjects

/-- The characters with the property `White_Space`. -/
def blankChars : List Nat :=
  [0x09, 0x0A, 0x0B, 0x0C, 0x0D, 0x20, 0x85, 0xA0, 0x1680, 0x2000, 0x2001, 0x2002, 0x2003, 0x2004,
   0x2005, 0x2006, 0x2007, 0x2008, 0x2009, 0x200A, 0x2028, 0x2029, 0x202F, 0x205F, 0x3000]

/-- Whether the character is blank. -/
def isBlank (c : Char) : Bool := blankChars.contains c.toNat

/-- The characters without the blanks before the first and after the last other one. -/
def trimBlanks (cs : List Char) : List Char :=
  ((cs.dropWhile isBlank).reverse.dropWhile isBlank).reverse

end HostObjects
