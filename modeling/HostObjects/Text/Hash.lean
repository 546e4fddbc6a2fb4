import HostObjects.Text

/-!
# Stable hashes

The hash of a text is the 64-bit FNV-1a hash of its units, each unit giving its low byte and then
its high byte. It depends on the units alone, so it is the same in every run.
-/

namespace HostObjects.Text

/-- The hash of no bytes. -/
def hashBasis : UInt64 := 0xcbf29ce484222325

/-- The factor applied after each byte. -/
def hashPrime : UInt64 := 0x00000100000001B3

/-- Takes one byte into the hash. -/
def hashByte (h : UInt64) (byte : Nat) : UInt64 := (h ^^^ UInt64.ofNat byte) * hashPrime

/-- Takes one unit into the hash, low byte first. -/
def hashUnit (h : UInt64) (u : UInt16) : UInt64 :=
  hashByte (hashByte h (u.toNat % 256)) (u.toNat / 256)

/-- The 64-bit hash of the text. -/
def stableHash (t : Text) : UInt64 := t.units.foldl hashUnit hashBasis

end HostObjects.Text
