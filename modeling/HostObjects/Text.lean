/-!
# Texts

A text is a sequence of 16-bit code units. Property names, class names and string values are
texts, so a text may hold surrogates that stand alone: nothing here asks for well-formed Unicode.

Three views are kept apart:

* the units themselves, which decide equality, length and order;
* the characters, got by `Text.chars`, in which every surrogate without a partner reads as the
  replacement character;
* the decimal index, `Text.index?`, of those texts that name a position in an array.

`Text.ofChars` and `Text.chars` are inverse on Unicode text, and `Text.chars` is the one place
where surrogates are paired.
-/

namespace HostObjects

/-- A sequence of 16-bit code units. -/
structure Text where
  /-- The code units, first to last. -/
  units : List UInt16
deriving DecidableEq, Hashable, Inhabited

namespace Text

/-! ### Length and order -/

/-- The text without units. -/
def empty : Text := ⟨[]⟩

/-- The number of code units. -/
def length (t : Text) : Nat := t.units.length

/-- Whether the text has no units. -/
def isEmpty (t : Text) : Bool := t.units.isEmpty

/-- The order of unit sequences: the first difference decides, and a proper beginning comes
first. -/
def compareUnits : List UInt16 → List UInt16 → Ordering
  | [], [] => .eq
  | [], _ :: _ => .lt
  | _ :: _, [] => .gt
  | a :: as, b :: bs =>
    match compare a b with
    | .eq => compareUnits as bs
    | o => o

instance : Ord Text := ⟨fun a b => compareUnits a.units b.units⟩

/-- One text after the other. -/
def append (a b : Text) : Text := ⟨a.units ++ b.units⟩

instance : Append Text := ⟨append⟩

/-! ### Characters -/

/-- Whether a unit opens a surrogate pair. -/
def isLeading (u : UInt16) : Bool := 0xD800 ≤ u.toNat && u.toNat < 0xDC00

/-- Whether a unit closes a surrogate pair. -/
def isTrailing (u : UInt16) : Bool := 0xDC00 ≤ u.toNat && u.toNat < 0xE000

/-- The character read in place of a surrogate that stands alone. -/
def replacement : Char := '\ufffd'

/-- The character of a surrogate pair. -/
def pairChar (lead trail : UInt16) : Char :=
  Char.ofNat (0x10000 + (lead.toNat - 0xD800) * 0x400 + (trail.toNat - 0xDC00))

/-- The character of a unit that is not part of a pair. -/
def loneChar (u : UInt16) : Char :=
  if isLeading u || isTrailing u then replacement else Char.ofNat u.toNat

/-- The units of one character: one below `0x10000`, a surrogate pair from there on. -/
def charUnits (c : Char) : List UInt16 :=
  if c.toNat < 0x10000 then [UInt16.ofNat c.toNat]
  else
    [UInt16.ofNat (0xD800 + (c.toNat - 0x10000) / 0x400),
     UInt16.ofNat (0xDC00 + (c.toNat - 0x10000) % 0x400)]

/-- Pairs surrogates from the left and reads every other unit alone. -/
def decode : List UInt16 → List Char
  | [] => []
  | [u] => [loneChar u]
  | u :: v :: rest =>
    if isLeading u && isTrailing v then pairChar u v :: decode rest
    else loneChar u :: decode (v :: rest)

/-- The characters of the text; a surrogate that stands alone reads as the replacement
character. -/
def chars (t : Text) : List Char := decode t.units

/-- The text of a list of characters. -/
def ofChars (cs : List Char) : Text := ⟨cs.flatMap charUnits⟩

/-- The text of a string. -/
def ofString (s : String) : Text := ofChars s.toList

/-- The string of the text's characters. -/
def toString (t : Text) : String := String.ofList t.chars

instance : ToString Text := ⟨toString⟩

/-- Whether every surrogate is part of a pair. -/
def wellFormedUnits : List UInt16 → Bool
  | [] => true
  | [u] => !(isLeading u || isTrailing u)
  | u :: v :: rest =>
    if isLeading u && isTrailing v then wellFormedUnits rest
    else !(isLeading u || isTrailing u) && wellFormedUnits (v :: rest)

/-- Whether the text holds no surrogate that stands alone. -/
def isWellFormed (t : Text) : Bool := wellFormedUnits t.units

/-- Whether the text is the text of the string `s`. -/
def equalsString (t : Text) (s : String) : Bool := t == ofString s

@[simp] theorem decode_nil : decode [] = [] := rfl

@[simp] theorem ofChars_nil : ofChars [] = empty := rfl

theorem ofChars_cons (c : Char) (cs : List Char) :
    ofChars (c :: cs) = ⟨charUnits c⟩ ++ ofChars cs := rfl

end Text

end HostObjects
