import KeyedSchema.Text.Cells
import KeyedSchema.Text.EmojiClass

/-!
# EmojiSequence — emoji that melt into one picture

A skin tone melts into the emoji in front of it, two letters of a flag into the flag, and emoji
with joiners between them into one picture. As in `Ligature`, a text is read from its end.
-/

namespace KeyedSchema

namespace Text

/-! ## Parts of sequences -/

def isSkinTone (c : Char) : Bool := 0x1f3fb ≤ c.toNat && c.toNat ≤ 0x1f3ff

/-- Whether a character is one of the letters of which two make a flag. -/
def isFlagLetter (c : Char) : Bool := 0x1f1e6 ≤ c.toNat && c.toNat ≤ 0x1f1ff

/-- The black flag, which is the base of flags that are spelled with tags. -/
def isTaggedFlag (c : Char) : Bool := c.toNat == 0x1f3f4

def isTagLetter (c : Char) : Bool := 0xe0061 ≤ c.toNat && c.toNat ≤ 0xe007a

def isTagDigit (c : Char) : Bool := 0xe0030 ≤ c.toNat && c.toNat ≤ 0xe0039

/-- Whether a character is the tag after the last one of a flag. -/
def isTagEnd (c : Char) : Bool := c.toNat == 0xe007f

/-- The mark that makes a key of a digit. -/
def keycap : Char := '\u20e3'

/-- Whether a character is drawn as a picture where nothing asks otherwise. -/
def isEmoji (c : Char) : Bool :=
  inClass emojiPresentation c && !isFlagLetter c && !isSkinTone c

/-- Whether a character is drawn as a picture where the selector asks for it. -/
def canBeEmoji (c : Char) : Bool := inClass emojiOrSign c || inClass emojiByRequest c

/-- Whether a picture is drawn as a narrow sign where the selector asks for it. Enclosed ideographs
stay wide. -/
def canBeSign (c : Char) : Bool :=
  inClass emojiOrSign c && !(0x1f200 ≤ c.toNat && c.toNat ≤ 0x1f2ff)

/-! ## Reading from the end -/

/-- What a sequence of emoji begins with, as far as it changes the width of what stands in front. -/
inductive EmojiTail
  | emoji
  | skinTone
  | flagLetters (count : Nat)
  /-- A joiner with an emoji after it. -/
  | joined
  /-- A keycap with a joiner and an emoji after it. -/
  | joinedKeycap
  /-- Letters of flags with a joiner and an emoji after them. -/
  | joinedFlagLetters (count : Nat)
  /-- The tags of a flag, from the last one on, with a joiner and an emoji after them. They are at
  most six letters or, in front of at most four letters, three digits. -/
  | joinedTags (letters digits : Nat)
  deriving DecidableEq, Repr

namespace EmojiTail

/-- What a single character begins a sequence with. -/
def ofChar? (c : Char) : Option EmojiTail :=
  if isSkinTone c then some .skinTone
  else if isFlagLetter c then some (.flagLetters 1)
  else if isEmoji c then some .emoji
  else none

/-- Whether a joiner is waiting for an emoji that the selector asks for. -/
def keepsSelector : EmojiTail → Bool
  | joined => true
  | joinedKeycap => true
  | _ => false

/-- The tags of a flag with another tag in front. -/
def consTag? (c : Char) (letters digits : Nat) : Option EmojiTail :=
  if isTagLetter c ∧ digits = 0 ∧ letters < 6 then some (.joinedTags (letters + 1) 0)
  else if isTagDigit c ∧ digits < 3 ∧ (digits = 0 → letters ≤ 4) then
    some (.joinedTags letters (digits + 1))
  else none

/-- Whether the tags of a flag are complete. -/
def isTagged (letters digits : Nat) : Bool := digits == 3 || (digits == 0 && 3 ≤ letters)

/-- The cells that a character adds in front of a sequence that it is part of, and what the
sequence begins with then. Flags that are joined to an emoji take no cells of their own; the second
letter of such a flag takes back the cell of the first. -/
def cons? (c : Char) : EmojiTail → Option (Int × EmojiTail)
  | emoji => if c = joiner then some (0, .joined) else none
  | skinTone =>
      if inClass emojiModifierBase c then some (0, .emoji)
      else if c = joiner then some (0, .joined)
      else none
  | flagLetters count =>
      if isFlagLetter c then some (1, .flagLetters (count + 1))
      else if c = joiner ∧ 2 ≤ count then some (0, .joined)
      else none
  | joined =>
      if c = keycap then some (0, .joinedKeycap)
      else if isFlagLetter c then some (1, .joinedFlagLetters 1)
      else if isSkinTone c then some (0, .skinTone)
      else if isTagEnd c then some (0, .joinedTags 0 0)
      else if isEmoji c then some (0, .emoji)
      else none
  | joinedKeycap => none
  | joinedFlagLetters count =>
      if isFlagLetter c then
        some (if count % 2 = 1 then -1 else 3, .joinedFlagLetters (count + 1))
      else if c = joiner ∧ 2 ≤ count then some (0, .joined)
      else none
  | joinedTags letters digits =>
      if isTaggedFlag c ∧ isTagged letters digits then some (0, .emoji)
      else (consTag? c letters digits).map fun tags => (0, tags)

example : (flagLetters 2).cons? joiner = some (0, .joined) ∧ (flagLetters 1).cons? joiner = none := by
  decide +kernel

example : isTagged 5 0 ∧ isTagged 2 3 ∧ !isTagged 2 0 := by decide

end EmojiTail

end Text

end KeyedSchema
