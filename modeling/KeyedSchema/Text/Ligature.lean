import KeyedSchema.Text.Cells

/-!
# Ligature — letters that merge with those in front of them

In some scripts a sequence of letters is drawn as one, and takes fewer cells than its letters do. A
text is read from its end here, so a ligature is what the end of such a sequence is waiting for:
an Alef for a Lam in front of it, a Khmer letter for the sign that subscribes it.

Marks that take no cell may stand between the letters. A joiner counts as one of them, but an Alef
admits no joiner, and some letters merge only across one.
-/

namespace KeyedSchema

namespace Text

/-- What the end of a sequence is waiting for. `joined` tells whether a joiner stands in front. -/
inductive Ligature
  /-- An Arabic Alef, which waits for a Lam. -/
  | alef
  /-- A Hebrew Lamed, which waits for an Alef across a joiner. -/
  | lamed (joined : Bool)
  /-- A Khmer letter, which waits for the sign that makes a subscript of it. -/
  | khmerLetter
  /-- A Buginese Ya, which waits for the vowel I across a joiner. -/
  | bugineseYa (joined : Bool)
  /-- A Buginese Ya with the vowel I in front, which waits for the vowel carrier A. -/
  | bugineseIya
  /-- A Tifinagh consonant, which waits for another one across a joiner of either kind. -/
  | tifinagh (joined : Bool)
  /-- A Tifinagh consonant with the joiner of that script in front. -/
  | tifinaghPair
  /-- A Lisu tone, which waits for another tone. -/
  | lisuTone
  /-- An Old Turkic I, which waits for an Orkhon Nt across a joiner. -/
  | orkhonI (joined : Bool)
  /-- The Kirat Rai vowel E, which vowels in front of it turn into others. -/
  | vowelE
  /-- The Kirat Rai vowel Ai, which waits for the vowel Aa. -/
  | vowelAi
  deriving DecidableEq, Repr

/-! ## Letters -/

def isAlef (c : Char) : Bool :=
  c ∈ ['\u0622', '\u0623', '\u0625', '\u0627', '\u0671', '\u0672', '\u0673', '\u0675', '\u0773',
    '\u0774'] || ('\u0870' ≤ c && c ≤ '\u0882')

def isLam (c : Char) : Bool :=
  c ∈ ['\u0644', '\u06b5', '\u06b6', '\u06b7', '\u06b8', '\u076a', '\u08a6', '\u08c7']

/-- Whether a character is a Khmer letter that can be subscribed. -/
def isKhmerLetter (c : Char) : Bool :=
  ('\u1780' ≤ c && c ≤ '\u1782') || ('\u1784' ≤ c && c ≤ '\u1787') ||
  ('\u1789' ≤ c && c ≤ '\u178c') || ('\u178e' ≤ c && c ≤ '\u1793') ||
  ('\u1795' ≤ c && c ≤ '\u1798') || ('\u179b' ≤ c && c ≤ '\u179d') ||
  c ∈ ['\u17a0', '\u17a2', '\u17a7', '\u17ab', '\u17ac', '\u17af']

def isTifinaghConsonant (c : Char) : Bool := ('\u2d31' ≤ c && c ≤ '\u2d65') || c == '\u2d6f'

/-- Whether a mark does not keep the Arabic letters around it from joining. -/
def isJoiningMark (c : Char) : Bool := cellsOf c == 0 && !inClass joiningBarrier c

/-- Whether a combining mark can be ignored where it cannot be drawn. -/
def isIgnorableMark (c : Char) : Bool :=
  c == '\u034f' || c == '\u17b4' || c == '\u17b5' || ('\u180b' ≤ c && c ≤ '\u180d') ||
  c == '\u180f' || ('\ufe00' ≤ c && c ≤ '\ufe0f') || (0xe0100 ≤ c.toNat && c.toNat ≤ 0xe01ef)

namespace Ligature

/-- What a single character is waiting for. -/
def ofChar? (c : Char) : Option Ligature :=
  if isAlef c then some .alef
  else if c = '\u05dc' then some (.lamed false)
  else if isKhmerLetter c then some .khmerLetter
  else if c = '\u1a10' then some (.bugineseYa false)
  else if isTifinaghConsonant c then some (.tifinagh false)
  else if c = '\ua4fc' ∨ c = '\ua4fd' then some .lisuTone
  else if c.toNat = 0x10c03 then some (.orkhonI false)
  else if c.toNat = 0x16d67 then some .vowelE
  else if c.toNat = 0x16d68 then some .vowelAi
  else none

/-! ## Reading on -/

/-- What is waited for with a joiner in front. -/
def join : Ligature → Ligature
  | lamed _ => .lamed true
  | bugineseYa _ => .bugineseYa true
  | tifinagh _ => .tifinagh true
  | orkhonI _ => .orkhonI true
  | l => l

/-- Whether a variation selector in front leaves a letter waiting. -/
def keepsSelector : Ligature → Bool
  | vowelE => false
  | vowelAi => false
  | _ => true

/-- What is waited for after a mark that may stand between the letters. -/
def skip? (c : Char) : Ligature → Option Ligature
  | alef => if isJoiningMark c then some .alef else none
  | vowelE => none
  | vowelAi => none
  | l =>
      if c = joiner then some l.join
      else if isIgnorableMark c then some l
      else none

/-- The cells that a character adds which has been waited for, and what is waited for then. The sum
is negative where the sequence takes fewer cells with the character than without it. -/
def merge? (c : Char) : Ligature → Option (Int × Option Ligature)
  | alef => if isLam c then some (0, none) else none
  | lamed joined => if joined ∧ c = '\u05d0' then some (0, none) else none
  | khmerLetter => if c = '\u17d2' then some (-1, none) else none
  | bugineseYa joined => if joined ∧ c = '\u1a17' then some (0, some .bugineseIya) else none
  | bugineseIya => if c = '\u1a15' then some (0, none) else none
  | tifinagh joined =>
      if c = '\u2d7f' then some (1, some .tifinaghPair)
      else if joined ∧ isTifinaghConsonant c then some (0, none)
      else none
  | tifinaghPair => if isTifinaghConsonant c then some (-1, none) else none
  | lisuTone => if '\ua4f8' ≤ c ∧ c ≤ '\ua4fb' then some (0, none) else none
  | orkhonI joined => if joined ∧ c.toNat = 0x10c32 then some (0, none) else none
  | vowelE =>
      match c.toNat with
      | 0x16d63 => some (0, none)
      | 0x16d67 => some (0, some .vowelAi)
      | 0x16d68 => some (1, some .vowelE)
      | 0x16d69 => some (0, none)
      | _ => none
  | vowelAi => if c.toNat = 0x16d63 then some (0, none) else none

/-- The cells that a character adds in front of a sequence that it is part of, and what the
sequence waits for then. -/
def cons? (c : Char) (l : Ligature) : Option (Int × Option Ligature) :=
  match l.skip? c with
  | some l => some (0, some l)
  | none => l.merge? c

example : cons? '\u0644' .alef = some (0, none) ∧
    cons? joiner (.lamed false) = some (0, some (.lamed true)) ∧
    cons? '\u05d0' (.lamed true) = some (0, none) ∧ cons? '\u05d0' (.lamed false) = none := by
  decide +kernel

end Ligature

end Text

end KeyedSchema
