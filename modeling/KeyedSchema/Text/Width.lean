import KeyedSchema.Text.EmojiSequence
import KeyedSchema.Text.Ligature

/-!
# Width — the cells a text takes on a terminal

A text takes the cells of its characters, but some sequences take fewer or more than the sum of
their parts: letters that are drawn as one, emoji that melt into one picture, and characters with a
variation selector after them. What decides is always what *follows* a character, so a text is
measured from its end.
-/

namespace KeyedSchema

namespace Text

/-! ## Variation selectors -/

/-- A request on how the character in front is to be drawn. -/
inductive Selector
  /-- As a picture. -/
  | emoji
  /-- As a plain sign. -/
  | sign
  /-- As a quotation mark in a full square. -/
  | square
  deriving DecidableEq, Repr

namespace Selector

def ofChar? (c : Char) : Option Selector :=
  match c with
  | '\ufe0f' => some .emoji
  | '\ufe0e' => some .sign
  | '\ufe01' => some .square
  | _ => none

/-- Whether a character can be drawn as requested. -/
def fits (c : Char) : Selector → Bool
  | emoji => canBeEmoji c
  | sign => canBeSign c
  | square => c ∈ ['\u2018', '\u2019', '\u201c', '\u201d']

end Selector

/-! ## What a text begins with -/

/-- The part of a sequence that a text begins with, if any. -/
inductive Lead
  | plain
  | ligature (tail : Ligature)
  | emoji (tail : EmojiTail)
  deriving DecidableEq, Repr

namespace Lead

/-- What a text begins with if its first character is in no sequence with what follows. -/
def ofChar (c : Char) : Lead :=
  match Ligature.ofChar? c, EmojiTail.ofChar? c with
  | some tail, _ => .ligature tail
  | none, some tail => .emoji tail
  | none, none => .plain

/-- The cells that a character adds in front of a sequence that it is part of, and what the text
begins with then. -/
def cons? (c : Char) : Lead → Option (Int × Lead)
  | plain => none
  | ligature tail => (tail.cons? c).map fun (cells, tail) => (cells, tail.elim .plain .ligature)
  | emoji tail => (tail.cons? c).map fun (cells, tail) => (cells, .emoji tail)

/-- What is left of a sequence with a selector in front of it. -/
def select (s : Selector) : Lead → Lead
  | plain => .plain
  | ligature tail => if tail.keepsSelector then .ligature tail else .plain
  | emoji tail => if s = .emoji ∧ tail.keepsSelector then .emoji tail else .plain

/-- What is left of a sequence with a selector in front of it that asked for nothing. -/
def deselect : Lead → Lead
  | ligature tail => .ligature tail
  | _ => .plain

end Lead

/-- What a text begins with, as far as it changes the width of a character in front of it: a
selector, if any, and a sequence. -/
structure Opening where
  selector : Option Selector := none
  lead : Lead := .plain
  deriving DecidableEq, Repr

namespace Opening

/-- The cells that a character adds which is drawn as the selector after it asks, and what the text
begins with then. A picture in front of a joined emoji melts into it. -/
def draw (s : Selector) (lead : Lead) : Int × Opening :=
  match s, lead with
  | .emoji, .emoji _ => (0, ⟨none, .emoji .emoji⟩)
  | .emoji, _ => (2, ⟨none, .emoji .emoji⟩)
  | .sign, _ => (1, {})
  | .square, _ => (2, {})

/-- The cells that a character adds which no selector asks anything of, and what the text begins
with then. -/
def consUnasked (c : Char) (lead : Lead) : Int × Opening :=
  match Selector.ofChar? c with
  | some s => (0, ⟨some s, lead.select s⟩)
  | none =>
      let (cells, lead) := (lead.cons? c).getD (cellsOf c, Lead.ofChar c)
      (cells, ⟨none, lead⟩)

/-- The cells that a character adds in front of a text, and what the text begins with then. -/
def cons (c : Char) (o : Opening) : Int × Opening :=
  match o.selector with
  | none => consUnasked c o.lead
  | some s => if s.fits c then draw s o.lead else consUnasked c o.lead.deselect

end Opening

/-! ## Measuring -/

/-- The cells of a text, and what it begins with. -/
structure Measure where
  cells : Nat := 0
  opening : Opening := {}
  deriving DecidableEq, Repr

/-- The measure of a text with a character put in front of it. -/
def Measure.cons (c : Char) (m : Measure) : Measure :=
  let (cells, opening) := m.opening.cons c
  ⟨(m.cells + cells).toNat, opening⟩

/-- The measure of a text. -/
def measure (cs : List Char) : Measure := cs.foldr Measure.cons {}

/-- The cells that a text takes. -/
def width (s : String) : Nat := (measure s.toList).cells

example : (measure ['a', '\u4e00']).cells = 3 ∧ (measure ['\u0644', '\u0627']).cells = 1 ∧
    (measure ['1', '\ufe0f', '\u20e3']).cells = 2 := by
  decide +kernel

end Text

end KeyedSchema
