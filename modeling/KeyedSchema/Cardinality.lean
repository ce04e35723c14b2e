import KeyedSchema.Text.Blank

/-!
# Cardinality — how many rows may take part on one side of a relationship

A cardinality is a set of eight flags. Three of them have names: `ZERO`, `ONE` and `MANY`; the
other five are carried along and never interpreted.

A cardinality has two written forms:

- its *label* (`ZERO|ONE`), which shows the named flags only, `NONE` without any;
- its *text* (`ZERO | ONE | 0x8`), which shows every flag and can be read back.
-/

namespace KeyedSchema

/-- A set of eight flags, kept as the bits of a byte. -/
structure Cardinality where
  bits : UInt8
  deriving DecidableEq, Repr

namespace Cardinality

def none : Cardinality := ⟨0⟩

def zero : Cardinality := ⟨1⟩

def one : Cardinality := ⟨2⟩

def many : Cardinality := ⟨4⟩

/-- Every flag of the first set and every flag of the second. -/
def union (a b : Cardinality) : Cardinality := ⟨a.bits ||| b.bits⟩

/-- The flags of the first set that are not in the second. -/
def diff (a b : Cardinality) : Cardinality := ⟨a.bits &&& ~~~b.bits⟩

/-- Whether every flag of the second set is in the first. -/
def includes (a b : Cardinality) : Bool := a.bits &&& b.bits == b.bits

/-- The usual parent side: exactly one row. -/
def parentDefault : Cardinality := one

/-- The usual child side: any number of rows. -/
def childDefault : Cardinality := (zero.union one).union many

/-! ## Written forms -/

/-- The flags that have names, in the order in which they are written. -/
def named : List (String × Cardinality) := [("ZERO", zero), ("ONE", one), ("MANY", many)]

/-- The names of the named flags in a set. -/
def names (c : Cardinality) : List String :=
  (named.filter fun (_, flag) => c.includes flag).map Prod.fst

/-- The flags of a set that have no name. -/
def unnamed (c : Cardinality) : Cardinality := named.foldl (fun rest (_, flag) => rest.diff flag) c

/-- The short form, in which flags without a name do not show. -/
def label (c : Cardinality) : String :=
  match c.names with
  | [] => "NONE"
  | names => "|".intercalate names

/-- A byte in hexadecimal digits, without leading zeros. -/
def hex (n : Nat) : String := String.ofList (Nat.toDigits 16 n)

/-- The full form: the names, then the flags without a name as one hexadecimal number. -/
def text (c : Cardinality) : String :=
  let rest := c.unnamed
  " | ".intercalate (c.names ++ if rest.bits = 0 then [] else [s!"0x{hex rest.bits.toNat}"])

/-! ## Reading the full form -/

/-- The value of a hexadecimal digit, in either case. -/
def hexDigit? (c : Char) : Option Nat :=
  if '0' ≤ c ∧ c ≤ '9' then some (c.toNat - '0'.toNat)
  else if 'a' ≤ c ∧ c ≤ 'f' then some (c.toNat - 'a'.toNat + 10)
  else if 'A' ≤ c ∧ c ≤ 'F' then some (c.toNat - 'A'.toNat + 10)
  else Option.none

/-- The byte that hexadecimal digits denote; no digit at all or a value past 255 is refused. -/
def hexByte? (digits : List Char) : Option UInt8 := do
  guard (digits ≠ [])
  let n ← digits.foldlM (fun n c => (hexDigit? c).map (16 * n + ·)) 0
  if n < 256 then some n.toUInt8 else Option.none

/-- One part of the full form: a flag's name, or `0x` and a hexadecimal byte, which may have a
plus sign. -/
def part? (cs : List Char) : Option Cardinality :=
  match cs with
  | '0' :: 'x' :: '+' :: digits => (hexByte? digits).map (⟨·⟩)
  | '0' :: 'x' :: digits => (hexByte? digits).map (⟨·⟩)
  | name => (named.find? fun (n, _) => n.toList = name).map Prod.snd

/-- Read the full form: parts between bars, with blanks around each. A blank text is the empty
set, an empty part is refused. -/
def ofText? (s : String) : Option Cardinality :=
  if Text.trim s.toList = [] then some none
  else (Text.splitOn '|' s.toList).foldlM
    (fun c part => (part? (Text.trim part)).map c.union) none

end Cardinality

end KeyedSchema
