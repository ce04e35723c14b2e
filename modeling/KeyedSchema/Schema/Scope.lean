import KeyedSchema.Schema.CatchUp

/-!
# Scope — edits that are made together

A scope surrounds a series of edits:

- a **compound edit** tells listeners where the series starts and ends;
- a **secondary change** keeps a table in secondary-change mode;
- **magic disabled** keeps a table's key cascades off.

`enter` opens a scope and `leave` closes it again, whatever happened in between. A scope that found
the table in secondary-change mode already leaves it there; the one that found magic on or off
brings that back.
-/

namespace KeyedSchema

/-- What surrounds a series of edits. -/
inductive Scope
  | compound (description : String)
  | secondaryChange (table : TableId)
  | magicDisabled (table : TableId)
  deriving DecidableEq, Repr

/-- An open scope and what it takes to close it. -/
inductive OpenScope
  | compound
  /-- Whether the scope is the one that put the table into the mode. -/
  | secondaryChange (table : TableId) (entered : Bool)
  /-- Whether magic was on before. -/
  | magicDisabled (table : TableId) (previous : Bool)
  deriving DecidableEq, Repr

namespace Schema

/-- Switch a table's automatic key cascades. -/
def setMagic (t : TableId) (on : Bool) (s : Schema) : Schema :=
  s.changeTable t fun tbl => { tbl with magicEnabled := on }

end Schema

namespace Edit

variable {α : Type}

/-- Open a scope. -/
def enter : Scope → Edit OpenScope
  | .compound description => do
      change (Schema.signal (.compoundEditStarted description))
      return .compound
  | .secondaryChange t => do
      return .secondaryChange t (← enterSecondaryChange t)
  | .magicDisabled t => do
      let previous := (← table t).magicEnabled
      change (Schema.setMagic t false)
      return .magicDisabled t previous

/-- Close a scope. -/
def leave [Beyond] : OpenScope → Edit Unit
  | .compound => change (Schema.signal .compoundEditEnded)
  | .secondaryChange t entered => if entered then exitSecondaryChange t else pure ()
  | .magicDisabled t previous => change (Schema.setMagic t previous)

/-- The outcome of a scope: a refusal in its body counts before one from closing it. -/
def settle (body : Except EditError α) (closing : Except EditError Unit) : Except EditError α :=
  match body, closing with
  | .error e, _ => .error e
  | .ok _, .error e => .error e
  | .ok a, .ok () => .ok a

/-- Carry out an edit within a scope. The scope is closed also when the edit is refused. -/
def within [Beyond] (scope : Scope) (body : Edit α) : Edit α := do
  let opened ← enter scope
  let outcome ← attempt body
  let closing ← attempt (leave opened)
  ofOutcome (settle outcome closing)

/-- Enter or leave secondary-change mode. Entering twice, or leaving outside the mode, does
nothing. -/
def setSecondaryChangeMode [Beyond] (t : TableId) (on : Bool) : Edit Unit := do
  if on then
    discard (enterSecondaryChange t)
  else
    if (← table t).inSecondaryChange then exitSecondaryChange t

/-- Turn a table's automatic key cascades on or off; nothing is caught up. -/
def setMagicEnabled (t : TableId) (on : Bool) : Edit Unit := do
  discard (table t)
  change (Schema.setMagic t on)

end Edit

end KeyedSchema
