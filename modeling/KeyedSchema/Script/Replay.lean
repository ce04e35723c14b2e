import KeyedSchema.Schema.Op
import KeyedSchema.Script.Basic
import KeyedSchema.Text.Quoted

/-!
# Replay — carrying out a script

The steps of a script are carried out one after the other on a fresh schema, up to the first one
that fails. A step fails when it names an object that is not there or when one of its edits is
refused.
-/

namespace KeyedSchema

/-- Why a step fails. -/
inductive StepFault
  | unknownTable (name : String)
  | unknownColumn (table column : String)
  | unknownRelationship (name : String)
  | refused (code : String) (e : EditError)
  deriving DecidableEq, Repr

/-- The failure of a step; steps are counted from one. -/
structure ReplayError where
  step : Nat
  fault : StepFault
  deriving DecidableEq, Repr

def ReplayError.message (e : ReplayError) : String :=
  match e.fault with
  | .unknownTable name => s!"step {e.step}: no table named {Text.quote name}"
  | .unknownColumn table column =>
      s!"step {e.step}: no column named {Text.quote column} in table {Text.quote table}"
  | .unknownRelationship name => s!"step {e.step}: no relationship named {Text.quote name}"
  | .refused code cause => s!"step {e.step} ({code}): {cause.message}"

/-- What a step does: it reads and changes a schema, and may fail. -/
abbrev StepAction (α : Type) := ExceptT StepFault (StateM Schema) α

namespace StepAction

/-- An edit that is part of the step with the given code. -/
def ofEdit {α : Type} (code : String) (x : Edit α) : StepAction α := x.adapt (.refused code)

/-! ## Looking objects up by name -/

def table (name : String) : StepAction TableId := do
  match (← get).tableNamed? name with
  | some t => return t
  | none => throw (.unknownTable name)

def column (table column : String) : StepAction ColumnId := do
  let t ← StepAction.table table
  match (← get).columnNamed? t column with
  | some c => return c
  | none => throw (.unknownColumn table column)

def relationship (name : String) : StepAction RelationshipId := do
  match (← get).relationshipNamed? name with
  | some r => return r
  | none => throw (.unknownRelationship name)

/-! ## The steps -/

/-- Create a relationship and connect it. The key of the parent is mapped automatically only where
no mappings are listed. -/
def createRelationship (rel : RelationshipSpec) (code : String) : StepAction Unit := do
  let parent ← table rel.parent
  let child ← table rel.child
  -- all names are looked up before anything is changed
  let pairs ← rel.mappings.mapM fun (pk, fk) => do
    return (← column rel.parent pk, ← column rel.child fk)
  let config := (← get).config
  let r ← ofEdit code (Edit.createRelationship
    { Relationship.ofConfig config with name := rel.fullName, identifying := rel.identifying })
  ofEdit code (Edit.attachRelationship r parent child (rel.autoMap && pairs.isEmpty))
  pairs.forM fun (pk, fk) => ofEdit code (Edit.addMapping r pk fk)

/-- What a step does. -/
def ofStep (step : Step) : StepAction Unit := do
  match step with
  | .createTable name columns =>
      let t ← ofEdit step.code (Edit.addTable { name })
      columns.forM fun spec => discard (ofEdit step.code (Edit.addColumn t spec.toColumn))
  | .addColumn t spec =>
      let t ← table t
      discard (ofEdit step.code (Edit.addColumn t spec.toColumn))
  | .setPrimaryKey t c rank =>
      let c ← column t c
      ofEdit step.code (Edit.setPrimaryKeySeq c rank)
  | .removeColumn t c =>
      let c ← column t c
      discard (ofEdit step.code (Edit.removeColumn c))
  | .renameColumn t c name =>
      let c ← column t c
      ofEdit step.code (Edit.setColumnName c name)
  | .createRelationship rel => createRelationship rel step.code
  | .removeRelationship name =>
      let r ← relationship name
      discard (ofEdit step.code (Edit.removeRelationship r))
  | .removeTable name =>
      let t ← table name
      discard (ofEdit step.code (Edit.removeTable t))

end StepAction

/-- Carry out one step; the outcome is the schema after it or what made it fail. -/
def Step.replay (step : Step) (s : Schema) : Except StepFault Schema :=
  match (StepAction.ofStep step).run s with
  | (.ok _, s) => .ok s
  | (.error fault, _) => .error fault

/-- Carry out steps in order, the first of which has the given number. -/
def replayFrom (number : Nat) (s : Schema) : List Step → Except ReplayError Schema
  | [] => .ok s
  | step :: rest =>
      match step.replay s with
      | .ok s => replayFrom (number + 1) s rest
      | .error fault => .error ⟨number, fault⟩

/-- Carry out steps on a fresh schema with the given configuration. -/
def replay (config : Config) (steps : List Step) : Except ReplayError Schema :=
  replayFrom 1 (Schema.ofConfig config) steps

end KeyedSchema
