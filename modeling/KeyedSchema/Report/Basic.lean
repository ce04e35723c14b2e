import KeyedSchema.Event.Label
import KeyedSchema.Json.Document
import KeyedSchema.Json.Printer
import KeyedSchema.Report.Grid

/-!
# Report — snapshots and events as texts

A report shows a snapshot, and the events behind it if they are asked for, as grids or as JSON.
-/

namespace KeyedSchema

/-- The form of a report. -/
inductive ReportFormat
  | table
  | json
  deriving DecidableEq, Repr

namespace ReportFormat

def code : ReportFormat → String
  | table => "table"
  | json => "json"

def ofCode? (code : String) : Option ReportFormat :=
  [table, json].find? fun format => format.code == code

end ReportFormat

/-! ## Grids -/

/-- The cell of a flag. -/
def Grid.flag (b : Bool) : String := if b then "true" else "false"

/-- The columns of a table, numbered from zero. -/
def TableSnapshot.grid (t : TableSnapshot) : Grid :=
  { header := ["#", "Column", "Type", "Precision", "Scale", "Null", "PK"]
    rows := t.columns.mapIdx fun i c =>
      [toString i, c.name, c.type.label, toString c.precision, toString c.scale,
        if c.nullable then "yes" else "no", c.rank.elim "" toString] }

/-- The mappings of a relationship in one line. -/
def RelationshipSnapshot.mappingLine (r : RelationshipSnapshot) : String :=
  ", ".intercalate (r.mappings.map fun (pk, fk) => s!"{pk} -> {fk}")

/-- Relationships, with a dash for a missing end. -/
def RelationshipSnapshot.grid (rels : List RelationshipSnapshot) : Grid :=
  { header := ["Relationship", "Parent", "Child", "Identifying", "Live", "Mappings"]
    rows := rels.map fun r =>
      [r.name, r.parent.getD "-", r.child.getD "-", Grid.flag r.identifying, Grid.flag r.live,
        r.mappingLine] }

/-- Events, numbered from one. -/
def Event.grid (events : List Event) : Grid :=
  { header := ["#", "Event", "Source", "Detail"]
    rows := events.mapIdx fun i e =>
      [toString (i + 1), e.kind, e.source?.elim "" ObjectRef.label, e.detail] }

/-- A grid under its name for every table, and one grid for all relationships if there are any. -/
def SchemaSnapshot.sections (s : SchemaSnapshot) : List String :=
  (s.tables.map fun t => t.name ++ "\n" ++ t.grid.render) ++
    if s.relationships.isEmpty then [] else [(RelationshipSnapshot.grid s.relationships).render]

/-- A blank line between two parts of a report. -/
def reportBreak : String := "\n\n"

/-- A snapshot as grids. -/
def SchemaSnapshot.asGrids (s : SchemaSnapshot) : String :=
  if s.sections.isEmpty then "No tables" else reportBreak.intercalate s.sections

/-! ## Documents -/

def Event.toJson (e : Event) : Json :=
  .object
    [("detail", .text e.detail),
      ("kind", .text e.kind),
      ("source", .ofText? (e.source?.map ObjectRef.label))]

/-! ## Reports -/

namespace ReportFormat

def snapshotText (s : SchemaSnapshot) : ReportFormat → String
  | table => s.asGrids
  | json => s.toJson.print

def eventText (events : List Event) : ReportFormat → String
  | table => (Event.grid events).render
  | json => (Json.array (events.map Event.toJson)).print

/-- The report on a schema, with its events if `showEvents`. -/
def report (format : ReportFormat) (showEvents : Bool) (s : Schema) : String :=
  let snapshot := format.snapshotText s.snapshot
  if showEvents then snapshot ++ reportBreak ++ format.eventText s.published else snapshot

end ReportFormat

end KeyedSchema
