/-!
# ReferentialRule — what a foreign key does when its parent row changes

A relationship has a `ReferentialAction` for updates and one for deletions, and a `Deferrability`
that says when the database checks it. Both have a code for documents and a label for events.
-/

namespace KeyedSchema

/-- What happens to child rows when the parent row is updated or deleted. -/
inductive ReferentialAction
  | cascade
  | restrict
  | noAction
  | setNull
  | setDefault
  deriving DecidableEq, Repr

/-- When the database checks a foreign key. -/
inductive Deferrability
  | initiallyDeferred
  | initiallyImmediate
  | notDeferrable
  deriving DecidableEq, Repr

namespace ReferentialAction

def all : List ReferentialAction := [.cascade, .restrict, .noAction, .setNull, .setDefault]

def code : ReferentialAction → String
  | .cascade => "cascade"
  | .restrict => "restrict"
  | .noAction => "no_action"
  | .setNull => "set_null"
  | .setDefault => "set_default"

def ofCode? (text : String) : Option ReferentialAction := all.find? fun a => a.code == text

def label : ReferentialAction → String
  | .cascade => "Cascade"
  | .restrict => "Restrict"
  | .noAction => "NoAction"
  | .setNull => "SetNull"
  | .setDefault => "SetDefault"

end ReferentialAction

namespace Deferrability

def all : List Deferrability := [.initiallyDeferred, .initiallyImmediate, .notDeferrable]

def code : Deferrability → String
  | .initiallyDeferred => "initially_deferred"
  | .initiallyImmediate => "initially_immediate"
  | .notDeferrable => "not_deferrable"

def ofCode? (text : String) : Option Deferrability := all.find? fun d => d.code == text

def label : Deferrability → String
  | .initiallyDeferred => "InitiallyDeferred"
  | .initiallyImmediate => "InitiallyImmediate"
  | .notDeferrable => "NotDeferrable"

end Deferrability

end KeyedSchema
