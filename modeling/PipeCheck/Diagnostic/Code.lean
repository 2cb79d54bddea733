/-!
# Error codes

Codes of problems with names start with E02, those of problems with types with
E03, and those from E039 on report a defect of the checker itself.
-/

namespace PipeCheck

/-- What an error code is about. -/
inductive Category where
  | resolution
  | type
  | internal
deriving DecidableEq, Repr

/-- A registered error code. -/
structure ErrorCode where
  /-- The code itself. -/
  code : String
  /-- A short description. -/
  title : String
  /-- What kind of problem it is. -/
  category : Category
deriving DecidableEq, Repr

namespace Category

/-- The name of a category. -/
def name : Category → String
  | .resolution => "Resolution"
  | .type => "Type"
  | .internal => "Internal"

end Category

namespace ErrorCode

/-- All registered codes, in order. -/
def all : List ErrorCode :=
  [⟨"E0200", "undefined symbol", .resolution⟩,
    ⟨"E0201", "duplicate definition", .resolution⟩,
    ⟨"E0300", "untyped symbol", .type⟩,
    ⟨"E0301", "application mismatch", .type⟩,
    ⟨"E0302", "list element mismatch", .type⟩,
    ⟨"E0303", "empty list literal", .type⟩,
    ⟨"E0304", "invalid type notation", .type⟩,
    ⟨"E0398", "malformed type", .internal⟩,
    ⟨"E0399", "unhandled node kind", .internal⟩]

/-- The registered code with a given text. -/
def find? (code : String) : Option ErrorCode :=
  all.find? fun registered => registered.code = code

end ErrorCode
end PipeCheck
