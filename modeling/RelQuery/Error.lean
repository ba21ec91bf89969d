import RelQuery.ColumnType

/-!
# RelQuery.Error

What can go wrong, as causes.

A constructor says what happened and carries what its message needs; the wording is in
`Error.message` alone. Causes fall into seven kinds, which is what a caller usually branches on:
a problem of names and shapes (`schema`), a value outside its column's type (`type`), a computation
that failed on a row (`evaluation`), a stream asked for twice (`exhausted`), a query that cannot be
planned (`plan`), a bad setting (`configuration`), and a broken internal promise (`invariant`).
-/

namespace RelQuery

/-- The kinds of error. -/
inductive ErrorKind where
  /-- Names, shapes and correspondences of relations. -/
  | schema
  /-- A value outside its column's type. -/
  | type
  /-- A computation that failed on a row. -/
  | evaluation
  /-- A stream asked for its rows a second time. -/
  | exhausted
  | plan
  | configuration
  | invariant
deriving DecidableEq, Repr

/-- A cause of failure. -/
inductive Error where
  | duplicateColumn (column relation : String)
  | columnNotFound (column relation : String) (columns : List String)
  /-- A column reads a position that its source does not have. -/
  | originOutOfRange (column : String) (position : Nat) (relation : String) (width : Nat)
  /-- A column that an operation computes was to be read from a source. -/
  | originDerived (column relation : String)
  /-- A row has more or fewer values than its relation has columns. -/
  | wrongWidth (values : Nat) (relation : String) (columns : Nat)
  /-- A value was to be put at a position that the relation does not have. -/
  | positionOutOfRange (position : Nat) (relation : String)
  /-- A row of a stored relation has an incompatible schema. -/
  | foreignRow (position : Nat) (relation actual expected : String)
  /-- A rename list names a column twice. -/
  | renamedTwice (column relation : String)
  /-- A rename list gives two columns the same new name. -/
  | renamedAlike (relation column : String)
  | noJoinColumns
  /-- A column takes part in two pairs of an equi-join. -/
  | repeatedJoinColumn (left right : String)
  /-- The columns of a pair of an equi-join have different types. -/
  | joinTypes (leftRelation left : String) (leftType : ColumnType)
      (rightRelation right : String) (rightType : ColumnType)
  /-- Both inputs of a join have one name, and share column names that it would have to tell
  apart. -/
  | joinNames (relation : String)
  /-- The relation bound to an input has an incompatible schema. -/
  | boundSchema (input actual expected : String)
  /-- A value does not belong to its column's type, or is null where it must not be. -/
  | typeMismatch (column : String) (expected : ColumnType) (found : String)
  /-- A user-supplied function failed. -/
  | failed (reason : String)
  /-- An integer sum left the range of 64 bits. -/
  | sumOverflow (column : String)
  | exhausted (input : String)
  | untypedNull
  /-- An aggregate was declared without the column it needs. -/
  | missingInput (output : String)
  /-- The result type of an aggregate depends on a column it was not given. -/
  | noInputType (aggregate : String)
  /-- An aggregate has no meaning for columns of this type. -/
  | undefinedAggregate (aggregate : String) (type : ColumnType)
  /-- An accumulator was asked for without the type of its column. -/
  | untypedAccumulator (aggregate column : String)
  | noInput
  | unbound (input : String) (names : List String)
  | unknownType (type column : String)
  | undeclaredInput (input : String)
  | unknownJoinType (name : String)
  | unknownAggregate (name : String)
  /-- A document uses an aggregate without the column it needs. -/
  | missingColumn (aggregate : String)
  | emptyFilter
  /-- A filter condition of no known form. -/
  | unreadableFilter (text : String)
  | invalidDocument
  | unknownStrategy (name : String)
  /-- A lookup key is longer than the order it is looked up in. -/
  | keyTooLong (values : Nat) (relation : String) (columns : Nat)
  /-- A column aggregate was given no column. -/
  | columnlessAggregate
deriving DecidableEq, Repr

namespace Error

/-- The kind of an error, which decides how its message begins. -/
def kind : Error → ErrorKind
  | duplicateColumn .. | columnNotFound .. | originOutOfRange .. | originDerived .. | wrongWidth ..
  | positionOutOfRange .. | foreignRow .. | renamedTwice .. | renamedAlike .. | noJoinColumns
  | repeatedJoinColumn .. | joinTypes .. | joinNames .. | boundSchema .. => .schema
  | typeMismatch .. => .type
  | failed .. | sumOverflow .. => .evaluation
  | exhausted .. => .exhausted
  | untypedNull | missingInput .. | noInputType .. | undefinedAggregate .. | untypedAccumulator ..
  | noInput | unbound .. | unknownType .. | undeclaredInput .. | unknownJoinType ..
  | unknownAggregate .. | missingColumn .. | emptyFilter | unreadableFilter ..
  | invalidDocument => .plan
  | unknownStrategy .. => .configuration
  | keyTooLong .. | columnlessAggregate => .invariant

/-- What happened, without the words that name the kind. -/
def detail : Error → String
  | duplicateColumn column relation => s!"duplicate column '{column}' in relation '{relation}'"
  | columnNotFound column relation columns =>
    s!"column '{column}' not found in relation '{relation}' (columns: " ++
      ", ".intercalate columns ++ ")"
  | originOutOfRange column position relation width =>
    s!"column '{column}' reads ordinal {position} but relation '{relation}' has {width} columns"
  | originDerived column relation =>
    s!"column '{column}' is derived and cannot be read from relation '{relation}'"
  | wrongWidth values relation columns =>
    s!"row has {values} values but relation '{relation}' has {columns} columns"
  | positionOutOfRange position relation =>
    s!"ordinal {position} out of range for relation '{relation}'"
  | foreignRow position relation actual expected =>
    s!"row {position} of relation '{relation}' has schema {actual} instead of {expected}"
  | renamedTwice column relation =>
    s!"column '{column}' of relation '{relation}' is renamed more than once"
  | renamedAlike relation column =>
    s!"two columns of relation '{relation}' are renamed to '{column}'"
  | noJoinColumns => "equi-join needs at least one column pair"
  | repeatedJoinColumn left right =>
    s!"join columns must correspond one-to-one; '{left}' = '{right}' repeats a column"
  | joinTypes leftRelation left leftType rightRelation right rightType =>
    s!"join columns {leftRelation}.{left} ({leftType.name}) and " ++
      s!"{rightRelation}.{right} ({rightType.name}) have different types"
  | joinNames relation =>
    s!"both join inputs are named '{relation}' and share columns; rename one side"
  | boundSchema input actual expected =>
    s!"relation bound for '{input}' has schema {actual} but the query expects {expected}"
  | typeMismatch column expected found =>
    s!"column '{column}': expected {expected.name}, found {found}"
  | failed reason => reason
  | sumOverflow column => s!"sum over '{column}' overflowed Int64"
  | exhausted input => input
  | untypedNull => "a null literal has no type; use a typed custom expression"
  | missingInput output => s!"aggregate '{output}' needs an input column"
  | noInputType aggregate => s!"aggregate {aggregate} requires an input column"
  | undefinedAggregate aggregate type =>
    s!"aggregate {aggregate} is not defined for {type.name} columns"
  | untypedAccumulator aggregate column =>
    s!"aggregate {aggregate} over '{column}' has no input type"
  | noInput => "query has no input relation"
  | unbound input names =>
    s!"no relation bound for '{input}' (bound: " ++ ", ".intercalate names ++ ")"
  | unknownType type column => s!"unknown type '{type}' for column '{column}'"
  | undeclaredInput input => s!"scan of undeclared input '{input}'"
  | unknownJoinType name => s!"unknown join type '{name}'"
  | unknownAggregate name => s!"unknown aggregate '{name}'"
  | missingColumn aggregate => s!"aggregate '{aggregate}' needs a column"
  | emptyFilter => "empty filter expression"
  | unreadableFilter text => s!"unparseable predicate: {text}"
  | invalidDocument => "invalid query document"
  | unknownStrategy name => s!"unknown equi-join strategy '{name}'"
  | keyTooLong values relation columns =>
    s!"lookup key has {values} values but relation '{relation}' is sorted on {columns} columns"
  | columnlessAggregate => "column aggregate without an input column"

/-- The message of an error. -/
def message (e : Error) : String :=
  match e.kind with
  | .schema => "Schema error: " ++ e.detail
  | .type => "Type error in " ++ e.detail
  | .evaluation => "Evaluation error: " ++ e.detail
  | .exhausted => "Relation '" ++ e.detail ++ "' is a stream that has already been consumed"
  | .plan => "Planning error: " ++ e.detail
  | .configuration => "Invalid configuration: " ++ e.detail
  | .invariant => "Internal invariant failed: " ++ e.detail

end Error

end RelQuery
