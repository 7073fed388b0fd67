import EntityMapping.Sparql.Algebra

/-!
Queries: a selection with its pattern and what it projects, or one of the other forms.
-/

namespace EntityMapping.Sparql

/-- A query. -/
inductive Query where
  | select (pattern : Algebra) (projected : List String)
  | ask
  | construct
  | describe
  deriving Repr

/-- One column of a selection: a variable, or an expression under a new name. -/
inductive Column where
  | var (name : String)
  | expression (value : Expr) (name : String)
  deriving Repr

namespace Column

/-- The name that a column has in the result. -/
def name : Column → String
  | .var n => n
  | .expression _ n => n

end Column

/-- A key of a grouping. -/
structure GroupKey where
  value : Expr
  name : Option String

/-- What stands behind the pattern of a selection. -/
structure Modifiers where
  groupKeys : List GroupKey
  having : List Expr
  order : List (Expr × Bool)
  limit : Option Nat
  offset : Option Nat
  values : Option Algebra

/-- A selection without repetitions, or with as few as is convenient. -/
inductive Repetition where
  | distinct
  | reduced

namespace Query

/-- Whether a selection aggregates: it has a grouping, or an aggregate somewhere. -/
def aggregates (columns : Option (List Column)) (m : Modifiers) : Bool :=
  !m.groupKeys.isEmpty || m.having.any Expr.hasAggregate ||
    m.order.any (fun (e, _) => e.hasAggregate) ||
    (columns.getD []).any fun
      | .expression value _ => value.hasAggregate
      | .var _ => false

/-- The names of a projection: the columns as they are listed, or everything that the pattern
shows. -/
def projectedNames (columns : Option (List Column)) (body : Algebra) : List String :=
  match columns with
  | some cs => cs.map Column.name
  | none => Algebra.distinctNames body.mentioned

/-- The pattern with the expressions of a grouping bound to their names. -/
def grouped (m : Modifiers) (p : Algebra) : Algebra :=
  m.groupKeys.foldl (fun p key => match key.name with
    | some name => .extend p key.value name
    | none => p) p

/-- The pattern of a selection and what it projects.  Grouping comes first, then its conditions,
inline data, named expressions, the order, the projection, the repetitions and the slice.  A limit
of zero is no limit. -/
def selection (repetition : Option Repetition) (columns : Option (List Column)) (body : Algebra)
    (m : Modifiers) : Algebra × List String :=
  let names := projectedNames columns body
  let p := if aggregates columns m then .aggregateJoin (grouped m body) else body
  let p := Algebra.filtered (Expr.conjunction m.having) p
  let p := m.values.elim p p.joined
  let p := (columns.getD []).foldl (fun p column => match column with
    | .expression value name => .extend p value name
    | .var _ => p) p
  let p := if m.order.isEmpty then p else .orderBy p m.order
  let p := Algebra.project p names
  let p := match repetition with
    | some .distinct => .distinct p
    | some .reduced => .reduced p
    | none => p
  let p := match m.limit, m.offset with
    | none, none => p
    | limit, offset => .slice p (offset.getD 0) (limit.filter (· ≠ 0))
  (p, names)

end Query

end EntityMapping.Sparql
