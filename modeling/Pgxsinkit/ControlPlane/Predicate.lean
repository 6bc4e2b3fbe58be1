/-
The predicate of a shape, and its meaning.

The AST of packages/contracts/src/predicate.ts.  The engine answers a leaf, TRUE, FALSE or UNKNOWN,
and the set of a subquery is its own; a row is in the shape when the predicate is TRUE of it.
-/
import Pgxsinkit.ControlPlane.Subscribe
import Pgxsinkit.Lib.Kleene

namespace ControlPlane.Narrowing

inductive PredicateLeafOp where
  | eq | neq | lt | lte | gt | gte | like
  deriving DecidableEq

/-- The wire form of a `where`. -/
inductive Predicate where
  | leaf (col : String) (op : PredicateLeafOp) (value : PredicateValue)
  | isNull (col : String) (isNull : Bool)
  | and (nodes : List Predicate)
  | or (nodes : List Predicate)
  | not (node : Predicate)
  | inSubquery (col table project : String) (where_ : Option Predicate) (negated : Bool)

/-- A server row, by column. -/
abbrev Row := String → PredicateValue

/-- What the engine makes of a comparison, and of an `IN` over the tables as they are. -/
structure Engine where
  compare : PredicateLeafOp → PredicateValue → PredicateValue → Option Bool
  member : PredicateValue → String → String → Option Predicate → Option Bool
  /-- `col = value` is TRUE on that value, and never on a NULL cell. -/
  compare_eq : ∀ cell value, compare .eq cell value = some true ↔ cell = value ∧ cell ≠ .null

mutual

/-- The truth value of a predicate on a row. -/
def truth (engine : Engine) (row : Row) : Predicate → Option Bool
  | .leaf col op value => engine.compare op (row col) value
  | .isNull col isNull => some (decide (row col = .null) == isNull)
  | .and nodes => Kleene.all (truths engine row nodes)
  | .or nodes => Kleene.any (truths engine row nodes)
  | .not node => Kleene.not (truth engine row node)
  | .inSubquery col table project where_ negated =>
    if negated then Kleene.not (engine.member (row col) table project where_)
    else engine.member (row col) table project where_

def truths (engine : Engine) (row : Row) : List Predicate → List (Option Bool)
  | [] => []
  | node :: nodes => truth engine row node :: truths engine row nodes

end

/-- An omitted `where` is all rows. -/
def Satisfies (engine : Engine) (row : Row) (where_ : Option Predicate) : Prop :=
  ∀ node ∈ where_, truth engine row node = some true

def conjoinPredicates (nodes : List (Option Predicate)) : Option Predicate :=
  match nodes.filterMap id with
  | [] => none
  | [node] => some node
  | present => some (.and present)

/-! ### The top-level conjunction -/

mutual

/-- The conjuncts of the outermost `AND` chain. -/
def conjuncts : Predicate → List Predicate
  | .and nodes => conjunctsAll nodes
  | node => [node]

def conjunctsAll : List Predicate → List Predicate
  | [] => []
  | node :: nodes => conjuncts node ++ conjunctsAll nodes

end

theorem truths_eq (engine : Engine) (row : Row) (nodes : List Predicate) :
    truths engine row nodes = nodes.map (truth engine row) := by
  induction nodes with
  | nil => rfl
  | cons node nodes ih => rw [truths, ih, List.map_cons]

theorem truth_and {engine : Engine} {row : Row} {nodes : List Predicate} :
    truth engine row (.and nodes) = some true ↔ ∀ node ∈ nodes, truth engine row node = some true := by
  rw [truth, truths_eq, Kleene.all_eq_true, List.forall_mem_map]

mutual

/-- A predicate is TRUE exactly where all its conjuncts are. -/
theorem truth_iff_conjuncts (engine : Engine) (row : Row) : ∀ node : Predicate,
    truth engine row node = some true ↔ ∀ c ∈ conjuncts node, truth engine row c = some true
  | .and nodes => by rw [truth_and, conjuncts, truth_iff_conjunctsAll engine row nodes]
  | .leaf .. | .isNull .. | .or _ | .not _ | .inSubquery .. => by simp [conjuncts]

theorem truth_iff_conjunctsAll (engine : Engine) (row : Row) : ∀ nodes : List Predicate,
    (∀ node ∈ nodes, truth engine row node = some true) ↔
      ∀ c ∈ conjunctsAll nodes, truth engine row c = some true
  | [] => by rw [conjunctsAll]
  | node :: nodes => by
    rw [List.forall_mem_cons, truth_iff_conjuncts engine row node, truth_iff_conjunctsAll engine row nodes,
      conjunctsAll, List.forall_mem_append]

end

end ControlPlane.Narrowing
