/-!
# Operators

The operators of expressions, with their spellings.

## Main definitions

* `UnaryOp`, `BinaryOp`, `LogicalOp`, `UpdateOp`, `AssignOp` — the operators.
* `BinaryOp.isSupported` — the binary operators that can be evaluated.
-/

namespace Scriptlet

/-- Operators with one operand, which they stand before. -/
inductive UnaryOp
  | delete | typeof | void | not | negate | plus | complement
deriving DecidableEq, Repr

/-- The spelling of the operator. -/
def UnaryOp.symbol : UnaryOp → String
  | .delete => "delete"
  | .typeof => "typeof"
  | .void => "void"
  | .not => "!"
  | .negate => "-"
  | .plus => "+"
  | .complement => "~"

/-- Operators that evaluate both operands. -/
inductive BinaryOp
  | equal | notEqual | strictEqual | strictNotEqual
  | less | lessEqual | greater | greaterEqual
  | add | subtract | multiply | divide | remainder | power
  | shiftLeft | shiftRight | shiftRightZero | bitOr | bitXor | bitAnd
  | isIn | instanceOf
deriving DecidableEq, Repr

namespace BinaryOp

/-- The spelling of the operator. -/
def symbol : BinaryOp → String
  | .equal => "=="
  | .notEqual => "!="
  | .strictEqual => "==="
  | .strictNotEqual => "!=="
  | .less => "<"
  | .lessEqual => "<="
  | .greater => ">"
  | .greaterEqual => ">="
  | .add => "+"
  | .subtract => "-"
  | .multiply => "*"
  | .divide => "/"
  | .remainder => "%"
  | .power => "**"
  | .shiftLeft => "<<"
  | .shiftRight => ">>"
  | .shiftRightZero => ">>>"
  | .bitOr => "|"
  | .bitXor => "^"
  | .bitAnd => "&"
  | .isIn => "in"
  | .instanceOf => "instanceof"

/-- Whether the operator can be evaluated: neither bitwise nor relational. -/
def isSupported : BinaryOp → Bool
  | .shiftLeft | .shiftRight | .shiftRightZero | .bitOr | .bitXor | .bitAnd
  | .isIn | .instanceOf => false
  | _ => true

end BinaryOp

/-- Operators that need not evaluate their right operand. -/
inductive LogicalOp
  | and | or | coalesce
deriving DecidableEq, Repr

/-- The spelling of the operator. -/
def LogicalOp.symbol : LogicalOp → String
  | .and => "&&"
  | .or => "||"
  | .coalesce => "??"

/-- Stepping by one. -/
inductive UpdateOp
  | increment | decrement
deriving DecidableEq, Repr

/-- Assignment, alone or combined with another operator. -/
inductive AssignOp
  | plain
  | binary (op : BinaryOp)
  | logical (op : LogicalOp)
deriving DecidableEq, Repr

/-- The spelling of the operator. -/
def AssignOp.symbol : AssignOp → String
  | .plain => "="
  | .binary op => op.symbol ++ "="
  | .logical op => op.symbol ++ "="

end Scriptlet
