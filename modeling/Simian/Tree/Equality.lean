import Simian.Tree

/-!
# Equality of trees

Two trees are equal when they agree node for node, spans included.
-/

namespace Simian

mutual

def Expr.same : Expr → Expr → Bool
  | .ident s a, e => match e with
    | .ident t b => s == t && a == b
    | _ => false
  | .int s a, e => match e with
    | .int t b => s == t && a == b
    | _ => false
  | .str s a, e => match e with
    | .str t b => s == t && a == b
    | _ => false
  | .bool s a, e => match e with
    | .bool t b => s == t && a == b
    | _ => false
  | .unary s op right, e => match e with
    | .unary t op' right' => s == t && op == op' && right.same right'
    | _ => false
  | .binary s op left right, e => match e with
    | .binary t op' left' right' =>
      s == t && op == op' && left.same left' && right.same right'
    | _ => false
  | .index s left index, e => match e with
    | .index t left' index' => s == t && left.same left' && index.same index'
    | _ => false
  | .cond s condition consequence alternative, e => match e with
    | .cond t condition' consequence' alternative' =>
      s == t && condition.same condition' && consequence.same consequence' &&
        sameElse alternative alternative'
    | _ => false
  | .fn s params body, e => match e with
    | .fn t params' body' => s == t && params == params' && body.same body'
    | _ => false
  | .macroLit s params body, e => match e with
    | .macroLit t params' body' => s == t && params == params' && body.same body'
    | _ => false
  | .call s callee args, e => match e with
    | .call t callee' args' => s == t && callee.same callee' && sameList args args'
    | _ => false
  | .array s elements, e => match e with
    | .array t elements' => s == t && sameList elements elements'
    | _ => false
  | .hash s pairs, e => match e with
    | .hash t pairs' => s == t && samePairs pairs pairs'
    | _ => false

def sameElse : Option Block → Option Block → Bool
  | none, other => other.isNone
  | some block, other => match other with
    | some block' => block.same block'
    | none => false

def sameList : List Expr → List Expr → Bool
  | [], others => others.isEmpty
  | e :: es, others => match others with
    | e' :: es' => e.same e' && sameList es es'
    | [] => false

def samePairs : List (Expr × Expr) → List (Expr × Expr) → Bool
  | [], others => others.isEmpty
  | (key, value) :: ps, others => match others with
    | (key', value') :: ps' => key.same key' && value.same value' && samePairs ps ps'
    | [] => false

def Stmt.same : Stmt → Stmt → Bool
  | .bind s binder value, other => match other with
    | .bind t binder' value' => s == t && binder == binder' && value.same value'
    | _ => false
  | .ret s value, other => match other with
    | .ret t value' => s == t && value.same value'
    | _ => false
  | .expr s value, other => match other with
    | .expr t value' => s == t && value.same value'
    | _ => false

def Block.same : Block → Block → Bool
  | .mk s ss, .mk t ss' => s == t && sameStatements ss ss'

def sameStatements : List Stmt → List Stmt → Bool
  | [], others => others.isEmpty
  | s :: ss, others => match others with
    | s' :: ss' => s.same s' && sameStatements ss ss'
    | [] => false

end

instance : BEq Expr := ⟨Expr.same⟩

end Simian
