import Simian.Text.Quoted
import Simian.Tree

/-!
# Outlines

An outline shows a tree with all its parts and spans, one to a line, each level
indented by four columns.
-/

namespace Simian

inductive Outline where
  | atom (text : String)
  | group (name : String) (items : List Outline)
  | record (name : String) (fields : List (String × Outline))
  | list (items : List Outline)

namespace Outline

/-- The beginning of a line at a level. -/
def indent (level : Nat) : String :=
  "".pushn ' ' (4 * level)

mutual

/-- The text of an outline that begins on a line of a given level. -/
def renderAt (level : Nat) : Outline → String
  | .atom text => text
  | .group name items =>
    name ++ "(\n" ++ renderItems (level + 1) items ++ indent level ++ ")"
  | .record name fields =>
    name ++ " \x7b\n" ++ renderFields (level + 1) fields ++ indent level ++ "\x7d"
  | .list items =>
    if items.isEmpty then "[]"
    else "[\n" ++ renderItems (level + 1) items ++ indent level ++ "]"

def renderItems (level : Nat) : List Outline → String
  | [] => ""
  | item :: items =>
    indent level ++ renderAt level item ++ ",\n" ++ renderItems level items

def renderFields (level : Nat) : List (String × Outline) → String
  | [] => ""
  | (name, value) :: fields =>
    indent level ++ name ++ ": " ++ renderAt level value ++ ",\n" ++ renderFields level fields

end

def render (o : Outline) : String :=
  o.renderAt 0

/-- A part that is one of several kinds: the kind, and the part itself. -/
def variant (kind name : String) (fields : List (String × Outline)) : Outline :=
  .group kind [.record name fields]

def ofText (text : String) : Outline :=
  .atom (Text.quoted text)

end Outline

def Span.outline (s : Span) : Outline :=
  .record "SrcSpan" [("start", .atom (toString s.start)), ("end", .atom (toString s.stop))]

def Binder.outline (b : Binder) : Outline :=
  .record "Identifier" [("value", .ofText b.name), ("location", b.span.outline)]

def Token.outline : Token → Outline
  | illegal c => .group "Illegal" [.atom (Text.quotedChar c)]
  | eof => .atom "Eof"
  | ident name => .group "Ident" [.ofText name]
  | int digits => .group "Int" [.ofText digits]
  | str text => .group "String" [.ofText text]
  | assign => .atom "Assign"
  | plus => .atom "Plus"
  | minus => .atom "Minus"
  | bang => .atom "Bang"
  | asterisk => .atom "Asterisk"
  | slash => .atom "Slash"
  | less => .atom "LessThan"
  | greater => .atom "GreaterThan"
  | equal => .atom "Equal"
  | notEqual => .atom "NotEqual"
  | comma => .atom "Comma"
  | semicolon => .atom "Semicolon"
  | colon => .atom "Colon"
  | lparen => .atom "LParen"
  | rparen => .atom "RParen"
  | lbrace => .atom "LBrace"
  | rbrace => .atom "RBrace"
  | lbracket => .atom "LBracket"
  | rbracket => .atom "RBracket"
  | kwFn => .atom "Function"
  | kwLet => .atom "Let"
  | kwTrue => .atom "True"
  | kwFalse => .atom "False"
  | kwIf => .atom "If"
  | kwElse => .atom "Else"
  | kwReturn => .atom "Return"
  | kwMacro => .atom "Macro"

mutual

def Expr.outline : Expr → Outline
  | .ident s name =>
    .variant "Identifier" "Identifier" [("value", .ofText name), ("location", s.outline)]
  | .int s value =>
    .variant "Integer" "IntegerLiteral"
      [("value", .atom (toString value.toInt)), ("location", s.outline)]
  | .str s text =>
    .variant "String" "StringLiteral" [("value", .ofText text), ("location", s.outline)]
  | .bool s value =>
    .variant "Boolean" "BooleanLiteral"
      [("value", .atom (toString value)), ("location", s.outline)]
  | .unary s op right =>
    .variant "Prefix" "Prefix"
      [("operator", op.outline), ("right", right.outline), ("location", s.outline)]
  | .binary s op left right =>
    .variant "Infix" "Infix"
      [("left", left.outline), ("operator", op.outline), ("right", right.outline),
        ("location", s.outline)]
  | .index s left index =>
    .variant "Index" "Index"
      [("left", left.outline), ("index", index.outline), ("location", s.outline)]
  | .cond s condition consequence alternative =>
    .variant "If" "If"
      [("condition", condition.outline), ("consequence", consequence.outline),
        ("alternative", outlineElse alternative), ("location", s.outline)]
  | .fn s params body =>
    .variant "Function" "FunctionLiteral"
      [("parameters", .list (params.map Binder.outline)), ("body", body.outline),
        ("location", s.outline)]
  | .macroLit s params body =>
    .variant "Macro" "MacroLiteral"
      [("parameters", .list (params.map Binder.outline)), ("body", body.outline),
        ("location", s.outline)]
  | .call s callee args =>
    .variant "Call" "Call"
      [("function", callee.outline), ("arguments", .list (outlineList args)),
        ("location", s.outline)]
  | .array s elements =>
    .variant "Array" "ArrayLiteral"
      [("elements", .list (outlineList elements)), ("location", s.outline)]
  | .hash s pairs =>
    .variant "Hash" "HashLiteral"
      [("pairs", .list (outlinePairs pairs)), ("location", s.outline)]

def outlineElse : Option Block → Outline
  | none => .atom "None"
  | some block => .group "Some" [block.outline]

def outlineList : List Expr → List Outline
  | [] => []
  | e :: es => e.outline :: outlineList es

def outlinePairs : List (Expr × Expr) → List Outline
  | [] => []
  | (key, value) :: ps => .group "" [key.outline, value.outline] :: outlinePairs ps

def Stmt.outline : Stmt → Outline
  | .bind s binder value =>
    .variant "Let" "LetStatement"
      [("name", binder.outline), ("value", value.outline), ("location", s.outline)]
  | .ret s value =>
    .variant "Return" "ReturnStatement" [("value", value.outline), ("location", s.outline)]
  | .expr s value =>
    .variant "Expression" "ExpressionStatement"
      [("expression", value.outline), ("location", s.outline)]

def Block.outline : Block → Outline
  | .mk s ss =>
    .record "BlockStatement"
      [("statements", .list (outlineStatements ss)), ("location", s.outline)]

def outlineStatements : List Stmt → List Outline
  | [] => []
  | s :: ss => s.outline :: outlineStatements ss

end

def Program.outline (p : Program) : Outline :=
  .record "Program"
    [("statements", .list (outlineStatements p.statements)), ("location", p.span.outline)]

end Simian
