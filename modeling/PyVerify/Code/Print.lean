import PyVerify.Code.Syntax
import PyVerify.Number.Shortest

/-!
# Writing C code

The text of a C program: one statement to a line, four blanks to a level.
-/

namespace PyVerify.Code

def CType.text : CType → String
  | int => "int"
  | unsignedInt => "unsigned int"
  | bool => "_Bool"
  | char => "char"
  | unsignedChar => "unsigned char"
  | short => "short"
  | unsignedShort => "unsigned short"
  | long => "long"
  | unsignedLong => "unsigned long"
  | float => "float"
  | double => "double"
  | string => "char*"

def InfixOp.text : InfixOp → String
  | add => "+"
  | sub => "-"
  | mul => "*"
  | div => "/"
  | mod => "%"
  | shiftLeft => "<<"
  | shiftRight => ">>"
  | bitOr => "|"
  | bitXor => "^"
  | bitAnd => "&"
  | eq => "=="
  | notEq => "!="
  | lt => "<"
  | le => "<="
  | gt => ">"
  | ge => ">="
  | and => "&&"
  | or => "||"

def SignOp.text : SignOp → String
  | not => "!"
  | neg => "-"
  | pos => "+"
  | invert => "~"

/-- A string's body between C's quotes: escapes stay, bare quotes and line ends are escaped. -/
def literalBody : List Char → List Char
  | [] => []
  | ['\\'] => ['\\']
  | '\\' :: c :: cs => '\\' :: c :: literalBody cs
  | '"' :: cs => '\\' :: '"' :: literalBody cs
  | '\n' :: cs => '\\' :: 'n' :: literalBody cs
  | '\r' :: cs => literalBody cs
  | c :: cs => c :: literalBody cs

mutual

def Term.text : Term → String
  | .ident name => name
  | .int value => toString value
  | .float value => value.render Binary64.messageNotation
  | .str body => "\"" ++ String.ofList (literalBody body.toList) ++ "\""
  | .infix2 left op right => left.text ++ " " ++ op.text ++ " " ++ right.text
  | .joined op operands => String.intercalate (" " ++ op.text ++ " ") (texts operands)
  | .sign op operand => op.text ++ operand.text
  | .paren inner => "(" ++ inner.text ++ ")"
  | .conditional test body orelse => test.text ++ " ? " ++ body.text ++ " : " ++ orelse.text
  | .call func args => func ++ "(" ++ String.intercalate ", " (texts args) ++ ")"
  | .cast type operand => "(" ++ type.text ++ ")" ++ operand.text
  | .index base index => base.text ++ "[" ++ index.text ++ "]"
  | .member base name => base.text ++ "->" ++ name

def texts : List Term → List String
  | [] => []
  | t :: ts => t.text :: texts ts

end

def Unsupported.message : Unsupported → String
  | kind what => what
  | wideInt => "integer literal wider than 64 bits"
  | operator symbol => s!"operator '{symbol}'"
  | keywordArguments => "call with keyword arguments"
  | verifierAttribute name => s!"verifier attribute '{name}'"
  | verifierPrimitive name => s!"verifier primitive '{name}'"
  | callThrough what => s!"call through {what}"

def Placeholder.message : Placeholder → String
  | kind what => what
  | assignment cause => "assignment of " ++ cause.message
  | unpacking => "tuple unpacking"
  | augmented symbol => s!"augmented '{symbol}'"
  | augmentedAssignment cause => "augmented assignment of " ++ cause.message
  | assertion cause => "assertion over " ++ cause.message
  | expression cause => cause.message
  | loopTarget => "for loop with non-name target"
  | loopIterable => "for loop over non-range iterable"
  | rangeBound cause => "range bound " ++ cause.message
  | loopElse => "loop else clause"
  | guardElse => "else branch of the __main__ guard"

def Condition.text : Condition → String
  | term t => t.text
  | unsupported cause => s!"0 /* unsupported condition: {cause.message} */"

/-- A line of text at a level of indentation. -/
def line (level : Nat) (text : String) : String :=
  String.ofList (List.replicate (4 * level) ' ') ++ text ++ "\n"

def Placeholder.text (p : Placeholder) (level : Nat) : String :=
  line level s!"/* unsupported: {p.message} */"

def RangeHeader.text (h : RangeHeader) : String :=
  let comparison := if h.descending then ">" else "<"
  let advance := match h.step with
    | none => s!"{h.counter}++"
    | some step => s!"{h.counter} += {step.text}"
  s!"for ({h.counter} = {h.start.text}; {h.counter} {comparison} {h.stop.text}; {advance}) \x7b"

mutual

def Stmt.text (level : Nat) : Stmt → String
  | .declare type name none => line level s!"{type.text} {name};"
  | .declare type name (some value) => line level s!"{type.text} {name} = {value.text};"
  | .assign target value => line level s!"{target.text} = {value.text};"
  | .augment target op value => line level s!"{target.text} {op.text}= {value.text};"
  | .term t => line level s!"{t.text};"
  | .return value => line level s!"return {value.text};"
  | .returnUnsupported => line level "return 0;  // Could not convert complex return"
  | .break => line level "break;"
  | .continue => line level "continue;"
  | .while test body =>
    line level s!"while ({test.text}) \x7b" ++ blockText (level + 1) body ++ line level "\x7d"
  | .if branches orelse =>
    branchesText level "if" branches ++
      (match orelse with
        | none => ""
        | some body => line level "\x7d else \x7b" ++ blockText (level + 1) body) ++
      line level "\x7d"
  | .forRange header body =>
    line level header.text ++ blockText (level + 1) body ++ line level "\x7d"
  | .placeholder what => what.text level

def blockText (level : Nat) : List Stmt → String
  | [] => ""
  | s :: ss => s.text level ++ blockText level ss

/-- The branches of a conditional; `opening` is what stands before the first condition. -/
def branchesText (level : Nat) (opening : String) : List (Condition × List Stmt) → String
  | [] => ""
  | (test, body) :: rest =>
    line level s!"{opening} ({test.text}) \x7b" ++ blockText (level + 1) body ++
      branchesText level "\x7d else if" rest

end

def Function.text (f : Function) : String :=
  let params :=
    if f.params.isEmpty then "void"
    else String.intercalate ", " (f.params.map fun (type, name) => s!"{type.text} {name}")
  s!"{f.result.text} {f.name}({params}) \x7b\n" ++ blockText 1 f.body ++ "\x7d\n\n"

def Definition.text : Definition → String
  | function f => f.text
  | placeholder what => what.text 0 ++ "\n"

def Program.text (p : Program) : String :=
  let declarations := p.primitives.map fun (type, name) => s!"{type.text} {name}();\n"
  let main := blockText 1 p.main
  "#include <stdio.h>\n" ++ "#include <stdlib.h>\n" ++
    (if p.standardAssert then "#include <assert.h>\n" else "") ++ "\n" ++
    (if declarations.isEmpty then "" else String.join declarations ++ "\n") ++
    String.join (p.definitions.map Definition.text) ++
    "int main() \x7b\n" ++
    (if main.isEmpty then
      "    // No module-level statements; entry point for the model checker.\n"
    else main) ++
    "    return 0;\n" ++ "\x7d\n"

end PyVerify.Code
