import ScriptHost.Script.Tree

/-!
# Purity — parts of a script that can be left out

A part is pure if running it changes nothing and cannot fail; only its value, if anybody wants it, would
be missed.  Calls and operators never count as pure, for they may fail.
-/

namespace ScriptHost.Script

/-! ## 1. Pure parts -/

mutual

def Expr.isPure : Expr → Bool
  | .constant .. | .var .. | .moduleVariable .. => true
  | .template parts _ | .array parts _ | .and parts _ | .or parts _ | .coalesce parts _ =>
    allPure parts
  | .map entries _ => entriesPure entries
  | .block body _ => bodyPure body
  | .closure _ captures _ _ => captures.isEmpty
  | _ => false

def allPure : List Expr → Bool
  | [] => true
  | e :: es => e.isPure && allPure es

def entriesPure : List (String × Expr) → Bool
  | [] => true
  | (_, e) :: es => e.isPure && entriesPure es

/-- A loop is pure only if it is plain that it ends, and no loop over values is. -/
def Stmt.isPure : Stmt → Bool
  | .skip _ => true
  | .expr e => e.isPure
  | .block body _ => bodyPure body
  | .branch guard yes no _ => guard.isPure && bodyPure yes && bodyPure no
  | .select subject cases _ => subject.isPure && casesPure cases && hasDefault cases
  | .loop (some (.constant (.bool false) _)) _ _ _ => true
  | .loopThen body (.constant (.bool b) _) goal _ _ => b != goal && bodyPure body
  | .attempt body _ handler _ => bodyPure body && bodyPure handler
  | _ => false

def bodyPure : List Stmt → Bool
  | [] => true
  | s :: ss => s.isPure && bodyPure ss

def casesPure : List Case → Bool
  | [] => true
  | .mk _ none action :: cs => action.isPure && casesPure cs
  | .mk _ (some guard) action :: cs => guard.isPure && action.isPure && casesPure cs

def hasDefault : List Case → Bool
  | [] => false
  | .mk patterns _ _ :: cs => patterns.isEmpty || hasDefault cs

end

/-- Whether a statement can be left out of a block in which nothing follows it: there, a variable with
    a pure value may go too. -/
def Stmt.isIdle : Stmt → Bool
  | .define _ _ value _ => value.all Expr.isPure
  | .obtain path _ => path.isPure
  | .offer .. => true
  | .expr (.block body _) => body.all fun
    | .define _ _ value _ => value.all Expr.isPure
    | .obtain path _ => path.isPure
    | .offer .. => true
    | s => s.isPure
  | s => s.isPure

/-! ## 2. Other traits of statements -/

mutual

/-- Whether a statement declares something for those behind it, so that it needs a block of its own. -/
def Stmt.declares : Stmt → Bool
  | .define .. | .obtain .. | .offer .. => true
  | .block body _ => bodyDeclares body
  | _ => false

def bodyDeclares : List Stmt → Bool
  | [] => false
  | s :: ss => s.declares || bodyDeclares ss

end

namespace Stmt

/-- Whether nothing behind the statement is reached. -/
def goesElsewhere : Stmt → Bool
  | leave .. | proceed _ | ret .. | throw .. => true
  | _ => false

/-- Whether a block that ends with the statement has its value. -/
def hasValue : Stmt → Bool
  | expr _ | block .. | branch .. | select .. => true
  | _ => false

end Stmt

end ScriptHost.Script
