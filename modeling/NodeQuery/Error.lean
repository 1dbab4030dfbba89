import NodeQuery.HostValue

/-!
# Errors

Every error is a cause; the words for it are in one place, and so is the code that groups causes.
An error inside a handler is kept whole as the source of the error that the call ends with.
-/

namespace NodeQuery

inductive NodeSetPlace where
  | root
  | step
  | predicate
  | union
deriving DecidableEq, Repr

def NodeSetPlace.description : NodeSetPlace → String
  | .root => "'/'"
  | .step => "a path step"
  | .predicate => "a predicate"
  | .union => "'|'"

/-- The ways in which a value can be of the wrong kind. -/
inductive TypeFault where
  | emptyStack
  | operand (place : NodeSetPlace) (found : ValueKind)
  | argument (function : String) (found : ValueKind)
  | selection (selector : String) (found : ValueKind)
  | reported (message : String)
deriving DecidableEq, Repr

/-- The words for a value of the wrong kind. -/
def TypeFault.message : TypeFault → String
  | .emptyStack => "evaluation stack underflow"
  | .operand place found => s!"{place.description} requires a node-set, got {found.name}"
  | .argument function found => s!"{function}() expects a node-set, got {found.name}"
  | .selection selector found =>
    s!"selector '{selector}' produced a {found.name} instead of a node-set"
  | .reported message => message

/-- The ways in which a selector can be refused: it does not follow the grammar, or it follows the
grammar and has no path. -/
inductive SelectorFault where
  | malformed
  | unsupported
deriving DecidableEq, Repr

mutual

/-- The causes for which an evaluation ends without a value.  With `capacityOverflow` it is broken off and
no error is returned. -/
inductive Error where
  | undefinedFunction (name : String)
  | invalidReturn (function : String) (found : Unrepresentable)
  | malformedExpression (expression : String)
  | refusedSelector (selector : String) (fault : SelectorFault)
  | handlerFailed (function : String) (source : HandlerFailure)
  | type (fault : TypeFault)
  | arity (function : String) (given : Nat)
  | undefinedVariable (name : String)
  | capacityOverflow

inductive HandlerFailure where
  | text (message : String)
  | argumentCount (function : String) (expected given : Nat)
  | evaluation (cause : Error)

end

/-- The groups of errors. -/
inductive ErrorCode where
  | handler
  | type
  | expressionText
  | variable
  | function
  | selectorText
deriving DecidableEq, Repr

/-- The written form of a code. -/
def ErrorCode.text : ErrorCode → String
  | .handler => "err:FOER0000"
  | .type => "err:XPTY0004"
  | .expressionText => "err:XPST0003"
  | .variable => "err:XPST0008"
  | .function => "err:XPST0017"
  | .selectorText => "err:SEL0001"

namespace Error

/-- The group an error belongs to, if it is one that is returned. -/
def code : Error → Option ErrorCode
  | .undefinedFunction _ | .arity .. => some .function
  | .invalidReturn .. | .type _ => some .type
  | .malformedExpression _ => some .expressionText
  | .refusedSelector .. => some .selectorText
  | .handlerFailed .. => some .handler
  | .undefinedVariable _ => some .variable
  | .capacityOverflow => none

/-- The words for an error. -/
def message : Error → String
  | .undefinedFunction name => s!"undefined function: {name}"
  | .invalidReturn function found =>
    s!"function {function}() returned a value of type {found.description}, " ++
      "which is not a valid expression result"
  | .malformedExpression expression => s!"invalid expression '{expression}'"
  | .refusedSelector selector .malformed => s!"invalid selector '{selector}'"
  | .refusedSelector selector .unsupported =>
    s!"invalid selector '{selector}': unsupported selector"
  | .handlerFailed function _ => s!"function {function}() failed"
  | .type fault => s!"type error: {fault.message}"
  | .arity function given => s!"function {function}() cannot be called with {given} argument(s)"
  | .undefinedVariable name => s!"undefined variable: ${name}"
  | .capacityOverflow => "capacity overflow"

end Error

def HandlerFailure.message : HandlerFailure → String
  | .text message => message
  | .argumentCount function expected given =>
    s!"{function}() takes {expected} argument(s) but {given} were given"
  | .evaluation cause => cause.message

end NodeQuery
