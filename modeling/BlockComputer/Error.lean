import BlockComputer.Assembly.Encoding

/-!
Why an operation fails.

An `Error` is a cause that the user can mend, and `Error.message` is its only wording. A `Failure` is
an error or a crash: arithmetic that leaves the machine integers, or an index past an end. A crash
ends the whole run, an error only the operation.
-/

namespace BlockComputer

inductive FileError where
  | notFound
  | permissionDenied
  | alreadyExists
  | notDirectory
  | isDirectory
  | nameTooLong
  | notText
  | nulInName
  | nulInArgument
  | other (text : String)
deriving DecidableEq, Repr

def FileError.message : FileError → String
  | .notFound => "No such file or directory (os error 2)"
  | .permissionDenied => "Permission denied (os error 13)"
  | .alreadyExists => "File exists (os error 17)"
  | .notDirectory => "Not a directory (os error 20)"
  | .isDirectory => "Is a directory (os error 21)"
  | .nameTooLong => "File name too long (os error 36)"
  | .notText => "stream did not contain valid UTF-8"
  | .nulInName => "file name contained an unexpected NUL byte"
  | .nulInArgument => "nul byte found in provided data"
  | .other text => text

inductive Error where
  | noActiveScope
  | emptyChain (label : String)
  | duplicateName (name : String)
  | unknownName (name : String)
  | invalidWidth (width : Nat)
  | windowOverflow (label : String) (length window : Nat)
  | emptyWindow (what : String)
  | unknownMnemonic (text : String)
  | invalidOperand (text : String)
  | literalSwap (name : String) (literal : Int32)
  | programTooLong (words : Nat)
  | tooManyCards (cards slots : Nat)
  | noEncoding (mnemonic : String) (kinds : List Assembly.OperandKind)
      (candidates : List Assembly.Encoding)
  | fieldOverflow (value : Int) (width : Nat)
  | settingsUnreadable (path : String) (reason : FileError)
  | settingsMalformed
  | fileUnusable (reason : FileError)
  | backendNotStarted (program : String) (reason : FileError)
  | backendFailed (program : String) (status : Nat)
deriving DecidableEq, Repr

def Error.message : Error → String
  | .noActiveScope => "No active emission scope - command emitted outside a chain"
  | .emptyChain label => s!"Chain '{label}' must have at least one command"
  | .duplicateName name => s!"Duplicate variable name: {name}"
  | .unknownName name => s!"Variable '{name}' is not registered"
  | .invalidWidth width => s!"Invalid bit width {width}"
  | .windowOverflow label length window =>
    s!"Chain '{label}' is {length} units long but the relocation window only reserves {window}"
  | .emptyWindow what => s!"Relocation window for {what} has zero length"
  | .unknownMnemonic text => s!"Unknown mnemonic '{text}'"
  | .invalidOperand text => s!"Invalid operand '{text}'"
  | .literalSwap name literal =>
    s!"Invalid operand 'cannot swap {name} with literal {literal.toInt}'"
  | .programTooLong words => s!"Invalid operand 'program of {words} words does not fit in memory'"
  | .tooManyCards cards slots => s!"Invalid operand '{cards} cards, only {slots} slots'"
  | .noEncoding mnemonic kinds candidates =>
    let types := String.intercalate ", " (kinds.map Assembly.OperandKind.symbol)
    let known := String.intercalate ", " (candidates.map Assembly.Encoding.describe)
    s!"No encodings found for mnemonic {mnemonic} and types [{types}]"
      ++ s!" (possible instructions: [{known}])"
  | .fieldOverflow value width => s!"Value {value} too wide for width {width} field"
  | .settingsUnreadable path reason => s!"Configuration error: {path}: {reason.message}"
  | .settingsMalformed => "Configuration error: malformed settings"
  | .fileUnusable reason => s!"IO error: {reason.message}"
  | .backendNotStarted program reason =>
    s!"Backend error: failed to start {program}: {reason.message}"
  | .backendFailed program status =>
    s!"Backend error: {program} exited with exit status: {status}"

inductive Failure where
  | error (cause : Error)
  | crash
deriving DecidableEq, Repr

/-- The 32-bit integer of this value; a crash if there is none. -/
def narrow (n : Int) : Except Failure Int32 :=
  if -Int.pow 2 31 ≤ n ∧ n < Int.pow 2 31 then .ok (Int32.ofInt n) else .error .crash

end BlockComputer
