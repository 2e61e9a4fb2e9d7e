/- Causes of failure, each stated once, with the wording of those that carry a message. -/

namespace CHeader

/- Why an operation of this library did not succeed. -/
inductive Fault where
  /- A name that is looked up is not there. -/
  | missingName
  /- A value is not of the kind an operation needs. -/
  | wrongKind
  /- A thing does not have the part that is asked for. -/
  | missingPart
  /- A position lies outside a text or list. -/
  | outOfRange
  /- A value of the right kind has no meaning here. -/
  | badValue
  /- Division or remainder by zero. -/
  | divisionByZero
  /- A number is too large for its place. -/
  | overflow
  /- A file has no more lines. -/
  | endOfLines
  /- Nested operations go deeper than the limit. -/
  | tooDeep
  /- A count goes down from below zero and meets no end. -/
  | endless
  /- A closing parenthesis is missing before a token. -/
  | unexpectedToken (token : String)
  /- A header stops the run by itself. -/
  | errorDirective (line : String)
  /- A directive stands where none of its group is open. -/
  | strayDirective (line : String)
  /- No directory of the search path has the file. -/
  | fileNotFound (name : String)
  /- A file includes itself too often. -/
  | recursiveInclude (path : String)
  /- A directory is opened as a file. -/
  | isDirectory
  /- A file or library cannot be opened. -/
  | cannotOpen
  /- No text encoding has the name. -/
  | unknownEncoding
  /- A file is not in its encoding at all. -/
  | undecodable
  /- A text has characters that an encoding lacks. -/
  | unencodable
  /- A file or its directory is not there. -/
  | noSuchFile
  /- A text is not data in object notation. -/
  | unreadableData
  /- A number carries too many size letters. -/
  | invalidNumber (digits : String)
  /- An integer kind has no unsigned form. -/
  | unknownIntegerKind
  /- A reserved name stands where an operator is due. -/
  | reservedName (name : String)
  /- A command line is not understood. -/
  | badUsage (code : Int)
  /- A command line is refused with a text. -/
  | refused (text : String)
  /- The text is not a sequence of C declarations. -/
  | syntaxError
  /- An argument does not fit a parameter type. -/
  | badArgument
  /- A constant is of a type without values here. -/
  | invalidConstantType (name : String)
  /- A rule that callers promise to keep is broken. -/
  | brokenRule
  /- A name is not a part of a collection of names. -/
  | missingAttribute (owner : String) (name : String)
  /- A failure with wording of its own. -/
  | described (kind : String) (text : String)
  deriving DecidableEq, Repr, Inhabited

namespace Fault

-- Wording

def message? : Fault → Option String
| unexpectedToken token =>
    some ("Unexpected token: " ++ token)
| errorDirective line => some line
| strayDirective line => some line
| fileNotFound name =>
    some ("File " ++ name ++ " not found.")
| recursiveInclude path =>
    some ("Recursive include of file " ++ path ++ " detected.")
| invalidNumber digits =>
    some ("Invalid number: " ++ digits)
| unknownIntegerKind =>
    some "name 's' is not defined"
| reservedName name =>
    some (name ++ " is not an allowed value.")
| invalidConstantType name =>
    some ("Invalid type: " ++ name)
| missingAttribute owner name =>
    some ("'" ++ owner ++ "' object has no attribute '" ++ name ++ "'")
| described _ text => some text
| _ => none

def kind : Fault → String
| missingName => "KeyError"
| wrongKind => "TypeError"
| missingPart => "AttributeError"
| outOfRange => "IndexError"
| badValue => "ValueError"
| divisionByZero => "ZeroDivisionError"
| overflow => "OverflowError"
| endOfLines => "StopIteration"
| tooDeep => "RecursionError"
| endless => "RecursionError"
| unexpectedToken _ => "SyntaxError"
| errorDirective _ => "SyntaxError"
| strayDirective _ => "OSError"
| fileNotFound _ => "OSError"
| recursiveInclude _ => "ValueError"
| isDirectory => "IsADirectoryError"
| cannotOpen => "OSError"
| unknownEncoding => "LookupError"
| undecodable => "UnicodeError"
| unencodable => "UnicodeEncodeError"
| noSuchFile => "FileNotFoundError"
| unreadableData => "JSONDecodeError"
| invalidNumber _ => "ValueError"
| unknownIntegerKind => "NameError"
| reservedName _ => "ValueError"
| badUsage _ => "SystemExit"
| refused _ => "SystemExit"
| syntaxError => "ParseError"
| badArgument => "ArgumentError"
| invalidConstantType _ => "ValueError"
| brokenRule => "AssertionError"
| missingAttribute _ _ => "AttributeError"
| described kind _ => kind

end Fault

end CHeader
