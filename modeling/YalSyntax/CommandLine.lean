import YalSyntax.Encoding
import YalSyntax.Excerpt
import YalSyntax.Source

namespace YalSyntax

namespace CommandLine

structure Options where
  input : String
  tokens : Bool
  compact : Bool
deriving DecidableEq, Repr

/-- Why the command processes no input. -/
inductive Halt
  | version
  | help
  | misuse
deriving DecidableEq, Repr

inductive Flag
  | tokens
  | compact
  | verbose
  | version
  | help
deriving DecidableEq, Repr

def Flag.ofName? : String → Option Flag
  | "tokens" => some tokens
  | "compact" => some compact
  | "verbose" => some verbose
  | "version" => some version
  | "help" => some help
  | _ => none

def Flag.ofLetter? : Char → Option Flag
  | 'v' => some verbose
  | 'V' => some version
  | 'h' => some help
  | _ => none

/-- What the arguments read so far say. -/
structure Draft where
  input : Option String
  tokens : Bool
  compact : Bool
deriving DecidableEq, Repr

namespace Draft

def empty : Draft := ⟨none, false, false⟩

/-- Take an argument as the input. There is only one. -/
def addInput (draft : Draft) (argument : String) : Except Halt Draft :=
  match draft.input with
  | none => .ok { draft with input := some argument }
  | some _ => .error .misuse

/-- Take a flag. Only the verbose one may be repeated. -/
def addFlag (draft : Draft) : Flag → Except Halt Draft
  | .tokens => if draft.tokens then .error .misuse else .ok { draft with tokens := true }
  | .compact => if draft.compact then .error .misuse else .ok { draft with compact := true }
  | .verbose => .ok draft
  | .version => .error .version
  | .help => .error .help

def addName (draft : Draft) (text : List Char) : Except Halt Draft :=
  match Flag.ofName? (String.ofList (text.takeWhile (· ≠ '='))) with
  | none => .error .misuse
  | some flag => if text.contains '=' then .error .misuse else draft.addFlag flag

def addLetter (draft : Draft) (letter : Char) : Except Halt Draft :=
  match Flag.ofLetter? letter with
  | none => .error .misuse
  | some flag => draft.addFlag flag

def addArgument (draft : Draft) (argument : String) : Except Halt Draft :=
  match argument.toList with
  | ['-'] => draft.addInput argument
  | '-' :: '-' :: text => draft.addName text
  | '-' :: letters => letters.foldlM addLetter draft
  | _ => draft.addInput argument

/-- Take all arguments. Behind `--` each one is an input. -/
def addArguments (draft : Draft) : List String → Except Halt Draft
  | [] => .ok draft
  | argument :: rest =>
    if argument = "--" then rest.foldlM addInput draft
    else do addArguments (← draft.addArgument argument) rest

end Draft

/-- What the arguments ask for. The first one that is wrong, or that asks for the version or for help,
decides. -/
def readArguments (arguments : List String) : Except Halt Options := do
  let draft ← Draft.empty.addArguments arguments
  match draft.input with
  | none => .error .misuse
  | some input => .ok ⟨input, draft.tokens, draft.compact⟩

inductive ReadFailure
  | invalidText
  | system (reason : String) (code : Nat)
deriving DecidableEq, Repr

/-- What the command leaves behind: its exit code and what it writes. -/
structure Answer where
  code : Nat
  output : String
  errors : String
deriving DecidableEq, Repr

namespace Halt

/-- What is written here besides the version is left to the library that reads the arguments. -/
def answer : Halt → Answer
  | version => ⟨0, "yal 0.1.0\n", ""⟩
  | help => ⟨0, "", ""⟩
  | misuse => ⟨2, "", ""⟩

end Halt

namespace ReadFailure

def reason : ReadFailure → String
  | invalidText => "stream did not contain valid UTF-8"
  | system reason code => s!"{reason} (os error {code})"

end ReadFailure

namespace Options

def layout (options : Options) : Json.Layout := if options.compact then .compact else .indented

def inputName (options : Options) : String :=
  if options.input = "-" then "stdin" else s!"file '{options.input}'"

def document (options : Options) (source : String) : Except SyntaxError Json :=
  if options.tokens then
    match scan source with
    | .ok tokens => .ok (.array (tokens.map Token.toJson))
    | .error error => .error (.lex error)
  else (parseSource source).map Program.toJson

def answerText (options : Options) (source : String) : Answer :=
  match options.document source with
  | .ok document => ⟨0, (document.render options.layout).push '\n', ""⟩
  | .error error => ⟨1, "", error.report source⟩

def refuse (options : Options) (failure : ReadFailure) : Answer :=
  ⟨1, "", s!"Error reading {options.inputName}: {failure.reason}\n"⟩

/-- The answer for the bytes of the input, if it can be read. -/
def answer (options : Options) (content : Except ReadFailure ByteArray) : Answer :=
  match content with
  | .ok bytes =>
    match String.fromUTF8? bytes with
    | some source => options.answerText source
    | none => options.refuse .invalidText
  | .error failure => options.refuse failure

end Options

/-- The answer to a list of arguments, when `read` gives the content of the standard input `-` and
of files. -/
def answer (read : String → Except ReadFailure ByteArray) (arguments : List String) : Answer :=
  match readArguments arguments with
  | .ok options => options.answer (read options.input)
  | .error halt => halt.answer

end CommandLine

end YalSyntax
