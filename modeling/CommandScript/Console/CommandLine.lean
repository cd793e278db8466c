import CommandScript.Console.Basic

/-!
The command line: without arguments a console on the standard input, with one argument the script in
that file, with more an error. The exit code tells which way it ended.
-/

namespace CommandScript
set_option autoImplicit false

inductive Invocation where
  | console
  | script (path : String)
  | misuse
  deriving DecidableEq

def Invocation.ofArguments : List String → Invocation
  | [] => console
  | [path] => script path
  | _ => misuse

/-- Why a file cannot be read. -/
inductive ReadFailure where
  | notFound
  | isDirectory
  | notText
  | other (reason : String)
  deriving DecidableEq

def ReadFailure.message : ReadFailure → String
  | notFound => "No such file or directory (os error 2)"
  | isDirectory => "Is a directory (os error 21)"
  | notText => "stream did not contain valid UTF-8"
  | other reason => reason

/-- The end of the program: its exit code and what it wrote. -/
structure Outcome where
  code : Nat
  out : String
  err : String
  deriving DecidableEq

namespace Outcome

def ofTerminal (code : Nat) (t : Terminal) : Outcome := ⟨code, t.out, t.err⟩

def misuse : Outcome := ⟨2, "", "Usage: lsf [script.lsf]\n"⟩

/-- What comes of a script, given the content of its file. -/
def ofScript (path : String) (content : Except ReadFailure ByteArray) : Outcome :=
  let text := content.bind fun bytes =>
    match String.fromUTF8? bytes with
    | some source => .ok source
    | none => .error .notText
  match text with
  | .error f => ⟨1, "", "Failed to read " ++ path ++ ": " ++ f.message ++ "\n"⟩
  | .ok source =>
    match Console.start.session.run source with
    | (.ok (), s) => ofTerminal 0 s.machine.host
    | (.error e, s) => ofTerminal 1 (s.machine.host.writeError (e.message ++ "\n"))

/-- The lines of an input, each with the line feed that ends it. -/
def linesOf (input : ByteArray) : List ByteArray :=
  let (lines, last) := input.foldl
    (fun (lines, line) b =>
      if b = 10 then (line.push b :: lines, ByteArray.empty) else (lines, line.push b))
    (([] : List ByteArray), ByteArray.empty)
  (if last.isEmpty then lines else last :: lines).reverse

/-- What comes of a console whose whole input is known. -/
def ofConsole (input : ByteArray) : Outcome :=
  let r := Console.start.interact ((linesOf input).map String.fromUTF8?)
  ofTerminal (if r.1 then 0 else 1) r.2.terminal

/-- What comes of a command line, given the files and the input. -/
def ofArguments (args : List String) (file : String → Except ReadFailure ByteArray)
    (input : ByteArray) : Outcome :=
  match Invocation.ofArguments args with
  | .console => ofConsole input
  | .script path => ofScript path (file path)
  | .misuse => misuse

end Outcome

end CommandScript
