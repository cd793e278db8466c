import CommandScript.Command.Basic
import CommandScript.Frames

/-! What happens while scripts are read and run, and the lines that tell it. -/

namespace CommandScript
set_option autoImplicit false

inductive Event where
  | registered (usage : String)
  | lexed (count : Nat)
  | parsed (count : Nat)
  | interpreting (s : Statement)
  | pushed (depth : Nat)
  | popped (depth : Nat)
  | got (name : String)
  | set (name : String) (v : Value)
  | soughtFunction (name : String)
  | declared (f : Function)
  | dispatched (name : String) (count : Nat)
  | called (f : Function)
  | invoked (name : String) (args : List Argument)

def Event.line : Event → String
  | registered usage => "Register " ++ usage
  | lexed count => s!"Lexed {count} lexemes"
  | parsed count => s!"Parsed {count} top-level statements"
  | interpreting s => "Interpreting " ++ s.source
  | pushed depth => s!"Push frame {depth}"
  | popped depth => s!"Pop frame {depth}"
  | got name => "Get " ++ name
  | set name v => "Set " ++ name ++ " -> " ++ v.journalText
  | soughtFunction name => "Get function " ++ name
  | declared f => "Declare " ++ f.head
  | dispatched name count => "Dispatch " ++ name ++ s!" with {count} arguments"
  | called f => "Call " ++ f.head
  | invoked name args =>
    "Invoke " ++ name ++ " with [" ++ String.intercalate ", " (args.map Argument.journalText) ++ "]"

end CommandScript
