import ReadyUp.Support.Decimal

/-!
# Console commands

A command is a verb and its arguments, each bare or in quotes; `text` is the line that goes to
the console. The console starts a new command at the end of a line and at a semicolon outside
quotes, and a quote ends a quoted argument: a command is clean when none of its parts can do
that (`Clean`).
-/
namespace ReadyUp.Support

inductive Argument where
  | bare (s : Bytes)
  | quoted (s : Bytes)
  deriving DecidableEq

structure Command where
  verb : Bytes
  args : List Argument
  deriving DecidableEq

namespace Command

def isLineEnd (c : UInt8) : Bool := c == 10 || c == 13

def Argument.text : Argument → Bytes
  | .bare s => s
  | .quoted s => byte '"' :: (s ++ [byte '"'])

def text (c : Command) : Bytes := c.verb ++ c.args.flatMap fun a => byte ' ' :: Argument.text a

/-- No semicolon and no quote: the part stays one word of one command. -/
def bareClean (s : Bytes) : Bool := s.all fun c => !(c == byte ';' || c == byte '"' || isLineEnd c)

/-- No quote: the argument ends where it should. -/
def quotedClean (s : Bytes) : Bool := s.all fun c => !(c == byte '"' || isLineEnd c)

def Argument.clean : Argument → Bool
  | .bare s => bareClean s
  | .quoted s => quotedClean s

/-- No line end, no semicolon outside quotes and no quote inside. -/
def Clean (c : Command) : Prop := bareClean c.verb = true ∧ ∀ a ∈ c.args, Argument.clean a = true

instance (c : Command) : Decidable c.Clean := inferInstanceAs (Decidable (_ ∧ _))

end Command

end ReadyUp.Support
