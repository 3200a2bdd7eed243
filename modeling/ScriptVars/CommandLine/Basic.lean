import ScriptVars.Answer
import ScriptVars.Text.Quoted

/-!
# Command lines

* `Command`            what is to be done, and with which files;
* `CommandLine`        a command with the options that all commands have;
* `Switch`, `Setting`  options without and with a value;
* `Refusal`            why some words are no command line.
-/

namespace ScriptVars

/-- what is to be done; a module list is kept as it was written -/
inductive Command where
  /-- tells everything a save holds -/
  | dump (save : String) (modules : Option String)
  /-- makes a save from a dump -/
  | pack (input output : String)
  /-- loads a save with some modules only, and writes it again -/
  | prune (save output modules : String)
  /-- loads a save and tells what was found -/
  | check (save : String) (modules : Option String)
  deriving DecidableEq, Repr

inductive CommandName where
  | dump
  | pack
  | prune
  | check
  deriving DecidableEq, Repr

namespace CommandName

def all : List CommandName := [dump, pack, prune, check]

def text : CommandName → String
  | dump => "dump"
  | pack => "pack"
  | prune => "prune"
  | check => "check"

def ofText? (s : String) : Option CommandName := all.find? (·.text == s)

def operands : CommandName → Nat
  | dump | check => 1
  | pack | prune => 2

theorem ofText?_text (n : CommandName) : ofText? n.text = some n := by cases n <;> rfl

end CommandName

/-- options that are given or not -/
inductive Switch where
  | json
  | verbose
  deriving DecidableEq, Repr

def Switch.text : Switch → String
  | json => "--json"
  | verbose => "--verbose"

/-- options with a value -/
inductive Setting where
  /-- a settings file -/
  | config
  /-- a module list -/
  | modules
  deriving DecidableEq, Repr

namespace Setting

def text : Setting → String
  | config => "--config"
  | modules => "--modules"

/-- whether the value is the path of a file, which is never empty -/
def isPath : Setting → Bool
  | config => true
  | modules => false

end Setting

/-- a command with the options that all commands have -/
structure CommandLine where
  command : Command
  style : AnswerStyle
  verbose : Bool
  /-- the settings file -/
  config : Option String
  deriving DecidableEq, Repr

/-- why some words are no command line; asking for help is one of the reasons -/
inductive Refusal where
  | help
  | version
  /-- nothing was said at all -/
  | nothing
  /-- there are options, but no command -/
  | noCommand
  | unknownCommand (word : String)
  /-- an unknown option, or a word that has no place -/
  | unknownWord (word : String)
  /-- a file or an option that the command cannot do without -/
  | missing (command : CommandName)
  /-- an option without its value, or an empty path -/
  | noValue (option : String)
  | repeated (option : String)
  /-- a value for an option that has none -/
  | needlessValue (option : String)
  deriving DecidableEq, Repr

def usage : String :=
  textOfLines [
    "Usage: scriptvars [--json] [--verbose] [--config FILE] COMMAND",
    "",
    "Commands:",
    "  dump SAVE [--modules LIST]           print every array and string in a save",
    "  pack INPUT OUTPUT                    build a save from a JSON dump",
    "  prune SAVE OUTPUT --modules LIST     keep only the listed modules of a save",
    "  check SAVE [--modules LIST]          load a save and report what it holds",
    "  help [COMMAND]                       print this text",
    "",
    "LIST holds module indices between commas, each as OLD or OLD=NEW."]

def Refusal.message : Refusal → String
  | help => usage
  | version => "scriptvars 0.4.0"
  | nothing => usage
  | noCommand => "a command is missing\n\n" ++ usage
  | unknownCommand word => "there is no command " ++ Text.quoted word ++ "\n\n" ++ usage
  | unknownWord word => "the word " ++ Text.quoted word ++ " has no place here\n\n" ++ usage
  | missing command => command.text ++ " needs more than this\n\n" ++ usage
  | noValue option => option ++ " needs a value\n\n" ++ usage
  | repeated option => option ++ " is given twice\n\n" ++ usage
  | needlessValue option => option ++ " has no value\n\n" ++ usage

/-- whether the reason is that the user asked to be told something -/
def Refusal.isQuestion : Refusal → Bool
  | help | version => true
  | _ => false

end ScriptVars
