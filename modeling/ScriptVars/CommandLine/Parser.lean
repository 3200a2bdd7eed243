import ScriptVars.CommandLine.Basic
import ScriptVars.Text.Blank

/-!
# Reading command lines

Words are read from left to right.  What a word begins is settled when the next option or file
comes, or at the end: only then an option misses its value or is found to be repeated.

* `Word`                      what a word looks like: an option, a cluster of letters, or plain;
* `Level`                     before the command, or behind the name of one;
* `Scan`                      what has been read at one level;
* `Scan.settle`               ends what the last word has begun;
* `Scan.step`                 the next word;
* `CommandLine.parse`         the command line of some words.

Behind `--` every word is plain.  Options of all commands may stand before the command and behind
it; the settings file behind the command wins.
-/

namespace ScriptVars

/-! ### words -/

/-- what a word looks like -/
inductive Word where
  /-- two dashes by themselves -/
  | separator
  /-- two dashes and a name, with a value behind an equals sign if there is one -/
  | long (name : String) (value : Option String)
  /-- a dash and letters, each an option of its own -/
  | short (letters : List Char)
  | plain
  deriving DecidableEq, Repr

def Word.ofChars : List Char → Word
  | ['-', '-'] => separator
  | '-' :: '-' :: rest =>
    match Text.splitOnce '=' rest with
    | some (name, value) => long (String.ofList name) (some (String.ofList value))
    | none => long (String.ofList rest) none
  | '-' :: c :: rest => short (c :: rest)
  | _ => plain

/-- an option that a word may name -/
inductive NamedOption where
  | switch (x : Switch)
  | setting (x : Setting)
  | help
  | version
  deriving DecidableEq, Repr

/-- before the command, or behind its name -/
inductive Level where
  | root
  | command (name : CommandName)
  deriving DecidableEq, Repr

namespace Level

def longOption? (level : Level) (name : String) : Option NamedOption :=
  if name = "json" then some (.switch .json)
  else if name = "verbose" then some (.switch .verbose)
  else if name = "config" then some (.setting .config)
  else if name = "help" then some .help
  else if name = "version" ∧ level = root then some .version
  else if name = "modules" ∧ level ≠ root ∧ level ≠ command .pack then some (.setting .modules)
  else none

def shortOption? (level : Level) (letter : Char) : Option NamedOption :=
  if letter = 'v' then some (.switch .verbose)
  else if letter = 'h' then some .help
  else if letter = 'V' ∧ level = root then some .version
  else none

def operands : Level → Nat
  | root => 0
  | command name => name.operands

/-- whether a word is a command, `help` included -/
def isCommand (word : String) : Bool := word == "help" || (CommandName.ofText? word).isSome

/-- what is wrong with a plain word that has no place -/
def misplaced (level : Level) (onlyPlain : Bool) (word : String) : Refusal :=
  match level with
  | root => if onlyPlain && isCommand word then .unknownWord word else .unknownCommand word
  | command _ => .unknownWord word

end Level

/-! ### reading one level -/

/-- what the last word has begun -/
inductive Begun where
  | setting (x : Setting) (value : Option String)
  | operand (path : String)
  deriving DecidableEq, Repr

/-- what has been read at one level -/
structure Scan where
  switches : List Switch
  settings : List (Setting × String)
  operands : List String
  begun : Option Begun
  /-- whether `--` was read -/
  onlyPlain : Bool
  deriving DecidableEq, Repr

namespace Scan

def start : Scan := ⟨[], [], [], none, false⟩

def value? (s : Scan) (x : Setting) : Option String :=
  (s.settings.find? fun (y, _) => x == y).map Prod.snd

def enter (s : Scan) (x : Setting) (value : String) : Except Refusal Scan :=
  if (s.value? x).isSome then .error (.repeated x.text)
  else if x.isPath && value.isEmpty then .error (.noValue x.text)
  else .ok { s with settings := s.settings ++ [(x, value)] }

/-- ends what the last word has begun -/
def settle (s : Scan) : Except Refusal Scan :=
  match s.begun with
  | none => .ok s
  | some (.setting x none) => .error (.noValue x.text)
  | some (.setting x (some value)) => { s with begun := none }.enter x value
  | some (.operand path) =>
    if path.isEmpty then .error (.noValue "a file")
    else .ok { s with begun := none, operands := s.operands ++ [path] }

def option (s : Scan) (o : NamedOption) : Except Refusal Scan := do
  let s ← s.settle
  match o with
  | .switch x =>
    if s.switches.contains x then throw (.repeated x.text)
    return { s with switches := s.switches ++ [x] }
  | .setting x => return { s with begun := some (.setting x none) }
  | .help => throw .help
  | .version => throw .version

/-- an option with a value behind an equals sign -/
def optionWith (s : Scan) (o : NamedOption) (name value : String) : Except Refusal Scan :=
  match o with
  | .setting x => do (← s.settle).enter x value
  | _ => .error (.needlessValue ("--" ++ name))

def operandCount (s : Scan) : Nat :=
  s.operands.length + (match s.begun with
    | some (.operand _) => 1
    | _ => 0)

def operand (s : Scan) (level : Level) (word : String) : Except Refusal Scan :=
  if s.operandCount < level.operands then do
    return { ← s.settle with begun := some (.operand word) }
  else .error (level.misplaced s.onlyPlain word)

/-- the next word -/
def step (level : Level) (s : Scan) (word : String) : Except Refusal Scan :=
  if s.onlyPlain then s.operand level word
  else
    match Word.ofChars word.toList, s.begun with
    | .separator, _ => .ok { s with onlyPlain := true }
    | .long name none, _ =>
      match level.longOption? name with
      | some o => s.option o
      | none => .error (.unknownWord word)
    | .long name (some value), _ =>
      match level.longOption? name with
      | some o => s.optionWith o name value
      | none => .error (.unknownWord word)
    | .short letters, _ =>
      letters.foldlM (fun s c =>
        match level.shortOption? c with
        | some o => s.option o
        | none => .error (.unknownWord word)) s
    | .plain, some (.setting x none) => .ok { s with begun := some (.setting x (some word)) }
    | .plain, _ => s.operand level word

def read (level : Level) (words : List String) : Except Refusal Scan := do
  (← words.foldlM (step level) start).settle

def awaitsCommand (s : Scan) : Bool :=
  !s.onlyPlain && (match s.begun with
    | some (.setting _ none) => false
    | _ => true)

/-- whether nothing has been said -/
def isBlank (s : Scan) : Bool := s.switches.isEmpty && s.settings.isEmpty

end Scan

/-! ### the whole line -/

/-- the command that has been read behind its name -/
def Command.ofScan? (s : Scan) : CommandName → Option Command
  | .dump =>
    match s.operands with
    | [save] => some (dump save (s.value? .modules))
    | _ => none
  | .pack =>
    match s.operands with
    | [input, output] => some (pack input output)
    | _ => none
  | .prune =>
    match s.operands, s.value? .modules with
    | [save, output], some modules => some (prune save output modules)
    | _, _ => none
  | .check =>
    match s.operands with
    | [save] => some (check save (s.value? .modules))
    | _ => none

namespace CommandLine

/-- a command with what has been read before and behind its name -/
def ofScans (command : Command) (before behind : Scan) : CommandLine :=
  let given (x : Switch) : Bool := before.switches.contains x || behind.switches.contains x
  ⟨command, if given .json then .json else .listing, given .verbose,
    (behind.value? .config).or (before.value? .config)⟩

/-- the command line whose command is `name`, from the words behind it -/
def readCommand (before : Scan) (name : CommandName) (words : List String) :
    Except Refusal CommandLine := do
  let behind ← Scan.read (.command name) words
  match Command.ofScan? behind name with
  | none => throw (.missing name)
  | some command => return ofScans command (← before.settle) behind

/-- the answer to `help` and the words behind it: they may name one command -/
def helpAbout : List String → Refusal
  | [] => .help
  | [word] => if Level.isCommand word then .help else .unknownCommand word
  | word :: next :: _ => if Level.isCommand word then .unknownCommand next else .unknownCommand word

/-- reads words up to the command, and then the command -/
def readFrom : Scan → List String → Except Refusal CommandLine
  | s, [] => do
    let s ← s.settle
    throw (if s.isBlank then .nothing else .noCommand)
  | s, word :: rest =>
    if s.awaitsCommand && word == "help" then .error (helpAbout rest)
    else
      match if s.awaitsCommand then CommandName.ofText? word else none with
      | some name => readCommand s name rest
      | none => do readFrom (← s.step .root word) rest

def parse (words : List String) : Except Refusal CommandLine := readFrom .start words

end CommandLine
end ScriptVars
