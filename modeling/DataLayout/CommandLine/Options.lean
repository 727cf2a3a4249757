import DataLayout.Output

/-!
# Command line options

A command line names an input file and options with values. The value of an option follows it
as the next word or in the same word, with or without an equals sign; a word that begins with a
dash is never taken for the value of the option before it. Two dashes end the options. Words are
taken in first and then checked: what is required must be there, every option must have a value,
the value must be one of those it may have, and only include directories can be given more than
once.
-/

set_option autoImplicit false

namespace DataLayout.CommandLine

inductive LogLevel where
  | off
  | error
  | warn
  | info
  | debug
  | trace
  deriving DecidableEq, Repr

def LogLevel.ofName? : String → Option LogLevel
  | "off" => some .off
  | "error" => some .error
  | "warn" => some .warn
  | "info" => some .info
  | "debug" => some .debug
  | "trace" => some .trace
  | _ => none

structure Options where
  input : String
  output : String
  generator : Format
  includeDirs : List String
  emitLayout : Option String
  logLevel : Option LogLevel
  deriving DecidableEq, Repr

inductive OptionError where
  | missingRequired
  | invalidValue
  | unknownArgument
  | emptyValue
  | repeated
  | helpRequested
  | versionRequested
  deriving DecidableEq, Repr

inductive Flag where
  | output
  | generator
  | includeDir
  | emitLayout
  | logLevel
  deriving DecidableEq, Repr

namespace Flag

def all : List Flag := [.output, .generator, .includeDir, .emitLayout, .logLevel]

def ofLong? : String → Option Flag
  | "output" => some .output
  | "generator" => some .generator
  | "include" => some .includeDir
  | "emit-layout" => some .emitLayout
  | "log-level" => some .logLevel
  | _ => none

def ofShort? : Char → Option Flag
  | 'o' => some .output
  | 'g' => some .generator
  | 'I' => some .includeDir
  | _ => none

def allows : Flag → String → Bool
  | .generator, v => v == Format.asm68k.name || v == Format.cheader.name
  | .logLevel, v => (LogLevel.ofName? v).isSome
  | _, _ => true

def isRepeatable : Flag → Bool
  | .includeDir => true
  | _ => false

end Flag

inductive Pending where
  | nothing
  | value (flag : Flag)
  | settled
  deriving DecidableEq, Repr

structure Matches where
  input : Option String
  given : List Flag
  values : List (Flag × String)
  pending : Pending
  onlyPositional : Bool
  deriving DecidableEq, Repr

namespace Matches

def empty : Matches := ⟨none, [], [], .nothing, false⟩

def valuesOf (m : Matches) (flag : Flag) : List String :=
  (m.values.filter (·.1 == flag)).map Prod.snd

def positional (m : Matches) (word : String) : Except OptionError Matches :=
  match m.input with
  | none => .ok { m with input := some word }
  | some _ => .error .unknownArgument

/-- Takes in an option, with its value if that stands in the same word. Equals signs before the
value are not part of it. -/
def option (m : Matches) (flag : Flag) (value : Option (List Char)) : Matches :=
  match value with
  | none => { m with given := m.given ++ [flag], pending := .value flag }
  | some cs =>
    { m with
      given := m.given ++ [flag]
      values := m.values ++ [(flag, String.ofList (cs.dropWhile (· == '=')))]
      pending := .settled }

/-- Takes in a word that begins with two dashes, given by its characters. -/
def long (m : Matches) (cs : List Char) : Except OptionError Matches :=
  let body := cs.dropWhile (· == '-')
  let name := String.ofList (body.takeWhile (· != '='))
  let value := if cs.contains '=' then some ((body.dropWhile (· != '=')).drop 1) else none
  match Flag.ofLong? name with
  | some flag => .ok (m.option flag value)
  | none =>
    if name = "help" then .error .helpRequested
    else if name = "version" then .error .versionRequested
    else .error .unknownArgument

/-- Takes in a word that begins with one dash, given by the characters behind it. -/
def short (m : Matches) : List Char → Except OptionError Matches
  | [] => .error .unknownArgument
  | c :: cs =>
    match Flag.ofShort? c with
    | some flag => .ok (m.option flag (if cs = [] then none else some cs))
    | none =>
      if c = 'h' then .error .helpRequested
      else if c = 'V' then .error .versionRequested
      else .error .unknownArgument

def word (m : Matches) (w : String) : Except OptionError Matches :=
  if m.onlyPositional then m.positional w
  else
    match w.toList with
    | ['-', '-'] => .ok { m with onlyPositional := true }
    | '-' :: '-' :: cs => m.long cs
    | '-' :: c :: cs => m.short (c :: cs)
    | _ =>
      match m.pending with
      | .value flag => .ok { m with values := m.values ++ [(flag, w)], pending := .settled }
      | _ => m.positional w

def words (m : Matches) : List String → Except OptionError Matches
  | [] => .ok m
  | w :: ws =>
    match m.word w with
    | .error e => .error e
    | .ok m' => m'.words ws

def checkRequired (m : Matches) : Except OptionError Unit :=
  if m.input.isSome && m.given.contains .output && m.given.contains .generator then .ok ()
  else .error .missingRequired

/-- An option at the end that is still waiting must have had a value before. -/
def checkPending (m : Matches) : Except OptionError Unit :=
  match m.pending with
  | .value flag => if m.valuesOf flag = [] then .error .emptyValue else .ok ()
  | _ => .ok ()

def checkFlag (m : Matches) (flag : Flag) : Except OptionError Unit :=
  if !m.given.contains flag then .ok ()
  else if m.valuesOf flag = [] then .error .emptyValue
  else if !(m.valuesOf flag).all flag.allows then .error .invalidValue
  else if 1 < m.given.count flag && !flag.isRepeatable then .error .repeated
  else .ok ()

def checkFlags (m : Matches) : List Flag → Except OptionError Unit
  | [] => .ok ()
  | flag :: flags =>
    match m.checkFlag flag with
    | .error e => .error e
    | .ok _ => m.checkFlags flags

def options? (m : Matches) : Option Options := do
  let input ← m.input
  let output ← (m.valuesOf .output).head?
  let generator ← (m.valuesOf .generator).head?.bind Format.ofName?
  return {
    input, output, generator
    includeDirs := m.valuesOf .includeDir
    emitLayout := (m.valuesOf .emitLayout).head?
    logLevel := (m.valuesOf .logLevel).head?.bind LogLevel.ofName? }

def options (m : Matches) : Except OptionError Options := do
  m.checkRequired
  m.checkPending
  m.checkFlags Flag.all
  match m.options? with
  | some o => return o
  | none => throw .missingRequired

end Matches

def Options.ofWords (words : List String) : Except OptionError Options :=
  match Matches.empty.words words with
  | .error e => .error e
  | .ok m => m.options

end DataLayout.CommandLine
