import StaticSite.Path

/-! The command line: options that may stand in any order before the name of a command, and each
command with options of its own. -/
namespace StaticSite

/-- Why arguments are refused. Asking for help or for the version ends the reading in the same
way. -/
inductive UsageError
  | unknownArgument
  | invalidValue
  | valueValidation
  | tooManyValues
  | argumentConflict
  | invalidSubcommand
  | missingSubcommand
  | displayHelp
  | displayHelpOnMissing
  | displayVersion
  deriving DecidableEq, Repr

def UsageError.isRequest : UsageError → Bool
  | .displayHelp => true
  | .displayVersion => true
  | _ => false

namespace CommandLine

inductive Use
  | flag
  | text
  | path
  | port
  /-- A truth value that may be left out, and is then true. -/
  | switch
  | help
  | version
  deriving DecidableEq, Repr

structure Opt where
  long : Text
  short : Option Char
  use : Use
  deriving DecidableEq, Repr

def Opt.takesValue (o : Opt) : Bool :=
  match o.use with
  | .flag | .help | .version => false
  | _ => true

/-- Digits with an optional sign, within 64 bits. -/
def integer? (t : Text) : Option Int :=
  let (negative, digits) : Bool × Text :=
    match t with
    | '-' :: t => (true, t)
    | '+' :: t => (false, t)
    | t => (false, t)
  if digits = [] || !digits.all Char.isDigit then none
  else
    let n : Nat := digits.foldl (fun a c => a * 10 + (c.toNat - 0x30)) 0
    some (if negative then -(n : Int) else n)

def port? (t : Text) : Option Nat :=
  match integer? t with
  | some (.ofNat n) => if n < 65536 then some n else none
  | _ => none

def Opt.complaint (o : Opt) (value : Text) : Option UsageError :=
  match o.use with
  | .path => if value = [] then some .invalidValue else none
  | .port => if (port? value).isNone then some .valueValidation else none
  | .switch => if value = "true".toList || value = "false".toList then none else some .invalidValue
  | _ => none

structure Grammar where
  options : List Opt
  commands : List Text
  deriving Repr

/-- Values by the long name of their option. `waiting` is the option whose value may come next or
has just come; it is checked only when the next option begins. -/
structure Reading where
  given : List (Text × Text)
  waiting : Option (Opt × Option Text)
  /-- Whether the next plain argument is the value of the waiting option. -/
  open_ : Bool
  deriving Repr

def Reading.start : Reading := ⟨[], none, false⟩

/-- Takes a value for an option, which may be given once. -/
def Reading.accept (r : Reading) (o : Opt) (value : Text) : Except UsageError Reading :=
  if (r.given.lookup o.long).isSome then .error .argumentConflict
  else match o.complaint value with
    | some e => .error e
    | none => .ok { r with given := r.given ++ [(o.long, value)] }

def Reading.settle (r : Reading) : Except UsageError Reading :=
  match r.waiting with
  | none => .ok { r with open_ := false }
  | some (o, some value) => ({ r with waiting := none, open_ := false }).accept o value
  | some (o, none) =>
    if o.use = .switch then ({ r with waiting := none, open_ := false }).accept o "true".toList
    else .error .invalidValue

def Reading.begin (r : Reading) (o : Opt) (attached : Option Text) : Except UsageError Reading :=
  match r.settle with
  | .error e => .error e
  | .ok r =>
    match o.use, attached with
    | .help, _ => .error .displayHelp
    | .version, _ => .error .displayVersion
    | .flag, _ => r.accept o "true".toList
    | _, some value => r.accept o value
    | _, none => .ok { r with waiting := some (o, none), open_ := true }

def Reading.long (g : Grammar) (r : Reading) (t : Text) : Except UsageError Reading :=
  let name := t.takeWhile (· != '=')
  let attached := if name.length = t.length then none else some (t.drop (name.length + 1))
  match g.options.find? (·.long == name) with
  | none => .error .unknownArgument
  | some o => if !o.takesValue && attached.isSome then .error .tooManyValues else r.begin o attached

def Reading.letters (g : Grammar) : Reading → Text → Except UsageError Reading
  | r, [] => .ok r
  | r, c :: rest =>
    match g.options.find? (·.short == some c) with
    | none => .error .unknownArgument
    | some o =>
      if o.takesValue then
        match rest with
        | [] => r.begin o none
        | '=' :: value => r.begin o (some value)
        | value => r.begin o (some value)
      else match r.begin o none with
        | .error e => .error e
        | .ok r => letters g r rest

/-- A plain argument that is neither a command nor a value. -/
def misplaced (g : Grammar) (trailing : Bool) (t : Text) : UsageError :=
  if g.commands = [] || (trailing && g.commands.contains t) then .unknownArgument
    else .invalidSubcommand

/-- Reads arguments up to a command, which it gives with those after it. After two dashes alone
every argument is a plain one. -/
def Reading.run (g : Grammar) (r : Reading) :
    List Text → Except UsageError (Reading × Option (Text × List Text))
  | [] => .ok (r, none)
  | t :: rest =>
    if !r.open_ && g.commands.contains t then .ok (r, some (t, rest))
    else match t with
      | ['-', '-'] =>
        match rest with
        | [] => .ok (r, none)
        | t :: _ => .error (misplaced g true t)
      | '-' :: '-' :: name =>
        match r.long g name with
        | .error e => .error e
        | .ok r => r.run g rest
      | '-' :: c :: cs =>
        match r.letters g (c :: cs) with
        | .error e => .error e
        | .ok r => r.run g rest
      | value =>
        if r.open_ then
          Reading.run g
            { r with waiting := r.waiting.map fun w => (w.1, some value), open_ := false } rest
        else .error (misplaced g false t)

def helpOption : Opt := ⟨"help".toList, some 'h', .help⟩

def mainGrammar : Grammar where
  options := [⟨"root".toList, some 'r', .path⟩, ⟨"config".toList, some 'C', .path⟩,
    ⟨"source".toList, some 's', .path⟩, ⟨"destination".toList, some 'd', .path⟩,
    helpOption, ⟨"version".toList, some 'V', .version⟩]
  commands := ["build".toList, "serve".toList, "clean".toList, "help".toList]

def buildGrammar : Grammar := ⟨[⟨"clean".toList, none, .flag⟩, helpOption], []⟩
def serveGrammar : Grammar :=
  ⟨[⟨"interface".toList, some 'i', .text⟩, ⟨"port".toList, some 'p', .port⟩,
    ⟨"watch".toList, some 'w', .switch⟩, helpOption], []⟩

def cleanGrammar : Grammar := ⟨[helpOption], []⟩

def values (g : Grammar) (args : List Text) : Except UsageError (List (Text × Text)) :=
  match Reading.start.run g args with
  | .error e => .error e
  | .ok (r, _) => r.settle.map (·.given)

end CommandLine

inductive Command
  | build (clean : Bool)
  | serve (interface : Option Text) (port : Option Nat) (watch : Option Bool)
  | clean
  deriving DecidableEq, Repr

structure CommandLine where
  root : Option Path
  config : Path
  source : Option Path
  destination : Option Path
  command : Command
  deriving DecidableEq, Repr

open CommandLine in
/-- The command of a given name; `help` is answered at once, if it names commands that are there. -/
def Command.ofArgs (name : Text) (args : List Text) : Except UsageError Command :=
  if name = "build".toList then
    (values buildGrammar args).map fun vs => .build (vs.lookup "clean".toList).isSome
  else if name = "serve".toList then
    (values serveGrammar args).map fun vs =>
      .serve (vs.lookup "interface".toList) ((vs.lookup "port".toList).bind port?)
        ((vs.lookup "watch".toList).map (· = "true".toList))
  else if name = "clean".toList then (values cleanGrammar args).map fun _ => .clean
  else match args with
    | [] => .error .displayHelp
    | [topic] =>
      .error (if mainGrammar.commands.contains topic then .displayHelp else .invalidSubcommand)
    | _ => .error .invalidSubcommand

namespace CommandLine

/-- Reads the arguments after the name of the program. The command is read before the last option in
front of it is checked. -/
def ofArgs (args : List Text) : Except UsageError CommandLine :=
  match Reading.start.run mainGrammar args with
  | .error e => .error e
  | .ok (r, none) =>
    match r.settle with
    | .error e => .error e
    | .ok r => .error (if r.given = [] then .displayHelpOnMissing else .missingSubcommand)
  | .ok (r, some (name, rest)) =>
    match Command.ofArgs name rest with
    | .error e => .error e
    | .ok command =>
      r.settle.map fun r =>
        let path (name : String) : Option Path := (r.given.lookup name.toList).map Path.mk
        ⟨path "root", (path "config").getD (.ofString "_config.toml"), path "source",
          path "destination", command⟩

end CommandLine
end StaticSite
