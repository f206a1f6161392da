namespace FrontEnd.CommandLine

inductive Emission where
  | all
  | lexer
  | properties
  | ir
  deriving DecidableEq

def Emission.ofWord? : String → Option Emission
  | "all" => some all
  | "lexer" => some lexer
  | "properties" => some properties
  | "ir" => some ir
  | _ => none

structure Options where
  /-- A description or a folder of them; the standard input where there is none. -/
  input : Option String := none
  output : Option String := none
  emit : Option String := none
  verbose : Bool := false
  listBuiltins : Bool := false

inductive Demand where
  | run (options : Options)
  | version
  | help
  | misuse (reason : String)

inductive Setting where
  | input
  | output
  | emit
  deriving DecidableEq

namespace Setting

def ofName? : String → Option Setting
  | "--input" => some input
  | "--output" => some output
  | "--emit" => some emit
  | _ => none

def ofLetter? : Char → Option Setting
  | 'i' => some input
  | 'o' => some output
  | _ => none

/-- Gives the setting a value, if it has none yet. -/
def give? (s : Setting) (value : String) (o : Options) : Option Options :=
  match s with
  | input => if o.input.isSome then none else some { o with input := some value }
  | output => if o.output.isSome then none else some { o with output := some value }
  | emit => if o.emit.isSome then none else some { o with emit := some value }

end Setting

/-- What one argument does before the rest is looked at. -/
inductive Progress where
  | continue (options : Options)
  | await (setting : Setting) (options : Options)
  | stop (demand : Demand)

def setVerbose (o : Options) : Progress :=
  if o.verbose then .stop (.misuse "--verbose is given twice")
  else .continue { o with verbose := true }

def setListBuiltins (o : Options) : Progress :=
  if o.listBuiltins then .stop (.misuse "--list-builtins is given twice")
  else .continue { o with listBuiltins := true }

def assign (s : Setting) (value : String) (o : Options) : Progress :=
  match s.give? value o with
  | some o => .continue o
  | none => .stop (.misuse "an option is given twice")

/-- Takes the letters behind a single dash. A letter for a setting takes the rest as its value. -/
def letters (o : Options) : List Char → Progress
  | [] => .continue o
  | c :: cs =>
    match Setting.ofLetter? c with
    | some s =>
      match cs with
      | [] => .await s o
      | '=' :: value => assign s (String.ofList value) o
      | value => assign s (String.ofList value) o
    | none =>
      if c = 'V' then .stop .version
      else if c = 'h' then .stop .help
      else if c = 'v' then
        match setVerbose o with
        | .continue o => letters o cs
        | other => other
      else .stop (.misuse ("unexpected argument -" ++ String.singleton c))

def long (o : Options) (argument : String) : Progress :=
  let name := String.ofList (argument.toList.takeWhile (· ≠ '='))
  match Setting.ofName? name with
  | some s =>
    match argument.toList.dropWhile (· ≠ '=') with
    | [] => .await s o
    | _ :: value => assign s (String.ofList value) o
  | none =>
    match argument with
    | "--verbose" => setVerbose o
    | "--list-builtins" => setListBuiltins o
    | "--version" => .stop .version
    | "--help" => .stop .help
    | _ => .stop (.misuse ("unexpected argument " ++ argument))

def take (o : Options) (argument : String) : Progress :=
  match argument.toList with
  | '-' :: '-' :: _ => long o argument
  | '-' :: c :: cs => letters o (c :: cs)
  | _ => .stop (.misuse ("unexpected argument " ++ argument))

/-- The argument can be the value of a setting: it does not look like an option. -/
def isValue (argument : String) : Bool := !argument.startsWith "-" || argument == "-"

/-- Reads the arguments in order; `awaited` is the setting whose value comes next. -/
def read (o : Options) (awaited : Option Setting) : List String → Demand
  | [] =>
    match awaited with
    | none => .run o
    | some _ => .misuse "an option lacks its value"
  | argument :: arguments =>
    let progress : Progress := match awaited with
      | none =>
        if argument = "--" && arguments.isEmpty then .continue o else take o argument
      | some s =>
        if isValue argument then assign s argument o
        else .stop (.misuse "an option lacks its value")
    match progress with
    | .continue o => read o none arguments
    | .await s o => read o (some s) arguments
    | .stop demand => demand

def Demand.ofArguments (arguments : List String) : Demand := read {} none arguments

end FrontEnd.CommandLine
