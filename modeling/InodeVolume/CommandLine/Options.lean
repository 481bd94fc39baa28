/-!
# Command line options

The packing program takes three settings: the host directory to be packed, the directory in which the
image is made, and the size of the image in blocks.

| setting | long | short | value if not given |
|---|---|---|---|
| source | `--source` | `-s` | none, it is required |
| output directory | `--out-dir` | `-O` | none, it is required |
| blocks | `--blocks` | `-b` | 32768 |

A value follows as the next argument, or in the same argument behind `=`; behind a short option the `=`
can be left out. The next argument is no value if it looks like an option itself. No setting is given
twice, and nothing else may be given.
-/

namespace InodeVolume

-- `^` on numbers is that of the core library, whatever else is known of them.
attribute [local instance (high)] instPowNat

namespace CommandLine

/-- What the program is asked to do. -/
structure Options where
  source : String
  outDir : String
  blocks : Nat := 32768
  deriving DecidableEq, Repr

/-- Why arguments are not carried out. -/
inductive Refusal where
  /-- They ask for an explanation. -/
  | help
  /-- They are wrong. -/
  | usage
  deriving DecidableEq, Repr

/-! ## Single arguments -/

/-- The settings. -/
inductive Setting where
  | source
  | outDir
  | blocks
  deriving DecidableEq, Repr

/-- The setting with a long name. -/
def Setting.ofLong? (name : String) : Option Setting :=
  if name = "source" then some .source
  else if name = "out-dir" then some .outDir
  else if name = "blocks" then some .blocks
  else none

/-- The setting with a short name. -/
def Setting.ofShort? (name : Char) : Option Setting :=
  if name = 's' then some .source
  else if name = 'O' then some .outDir
  else if name = 'b' then some .blocks
  else none

/-- What an argument says by itself. -/
inductive Argument where
  /-- The end of all options. -/
  | terminator
  /-- A wish for an explanation. -/
  | help
  /-- A setting, with its value if that is in the same argument. -/
  | setting (key : Setting) (value : Option String)
  /-- Nothing that is known. -/
  | other
  deriving DecidableEq, Repr

/-- Reads a long option without its two dashes. -/
def Argument.ofLong (text : List Char) : Argument :=
  let name := String.ofList (text.takeWhile (· != '='))
  let value := match text.dropWhile (· != '=') with
    | [] => none
    | _ :: value => some (String.ofList value)
  match Setting.ofLong? name with
  | some key => .setting key value
  | none => if name = "help" ∧ value = none then .help else .other

/-- Reads a short option: its letter and what follows the letter. -/
def Argument.ofShort (letter : Char) (text : List Char) : Argument :=
  let value := match text with
    | [] => none
    | '=' :: value => some (String.ofList value)
    | value => some (String.ofList value)
  match Setting.ofShort? letter with
  | some key => .setting key value
  | none => if letter = 'h' then .help else .other

/-- Reads one argument. -/
def Argument.ofString (text : String) : Argument :=
  match text.toList with
  | ['-', '-'] => .terminator
  | '-' :: '-' :: name => .ofLong name
  | '-' :: letter :: value => .ofShort letter value
  | _ => .other

/-- Whether an argument cannot be a value because it looks like an option. -/
def looksLikeOption (text : String) : Bool :=
  match text.toList with
  | '-' :: _ :: _ => true
  | _ => false

/-! ## All arguments -/

/-- The settings given so far. -/
structure Given where
  source : Option String := none
  outDir : Option String := none
  blocks : Option Nat := none

/-- The number that a text of decimal digits writes, perhaps behind a plus sign. It has to fit in 64
bits. -/
def count? (text : String) : Option Nat :=
  let digits : List Char := match text.toList with
    | '+' :: digits => digits
    | digits => digits
  let n := digits.foldl (fun n c => 10 * n + (c.toNat - '0'.toNat)) 0
  if digits ≠ [] ∧ digits.all Char.isDigit ∧ n < 2 ^ (64 : Nat) then some n else none

/-- Adds a setting, which must not have been given before. -/
def Given.put (g : Given) (key : Setting) (value : String) : Except Refusal Given :=
  match key with
  | .source =>
    if g.source.isSome || value.isEmpty then .error .usage else .ok { g with source := some value }
  | .outDir =>
    if g.outDir.isSome || value.isEmpty then .error .usage else .ok { g with outDir := some value }
  | .blocks =>
    match g.blocks, count? value with
    | none, some n => .ok { g with blocks := some n }
    | _, _ => .error .usage

/-- Reads arguments in order and adds their settings. -/
def Given.read (g : Given) : List String → Except Refusal Given
  | [] => .ok g
  | arg :: rest =>
    match Argument.ofString arg with
    | .terminator => if rest.isEmpty then .ok g else .error .usage
    | .help => .error .help
    | .other => .error .usage
    | .setting key (some value) => do (← g.put key value).read rest
    | .setting key none =>
      match rest with
      | [] => .error .usage
      | value :: rest =>
        -- A value that is forgotten must not swallow the next option.
        if looksLikeOption value then .error .usage
        else do (← g.put key value).read rest

/-- The options that arguments give. -/
def Options.ofArgs (args : List String) : Except Refusal Options := do
  let given ← ({} : Given).read args
  match given.source, given.outDir with
  | some source, some outDir =>
    pure { source := source, outDir := outDir, blocks := given.blocks.getD 32768 }
  | _, _ => throw .usage

end CommandLine

end InodeVolume
