/-!
# Options on a command line

An option has a long name and perhaps a letter. It takes a value, or it is a mere flag. The
value follows as an argument of its own, or is attached: `--seed 5`, `--seed=5`, `-s 5`, `-s5` and
`-s=5` all mean the same. Flags may share one dash with what comes after them, as in `-qs5`. After
`--` there are no more options.
-/

namespace CityCrew.CommandLine

structure Switch where
  name : String
  letter : Option Char
  takesValue : Bool

inductive Item where
  | free (text : String)
  | flag (name : String)
  | setting (name value : String)
deriving DecidableEq

inductive Saying where
  | whole (items : List Item)
  /-- The value of the option with the given name is still to come. -/
  | awaiting (items : List Item) (name : String)

def sayLetters (known : List Switch) (items : List Item) : List Char → Option Saying
  | [] => some (.whole items)
  | c :: rest => do
    let switch ← known.find? (·.letter == some c)
    if switch.takesValue then
      match rest with
      | [] => return .awaiting items switch.name
      | '=' :: value => return .whole (items ++ [.setting switch.name (String.ofList value)])
      | value => return .whole (items ++ [.setting switch.name (String.ofList value)])
    else sayLetters known (items ++ [.flag switch.name]) rest

def sayLong (known : List Switch) (text : List Char) : Option Saying := do
  let name := text.takeWhile (· != '=')
  let switch ← known.find? (·.name == String.ofList name)
  match text.drop name.length with
  | [] =>
    if switch.takesValue then return .awaiting [] switch.name
    else return .whole [.flag switch.name]
  | _ :: value =>
    if switch.takesValue then return .whole [.setting switch.name (String.ofList value)]
    else none

/-- Reads one argument. A single dash is a free argument. -/
def say (known : List Switch) (text : String) : Option Saying :=
  match text.toList with
  | '-' :: '-' :: long => sayLong known long
  | ['-'] => some (.whole [.free text])
  | '-' :: letters => sayLetters known [] letters
  | _ => some (.whole [.free text])

def isValue (text : String) : Bool :=
  text == "-" || text.toList.head? != some '-'

def items? (known : List Switch) : List String → Option (List Item)
  | [] => some []
  | first :: rest =>
    if first = "--" then some (rest.map .free)
    else
      match say known first with
      | none => none
      | some (.whole items) => (items? known rest).map (items ++ ·)
      | some (.awaiting items name) =>
        match rest with
        | [] => none
        | value :: rest =>
          if isValue value then
            (items? known rest).map fun later => items ++ .setting name value :: later
          else none

namespace Item

def free? : Item → Option String
  | free text => some text
  | _ => none

def name? : Item → Option String
  | free _ => none
  | flag name => some name
  | setting name _ => some name

end Item

/-- The free arguments, in runs that no option interrupts. -/
def freeRuns (items : List Item) : List (List String) :=
  let runs := items.splitBy fun a b => a.free?.isSome && b.free?.isSome
  (runs.map fun run => run.filterMap Item.free?).filter fun run => !run.isEmpty

def isUnrepeated (items : List Item) : Bool :=
  (items.filterMap Item.name?).Nodup

def isGiven (items : List Item) (name : String) : Bool :=
  items.any fun item => item.name? == some name

def value? (items : List Item) (name : String) : Option String :=
  items.findSome? fun
    | .setting other value => if other = name then some value else none
    | _ => none

end CityCrew.CommandLine
