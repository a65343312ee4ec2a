import Testbed.CommandLine.Key
import Testbed.Decimal.Numeral
import Testbed.Path
import Testbed.Text.Quoted
import Testbed.Text.Search

/-!
# Command lines

A command line is read in two passes.  First every word is told apart: options, which may be
shortened as long as one name alone starts like that, and other words.  Then the options take their
values in order.  Words that no option takes are refused at the end, all together.
-/

namespace Testbed.CommandLine

/-! ## Arguments -/

inductive Format where
  | text
  | json
deriving DecidableEq, Repr

def Format.label : Format → String
  | .text => "text"
  | .json => "json"

def Format.ofLabel? (s : String) : Option Format :=
  [Format.text, .json].find? (·.label = s)

/-- What is given for an option that takes a value.  Two hyphens behind an equals sign are a value
that is left blank. -/
inductive Given (α : Type) where
  | absent
  | blank
  | value (x : α)
deriving DecidableEq, Repr

/-- What the options of a command line say. -/
structure Arguments where
  config : Given Path := .absent
  /-- In order; a blank one is `none`. -/
  components : List (Option String) := []
  runner : Given String := .absent
  runnerConfig : Given String := .absent
  failFast : Bool := false
  parallelism : Given Int := .absent
  noCapture : Bool := false
  timeout : Given String := .absent
  retries : Given Int := .absent
  /-- A blank one is `none`. -/
  format : Option Format := some .text
  verbose : Bool := false
deriving DecidableEq

/-! ## Errors -/

/-- Why a command line is refused. -/
inductive UsageError where
  | ambiguous (word : String) (candidates : List String)
  | noValue (key : Key)
  | unwantedValue (key : Key) (value : String)
  | notInteger (key : Key) (value : String)
  | noSuchFormat (value : String)
  | unrecognized (words : List String)
deriving DecidableEq, Repr

def UsageError.message : UsageError → String
  | .ambiguous word candidates =>
    "ambiguous option: " ++ word ++ " could match " ++ ", ".intercalate candidates
  | .noValue key => "argument " ++ key.title ++ ": expected one argument"
  | .unwantedValue key value =>
    "argument " ++ key.title ++ ": ignored explicit argument " ++ Text.quoted value
  | .notInteger key value =>
    "argument " ++ key.title ++ ": invalid int value: " ++ Text.quoted value
  | .noSuchFormat value =>
    "argument " ++ Key.format.title ++ ": invalid choice: " ++ Text.quoted value ++
      " (choose from 'text', 'json')"
  | .unrecognized words => "unrecognized arguments: " ++ " ".intercalate words

/-- Why no arguments are obtained: the help is asked for, or the command line is refused. -/
inductive Stop where
  | help
  | refused (e : UsageError)
deriving DecidableEq, Repr

/-! ## Words -/

inductive Word where
  /-- Anything but an option. -/
  | plain (text : String)
  /-- Two hyphens; no option follows. -/
  | separator
  | option (key : Key) (name : String) (attached : Option String)
  /-- What looks like an option but is none. -/
  | unknown (text : String)
deriving DecidableEq, Repr

/-- What stands before and behind the first equals sign. -/
def splitEquals (cs : List Char) : Option (String × String) :=
  match cs.dropWhile (· ≠ '=') with
  | [] => none
  | _ :: value => some (String.ofList (cs.takeWhile (· ≠ '=')), String.ofList value)

/-- A word of several characters, the first of which is a hyphen, is a negative number: such words
are no options.  A line feed may follow the number. -/
def isNegativeNumber (cs : List Char) : Bool :=
  let cs := if cs.getLast? = some '\n' then cs.dropLast else cs
  let whole := cs.tail.takeWhile Text.isDecimalDigit
  match cs.tail.dropWhile Text.isDecimalDigit with
  | [] => !whole.isEmpty
  | c :: fraction => c = '.' && !fraction.isEmpty && fraction.all Text.isDecimalDigit

/-- The options that a word may stand for, though it is the full name of none.  A word with two
hyphens starts like their names; a word with one is a short name with letters attached to it. -/
def candidates (word : String) : List Word :=
  match word.toList with
  | '-' :: '-' :: _ =>
    let (start, attached) := match splitEquals word.toList with
      | some (start, value) => (start, some value)
      | none => (word, none)
    (spellings.filter fun (name, _) ↦ start.toList.isPrefixOf name.toList).map
      fun (name, key) ↦ .option key name attached
  | '-' :: c :: rest =>
    (spellings.filter fun (name, _) ↦ name = String.ofList ['-', c]).map
      fun (name, key) ↦ .option key name (some (String.ofList rest))
  | _ => []

def Word.name? : Word → Option String
  | .option _ name _ => some name
  | _ => none

/-- The option whose full name a word is, or starts with before an equals sign. -/
def fullyNamed? (word : String) : Option Word :=
  match keyOf? word, splitEquals word.toList with
  | some key, _ => some (.option key word none)
  | none, some (name, value) => (keyOf? name).map (.option · name (some value))
  | none, none => none

/-- Tells what a word is, other than two hyphens. -/
def classify (word : String) : Except UsageError Word :=
  match word.toList with
  | '-' :: _ :: _ =>
    match fullyNamed? word, candidates word with
    | some w, _ => .ok w
    | none, [w] => .ok w
    | none, [] =>
      .ok (if isNegativeNumber word.toList || word.toList.contains ' ' then .plain word
        else .unknown word)
    | none, ws => .error (.ambiguous word (ws.filterMap Word.name?))
  | _ => .ok (.plain word)

/-- Tells what the words of a command line are. -/
def classifyAll : List String → Except UsageError (List Word)
  | [] => .ok []
  | word :: rest =>
    if word = "--" then .ok (.separator :: rest.map .plain)
    else do
      let w ← classify word
      let ws ← classifyAll rest
      .ok (w :: ws)

/-! ## Options -/

/-- A value, unless it is two hyphens. -/
def Given.ofText (text : String) : Given String :=
  if text = "--" then .blank else .value text

def integerOf (key : Key) (text : String) : Except UsageError (Given Int) :=
  match Given.ofText text with
  | .value s => match Decimal.integer 10 s.toList with
    | .ok n => .ok (.value n)
    | .error _ => .error (.notInteger key s)
  | _ => .ok .blank

def formatOf (text : String) : Except UsageError (Option Format) :=
  match Given.ofText text with
  | .value s => match Format.ofLabel? s with
    | some f => .ok (some f)
    | none => .error (.noSuchFormat s)
  | _ => .ok none

def Given.map {α β : Type} (f : α → β) : Given α → Given β
  | .absent => .absent
  | .blank => .blank
  | .value x => .value (f x)

def Given.value? {α : Type} : Given α → Option α
  | .value x => some x
  | _ => none

/-- Takes a value for an option; `attached` values may be blank. -/
def Arguments.put (a : Arguments) (key : Key) (text : String) : Except UsageError Arguments :=
  match key with
  | .config => .ok { a with config := (Given.ofText text).map Path.ofString }
  | .component => .ok { a with components := a.components ++ [(Given.ofText text).value?] }
  | .runner => .ok { a with runner := Given.ofText text }
  | .runnerConfig => .ok { a with runnerConfig := Given.ofText text }
  | .timeout => .ok { a with timeout := Given.ofText text }
  | .parallelism => do .ok { a with parallelism := ← integerOf key text }
  | .retries => do .ok { a with retries := ← integerOf key text }
  | .format => do .ok { a with format := ← formatOf text }
  | .help | .failFast | .noCapture | .verbose => .error (.unwantedValue key text)

/-- Turns a switch on. -/
def Arguments.switch (a : Arguments) (key : Key) : Except Stop Arguments :=
  match key with
  | .help => .error .help
  | .failFast => .ok { a with failFast := true }
  | .noCapture => .ok { a with noCapture := true }
  | .verbose => .ok { a with verbose := true }
  | key => .error (.refused (.noValue key))

/-- The switches that letters attached to a short name stand for, the first of them given. -/
def cluster (key : Key) : List Char → Except UsageError (List Key)
  | [] => .ok [key]
  | c :: rest =>
    match keyOf? (String.ofList ['-', c]) with
    | some next => do .ok (key :: (← cluster next rest))
    | none => .error (.unwantedValue key (String.ofList (c :: rest)))

/-- The switches that a word turns on, given what is attached to the name. -/
def switches (key : Key) (name : String) : Option String → Except UsageError (List Key)
  | none => .ok [key]
  | some attached =>
    if attached = "" ∨ name.toList.take 2 = ['-', '-'] then .error (.unwantedValue key attached)
    else cluster key attached.toList

/-- Lets the options take their values; `extra` words are left over so far. -/
def interpret (a : Arguments) (extra : List String) : List Word → Except Stop Arguments
  | [] => if extra.isEmpty then .ok a else .error (.refused (.unrecognized extra))
  | .plain text :: rest => interpret a (extra ++ [text]) rest
  | .separator :: rest => interpret a (extra ++ ["--"]) rest
  | .unknown text :: rest => interpret a (extra ++ [text]) rest
  | .option key name attached :: rest =>
    if key.takesValue then
      match attached, rest with
      | some text, rest => do
        let a ← (a.put key text).mapError .refused
        interpret a extra rest
      | none, .plain text :: rest => do
        let a ← (a.put key text).mapError .refused
        interpret a extra rest
      | none, _ => .error (.refused (.noValue key))
    else do
      let keys ← (switches key name attached).mapError .refused
      let a ← keys.foldlM Arguments.switch a
      interpret a extra rest

/-- The arguments that the words of a command line mean. -/
def parse (words : List String) : Except Stop Arguments := do
  let ws ← (classifyAll words).mapError .refused
  interpret {} [] ws

end Testbed.CommandLine
