import DecisionDiagram.Report
/-!
The command line of the comparison: two files, a connective, and a weight file. Flags may be
shortened as long as they stay unambiguous, a value may follow its flag after an equals sign, and
the last value of a flag counts. Two dashes after an equals sign give a flag nothing, which is
noticed when it is used.
-/
namespace DecisionDiagram.CommandLine

inductive Flag
  | help
  | first
  | second
  | connective
  | weights
  | logLevel
deriving DecidableEq, Repr

def spellings : List (Text × Flag) := [
  ("--help".toList, .help), ("--first_file".toList, .first), ("--second_file".toList, .second),
  ("--operator".toList, .connective), ("--weights_file".toList, .weights),
  ("--log_level".toList, .logLevel)]

inductive Given
  | text (t : String)
  | nothing
deriving DecidableEq, Repr

def Given.text? : Given → Option String
  | text t => some t
  | nothing => none

/-- Two dashes stand for nothing. -/
def Given.ofAttached (t : Text) : Given := if t = "--".toList then nothing else text t.toString

inductive Word
  | value (t : String)
  | flag (flag : Flag) (attached : Option Given)
  /-- A flag that is given what it does not take. -/
  | refused
  | ambiguous
  /-- What belongs to no flag. -/
  | stray
deriving DecidableEq, Repr

/-- A minus sign, then digits with at most one point among or before them. -/
def isNegativeNumber (t : Text) : Bool :=
  let isDigit (c : Char) := (Numeral.digit? c).isSome
  match t with
  | '-' :: rest =>
    let number := if rest.getLast? = some '\n' then rest.dropLast else rest
    let whole := number.takeWhile isDigit
    match number.dropWhile isDigit with
    | [] => !whole.isEmpty
    | '.' :: fraction => !fraction.isEmpty && fraction.all isDigit
    | _ => false
  | _ => false

def partAttached (t : Text) : Text × Option Text :=
  match t.dropWhile (· ≠ '=') with
  | '=' :: attached => (t.takeWhile (· ≠ '='), some attached)
  | _ => (t, none)

def attach (flag : Flag) (attached : Option Text) : Word :=
  match flag, attached with
  | .help, some _ => .refused
  | flag, attached => .flag flag (attached.map Given.ofAttached)

/-- The short help flag with text attached to it, which can only be its letter again. -/
def helpAgain (attached : Text) : Word :=
  if !attached.isEmpty && attached.all (· == 'h') then .flag .help none else .refused

/-- The flags that a shortened spelling may stand for. -/
def candidates (name : Text) : List (Text × Flag) :=
  spellings.filter fun (spelling, _) => name.isPrefixOf spelling

/-- An argument with a leading dash is a flag, a negative number, or a text with a space in it. -/
def classifyDashed (argument : String) (t : Text) : Word :=
  let (name, attached) := partAttached t
  match spellings.lookup name with
  | some flag => attach flag attached
  | none =>
    match if t.take 2 = "--".toList then candidates name else [] with
    | [(_, flag)] => attach flag attached
    | _ :: _ :: _ => .ambiguous
    | [] => if isNegativeNumber t || t.contains ' ' then .value argument else .stray

def classify (argument : String) : Word :=
  match argument.toList with
  | ['-'] => .value argument
  | ['-', 'h'] => .flag .help none
  | '-' :: 'h' :: '=' :: attached => helpAgain attached
  | '-' :: 'h' :: attached => helpAgain attached
  | '-' :: rest => classifyDashed argument ('-' :: rest)
  | _ => .value argument

def classifyAll : List String → List Word
  | [] => []
  | argument :: arguments =>
    if argument = "--" then .stray :: arguments.map .value
    else classify argument :: classifyAll arguments

/-- What has been asked for so far. Without a name of a weight file there are no weights. -/
structure Options where
  first : Option Given := none
  second : Option Given := none
  connective : Option Connective := some .and
  weights : Given := .text ""
  logLevel : Given := .text ""
deriving DecidableEq, Repr

structure Request where
  first : Given
  second : Given
  connective : Option Connective
  weights : Given
  logLevel : Given
deriving DecidableEq, Repr

inductive Reading
  | request (r : Request)
  | help
  | misuse
deriving DecidableEq, Repr

def Options.put (o : Options) (value : Given) : Flag → Option Options
  | .first => some { o with first := some value }
  | .second => some { o with second := some value }
  | .connective =>
    match value with
    | .text name => (Connective.ofName? name).map fun op => { o with connective := some op }
    | .nothing => some { o with connective := none }
  | .weights => some { o with weights := value }
  | .logLevel => some { o with logLevel := value }
  | .help => some o

def Options.finish (o : Options) (strays : Bool) : Reading :=
  match o.first, o.second, strays with
  | some first, some second, false => .request ⟨first, second, o.connective, o.weights, o.logLevel⟩
  | _, _, _ => .misuse

/-- Takes the words from left to right. Help, and misuse of a flag, end the reading at once; strays
and missing files are noticed at the end. -/
def take (o : Options) (strays : Bool) : List Word → Reading
  | [] => o.finish strays
  | .flag .help _ :: _ => .help
  | .flag flag (some value) :: rest =>
    match o.put value flag with
    | some o => take o strays rest
    | none => .misuse
  | .flag flag none :: .value value :: rest =>
    match o.put (.text value) flag with
    | some o => take o strays rest
    | none => .misuse
  | .flag _ none :: _ => .misuse
  | .refused :: _ => .misuse
  | .ambiguous :: _ => .misuse
  | _ :: rest => take o true rest

def readArguments (arguments : List String) : Reading :=
  let words := classifyAll arguments
  if words.contains .ambiguous then .misuse else take {} false words

/-- How a run ends: with an exit status and texts for both outputs, or with a fault that it does not
handle. -/
inductive Outcome
  | printed (status : Nat) (out err : String)
  | escaped (fault : Fault)
deriving DecidableEq, Repr

/-- The faults that a run reports in words. -/
def isReported (fault : Fault) : Bool :=
  match fault.kind with
  | .configuration | .notFound | .root | .reference | .notReady | .frozen | .value | .decoding
  | .encoding
  | .circular | .file _ => true
  | _ => false

def Given.file (fetch : String → Except Fault Text.Bytes) :
    Given → Except Fault (String × Text.Bytes)
  | text path => (fetch path).map fun bytes => (path, bytes)
  | nothing => .error .pathNotGiven

def readWeights (fetch : String → Except Fault Text.Bytes) (weights : Given) :
    Except Fault (Option Weights) := do
  if weights = .text "" then return none
  let (path, bytes) ← weights.file fetch
  return some (WeightTable.toWeights (← WeightTable.ofBytes path bytes))

def report (fetch : String → Except Fault Text.Bytes) (r : Request) : Edit (List String) := do
  if r.logLevel = .nothing then observe fun _ => .error .nameNotGiven
  let weights ← observe fun _ => readWeights fetch r.weights
  let connective ← observe fun _ => r.connective.elim (.error .nameNotGiven) .ok
  let (first, bytes) ← observe fun _ => r.first.file fetch
  let (_, a) ← Document.parse bytes first
  let (second, bytes) ← observe fun _ => r.second.file fetch
  let (_, b) ← Document.parse bytes second
  observe fun s => Report.compare s connective a b weights

def run (fetch : String → Except Fault Text.Bytes) (r : Request) : Outcome :=
  match (report fetch r).run {} with
  | .ok lines _ => .printed 0 (String.join (lines.map (· ++ "\n"))) ""
  | .error fault s =>
    if isReported fault then .printed 1 "" ("Error: " ++ (fault.message? s).getD "" ++ "\n")
    else .escaped fault

end DecisionDiagram.CommandLine
