/-
Grammar files: more commands for the console program, in JSON.

A file holds the descriptions of nodes to be added below the root.  A description says
what the node matches, what number it returns if a line may end there, and where it leads
on: to its children or to another node.  What is described anew is merged into what is
there.
-/
import CommandLines.Console.Builtin
import CommandLines.Json.Selection
import CommandLines.Json.Writer

namespace CommandLines.Console

/-- The types of described arguments. -/
inductive Kind where
  | bool
  | number (t : NumberType) (minimum? maximum? : Option t.Carrier)
  | text (k : ArgumentType.TextKind)

/-- What a described node matches. -/
inductive Form where
  | literal (word : String)
  | argument (name : String) (kind : Kind)

/-- The description of a node and of all nodes below it. -/
structure Description where
  form : Form
  /-- The number to return where a line ends at the node. -/
  result? : Option Int32 := none
  /-- The path of the node that it leads to. -/
  redirect? : Option (List String) := none
  forks : Bool := false
  /-- Whether only admins may use the node. -/
  admin : Bool := false
  children : List Description := []
  default? : Option Json := none

/-! ### Reading descriptions -/

/-- The member of a name, if there is one; several of one name do not do. -/
def single? (members : List (String × Json)) (name : String) : Option (Option Json) :=
  match members.filter (·.1 == name) with
  | [] => some none
  | [m] => some (some m.2)
  | _ => none

/-- A value with another one where it is left out. -/
def defaulting? {α : Type} (read? : Json → Option α) (absent : α) : Option Json → Option α
  | none => some absent
  | some j => read? j

/-- A number of a width.  An integer is never made from a number with a fraction. -/
def numberOfJson? : (t : NumberType) → Json → Option t.Carrier
  | .int, j => do
    let i ← j.int?
    if Int32.minValue.toInt ≤ i && i ≤ Int32.maxValue.toInt then some (Int32.ofInt i) else none
  | .long, j => do
    let i ← j.int?
    if Int64.minValue.toInt ≤ i && i ≤ Int64.maxValue.toInt then some (Int64.ofInt i) else none
  | .float, .number (.int i) => some (Number.singleOfInt i)
  | .float, .number (.double x) => some x.toFloat32
  | .float, _ => none
  | .double, j => j.double?

/-- The names of kinds; a kind also goes by its place among them. -/
def kindNames : List String :=
  ["bool", "integer", "long", "float", "double", "word", "string", "greedy"]

/-- The name of a kind. -/
def kindName? : Json → Option String
  | .string name => some name
  | j => j.nat?.bind (kindNames[·]?)

/-- A kind with bounds, if it is one that has bounds. -/
def Kind.bounded? (name : String) (minimum? maximum? : Option Json) : Option Kind :=
  let number (t : NumberType) := do
    let minimum? ← Json.optional? (numberOfJson? t) minimum?
    let maximum? ← Json.optional? (numberOfJson? t) maximum?
    return Kind.number t minimum? maximum?
  match name with
  | "integer" => number .int
  | "long" => number .long
  | "float" => number .float
  | "double" => number .double
  | _ => none

/-- A kind without bounds, if it is one that has none. -/
def Kind.plain? : String → Option Kind
  | "bool" => some .bool
  | "word" => some (.text .word)
  | "string" => some (.text .phrase)
  | "greedy" => some (.text .rest)
  | _ => none

/-- A kind: an object with its name and its bounds, or all of these in a row. -/
def Kind.ofJson? : Json → Option Kind
  | .object members => do
    let name ← kindName? (← ← single? members "kind")
    match Kind.plain? name with
    | some kind => some kind
    | none => Kind.bounded? name (← single? members "min") (← single? members "max")
  | .array [name] => do Kind.plain? (← kindName? name)
  | .array [name, minimum, maximum] => do
    Kind.bounded? (← kindName? name) (some minimum) (some maximum)
  | _ => none

/-- The form of a node: that of a literal if there is one, and otherwise that of an argument. -/
def Form.ofMembers? (members : List (String × Json)) : Option Form :=
  match single? members "literal" with
  | some (some (.string word)) => some (.literal word)
  | _ => do
    let name ← (← ← single? members "argument").string?
    let kind ← Kind.ofJson? (← ← single? members "type")
    return .argument name kind

/-- A list of strings. -/
def stringsOfJson? (j : Json) : Option (List String) := do
  (← j.array?).mapM Json.string?

/-- A description without its children. -/
def Description.ofMembers? (members : List (String × Json)) : Option Description := do
  return {
    form := ← Form.ofMembers? members
    result? := ← Json.optional? (numberOfJson? .int) (← single? members "result")
    redirect? := ← Json.optional? stringsOfJson? (← single? members "redirect")
    forks := ← defaulting? Json.bool? false (← single? members "fork")
    admin := ← defaulting? Json.bool? false (← single? members "admin")
    default? := ← Json.optional? some (← single? members "default") }

mutual

/-- The description in an object. -/
def Description.ofJson? : Json → Option Description
  | .object members => do
    let d ← Description.ofMembers? members
    match ← Description.childrenOf? members with
    | [] => return d
    | [children] => return { d with children }
    | _ => none
  | _ => none

/-- What each member called `children` holds. -/
def Description.childrenOf? : List (String × Json) → Option (List (List Description))
  | [] => some []
  | (name, .array items) :: rest =>
    if name == "children" then do
      let children ← Description.ofItems? items
      return children :: (← Description.childrenOf? rest)
    else Description.childrenOf? rest
  | (name, _) :: rest => if name == "children" then none else Description.childrenOf? rest

/-- The descriptions in a list. -/
def Description.ofItems? : List Json → Option (List Description)
  | [] => some []
  | j :: rest => do return (← Description.ofJson? j) :: (← Description.ofItems? rest)

end

/-- The descriptions in a file: an object with a list called `commands`, or that list alone in
another one.  What else the object holds may be anything that has the form of a value. -/
def descriptions? (text : String) : Option (List Description) := do
  match ← Json.readWanted? (· == "commands") text with
  | .object members => Description.ofItems? (← (← ← single? members "commands").array?)
  | .array [.array items] => Description.ofItems? items
  | _ => none

/-! ### Adding what is described -/

/-- Why a grammar file is of no use. -/
inductive GrammarError where
  /-- There is no text at this path. -/
  | unreadable (path : String)
  /-- The text is not that of a grammar file. -/
  | malformed (path : String)
  | literalWithDefault (word : String)
  | unfitDefault (value : Json) (argument : String)
  | redirectWithChildren (node : String)
  | forkWithoutRedirect (node : String)
  | unknownTarget (path : List String)
  /-- A step of a draft was refused. -/
  | refused (e : DraftError)
  /-- A draft could not be added to the tree. -/
  | missing (node : Tree.MissingNode)

/-- What is said about it. -/
def GrammarError.message : GrammarError → String
  | .unreadable path => "failed to read grammar file '" ++ path ++ "'"
  | .malformed path => "failed to parse grammar file '" ++ path ++ "'"
  | .literalWithDefault word => "literal '" ++ word ++ "' cannot have a default value"
  | .unfitDefault value argument =>
    "default value " ++ value.sorted.compact ++ " does not fit argument '" ++ argument ++ "'"
  | .redirectWithChildren node => "node '" ++ node ++ "' cannot have both children and a redirect"
  | .forkWithoutRedirect node => "node '" ++ node ++ "' forks without a redirect target"
  | .unknownTarget path => "redirect target '" ++ " ".intercalate path ++ "' is not registered"
  | .refused e => e.message
  | .missing node => "redirect target NodeId(" ++ toString node.id.index ++ ") is not in this tree"

/-- The type of a kind. -/
def Kind.type : Kind → ArgumentType
  | .bool => .bool
  | .number t minimum? maximum? => .number t (minimum?.getD t.lowest) (maximum?.getD t.highest)
  | .text k => .text k

/-- A JSON value as a value of a kind, whatever the bounds. -/
def Kind.value? : Kind → Json → Option Value
  | .bool, j => j.bool?.map Value.bool
  | .number .float _ _, j => j.double?.map fun x => ⟨.number .float, x.toFloat32⟩
  | .number t _ _, j => (numberOfJson? t j).map fun x => ⟨.number t, x⟩
  | .text _, j => j.string?.map Value.text

/-- The name of a node. -/
def Form.name : Form → String
  | .literal word => word
  | .argument name _ => name

/-- A step that goes on unless the draft refuses it. -/
def step (e : Except DraftError Plan) : Except GrammarError Plan := e.mapError .refused

/-- The draft of what a node matches, with its default. -/
def Form.draft (default? : Option Json) : Form → Except GrammarError Plan
  | .literal word =>
    if default?.isSome then .error (.literalWithDefault word) else .ok (.literal word)
  | .argument name kind =>
    match default? with
    | none => .ok (.argument name kind.type)
    | some j =>
      match kind.value? j with
      | some v => step ((Draft.argument name kind.type).withDefault v)
      | none => .error (.unfitDefault j name)

/-- A redirect to a path. -/
def redirectTo (t : Grammar) (path : List String) (forks : Bool) :
    Except GrammarError (Redirect Passing) :=
  match t.find? path with
  | none => .error (.unknownTarget path)
  | some target => .ok { target, modifier? := if forks then some .same else none, forks }

mutual

/-- The draft of a described node in view of a tree. -/
def Description.draft (t : Grammar) : Description → Except GrammarError Plan
  | ⟨form, result?, redirect?, forks, admin, children, default?⟩ => do
    let plan ← form.draft default?
    let plan := if admin then plan.onlyFor User.admin else plan
    let plan := result?.elim plan fun n => plan.runs (.constant n)
    match redirect? with
    | some path =>
      if !children.isEmpty then .error (.redirectWithChildren form.name)
      else step (plan.redirects (← redirectTo t path forks))
    | none =>
      if forks then .error (.forkWithoutRedirect form.name)
      else Description.addTo t plan children

/-- A draft with the children that are described. -/
def Description.addTo (t : Grammar) (plan : Plan) : List Description → Except GrammarError Plan
  | [] => .ok plan
  | d :: ds => do
    let child ← d.draft t
    let plan ← step (plan.withChild child)
    Description.addTo t plan ds

end

/-- Add described nodes below the root, one after another, so that each may lead to those before. -/
def extend (t : Grammar) : List Description → Except GrammarError Grammar
  | [] => .ok t
  | d :: ds => do
    let (t, _) ← (t.register (← d.draft t)).mapError .missing
    extend t ds

/-- The tree with the commands of a file, given the file's text if it could be read. -/
def load (t : Grammar) (path : String) (text? : Option String) : Except GrammarError Grammar :=
  match text? with
  | none => .error (.unreadable path)
  | some text =>
    match descriptions? text with
    | none => .error (.malformed path)
    | some ds => extend t ds

end CommandLines.Console
