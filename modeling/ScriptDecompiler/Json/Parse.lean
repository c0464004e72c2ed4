import ScriptDecompiler.Json.Token

/-!
# Reading JSON values

The reader keeps the arrays and objects that are open on a stack, so that values
may be nested to any depth, and takes one token after the other.
-/

namespace ScriptDecompiler.Json

/-- An array or object that is open.  Items and entries have the latest first;
`entry` is an object whose latest key has no value yet. -/
inductive Open where
  | array (items : List Value)
  | object (entries : List (Text × Value))
  | entry (key : Text) (entries : List (Text × Value))

/-- What may come next.  `separator` is a comma or the end of what is open. -/
inductive Expected where
  | value | valueOrEnd | key | keyOrEnd | colon | separator
  | nothing (result : Value)

/-- The reader: what is open, the innermost first, and what may come next. -/
structure Reader where
  stack : List Open
  expected : Expected

namespace Reader

/-- Nothing read yet. -/
def start : Reader := ⟨[], .value⟩

/-- A value is complete: put it where it belongs. -/
def complete (stack : List Open) (v : Value) : Option Reader :=
  match stack with
  | [] => some ⟨[], .nothing v⟩
  | .array items :: rest => some ⟨.array (v :: items) :: rest, .separator⟩
  | .entry key entries :: rest => some ⟨.object ((key, v) :: entries) :: rest, .separator⟩
  | .object _ :: _ => none

/-- Take a token that starts a value. -/
def begin (stack : List Open) : Token → Option Reader
  | .beginArray => some ⟨.array [] :: stack, .valueOrEnd⟩
  | .beginObject => some ⟨.object [] :: stack, .keyOrEnd⟩
  | .null => complete stack .null
  | .bool value => complete stack (.bool value)
  | .integer value => complete stack (.integer value)
  | .otherNumber => complete stack .otherNumber
  | .text value => complete stack (.text value)
  | .endArray | .endObject | .colon | .comma => none

/-- Take the key of an entry. -/
def openEntry : List Open → Token → Option Reader
  | .object entries :: rest, .text key => some ⟨.entry key entries :: rest, .colon⟩
  | _, _ => none

/-- Take the end of what is open. -/
def close : List Open → Token → Option Reader
  | .array items :: rest, .endArray => complete rest (.array items.reverse)
  | .object entries :: rest, .endObject => complete rest (.object entries.reverse)
  | _, _ => none

/-- Take a token. -/
def step (r : Reader) (token : Token) : Option Reader :=
  match r.expected with
  | .value => begin r.stack token
  | .valueOrEnd => if token = .endArray then close r.stack token else begin r.stack token
  | .key => openEntry r.stack token
  | .keyOrEnd => if token = .endObject then close r.stack token else openEntry r.stack token
  | .colon => if token = .colon then some ⟨r.stack, .value⟩ else none
  | .separator =>
    match token, r.stack with
    | .comma, .array _ :: _ => some ⟨r.stack, .value⟩
    | .comma, .object _ :: _ => some ⟨r.stack, .key⟩
    | _, stack => close stack token
  | .nothing _ => none

end Reader

/-- The value that a text writes. -/
def parse? (s : String) : Option Value := do
  match (← (← tokens? s).foldlM Reader.step Reader.start).expected with
  | .nothing result => some result
  | _ => none

end ScriptDecompiler.Json
