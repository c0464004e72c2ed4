import ScriptDecompiler.Json.Value
import ScriptDecompiler.Text.Digits

/-!
# JSON tokens

The scanner reads one character after the other and keeps the tokens so far.
Numbers and the three words are runs of characters that are looked at when they
end.  Between tokens, only space, tab, line feed and carriage return may stand.
-/

namespace ScriptDecompiler.Json

open ScriptDecompiler.Text (hexValue?)

/-- A token. -/
inductive Token where
  | beginArray | endArray | beginObject | endObject | colon | comma
  | null
  | bool (value : Bool)
  | integer (value : Int)
  | otherNumber
  | text (value : Text)
  deriving DecidableEq, Repr

/-- Is the character a decimal digit? -/
def isDigit (c : Char) : Bool :=
  '0' ≤ c && c ≤ '9'

/-- The number that decimal digits write. -/
def decimal (digits : List Char) : Nat :=
  digits.foldl (fun n c => 10 * n + (c.toNat - 48)) 0

/-- The exponent part of a number is empty, or a mark, an optional sign and at
least one digit. -/
def isExponent : List Char → Bool
  | [] => true
  | mark :: rest =>
    let digits := match rest with
      | '+' :: digits | '-' :: digits => digits
      | digits => digits
    (mark = 'e' || mark = 'E') && !digits.isEmpty && digits.all isDigit

/-- The fraction and exponent parts of a number. -/
def isFraction : List Char → Bool
  | '.' :: rest =>
    let digits := rest.takeWhile isDigit
    !digits.isEmpty && isExponent (rest.dropWhile isDigit)
  | rest => isExponent rest

/-- The token that a number without its sign writes.  Leading zeros are not
allowed, and minus zero is no integer. -/
def unsignedToken? (negative : Bool) (cs : List Char) : Option Token :=
  let digits := cs.takeWhile isDigit
  let rest := cs.dropWhile isDigit
  if digits.isEmpty || (digits.head? = some '0' && digits ≠ ['0']) || !isFraction rest then none
  else if !rest.isEmpty || (negative && digits = ['0']) then some .otherNumber
  else
    let magnitude := Int.ofNat (decimal digits)
    some (.integer (if negative then -magnitude else magnitude))

/-- The token that a run of characters writes. -/
def wordToken? (cs : List Char) : Option Token :=
  match String.ofList cs with
  | "null" => some .null
  | "true" => some (.bool true)
  | "false" => some (.bool false)
  | _ =>
    match cs with
    | '-' :: rest => unsignedToken? true rest
    | _ => unsignedToken? false cs

/-- Where in a text the scanner is: between escapes, behind a backslash, or
inside an escape with hexadecimal digits. -/
inductive TextPhase where
  | plain
  | escape
  | unicode (left value : Nat)
  deriving DecidableEq, Repr

/-- A text that is being read: its characters with the latest first, a leading
surrogate that waits for its partner, and whether all others found theirs. -/
structure TextScan where
  read : List Char
  leading : Option Nat
  paired : Bool
  phase : TextPhase
  deriving DecidableEq, Repr

namespace TextScan

/-- Nothing read yet. -/
def start : TextScan := ⟨[], none, true, .plain⟩

/-- Add a character.  A leading surrogate in front of it has no partner. -/
def add (t : TextScan) (c : Char) : TextScan :=
  ⟨c :: t.read, none, t.paired && t.leading.isNone, .plain⟩

/-- Add the code unit that an escape writes. -/
def addUnit (t : TextScan) (unit : Nat) : TextScan :=
  if 0xDC00 ≤ unit ∧ unit ≤ 0xDFFF then
    match t.leading with
    | some leading =>
      let scalar := 0x10000 + (leading - 0xD800) * 0x400 + (unit - 0xDC00)
      ⟨Char.ofNat scalar :: t.read, none, t.paired, .plain⟩
    | none => ⟨t.read, none, false, .plain⟩
  else if 0xD800 ≤ unit ∧ unit ≤ 0xDBFF then
    ⟨t.read, some unit, t.paired && t.leading.isNone, .plain⟩
  else t.add (Char.ofNat unit)

/-- The character that a short escape stands for. -/
def shortEscape? : Char → Option Char
  | '"' => some '"'
  | '\\' => some '\\'
  | '/' => some '/'
  | 'b' => some '\x08'
  | 'f' => some '\x0c'
  | 'n' => some '\n'
  | 'r' => some '\r'
  | 't' => some '\t'
  | _ => none

/-- The text that was read. -/
def finish (t : TextScan) : Text :=
  if t.paired && t.leading.isNone then some (String.ofList t.read.reverse) else none

end TextScan

/-- What the scanner is reading: nothing, a word or number with the latest
character first, or a text. -/
inductive ScanMode where
  | between
  | word (read : List Char)
  | text (scan : TextScan)

/-- The scanner: what it is reading, and the tokens so far with the latest
first. -/
structure Scanner where
  mode : ScanMode
  tokens : List Token

namespace Scanner

/-- Nothing read yet. -/
def start : Scanner := ⟨.between, []⟩

/-- May the character be part of a word or a number? -/
def isWordChar (c : Char) : Bool :=
  isDigit c || ('a' ≤ c && c ≤ 'z') || ('A' ≤ c && c ≤ 'Z') || c = '+' || c = '-' || c = '.'

/-- Read a character between tokens. -/
def stepBetween (tokens : List Token) (c : Char) : Option Scanner :=
  if c = ' ' || c = '\t' || c = '\n' || c = '\r' then some ⟨.between, tokens⟩
  else if c = '"' then some ⟨.text TextScan.start, tokens⟩
  else if isWordChar c then some ⟨.word [c], tokens⟩
  else if c = '[' then some ⟨.between, .beginArray :: tokens⟩
  else if c = ']' then some ⟨.between, .endArray :: tokens⟩
  else if c = '\x7b' then some ⟨.between, .beginObject :: tokens⟩
  else if c = '\x7d' then some ⟨.between, .endObject :: tokens⟩
  else if c = ':' then some ⟨.between, .colon :: tokens⟩
  else if c = ',' then some ⟨.between, .comma :: tokens⟩
  else none

/-- Read a character of a text.  Control characters have to be escaped. -/
def stepText (tokens : List Token) (t : TextScan) (c : Char) : Option Scanner :=
  match t.phase with
  | .plain =>
    if c = '"' then some ⟨.between, .text t.finish :: tokens⟩
    else if c = '\\' then some ⟨.text { t with phase := .escape }, tokens⟩
    else if c.toNat < 0x20 then none
    else some ⟨.text (t.add c), tokens⟩
  | .escape =>
    if c = 'u' then some ⟨.text { t with phase := .unicode 4 0 }, tokens⟩
    else (TextScan.shortEscape? c).map fun d => ⟨.text (t.add d), tokens⟩
  | .unicode left value =>
    (hexValue? c).map fun digit =>
      let next := 16 * value + digit
      if left ≤ 1 then ⟨.text (t.addUnit next), tokens⟩
      else ⟨.text { t with phase := .unicode (left - 1) next }, tokens⟩

/-- Read a character. -/
def step (s : Scanner) (c : Char) : Option Scanner :=
  match s.mode with
  | .between => stepBetween s.tokens c
  | .word read =>
    if isWordChar c then some ⟨.word (c :: read), s.tokens⟩
    else (wordToken? read.reverse).bind fun token => stepBetween (token :: s.tokens) c
  | .text scan => stepText s.tokens scan c

/-- The tokens at the end of the input. -/
def finish (s : Scanner) : Option (List Token) :=
  match s.mode with
  | .between => some s.tokens.reverse
  | .word read => (wordToken? read.reverse).map fun token => (token :: s.tokens).reverse
  | .text _ => none

end Scanner

/-- The tokens of a text. -/
def tokens? (s : String) : Option (List Token) := do
  (← s.toList.foldlM Scanner.step Scanner.start).finish

end ScriptDecompiler.Json
