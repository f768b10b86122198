/-!
# Terminal styles

Messages may be decorated with the control sequences of a color terminal. Every decorating
function takes a flag: with colors off it returns its text unchanged. `strip` removes control
sequences again.
-/

namespace Stencil.Terminal

inductive Style
  | reset | bold | dim | red | green | yellow | cyan | brightRed | brightGreen
deriving DecidableEq, Repr

def Style.parameter : Style → String
  | reset => "0"
  | bold => "1"
  | dim => "2"
  | red => "31"
  | green => "32"
  | yellow => "33"
  | cyan => "36"
  | brightRed => "91"
  | brightGreen => "92"

def Style.sequence (s : Style) : String := "\x1b[" ++ s.parameter ++ "m"

def Style.named? : String → Option Style
  | "reset" => some reset
  | "bold" => some bold
  | "dim" => some dim
  | "red" => some red
  | "green" => some green
  | "yellow" => some yellow
  | "cyan" => some cyan
  | "bright_red" => some brightRed
  | "bright_green" => some brightGreen
  | _ => none

def colorize (colors : Bool) (styles : List Style) (text : String) : String :=
  if colors && !styles.isEmpty then
    String.join (styles.map Style.sequence) ++ text ++ Style.reset.sequence
  else text

@[simp] theorem colorize_off (styles : List Style) (text : String) :
    colorize false styles text = text := by
  simp [colorize]

def errorCode (colors : Bool) (text : String) : String := colorize colors [.brightRed, .bold] text
def location (colors : Bool) (text : String) : String := colorize colors [.cyan] text
def hint (colors : Bool) (text : String) : String := colorize colors [.green] text
def suggestion (colors : Bool) (text : String) : String :=
  colorize colors [.brightGreen, .bold] text
def dim (colors : Bool) (text : String) : String := colorize colors [.dim] text

def errorHeader (colors : Bool) (code : Option String) (message : String) : String :=
  match code with
  | none => message
  | some c => if c.isEmpty then message else errorCode colors c ++ ": " ++ message

def padLeft (width : Nat) (text : String) : String :=
  String.ofList (List.replicate (width - text.length) ' ') ++ text

def sourceLine (colors : Bool) (number : Int) (content : String) (atFault : Bool) : String :=
  let marker := if atFault then ">" else " "
  let gutter := colorize colors [.yellow] (marker ++ padLeft 3 (toString number))
  let body := if atFault then colorize colors [.brightRed] content else dim colors content
  gutter ++ " | " ++ body

/-- Colors are on if forced by a non-empty setting, off if refused by one, and otherwise on
exactly on a terminal. -/
def detectColors (force refuse : Option String) (isTerminal : Bool) : Bool :=
  if (force.getD "") ≠ "" then true
  else if (refuse.getD "") ≠ "" then false
  else isTerminal

def between (lo hi c : Char) : Bool := lo ≤ c && c ≤ hi

/-- What follows a complete control sequence whose escape character was just read. -/
def afterSequence? : List Char → Option (List Char)
  | [] => none
  | '[' :: cs =>
    match (cs.dropWhile (between '0' '?')).dropWhile (between ' ' '/') with
    | [] => none
    | c :: rest => if between '@' '~' c then some rest else none
  | c :: cs => if between '@' 'Z' c || between '\\' '_' c then some cs else none

def stripFrom : Nat → List Char → List Char
  | 0, s => s
  | _ + 1, [] => []
  | fuel + 1, c :: cs =>
    if c = '\x1b' then
      match afterSequence? cs with
      | some rest => stripFrom fuel rest
      | none => c :: stripFrom fuel cs
    else c :: stripFrom fuel cs

def strip (text : String) : String :=
  String.ofList (stripFrom (text.length + 1) text.toList)

end Stencil.Terminal
