/-!
Strings in TOML text. A basic string has escapes, a literal one stands for itself; each may run over
several lines between threefold marks. A reader gives the text, and the number of characters up to
the end of the closing mark.
-/
namespace Conformance.Toml.Quoted

def isPlain (c : Char) : Bool := c == '\t' || (0x20 ≤ c.toNat && c.toNat != 0x7f)

def isLineEnd (c : Char) : Bool := c == '\n' || c == '\r'

def isSpace (c : Char) : Bool := c == ' ' || c == '\t' || c == '\r'

def apostrophe : Char := '\x27'

def isQuote (c : Char) : Bool := c == '"'

def isApostrophe (c : Char) : Bool := c == apostrophe

def hexDigit? (c : Char) : Option Nat :=
  if '0' ≤ c ∧ c ≤ '9' then some (c.toNat - '0'.toNat)
  else if 'a' ≤ c ∧ c ≤ 'f' then some (c.toNat - 'a'.toNat + 10)
  else if 'A' ≤ c ∧ c ≤ 'F' then some (c.toNat - 'A'.toNat + 10)
  else none

/-- The character whose code is written in `n` hexadecimal digits. -/
def coded? (n : Nat) (cs : List Char) : Option Char := do
  let digits ← (cs.take n).mapM hexDigit?
  let code := digits.foldl (fun code d => code * 16 + d) 0
  if digits.length = n ∧ code.isValidChar then return Char.ofNat code else none

/-- The character of an escape, without its backslash, and the length of that. -/
def escape? : List Char → Option (Char × Nat)
  | 'b' :: _ => some ('\x08', 1)
  | 't' :: _ => some ('\t', 1)
  | 'n' :: _ => some ('\n', 1)
  | 'f' :: _ => some ('\x0c', 1)
  | 'r' :: _ => some ('\r', 1)
  | 'e' :: _ => some ('\x1b', 1)
  | '"' :: _ => some ('"', 1)
  | '\\' :: _ => some ('\\', 1)
  | 'x' :: rest => (coded? 2 rest).map (·, 3)
  | 'u' :: rest => (coded? 4 rest).map (·, 5)
  | 'U' :: rest => (coded? 8 rest).map (·, 9)
  | _ => none

/-- The string goes on after `n` characters that stand for `cs`. -/
def after (cs : List Char) (n : Nat) (rest : Option (List Char × Nat)) : Option (List Char × Nat) :=
  rest.map fun r => (cs ++ r.1, n + r.2)

def basic? (cs : List Char) : Option (List Char × Nat) :=
  match cs with
  | [] => none
  | c :: rest =>
    if c = '"' then some ([], 1)
    else if c = '\\' then
      match escape? rest with
      | some (d, n) => after [d] (n + 1) (basic? (rest.drop n))
      | none => none
    else if isPlain c then after [c] 1 (basic? rest)
    else none
termination_by cs.length
decreasing_by all_goals simp only [List.length_cons, List.length_drop]; omega

def literal? (cs : List Char) : Option (List Char × Nat) :=
  match cs with
  | [] => none
  | c :: rest =>
    if c = apostrophe then some ([], 1)
    else if isPlain c then after [c] 1 (literal? rest)
    else none

/-- The end of a string over several lines: two marks before the closing ones belong to the text.
`extra` counts the marks after the closing ones. -/
def closing (mark : Char) (extra : Nat) : List Char × Nat :=
  (List.replicate (min extra 2) mark, 3 + min extra 2)

/-- The number of characters that a backslash at the end of a line takes up after itself: all white
space up to the next text. -/
def continuation? (cs : List Char) : Option Nat :=
  match cs.dropWhile isSpace with
  | '\n' :: _ => some (cs.takeWhile fun c => isSpace c || c == '\n').length
  | _ => none

def basicLines? (cs : List Char) : Option (List Char × Nat) :=
  match cs with
  | [] => none
  | c :: rest =>
    if c = '"' then
      let more := (rest.takeWhile isQuote).length
      if 2 ≤ more then some (closing '"' (more - 2)) else after [c] 1 (basicLines? rest)
    else if c = '\\' then
      match continuation? rest with
      | some n => after [] (n + 1) (basicLines? (rest.drop n))
      | none =>
        match escape? rest with
        | some (d, n) => after [d] (n + 1) (basicLines? (rest.drop n))
        | none => none
    else if isPlain c || isLineEnd c then after [c] 1 (basicLines? rest)
    else none
termination_by cs.length
decreasing_by all_goals simp only [List.length_cons, List.length_drop]; omega

def literalLines? (cs : List Char) : Option (List Char × Nat) :=
  match cs with
  | [] => none
  | c :: rest =>
    if c = apostrophe then
      let more := (rest.takeWhile isApostrophe).length
      if 2 ≤ more then some (closing apostrophe (more - 2)) else after [c] 1 (literalLines? rest)
    else if isPlain c || isLineEnd c then after [c] 1 (literalLines? rest)
    else none

/-- The length of a line end at the start. -/
def lineEnd : List Char → Nat
  | '\n' :: _ => 1
  | '\r' :: '\n' :: _ => 2
  | _ => 0

/-- The text of a string over several lines, after its opening marks. A line end right there does
not count. -/
def lines? (read : List Char → Option (List Char × Nat)) (cs : List Char) :
    Option (List Char × Nat) :=
  after [] (lineEnd cs) (read (cs.drop (lineEnd cs)))

end Conformance.Toml.Quoted
