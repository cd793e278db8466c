/-!
Quoted strings. A string is written between double quotes; a quote, a backslash, a line feed and a
tab inside it are written as a backslash and one character. The main statement is that reading
what was written gives the string back.
-/

namespace CommandScript.Text
set_option autoImplicit false

/-! ## Writing -/

/-- A character as it stands between the quotes. -/
def escape (c : Char) : List Char :=
  if c = '"' then ['\\', '"']
  else if c = '\\' then ['\\', '\\']
  else if c = '\n' then ['\\', 'n']
  else if c = '\t' then ['\\', 't']
  else [c]

/-- The string between quotes. -/
def quote (s : String) : String :=
  String.ofList ('"' :: (s.toList.flatMap escape ++ ['"']))

/-! ## Reading -/

/-- What a backslash followed by `c` stands for, last character first. A backslash that escapes
nothing stands for itself. -/
def unescape (c : Char) : List Char :=
  if c = '"' then ['"']
  else if c = '\\' then ['\\']
  else if c = 'n' then ['\n']
  else if c = 't' then ['\t']
  else [c, '\\']

/-- Reads on behind the opening quote. What was read so far is given last character first. There is
an answer only if the first quote that no backslash escapes is also the last character. -/
def unquoteFrom (read : List Char) : List Char → Option (List Char)
  | [] => none
  | '"' :: rest => if rest.isEmpty then some read.reverse else none
  | '\\' :: c :: rest => unquoteFrom (unescape c ++ read) rest
  | '\\' :: [] => none
  | c :: rest => unquoteFrom (c :: read) rest

/-- The string that a quoted text stands for, if it is closed where it ends. -/
def unquote? (raw : String) : Option String :=
  match raw.toList with
  | '"' :: rest => (unquoteFrom [] rest).map String.ofList
  | _ => none

/-! ## Reading what was written -/

@[simp] theorem unquoteFrom_escape (read rest : List Char) (c : Char) :
    unquoteFrom read (escape c ++ rest) = unquoteFrom (c :: read) rest := by
  by_cases h1 : c = '"'
  · subst h1; simp [escape, unescape, unquoteFrom]
  by_cases h2 : c = '\\'
  · subst h2; simp [escape, unescape, unquoteFrom]
  by_cases h3 : c = '\n'
  · subst h3; simp [escape, unescape, unquoteFrom]
  by_cases h4 : c = '\t'
  · subst h4; simp [escape, unescape, unquoteFrom]
  · simp [escape, unquoteFrom, h1, h2, h3, h4]

theorem unquoteFrom_flatMap_escape (read s : List Char) :
    unquoteFrom read (s.flatMap escape ++ ['"']) = some (read.reverse ++ s) := by
  induction s generalizing read with
  | nil => simp [unquoteFrom]
  | cons c s ih =>
    simp only [List.flatMap_cons, List.append_assoc, unquoteFrom_escape, ih]
    simp

/-- Reading a written string gives the string. -/
@[simp] theorem unquote?_quote (s : String) : unquote? (quote s) = some s := by
  simp [unquote?, quote, unquoteFrom_flatMap_escape]

end CommandScript.Text
