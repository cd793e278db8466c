import CommandScript.Lexeme.Basic
import CommandScript.Text.WhiteSpace

/-!
The lexemes of a source text. The first character of what is left decides the kind of the next
lexeme, and the kind decides how many characters belong to it; nothing is left out. The main
statements say that the contents of the tokens make up the source again, and that no token is
empty.
-/

namespace CommandScript
set_option autoImplicit false

open Text (isWhiteSpace)

/-! ## How far a lexeme reaches -/

/-- The white space of one line. -/
def isSpace (c : Char) : Bool := c ≠ '\n' && isWhiteSpace c

/-- The characters of words: all that neither separate lexemes nor begin another kind. -/
def isWordChar (c : Char) : Bool :=
  !isWhiteSpace c && c ≠ '#' && c ≠ '"' && (LexemeKind.ofChar? c).isNone

/-- How many characters at the front satisfy `p`. -/
def runLength (p : Char → Bool) (cs : List Char) : Nat := (cs.takeWhile p).length

/-- How many characters belong to a quoted string behind its opening quote, `n` of them being
counted already. The closing quote is the last one; without it the string reaches to the end of
the line. A backslash takes the next character of the line with it. -/
def quotedLength (n : Nat) : List Char → Nat
  | [] => n
  | c :: cs =>
    if c = '\n' then n
    else if c = '"' then n + 1
    else if c = '\\' then
      match cs with
      | [] => n + 1
      | d :: rest => if d = '\n' then n + 1 else quotedLength (n + 2) rest
    else quotedLength (n + 1) cs

@[simp] theorem quotedLength_lineFeed (n : Nat) (cs : List Char) : quotedLength n ('\n' :: cs) = n := by
  unfold quotedLength
  rfl

@[simp] theorem quotedLength_quote (n : Nat) (cs : List Char) : quotedLength n ('"' :: cs) = n + 1 := by
  unfold quotedLength
  rfl

theorem quotedLength_escaped (n : Nat) {c : Char} (cs : List Char) (h : c ≠ '\n') :
    quotedLength n ('\\' :: c :: cs) = quotedLength (n + 2) cs := by
  conv => lhs; unfold quotedLength
  simp [h]

/-- A backslash before the end of the line takes nothing. -/
theorem quotedLength_backslash (n : Nat) {cs : List Char} (h : ∀ c ∈ cs.head?, c = '\n') :
    quotedLength n ('\\' :: cs) = n + 1 := by
  unfold quotedLength
  cases cs with
  | nil => rfl
  | cons c cs => simp [h c rfl]

theorem quotedLength_plain (n : Nat) {c : Char} (cs : List Char) (hfeed : c ≠ '\n')
    (hquote : c ≠ '"') (hbackslash : c ≠ '\\') :
    quotedLength n (c :: cs) = quotedLength (n + 1) cs := by
  conv => lhs; unfold quotedLength
  simp [hfeed, hquote, hbackslash]

/-- The kind of the lexeme that begins with `c`, and how many of the characters `cs` behind `c`
belong to it. -/
def leading (c : Char) (cs : List Char) : LexemeKind × Nat :=
  if c = '\n' then (.newLine, 0)
  else if c = '\r' ∧ cs.head? = some '\n' then (.newLine, 1)
  else if c = '#' then (.comment, runLength (fun d => d ≠ '\n' && d ≠ '\r') cs)
  else if c = '"' then (.quotedString, quotedLength 0 cs)
  else if isWhiteSpace c then (.whitespace, runLength isSpace cs)
  else
    match LexemeKind.ofChar? c with
    | some kind => (kind, 0)
    | none =>
      let n := runLength isWordChar cs
      (LexemeKind.ofWord (String.ofList (c :: cs.take n)), n)

/-! ## Tokens -/

/-- The tokens of `cs` behind the tokens that are already there, which are given last first. -/
def tokensOnto (there : List Token) : List Char → List Token
  | [] => there.reverse
  | c :: cs =>
    let lead := leading c cs
    tokensOnto (⟨lead.1, String.ofList (c :: cs.take lead.2)⟩ :: there) (cs.drop lead.2)
termination_by cs => cs.length
decreasing_by simp only [List.length_drop, List.length_cons]; omega

/-- The tokens of a text. -/
def tokens (cs : List Char) : List Token := tokensOnto [] cs

/-- What holds of the empty text, and of a text whenever it holds behind the first token of it,
holds of every text. -/
@[elab_as_elim]
theorem tokens_induction {motive : List Char → Prop} (nil : motive [])
    (cons : ∀ c cs, motive (cs.drop (leading c cs).2) → motive (c :: cs)) (cs : List Char) :
    motive cs := by
  induction n : cs.length using Nat.strongRecOn generalizing cs with
  | _ n ih =>
    subst n
    cases cs with
    | nil => exact nil
    | cons c cs =>
      have shorter : (cs.drop (leading c cs).2).length < (c :: cs).length := by
        simp only [List.length_drop, List.length_cons]; omega
      exact cons c cs (ih _ shorter _ rfl)

theorem tokensOnto_eq (there : List Token) (cs : List Char) :
    tokensOnto there cs = there.reverse ++ tokens cs := by
  induction cs using tokens_induction generalizing there with
  | nil => simp [tokens, tokensOnto]
  | cons c cs ih =>
    rw [tokens, tokensOnto, tokensOnto, ih, ih [_]]
    simp

@[simp] theorem tokens_nil : tokens [] = [] := by simp [tokens, tokensOnto]

theorem tokens_cons (c : Char) (cs : List Char) :
    tokens (c :: cs) =
      ⟨(leading c cs).1, String.ofList (c :: cs.take (leading c cs).2)⟩ ::
        tokens (cs.drop (leading c cs).2) := by
  rw [tokens, tokensOnto, tokensOnto_eq]
  simp

/-- Nothing of the text is lost, repeated or moved. -/
@[simp] theorem tokens_flatMap_content (cs : List Char) :
    (tokens cs).flatMap (fun t => t.content.toList) = cs := by
  induction cs using tokens_induction with
  | nil => simp
  | cons c cs ih =>
    rw [tokens_cons, List.flatMap_cons, ih]
    simp

/-! ## Lexemes -/

/-- The lexemes that the tokens make from `here` on, behind those that are already there, which
are given last first. The end of the source comes last. -/
def placeOnto (there : List Lexeme) (here : Location) : List Token → List Lexeme
  | [] => (Lexeme.endOfFile here :: there).reverse
  | token :: rest => placeOnto (token.placed here :: there) (token.placed here).stop rest

/-- The lexemes that the tokens make from `here` on. -/
def place (here : Location) (ts : List Token) : List Lexeme := placeOnto [] here ts

theorem placeOnto_eq (there : List Lexeme) (here : Location) (ts : List Token) :
    placeOnto there here ts = there.reverse ++ place here ts := by
  induction ts generalizing there here with
  | nil => simp [place, placeOnto]
  | cons t ts ih => rw [place, placeOnto, placeOnto, ih, ih [_]]; simp

@[simp] theorem place_nil (here : Location) : place here [] = [Lexeme.endOfFile here] := rfl

@[simp] theorem place_cons (here : Location) (t : Token) (ts : List Token) :
    place here (t :: ts) = t.placed here :: place (t.placed here).stop ts := by
  rw [place, placeOnto, placeOnto_eq]; simp

/-- The lexemes of a source text. -/
def lexemes (source : String) : List Lexeme := place Location.start (tokens source.toList)

end CommandScript
