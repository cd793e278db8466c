import CommandScript.Lexeme.Scan
import CommandScript.Text.Quoted

/-!
Closing quotes. The scanner of a quoted string and the reader of one look for the closing quote each in its
own way: the scanner stops at the end of the line, the reader wants nothing behind the quote. Both find the
first quote that is reached when a backslash takes the next character with it.
-/

namespace CommandScript
set_option autoImplicit false

open Text (unquote? unquoteFrom)

variable {c : Char} {cs body rest part : List Char}

/-! ## The first quote -/

/-- What lies behind the first quote, if one is reached. A backslash takes the next character with
it. -/
def behindQuote? : List Char → Option (List Char)
  | [] => none
  | '"' :: rest => some rest
  | '\\' :: _ :: rest => behindQuote? rest
  | '\\' :: [] => none
  | _ :: rest => behindQuote? rest

/-- What is read behind an opening quote ends at the first quote that is reached, or it reaches none
and ends with its line. -/
def QuoteEnds (body rest : List Char) : Prop :=
  behindQuote? body = some [] ∨ behindQuote? body = none ∧ ∀ c ∈ rest.head?, c = '\n'

/-- A character that is neither a backslash before another one nor a last backslash is none. -/
theorem ne_backslash (hescaped : ∀ d ds, c = '\\' → cs = d :: ds → False)
    (hlone : c = '\\' → cs = [] → False) : c ≠ '\\' := by
  intro h
  cases cs with
  | nil => exact hlone h rfl
  | cons d ds => exact hescaped d ds h rfl

theorem behindQuote?_plain (cs : List Char) (hquote : c ≠ '"') (hbackslash : c ≠ '\\') :
    behindQuote? (c :: cs) = behindQuote? cs := by
  cases cs with
  | nil => simp [behindQuote?, hbackslash]
  | cons d cs => simp [behindQuote?, hbackslash]

/-- More text changes nothing about where the first quote is. -/
theorem behindQuote?_append (h : behindQuote? part = some rest) (more : List Char) :
    behindQuote? (part ++ more) = some (rest ++ more) := by
  fun_induction behindQuote? part with
  | case1 => cases h
  | case2 tail =>
    obtain rfl := Option.some.inj h
    rfl
  | case3 d tail ih => exact ih h
  | case4 => cases h
  | case5 d tail hquote hescaped hlone ih =>
    rw [List.cons_append, behindQuote?_plain _ hquote (ne_backslash hescaped hlone)]
    exact ih h

/-! ## What can be read -/

/-- There is something to read just if the first quote that is reached is the last character. -/
theorem isSome_unquoteFrom (read cs : List Char) :
    (unquoteFrom read cs).isSome ↔ behindQuote? cs = some [] := by
  fun_induction unquoteFrom read cs with
  | case1 => simp [behindQuote?]
  | case2 read rest hrest => simp [behindQuote?, List.isEmpty_iff.mp hrest]
  | case3 read rest hrest => simpa [behindQuote?] using hrest
  | case4 read c rest ih => rw [ih, behindQuote?]
  | case5 => simp [behindQuote?]
  | case6 read c rest hquote hescaped hlone ih =>
    rw [ih, behindQuote?_plain _ hquote (ne_backslash hescaped hlone)]

theorem isSome_unquote? (cs : List Char) :
    (unquote? (String.ofList ('"' :: cs))).isSome ↔ behindQuote? cs = some [] := by
  unfold unquote?
  rw [String.toList_ofList]
  change ((unquoteFrom [] cs).map String.ofList).isSome = true ↔ _
  rw [Option.isSome_map]
  exact isSome_unquoteFrom [] cs

theorem unquote?_eq_none {cs : List Char} (h : behindQuote? cs ≠ some []) :
    unquote? (String.ofList ('"' :: cs)) = none := by
  rw [← Option.not_isSome_iff_eq_none, isSome_unquote?]
  exact h

/-- Of the texts that a closed string begins, and of those that begin it, it alone can be read. -/
theorem isSome_unquote?_of_prefix (hbody : behindQuote? body = some [])
    (hpart : part <+: '"' :: (body ++ rest)) :
    (unquote? (String.ofList part)).isSome ↔ part = '"' :: body := by
  cases part with
  | nil => simp [unquote?]
  | cons c part =>
    obtain ⟨rfl, htail⟩ := List.cons_prefix_cons.mp hpart
    have hbegin : body <+: body ++ rest := List.prefix_append body rest
    rw [isSome_unquote?, List.cons.injEq, eq_self, true_and]
    rcases List.prefix_or_prefix_of_prefix htail hbegin with ⟨more, rfl⟩ | ⟨more, rfl⟩
    · constructor
      · intro h
        have happend := (behindQuote?_append h more).symm.trans hbody
        obtain rfl : more = [] := Option.some.inj happend
        rw [List.append_nil]
      · intro h
        rwa [← h] at hbody
    · rw [behindQuote?_append hbody more, List.nil_append]
      constructor
      · intro h
        rw [Option.some.inj h, List.append_nil]
      · intro h
        rw [List.append_right_eq_self.mp h]

/-- Nothing that begins a string without an end can be read. -/
theorem unquote?_of_prefix (hbody : behindQuote? body = none) (hpart : part <+: '"' :: body) :
    unquote? (String.ofList part) = none := by
  cases part with
  | nil => rfl
  | cons c part =>
    obtain ⟨rfl, more, rfl⟩ := List.cons_prefix_cons.mp hpart
    refine unquote?_eq_none fun h => ?_
    exact nomatch (behindQuote?_append h more).symm.trans hbody

/-! ## Why the scanner stops -/

inductive QuoteStop where
  | quote
  | lineFeed
  | textEnd
  deriving DecidableEq

/-- How far the scanner of a quoted string goes, and why not further. -/
def quotedScan (n : Nat) : List Char → Nat × QuoteStop
  | [] => (n, .textEnd)
  | c :: cs =>
    if c = '\n' then (n, .lineFeed)
    else if c = '"' then (n + 1, .quote)
    else if c = '\\' then
      match cs with
      | [] => (n + 1, .textEnd)
      | d :: rest => if d = '\n' then (n + 1, .lineFeed) else quotedScan (n + 2) rest
    else quotedScan (n + 1) cs

@[simp] theorem quotedScan_fst (n : Nat) (cs : List Char) : (quotedScan n cs).1 = quotedLength n cs := by
  fun_induction quotedScan n cs with
  | case1 n => rfl
  | case2 n cs => exact (quotedLength_lineFeed n cs).symm
  | case3 n cs => exact (quotedLength_quote n cs).symm
  | case4 n => exact (quotedLength_backslash n (by simp)).symm
  | case5 n cs =>
    refine (quotedLength_backslash n ?_).symm
    intro c hc
    exact (Option.some.inj hc).symm
  | case6 n d cs hd _ _ ih => rw [ih, quotedLength_escaped n cs hd]
  | case7 n c cs hfeed hquote hbackslash ih => rw [ih, quotedLength_plain n cs hfeed hquote hbackslash]

/-- The scanner stops for this reason behind `body`, where `rest` is left. -/
def QuoteStop.Between (body rest : List Char) : QuoteStop → Prop
  | quote => behindQuote? body = some []
  | lineFeed => behindQuote? body = none ∧ rest.head? = some '\n'
  | textEnd => behindQuote? body = none ∧ rest = []

theorem QuoteStop.between_of_ends (hends : QuoteEnds body rest) : ∃ stop, Between body rest stop := by
  rcases hends with hclosed | ⟨hopen, hstops⟩
  · exact ⟨quote, hclosed⟩
  cases rest with
  | nil => exact ⟨textEnd, hopen, rfl⟩
  | cons c rest => exact ⟨lineFeed, hopen, congrArg some (hstops c rfl)⟩

@[simp] theorem quotedScan_lineFeed (n : Nat) (cs : List Char) : quotedScan n ('\n' :: cs) = (n, .lineFeed) := by
  unfold quotedScan
  rfl

@[simp] theorem quotedScan_quote (n : Nat) (cs : List Char) : quotedScan n ('"' :: cs) = (n + 1, .quote) := by
  unfold quotedScan
  rfl

theorem quotedScan_escaped (n : Nat) {c : Char} (cs : List Char) (h : c ≠ '\n') :
    quotedScan n ('\\' :: c :: cs) = quotedScan (n + 2) cs := by
  conv => lhs; unfold quotedScan
  simp [h]

theorem quotedScan_plain (n : Nat) {c : Char} (cs : List Char) (hfeed : c ≠ '\n')
    (hquote : c ≠ '"') (hbackslash : c ≠ '\\') :
    quotedScan n (c :: cs) = quotedScan (n + 1) cs := by
  conv => lhs; unfold quotedScan
  simp [hfeed, hquote, hbackslash]

theorem quotedScan_of_between {stop : QuoteStop} (hfeed : '\n' ∉ body) (hstop : stop.Between body rest)
    (n : Nat) : quotedScan n (body ++ rest) = (n + body.length, stop) := by
  unfold QuoteStop.Between at hstop
  fun_induction behindQuote? body generalizing n with
  | case1 =>
    cases stop with
    | quote => cases hstop
    | lineFeed =>
      obtain ⟨rest, rfl⟩ := List.head?_eq_some_iff.mp hstop.2
      exact quotedScan_lineFeed n rest
    | textEnd =>
      rw [hstop.2]
      rfl
  | case2 tail =>
    cases stop with
    | quote =>
      obtain rfl : tail = [] := Option.some.inj hstop
      exact quotedScan_quote n rest
    | lineFeed | textEnd => cases hstop.1
  | case3 d tail ih =>
    have hd : d ≠ '\n' := fun h => hfeed (by simp [h])
    have htail : '\n' ∉ tail := fun h => hfeed (by simp [h])
    rw [List.cons_append, List.cons_append, quotedScan_escaped _ _ hd, ih htail hstop]
    simp only [List.length_cons, Prod.mk.injEq, and_true]
    omega
  | case4 =>
    cases stop with
    | quote => cases hstop
    | lineFeed =>
      obtain ⟨rest, rfl⟩ := List.head?_eq_some_iff.mp hstop.2
      rfl
    | textEnd =>
      rw [hstop.2]
      rfl
  | case5 d tail hquote hescaped hlone ih =>
    have hd : d ≠ '\n' := fun h => hfeed (by simp [h])
    have htail : '\n' ∉ tail := fun h => hfeed (by simp [h])
    rw [List.cons_append, quotedScan_plain _ _ hd hquote (ne_backslash hescaped hlone), ih htail hstop,
      List.length_cons]
    simp only [Prod.mk.injEq, and_true]
    omega

theorem quotedLength_of_ends (hfeed : '\n' ∉ body) (hends : QuoteEnds body rest) (n : Nat) :
    quotedLength n (body ++ rest) = n + body.length := by
  obtain ⟨stop, hstop⟩ := QuoteStop.between_of_ends hends
  rw [← quotedScan_fst, quotedScan_of_between hfeed hstop]

end CommandScript
