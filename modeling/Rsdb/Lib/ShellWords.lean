/-
# The words of a shell command line

How a POSIX shell cuts a line into tokens: bytes are read one by one, and what a
byte means depends on the quotes around it and on what has been read so far
(`State.step`). A line comes to words, operators and comments; where an
expansion begins (`$` or a backquote that no quotes protect) the recognition
stops, for how far it reaches depends on what it is.

`fields` is what a command line means when nothing in it is special: each token
a word, no expansion in it, the quotes removed. The rules `lex_literals` and
`lex_single` say what unquoted and quoted bytes do to the word they are in.
-/
import Mathlib.Data.List.Basic

namespace Rsdb

namespace ShellWords

/-! ### Tokens -/

/-- A byte of a word, and whether it is quoted. -/
structure Piece where
  byte : UInt8
  quoted : Bool
  deriving DecidableEq

/-- A word as it is read, before its quotes are taken off. -/
abbrev Word := List Piece

/-- What a line is made of. -/
inductive Token where
  | word (word : Word)
  | operator (text : List UInt8)
  | comment
  deriving DecidableEq

/-- How the recognition ends. -/
inductive Ending where
  | complete
  /-- A quote is not closed, or nothing follows a backslash. -/
  | unterminated
  /-- An expansion begins here. -/
  | expansion (rest : List UInt8)
  deriving DecidableEq

/-- The tokens of a line, and how it ends. -/
structure Lexed where
  tokens : List Token
  ending : Ending
  deriving DecidableEq

/-- With more tokens before. -/
def Lexed.after (lexed : Lexed) (tokens : List Token) : Lexed := ⟨tokens ++ lexed.tokens, lexed.ending⟩

/-- The token that is being read. -/
inductive Pending where
  | nothing
  | word (word : Word)
  | operator (text : List UInt8)

namespace Pending

/-- The token, when it ends here. -/
def delimit : Pending → List Token
  | nothing => []
  | word w => [.word w]
  | operator text => [.operator text]

/-- The word a byte goes to that is part of a word, and the token that ends before it. -/
def grow : Pending → List Token × Word
  | nothing => ([], [])
  | word w => ([], w)
  | operator text => ([.operator text], [])

end Pending

/-- What the bytes before have left open. -/
inductive State where
  | plain (pending : Pending)
  | single (word : Word)
  | double (word : Word)
  /-- After a backslash. -/
  | escaped (pending : Pending)
  /-- After a backslash in double quotes. -/
  | escapedIn (word : Word)
  | comment

/-- What one byte does. -/
inductive Move where
  | next (tokens : List Token) (state : State)
  | expansion

/-! ### Recognition -/

/-- The end of a line. -/
def newline : UInt8 := 10

/-- It keeps most of what is in it. -/
def doubleQuote : UInt8 := 34

/-- It keeps all that is in it. -/
def singleQuote : UInt8 := 39

/-- It keeps the byte behind it. -/
def backslash : UInt8 := 92

/-- `$` and the backquote. -/
def beginsExpansion (b : UInt8) : Bool := b = 36 || b = 96

/-- A space or a tab. -/
def isBlank (b : UInt8) : Bool := b = 32 || b = 9

/-- `& | ; < > ( )`, the end of a line, and `&& || ;; << >> <& >& <> >| <<-`. -/
def operators : List (List UInt8) :=
  [[38], [124], [59], [60], [62], [40], [41], [newline], [38, 38], [124, 124], [59, 59], [60, 60], [62, 62], [60, 38],
    [62, 38], [60, 62], [62, 124], [60, 60, 45]]

/-- The text is one of the operators. -/
def isOperator (text : List UInt8) : Bool := operators.contains text

/-- A byte outside quotes that does not belong to an operator. -/
def plainStep (pending : Pending) (b : UInt8) : Move :=
  if b = backslash then .next [] (.escaped pending)
  else if b = singleQuote then .next pending.grow.1 (.single pending.grow.2)
  else if b = doubleQuote then .next pending.grow.1 (.double pending.grow.2)
  else if beginsExpansion b then .expansion
  else if isOperator [b] then .next pending.delimit (.plain (.operator [b]))
  else if isBlank b then .next pending.delimit (.plain .nothing)
  else
    match pending with
    | .word w => .next [] (.plain (.word (w ++ [⟨b, false⟩])))
    | other =>
      -- `#` is special at the start of a word only
      if b = 35 then .next (other.delimit ++ [.comment]) .comment
      else .next other.delimit (.plain (.word [⟨b, false⟩]))

/-- One byte in a state. -/
def State.step : State → UInt8 → Move
  | plain (.operator text), b =>
    if isOperator (text ++ [b]) then .next [] (.plain (.operator (text ++ [b]))) else plainStep (.operator text) b
  | plain pending, b => plainStep pending b
  | single w, b => if b = singleQuote then .next [] (.plain (.word w)) else .next [] (.single (w ++ [⟨b, true⟩]))
  | double w, b =>
    if b = doubleQuote then .next [] (.plain (.word w))
    else if b = backslash then .next [] (.escapedIn w)
    else if beginsExpansion b then .expansion
    else .next [] (.double (w ++ [⟨b, true⟩]))
  | escaped pending, b =>
    -- a backslash joins two lines
    if b = newline then .next [] (.plain pending)
    else .next pending.grow.1 (.plain (.word (pending.grow.2 ++ [⟨b, true⟩])))
  | escapedIn w, b =>
    if b = newline then .next [] (.double w)
    else if beginsExpansion b || b = doubleQuote || b = backslash then .next [] (.double (w ++ [⟨b, true⟩]))
    else .next [] (.double (w ++ [⟨backslash, true⟩, ⟨b, true⟩]))
  | comment, b => if b = newline then .next [] (.plain (.operator [newline])) else .next [] .comment

/-- At the end of the line. -/
def State.finish : State → Lexed
  | plain pending => ⟨pending.delimit, .complete⟩
  | comment => ⟨[], .complete⟩
  | single _ | double _ | escaped _ | escapedIn _ => ⟨[], .unterminated⟩

/-- The line byte by byte. -/
def lex : State → List UInt8 → Lexed
  | state, [] => state.finish
  | state, b :: bytes =>
    match state.step b with
    | .next tokens state => (lex state bytes).after tokens
    | .expansion => ⟨[], .expansion (b :: bytes)⟩

/-! ### Fields -/

/-- A byte that an expansion of the whole word may look for: `~ * ? [`. -/
def Piece.expands (piece : Piece) : Bool := !piece.quoted && [126, 42, 63, 91].contains piece.byte

/-- The field a token is, if it is a word without an expansion: its bytes without the quotes. -/
def Token.field : Token → Option (List UInt8)
  | word w => if w.any Piece.expands then none else some (w.map Piece.byte)
  | _ => none

/-- The fields of a line, if it is made of such words. -/
def Lexed.fields (lexed : Lexed) : Option (List (List UInt8)) :=
  match lexed.ending with
  | .complete => lexed.tokens.mapM Token.field
  | _ => none

/-- The words of a line, if it is a plain command. -/
def fields (line : List UInt8) : Option (List (List UInt8)) := (lex (.plain .nothing) line).fields

/-! ### What bytes do -/

/-- A byte that stands for itself outside quotes, inside a word. -/
def isLiteral (b : UInt8) : Bool :=
  !(b = backslash || b = singleQuote || b = doubleQuote || beginsExpansion b || isOperator [b] || isBlank b)

theorem plainStep_literal {b : UInt8} (h : isLiteral b = true) (w : Word) :
    plainStep (.word w) b = .next [] (.plain (.word (w ++ [⟨b, false⟩]))) := by
  simp only [isLiteral, Bool.not_eq_true', Bool.or_eq_false_iff, decide_eq_false_iff_not] at h
  obtain ⟨⟨⟨⟨⟨hback, hsingle⟩, hdouble⟩, hexpansion⟩, hoperator⟩, hblank⟩ := h
  simp [plainStep, hback, hsingle, hdouble, hexpansion, hoperator, hblank]

theorem plainStep_first {b : UInt8} (h : isLiteral b = true) (hcomment : b ≠ 35) :
    plainStep .nothing b = .next [] (.plain (.word [⟨b, false⟩])) := by
  simp only [isLiteral, Bool.not_eq_true', Bool.or_eq_false_iff, decide_eq_false_iff_not] at h
  obtain ⟨⟨⟨⟨⟨hback, hsingle⟩, hdouble⟩, hexpansion⟩, hoperator⟩, hblank⟩ := h
  simp [plainStep, hback, hsingle, hdouble, hexpansion, hoperator, hblank, hcomment, Pending.delimit]

@[simp] theorem after_nil (lexed : Lexed) : lexed.after [] = lexed := rfl

/-- Literal bytes go to the word. -/
theorem lex_literals : ∀ {bytes : List UInt8}, (∀ b ∈ bytes, isLiteral b = true) → ∀ (w : Word) (rest : List UInt8),
    lex (.plain (.word w)) (bytes ++ rest) = lex (.plain (.word (w ++ bytes.map fun b => ⟨b, false⟩))) rest
  | [], _, w, rest => by simp
  | b :: bytes, h, w, rest => by
    obtain ⟨hb, hrest⟩ := List.forall_mem_cons.mp h
    have hstep : State.step (.plain (.word w)) b = .next [] (.plain (.word (w ++ [⟨b, false⟩]))) :=
      plainStep_literal hb w
    rw [List.cons_append, lex, hstep]
    show lex (.plain (.word (w ++ [⟨b, false⟩]))) (bytes ++ rest) = _
    rw [lex_literals hrest]
    simp

/-- Literal bytes that begin a word. -/
theorem lex_first {b : UInt8} {bytes : List UInt8} (h : ∀ c ∈ b :: bytes, isLiteral c = true) (hcomment : b ≠ 35)
    (rest : List UInt8) : lex (.plain .nothing) (b :: bytes ++ rest) =
      lex (.plain (.word ((b :: bytes).map fun b => ⟨b, false⟩))) rest := by
  obtain ⟨hb, hrest⟩ := List.forall_mem_cons.mp h
  have hstep : State.step (.plain .nothing) b = .next [] (.plain (.word [⟨b, false⟩])) := plainStep_first hb hcomment
  rw [List.cons_append, lex, hstep]
  exact lex_literals hrest _ rest

/-- In single quotes everything but the quote stands for itself. -/
theorem lex_single_cons {b : UInt8} (h : b ≠ singleQuote) (w : Word) (rest : List UInt8) :
    lex (.single w) (b :: rest) = lex (.single (w ++ [⟨b, true⟩])) rest := by
  rw [lex, State.step, if_neg h]
  rfl

theorem lex_single_close (w : Word) (rest : List UInt8) :
    lex (.single w) (singleQuote :: rest) = lex (.plain (.word w)) rest := rfl

/-- A single quote in double quotes, between two single-quoted stretches. -/
theorem lex_single_splice (w : Word) (rest : List UInt8) :
    lex (.single w) (singleQuote :: doubleQuote :: singleQuote :: doubleQuote :: singleQuote :: rest) =
      lex (.single (w ++ [⟨singleQuote, true⟩])) rest := rfl

theorem lex_blank {b : UInt8} (h : isBlank b = true) (w : Word) (rest : List UInt8) :
    lex (.plain (.word w)) (b :: rest) = (lex (.plain .nothing) rest).after [.word w] := by
  rw [isBlank, Bool.or_eq_true, decide_eq_true_eq, decide_eq_true_eq] at h
  rcases h with rfl | rfl <;> rfl

end ShellWords

end Rsdb
