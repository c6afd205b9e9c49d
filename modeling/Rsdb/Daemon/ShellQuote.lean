/-
# Quoting for the shell

`spawn_pipe_shell` passes a command and its arguments to the shell as one line,
each word quoted by `shell_quote`: a word of harmless bytes stays as it is, the
empty word becomes two quotes, and any other one is put in single quotes, its own
single quotes in double quotes between them.

A shell that cuts the line into tokens (`ShellWords`) finds these words and
nothing else (`join_shell_command_exact`). What the shell's grammar makes of the
first word (an assignment, a reserved word, an alias) is not part of this.
-/
import Rsdb.Daemon.Shell
import Rsdb.Lib.ShellWords

namespace Rsdb

namespace Daemon

open ShellWords (Word Piece Token Lexed lex)

/-- The arguments `spawn_pipe_shell` gives the shell. -/
def shellArgs (command : Option Str) (args : List Str) : Except AnyhowError (List Str) :=
  match command with
  | some command =>
    if isBlank command then .error (.bail (str "shell command must not be empty"))
    else .ok [str "-lc", joinShellCommand command args]
  | none => .ok [str "-l", str "-i"]

/-! ### One word -/

/-- What the shell reads a quoted word as: all of it in quotes, or nothing. -/
def quotedWord (value : Str) : Word := value.map fun b => ⟨b, !(value ≠ [] && value.all isShellSafe)⟩

theorem map_byte_quotedWord (value : Str) : (quotedWord value).map Piece.byte = value := by
  rw [quotedWord, List.map_map]
  exact List.map_id value

/-- The harmless bytes are nothing special to the shell. -/
theorem literal_of_safe {b : UInt8} (h : isShellSafe b = true) :
    ShellWords.isLiteral b = true ∧ b ≠ 35 ∧ Piece.expands ⟨b, false⟩ = false := by
  have hall : ∀ n : Fin 256, isShellSafe (UInt8.ofNat n.1) = true → ShellWords.isLiteral (UInt8.ofNat n.1) = true ∧
      UInt8.ofNat n.1 ≠ 35 ∧ Piece.expands ⟨UInt8.ofNat n.1, false⟩ = false := by decide +kernel
  have hb := hall ⟨b.toNat, b.toNat_lt⟩
  rw [UInt8.ofNat_toNat] at hb
  exact hb h

theorem expands_quotedWord (value : Str) : (quotedWord value).any Piece.expands = false := by
  rw [List.any_eq_false]
  intro piece hpiece
  obtain ⟨b, hb, rfl⟩ := List.mem_map.mp hpiece
  by_cases hsafe : value ≠ [] ∧ value.all isShellSafe = true
  · have hplain : (!(decide (value ≠ []) && value.all isShellSafe)) = false := by simp [hsafe.1, hsafe.2]
    rw [hplain, (literal_of_safe (List.all_eq_true.mp hsafe.2 b hb)).2.2]
    exact Bool.false_ne_true
  · have hquoted : (!(decide (value ≠ []) && value.all isShellSafe)) = true := by
      rw [Bool.not_eq_true', Bool.and_eq_false_iff, decide_eq_false_iff_not, ← Bool.not_eq_true]
      exact not_and_or.mp hsafe
    rw [hquoted]
    simp [Piece.expands]

/-- The quoted bytes, up to the quote that closes them. -/
theorem lex_escaped : ∀ (value : Str) (w : Word) (rest : Str),
    lex (.single w) (value.flatMap (fun b => if b = 39 then [39, 34, 39, 34, 39] else [b]) ++ 39 :: rest) =
      lex (.plain (.word (w ++ value.map fun b => ⟨b, true⟩))) rest
  | [], w, rest => by
    rw [List.map_nil, List.append_nil]
    exact ShellWords.lex_single_close w rest
  | b :: value, w, rest => by
    have ih := lex_escaped value (w ++ [⟨b, true⟩]) rest
    rw [List.append_assoc, List.singleton_append] at ih
    rw [List.flatMap_cons, List.append_assoc, List.map_cons, ← ih]
    by_cases hb : b = 39
    · subst hb
      exact ShellWords.lex_single_splice w _
    · rw [if_neg hb, List.singleton_append, ShellWords.lex_single_cons hb]

/-- A quoted word is read as that word, whatever follows. -/
theorem lex_shellQuote (value rest : Str) :
    lex (.plain .nothing) (shellQuote value ++ rest) = lex (.plain (.word (quotedWord value))) rest := by
  unfold shellQuote
  by_cases hnil : value = []
  · rw [if_pos hnil, hnil]
    rfl
  rw [if_neg hnil]
  by_cases hsafe : value.all isShellSafe = true
  · rw [if_pos hsafe]
    obtain ⟨b, bytes, rfl⟩ := List.exists_cons_of_ne_nil hnil
    have hliteral : ∀ c ∈ b :: bytes, ShellWords.isLiteral c = true := fun c hc =>
      (literal_of_safe (List.all_eq_true.mp hsafe c hc)).1
    have hcomment := (literal_of_safe (List.all_eq_true.mp hsafe b List.mem_cons_self)).2.1
    rw [ShellWords.lex_first hliteral hcomment, quotedWord, hsafe]
    rfl
  · rw [if_neg hsafe, List.append_assoc]
    have hword : quotedWord value = [] ++ value.map fun b => ⟨b, true⟩ := by
      rw [quotedWord, Bool.eq_false_iff.mpr hsafe, Bool.and_false]
      rfl
    rw [hword, ← lex_escaped value [] rest, List.append_assoc]
    rfl

/-! ### The line -/

theorem lex_quoted_words : ∀ (value : Str) (values : List Str),
    lex (.plain .nothing) (joined [32] ((value :: values).map shellQuote)) =
      ⟨(value :: values).map fun v => .word (quotedWord v), .complete⟩
  | value, [] => by
    have hlex := lex_shellQuote value []
    rw [List.append_nil] at hlex
    show lex (.plain .nothing) (shellQuote value) = _
    rw [hlex]
    rfl
  | value, next :: values => by
    have hline : joined [32] ((value :: next :: values).map shellQuote) =
        shellQuote value ++ 32 :: joined [32] ((next :: values).map shellQuote) := by
      simp [joined]
    rw [hline, lex_shellQuote, ShellWords.lex_blank (by decide), lex_quoted_words next values]
    rfl

theorem mapM_field_quotedWord : ∀ values : List Str,
    (values.map fun v => Token.word (quotedWord v)).mapM Token.field = some values
  | [] => rfl
  | value :: values => by
    have hfield : Token.field (.word (quotedWord value)) = some value := by
      rw [Token.field, expands_quotedWord, if_neg Bool.false_ne_true, map_byte_quotedWord]
    rw [List.map_cons, List.mapM_cons, hfield, mapM_field_quotedWord values]
    rfl

theorem fields_joined (value : Str) (values : List Str) :
    ShellWords.fields (joined [32] ((value :: values).map shellQuote)) = some (value :: values) := by
  rw [ShellWords.fields, lex_quoted_words, Lexed.fields]
  exact mapM_field_quotedWord (value :: values)

/-- **The shell reads the words that were quoted.** For every command and all
arguments: the line is cut into as many words, which are the command and the
arguments in order, with no operator, comment or expansion in it. -/
theorem join_shell_command_exact (command : Str) (args : List Str) :
    ShellWords.fields (joinShellCommand command args) = some (command :: args) :=
  fields_joined command args

example : joinShellCommand (str "echo") [str "it's", [], str "$HOME"] = str "echo 'it'\"'\"'s' '' '$HOME'" := by
  decide +kernel

/-- A command that is not blank reaches the shell after `-lc`, as these words. -/
theorem shellArgs_words {command : Str} (hcommand : isBlank command = false) (args : List Str) :
    ∃ line, shellArgs (some command) args = .ok [str "-lc", line] ∧ ShellWords.fields line = some (command :: args) := by
  refine ⟨joinShellCommand command args, ?_, fields_joined command args⟩
  rw [shellArgs, if_neg (by rw [hcommand]; exact Bool.false_ne_true)]

end Daemon

end Rsdb
