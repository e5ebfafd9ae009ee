import Mathlib.Data.List.Basic

/-!
# Words and lists of a shell

The tokens of a shell script and the lists of commands that they make, as a POSIX shell recognises
them: blanks, newlines and operators separate words, and within a word quotes and a backslash take
the meaning of characters away. A parameter by its name is read inside double quotes. What is not
read here has no result: substitutions, parameters in other places, redirections, grouping,
patterns and comments.

## Main definitions

* `step`, `tokens`: the tokens of a text.
* `andOrs`: the lists of commands that tokens make.
* `parse`: the lists of a text.
* `expansion env w`: the characters of a word, of which nothing is split or matched.

## Main results

* `run_literals`: characters without a meaning between double quotes stand for themselves.
* `run_append`: a text is read part by part.
-/

namespace ShellWords

/-- Characters. -/
abbrev Octet := BitVec 8

/-- A piece of a word. -/
inductive Piece
  /-- A character that is not quoted. -/
  | plain (c : Octet)
  /-- A character that a quote or a backslash has made literal. -/
  | literal (c : Octet)
  /-- The value of a parameter between double quotes. -/
  | parameter (name : List Octet)
  deriving DecidableEq

/-- A word. -/
abbrev Word := List Piece

/-- Tokens. -/
inductive Token
  | word (w : Word)
  | operator (s : List Octet)
  deriving DecidableEq

/-! ### Classes of characters -/

/-- Blanks. -/
def isBlank (c : Octet) : Bool := c = 0x20 ∨ c = 0x09

/-- Letters, digits and the underscore. -/
def isName (c : Octet) : Bool :=
  (0x30 ≤ c.toNat ∧ c.toNat ≤ 0x39) ∨ (0x41 ≤ c.toNat ∧ c.toNat ≤ 0x5a) ∨
    (0x61 ≤ c.toNat ∧ c.toNat ≤ 0x7a) ∨ c = 0x5f

/-- Characters that begin an operator: `|`, `&` and `;`. -/
def isOperator (c : Octet) : Bool := c = 0x7c ∨ c = 0x26 ∨ c = 0x3b

/-- Characters without a meaning outside quotes: letters, digits, and `_-./+,:@%`. -/
def isPlain (c : Octet) : Bool :=
  isName c ∨ c = 0x2d ∨ c = 0x2e ∨ c = 0x2f ∨ c = 0x2b ∨ c = 0x2c ∨ c = 0x3a ∨ c = 0x40 ∨ c = 0x25

/-- Characters that keep a meaning between double quotes: the quote itself, `$`, the backquote and
the backslash. -/
def isSpecial (c : Octet) : Bool := c = 0x22 ∨ c = 0x24 ∨ c = 0x60 ∨ c = 0x5c

/-! ### Tokens -/

/-- Where the reader is. -/
inductive Mode
  | plain
  /-- Behind a backslash. -/
  | escaped
  /-- Between single quotes. -/
  | single
  /-- Between double quotes. -/
  | double
  /-- Behind a backslash between double quotes. -/
  | doubleEscaped
  /-- Behind a dollar sign between double quotes, with the name so far. -/
  | dollar (name : List Octet)
  /-- Behind the first character of an operator. -/
  | operator (c : Octet)
  deriving DecidableEq

/-- The state of the reader. -/
structure Lexer where
  mode : Mode := .plain
  word : Option Word := none
  tokens : List Token := []
  deriving DecidableEq

namespace Lexer

/-- A piece is added to the word, which begins if there is none. -/
def push (s : Lexer) (ps : Word) : Lexer := { s with word := some (s.word.getD [] ++ ps) }

/-- The word ends, if there is one. -/
def close (s : Lexer) : Lexer :=
  match s.word with
  | none => s
  | some w => { s with word := none, tokens := s.tokens ++ [.word w] }

/-- An operator is added. -/
def operate (s : Lexer) (op : List Octet) : Lexer := { s with tokens := s.tokens ++ [.operator op] }

/-- A character that nothing quotes. -/
def plainStep (s : Lexer) (c : Octet) : Option Lexer :=
  if isBlank c then some { s.close with mode := .plain }
  else if c = 0x0a then some { s.close.operate [c] with mode := .plain }
  else if c = 0x22 then some { s.push [] with mode := .double }
  else if c = 0x27 then some { s.push [] with mode := .single }
  else if c = 0x5c then some { s with mode := .escaped }
  else if isOperator c then some { s.close with mode := .operator c }
  else if isPlain c then some { s.push [.plain c] with mode := .plain }
  else none

/-- A character between double quotes. -/
def doubleStep (s : Lexer) (c : Octet) : Option Lexer :=
  if c = 0x22 then some { s with mode := .plain }
  else if c = 0x24 then some { s with mode := .dollar [] }
  else if c = 0x60 then none
  else if c = 0x5c then some { s with mode := .doubleEscaped }
  else some { s.push [.literal c] with mode := .double }

/-- The next character. -/
def step (s : Lexer) (c : Octet) : Option Lexer :=
  match s.mode with
  | .plain => s.plainStep c
  | .escaped =>
    if c = 0x0a then some { s with mode := .plain }
    else some { s.push [.literal c] with mode := .plain }
  | .single =>
    if c = 0x27 then some { s with mode := .plain } else some (s.push [.literal c])
  | .double => s.doubleStep c
  | .doubleEscaped =>
    if c = 0x0a then some { s with mode := .double }
    else if isSpecial c then some { s.push [.literal c] with mode := .double }
    else some { s.push [.literal 0x5c, .literal c] with mode := .double }
  | .dollar name =>
    if isName c ∧ (name ≠ [] ∨ ¬(0x30 ≤ c.toNat ∧ c.toNat ≤ 0x39)) then
      some { s with mode := .dollar (name ++ [c]) }
    else if name = [] then none
    else (s.push [.parameter name]).doubleStep c
  | .operator o =>
    if c = o then some { s.operate [o, o] with mode := .plain }
    else (s.operate [o]).plainStep c

/-- The end of the text. -/
def finish (s : Lexer) : Option (List Token) :=
  match s.mode with
  | .plain => some s.close.tokens
  | .operator o => some (s.operate [o]).tokens
  | _ => none

end Lexer

/-- The reader over a text. -/
def run (s : Lexer) (text : List Octet) : Option Lexer := text.foldlM Lexer.step s

/-- The tokens of a text. -/
def tokens (text : List Octet) : Option (List Token) := (run {} text).bind Lexer.finish

/-! ### Lists of commands -/

/-- How a command hangs on the one before it. -/
inductive Connector
  | first
  | and
  | or
  deriving DecidableEq

/-- Commands that `&&` and `||` put together. -/
abbrev AndOr := List (Connector × List Word)

/-- The lists of commands that tokens make, from within one. -/
def andOrs : List Token → AndOr → Connector → List Word → Option (List AndOr)
  | [], done, how, ws => if ws = [] then (if done = [] then some [] else none)
      else some [done ++ [(how, ws)]]
  | .word w :: ts, done, how, ws => andOrs ts done how (ws ++ [w])
  | .operator op :: ts, done, how, ws =>
    if op = [0x0a] ∨ op = [0x3b] then
      if ws = [] then (if done = [] then andOrs ts [] .first [] else none)
      else (andOrs ts [] .first []).map (List.cons (done ++ [(how, ws)]))
    else if ws = [] then none
    else if op = [0x7c, 0x7c] then andOrs ts (done ++ [(how, ws)]) .or []
    else if op = [0x26, 0x26] then andOrs ts (done ++ [(how, ws)]) .and []
    else none

/-- The lists of commands of a text. -/
def parse (text : List Octet) : Option (List AndOr) :=
  (tokens text).bind fun ts => andOrs ts [] .first []

/-- What a word comes to. -/
def expansion (env : List Octet → List Octet) (w : Word) : List Octet :=
  w.flatMap fun
    | .plain c => [c]
    | .literal c => [c]
    | .parameter name => env name

/-- A word that is not quoted. -/
def bare (text : List Octet) : Word := text.map .plain

/-! ### Reading part by part -/

theorem run_append (s : Lexer) (a b : List Octet) :
    run s (a ++ b) = (run s a).bind fun s' => run s' b :=
  List.foldlM_append

/-- Characters without a meaning between double quotes stand for themselves. -/
theorem run_literals {toks : List Token} {w : Word} {text : List Octet}
    (h : ∀ c ∈ text, isSpecial c = false) :
    run ⟨.double, some w, toks⟩ text = some ⟨.double, some (w ++ text.map .literal), toks⟩ := by
  induction text generalizing w with
  | nil => rw [List.map_nil, List.append_nil]; rfl
  | cons c text ih =>
    obtain ⟨hc, htext⟩ := List.forall_mem_cons.1 h
    have hnot : c ≠ 0x22 ∧ c ≠ 0x24 ∧ c ≠ 0x60 ∧ c ≠ 0x5c := by
      simpa [isSpecial, not_or] using hc
    have hstep : Lexer.step ⟨.double, some w, toks⟩ c =
        some ⟨.double, some (w ++ [.literal c]), toks⟩ := by
      rw [Lexer.step, Lexer.doubleStep, if_neg hnot.1, if_neg hnot.2.1, if_neg hnot.2.2.1,
        if_neg hnot.2.2.2]
      rfl
    rw [run, List.foldlM_cons, hstep]
    refine (ih htext).trans ?_
    rw [List.map_cons, List.append_assoc, List.singleton_append]

end ShellWords
