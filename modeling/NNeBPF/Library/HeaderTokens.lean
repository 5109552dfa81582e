import Mathlib.Data.Int.Basic
import Mathlib.Data.List.Basic
import Mathlib.Tactic.Common

/-!
# The tokens of a C header

Names, constants, symbols and ends of lines, cut out of the characters as a C compiler does it.  A
piece of text that becomes certain tokens for itself becomes them in front of any other text as
well, so what is printed can be scanned piece by piece.  Integers in decimal keep their value, the
leading zero of the octal constants included.
-/

namespace HeaderText

/-! ## Integer constants -/

/-- The value of an integer constant without suffix; a leading zero makes it an octal one. -/
def constant (digits : List Char) : Option ℕ :=
  if digits = [] ∨ ¬ digits.all Char.isDigit then none
  else if digits.head? ≠ some '0' then some (Nat.ofDigitChars 10 digits 0)
  else if digits.all (fun c ↦ c.toNat < '8'.toNat) then some (Nat.ofDigitChars 8 digits 0)
  else none

theorem head?_toDigits_ne_zero {n : ℕ} (hn : 0 < n) : (Nat.toDigits 10 n).head? ≠ some '0' := by
  induction n using Nat.strong_induction_on with
  | _ n ih =>
    by_cases hlt : n < 10
    · have hchar : n.digitChar ≠ '0' := fun h ↦ Nat.ne_of_gt hn (Nat.digitChar_eq_zero.mp h)
      rw [Nat.toDigits_of_lt_base hlt, List.head?_cons]
      exact fun h ↦ hchar (Option.some.inj h)
    · rw [Nat.toDigits_of_base_le (by decide) (by omega),
        List.head?_append_of_ne_nil _ Nat.toDigits_ne_nil]
      exact ih (n / 10) (by omega) (by omega)

/-- Decimal digits as they are printed have no leading zero, so they are not taken for octal. -/
theorem constant_toDigits (n : ℕ) : constant (Nat.toDigits 10 n) = some n := by
  have hdigits : (Nat.toDigits 10 n).all Char.isDigit = true :=
    List.all_eq_true.mpr fun c hc ↦ Nat.isDigit_of_mem_toDigits (by decide) (by decide) hc
  have hread : ¬ (Nat.toDigits 10 n = [] ∨ ¬ (Nat.toDigits 10 n).all Char.isDigit = true) := by
    rintro (hnil | hother)
    · exact Nat.toDigits_ne_nil hnil
    · exact hother hdigits
  rw [constant, if_neg hread]
  by_cases hn : n = 0
  · subst hn
    rfl
  · rw [if_pos (head?_toDigits_ne_zero (by omega)), Nat.ofDigitChars_ten_toDigits]

theorem toDigits_injective : Function.Injective (Nat.toDigits 10) := by
  intro m n h
  have hvalue : some m = some n := by rw [← constant_toDigits m, ← constant_toDigits n, h]
  exact Option.some.inj hvalue

/-! ## Tokens -/

inductive Token
  | word (letters : List Char)
  | symbol (c : Char)
  | newline
deriving DecidableEq

/-- The characters of names and of constants. -/
def wordChar (c : Char) : Bool := c.isAlphanum || c == '_'

/-- Where the scanner stands: behind the letters of a word, or in a line comment. -/
inductive Mode
  | code (letters : List Char)
  | comment

def flush (letters : List Char) : List Token := if letters = [] then [] else [.word letters]

/-- The token of a character that belongs to no word. -/
def single (c : Char) : List Token :=
  if c = '\n' then [.newline] else if c = ' ' then [] else [.symbol c]

/-- Words, symbols and ends of lines; a comment ends with its line. -/
def lex : Mode → List Char → List Token
  | .code letters, [] => flush letters
  | .comment, [] => []
  | .comment, c :: rest => if c = '\n' then .newline :: lex (.code []) rest else lex .comment rest
  | .code letters, c :: rest =>
    if wordChar c then lex (.code (letters ++ [c])) rest
    else if c = '/' ∧ rest.head? = some '/' then flush letters ++ lex .comment rest
    else flush letters ++ single c ++ lex (.code []) rest

/-- The text becomes these tokens, whatever follows it. -/
def Lexes (text : List Char) (tokens : List Token) : Prop :=
  ∀ rest, lex (.code []) (text ++ rest) = tokens ++ lex (.code []) rest

theorem Lexes.append {text text' : List Char} {tokens tokens' : List Token} (h : Lexes text tokens)
    (h' : Lexes text' tokens') : Lexes (text ++ text') (tokens ++ tokens') := by
  intro rest
  calc
    lex (.code []) (text ++ text' ++ rest) = lex (.code []) (text ++ (text' ++ rest)) := by
      rw [List.append_assoc]
    _ = tokens ++ lex (.code []) (text' ++ rest) := h (text' ++ rest)
    _ = tokens ++ (tokens' ++ lex (.code []) rest) := by rw [h' rest]
    _ = tokens ++ tokens' ++ lex (.code []) rest := (List.append_assoc ..).symm

theorem lex_letters {letters : List Char} (hletters : ∀ c ∈ letters, wordChar c = true)
    (before rest : List Char) :
    lex (.code before) (letters ++ rest) = lex (.code (before ++ letters)) rest := by
  induction letters generalizing before with
  | nil => rw [List.nil_append, List.append_nil]
  | cons c letters ih =>
    obtain ⟨hc, hrest⟩ := List.forall_mem_cons.mp hletters
    rw [List.cons_append, lex, if_pos hc, ih hrest, List.append_assoc, List.singleton_append]

section

variable {c : Char} (hc : wordChar c = false) (hslash : c ≠ '/')

include hc hslash

theorem lex_single (before rest : List Char) :
    lex (.code before) (c :: rest) = flush before ++ single c ++ lex (.code []) rest := by
  rw [lex, if_neg (Bool.eq_false_iff.mp hc), if_neg fun h ↦ hslash h.1]

theorem lexes_single : Lexes [c] (single c) := by
  intro rest
  exact lex_single hc hslash [] rest

/-- A word is complete at the first character that belongs to no word. -/
theorem lexes_word {letters : List Char} (hne : letters ≠ [])
    (hletters : ∀ c ∈ letters, wordChar c = true) :
    Lexes (letters ++ [c]) (.word letters :: single c) := by
  intro rest
  rw [List.append_assoc, lex_letters hletters, List.nil_append, List.singleton_append,
    lex_single hc hslash, flush, if_neg hne]
  rfl

end

theorem lex_comment {body : List Char} (hbody : '\n' ∉ body) (rest : List Char) :
    lex .comment (body ++ '\n' :: rest) = .newline :: lex (.code []) rest := by
  induction body with
  | nil => rw [List.nil_append, lex, if_pos rfl]
  | cons c body ih =>
    have hc : c ≠ '\n' := fun h ↦ hbody (h ▸ List.mem_cons_self)
    rw [List.cons_append, lex, if_neg hc, ih fun h ↦ hbody (List.mem_cons_of_mem c h)]

/-- Nothing is left of a comment but the end of its line. -/
theorem lexes_comment {body : List Char} (hbody : '\n' ∉ body) :
    Lexes ('/' :: '/' :: body ++ ['\n']) [.newline] := by
  intro rest
  have hsecond : '/' ≠ '\n' := by decide
  rw [List.append_assoc, List.cons_append, List.cons_append, lex, if_neg (by decide),
    if_pos ⟨rfl, rfl⟩, lex, if_neg hsecond, List.singleton_append, lex_comment hbody]
  rfl

/-! ## Integers -/

theorem toList_toString_nat (n : ℕ) : (toString n).toList = Nat.toDigits 10 n := Nat.toList_repr

theorem toList_toString_ofNat (n : ℕ) : (toString (n : ℤ)).toList = Nat.toDigits 10 n :=
  Nat.toList_repr

theorem toList_toString_negSucc (n : ℕ) :
    (toString (Int.negSucc n)).toList = '-' :: Nat.toDigits 10 (n + 1) := by
  have htext : toString (Int.negSucc n) = "-" ++ (n + 1).repr := rfl
  rw [htext, String.toList_append, Nat.toList_repr]
  rfl

theorem wordChar_of_isDigit {c : Char} (hc : c.isDigit = true) : wordChar c = true := by
  simp [wordChar, Char.isAlphanum, hc]

theorem wordChar_of_mem_toDigits {n : ℕ} {c : Char} (hc : c ∈ Nat.toDigits 10 n) :
    wordChar c = true :=
  wordChar_of_isDigit (Nat.isDigit_of_mem_toDigits (by decide) (by decide) hc)

/-- The tokens of an integer in decimal. -/
def numeral : ℤ → List Token
  | .ofNat n => [.word (Nat.toDigits 10 n)]
  | .negSucc n => [.symbol '-', .word (Nat.toDigits 10 (n + 1))]

theorem lexes_digits (n : ℕ) {c : Char} (hc : wordChar c = false) (hslash : c ≠ '/') :
    Lexes (Nat.toDigits 10 n ++ [c]) (.word (Nat.toDigits 10 n) :: single c) :=
  lexes_word hc hslash Nat.toDigits_ne_nil fun _ hmem ↦ wordChar_of_mem_toDigits hmem

theorem lexes_toString (value : ℤ) {c : Char} (hc : wordChar c = false) (hslash : c ≠ '/') :
    Lexes ((toString value).toList ++ [c]) (numeral value ++ single c) := by
  cases value with
  | ofNat n =>
    rw [Int.ofNat_eq_natCast, toList_toString_ofNat]
    exact lexes_digits n hc hslash
  | negSucc n =>
    rw [toList_toString_negSucc]
    have hminus : Lexes ['-'] [.symbol '-'] := lexes_single (by decide) (by decide)
    exact hminus.append (lexes_digits (n + 1) hc hslash)

/-- The initialisers of an array, up to the closing brace. -/
def valueTokens : List ℤ → List Token
  | [] => [.symbol '\x7d']
  | [value] => numeral value ++ [.symbol '\x7d']
  | value :: next :: values => numeral value ++ .symbol ',' :: valueTokens (next :: values)

/-- Integers in decimal with a comma and a blank between them. -/
def valuesText (values : List ℤ) : List Char :=
  (values.map fun value ↦ (toString value).toList).intersperse [',', ' '] |>.flatten

theorem valuesText_singleton (value : ℤ) : valuesText [value] = (toString value).toList :=
  List.append_nil _

theorem valuesText_cons_cons (value next : ℤ) (values : List ℤ) :
    valuesText (value :: next :: values) =
      (toString value).toList ++ [','] ++ [' '] ++ valuesText (next :: values) := by
  simp [valuesText]

theorem valuesText_cons (value : ℤ) (values : List ℤ) :
    valuesText (value :: values) = (toString value).toList ++
      values.flatMap fun value ↦ ", ".toList ++ (toString value).toList := by
  induction values generalizing value with
  | nil => rfl
  | cons next values ih =>
    rw [valuesText_cons_cons, ih, List.flatMap_cons, List.append_assoc, List.append_assoc]
    rfl

theorem lexes_valuesText (values : List ℤ) :
    Lexes (valuesText values ++ ['\x7d']) (valueTokens values) := by
  have hblank : Lexes [' '] [] := lexes_single (by decide) (by decide)
  induction values with
  | nil => exact lexes_single (by decide) (by decide)
  | cons value values ih =>
    cases values with
    | nil =>
      rw [valuesText_singleton]
      exact lexes_toString value (by decide) (by decide)
    | cons next values =>
      have hvalue : Lexes ((toString value).toList ++ [',']) (numeral value ++ [.symbol ',']) :=
        lexes_toString value (by decide) (by decide)
      have hall := (hvalue.append hblank).append ih
      rw [valuesText_cons_cons, List.append_assoc]
      simpa [valueTokens] using hall

end HeaderText
