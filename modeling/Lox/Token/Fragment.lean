-- SUMMARY: Cutting a line into fragments: blanks, comments, strings, marks and words.
import Lox.Token.Kind

/-!
## Fragments

A line is cut from left to right, each time as far as one shape reaches: a blank, a comment up to
the end of the line, a string up to its closing quote, a mark of two characters before one of one
character, a word up to the next character that ends words. Nothing is lost: the texts of the
fragments make up the line (`flatMap_text_fragments`).
-/

namespace Lox

inductive Fragment.Shape where
  | blank
  | comment
  /-- A string with its closing quote; `body` stands between the quotes. -/
  | closed (body : List Char)
  /-- A string that the line ends before its closing quote. -/
  | unclosed
  | mark (kind : Kind)
  | word
  /-- A character that starts nothing. -/
  | stray (c : Char)
  deriving DecidableEq, Repr

structure Fragment where
  shape : Fragment.Shape
  text : List Char
  deriving DecidableEq, Repr

/-- The characters between tokens. -/
def isSeparator (c : Char) : Bool :=
  c == ' ' || c == '\t' || c == '\r' || c == '\x0c'

/-- The characters that words are made of: all but separators, line breaks, quotes and the
characters that marks start with. -/
def isWordChar (c : Char) : Bool :=
  !isSeparator c && c != '\n' && c != '"' && c != '&' && c != '|' && (Kind.ofChar? c).isNone

/-- The inside of a string up to its closing quote, and what follows the quote. A backslash takes
the next character with it. -/
def closeQuote : List Char → Option (List Char × List Char)
  | [] => none
  | '"' :: cs => some ([], cs)
  | '\\' :: c :: cs => (closeQuote cs).map fun (body, rest) => ('\\' :: c :: body, rest)
  | c :: cs => (closeQuote cs).map fun (body, rest) => (c :: body, rest)

theorem closeQuote_append {cs body rest : List Char} (h : closeQuote cs = some (body, rest)) :
    cs = body ++ '"' :: rest := by
  fun_induction closeQuote cs generalizing body rest with
  | case1 => cases h
  | case2 cs => cases h; rfl
  | case3 c cs ih =>
    obtain ⟨⟨b, r⟩, hb, he⟩ := Option.map_eq_some_iff.1 h
    cases he
    simp [ih hb]
  | case4 c cs _ _ ih =>
    obtain ⟨⟨b, r⟩, hb, he⟩ := Option.map_eq_some_iff.1 h
    cases he
    simp [ih hb]

/-- A mark or a word that starts with `c`, and the rest of the line. -/
def Fragment.markOrWord (c : Char) (cs : List Char) : Fragment × List Char :=
  if isWordChar c then
    (⟨.word, c :: cs.takeWhile isWordChar⟩, cs.dropWhile isWordChar)
  else
    match cs.head?.bind (Kind.ofPair? c) with
    | some kind => (⟨.mark kind, c :: cs.take 1⟩, cs.drop 1)
    | none =>
      match Kind.ofChar? c with
      | some kind => (⟨.mark kind, [c]⟩, cs)
      | none => (⟨.stray c, [c]⟩, cs)

/-- The first fragment of the line `c :: cs`, and the rest of the line. -/
def Fragment.first (c : Char) (cs : List Char) : Fragment × List Char :=
  if isSeparator c then
    (⟨.blank, [c]⟩, cs)
  else if c = '"' then
    match closeQuote cs with
    | some (body, rest) => (⟨.closed body, '"' :: body ++ ['"']⟩, rest)
    | none => (⟨.unclosed, c :: cs⟩, [])
  else if c = '/' ∧ cs.head? = some '/' then
    (⟨.comment, c :: cs⟩, [])
  else
    Fragment.markOrWord c cs

theorem Fragment.markOrWord_append (c : Char) (cs : List Char) :
    (markOrWord c cs).1.text ++ (markOrWord c cs).2 = c :: cs := by
  unfold markOrWord
  split
  · simp [List.takeWhile_append_dropWhile]
  · split
    · cases cs <;> simp
    · split <;> simp

/-- The first fragment and the rest make up the line. -/
theorem Fragment.first_append (c : Char) (cs : List Char) :
    (first c cs).1.text ++ (first c cs).2 = c :: cs := by
  unfold first
  split
  · simp
  · split
    · next hq =>
      split
      · next body rest h => simp [hq, closeQuote_append h]
      · simp
    · split
      · simp
      · exact markOrWord_append c cs

theorem Fragment.markOrWord_text_ne_nil (c : Char) (cs : List Char) :
    (markOrWord c cs).1.text ≠ [] := by
  unfold markOrWord
  split
  · simp
  · split
    · simp
    · split <;> simp

theorem Fragment.first_text_ne_nil (c : Char) (cs : List Char) : (first c cs).1.text ≠ [] := by
  unfold first
  split
  · simp
  · split
    · split <;> simp
    · split
      · simp
      · exact markOrWord_text_ne_nil c cs

/-- A fragment is not empty, so the rest is shorter than the line. -/
theorem Fragment.length_first_le (c : Char) (cs : List Char) :
    (first c cs).2.length ≤ cs.length := by
  have happ := congrArg List.length (first_append c cs)
  have hpos := List.length_pos_iff.2 (first_text_ne_nil c cs)
  simp only [List.length_append, List.length_cons] at happ
  omega

/-- At most `n` fragments of a line. -/
def fragmentsWithin : Nat → List Char → List Fragment
  | _, [] => []
  | 0, _ :: _ => []
  | n + 1, c :: cs => (Fragment.first c cs).1 :: fragmentsWithin n (Fragment.first c cs).2

/-- The fragments of a line. There are no more of them than characters. -/
def fragments (cs : List Char) : List Fragment :=
  fragmentsWithin cs.length cs

theorem fragmentsWithin_eq {n m : Nat} {cs : List Char} (hn : cs.length ≤ n) (hm : cs.length ≤ m) :
    fragmentsWithin n cs = fragmentsWithin m cs := by
  induction n generalizing m cs with
  | zero =>
    cases List.length_eq_zero_iff.1 (Nat.le_zero.1 hn)
    cases m <;> rfl
  | succ n ih =>
    cases cs with
    | nil => cases m <;> rfl
    | cons c cs =>
      cases m with
      | zero => simp at hm
      | succ m =>
        have hlen := Fragment.length_first_le c cs
        simp only [List.length_cons] at hn hm
        simp only [fragmentsWithin]
        rw [ih (m := m) (by omega) (by omega)]

@[simp] theorem fragments_nil : fragments [] = [] := rfl

theorem fragments_cons (c : Char) (cs : List Char) :
    fragments (c :: cs) = (Fragment.first c cs).1 :: fragments (Fragment.first c cs).2 := by
  simp only [fragments, List.length_cons, fragmentsWithin]
  rw [fragmentsWithin_eq (Fragment.length_first_le c cs) (Nat.le_refl _)]

/-- Nothing of a line is lost. -/
theorem flatMap_text_fragments (cs : List Char) : (fragments cs).flatMap Fragment.text = cs := by
  induction h : cs.length using Nat.strongRecOn generalizing cs with
  | ind n ih =>
    cases cs with
    | nil => rfl
    | cons c cs =>
      have hlen := Fragment.length_first_le c cs
      simp only [List.length_cons] at h
      rw [fragments_cons, List.flatMap_cons, ih _ (by omega) _ rfl, Fragment.first_append]

end Lox
