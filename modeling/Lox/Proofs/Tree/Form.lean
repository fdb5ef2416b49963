-- SUMMARY: Parenthesised forms, and why their text is read in one way only.
import Mathlib.Data.List.TakeWhile
import Lox.Proofs.Text.Quoted

/-!
## Forms

A form is an atom, or forms between parentheses with spaces between them. Atoms are words without
spaces, parentheses, quotes and line breaks, or quoted strings. Where a form ends can be seen from
its text, so what stands at the start of a text is one form at most (`Form.chars_append_inj`), and
a form stays on its line (`Form.no_break`).
-/

namespace Lox

inductive Form where
  | atom (word : String)
  | list (parts : List Form)

namespace Form

mutual

def chars : Form → List Char
  | .atom word => word.toList
  | .list parts => '(' :: inner parts

/-- What follows an opening parenthesis. -/
def inner : List Form → List Char
  | [] => [')']
  | f :: fs => f.chars ++ tail fs

/-- What follows a part of a list. -/
def tail : List Form → List Char
  | [] => [')']
  | f :: fs => ' ' :: (f.chars ++ tail fs)

end

/-- The characters that no words are made of. -/
def delimiters : List Char :=
  [' ', '(', ')', '"', '\n']

def isAtomChar (c : Char) : Bool :=
  !delimiters.contains c

inductive Atom : String → Prop where
  | word {s} (hne : s.toList ≠ []) (h : ∀ c ∈ s.toList, isAtomChar c = true) : Atom s
  | quoted (s) : Atom (quoted s)

mutual

/-- All atoms of the form are written as atoms. -/
def Proper : Form → Prop
  | .atom word => Atom word
  | .list parts => AllProper parts

def AllProper : List Form → Prop
  | [] => True
  | f :: fs => f.Proper ∧ AllProper fs

end

/-- Text behind a word that does not go on with it. -/
def Stops (r : List Char) : Prop :=
  ∀ c, r.head? = some c → isAtomChar c = false

variable {c : Char} {s t : String} {r r' : List Char}

-- ---------------------------------------------------------------------------
-- Atoms
-- ---------------------------------------------------------------------------

theorem stops_cons {r : List Char} (h : isAtomChar c = false) : Stops (c :: r) := by
  rintro _ ⟨⟩
  exact h

theorem isAtomChar_of {p : Char → Bool} (hc : p c = true) (h : delimiters.any p = false) :
    isAtomChar c = true := by
  have hmem : c ∉ delimiters := fun hmem => List.any_eq_false.1 h c hmem hc
  simpa [isAtomChar] using hmem

theorem Stops.takeWhile (h : Stops r) : r.takeWhile isAtomChar = [] := by
  cases r with
  | nil => rfl
  | cons c r => exact List.takeWhile_cons_of_neg (Bool.eq_false_iff.1 (h c rfl))

theorem toList_quoted (s : String) : (quoted s).toList = '"' :: (escape s.toList ++ ['"']) :=
  String.toList_ofList

theorem quoted_injective (h : quoted s = quoted t) : s = t := by
  have htext := congrArg String.toList h
  rw [toList_quoted, toList_quoted] at htext
  exact String.toList_inj.1 (escape_quote_inj (List.cons.inj htext).2).1

namespace Atom

theorem of_all (h : (!s.toList.isEmpty && s.toList.all isAtomChar) = true) : Atom s := by
  obtain ⟨hne, hall⟩ := Bool.and_eq_true_iff.1 h
  refine .word (fun hnil => ?_) (List.all_eq_true.1 hall)
  rw [hnil] at hne
  cases hne

/-- No atom starts with a parenthesis. -/
theorem first (h : Atom s) : ∃ c cs, s.toList = c :: cs ∧ c ≠ '(' ∧ c ≠ ')' := by
  cases h with
  | word hne h =>
    obtain ⟨c, cs, hcs⟩ := List.exists_cons_of_ne_nil hne
    have hc := h c (by rw [hcs]; exact List.mem_cons_self)
    refine ⟨c, cs, hcs, ?_, ?_⟩ <;> rintro rfl <;> cases hc
  | quoted s => exact ⟨'"', _, toList_quoted s, by decide, by decide⟩

theorem no_break (h : Atom s) : '\n' ∉ s.toList := by
  cases h with
  | word _ h =>
    intro hbreak
    cases h '\n' hbreak
  | quoted s =>
    rw [toList_quoted]
    have := escape_no_break s.toList
    simpa using this

theorem word_ne_quoted (hne : s.toList ≠ []) (h : ∀ c ∈ s.toList, isAtomChar c = true) :
    s.toList ++ r ≠ (Lox.quoted t).toList ++ r' := by
  obtain ⟨c, cs, hcs⟩ := List.exists_cons_of_ne_nil hne
  have hc := h c (by rw [hcs]; exact List.mem_cons_self)
  rw [hcs, toList_quoted]
  intro heq
  obtain rfl := (List.cons.inj heq).1
  cases hc

/-- The end of an atom is seen, if nothing follows that goes on with a word. -/
theorem append_inj (hs : Atom s) (ht : Atom t) (hr : Stops r) (hr' : Stops r')
    (h : s.toList ++ r = t.toList ++ r') : s = t ∧ r = r' := by
  cases hs with
  | word hne hs =>
    cases ht with
    | word _ ht =>
      have htake := congrArg (List.takeWhile isAtomChar) h
      rw [List.takeWhile_append_of_pos hs, List.takeWhile_append_of_pos ht, hr.takeWhile,
        hr'.takeWhile, List.append_nil, List.append_nil] at htake
      exact ⟨String.toList_inj.1 htake, List.append_cancel_left (htake ▸ h)⟩
    | quoted t => exact absurd h (word_ne_quoted hne hs)
  | quoted s =>
    cases ht with
    | word hne ht => exact absurd h.symm (word_ne_quoted hne ht)
    | quoted t =>
      rw [toList_quoted, toList_quoted] at h
      obtain ⟨hst, hrest⟩ := escape_quote_inj (by simpa using h)
      exact ⟨congrArg Lox.quoted (String.toList_inj.1 hst), hrest⟩

end Atom

-- ---------------------------------------------------------------------------
-- Forms
-- ---------------------------------------------------------------------------

theorem stops_tail (fs : List Form) (r : List Char) : Stops (tail fs ++ r) := by
  cases fs <;> exact stops_cons rfl

theorem Proper.first {f : Form} (h : f.Proper) : ∃ c cs, f.chars = c :: cs ∧ c ≠ ')' := by
  cases f with
  | atom word =>
    obtain ⟨c, cs, hcs, -, hc⟩ := Atom.first h
    exact ⟨c, cs, hcs, hc⟩
  | list parts => exact ⟨'(', _, rfl, by decide⟩

theorem atom_ne_list {parts : List Form} (h : Atom s) :
    s.toList ++ r ≠ '(' :: (inner parts ++ r') := by
  obtain ⟨c, cs, hcs, hc, -⟩ := h.first
  rw [hcs]
  exact fun heq => hc (List.cons.inj heq).1

mutual

/-- What stands at the start of a text is one form at most. -/
theorem chars_append_inj : ∀ {f g : Form} {r r' : List Char}, f.Proper → g.Proper → Stops r →
    Stops r' → f.chars ++ r = g.chars ++ r' → f = g ∧ r = r'
  | .atom _, .atom _, _, _, hf, hg, hr, hr', h => by
    obtain ⟨rfl, rfl⟩ := Atom.append_inj hf hg hr hr' h
    exact ⟨rfl, rfl⟩
  | .atom _, .list _, _, _, hf, _, _, _, h => absurd h (atom_ne_list hf)
  | .list _, .atom _, _, _, _, hg, _, _, h => absurd h.symm (atom_ne_list hg)
  | .list _, .list _, _, _, hf, hg, _, _, h => by
    obtain ⟨rfl, rfl⟩ := inner_append_inj hf hg (List.cons.inj h).2
    exact ⟨rfl, rfl⟩

theorem inner_append_inj : ∀ {fs gs : List Form} {r r' : List Char}, AllProper fs →
    AllProper gs → inner fs ++ r = inner gs ++ r' → fs = gs ∧ r = r'
  | [], [], _, _, _, _, h => ⟨rfl, (List.cons.inj h).2⟩
  | [], g :: gs, _, _, _, hg, h => by
    obtain ⟨c, cs, hcs, hc⟩ := hg.1.first
    rw [inner, inner, hcs] at h
    exact absurd (List.cons.inj h).1.symm hc
  | f :: fs, [], _, _, hf, _, h => by
    obtain ⟨c, cs, hcs, hc⟩ := hf.1.first
    rw [inner, inner, hcs] at h
    exact absurd (List.cons.inj h).1 hc
  | f :: fs, g :: gs, r, r', hf, hg, h => by
    rw [inner, inner, List.append_assoc, List.append_assoc] at h
    obtain ⟨rfl, htail⟩ :=
      chars_append_inj hf.1 hg.1 (stops_tail fs r) (stops_tail gs r') h
    obtain ⟨rfl, rfl⟩ := tail_append_inj hf.2 hg.2 htail
    exact ⟨rfl, rfl⟩

theorem tail_append_inj : ∀ {fs gs : List Form} {r r' : List Char}, AllProper fs →
    AllProper gs → tail fs ++ r = tail gs ++ r' → fs = gs ∧ r = r'
  | [], [], _, _, _, _, h => ⟨rfl, (List.cons.inj h).2⟩
  | [], _ :: _, _, _, _, _, h => absurd (List.cons.inj h).1 (by decide)
  | _ :: _, [], _, _, _, _, h => absurd (List.cons.inj h).1 (by decide)
  | f :: fs, g :: gs, r, r', hf, hg, h => by
    rw [tail, tail, List.cons_append, List.cons_append, List.append_assoc,
      List.append_assoc] at h
    have h := (List.cons.inj h).2
    obtain ⟨rfl, htail⟩ :=
      chars_append_inj hf.1 hg.1 (stops_tail fs r) (stops_tail gs r') h
    obtain ⟨rfl, rfl⟩ := tail_append_inj hf.2 hg.2 htail
    exact ⟨rfl, rfl⟩

end

mutual

theorem no_break : ∀ {f : Form}, f.Proper → '\n' ∉ f.chars
  | .atom _, h => Atom.no_break h
  | .list _, h => by simpa [chars] using inner_no_break h

theorem inner_no_break : ∀ {fs : List Form}, AllProper fs → '\n' ∉ inner fs
  | [], _ => by simp [inner]
  | f :: fs, h => by
    have hfirst := no_break h.1
    have htail := tail_no_break h.2
    simp [inner, hfirst, htail]

theorem tail_no_break : ∀ {fs : List Form}, AllProper fs → '\n' ∉ tail fs
  | [], _ => by simp [tail]
  | f :: fs, h => by
    have hfirst := no_break h.1
    have htail := tail_no_break h.2
    simp [tail, hfirst, htail]

end

end Form

end Lox
