-- SUMMARY: Which lines a text or an input is cut into.
import Lox.Text.Lines

/-!
## Lines

How a sequence is cut into lines is said here by the sequence as a whole: a line and its ending, the
next line and its ending, and so on. There is one way to do it, and it gives the lines that the
splitting gives (`linesBetween_eq_iff`).
-/

namespace Lox

variable {α : Type} {brk ret : α}

/-- The lines of a sequence. A line ends with a break, or with a return and a break; what follows
the last break is a line unless it is empty. -/
inductive Lines (brk ret : α) : List α → List (List α) → Prop where
  | nil : Lines brk ret [] []
  | last {l} (hne : l ≠ []) (hl : brk ∉ l) : Lines brk ret l [l]
  | broken {l cs ls} (hl : brk ∉ l) (hreturn : l.getLast? ≠ some ret) (h : Lines brk ret cs ls) :
      Lines brk ret (l ++ brk :: cs) (l :: ls)
  | returned {l cs ls} (hl : brk ∉ l) (h : Lines brk ret cs ls) :
      Lines brk ret (l ++ ret :: brk :: cs) (l :: ls)

variable {l cs : List α} {ls : List (List α)} [BEq α] [LawfulBEq α]

theorem linesFrom_append_of_not_mem (hl : brk ∉ l) (line cs : List α) :
    linesFrom brk ret line (l ++ cs) = linesFrom brk ret (l.reverse ++ line) cs := by
  induction l generalizing line with
  | nil => rfl
  | cons c l ih =>
    obtain ⟨hc, hl⟩ := List.ne_and_not_mem_of_not_mem_cons hl
    have hc : ¬ (c == brk) = true := fun h => hc (beq_iff_eq.1 h).symm
    rw [List.cons_append, linesFrom, if_neg hc, ih hl]
    simp

theorem linesBetween_break (hl : brk ∉ l) (cs : List α) :
    linesBetween brk ret (l ++ brk :: cs) =
      (dropReturn ret l.reverse).reverse :: linesBetween brk ret cs := by
  rw [linesBetween, linesFrom_append_of_not_mem hl, linesFrom, if_pos (beq_self_eq_true brk),
    List.append_nil]
  rfl

theorem linesBetween_of_no_break (hne : l ≠ []) (hl : brk ∉ l) : linesBetween brk ret l = [l] := by
  have hlines : linesFrom brk ret [] (l ++ []) = linesFrom brk ret (l.reverse ++ []) [] :=
    linesFrom_append_of_not_mem hl [] []
  rw [List.append_nil, List.append_nil] at hlines
  rw [linesBetween, hlines]
  simp [linesFrom, hne]

/-- A sequence that ends with a break has a line for each break. -/
theorem length_linesFrom_break (line cs : List α) :
    (linesFrom brk ret line (cs ++ [brk])).length = cs.count brk + 1 := by
  induction cs generalizing line with
  | nil => simp [linesFrom]
  | cons c cs ih =>
    rw [List.cons_append, linesFrom, List.count_cons]
    split
    · rw [List.length_cons, ih]
    · exact ih (c :: line)

theorem reverse_dropReturn (h : l.getLast? ≠ some ret) :
    (dropReturn ret l.reverse).reverse = l := by
  cases hl : l.reverse with
  | nil => rw [dropReturn, List.reverse_nil, List.reverse_eq_nil_iff.1 hl]
  | cons c line =>
    have hc : ¬ (c == ret) = true := by
      rintro hc
      obtain rfl := beq_iff_eq.1 hc
      rw [List.getLast?_eq_head?_reverse, hl] at h
      exact h rfl
    rw [dropReturn, if_neg hc, ← hl, List.reverse_reverse]

theorem Lines.linesBetween_eq (hne : ret ≠ brk) (h : Lines brk ret cs ls) :
    linesBetween brk ret cs = ls := by
  induction h with
  | nil => rfl
  | last hne hl => exact linesBetween_of_no_break hne hl
  | broken hl hreturn _ ih => rw [linesBetween_break hl, reverse_dropReturn hreturn, ih]
  | @returned l cs ls hl _ ih =>
    have hl' : brk ∉ l ++ [ret] := by simpa [hl] using hne.symm
    have hcs : l ++ ret :: brk :: cs = (l ++ [ret]) ++ brk :: cs := by simp
    rw [hcs, linesBetween_break hl', ih]
    simp [dropReturn]

theorem lines_linesBetween (cs : List α) : Lines brk ret cs (linesBetween brk ret cs) := by
  induction hn : cs.length using Nat.strongRecOn generalizing cs with
  | ind n ih =>
    by_cases hmem : brk ∈ cs
    · obtain ⟨l, rest, rfl, hl⟩ := List.eq_append_cons_of_mem hmem
      have hrest := ih rest.length (by simp [← hn]; omega) rest rfl
      rw [linesBetween_break hl]
      by_cases hreturn : l.getLast? = some ret
      · obtain ⟨l, rfl⟩ := List.getLast?_eq_some_iff.1 hreturn
        have hline : (dropReturn ret (l ++ [ret]).reverse).reverse = l := by simp [dropReturn]
        rw [hline, List.append_assoc]
        exact .returned (fun h => hl (List.mem_append_left _ h)) hrest
      · rw [reverse_dropReturn hreturn]
        exact .broken hl hreturn hrest
    · by_cases hne : cs = []
      · subst hne
        exact .nil
      · rw [linesBetween_of_no_break hne hmem]
        exact .last hne hmem

/-- Splitting gives the lines. -/
theorem linesBetween_eq_iff (hne : ret ≠ brk) :
    linesBetween brk ret cs = ls ↔ Lines brk ret cs ls :=
  ⟨fun h => h ▸ lines_linesBetween cs, fun h => h.linesBetween_eq hne⟩

end Lox
