-- SUMMARY: Each fragment of a line is the longest text at its place that any shape allows.
import Mathlib.Data.List.TakeWhile
import Lox.Token.Fragment

/-!
## Longest match

Which texts have a shape is said here without a line around them, and cutting a line into fragments
turns out to be longest match: every fragment has its shape, and no longer text at its place has
any. A character that starts no text of any shape is a fragment by itself. A line is cut by longest
match in one way only (`dissected_iff`).
-/

namespace Lox

namespace Fragment

/-- The inside of a string: no quotes, and backslashes only with a character behind them. -/
inductive Inside : List Char → Prop where
  | nil : Inside []
  | plain {c cs} (hquote : c ≠ '"') (hbackslash : c ≠ '\\') (h : Inside cs) : Inside (c :: cs)
  | escaped {c cs} (hc : c ≠ '\n') (h : Inside cs) : Inside ('\\' :: c :: cs)

/-- The texts that a shape is written as, whatever stands around them. -/
inductive Shape.Matches : Shape → List Char → Prop where
  | blank {c} (h : isSeparator c = true) : Matches .blank [c]
  | comment {cs} (h : '\n' ∉ cs) : Matches .comment ('/' :: '/' :: cs)
  | closed {body} (h : Inside body) : Matches (.closed body) ('"' :: body ++ ['"'])
  | unclosed {body} (h : Inside body) : Matches .unclosed ('"' :: body)
  | unclosedBackslash {body} (h : Inside body) : Matches .unclosed ('"' :: body ++ ['\\'])
  | mark {c kind} (h : Kind.ofChar? c = some kind) : Matches (.mark kind) [c]
  | pair {c d kind} (h : Kind.ofPair? c d = some kind) : Matches (.mark kind) [c, d]
  | word {cs} (hne : cs ≠ []) (h : ∀ c ∈ cs, isWordChar c = true) : Matches .word cs

/-- The fragment starts the text `cs`, and no other fragment that could is longer. -/
inductive Longest (cs : List Char) (f : Fragment) : Prop where
  | shaped (h : f.shape.Matches f.text) (hcs : f.text <+: cs)
      (hmost : ∀ shape w, Shape.Matches shape w → w <+: cs → w.length ≤ f.text.length)
  | stray {c} (hf : f = ⟨.stray c, [c]⟩) (hcs : [c] <+: cs)
      (hnone : ∀ shape w, Shape.Matches shape w → ¬ w <+: cs)

end Fragment

/-- The line is cut into the fragments by longest match. -/
inductive Dissected : List Char → List Fragment → Prop where
  | nil : Dissected [] []
  | cons {f rest fs} (h : f.Longest (f.text ++ rest)) (hrest : Dissected rest fs) :
      Dissected (f.text ++ rest) (f :: fs)

namespace Fragment

variable {c d : Char} {cs body rest w : List Char} {shape : Shape}

-- ---------------------------------------------------------------------------
-- Strings
-- ---------------------------------------------------------------------------

/-- A string ends at its first quote that is not behind a backslash. -/
theorem inside_of_closeQuote (hcs : '\n' ∉ cs) (h : closeQuote cs = some (body, rest)) :
    Inside body ∧ ∀ w, Inside w → w <+: cs → w.length ≤ body.length := by
  fun_induction closeQuote cs generalizing body rest with
  | case1 => cases h
  | case2 cs =>
    cases h
    refine ⟨.nil, fun w hw hprefix => ?_⟩
    cases hw with
    | nil => exact Nat.le_refl _
    | plain hquote => exact absurd (List.cons_prefix_cons.1 hprefix).1 hquote
    | escaped => cases (List.cons_prefix_cons.1 hprefix).1
  | case3 c cs ih =>
    obtain ⟨⟨b, r⟩, hb, he⟩ := Option.map_eq_some_iff.1 h
    cases he
    simp only [List.mem_cons, not_or] at hcs
    obtain ⟨hinside, hmost⟩ := ih hcs.2.2 hb
    refine ⟨.escaped (Ne.symm hcs.2.1) hinside, fun w hw hprefix => ?_⟩
    cases hw with
    | nil => exact Nat.zero_le _
    | plain _ hbackslash => exact absurd (List.cons_prefix_cons.1 hprefix).1 hbackslash
    | escaped _ hw =>
      have hprefix := (List.cons_prefix_cons.1 (List.cons_prefix_cons.1 hprefix).2).2
      exact Nat.add_le_add_right (hmost _ hw hprefix) 2
  | case4 c cs hquote hescape ih =>
    obtain ⟨⟨b, r⟩, hb, he⟩ := Option.map_eq_some_iff.1 h
    cases he
    obtain ⟨hinside, hmost⟩ := ih (List.not_mem_of_not_mem_cons hcs) hb
    have hbackslash : c ≠ '\\' := by
      rintro rfl
      cases cs with
      | nil => cases hb
      | cons d cs => exact hescape d cs rfl rfl
    refine ⟨.plain hquote hbackslash hinside, fun w hw hprefix => ?_⟩
    cases hw with
    | nil => exact Nat.zero_le _
    | plain _ _ hw =>
      exact Nat.succ_le_succ (hmost _ hw (List.cons_prefix_cons.1 hprefix).2)
    | escaped => exact absurd (List.cons_prefix_cons.1 hprefix).1.symm hbackslash

/-- A string without a closing quote is an inside to the end of the line, perhaps with a lone
backslash behind it. -/
theorem inside_of_closeQuote_none (hcs : '\n' ∉ cs) (h : closeQuote cs = none) :
    Inside cs ∨ ∃ body, Inside body ∧ cs = body ++ ['\\'] := by
  fun_induction closeQuote cs with
  | case1 => exact .inl .nil
  | case2 cs => cases h
  | case3 c cs ih =>
    simp only [List.mem_cons, not_or] at hcs
    rcases ih hcs.2.2 (Option.map_eq_none_iff.1 h) with hinside | ⟨body, hinside, rfl⟩
    · exact .inl (.escaped (Ne.symm hcs.2.1) hinside)
    · exact .inr ⟨'\\' :: c :: body, .escaped (Ne.symm hcs.2.1) hinside, rfl⟩
  | case4 c cs hquote hescape ih =>
    by_cases hbackslash : c = '\\'
    · subst hbackslash
      cases cs with
      | nil => exact .inr ⟨[], .nil, rfl⟩
      | cons d cs => exact absurd rfl (hescape d cs rfl)
    · rcases ih (List.not_mem_of_not_mem_cons hcs) (Option.map_eq_none_iff.1 h) with
        hinside | ⟨body, hinside, rfl⟩
      · exact .inl (.plain hquote hbackslash hinside)
      · exact .inr ⟨c :: body, .plain hquote hbackslash hinside, rfl⟩

-- ---------------------------------------------------------------------------
-- The first fragment
-- ---------------------------------------------------------------------------

theorem Kind.char_of_ofPair? {c d : Char} {kind : Kind} (h : Kind.ofPair? c d = some kind) :
    isSeparator c = false ∧ isWordChar c = false ∧ c ≠ '"' := by
  unfold Kind.ofPair? at h
  split at h
  case h_7 => cases h
  all_goals decide

theorem Kind.char_of_ofChar? {c : Char} {kind : Kind} (h : Kind.ofChar? c = some kind) :
    isWordChar c = false := by
  simp [isWordChar, h]

theorem length_le_takeWhile {p : Char → Bool} (h : w <+: cs) (hw : ∀ c ∈ w, p c = true) :
    w.length ≤ (cs.takeWhile p).length := by
  obtain ⟨v, rfl⟩ := h
  rw [List.takeWhile_append_of_pos hw, List.length_append]
  exact Nat.le_add_right _ _

namespace Shape.Matches

/-- No text of any shape starts with a blank, but for the blank itself. -/
theorem of_separator (h : Matches shape w) (hc : isSeparator c = true) (hw : w <+: c :: cs) :
    w.length ≤ 1 := by
  cases h with
  | blank | mark => exact Nat.le_refl _
  | comment | closed | unclosed | unclosedBackslash =>
    obtain rfl := (List.cons_prefix_cons.1 hw).1
    cases hc
  | pair hpair =>
    obtain rfl := (List.cons_prefix_cons.1 hw).1
    rw [(Kind.char_of_ofPair? hpair).1] at hc
    cases hc
  | word hne hword =>
    cases w with
    | nil => exact absurd rfl hne
    | cons d w =>
      obtain rfl := (List.cons_prefix_cons.1 hw).1
      simp [isWordChar, hc] at hword

/-- What starts with a quote is a string, with its end or without. -/
theorem of_quote (h : Matches shape w) (hw : w <+: '"' :: cs) :
    ∃ body, Inside body ∧ body <+: cs ∧ w.length ≤ body.length + 2 := by
  cases h with
  | blank h | mark h =>
    obtain rfl := (List.cons_prefix_cons.1 hw).1
    cases h
  | comment => cases (List.cons_prefix_cons.1 hw).1
  | closed h | unclosedBackslash h =>
    have hprefix := (List.cons_prefix_cons.1 hw).2
    exact ⟨_, h, (List.prefix_append _ _).trans hprefix, by simp⟩
  | unclosed h => exact ⟨_, h, (List.cons_prefix_cons.1 hw).2, by simp⟩
  | pair h =>
    obtain rfl := (List.cons_prefix_cons.1 hw).1
    exact absurd rfl (Kind.char_of_ofPair? h).2.2
  | word hne hword =>
    cases w with
    | nil => exact absurd rfl hne
    | cons d w =>
      obtain rfl := (List.cons_prefix_cons.1 hw).1
      have hquote := hword _ List.mem_cons_self
      cases hquote

/-- Where neither a blank nor a string nor a comment starts, there are words and marks. -/
theorem of_markOrWord (h : Matches shape w) (hseparator : isSeparator c = false) (hquote : c ≠ '"')
    (hcomment : ¬ (c = '/' ∧ cs.head? = some '/')) (hw : w <+: c :: cs) :
    (isWordChar c = true ∧ ∀ d ∈ w, isWordChar d = true) ∨
      (w.length = 1 ∧ (Kind.ofChar? c).isSome = true) ∨
        (w.length = 2 ∧ (cs.head?.bind (Kind.ofPair? c)).isSome = true) := by
  cases h with
  | blank h =>
    obtain rfl := (List.cons_prefix_cons.1 hw).1
    rw [h] at hseparator
    cases hseparator
  | comment =>
    obtain ⟨hc, hprefix⟩ := List.cons_prefix_cons.1 hw
    obtain ⟨v, rfl⟩ := hprefix
    exact absurd ⟨hc.symm, rfl⟩ hcomment
  | closed | unclosed | unclosedBackslash =>
    exact absurd (List.cons_prefix_cons.1 hw).1.symm hquote
  | mark h =>
    obtain rfl := (List.cons_prefix_cons.1 hw).1
    exact .inr (.inl ⟨rfl, by rw [h]; rfl⟩)
  | pair h =>
    obtain ⟨rfl, v, rfl⟩ := List.cons_prefix_cons.1 hw
    exact .inr (.inr ⟨rfl, by simp [h]⟩)
  | word hne hword =>
    cases w with
    | nil => exact absurd rfl hne
    | cons d w =>
      obtain rfl := (List.cons_prefix_cons.1 hw).1
      exact .inl ⟨hword _ List.mem_cons_self, hword⟩

end Shape.Matches

theorem markOrWord_longest (hseparator : isSeparator c = false) (hquote : c ≠ '"')
    (hcomment : ¬ (c = '/' ∧ cs.head? = some '/')) : (markOrWord c cs).1.Longest (c :: cs) := by
  have hprefix : (markOrWord c cs).1.text <+: c :: cs := ⟨_, markOrWord_append c cs⟩
  have hmatch {shape w} (h : Shape.Matches shape w) (hw : w <+: c :: cs) :=
    h.of_markOrWord hseparator hquote hcomment hw
  unfold markOrWord at hprefix ⊢
  by_cases hword : isWordChar c = true
  · rw [if_pos hword] at hprefix ⊢
    have htext : c :: cs.takeWhile isWordChar = (c :: cs).takeWhile isWordChar := by
      rw [List.takeWhile_cons_of_pos hword]
    refine .shaped (.word (List.cons_ne_nil _ _) ?_) hprefix fun shape w h hw => ?_
    · rw [htext]
      exact List.all_eq_true.1 List.all_takeWhile
    · rw [htext]
      rcases hmatch h hw with ⟨-, hall⟩ | ⟨-, hmark⟩ | ⟨-, hpair⟩
      · exact length_le_takeWhile hw hall
      · obtain ⟨kind, hkind⟩ := Option.isSome_iff_exists.1 hmark
        rw [Kind.char_of_ofChar? hkind] at hword
        cases hword
      · obtain ⟨kind, hkind⟩ := Option.isSome_iff_exists.1 hpair
        obtain ⟨d, -, hkind⟩ := Option.bind_eq_some_iff.1 hkind
        rw [(Kind.char_of_ofPair? hkind).2.1] at hword
        cases hword
  · rw [if_neg hword] at hprefix ⊢
    have hmark {shape w} (h : Shape.Matches shape w) (hw : w <+: c :: cs) :=
      (hmatch h hw).resolve_left fun h => hword h.1
    cases hpair : cs.head?.bind (Kind.ofPair? c) with
    | some kind =>
      rw [hpair] at hprefix hmark
      obtain ⟨d, hd, hkind⟩ := Option.bind_eq_some_iff.1 hpair
      obtain ⟨rest, rfl⟩ := List.head?_eq_some_iff.1 hd
      refine .shaped (.pair hkind) hprefix fun shape w h hw => ?_
      rcases hmark h hw with ⟨hlength, -⟩ | ⟨hlength, -⟩
      · rw [hlength]
        exact Nat.le_succ 1
      · exact Nat.le_of_eq hlength
    | none =>
      rw [hpair] at hprefix hmark
      have hsingle {shape w} (h : Shape.Matches shape w) (hw : w <+: c :: cs) :=
        (hmark h hw).resolve_right fun h => Bool.false_ne_true h.2
      cases hkind : Kind.ofChar? c with
      | some kind =>
        rw [hkind] at hprefix
        exact .shaped (.mark hkind) hprefix fun shape w h hw => Nat.le_of_eq (hsingle h hw).1
      | none =>
        rw [hkind] at hprefix hsingle
        exact .stray rfl hprefix fun shape w h hw => Bool.false_ne_true (hsingle h hw).2

theorem first_longest (hline : '\n' ∉ c :: cs) : (first c cs).1.Longest (c :: cs) := by
  have hprefix : (first c cs).1.text <+: c :: cs := ⟨_, first_append c cs⟩
  have hcs : '\n' ∉ cs := List.not_mem_of_not_mem_cons hline
  unfold first at hprefix ⊢
  by_cases hseparator : isSeparator c = true
  · rw [if_pos hseparator] at hprefix ⊢
    exact .shaped (.blank hseparator) hprefix fun shape w h hw => h.of_separator hseparator hw
  rw [if_neg hseparator] at hprefix ⊢
  by_cases hquote : c = '"'
  · subst hquote
    rw [if_pos rfl] at hprefix ⊢
    cases hclose : closeQuote cs with
    | some result =>
      rw [hclose] at hprefix
      obtain ⟨body, rest⟩ := result
      obtain ⟨hinside, hmost⟩ := inside_of_closeQuote hcs hclose
      refine .shaped (.closed hinside) hprefix fun shape w h hw => ?_
      obtain ⟨inner, hinner, hwithin, hlength⟩ := h.of_quote hw
      have hle := hmost inner hinner hwithin
      simp only [List.length_append, List.length_cons, List.length_nil]
      omega
    | none =>
      have hmatches : Shape.Matches .unclosed ('"' :: cs) := by
        rcases inside_of_closeQuote_none hcs hclose with hinside | ⟨body, hinside, rfl⟩
        · exact .unclosed hinside
        · exact .unclosedBackslash hinside
      exact .shaped hmatches (List.prefix_refl _) fun shape w h hw => hw.length_le
  rw [if_neg hquote] at hprefix ⊢
  by_cases hcomment : c = '/' ∧ cs.head? = some '/'
  · rw [if_pos hcomment] at hprefix ⊢
    obtain ⟨rfl, hslash⟩ := hcomment
    obtain ⟨rest, rfl⟩ := List.head?_eq_some_iff.1 hslash
    exact .shaped (.comment (List.not_mem_of_not_mem_cons hcs)) hprefix
      fun shape w h hw => hw.length_le
  · rw [if_neg hcomment]
    exact markOrWord_longest (Bool.eq_false_iff.2 hseparator) hquote hcomment

-- ---------------------------------------------------------------------------
-- A text of a shape by itself
-- ---------------------------------------------------------------------------

/-- A word goes on up to the next character that ends words. -/
theorem first_of_isWordChar (hc : isWordChar c = true) (cs : List Char) :
    first c cs = (⟨.word, c :: cs.takeWhile isWordChar⟩, cs.dropWhile isWordChar) := by
  have hseparator : ¬ isSeparator c = true := fun h => by simp [isWordChar, h] at hc
  have hquote : c ≠ '"' := by rintro rfl; cases hc
  have hslash : ¬ (c = '/' ∧ cs.head? = some '/') := by rintro ⟨rfl, -⟩; cases hc
  rw [first, if_neg hseparator, if_neg hquote, if_neg hslash, markOrWord, if_pos hc]

/-- The line ends here, or goes on with a blank. -/
def SetOff (rest : List Char) : Prop :=
  ∀ c ∈ rest.head?, isSeparator c = true

theorem setOff_nil : SetOff [] :=
  nofun

namespace SetOff

variable {kind : Kind}

theorem ofPair?_eq_none (hrest : SetOff rest) : rest.head?.bind (Kind.ofPair? c) = none := by
  cases hd : rest.head? with
  | none => rfl
  | some d =>
    have hseparator : isSeparator d = true := hrest d hd
    cases hkind : Kind.ofPair? c d with
    | none => exact hkind
    | some kind =>
      unfold Kind.ofPair? at hkind
      split at hkind <;> cases hkind <;> cases hseparator

theorem takeWhile_isWordChar (hrest : SetOff rest) (hcs : ∀ c ∈ cs, isWordChar c = true) :
    (cs ++ rest).takeWhile isWordChar = cs ∧ (cs ++ rest).dropWhile isWordChar = rest := by
  rw [List.takeWhile_append_of_pos hcs, List.dropWhile_append_of_pos hcs]
  cases rest with
  | nil => exact ⟨List.append_nil cs, rfl⟩
  | cons d rest =>
    have hword : ¬ isWordChar d = true := by simp [isWordChar, hrest d rfl]
    rw [List.takeWhile_cons_of_neg hword, List.dropWhile_cons_of_neg hword]
    exact ⟨List.append_nil cs, rfl⟩

theorem first_word (hrest : SetOff rest) (hc : isWordChar c = true)
    (hcs : ∀ d ∈ cs, isWordChar d = true) :
    first c (cs ++ rest) = (⟨.word, c :: cs⟩, rest) := by
  obtain ⟨htake, hdrop⟩ := hrest.takeWhile_isWordChar hcs
  rw [first_of_isWordChar hc, htake, hdrop]

theorem first_mark (hrest : SetOff rest) (hc : Kind.ofChar? c = some kind) :
    first c rest = (⟨.mark kind, [c]⟩, rest) := by
  have hslash : ¬ (c = '/' ∧ rest.head? = some '/') := fun h => nomatch hrest '/' h.2
  have hstart : isSeparator c = false ∧ c ≠ '"' := by
    unfold Kind.ofChar? at hc
    split at hc <;> cases hc <;> decide
  rw [first, if_neg (Bool.eq_false_iff.1 hstart.1), if_neg hstart.2, if_neg hslash, markOrWord,
    if_neg (Bool.eq_false_iff.1 (Kind.char_of_ofChar? hc)), hrest.ofPair?_eq_none, hc]

end SetOff

/-- The inside of a string does not end it. -/
theorem Inside.closeQuote_append (h : Inside body) (cs : List Char) :
    closeQuote (body ++ cs) = (closeQuote cs).map fun (b, rest) => (body ++ b, rest) := by
  induction h with
  | nil => simp
  | plain hquote hbackslash _ ih =>
    rw [List.cons_append, closeQuote.eq_4 _ _ hquote fun _ _ h => absurd h hbackslash, ih,
      Option.map_map]
    rfl
  | escaped _ _ ih =>
    rw [List.cons_append, List.cons_append, closeQuote.eq_3, ih, Option.map_map]
    rfl

theorem first_quote (cs : List Char) : first '"' cs = match closeQuote cs with
    | some (body, rest) => (⟨.closed body, '"' :: body ++ ['"']⟩, rest)
    | none => (⟨.unclosed, '"' :: cs⟩, []) :=
  rfl

/-- A text of a shape is the first fragment of a line, set off from the rest of the line, unless its
shape takes the rest too. -/
theorem Shape.Matches.first_append (h : shape.Matches w) (hcomment : shape ≠ .comment)
    (hunclosed : shape ≠ .unclosed) (hrest : SetOff rest) :
    ∃ c cs, w = c :: cs ∧ first c (cs ++ rest) = (⟨shape, w⟩, rest) := by
  cases h with
  | blank h => exact ⟨_, _, rfl, by rw [first, if_pos h]; rfl⟩
  | comment => exact absurd rfl hcomment
  | @closed body h =>
    refine ⟨'"', body ++ ['"'], rfl, ?_⟩
    rw [first_quote, List.append_assoc, h.closeQuote_append]
    simp [closeQuote]
  | unclosed | unclosedBackslash => exact absurd rfl hunclosed
  | mark h => exact ⟨_, _, rfl, hrest.first_mark h⟩
  | pair h =>
    refine ⟨_, _, rfl, ?_⟩
    unfold Kind.ofPair? at h
    split at h <;> cases h <;> rfl
  | word hne h =>
    obtain ⟨c, cs, rfl⟩ := List.exists_cons_of_ne_nil hne
    exact ⟨c, cs, rfl, hrest.first_word (h c List.mem_cons_self)
      fun d hd => h d (List.mem_cons_of_mem c hd)⟩

/-- A text of a shape is one fragment of this shape. -/
theorem Shape.Matches.first_eq (h : shape.Matches w) :
    ∃ c cs, w = c :: cs ∧ first c cs = (⟨shape, w⟩, []) := by
  have halone (hcomment : shape ≠ .comment) (hunclosed : shape ≠ .unclosed) :
      ∃ c cs, w = c :: cs ∧ first c cs = (⟨shape, w⟩, []) := by
    obtain ⟨c, cs, hw, hfirst⟩ := h.first_append hcomment hunclosed setOff_nil
    rw [List.append_nil] at hfirst
    exact ⟨c, cs, hw, hfirst⟩
  cases h with
  | blank | closed | mark | pair | word => exact halone nofun nofun
  | comment => exact ⟨_, _, rfl, rfl⟩
  | unclosed h =>
    refine ⟨_, _, rfl, ?_⟩
    have hclose := h.closeQuote_append []
    rw [List.append_nil] at hclose
    rw [first_quote, hclose]
    rfl
  | @unclosedBackslash body h =>
    refine ⟨'"', body ++ ['\\'], rfl, ?_⟩
    rw [first_quote, h.closeQuote_append]
    rfl

variable {f g : Fragment}

theorem Shape.Matches.unique {shape' : Shape} (h : shape.Matches w) (h' : shape'.Matches w) :
    shape = shape' := by
  obtain ⟨c, cs, rfl, hfirst⟩ := h.first_eq
  obtain ⟨_, _, ⟨⟩, hfirst'⟩ := h'.first_eq
  cases hfirst.symm.trans hfirst'
  rfl

theorem Longest.text_ne_nil (h : f.Longest cs) : f.text ≠ [] := by
  cases h with
  | shaped h =>
    obtain ⟨c, cs, hw, -⟩ := h.first_eq
    exact hw ▸ List.cons_ne_nil c cs
  | stray hf => exact hf ▸ List.cons_ne_nil _ _

theorem Longest.unique (h : f.Longest cs) (h' : g.Longest cs) : f = g := by
  cases h with
  | shaped h hcs hmost =>
    cases h' with
    | shaped h' hcs' hmost' =>
      obtain ⟨shape, text⟩ := f
      obtain ⟨shape', text'⟩ := g
      have hlength : text.length = text'.length :=
        Nat.le_antisymm (hmost' _ _ h hcs) (hmost _ _ h' hcs')
      obtain rfl : text = text' :=
        (List.prefix_of_prefix_length_le hcs hcs' (Nat.le_of_eq hlength)).eq_of_length hlength
      exact congrArg (Fragment.mk · text) (h.unique h')
    | stray hf' hcs' hnone => exact absurd hcs (hnone _ _ h)
  | stray hf hcs hnone =>
    cases h' with
    | shaped h' hcs' => exact absurd hcs' (hnone _ _ h')
    | stray hf' hcs' =>
      obtain ⟨v, rfl⟩ := hcs
      obtain rfl := (List.cons_prefix_cons.1 hcs').1
      rw [hf, hf']

end Fragment

-- ---------------------------------------------------------------------------
-- All fragments
-- ---------------------------------------------------------------------------

/-- Induction over the fragments of a line. -/
theorem fragments_induction {motive : List Char → Prop} (nil : motive [])
    (cons : ∀ c cs, motive (Fragment.first c cs).2 → motive (c :: cs)) :
    ∀ cs, motive cs
  | [] => nil
  | c :: cs =>
    have := Fragment.length_first_le c cs
    cons c cs (fragments_induction nil cons (Fragment.first c cs).2)
termination_by cs => cs.length

theorem fragments_longest {cs : List Char} (hline : '\n' ∉ cs) : Dissected cs (fragments cs) := by
  induction cs using fragments_induction with
  | nil => exact .nil
  | cons c cs ih =>
    have happend := Fragment.first_append c cs
    have hlongest := Fragment.first_longest hline
    rw [fragments_cons]
    rw [← happend] at hline hlongest ⊢
    exact .cons hlongest (ih fun hrest => hline (List.mem_append_right _ hrest))

theorem no_break_of_mem_fragments {cs : List Char} {f : Fragment} (hline : '\n' ∉ cs)
    (hf : f ∈ fragments cs) : '\n' ∉ f.text := by
  intro h
  apply hline
  rw [← flatMap_text_fragments cs]
  exact List.mem_flatMap.2 ⟨f, hf, h⟩

theorem Dissected.longest_of_mem {cs : List Char} {f : Fragment} {fs : List Fragment}
    (h : Dissected cs fs) (hf : f ∈ fs) : ∃ rest, f.Longest rest := by
  induction h with
  | nil => cases hf
  | cons hlongest _ ih =>
    rcases List.mem_cons.1 hf with rfl | hf
    · exact ⟨_, hlongest⟩
    · exact ih hf

theorem Dissected.unique {cs : List Char} {fs gs : List Fragment} (h : Dissected cs fs)
    (h' : Dissected cs gs) : fs = gs := by
  induction h generalizing gs with
  | nil =>
    generalize hcs : ([] : List Char) = cs at h'
    cases h' with
    | nil => rfl
    | cons h' => exact absurd (List.append_eq_nil_iff.1 hcs.symm).1 h'.text_ne_nil
  | @cons f rest fs h _ ih =>
    generalize hcs : f.text ++ rest = cs at h'
    cases h' with
    | nil => exact absurd (List.append_eq_nil_iff.1 hcs).1 h.text_ne_nil
    | cons h' hrest' =>
      obtain rfl := h.unique (hcs ▸ h')
      rw [ih (List.append_cancel_left hcs ▸ hrest')]

/-- The fragments of a line are the one way to cut it by longest match. -/
theorem dissected_iff {cs : List Char} (hline : '\n' ∉ cs) (fs : List Fragment) :
    Dissected cs fs ↔ fs = fragments cs :=
  ⟨fun h => h.unique (fragments_longest hline), fun h => h ▸ fragments_longest hline⟩

end Lox
