-- SUMMARY: The shape of statements: brackets, and the places where one could be thought to end.
import Lox.Proofs.Grammar.Brackets
import Lox.Proofs.Grammar.Derivation

/-!
## Shape of statements

Where a statement ends shows in its semicolons and braces. A token list is `Terminated` if it ends
with a semicolon outside brackets or with the brace that closes the outermost one. A statement is
terminated itself, and it is `Undivided`: what is terminated inside it goes on with `else`. A `Lead`
is what can stand before the body of a statement without having an influence on either.
-/

namespace Lox

open BracketSort

-- ---------------------------------------------------------------------------
-- Tokens inside expressions
-- ---------------------------------------------------------------------------

/-- The kinds that can stand inside a simple statement. -/
def Kind.isInline : Kind → Bool
  | .leftBrace | .rightBrace | .semicolon | .error | .endOfFile => false
  | _ => true

/-- The kinds among these that are no parentheses. -/
def Kind.isPlain : Kind → Bool
  | .leftParen | .rightParen => false
  | k => k.isInline

def Inline (w : List Token) : Prop :=
  ∀ t ∈ w, t.kind.isInline = true

/-- The tokens are neither errors nor the end of the list. -/
def Proper (w : List Token) : Prop :=
  ∀ t ∈ w, t.kind ≠ .error ∧ t.kind ≠ .endOfFile

section

variable {t : Token} {u v w : List Token}

@[simp] theorem inline_nil : Inline [] :=
  List.forall_mem_nil _

@[simp] theorem inline_cons : Inline (t :: w) ↔ t.kind.isInline = true ∧ Inline w :=
  List.forall_mem_cons

@[simp] theorem inline_append : Inline (u ++ v) ↔ Inline u ∧ Inline v :=
  List.forall_mem_append

@[simp] theorem proper_nil : Proper [] :=
  List.forall_mem_nil _

@[simp] theorem proper_cons :
    Proper (t :: w) ↔ (t.kind ≠ .error ∧ t.kind ≠ .endOfFile) ∧ Proper w :=
  List.forall_mem_cons

@[simp] theorem proper_append : Proper (u ++ v) ↔ Proper u ∧ Proper v :=
  List.forall_mem_append

theorem Inline.proper (h : Inline w) : Proper w := by
  intro t ht
  have := h t ht
  constructor <;> (intro hk; simp [hk, Kind.isInline] at this)

theorem Inline.braces_absent (h : Inline w) : braces.Absent w := by
  intro t ht
  have := h t ht
  constructor <;> (intro hk; simp [hk, Kind.isInline] at this)

theorem Inline.no_semicolon (h : Inline w) : ∀ t ∈ w, t.kind ≠ .semicolon := by
  intro t ht hk
  have := h t ht
  simp [hk, Kind.isInline] at this

end


-- ---------------------------------------------------------------------------
-- Ends
-- ---------------------------------------------------------------------------

/-- The tokens end with a semicolon outside brackets, or with the brace that closes the outermost
one. -/
def Terminated (w : List Token) : Prop :=
  braces.Balanced w ∧ ∃ t, w.getLast? = some t ∧
    (t.kind = .rightBrace ∨ t.kind = .semicolon ∧ parens.Balanced w)

/-- Whatever first part is terminated, `else` follows. -/
def Undivided (w : List Token) : Prop :=
  ∀ (u : List Token) (t : Token) (v : List Token),
    w = u ++ t :: v → Terminated u → t.kind = .kwElse

/-- No first part is terminated, nor the whole. -/
def OpenEnded (w : List Token) : Prop :=
  ∀ u v, w = u ++ v → ¬ Terminated u

/-- Balanced tokens that are open-ended. -/
structure Lead (u : List Token) : Prop where
  braces : braces.Balanced u
  parens : parens.Balanced u
  openEnded : OpenEnded u

section

variable {t : Token} {u v w : List Token}

theorem not_terminated_nil : ¬ Terminated [] := by
  simp [Terminated]

/-- Balanced tokens in front make no difference. -/
theorem terminated_append_iff (hb : braces.Balanced u) (hp : parens.Balanced u) (hv : v ≠ []) :
    Terminated (u ++ v) ↔ Terminated v := by
  rw [Terminated, Terminated, hb.append_iff, hp.append_iff, List.getLast?_append,
    List.getLast?_eq_some_getLast hv, Option.some_or]

/-- What is terminated ends with a semicolon or a closing brace. -/
theorem Terminated.kind_last (h : Terminated (w ++ [t])) :
    t.kind = .rightBrace ∨ t.kind = .semicolon := by
  obtain ⟨-, t', ht, hk⟩ := h
  rw [List.getLast?_concat] at ht
  cases ht
  exact hk.imp_right And.left

theorem OpenEnded.not_terminated (h : OpenEnded w) : ¬ Terminated w :=
  h w [] (by simp)

theorem OpenEnded.concat (h : OpenEnded w) (ht : ¬ Terminated (w ++ [t])) :
    OpenEnded (w ++ [t]) := by
  intro x y hxy
  rcases List.eq_nil_or_concat y with rfl | ⟨y, t', rfl⟩
  · rw [List.append_nil] at hxy
    exact hxy ▸ ht
  · rw [List.concat_eq_append, ← List.append_assoc] at hxy
    exact h x y (List.append_inj_left' hxy rfl)

theorem OpenEnded.undivided (h : OpenEnded w) : Undivided w :=
  fun u t v huv hu => absurd hu (h u (t :: v) huv)

theorem OpenEnded.undivided_concat (h : OpenEnded w) : Undivided (w ++ [t]) := by
  intro x t' y hxy hx
  rcases List.eq_nil_or_concat y with rfl | ⟨y, t'', rfl⟩
  · cases List.append_inj_left' hxy rfl
    exact absurd hx h.not_terminated
  · rw [List.concat_eq_append, ← List.cons_append, ← List.append_assoc] at hxy
    exact absurd hx (h x (t' :: y) (List.append_inj_left' hxy rfl))

theorem Lead.terminated_iff (hu : Lead u) : Terminated (u ++ v) ↔ Terminated v := by
  cases v with
  | nil => simpa [not_terminated_nil] using hu.openEnded.not_terminated
  | cons t v => exact terminated_append_iff hu.braces hu.parens (by simp)

theorem Lead.openEnded_append (hu : Lead u) (hv : OpenEnded v) : OpenEnded (u ++ v) := by
  intro x y h hx
  rcases List.append_eq_append_iff.1 h with ⟨z, rfl, hz⟩ | ⟨z, hz, -⟩
  · exact hv z y hz (hu.terminated_iff.1 hx)
  · exact hu.openEnded x z hz hx

theorem Lead.append (hu : Lead u) (hv : Lead v) : Lead (u ++ v) where
  braces := hu.braces.append hv.braces
  parens := hu.parens.append hv.parens
  openEnded := hu.openEnded_append hv.openEnded

theorem Lead.undivided (hu : Lead u) (hv : Undivided v) : Undivided (u ++ v) := by
  intro x t y h hx
  rcases List.append_eq_append_iff.1 h with ⟨z, rfl, hz⟩ | ⟨z, hz, -⟩
  · exact hv z t y hz (hu.terminated_iff.1 hx)
  · exact absurd hx (hu.openEnded x z hz)

/-- Two undivided parts with `else` between them. -/
theorem Undivided.append (hb : braces.Balanced u) (hp : parens.Balanced u) (hu : Undivided u)
    (ht : t.kind = .kwElse) (hv : Undivided (t :: v)) : Undivided (u ++ t :: v) := by
  intro x t' y h hx
  rcases List.append_eq_append_iff.1 h with ⟨z, rfl, hz⟩ | ⟨z, hz, hy⟩
  · cases z with
    | nil =>
      simp only [List.nil_append, List.cons.injEq] at hz
      rw [← hz.1, ht]
    | cons z₀ z => exact hv _ t' y hz ((terminated_append_iff hb hp (by simp)).1 hx)
  · cases z with
    | nil =>
      simp only [List.nil_append, List.cons.injEq] at hy
      rw [hy.1, ht]
    | cons z₀ z =>
      simp only [List.cons_append, List.cons.injEq] at hy
      exact hu x t' z (hy.1 ▸ hz) hx

theorem Inline.openEnded (h : Inline w) : OpenEnded w := by
  rintro x y rfl ⟨-, t, ht, hk⟩
  have := (inline_append.1 h).1 t (List.mem_of_getLast? ht)
  rcases hk with hk | ⟨hk, -⟩ <;> simp [hk, Kind.isInline] at this

/-- Nothing ends behind an open parenthesis. -/
theorem OpenEnded.in_parens (ht : t.kind = .leftParen) (hb : braces.Absent w)
    (hp : parens.Safe w) : OpenEnded (t :: w) := by
  rintro x y h ⟨-, t', ht', hk⟩
  cases x with
  | nil => cases ht'
  | cons t₀ x =>
    simp only [List.cons_append, List.cons.injEq] at h
    obtain ⟨rfl, rfl⟩ := h
    rcases hk with hk | ⟨-, hk⟩
    · rcases List.mem_cons.1 (List.mem_of_getLast? ht') with rfl | hmem
      · rw [ht] at hk
        cases hk
      · exact (hb t' (List.mem_append_left y hmem)).2 hk
    · exact hp.of_append.not_balanced_cons ht hk

/-- Nothing ends behind an open brace. -/
theorem OpenEnded.in_braces (ht : t.kind = .leftBrace) (hb : braces.Safe w) :
    OpenEnded (t :: w) := by
  rintro x y h ⟨hx, t', ht', -⟩
  cases x with
  | nil => cases ht'
  | cons t₀ x =>
    simp only [List.cons_append, List.cons.injEq] at h
    obtain ⟨rfl, rfl⟩ := h
    exact hb.of_append.not_balanced_cons ht hx

theorem Lead.in_parens {t' : Token} (ht : t.kind = .leftParen) (hb : BracketSort.braces.Absent w)
    (hp : BracketSort.parens.Balanced w) (ht' : t'.kind = .rightParen) :
    Lead (t :: (w ++ [t'])) where
  braces := by
    refine Absent.balanced fun s hs => ?_
    rcases List.mem_cons.1 hs with rfl | hs
    · simp [ht]
    · rcases List.mem_append.1 hs with hs | hs
      · exact hb s hs
      · simp [List.mem_singleton.1 hs, ht']
  parens := hp.enclosed ht ht'
  openEnded := by
    refine (OpenEnded.in_parens ht hb hp.safe).concat fun h => ?_
    rcases Terminated.kind_last h with hk | hk <;> simp [ht'] at hk

end


-- ---------------------------------------------------------------------------
-- Whole statements
-- ---------------------------------------------------------------------------

/-- The shape of every statement. -/
structure Whole (w : List Token) : Prop where
  proper : Proper w
  braces : braces.Balanced w
  parens : parens.Balanced w
  terminated : Terminated w
  undivided : Undivided w

/-- The shape of a declaration that was broken off. -/
structure Cut (w : List Token) : Prop where
  braces : braces.Safe w
  parens : parens.Safe w
  undivided : Undivided w
  not_terminated : ¬ Terminated w

/-- The shape of an expression. -/
structure Plain (w : List Token) : Prop where
  inline : Inline w
  parens : parens.Balanced w

/-- The shape of the beginning of an expression, or of a simple statement before its semicolon. -/
structure Fragmentary (w : List Token) : Prop where
  inline : Inline w
  parens : parens.Safe w

/-- The shape of a statement that has no statements inside: the semicolon ends it. -/
def Simple (w : List Token) : Prop :=
  ∃ (u : List Token) (t : Token), w = u ++ [t] ∧ Plain u ∧ t.kind = .semicolon

section

variable {t t' : Token} {u v w : List Token}

theorem Plain.nil : Plain [] :=
  ⟨inline_nil, Balanced.nil⟩

theorem Plain.single {kind : Kind} (ht : t.kind = kind) (h : kind.isPlain = true := by decide) :
    Plain [t] := by
  subst ht
  refine ⟨inline_cons.2 ⟨?_, inline_nil⟩, Absent.balanced ?_⟩
  · generalize t.kind = k at h
    cases k <;> first | rfl | cases h
  · simp only [Absent, List.mem_singleton, forall_eq, parens_opening, parens_closing]
    constructor <;> (intro hk; rw [hk] at h; cases h)

theorem Plain.append (hu : Plain u) (hv : Plain v) : Plain (u ++ v) :=
  ⟨inline_append.2 ⟨hu.inline, hv.inline⟩, hu.parens.append hv.parens⟩

theorem Plain.in_parens (hw : Plain w) (ht : t.kind = .leftParen) (ht' : t'.kind = .rightParen) :
    Plain (t :: (w ++ [t'])) where
  inline := by simp [ht, ht', hw.inline, Kind.isInline]
  parens := hw.parens.enclosed ht ht'

theorem Plain.lead (h : Plain w) : Lead w :=
  ⟨h.inline.braces_absent.balanced, h.parens, h.inline.openEnded⟩

theorem Plain.fragmentary (h : Plain w) : Fragmentary w :=
  ⟨h.inline, h.parens.safe⟩

theorem Fragmentary.nil : Fragmentary [] :=
  Plain.nil.fragmentary

theorem Fragmentary.append (hu : Fragmentary u) (hv : Fragmentary v) : Fragmentary (u ++ v) :=
  ⟨inline_append.2 ⟨hu.inline, hv.inline⟩, hu.parens.append hv.parens⟩

theorem Fragmentary.leftParen (ht : t.kind = .leftParen) : Fragmentary [t] :=
  ⟨by simp [ht, Kind.isInline], Balanced.nil.safe.cons_opening ht⟩

theorem Whole.ne_nil (h : Whole w) : w ≠ [] := by
  rintro rfl
  exact not_terminated_nil h.terminated

theorem Whole.after (hv : Whole v) (hu : Lead u) (hp : Proper u) : Whole (u ++ v) where
  proper := proper_append.2 ⟨hp, hv.proper⟩
  braces := hu.braces.append hv.braces
  parens := hu.parens.append hv.parens
  terminated := hu.terminated_iff.2 hv.terminated
  undivided := hu.undivided hv.undivided

theorem Whole.append_else (hu : Whole u) (ht : t.kind = .kwElse) (hv : Whole v) :
    Whole (u ++ t :: v) := by
  have hline : Plain [t] := .single ht
  have htv : Whole ([t] ++ v) := hv.after hline.lead hline.inline.proper
  exact {
    proper := proper_append.2 ⟨hu.proper, htv.proper⟩
    braces := hu.braces.append htv.braces
    parens := hu.parens.append htv.parens
    terminated := (terminated_append_iff hu.braces hu.parens (by simp)).2 htv.terminated
    undivided := hu.undivided.append hu.braces hu.parens ht htv.undivided }

theorem Whole.semicolon (ht : t.kind = .semicolon) : Whole [t] := by
  have hb : BracketSort.braces.Balanced [t] := Absent.balanced (by simp [Absent, ht])
  have hp : BracketSort.parens.Balanced [t] := Absent.balanced (by simp [Absent, ht])
  have hopen : OpenEnded ([] : List Token) := inline_nil.openEnded
  exact {
    proper := by simp [ht]
    braces := hb
    parens := hp
    terminated := ⟨hb, t, rfl, .inr ⟨ht, hp⟩⟩
    undivided := hopen.undivided_concat (t := t) }

theorem Simple.whole (h : Simple w) : Whole w := by
  obtain ⟨u, t, rfl, hu, ht⟩ := h
  exact (Whole.semicolon ht).after hu.lead hu.inline.proper

theorem Simple.after (hw : Simple w) (hu : Plain u) : Simple (u ++ w) := by
  obtain ⟨v, t, rfl, hv, ht⟩ := hw
  exact ⟨u ++ v, t, (List.append_assoc u v [t]).symm, hu.append hv, ht⟩

theorem Simple.of_plain (hw : Plain w) (ht : t.kind = .semicolon) : Simple (w ++ [t]) :=
  ⟨w, t, rfl, hw, ht⟩

theorem Simple.braces_absent (h : Simple w) : BracketSort.braces.Absent w := by
  obtain ⟨u, t, rfl, hu, ht⟩ := h
  exact hu.inline.braces_absent.append (by simp [Absent, ht])

/-- Balanced tokens between braces. -/
theorem Whole.block (ht : t.kind = .leftBrace) (hproper : Proper w)
    (hb : BracketSort.braces.Balanced w) (hp : BracketSort.parens.Balanced w)
    (ht' : t'.kind = .rightBrace) : Whole (t :: (w ++ [t'])) where
  proper := by simp [ht, ht', hproper]
  braces := hb.enclosed ht ht'
  parens := by
    rw [BracketSort.Balanced, depthFrom_other (by simp [ht]) (by simp [ht]), depthFrom_append,
      hp.depthFrom, Option.bind_some, depthFrom_other (by simp [ht']) (by simp [ht']),
      depthFrom_nil]
  terminated := by
    refine ⟨hb.enclosed ht ht', t', ?_, .inl ht'⟩
    rw [← List.cons_append, List.getLast?_concat]
  undivided := (OpenEnded.in_braces ht hb.safe).undivided_concat

theorem Cut.of_openEnded (h : OpenEnded w) (hb : BracketSort.braces.Safe w)
    (hp : BracketSort.parens.Safe w) : Cut w :=
  ⟨hb, hp, h.undivided, h.not_terminated⟩

/-- The beginning of a block. -/
theorem Cut.block (ht : t.kind = .leftBrace) (hb : BracketSort.braces.Safe w)
    (hp : BracketSort.parens.Safe w) : Cut (t :: w) := by
  have hopening : BracketSort.parens.Balanced [t] := Absent.balanced (by simp [Absent, ht])
  exact .of_openEnded (.in_braces ht hb) (hb.cons_opening ht) (hopening.safe.append hp)

theorem Cut.after (hv : Cut v) (hu : Lead u) : Cut (u ++ v) where
  braces := hu.braces.safe_append_iff.2 hv.braces
  parens := hu.parens.safe_append_iff.2 hv.parens
  undivided := hu.undivided hv.undivided
  not_terminated := fun h => hv.not_terminated (hu.terminated_iff.1 h)

theorem Cut.after_else (hv : Cut v) (hu : Whole u) (ht : t.kind = .kwElse) :
    Cut (u ++ t :: v) := by
  have hlead : Lead [t] := (Plain.single ht).lead
  have htv : Cut ([t] ++ v) := hv.after hlead
  exact {
    braces := hu.braces.safe_append_iff.2 htv.braces
    parens := hu.parens.safe_append_iff.2 htv.parens
    undivided := hu.undivided.append hu.braces hu.parens ht htv.undivided
    not_terminated := fun h =>
      htv.not_terminated ((terminated_append_iff hu.braces hu.parens (by simp)).1 h) }

theorem Fragmentary.cut (h : Fragmentary w) : Cut w :=
  .of_openEnded h.inline.openEnded h.inline.braces_absent.balanced.safe h.parens

end

end Lox
