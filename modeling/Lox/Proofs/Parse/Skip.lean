-- SUMMARY: Where recovery stops.
import Lox.Parse.Recovery
import Lox.Proofs.Grammar.Brackets
import Lox.Proofs.Parse.Taking

/-!
## Skipping

Recovery moves on to the first place where the declaration could end. `Skipped` says what such a
place is in terms of the tokens of the declaration alone, so there is only one. As long as no brace
closes nothing, the nesting that recovery keeps is the depth of the braces.
-/

namespace Lox

open BracketSort

-- ---------------------------------------------------------------------------
-- Places to stop
-- ---------------------------------------------------------------------------

/-- Whether a declaration with the tokens `w` may hold statements. -/
def compound (w : List Token) : Bool :=
  (w.head?.map fun t => t.kind.startsCompound).getD false

/-- Whether recovery stops between the tokens `w` of a declaration and the kind `next`. -/
def stopsAt (w : List Token) (next : Kind) : Bool :=
  declarationEnds (compound w) (Nesting.ofTokens w) w.getLast? next

/-- From `c` on, a declaration takes the tokens `x`: the tokens `w` before its error, and what is
skipped, which is at least one token in all. -/
structure Skipped (c : Cursor) (w x : List Token) (d : Cursor) : Prop where
  takes : c.Takes x d
  ne_nil : x ≠ []
  begins : w <+: x
  goes_on : ∀ y t z, x = y ++ t :: z → y ≠ [] → w <+: y → stopsAt y t.kind = false
  stops : d.current.kind = .endOfFile ∨ stopsAt x d.current.kind = true

section

variable {w x y v : List Token} {c c' d d' : Cursor} {t : Token}

theorem compound_append (h : x ≠ []) : compound (x ++ y) = compound x := by
  cases x with
  | nil => exact absurd rfl h
  | cons t x => rfl

theorem Nesting.ofTokens_concat :
    Nesting.ofTokens (w ++ [t]) = (Nesting.ofTokens w).step t.kind := by
  simp [Nesting.ofTokens]

/-- What is skipped, from behind the tokens `x` of the declaration. -/
theorem skipFrom_takes (base rest : List Token) (hx : x ≠ []) :
    ∃ v d, skipFrom (compound x) (Nesting.ofTokens x) (x.reverse ++ base) rest = d ∧
      Cursor.Takes ⟨x.reverse ++ base, rest⟩ v d ∧
      (∀ y t z, v = y ++ t :: z → stopsAt (x ++ y) t.kind = false) ∧
      (d.current.kind = .endOfFile ∨ stopsAt (x ++ v) d.current.kind = true) := by
  induction rest generalizing x with
  | nil => exact ⟨[], _, rfl, .refl _, by simp, .inl rfl⟩
  | cons t rest ih =>
    have hlast : (x.reverse ++ base).head? = x.getLast? := by
      rw [List.head?_append, List.head?_reverse, List.getLast?_eq_some_getLast hx, Option.some_or]
    rw [skipFrom, hlast]
    split
    · next h =>
      refine ⟨[], _, rfl, .refl _, by simp, ?_⟩
      rw [List.append_nil]
      exact h
    · next h =>
      obtain ⟨hend, hstop⟩ := not_or.1 h
      obtain ⟨v, d, hd, hv, hgo, hstops⟩ := ih (x := x ++ [t]) (by simp)
      rw [compound_append hx, Nesting.ofTokens_concat, List.reverse_concat, List.cons_append] at hd
      have ht : Cursor.Takes ⟨x.reverse ++ base, t :: rest⟩ [t] ⟨t :: (x.reverse ++ base), rest⟩ :=
        ⟨rfl, rfl, by simpa using hend⟩
      rw [List.reverse_concat, List.cons_append] at hv
      refine ⟨t :: v, d, hd, ht.trans hv, fun y t' z hy => ?_, by simpa using hstops⟩
      cases y with
      | nil =>
        cases hy
        rw [List.append_nil]
        exact Bool.eq_false_iff.2 hstop
      | cons t₀ y =>
        cases hy
        simpa using hgo y t' z rfl

theorem skipDeclaration_skips (hw : c.Takes w d) (hend : w = [] → d.current.kind ≠ .endOfFile) :
    ∃ x, Skipped c w x (d.skipDeclaration c.position) := by
  -- the tokens that recovery starts with, and the place behind them
  obtain ⟨x, m, hx, hxm, hwx, hlen, hskip⟩ : ∃ x m, x ≠ [] ∧ c.Takes x m ∧ w <+: x ∧
      (∀ y : List Token, y ≠ [] → w <+: y → x.length ≤ y.length) ∧
      (if d.position = c.position then d.next else d) = m := by
    cases w with
    | nil =>
      rw [hw.current_of_nil] at hend ⊢
      refine ⟨[c.current], c.next, by simp, Cursor.next_takes (hend rfl), List.nil_prefix,
        fun y hy _ => List.length_pos_iff.2 hy, if_pos rfl⟩
    | cons t w =>
      refine ⟨t :: w, d, by simp, hw, List.prefix_rfl, fun y _ hy => hy.length_le, if_neg ?_⟩
      rw [hw.position_eq, List.length_cons]
      omega
  obtain ⟨v, d', hd', hv, hgo, hstops⟩ := skipFrom_takes c.taken m.rest hx
  rw [← hxm.taken_eq] at hd' hv
  have heq : d.skipDeclaration c.position = d' := by
    rw [← hd', Cursor.skipDeclaration, hskip, hxm.takenSince_eq]
    rfl
  refine ⟨x ++ v, heq ▸ hxm.trans hv, by simp [hx], hwx.trans (List.prefix_append x v),
    fun y t z hy hne hwy => ?_, heq ▸ hstops⟩
  rcases List.append_eq_append_iff.1 hy with ⟨u, rfl, hu⟩ | ⟨u, rfl, hu⟩
  · exact hgo u t z hu
  · have hnil : u = [] := by
      have := hlen y hne hwy
      rw [List.length_append] at this
      exact List.length_eq_zero_iff.1 (by omega)
    subst hnil
    simpa using hgo [] t z hu.symm

/-- There is one place to stop at. -/
theorem Skipped.unique (h : Skipped c w x d) (h' : Skipped c w y d') : x = y := by
  have hshort : ∀ {x y d d'}, Skipped c w x d → Skipped c w y d' → x <+: y → x = y := by
    rintro x y d d' h h' ⟨z, rfl⟩
    cases z with
    | nil => simp
    | cons t z =>
      obtain ⟨m, hm, hmd⟩ := h'.takes.split
      obtain rfl := hm.unique h.takes
      have hgo := h'.goes_on x t z rfl h.ne_nil h.begins
      rcases h.stops with hend | hstop
      · exact absurd (hmd.current_of_cons ▸ hend) (hmd.no_end t (by simp))
      · rw [hmd.current_of_cons, hgo] at hstop
        cases hstop
  have hx : x <+: c.rest := ⟨d.rest, h.takes.rest_eq.symm⟩
  have hy : y <+: c.rest := ⟨d'.rest, h'.takes.rest_eq.symm⟩
  rcases List.prefix_or_prefix_of_prefix hx hy with hxy | hxy
  · exact hshort h h' hxy
  · exact (hshort h' h hxy).symm

/-- Only the kind of the token after a place matters for stopping there. -/
theorem Skipped.moved (h : Skipped c w x d) (hx : c'.Takes x d')
    (hd : d'.current.kind = d.current.kind) : Skipped c' w x d' :=
  ⟨hx, h.ne_nil, h.begins, h.goes_on, hd ▸ h.stops⟩

/-- Recovery stops where it can. -/
theorem Skipped.skipDeclaration_eq (hw : c.Takes w d) (h : Skipped c w x d') :
    d.skipDeclaration c.position = d' := by
  obtain ⟨y, hy⟩ := skipDeclaration_skips hw fun hnil => by
    subst hnil
    obtain ⟨t, x, rfl⟩ := List.exists_cons_of_ne_nil h.ne_nil
    rw [hw.current_of_nil, h.takes.current_of_cons]
    exact h.takes.no_end t (by simp)
  obtain rfl := h.unique hy
  exact hy.takes.unique h.takes

end


-- ---------------------------------------------------------------------------
-- Nesting and depth
-- ---------------------------------------------------------------------------

section

variable {w : List Token} {t : Token} {n : Nat} {k : Kind}

theorem Nesting.step_of_depth {m : Nesting} (h : braces.depthFrom m.depth [t] = some n) :
    (m.step t.kind).depth = n ∧ ((m.step t.kind).closed = true ↔ t.kind = .rightBrace ∧ n = 0) := by
  by_cases ho : t.kind = .leftBrace
  · rw [depthFrom_opening ho, depthFrom_nil] at h
    cases h
    simp [Nesting.step, ho]
  by_cases hc : t.kind = .rightBrace
  · obtain ⟨depth, closed⟩ := m
    cases depth with
    | zero => simp [depthFrom, hc] at h
    | succ depth =>
      rw [depthFrom_closing hc, depthFrom_nil] at h
      cases h
      simp [Nesting.step, hc]
  · rw [depthFrom_other ho hc, depthFrom_nil] at h
    cases h
    unfold Nesting.step
    split <;> simp_all

theorem foldl_step_depth {m : Nesting} (h : braces.depthFrom m.depth w = some n) :
    (w.foldl (fun m t => m.step t.kind) m).depth = n := by
  induction w generalizing m with
  | nil => exact Option.some.inj h
  | cons t w ih =>
    rw [← List.singleton_append, depthFrom_append] at h
    obtain ⟨k, ht, hw⟩ := Option.bind_eq_some_iff.1 h
    apply ih
    rw [(Nesting.step_of_depth ht).1, hw]

/-- The depth that recovery keeps, and its note of a brace that closed the outermost one. -/
theorem Nesting.ofTokens_of_depth (h : braces.depthFrom 0 w = some n) :
    (Nesting.ofTokens w).depth = n ∧ ((Nesting.ofTokens w).closed = true ↔
      n = 0 ∧ ∃ t, w.getLast? = some t ∧ t.kind = .rightBrace) := by
  refine ⟨foldl_step_depth (m := { }) h, ?_⟩
  rcases List.eq_nil_or_concat w with rfl | ⟨u, t, rfl⟩
  · simp [Nesting.ofTokens]
  · rw [List.concat_eq_append, depthFrom_append] at h
    obtain ⟨k, hu, ht⟩ := Option.bind_eq_some_iff.1 h
    have hdepth : (Nesting.ofTokens u).depth = k := foldl_step_depth (m := { }) hu
    rw [List.concat_eq_append, Nesting.ofTokens_concat, (step_of_depth (hdepth ▸ ht)).2]
    simp [and_comm]

/-- Where no brace closes nothing, recovery stops between braces only, behind a semicolon or a brace
unless a compound declaration goes on with `else`, and in a simple one before a keyword. -/
theorem stopsAt_iff (h : braces.Safe w) :
    stopsAt w k = true ↔ braces.Balanced w ∧
      ((∃ t, w.getLast? = some t ∧ (t.kind = .rightBrace ∨ t.kind = .semicolon)) ∧
          ¬ (compound w = true ∧ k = .kwElse) ∨
        compound w = false ∧ k.startsStatement = true) := by
  obtain ⟨n, hn⟩ := h
  obtain ⟨hdepth, hclosed⟩ := Nesting.ofTokens_of_depth hn
  by_cases hzero : n = 0
  · subst hzero
    have hended :
        ((Nesting.ofTokens w).closed || w.getLast?.any fun t => t.kind == .semicolon) = true ↔
          ∃ t, w.getLast? = some t ∧ (t.kind = .rightBrace ∨ t.kind = .semicolon) := by
      rw [Bool.or_eq_true, hclosed]
      cases w.getLast? <;> simp
    simp only [stopsAt, declarationEnds, hdepth, BracketSort.Balanced, hn, ← hended]
    cases compound w <;> simp
  · simp [stopsAt, declarationEnds, hdepth, BracketSort.Balanced, hn, hzero]

end

end Lox
