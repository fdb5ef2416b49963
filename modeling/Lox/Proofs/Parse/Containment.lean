-- SUMMARY: A broken declaration of a clear shape costs only itself.
import Lox.Proofs.Parse.Correct

/-!
## Containment

Between derivable declarations and any further tokens, a broken declaration gives its one error and
nothing else, if recovery stops behind it and not earlier. That is so for the tokens up to one
semicolon, and for the tokens of a compound declaration up to the end of its block.
-/

namespace Lox

open BracketSort Grammar

-- ---------------------------------------------------------------------------
-- Shapes
-- ---------------------------------------------------------------------------

/-- The tokens are neither braces nor semicolons. -/
def Flat (w : List Token) : Prop :=
  ∀ t ∈ w, t.kind ≠ .leftBrace ∧ t.kind ≠ .rightBrace ∧ t.kind ≠ .semicolon

/-- A simple declaration up to its semicolon. No token after the first starts a statement. -/
inductive LineShape : List Token → Prop where
  | mk {body} {semicolon : Token}
      (hfirst : ∀ t ∈ body.head?, t.kind.startsCompound = false ∧ t.kind ≠ .kwElse)
      (hbody : Flat body) (htail : ∀ t ∈ body.tail, t.kind.startsStatement = false)
      (hc : semicolon.kind = .semicolon) : LineShape (body ++ [semicolon])

/-- A compound declaration up to the end of its first block. -/
inductive BlockShape : List Token → Prop where
  | mk {head} {opening : Token} {body} {closing : Token} (hhead : Flat head)
      (ho : opening.kind = .leftBrace)
      (hbody : braces.Balanced body) (hc : closing.kind = .rightBrace)
      (hfirst : compound (head ++ opening :: (body ++ [closing])) = true) :
      BlockShape (head ++ opening :: (body ++ [closing]))

variable {a b w x y z : List Token} {s t last : Token} {e : ParseError} {d : Cursor} {k : Kind}

theorem Flat.braces_absent (h : Flat w) : braces.Absent w :=
  fun t ht => ⟨(h t ht).1, (h t ht).2.1⟩

theorem Flat.of_append (h : Flat (x ++ y)) : Flat x :=
  fun t ht => h t (List.mem_append_left y ht)

/-- Without braces and semicolons, only the start of a statement ends a declaration. -/
theorem Flat.stopsAt_iff (h : Flat w) :
    stopsAt w k = true ↔ compound w = false ∧ k.startsStatement = true := by
  have hb := h.braces_absent.balanced
  rw [Lox.stopsAt_iff hb.safe]
  constructor
  · rintro ⟨-, ⟨⟨t, ht, hk⟩, -⟩ | hk⟩
    · obtain ⟨-, hbrace, hsemicolon⟩ := h t (List.mem_of_getLast? ht)
      exact absurd hk (by simp [hbrace, hsemicolon])
    · exact hk
  · exact fun hk => ⟨hb, .inr hk⟩

theorem LineShape.not_compound (h : LineShape x) :
    compound x = false ∧ firstKind x .endOfFile ≠ .kwElse := by
  cases h with
  | @mk body semicolon hfirst hbody htail hc =>
    cases body with
    | nil => simp [compound, firstKind, hc, Kind.startsCompound]
    | cons t body => simpa [compound, firstKind] using hfirst

theorem LineShape.goes_on (h : LineShape x) (hx : x = y ++ t :: z) (hy : y ≠ []) :
    stopsAt y t.kind = false := by
  have hstart : Flat y ∧ t.kind.startsStatement = false := by
    cases h with
    | @mk body semicolon hfirst hbody htail hc =>
      rcases List.eq_nil_or_concat z with rfl | ⟨z, s, rfl⟩
      · obtain ⟨rfl, hs⟩ := List.append_inj' hx rfl
        cases hs
        exact ⟨hbody, by rw [hc]; rfl⟩
      · rw [List.concat_eq_append, ← List.cons_append, ← List.append_assoc] at hx
        obtain ⟨rfl, -⟩ := List.append_inj' hx rfl
        refine ⟨hbody.of_append, htail t ?_⟩
        rw [List.tail_append_of_ne_nil hy]
        simp
  rw [Bool.eq_false_iff, ne_eq, hstart.1.stopsAt_iff, hstart.2]
  simp

theorem LineShape.stops (h : LineShape x) (k : Kind) : stopsAt x k = true := by
  have hcompound := h.not_compound.1
  cases h with
  | @mk body semicolon hfirst hbody htail hc =>
    have hb : BracketSort.braces.Balanced (body ++ [semicolon]) :=
      hbody.braces_absent.balanced.append (Absent.balanced (by simp [Absent, hc]))
    exact (stopsAt_iff hb.safe).2 ⟨hb, .inl ⟨⟨semicolon, by simp, .inr hc⟩, by simp [hcompound]⟩⟩

theorem BlockShape.balanced (h : BlockShape x) : braces.Balanced x := by
  cases h with
  | mk hhead ho hbody hc => exact hhead.braces_absent.balanced.append (hbody.enclosed ho hc)

theorem BlockShape.goes_on (h : BlockShape x) (hx : x = y ++ t :: z) (hy : y ≠ []) :
    stopsAt y t.kind = false := by
  cases h with
  | @mk head opening body closing hhead ho hbody hc hfirst =>
    have hcompound : compound y = true := by rw [← hfirst, hx, compound_append hy]
    rw [Bool.eq_false_iff]
    intro hstop
    rcases List.append_eq_append_iff.1 hx with ⟨u, rfl, hu⟩ | ⟨u, rfl, -⟩
    · cases u with
      | nil =>
        rw [List.append_nil] at hstop hcompound
        rw [hhead.stopsAt_iff, hcompound] at hstop
        cases hstop.1
      | cons t₀ u =>
        simp only [List.cons_append, List.cons.injEq] at hu
        obtain ⟨rfl, hu⟩ := hu
        have hinside : u <+: body :=
          (List.prefix_concat_iff.1 ⟨t :: z, hu.symm⟩).resolve_left (by rintro rfl; simp at hu)
        obtain ⟨v, rfl⟩ := hinside
        have hsafe : braces.Safe (head ++ opening :: u) :=
          hhead.braces_absent.balanced.safe.append (hbody.safe.of_append.cons_opening ho)
        have hbalanced := ((stopsAt_iff hsafe).1 hstop).1
        rw [hhead.braces_absent.balanced.append_iff] at hbalanced
        exact hbody.safe.of_append.not_balanced_cons ho hbalanced
    · rw [hhead.of_append.stopsAt_iff, hcompound] at hstop
      cases hstop.1

theorem BlockShape.compound (h : BlockShape x) : compound x = true := by
  cases h with
  | mk _ _ _ _ hfirst => exact hfirst

theorem BlockShape.terminated (h : BlockShape x) : Terminated x := by
  have hbalanced := h.balanced
  cases h with
  | @mk _ _ _ closing _ _ _ hc _ =>
    refine ⟨hbalanced, closing, ?_, .inl hc⟩
    rw [← List.cons_append, ← List.append_assoc, List.getLast?_concat]

theorem BlockShape.stops (h : BlockShape x) (hk : k ≠ .kwElse) : stopsAt x k = true := by
  obtain ⟨hbalanced, t, ht, hend⟩ := h.terminated
  exact (stopsAt_iff hbalanced.safe).2
    ⟨hbalanced, .inl ⟨⟨t, ht, hend.imp_right And.left⟩, fun hand => hk hand.2⟩⟩

theorem BlockShape.not_else (h : BlockShape x) : firstKind x .endOfFile ≠ .kwElse := by
  have hcompound := h.compound
  intro hk
  cases x with
  | nil => cases hk
  | cons t x =>
    have ht : t.kind = .kwElse := hk
    simp [Lox.compound, ht, Kind.startsCompound] at hcompound

-- ---------------------------------------------------------------------------
-- What was taken before the error
-- ---------------------------------------------------------------------------

theorem compound_of_startsWith (h : StartsWith Kind.startsCompound w) : compound w = true := by
  obtain ⟨t, v, rfl, ht⟩ := h
  exact ht

/-- A syntax error in a line comes before its semicolon is taken. -/
theorem LineShape.not_broken (h : LineShape x) : ¬ BrokenDeclaration x := by
  intro hb
  have hcompound := h.not_compound.1
  rcases hb.first with hfragment | hfirst
  · cases h with
    | @mk body semicolon _ _ _ hc => exact hfragment.inline.no_semicolon semicolon (by simp) hc
  · rw [compound_of_startsWith hfirst] at hcompound
    cases hcompound

theorem BlockShape.not_broken (h : BlockShape x) : ¬ BrokenDeclaration x :=
  fun hb => hb.cut.not_terminated h.terminated

/-- What keeps recovery from a syntax error in `x` apart from the next token, of kind `k`. -/
structure Separate (x : List Token) (k : Kind) : Prop where
  not_broken : ¬ BrokenDeclaration x
  goes_on : ∀ y t z, x = y ++ t :: z → y ≠ [] → stopsAt y t.kind = false
  stops : stopsAt x k = true
  not_else : firstKind x .endOfFile ≠ .kwElse

theorem separate_of_shape (h : LineShape x ∨ BlockShape x ∧ k ≠ .kwElse) : Separate x k := by
  rcases h with h | ⟨h, hk⟩
  · exact ⟨h.not_broken, fun y t z => h.goes_on, h.stops k, h.not_compound.2⟩
  · exact ⟨h.not_broken, fun y t z => h.goes_on, h.stops hk, h.not_else⟩

-- ---------------------------------------------------------------------------
-- One broken declaration between others
-- ---------------------------------------------------------------------------

/-- Declarations that are parsed without errors are derivable before whatever is not `else`. -/
theorem declarations_of_parse (ha : ∀ t ∈ a, t.kind ≠ .endOfFile) (h : (parse a).errors = [])
    (hk : k ≠ .kwElse) : Declarations a k (parse a).statements := by
  have hprogram := program_of_parse a h
  have hbefore : beforeEnd a = a := by simpa [beforeEnd] using beforeEnd_append ha []
  rw [hbefore] at hprogram
  exact hprogram.before hk

/-- Declarations that are parsed without errors make no difference to what comes after them. -/
theorem parse_behind (ha : ∀ t ∈ a, t.kind ≠ .endOfFile) (haok : (parse a).errors = [])
    (hx : x ≠ []) (hk : firstKind x .endOfFile ≠ .kwElse) :
    parse (a ++ x ++ b) =
      ⟨(parse a).statements ++ (parse (x ++ b)).statements, (parse (x ++ b)).errors⟩ := by
  have hfirst : firstKind (x ++ b) .endOfFile = firstKind x .endOfFile := by
    obtain ⟨t, x, rfl⟩ := List.exists_cons_of_ne_nil hx
    rfl
  rw [List.append_assoc]
  exact parse_of_declarations (declarations_of_parse ha haok hk) hfirst.symm

/-- A turn between declarations that are parsed without errors and any further tokens. -/
theorem Turn.parse_between (h : Turn (.ofTokens (x ++ b)) (.error e) x d)
    (ha : ∀ t ∈ a, t.kind ≠ .endOfFile) (haok : (parse a).errors = [])
    (hk : firstKind x .endOfFile ≠ .kwElse) :
    parse (a ++ x ++ b) =
      ⟨(parse a).statements ++ (parse b).statements, e :: (parse b).errors⟩ := by
  rw [parse_behind ha haok h.ne_nil hk, h.parse_eq, h.takes.rest_unique rfl]
  rfl

/-- A declaration that does not end with the last token of `x` ends in the same way in front of
other tokens. -/
theorem parseDeclaration_in_front {r : Except ParseError Stmt} (hx : ∀ t ∈ x, t.kind ≠ .endOfFile)
    (hlast : last.kind = .endOfFile) (h : parseDeclaration (.ofTokens (x ++ [last])) = (r, d))
    (hw : (Cursor.ofTokens (x ++ [last])).Takes w d) (hne : x ≠ w) (b : List Token) :
    ∃ m, (Cursor.ofTokens (x ++ b)).Takes w m ∧ m.current = d.current ∧
      parseDeclaration (.ofTokens (x ++ b)) = (r, m) := by
  have hx₁ : (Cursor.ofTokens (x ++ [last])).Takes x ⟨x.reverse ++ [], [last]⟩ :=
    .of_append [] x [last] hx
  have hx₂ : (Cursor.ofTokens (x ++ b)).Takes x ⟨x.reverse ++ [], b⟩ := .of_append [] x b hx
  obtain ⟨t, v, rfl⟩ := (hx₁.before_end hlast hw).resolve_left hne
  obtain ⟨m, hm, -, hcurrent, hc⟩ := parseDeclaration_inside h hw hx₁ hx₂
  exact ⟨m, hm, hcurrent, hc⟩

/-- A declaration that fails by itself costs its tokens and no others in front of what comes after
it, if recovery stops behind it and not earlier. -/
theorem Turn.of_broken (hx : ∀ t ∈ x, t.kind ≠ .endOfFile) (hlast : last.kind = .endOfFile)
    (hfail : parseDeclaration (.ofTokens (x ++ [last])) = (.error e, d))
    (hw : (Cursor.ofTokens (x ++ [last])).Takes w d) (hb : BrokenDeclaration w) (hne : x ≠ w)
    (hfound : e.found ∈ w ∨ e.found = d.current)
    (hgo : ∀ y t z, x = y ++ t :: z → y ≠ [] → w <+: y → stopsAt y t.kind = false)
    (hstop : firstKind b .endOfFile = .endOfFile ∨ stopsAt x (firstKind b .endOfFile) = true) :
    Turn (.ofTokens (x ++ b)) (.error e) x ⟨x.reverse ++ [], b⟩ := by
  have hx₁ : (Cursor.ofTokens (x ++ [last])).Takes x ⟨x.reverse ++ [], [last]⟩ :=
    .of_append [] x [last] hx
  have hx₂ : (Cursor.ofTokens (x ++ b)).Takes x ⟨x.reverse ++ [], b⟩ := .of_append [] x b hx
  obtain ⟨t, v, hxw⟩ := (hx₁.before_end hlast hw).resolve_left hne
  obtain ⟨m, hm, hcurrent, hc⟩ := parseDeclaration_in_front hx hlast hfail hw hne b
  have hskip : Skipped (.ofTokens (x ++ b)) w x ⟨x.reverse ++ [], b⟩ := by
    refine ⟨hx₂, by simp [hxw], ⟨t :: v, hxw.symm⟩, hgo, ?_⟩
    rw [Cursor.current_kind]
    exact hstop
  exact .error hc hm hb (hcurrent ▸ hfound) hskip

/-- A declaration of either shape that fails gives its error, and the tokens around it give what
they give without it. -/
theorem broken_declaration_costs_itself (ha : ∀ t ∈ a, t.kind ≠ .endOfFile)
    (hx : ∀ t ∈ x, t.kind ≠ .endOfFile) (haok : (parse a).errors = [])
    (hlast : last.kind = .endOfFile)
    (hfail : parseDeclaration (.ofTokens (x ++ [last])) = (.error e, d))
    (hshape : LineShape x ∨ BlockShape x ∧ firstKind b .endOfFile ≠ .kwElse) :
    parse (a ++ x ++ b) = ⟨(parse a).statements ++ (parse b).statements, e :: (parse b).errors⟩ ∧
      parse (x ++ [last]) = ⟨[], [e]⟩ := by
  obtain ⟨w, hw, hb, hfound⟩ := parseDeclaration_error hfail
  have hend : firstKind [last] .endOfFile = .endOfFile := hlast
  have hseparate := separate_of_shape hshape
  have hne : x ≠ w := by
    rintro rfl
    exact hseparate.not_broken hb
  have hgo : ∀ y t z, x = y ++ t :: z → y ≠ [] → w <+: y → stopsAt y t.kind = false :=
    fun y t z hyz hy _ => hseparate.goes_on y t z hyz hy
  have hturn := Turn.of_broken (b := b) hx hlast hfail hw hb hne hfound hgo (.inr hseparate.stops)
  have halone := Turn.of_broken (b := [last]) hx hlast hfail hw hb hne hfound hgo (.inl hend)
  refine ⟨hturn.parse_between ha haok hseparate.not_else, ?_⟩
  rw [halone.parse_eq, parse_of_end hend]
  rfl

/-- A `print` without a value, between two that have one. -/
theorem print_without_value_costs_itself :
    let printNil : List Token :=
      [⟨.kwPrint, "print", 1, none⟩, ⟨.kwNil, "nil", 1, none⟩, ⟨.semicolon, ";", 1, none⟩]
    let semicolon : Token := ⟨.semicolon, ";", 2, none⟩
    let print : List Token := [⟨.kwPrint, "print", 2, none⟩, semicolon]
    parse (printNil ++ print ++ printNil) =
        ⟨(parse printNil).statements ++ (parse printNil).statements,
          ⟨.expectedExpression, semicolon⟩ :: (parse printNil).errors⟩ ∧
      parse (print ++ [.endOfFile 2]) = ⟨[], [⟨.expectedExpression, semicolon⟩]⟩ := by
  intro printNil semicolon print
  have hshape : LineShape print :=
    @LineShape.mk [⟨.kwPrint, "print", 2, none⟩] _ (by simp [Kind.startsCompound]) (by simp [Flat])
      (by simp) rfl
  exact broken_declaration_costs_itself (by simp [printNil]) (by simp [print, semicolon])
    rfl rfl rfl (.inl hshape)

end Lox
