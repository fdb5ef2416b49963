-- SUMMARY: When a statement behind a broken header is parsed by itself.
import Lox.Proofs.Parse.Containment

/-!
## Leaks

Recovery does not count parentheses, so it also stops at a semicolon between those of a header. The
tokens behind that semicolon are then parsed by themselves, up to the end of the statement after
the header at most. This happens exactly if such a semicolon comes after the error.
-/

namespace Lox

open BracketSort Grammar

/-- A keyword with any header in parentheses, and a statement behind it. -/
inductive HeaderShape : List Token → Prop where
  | mk {keyword opening header closing body s} (hk : startsHeader keyword.kind = true)
      (ho : opening.kind = .leftParen) (hparens : parens.Balanced header)
      (hbraces : braces.Absent header) (hc : closing.kind = .rightParen)
      (hbody : parse body = ⟨[s], []⟩) :
      HeaderShape (keyword :: opening :: (header ++ closing :: body))

/-- Behind the tokens `w` of the declaration `x`, a semicolon outside braces comes before the end,
and no `else` after it. -/
def Leaks (w x : List Token) : Prop :=
  ∃ (y : List Token) (t : Token) (z : List Token), x = y ++ t :: z ∧ w <+: y ∧ braces.Balanced y ∧
    (∃ s, y.getLast? = some s ∧ s.kind = .semicolon) ∧ t.kind ≠ .kwElse

/-- The last tokens of a declaration, from a place outside braces on. -/
structure Leftover (w : List Token) : Prop where
  braces : braces.Balanced w
  parens : ∃ u, parens.Balanced (u ++ w)
  ended : ∃ t, w.getLast? = some t ∧ (t.kind = .rightBrace ∨ t.kind = .semicolon)
  no_end : ∀ t ∈ w, t.kind ≠ .endOfFile

variable {a b u v w x y z : List Token} {s t last : Token} {e : ParseError} {c d : Cursor}
  {k : Kind}

-- ---------------------------------------------------------------------------
-- Leftovers
-- ---------------------------------------------------------------------------

namespace Leftover

theorem ne_nil (h : Leftover w) : w ≠ [] := by
  rintro rfl
  obtain ⟨t, ht, -⟩ := h.ended
  cases ht

theorem not_atEnd (h : Leftover x) (b : List Token) : (Cursor.ofTokens (x ++ b)).atEnd = false := by
  obtain ⟨t, x, rfl⟩ := List.exists_cons_of_ne_nil h.ne_nil
  exact Cursor.atEnd_eq_false_iff.2 (h.no_end t (by simp))

/-- Where no parenthesis closes one that was opened before, a leftover could be a statement. -/
theorem terminated (h : Leftover w) (hw : BracketSort.parens.Safe w) : Terminated w := by
  obtain ⟨u, hu⟩ := h.parens
  obtain ⟨n, hn⟩ := hw
  obtain rfl := hu.depth_of_suffix hn
  obtain ⟨t, ht, hk⟩ := h.ended
  exact ⟨h.braces, t, ht, hk.imp_right fun hk => ⟨hk, hn⟩⟩

theorem stops (h : Leftover w) (hk : k ≠ .kwElse) : stopsAt w k = true :=
  (stopsAt_iff h.braces.safe).2 ⟨h.braces, .inl ⟨h.ended, fun hand => hk hand.2⟩⟩

/-- What remains of a leftover when more is taken outside braces. -/
theorem of_append (h : Leftover (u ++ v)) (hu : BracketSort.braces.Balanced u) (hv : v ≠ []) :
    Leftover v where
  braces := hu.append_iff.1 h.braces
  parens := by
    obtain ⟨x, hx⟩ := h.parens
    exact ⟨x ++ u, by rwa [List.append_assoc]⟩
  ended := by
    obtain ⟨t, ht, hk⟩ := h.ended
    rw [List.getLast?_append, List.getLast?_eq_some_getLast hv, Option.some_or] at ht
    exact ⟨t, by rw [List.getLast?_eq_some_getLast hv, ht], hk⟩
  no_end := fun t ht => h.no_end t (List.mem_append_right u ht)

/-- The parser does not take more than a leftover: behind it a statement could only go on with
`else`. -/
theorem prefix_of_takes (h : Leftover x) (hb : firstKind b .endOfFile ≠ .kwElse)
    (hw : (Cursor.ofTokens (x ++ b)).Takes w d) (hparens : BracketSort.parens.Safe w)
    (hundivided : Undivided w) : w <+: x := by
  have hpw : w <+: x ++ b := ⟨d.rest, hw.rest_eq.symm⟩
  rcases List.prefix_or_prefix_of_prefix hpw (List.prefix_append x b) with hwx | ⟨u, rfl⟩
  · exact hwx
  · cases u with
    | nil => simp
    | cons t u =>
      have hk := hundivided x t u rfl (h.terminated hparens.of_append)
      rw [hw.firstKind_rest rfl] at hb
      exact absurd hk hb

end Leftover

/-- A turn from a leftover on ends in it or with it. -/
theorem Turn.within_leftover {r : Except ParseError Stmt} (h : Turn (.ofTokens (x ++ b)) r w d)
    (hx : Leftover x) (hb : firstKind b .endOfFile ≠ .kwElse) :
    ∃ v, x = w ++ v ∧ (v ≠ [] → braces.Balanced w) := by
  cases h with
  | statement _ hw hs =>
    have hwhole := hs.whole
    obtain ⟨v, rfl⟩ := hx.prefix_of_takes hb hw hwhole.parens.safe hwhole.undivided
    exact ⟨v, rfl, fun _ => hwhole.braces⟩
  | @error e u m _ _ _ hu hbroken _ hskip =>
    have hux := hx.prefix_of_takes hb hu hbroken.cut.parens hbroken.cut.undivided
    have hpw : w <+: x ++ b := ⟨d.rest, hskip.takes.rest_eq.symm⟩
    rcases List.prefix_or_prefix_of_prefix hpw (List.prefix_append x b) with ⟨v, rfl⟩ | ⟨v, rfl⟩
    · refine ⟨v, rfl, fun hv => ?_⟩
      obtain ⟨t, v, rfl⟩ := List.exists_cons_of_ne_nil hv
      have hrest : d.rest = (t :: v) ++ b :=
        hskip.takes.rest_unique (List.append_assoc w (t :: v) b)
      have ht : d.current = t := by rw [Cursor.current, hrest]; rfl
      rcases hskip.stops with hend | hstop
      · exact absurd (ht ▸ hend) (hx.no_end t (by simp))
      · exact ((stopsAt_iff hx.braces.safe.of_append).1 hstop).1
    · cases v with
      | nil => exact ⟨[], by simp, fun hv => absurd rfl hv⟩
      | cons t v =>
        have hgo := hskip.goes_on x t v rfl hx.ne_nil hux
        rw [hskip.takes.firstKind_rest rfl] at hb
        rw [hx.stops hb] at hgo
        cases hgo

/-- The number of statements and errors. -/
def Parsed.outcomes (p : Parsed) : Nat :=
  p.statements.length + p.errors.length

theorem Parsed.outcomes_cons (r : Except ParseError Stmt) (p : Parsed) :
    (Parsed.cons r p).outcomes = p.outcomes + 1 := by
  cases r <;> simp only [Parsed.outcomes, Parsed.cons, List.length_cons] <;> omega

/-- A leftover gives statements or errors of its own. -/
theorem Leftover.outcomes_lt {x b : List Token} (hx : Leftover x)
    (hb : firstKind b .endOfFile ≠ .kwElse) : (parse b).outcomes < (parse (x ++ b)).outcomes := by
  obtain ⟨r, w, d, hturn⟩ := Turn.of_not_atEnd (hx.not_atEnd b)
  obtain ⟨v, hxv, hw⟩ := hturn.within_leftover hx hb
  have hrest : d.rest = v ++ b := by
    apply hturn.takes.rest_unique
    rw [← List.append_assoc, ← hxv]
    rfl
  have hlt : v.length < x.length := by
    have := List.length_pos_iff.2 hturn.ne_nil
    rw [hxv, List.length_append]
    omega
  rw [hturn.parse_eq, Parsed.outcomes_cons, hrest]
  by_cases hv : v = []
  · subst hv
    rw [List.nil_append]
    omega
  · rw [hxv] at hx
    have ih := Leftover.outcomes_lt (hx.of_append (hw hv) hv) hb
    omega
termination_by x.length

-- ---------------------------------------------------------------------------
-- Headers
-- ---------------------------------------------------------------------------

namespace HeaderShape

/-- The header is balanced, and the statement behind it is derivable. -/
theorem parts (h : HeaderShape x) (hx : ∀ t ∈ x, t.kind ≠ .endOfFile) :
    ∃ u v, x = u ++ v ∧ Lead u ∧ StartsWith startsHeader u ∧ Whole v := by
  cases h with
  | @mk keyword opening header closing body s hk ho hparens hbraces hc hbody =>
    have hend : ∀ t ∈ body, t.kind ≠ .endOfFile := fun t ht => hx t (by simp [ht])
    have hstatement : Declarations body .endOfFile [s] := by
      have hstatements := declarations_of_parse (k := .endOfFile) hend (by rw [hbody]) (by decide)
      rwa [hbody] at hstatements
    have hlead : Lead [keyword] := (Plain.single rfl (isPlain_of_startsHeader _ hk)).lead
    refine ⟨[keyword] ++ opening :: (header ++ [closing]), body, by simp,
      hlead.append (.in_parens ho hbraces hparens hc), ⟨_, _, rfl, hk⟩, ?_⟩
    cases hstatement with
    | cons hs hv =>
      cases hv with
      | nil => rw [List.append_nil]; exact hs.whole

theorem leftover (h : HeaderShape x) (hx : ∀ t ∈ x, t.kind ≠ .endOfFile) : Leftover x := by
  obtain ⟨u, v, rfl, hu, -, hv⟩ := h.parts hx
  have hterminated := hu.terminated_iff.2 hv.terminated
  obtain ⟨-, t, ht, hk⟩ := hterminated
  exact ⟨hu.braces.append hv.braces, ⟨[], hu.parens.append hv.parens⟩,
    ⟨t, ht, hk.imp_right And.left⟩, hx⟩

/-- Inside, recovery stops only behind a semicolon: behind a closing brace comes `else`. -/
theorem stopsAt_iff (h : HeaderShape x) (hx : ∀ t ∈ x, t.kind ≠ .endOfFile)
    (hxy : x = y ++ t :: z) (hy : y ≠ []) :
    stopsAt y t.kind = true ↔ braces.Balanced y ∧
      (∃ s, y.getLast? = some s ∧ s.kind = .semicolon) ∧ t.kind ≠ .kwElse := by
  obtain ⟨u, v, huv, hu, hfirst, hv⟩ := h.parts hx
  have hcompound : compound y = true := by
    rw [← compound_append (y := t :: z) hy, ← hxy, huv]
    exact compound_of_startsWith ((hfirst.append v).mono startsCompound_of_startsHeader)
  have hsafe : braces.Safe y := by
    have hxs := (h.leftover hx).braces.safe
    rw [hxy] at hxs
    exact hxs.of_append
  rw [Lox.stopsAt_iff hsafe, hcompound]
  constructor
  · rintro ⟨hb, ⟨⟨s, hs, hk⟩, helse⟩ | ⟨hfalse, -⟩⟩
    · have hne : t.kind ≠ .kwElse := fun hk => helse ⟨rfl, hk⟩
      rcases hk with hk | hk
      · have hundivided := hu.undivided hv.undivided
        rw [← huv] at hundivided
        exact absurd (hundivided y t z hxy ⟨hb, s, hs, .inl hk⟩) hne
      · exact ⟨hb, ⟨s, hs, hk⟩, hne⟩
    · cases hfalse
  · rintro ⟨hb, ⟨s, hs, hk⟩, hne⟩
    exact ⟨hb, .inl ⟨⟨s, hs, .inr hk⟩, fun hand => hne hand.2⟩⟩

theorem not_broken (h : HeaderShape x) (hx : ∀ t ∈ x, t.kind ≠ .endOfFile) :
    ¬ BrokenDeclaration x := by
  intro hb
  obtain ⟨u, v, rfl, hu, -, hv⟩ := h.parts hx
  exact hb.cut.not_terminated (hu.terminated_iff.2 hv.terminated)

theorem not_else (h : HeaderShape x) : firstKind x .endOfFile ≠ .kwElse := by
  cases h with
  | @mk keyword _ _ _ _ _ hk =>
    show keyword.kind ≠ .kwElse
    intro helse
    rw [helse] at hk
    cases hk

end HeaderShape

/-- The tokens up to a leak are not the whole declaration, and what they leave of it gives
statements or errors besides the one error. -/
theorem outcomes_of_leak (hshape : HeaderShape x) (hx : ∀ t ∈ x, t.kind ≠ .endOfFile)
    (hb : firstKind b .endOfFile ≠ .kwElse) (hskip : Skipped (.ofTokens (x ++ b)) w y d)
    (h : Turn (.ofTokens (x ++ b)) (.error e) y d) (hleak : Leaks w x) :
    (parse b).outcomes + 1 < (parse (x ++ b)).outcomes := by
  obtain ⟨v, hxy, hbalanced⟩ := h.within_leftover (hshape.leftover hx) hb
  have hv : v ≠ [] := by
    rintro rfl
    rw [List.append_nil] at hxy
    subst hxy
    obtain ⟨u, t, z, hu, hwu, hstop⟩ := hleak
    have hne : u ≠ [] := by
      rintro rfl
      obtain ⟨s, hs, -⟩ := hstop.2.1
      cases hs
    have hgo := hskip.goes_on u t z hu hne hwu
    rw [(hshape.stopsAt_iff hx hu hne).2 hstop] at hgo
    cases hgo
  have hleftover : Leftover v := by
    have hall := hshape.leftover hx
    rw [hxy] at hall
    exact hall.of_append (hbalanced hv) hv
  have hrest : d.rest = v ++ b := by
    apply h.takes.rest_unique
    rw [← List.append_assoc, ← hxy]
    rfl
  have hlt := hleftover.outcomes_lt hb
  rw [h.parse_eq, Parsed.outcomes_cons, hrest]
  omega

/-- A declaration with a broken header costs one error and nothing else exactly if no semicolon
behind that error lets a part of the declaration leak. -/
theorem broken_header_costs_itself_iff (ha : ∀ t ∈ a, t.kind ≠ .endOfFile)
    (hx : ∀ t ∈ x, t.kind ≠ .endOfFile) (haok : (parse a).errors = []) (hshape : HeaderShape x)
    (hb : firstKind b .endOfFile ≠ .kwElse) (hlast : last.kind = .endOfFile)
    (hfail : parseDeclaration (.ofTokens (x ++ [last])) = (.error e, d)) :
    (∃ e', parse (a ++ x ++ b) =
        ⟨(parse a).statements ++ (parse b).statements, e' :: (parse b).errors⟩) ↔
      ¬ Leaks d.taken.reverse x := by
  obtain ⟨w, hw, hbroken, hfound⟩ := parseDeclaration_error hfail
  have htaken : d.taken.reverse = w := by simp [hw.taken_eq, Cursor.ofTokens]
  have hne : x ≠ w := by
    rintro rfl
    exact hshape.not_broken hx hbroken
  rw [htaken]
  constructor
  · rintro ⟨e', he'⟩ hleak
    have hnil : x ≠ [] := (hshape.leftover hx).ne_nil
    obtain ⟨m, hm, -, hc⟩ := parseDeclaration_in_front hx hlast hfail hw hne b
    obtain ⟨y, k, hskip, hturn⟩ := Turn.of_error hc hm ((hshape.leftover hx).not_atEnd b)
    have hlt := outcomes_of_leak hshape hx hb hskip hturn hleak
    rw [parse_behind ha haok hnil hshape.not_else, Parsed.mk.injEq] at he'
    obtain ⟨hstatements, herrors⟩ := he'
    have hstatements := List.append_cancel_left hstatements
    simp only [Parsed.outcomes, hstatements, herrors, List.length_cons] at hlt
    omega
  · intro hleak
    have hgo : ∀ y t z, x = y ++ t :: z → y ≠ [] → w <+: y → stopsAt y t.kind = false := by
      intro y t z hy hyne hwy
      rw [Bool.eq_false_iff]
      intro hstop
      exact hleak ⟨y, t, z, hy, hwy, (hshape.stopsAt_iff hx hy hyne).1 hstop⟩
    have hstop := (hshape.leftover hx).stops hb
    have hturn := Turn.of_broken (b := b) hx hlast hfail hw hbroken hne hfound hgo (.inr hstop)
    exact ⟨e, hturn.parse_between ha haok hshape.not_else⟩

/-- `while (a a) print a;` between two statements: no semicolon comes before its end, so nothing
comes of it but its error. -/
theorem broken_while_header_costs_itself :
    let a : Token := ⟨.identifier, "a", 1, none⟩
    let print : List Token := [⟨.kwPrint, "print", 1, none⟩, a, ⟨.semicolon, ";", 1, none⟩]
    let start : List Token := [⟨.kwWhile, "while", 1, none⟩, ⟨.leftParen, "(", 1, none⟩, a]
    let broken : List Token := start ++ a :: ⟨.rightParen, ")", 1, none⟩ :: print
    ¬ Leaks start broken ∧
      ∃ e', parse (print ++ broken ++ print) =
        ⟨(parse print).statements ++ (parse print).statements, e' :: (parse print).errors⟩ := by
  intro a print start broken
  have hshape : HeaderShape broken :=
    @HeaderShape.mk _ _ [a, a] _ print _ rfl rfl rfl (by simp [Absent, a]) rfl rfl
  have hbefore : ∀ s ∈ broken.dropLast, s.kind ≠ .semicolon := by decide
  have hleak : ¬ Leaks start broken := by
    rintro ⟨y, t, z, hy, -, -, ⟨s, hs, hk⟩, -⟩
    have hsy : s ∈ broken.dropLast := by
      rw [hy, List.dropLast_append_cons]
      exact List.mem_append_left _ (List.mem_of_getLast? hs)
    exact hbefore s hsy hk
  refine ⟨hleak, ?_⟩
  exact (broken_header_costs_itself_iff (by simp [print, a]) (by simp [broken, start, print, a]) rfl
    hshape (by decide) (rfl : (Token.endOfFile 1).kind = .endOfFile) rfl).2 hleak

/-- `for (; a b;) print a;` -/
def forWithBrokenCondition : List Token :=
  let a : Token := ⟨.identifier, "a", 1, none⟩
  let semicolon : Token := ⟨.semicolon, ";", 1, none⟩
  [⟨.kwFor, "for", 1, none⟩, ⟨.leftParen, "(", 1, none⟩, semicolon, a, a, semicolon,
    ⟨.rightParen, ")", 1, none⟩, ⟨.kwPrint, "print", 1, none⟩, a, semicolon]

/-- Its header is broken, and it prints nevertheless. -/
theorem broken_for_header_leaks :
    HeaderShape forWithBrokenCondition ∧
      (∃ e d, parseDeclaration (.ofTokens (forWithBrokenCondition ++ [.endOfFile 1])) =
        (.error e, d)) ∧
      (parse forWithBrokenCondition).statements = [.print (.var "a" 1) 1] ∧
      ¬ ∃ e', parse ([] ++ forWithBrokenCondition ++ []) =
        ⟨(parse []).statements ++ (parse []).statements, e' :: (parse []).errors⟩ := by
  have hstatements : (parse forWithBrokenCondition).statements = [.print (.var "a" 1) 1] := rfl
  refine ⟨?_, ⟨_, _, rfl⟩, hstatements, ?_⟩
  · exact @HeaderShape.mk _ _ (forWithBrokenCondition.drop 2 |>.take 4) _
      (forWithBrokenCondition.drop 7) _ rfl rfl rfl
      (by simp [Absent, forWithBrokenCondition]) rfl rfl
  · rintro ⟨e', he'⟩
    rw [List.nil_append, List.append_nil] at he'
    rw [he'] at hstatements
    cases hstatements

end Lox
