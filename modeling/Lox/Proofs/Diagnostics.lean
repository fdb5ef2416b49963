-- SUMMARY: Every diagnostic points to a line of the source text.
import Lox.Proofs.Grammar.Lines
import Lox.Proofs.Run.Blame
import Lox.Proofs.Run.Origin
import Lox.Proofs.Run.Session
import Lox.Proofs.Scan.Placement

/-!
## Diagnostics

Lines go from the scanner to the tokens, from the tokens to the nodes, and from the nodes to the
errors. None is lost or made up on the way, so the line of a diagnostic is a line of the text; only
a syntax error may be about the end of the text, which is on the line behind the last one
(`diagnostics_point_into_source`).
-/

namespace Lox

open Attempt

/-- The diagnostic has a line, and it is one of the first `n`. -/
def Diagnostic.Within (n : Nat) (d : Diagnostic) : Prop :=
  ∃ line, d.line = some line ∧ 1 ≤ line ∧ line ≤ n

/-- What is reported of a fault at a node. -/
def Fault.diagnosticAt (fault : Fault) (node : Expr) : Diagnostic :=
  { code := fault.code, message := fault.message, line := some node.line }

-- ---------------------------------------------------------------------------
-- Before a run
-- ---------------------------------------------------------------------------

theorem lexical_within {source : String} (h : (textLines source).length < lastLine) :
    ∀ e ∈ (Source.ofText source).lexical, e.diagnostic.Within (textLines source).length := by
  intro e he
  obtain ⟨-, ⟨ts, hts, hwithin⟩, -, herrors⟩ := scan_accounts_for_text h
  have hmem : e.token ∈ (scan source).tokens.filter (·.kind = .error) := by
    rw [← herrors]
    exact List.mem_map_of_mem he
  have htoken := (List.mem_filter.1 hmem).1
  rw [hts, List.mem_append, List.mem_singleton] at htoken
  rcases htoken with htoken | htoken
  · exact ⟨e.line, rfl, (hwithin e.token htoken).2⟩
  · cases congrArg Token.kind htoken

/-- A syntax error is about one of the tokens, if they have an end. -/
theorem found_mem {ts : List Token} (hend : ∃ t ∈ ts, t.kind = .endOfFile) :
    ∀ e ∈ (parse ts).errors, e.found ∈ ts := by
  induction ts using parse_induction with
  | finish ts => exact List.forall_mem_nil _
  | turn ts r w d hturn ih =>
    have hts : ts = w ++ d.rest := hturn.takes.rest_eq
    have hrest : ∃ t ∈ d.rest, t.kind = .endOfFile := by
      obtain ⟨t, ht, hkind⟩ := hend
      rw [hts] at ht
      exact ⟨t, (List.mem_append.1 ht).resolve_left fun hw => hturn.takes.no_end t hw hkind, hkind⟩
    have hcurrent : d.current ∈ d.rest := by
      obtain ⟨t, ht, -⟩ := hrest
      obtain ⟨u, us, hus⟩ := List.exists_cons_of_ne_nil (List.ne_nil_of_mem ht)
      simp [Cursor.current, hus]
    have hmore : ∀ e ∈ (parse d.rest).errors, e.found ∈ ts := fun e he =>
      hts ▸ List.mem_append_right w (ih hrest e he)
    cases r with
    | ok s => exact hmore
    | error e =>
      refine List.forall_mem_cons.2 ⟨?_, hmore⟩
      rw [hts, List.mem_append]
      refine hturn.found.imp_right fun hfound => ?_
      rw [hfound]
      exact hcurrent

theorem syntactic_within {source : String} (h : (textLines source).length < lastLine) :
    ∀ e ∈ (Source.ofText source).syntactic,
      e.diagnostic.Within ((textLines source).length + 1) := by
  intro e he
  obtain ⟨ts, hts, hwithin⟩ := scan_tokens_eq h
  have hfound : e.found ∈ (scan source).tokens :=
    found_mem ⟨.endOfFile _, by rw [hts]; exact List.mem_concat_self, rfl⟩ e he
  rw [hts, List.mem_append, List.mem_singleton] at hfound
  refine ⟨e.found.line, rfl, ?_⟩
  rcases hfound with hfound | hfound
  · have := hwithin _ hfound
    omega
  · rw [hfound]
    exact ⟨Nat.succ_pos _, Nat.le_refl _⟩

theorem node_within {source : String} (h : (textLines source).length < lastLine) :
    ∀ node ∈ Stmt.nodesAll (Source.ofText source).program,
      1 ≤ node.line ∧ node.line ≤ (textLines source).length := by
  intro node hnode
  obtain ⟨t, ht, hline⟩ := parse_stands (scan source).tokens node hnode
  obtain ⟨ts, hts, hwithin⟩ := scan_tokens_eq h
  have hbefore : beforeEnd (scan source).tokens = ts := by
    rw [hts, beforeEnd_append fun t ht => (hwithin t ht).1]
    simp [beforeEnd, Token.endOfFile]
  rw [hline]
  exact (hwithin t (hbefore ▸ ht)).2

-- ---------------------------------------------------------------------------
-- In a run
-- ---------------------------------------------------------------------------

/-- A run reports the error that one of its nodes raises, however many calls it is in. -/
theorem runtime_iff {fuel : Nat} {source : String} {m : Machine} {d : Diagnostic} :
    (∃ o m', runSource fuel source m = some (o, m') ∧ o.runtime = some d) ↔
      ∃ k c node fault, Phase.Contains k ⟨fuel, .execAll (Source.ofText source).program, m⟩ c ∧
        c.Raises node fault ∧ d = fault.diagnosticAt node := by
  have htree : Phase.InTree ⟨fuel, .execAll (Source.ofText source).program, m⟩ := nofun
  have hfails {e : RuntimeError} : Run.Fails (interpret fuel (Source.ofText source).program) m e ↔
      Phase.Fails ⟨fuel, .execAll (Source.ofText source).program, m⟩ e := Run.fails_map_iff
  rw [runSource_eq]
  constructor
  · rintro ⟨o, m', ho, hd⟩
    obtain ⟨⟨r, m₁⟩, hrun, ho⟩ := Option.map_eq_some_iff.1 ho
    cases r with
    | ok =>
      cases ho
      cases hd
    | error e =>
      cases ho
      cases hd
      obtain ⟨k, c, node, fault, hc, hraises, rfl⟩ :=
        (Phase.fails_iff htree).1 (hfails.1 ⟨m₁, hrun⟩)
      exact ⟨k, c, node, fault, hc, hraises, rfl⟩
  · rintro ⟨k, c, node, fault, hc, hraises, rfl⟩
    obtain ⟨m₁, hrun⟩ := hfails.2 ((Phase.fails_iff htree).2 ⟨k, c, node, fault, hc, hraises, rfl⟩)
    rw [hrun]
    exact ⟨_, _, rfl, rfl⟩

theorem static_of_runSource {fuel : Nat} {source : String} {m m' : Machine} {o : Outcome}
    (h : runSource fuel source m = some (o, m')) :
    o.static = (Source.ofText source).diagnostics := by
  rw [runSource_eq] at h
  obtain ⟨⟨r, m₁⟩, -, ho⟩ := Option.map_eq_some_iff.1 h
  cases r <;> cases ho <;> rfl

theorem raises_in_program {program : List Stmt} {fuel k callLimit : Nat} {readings : Readings}
    {c : Phase} {node : Expr} {fault : Fault}
    (h : Phase.Contains k ⟨fuel, .execAll program, .fresh callLimit readings⟩ c)
    (hraises : c.Raises node fault) : node ∈ Stmt.nodesAll program := by
  have hmade := h.made (.fresh (· ∈ Stmt.nodesAll program) callLimit readings) fun _ he => he
  rw [hraises.code] at hmade
  exact hmade node node.mem_nodes

/-- The diagnostics of the scanner point to lines of the text, those of the parser to these or to
the line behind them. A run reports exactly what one of its nodes raises, in any number `k` of open
calls, on the line of this node; the node stands in the program, and so its line is one of the text.
-/
theorem diagnostics_point_into_source {source : String}
    (h : (textLines source).length < lastLine) (callLimit : Nat) (readings : Readings) :
    let n := (textLines source).length
    let s := Source.ofText source
    let m : Machine := .fresh callLimit readings
    (∀ e ∈ s.lexical, e.diagnostic.Within n) ∧
    (∀ e ∈ s.syntactic, e.diagnostic.Within (n + 1)) ∧
    (∀ fuel o m', runSource fuel source m = some (o, m') → o.static = s.diagnostics) ∧
    (∀ fuel d, (∃ o m', runSource fuel source m = some (o, m') ∧ o.runtime = some d) ↔
      ∃ k c node fault, Phase.Contains k ⟨fuel, .execAll s.program, m⟩ c ∧
        c.Raises node fault ∧ d = fault.diagnosticAt node) ∧
    ∀ fuel k c node fault, Phase.Contains k ⟨fuel, .execAll s.program, m⟩ c →
      c.Raises node fault →
        node ∈ Stmt.nodesAll s.program ∧ (fault.diagnosticAt node).Within n := by
  intro n s m
  refine ⟨lexical_within h, syntactic_within h, fun _ _ _ => static_of_runSource,
    fun _ _ => runtime_iff, fun fuel k c node fault hc hraises => ?_⟩
  have hnode := raises_in_program hc hraises
  exact ⟨hnode, node.line, rfl, node_within h node hnode⟩

/-- A call in a function that another one calls fails on its own line. The string of the third line
does not end, and a name is missed at the end of the text. -/
theorem call_within_calls_points_to_itself :
    let source := "fun f() \x7b return nil(); \x7d\nfun g() \x7b return f(); \x7d\ng(); \"a\nvar"
    let d : Diagnostic := ⟨.notCallable, "nil is not callable", some 1⟩
    (textLines source).length < lastLine ∧
      (runSource 20 source (.fresh 9 (.constant 0))).map (fun o => (o.1.static.map Diagnostic.line,
        o.1.runtime)) = some ([some 3, some 3, some 5], some d) ∧
      ∃ k c node fault, Phase.Contains k
          ⟨20, .execAll (Source.ofText source).program, .fresh 9 (.constant 0)⟩ c ∧
        c.Raises node fault ∧ fault.diagnosticAt node = d ∧
          node ∈ Stmt.nodesAll (Source.ofText source).program := by
  intro source d
  have hlines : (textLines source).length < lastLine := by
    dsimp only [source]
    decide
  have hrun : (runSource 20 source (.fresh 9 (.constant 0))).map
      (fun o => (o.1.static.map Diagnostic.line, o.1.runtime)) =
        some ([some 3, some 3, some 5], some d) := by
    dsimp only [source, d]
    rfl
  obtain ⟨-, -, -, hraised, hnode⟩ := diagnostics_point_into_source hlines 9 (.constant 0)
  obtain ⟨⟨o, m'⟩, ho, hd⟩ := Option.map_eq_some_iff.1 hrun
  obtain ⟨k, c, node, fault, hc, hraises, hfault⟩ :=
    (hraised 20 d).1 ⟨o, m', ho, congrArg Prod.snd hd⟩
  exact ⟨hlines, hrun, k, c, node, fault, hc, hraises, hfault.symm,
    (hnode 20 k c node fault hc hraises).1⟩

end Lox
