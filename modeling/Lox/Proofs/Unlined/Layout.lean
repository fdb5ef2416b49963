-- SUMMARY: The layout of a source text is of no account to what it parses to and to what it does.
import Lox.Proofs.Run.Session

/-!
## Layout

Line breaks, blank lines, comments and indentation leave a trace in the lines of the tokens, and
nowhere else in them. So texts with the same tokens up to lines have the same statements up to
lines, their syntax errors say the same, and they run alike (`layout_of_no_account`).
-/

namespace Lox

open Attempt

/-- What there is of a token besides its line. -/
def Token.word (t : Token) : Kind × String × Option Literal :=
  (t.kind, t.lexeme, t.literal)

theorem Token.unlined_eq_of_word {ts us : List Token}
    (h : ts.map Token.word = us.map Token.word) :
    ts.map Token.unlined = us.map Token.unlined := by
  have hword : Token.unlined =
      (fun w => ⟨w.1, w.2.1, 0, w.2.2⟩ : Kind × String × Option Literal → Token) ∘ Token.word := rfl
  rw [hword, ← List.map_map, h, List.map_map]

/-- What a syntax error says, and the text that it is about. -/
def ParseError.shown (e : ParseError) : ErrorCode × String × String :=
  (e.code, e.message, e.found.lexeme)

/-- What a run of source text prints, and how it fails. -/
def Outcome.shown (o : Outcome) : String × Option (ErrorCode × String) :=
  (o.printed, o.runtime.map fun d => (d.code, d.message))

theorem Outcome.ofRun_unlined (static : List Diagnostic) (o : Except RuntimeError Unit × Machine) :
    ((ofRun static o).1.shown, (ofRun static o).2.unlined) =
      ((ofRun [] ((Machine.view "").result id o)).1.shown,
        (ofRun [] ((Machine.view "").result id o)).2) := by
  obtain ⟨r, m⟩ := o
  have houtput : m.output = "" ++ m.output := String.empty_append.symm
  cases r with
  | ok => exact congrArg (fun text => ((text, none), m.flush.2.unlined)) houtput
  | error e =>
    exact congrArg (fun text => ((text, some (e.fault.code, e.fault.message)), m.flush.2.unlined))
      houtput

/-- What a text shows depends on its statements without lines. -/
theorem runSource_unlined {m : Machine} (hm : ∀ b ∈ m.builtins, b.Blind) (n : Nat)
    (source : String) :
    (runSource n source m).map (fun o => (o.1.shown, o.2.unlined)) =
      (interpret n (Stmt.unlinedAll (Source.ofText source).program) (m.behind "")).map
        fun o => ((Outcome.ofRun [] o).1.shown, (Outcome.ofRun [] o).2) := by
  rw [interpret_behind hm, runSource_eq, Option.map_map, Option.map_map]
  exact congrArg (Option.map · _) (funext fun o => Outcome.ofRun_unlined _ o)

theorem layout_of_no_account {s₁ s₂ : String}
    (h : (scan s₁).tokens.map Token.word = (scan s₂).tokens.map Token.word) :
    Stmt.unlinedAll (parse (scan s₁).tokens).statements =
        Stmt.unlinedAll (parse (scan s₂).tokens).statements ∧
      (parse (scan s₁).tokens).errors.map ParseError.shown =
        (parse (scan s₂).tokens).errors.map ParseError.shown ∧
      ∀ callLimit readings n,
        (runSource n s₁ (.fresh callLimit readings)).map (fun o => (o.1.shown, o.2.unlined)) =
          (runSource n s₂ (.fresh callLimit readings)).map fun o => (o.1.shown, o.2.unlined) := by
  have hparse : (parse (scan s₁).tokens).unlined = (parse (scan s₂).tokens).unlined := by
    rw [← parse_unlined, ← parse_unlined, Token.unlined_eq_of_word h]
  have hprogram : Stmt.unlinedAll (Source.ofText s₁).program =
      Stmt.unlinedAll (Source.ofText s₂).program := congrArg Parsed.statements hparse
  refine ⟨hprogram, ?_, fun callLimit readings n => ?_⟩
  · have hshown (es : List ParseError) :
        es.map ParseError.shown = (es.map ParseError.unlined).map ParseError.shown := by
      rw [List.map_map]
      rfl
    rw [hshown, hshown (parse (scan s₂).tokens).errors]
    exact congrArg (fun p => p.errors.map ParseError.shown) hparse
  · have hblind := (Machine.Reachable.fresh callLimit readings).blind
    rw [runSource_unlined hblind, runSource_unlined hblind, hprogram]

/-- The text `print nil; nil(); var;` as it is, and with comments and line breaks. -/
theorem commented_text_runs_alike :
    let s₁ := "print nil; nil(); var;"
    let s₂ := "// first\nprint\n  nil;\n\nnil ( ) ; // fails\n\tvar ;"
    let shown := ("nil\n", some (ErrorCode.notCallable, "nil is not callable"))
    (scan s₁).tokens.map Token.word = (scan s₂).tokens.map Token.word ∧
      (parse (scan s₂).tokens).errors.map ParseError.shown =
        [(.expectedIdentifier, "expected variable name, found ';'", ";")] ∧
      (runSource 9 s₁ (.fresh 9 (.constant 0))).map (fun o => o.1.shown) = some shown ∧
      (runSource 9 s₂ (.fresh 9 (.constant 0))).map (fun o => o.1.shown) = some shown := by
  have hwords : (scan "print nil; nil(); var;").tokens.map Token.word =
      (scan "// first\nprint\n  nil;\n\nnil ( ) ; // fails\n\tvar ;").tokens.map Token.word :=
    .trans (b := [(.kwPrint, "print", none), (.kwNil, "nil", none), (.semicolon, ";", none),
      (.kwNil, "nil", none), (.leftParen, "(", none), (.rightParen, ")", none),
      (.semicolon, ";", none), (.kwVar, "var", none), (.semicolon, ";", none),
      (.endOfFile, "", none)]) rfl rfl
  have herror : (parse (scan "print nil; nil(); var;").tokens).errors.map ParseError.shown =
      [(.expectedIdentifier, "expected variable name, found ';'", ";")] := rfl
  have hrun : (runSource 9 "print nil; nil(); var;" (.fresh 9 (.constant 0))).map
      (fun o => o.1.shown) =
        some ("nil\n", some (ErrorCode.notCallable, "nil is not callable")) := rfl
  obtain ⟨-, herrors, hsame⟩ := layout_of_no_account hwords
  refine ⟨hwords, herrors.symm.trans herror, hrun, ?_⟩
  have hshown := congrArg (Option.map Prod.fst) (hsame 9 (.constant 0) 9)
  rw [Option.map_map, Option.map_map] at hshown
  exact hshown.symm.trans hrun

end Lox
