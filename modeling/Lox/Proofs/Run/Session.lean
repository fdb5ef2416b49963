-- SUMMARY: A session that runs its source text in pieces does what it would do with the whole text.
import Lox.Proofs.Parse.Correct
import Lox.Proofs.Run.Fuel
import Lox.Proofs.Run.Host
import Lox.Proofs.Unlined.Parse
import Lox.Proofs.Unlined.Run
import Lox.Proofs.Unlined.Scan

/-!
## Sessions in pieces

A text may be cut at a line break and run in two pieces on one machine (`session_in_pieces`). The
first piece has to be sound and to run to its end, and the second may not start with `else`, which
could belong to an `if` of the first. Then the pieces together have the tokens of the whole text up
to their lines, the statements up to their lines, and runs that do the same up to lines.
-/

namespace Lox

open Attempt Grammar

-- ---------------------------------------------------------------------------
-- Source texts
-- ---------------------------------------------------------------------------

namespace Source

/-- The tokens of a text without lines, before the one that ends them. -/
def words (source : String) : List Token :=
  (pieces source).map Scanned.token

theorem words_proper (source : String) : ∀ t ∈ words source, t.kind ≠ .endOfFile := by
  intro t ht
  obtain ⟨p, hp, rfl⟩ := List.mem_map.1 ht
  exact (pieces_proper source p hp).kind_ne

/-- A text parses to what its tokens without lines parse to, up to lines. -/
theorem parse_words (source : String) :
    parse (words source ++ [.endOfFile 0]) = (parse (scan source).tokens).unlined := by
  rw [words, ← scan_tokens_unlined, parse_unlined]

theorem statements_words (source : String) :
    (parse (words source ++ [.endOfFile 0])).statements =
      Stmt.unlinedAll (ofText source).program := by
  rw [parse_words]
  rfl

theorem diagnostics_unlined (source : String) :
    (ofText source).diagnostics.map Diagnostic.unlined =
      ((pieces source).filterMap Scanned.error?).map LexicalError.diagnostic ++
        (parse (words source ++ [.endOfFile 0])).errors.map ParseError.diagnostic := by
  rw [← scan_errors_unlined, parse_words]
  simp only [diagnostics, ofText, Parsed.unlined, List.map_append, List.map_map]
  rfl

/-- A text without diagnostics is a program, also before another text that does not start with
`else`. -/
theorem declarations_of_sound {source : String} {next : Kind}
    (h : (ofText source).diagnostics = []) (hnext : next ≠ .kwElse) :
    (pieces source).filterMap Scanned.error? = [] ∧
      Declarations (words source) next (Stmt.unlinedAll (ofText source).program) := by
  have hdiagnostics := diagnostics_unlined source
  rw [h, List.map_nil, eq_comm, List.append_eq_nil_iff, List.map_eq_nil_iff,
    List.map_eq_nil_iff] at hdiagnostics
  obtain ⟨hscan, hparse⟩ := hdiagnostics
  have hprogram := program_of_parse _ hparse
  rw [beforeEnd_append (words_proper source), beforeEnd_of_end rfl, List.append_nil,
    statements_words] at hprogram
  exact ⟨hscan, Declarations.before hnext hprogram⟩

/-- The first token is the same with and without lines. -/
theorem firstKind_words (source : String) :
    firstKind (words source ++ [.endOfFile 0]) .endOfFile =
      firstKind (scan source).tokens .endOfFile := by
  rw [words, ← scan_tokens_unlined, firstKind, firstKind, List.head?_map, Option.map_map]
  rfl

/-- Up to lines, a text in two parts has the statements of both parts and the diagnostics of the
second. -/
theorem ofText_append {s₁ s₂ : String} (h : (ofText s₁).diagnostics = [])
    (helse : firstKind (scan s₂).tokens .endOfFile ≠ .kwElse) :
    Stmt.unlinedAll (ofText (s₁ ++ "\n" ++ s₂)).program =
        Stmt.unlinedAll (ofText s₁).program ++ Stmt.unlinedAll (ofText s₂).program ∧
      (ofText (s₁ ++ "\n" ++ s₂)).diagnostics.map Diagnostic.unlined =
        (ofText s₂).diagnostics.map Diagnostic.unlined := by
  rw [← firstKind_words] at helse
  obtain ⟨hscan, hprogram⟩ := declarations_of_sound h helse
  have hpieces := pieces_append s₂ hscan
  have hwords : words (s₁ ++ "\n" ++ s₂) = words s₁ ++ words s₂ := by
    rw [words, hpieces, List.map_append]
    rfl
  have hparse := parse_of_declarations hprogram rfl
  rw [← List.append_assoc, ← hwords] at hparse
  constructor
  · rw [← statements_words, ← statements_words s₂, hparse]
  · rw [diagnostics_unlined, diagnostics_unlined, hpieces, List.filterMap_append, hscan,
      List.nil_append, hparse]

end Source

-- ---------------------------------------------------------------------------
-- Machines of a session
-- ---------------------------------------------------------------------------

/-- The machines that programs lead to, one after the other, from a fresh machine on. What was
printed may be taken away in between. -/
inductive Machine.Reachable : Machine → Prop where
  | fresh (callLimit : Nat) (readings : Readings) : Reachable (.fresh callLimit readings)
  | run {m m' n program r} (h : Reachable m) (hrun : interpret n program m = some (r, m')) :
      Reachable m'
  | flush {m} (h : Reachable m) : Reachable m.flush.2

theorem Machine.Reachable.blind {m : Machine} (h : m.Reachable) :
    ∀ b ∈ m.builtins, b.Blind := by
  induction h with
  | fresh callLimit readings =>
    intro b hb
    obtain rfl : b = .clockOf readings := List.mem_singleton.1 hb
    exact Builtin.blind_clockOf readings
  | run _ hrun ih => rwa [(interpret_kept hrun).builtins]
  | flush _ ih => exact ih

/-- A program runs up to lines like the program without lines, behind any output. -/
theorem interpret_behind {m : Machine} (hm : ∀ b ∈ m.builtins, b.Blind) (earlier : String) (n : Nat)
    (program : List Stmt) :
    interpret n (Stmt.unlinedAll program) (m.behind earlier) =
      (interpret n program m).map ((Machine.view earlier).result id) :=
  (View.Matches.bind ((runsUnlined earlier n).execAll program) fun _ => .pure () :
    (Machine.view earlier).Matches id (interpret n program)
      (interpret n (Stmt.unlinedAll program))) m hm |>.1

-- ---------------------------------------------------------------------------
-- Outcomes
-- ---------------------------------------------------------------------------

/-- What a run shows that ended so, and the machine that it leaves. -/
def Outcome.ofRun (static : List Diagnostic) :
    Except RuntimeError Unit × Machine → Outcome × Machine
  | (.ok (), m) => ({ static, printed := m.output, runtime := none }, m.flush.2)
  | (.error e, m) => ({ static, printed := m.output, runtime := some e.diagnostic }, m.flush.2)

theorem runSource_eq (n : Nat) (source : String) (m : Machine) :
    runSource n source m = (interpret n (Source.ofText source).program m).map
      (Outcome.ofRun (Source.ofText source).diagnostics) := by
  unfold runSource
  dsimp only
  rcases interpret n (Source.ofText source).program m with _ | ⟨_ | _, _⟩ <;> rfl

/-- What the run of a whole text shows, where the first piece of it printed `printed` and the second
piece showed `o₂`. -/
structure Outcome.Completes (printed : String) (o₂ o : Outcome × Machine) : Prop where
  printed : o.1.printed = printed ++ o₂.1.printed
  static : o.1.static.map Diagnostic.unlined = o₂.1.static.map Diagnostic.unlined
  runtime : o.1.runtime.map Diagnostic.unlined = o₂.1.runtime.map Diagnostic.unlined
  machine : o.2.unlined = o₂.2.unlined

theorem Outcome.completes_of_result {printed : String} {static static₂ : List Diagnostic}
    {o o₂ : Except RuntimeError Unit × Machine}
    (h : (Machine.view printed).result id o₂ = (Machine.view "").result id o)
    (hstatic : static.map Diagnostic.unlined = static₂.map Diagnostic.unlined) :
    Outcome.Completes printed (ofRun static₂ o₂) (ofRun static o) := by
  have hmachine {m₂ m : Machine} (h : m₂.behind printed = m.behind "") :
      m.output = printed ++ m₂.output ∧ m.flush.2.unlined = m₂.flush.2.unlined := by
    have houtput := congrArg Machine.output h
    have hrest := congrArg (fun m : Machine => m.flush.2) h
    exact ⟨(houtput.trans (String.empty_append)).symm, hrest.symm⟩
  obtain ⟨r, m⟩ := o
  obtain ⟨r₂, m₂⟩ := o₂
  cases r with
  | ok =>
    cases r₂ with
    | ok =>
      obtain ⟨houtput, hleft⟩ := hmachine (Prod.mk.inj h).2
      exact ⟨houtput, hstatic, rfl, hleft⟩
    | error e₂ => cases (Prod.mk.inj h).1
  | error e =>
    cases r₂ with
    | ok => cases (Prod.mk.inj h).1
    | error e₂ =>
      obtain ⟨houtput, hleft⟩ := hmachine (Prod.mk.inj h).2
      have herror : e₂.unlined = e.unlined := Except.error.inj (Prod.mk.inj h).1
      have hruntime : e.diagnostic.unlined = e₂.diagnostic.unlined := by
        rw [← e.diagnostic_unlined, ← e₂.diagnostic_unlined, herror]
      exact ⟨houtput, hstatic, congrArg some hruntime, hleft⟩

-- ---------------------------------------------------------------------------
-- Sessions
-- ---------------------------------------------------------------------------

/-- Both runs are runs of programs without lines, where the first piece has left the machine behind
the output of the first piece. -/
theorem interpret_in_pieces {m m' : Machine} (hm : m.Reachable) {n : Nat}
    {first second whole : List Stmt}
    (hwhole : Stmt.unlinedAll whole = Stmt.unlinedAll first ++ Stmt.unlinedAll second)
    (hrun : execAll n first m = some (.ok .normal, m')) :
    (∀ k o₂, interpret k second m'.flush.2 = some o₂ → ∃ o, interpret (n + k) whole m = some o ∧
      (Machine.view "").result id o = (Machine.view m'.output).result id o₂) ∧
      ∀ j o, interpret j whole m = some o → ∃ o₂, interpret j second m'.flush.2 = some o₂ ∧
        (Machine.view m'.output).result id o₂ = (Machine.view "").result id o := by
  have hblind := hm.blind
  have hblind' : ∀ b ∈ m'.flush.2.builtins, b.Blind := by
    intro b hb
    exact hblind b ((execAll_kept hrun).builtins ▸ hb)
  have hfirst : execAll n (Stmt.unlinedAll first) (m.behind "") =
      some (.ok .normal, m'.flush.2.behind m'.output) := by
    have hbehind : m'.behind "" = m'.flush.2.behind m'.output := by
      simp [Machine.behind, Machine.flush]
    have hmatch := ((runsUnlined "" n).execAll first m hblind).1
    rw [hrun] at hmatch
    rw [← hbehind]
    exact hmatch
  constructor
  · intro k o₂ hsecond
    have hunlined := interpret_behind hblind' m'.output k second
    rw [hsecond] at hunlined
    have hall := interpret_append hfirst hunlined
    rw [← hwhole, interpret_behind hblind] at hall
    exact Option.map_eq_some_iff.1 hall
  · intro j o hall
    have hunlined := interpret_behind hblind "" j whole
    rw [hall, hwhole] at hunlined
    have hsecond := interpret_of_append hfirst hunlined
    rw [interpret_behind hblind'] at hsecond
    exact Option.map_eq_some_iff.1 hsecond

theorem session_in_pieces {m m' : Machine} (hm : m.Reachable) {s₁ s₂ : String} {n : Nat}
    (hstatic : (Source.ofText s₁).diagnostics = [])
    (helse : (scan s₂).tokens.head?.map Token.kind ≠ some .kwElse)
    (hrun : execAll n (Source.ofText s₁).program m = some (.ok .normal, m')) :
    ∃ printed m₁, runSource n s₁ m = some (⟨[], printed, none⟩, m₁) ∧
      (∀ k o₂, runSource k s₂ m₁ = some o₂ →
        ∃ j o, runSource j (s₁ ++ "\n" ++ s₂) m = some o ∧ Outcome.Completes printed o₂ o) ∧
      ∀ j o, runSource j (s₁ ++ "\n" ++ s₂) m = some o →
        ∃ k o₂, runSource k s₂ m₁ = some o₂ ∧ Outcome.Completes printed o₂ o := by
  have helse : firstKind (scan s₂).tokens .endOfFile ≠ .kwElse := by
    unfold firstKind
    cases hk : (scan s₂).tokens.head?.map Token.kind with
    | none => nofun
    | some k => exact fun h => helse (hk.trans (congrArg some h))
  obtain ⟨hprogram, hdiagnostics⟩ := Source.ofText_append hstatic helse
  obtain ⟨hforth, hback⟩ := interpret_in_pieces hm hprogram hrun
  refine ⟨m'.output, m'.flush.2, ?_, ?_, ?_⟩
  · rw [runSource_eq, interpret, bind_apply, hrun, hstatic]
    rfl
  · intro k o₂ h
    obtain ⟨r₂, hr₂, rfl⟩ := Option.map_eq_some_iff.1 (runSource_eq .. ▸ h)
    obtain ⟨r, hr, hresult⟩ := hforth k r₂ hr₂
    refine ⟨n + k, _, ?_, Outcome.completes_of_result hresult.symm hdiagnostics⟩
    rw [runSource_eq, hr]
    rfl
  · intro j o h
    obtain ⟨r, hr, rfl⟩ := Option.map_eq_some_iff.1 (runSource_eq .. ▸ h)
    obtain ⟨r₂, hr₂, hresult⟩ := hback j r hr
    refine ⟨j, _, ?_, Outcome.completes_of_result hresult hdiagnostics⟩
    rw [runSource_eq, hr₂]
    rfl

/-- A function of the first piece is called in the second, which then fails on its second line: the
fourth line of the whole text. -/
theorem call_across_pieces :
    let m : Machine := .fresh 9 (.constant 0)
    let s₁ := "fun f() \x7b print nil; \x7d\nf();"
    let s₂ := "f();\nnil();"
    (Source.ofText s₁).diagnostics = [] ∧
      (scan s₂).tokens.head?.map Token.kind ≠ some .kwElse ∧
      (∃ m', execAll 9 (Source.ofText s₁).program m = some (.ok .normal, m')) ∧
      (runSource 9 (s₁ ++ "\n" ++ s₂) m).map (fun o => (o.1.printed, o.1.runtime)) =
        some ("nil\nnil\n", some ⟨.notCallable, "nil is not callable", some 4⟩) ∧
      ∃ printed m₁ k o₂ o, runSource 9 s₁ m = some (⟨[], printed, none⟩, m₁) ∧
        runSource k s₂ m₁ = some o₂ ∧ runSource 9 (s₁ ++ "\n" ++ s₂) m = some o ∧
        Outcome.Completes printed o₂ o := by
  intro m s₁ s₂
  have hstatic : (Source.ofText s₁).diagnostics = [] := by dsimp only [s₁]; rfl
  have hfirst : (scan s₂).tokens.head?.map Token.kind ≠ some .kwElse := by dsimp only [s₂]; nofun
  have hrun : ∃ m', execAll 9 (Source.ofText s₁).program m = some (.ok .normal, m') := by
    dsimp only [m, s₁]
    exact ⟨_, rfl⟩
  refine ⟨hstatic, hfirst, hrun, ?_⟩
  obtain ⟨m', hrun⟩ := hrun
  obtain ⟨printed, m₁, hpiece, -, hback⟩ := session_in_pieces (.fresh 9 _) hstatic hfirst hrun
  have hwhole : (runSource 9 (s₁ ++ "\n" ++ s₂) m).map (fun o => (o.1.printed, o.1.runtime)) =
      some ("nil\nnil\n", some ⟨.notCallable, "nil is not callable", some 4⟩) := by
    dsimp only [m, s₁, s₂]
    rfl
  obtain ⟨o, ho, -⟩ := Option.map_eq_some_iff.1 hwhole
  obtain ⟨k, o₂, hsecond, hcompletes⟩ := hback 9 o ho
  exact ⟨hwhole, printed, m₁, k, o₂, o, hpiece, hsecond, ho, hcompletes⟩

end Lox
