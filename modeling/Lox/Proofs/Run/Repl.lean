-- SUMMARY: A session does what the runs of its lines do, one after the other.
import Lox.CommandLine.Basic
import Lox.Proofs.Run.Blank
import Lox.Proofs.Text.Lines

/-!
## Interactive sessions

A session is the fold of single runs over the lines of its input (`session_folds_runs`). The runs
are those of the lines that are not blank, each on the machine that the one before has left; no
error of a line is of account for a later one but through this machine. What the runs print and
report comes out line by line, and there is a prompt for each line and one more. A line that is no
text ends the session where it stands.
-/

namespace Lox

open Attempt

/-- Runs source texts one after the other, each on the machine that the one before has left. -/
inductive Machine.RunsAll : Machine → List String → List Outcome → Machine → Prop where
  | nil {m} : RunsAll m [] [] m
  | cons {m m₁ m' n source sources o os} (hrun : runSource n source m = some (o, m₁))
      (hrest : RunsAll m₁ sources os m') : RunsAll m (source :: sources) (o :: os) m'

/-- The text that the bytes of a line encode. -/
def textOf? (line : List UInt8) : Option String :=
  String.fromUTF8? line.toByteArray

/-- The texts that a session runs. -/
def notBlank (texts : List String) : List String :=
  texts.filter fun text => trimmed text ≠ []

/-- What a session writes to one of its streams. -/
def Repl.stream (r : Repl) (part : Shown → String) : String :=
  String.join (r.shown.map part)

/-- The session has read `count` texts, and its runs had the outcomes `os` and left the machine `m`.
It has come to the end of its input, or else to a line that is no text. -/
structure Repl.Folds (r : Repl) (count : Nat) (atEnd : Bool) (os : List Outcome) (m : Machine) :
    Prop where
  machine : r.machine = m
  ended : r.ended = atEnd
  prompts : r.stream Shown.promptText =
    String.join (List.replicate (count + 1) "> ") ++ if atEnd then "\n" else ""
  printed : r.stream Shown.printedText = String.join (os.map Outcome.printed)
  errors : r.stream Shown.errorText =
    String.join (os.map fun o => diagnosticLines (o.static ++ o.runtime.toList))

variable {n k count : Nat} {m m' : Machine} {source text : String} {line : List UInt8}
  {lines rest : List (List UInt8)} {texts : List String} {os : List Outcome} {o : Outcome}
  {r : Repl} {atEnd : Bool}

-- ---------------------------------------------------------------------------
-- More fuel
-- ---------------------------------------------------------------------------

theorem interpret_approximates (h : n ≤ k) (program : List Stmt) :
    Approximates (interpret n program) (interpret k program) :=
  .bind ((runsApproximate h).execAll program) fun _ => .refl _

theorem runSource_more (h : n ≤ k) {o : Outcome × Machine} (hrun : runSource n source m = some o) :
    runSource k source m = some o := by
  rw [runSource_eq, Option.map_eq_some_iff] at hrun ⊢
  obtain ⟨o', hrun, ho⟩ := hrun
  exact ⟨o', interpret_approximates h _ m o' hrun, ho⟩

-- ---------------------------------------------------------------------------
-- One line
-- ---------------------------------------------------------------------------

/-- What a session shows of a run. -/
def Outcome.events (o : Outcome) : List Shown :=
  o.static.map .reported ++ .printed o.printed :: o.runtime.toList.map .reported

/-- A session with one more line in front. -/
def Repl.behind (shown : List Shown) (r : Repl) : Repl :=
  { r with shown := .prompt :: shown ++ r.shown }

theorem replLine_of_blank (h : trimmed text = []) : replLine n text m = some ([], m) :=
  if_pos ((isBlankLine_iff_trimmed text).2 h)

theorem replLine_of_not_blank (h : trimmed text ≠ []) :
    replLine n text m = (runSource n text m).map fun (o, m') => (o.events, m') := by
  rw [replLine, if_neg fun hblank => h ((isBlankLine_iff_trimmed text).1 hblank)]
  rcases runSource n text m with _ | ⟨o, m'⟩ <;> rfl

theorem repl_of_invalid (h : textOf? line = none) :
    repl n (line :: rest) m = some { shown := [.prompt], machine := m, ended := false } := by
  unfold textOf? at h
  simp only [repl, h]

theorem repl_of_text (h : textOf? line = some text) :
    repl n (line :: lines) m = (replLine n text m).bind fun (shown, m') =>
      (repl n lines m').map (Repl.behind shown) := by
  unfold textOf? at h
  simp only [repl, h]
  rcases replLine n text m with _ | ⟨shown, m'⟩ <;> rfl

theorem repl_of_blank (h : textOf? line = some text) (hblank : trimmed text = []) :
    repl n (line :: lines) m = (repl n lines m).map (Repl.behind []) := by
  rw [repl_of_text h, replLine_of_blank hblank, Option.bind_some]

theorem repl_of_run (h : textOf? line = some text) (hblank : trimmed text ≠ []) :
    repl n (line :: lines) m = (runSource n text m).bind fun (o, m') =>
      (repl n lines m').map (Repl.behind o.events) := by
  rw [repl_of_text h, replLine_of_not_blank hblank]
  rcases runSource n text m with _ | ⟨o, m'⟩ <;> rfl

-- ---------------------------------------------------------------------------
-- Streams
-- ---------------------------------------------------------------------------

theorem Repl.stream_behind (shown : List Shown) (r : Repl) (part : Shown → String) :
    (r.behind shown).stream part =
      part .prompt ++ (String.join (shown.map part) ++ r.stream part) := by
  simp [stream, behind, String.join_append]

theorem join_replicate_empty (n : Nat) : String.join (List.replicate n "") = "" := by
  induction n with
  | zero => rfl
  | succ n ih => rw [List.replicate_succ, String.join_cons, ih, String.empty_append]

theorem Outcome.promptText_events (o : Outcome) :
    String.join (o.events.map Shown.promptText) = "" := by
  simp [events, Function.comp_def, Shown.promptText, String.join_append, join_replicate_empty]

theorem Outcome.printedText_events (o : Outcome) :
    String.join (o.events.map Shown.printedText) = o.printed := by
  simp [events, Function.comp_def, Shown.printedText, String.join_append, join_replicate_empty]

theorem Outcome.errorText_events (o : Outcome) :
    String.join (o.events.map Shown.errorText) =
      diagnosticLines (o.static ++ o.runtime.toList) := by
  simp [events, diagnosticLines, Function.comp_def, Shown.errorText, String.join_append]

-- ---------------------------------------------------------------------------
-- One line and the rest
-- ---------------------------------------------------------------------------

namespace Repl.Folds

/-- A line adds a prompt to the stream of prompts. -/
theorem prompts_behind (h : r.Folds count atEnd os m) {shown : List Shown}
    (hshown : String.join (shown.map Shown.promptText) = "") :
    (r.behind shown).stream Shown.promptText =
      String.join (List.replicate (count + 1 + 1) "> ") ++ if atEnd then "\n" else "" := by
  rw [stream_behind, hshown, h.prompts, String.empty_append, List.replicate_succ (n := count + 1),
    String.join_cons, String.append_assoc]
  rfl

theorem blank (h : r.Folds count atEnd os m) : (r.behind []).Folds (count + 1) atEnd os m where
  machine := h.machine
  ended := h.ended
  prompts := h.prompts_behind rfl
  printed := (stream_behind [] r _).trans <| by simp [Shown.printedText, h.printed]
  errors := (stream_behind [] r _).trans <| by simp [Shown.errorText, h.errors]

theorem run (h : r.Folds count atEnd os m) (o : Outcome) :
    (r.behind o.events).Folds (count + 1) atEnd (o :: os) m where
  machine := h.machine
  ended := h.ended
  prompts := h.prompts_behind o.promptText_events
  printed := by
    rw [stream_behind, o.printedText_events, h.printed, List.map_cons, String.join_cons]
    exact String.empty_append
  errors := by
    rw [stream_behind, o.errorText_events, h.errors, List.map_cons, String.join_cons]
    exact String.empty_append

end Repl.Folds

-- ---------------------------------------------------------------------------
-- All lines
-- ---------------------------------------------------------------------------

/-- The end of the input, or a line that is no text. -/
theorem repl_of_end (hrest : ∀ line ∈ rest.head?, textOf? line = none) (m : Machine) :
    ∃ r : Repl, r.Folds 0 rest.isEmpty [] m ∧ ∀ n, repl n rest m = some r := by
  cases rest with
  | nil => exact ⟨_, ⟨rfl, rfl, rfl, rfl, rfl⟩, fun _ => rfl⟩
  | cons line rest =>
    exact ⟨_, ⟨rfl, rfl, rfl, rfl, rfl⟩, fun _ => repl_of_invalid (hrest line rfl)⟩

theorem notBlank_cons_of_blank (h : trimmed text = []) :
    notBlank (text :: texts) = notBlank texts :=
  List.filter_cons_of_neg (by simpa using h)

theorem notBlank_cons (h : trimmed text ≠ []) :
    notBlank (text :: texts) = text :: notBlank texts :=
  List.filter_cons_of_pos (by simpa using h)

/-- If the runs of the lines end, so does the session. -/
theorem repl_of_runs (hrest : ∀ line ∈ rest.head?, textOf? line = none)
    (htexts : lines.map textOf? = texts.map some) (hruns : m.RunsAll (notBlank texts) os m') :
    ∃ r : Repl, r.Folds texts.length rest.isEmpty os m' ∧
      ∃ n, ∀ k ≥ n, repl k (lines ++ rest) m = some r := by
  induction texts generalizing lines m os with
  | nil =>
    obtain rfl := List.map_eq_nil_iff.1 htexts
    cases hruns
    obtain ⟨r, hr, hrepl⟩ := repl_of_end hrest m'
    exact ⟨r, hr, 0, fun k _ => hrepl k⟩
  | cons text texts ih =>
    obtain ⟨line, lines, rfl, hline, hlines⟩ := List.map_eq_cons_iff.1 htexts
    by_cases hblank : trimmed text = []
    · rw [notBlank_cons_of_blank hblank] at hruns
      obtain ⟨r, hr, n, hrepl⟩ := ih hlines hruns
      refine ⟨_, hr.blank, n, fun k hk => ?_⟩
      rw [List.cons_append, repl_of_blank hline hblank, hrepl k hk, Option.map_some]
    · rw [notBlank_cons hblank] at hruns
      cases hruns with
      | @cons _ _ _ n _ _ o _ hrun hruns =>
        obtain ⟨r, hr, n', hrepl⟩ := ih hlines hruns
        -- each run has its own fuel, and a session has one for all of them
        refine ⟨_, hr.run o, max n n', fun k hk => ?_⟩
        rw [List.cons_append, repl_of_run hline hblank,
          runSource_more (le_trans (Nat.le_max_left n n') hk) hrun]
        simp only [Option.bind_some, hrepl k (le_trans (Nat.le_max_right n n') hk),
          Option.map_some]

/-- If the session ends, so do the runs of the lines. -/
theorem runs_of_repl (hrest : ∀ line ∈ rest.head?, textOf? line = none)
    (htexts : lines.map textOf? = texts.map some) (hrepl : repl k (lines ++ rest) m = some r) :
    ∃ os m', m.RunsAll (notBlank texts) os m' ∧ r.Folds texts.length rest.isEmpty os m' := by
  induction texts generalizing lines m r with
  | nil =>
    obtain rfl := List.map_eq_nil_iff.1 htexts
    obtain ⟨r', hr, hend⟩ := repl_of_end hrest m
    obtain rfl := Option.some.inj ((hend k).symm.trans hrepl)
    exact ⟨[], m, .nil, hr⟩
  | cons text texts ih =>
    obtain ⟨line, lines, rfl, hline, hlines⟩ := List.map_eq_cons_iff.1 htexts
    rw [List.cons_append] at hrepl
    by_cases hblank : trimmed text = []
    · rw [repl_of_blank hline hblank, Option.map_eq_some_iff] at hrepl
      obtain ⟨r, hrepl, rfl⟩ := hrepl
      obtain ⟨os, m', hruns, hr⟩ := ih hlines hrepl
      rw [notBlank_cons_of_blank hblank]
      exact ⟨os, m', hruns, hr.blank⟩
    · rw [repl_of_run hline hblank, Option.bind_eq_some_iff] at hrepl
      obtain ⟨⟨o, m₁⟩, hrun, hrepl⟩ := hrepl
      obtain ⟨r, hrest, rfl⟩ := Option.map_eq_some_iff.1 hrepl
      obtain ⟨os, m', hruns, hr⟩ := ih hlines hrest
      rw [notBlank_cons hblank]
      exact ⟨o :: os, m', .cons hrun hruns, hr.run o⟩

/-- A session is the fold of the runs of its lines. Its input has some lines that are texts, and
then either no more or a line that is not. The session ends if and only if the runs of the lines
that are not blank do, and has then done what they did. -/
theorem session_folds_runs {input : List UInt8} {lines rest : List (List UInt8)}
    {texts : List String} (hinput : Lines 10 13 input (lines ++ rest))
    (htexts : lines.map textOf? = texts.map some)
    (hrest : ∀ line ∈ rest.head?, textOf? line = none) (m : Machine) :
    (∀ os m', m.RunsAll (notBlank texts) os m' →
        ∃ r : Repl, r.Folds texts.length rest.isEmpty os m' ∧
          ∃ n, ∀ k ≥ n, repl k (byteLines input) m = some r) ∧
      ∀ k r, repl k (byteLines input) m = some r →
        ∃ os m', m.RunsAll (notBlank texts) os m' ∧
          r.Folds texts.length rest.isEmpty os m' := by
  have hbytes : byteLines input = lines ++ rest := hinput.linesBetween_eq (by decide)
  rw [hbytes]
  exact ⟨fun os m' hruns => repl_of_runs hrest htexts hruns,
    fun k r hrepl => runs_of_repl hrest htexts hrepl⟩

/-- A variable is declared in the first line, called in the third, which fails, and the session ends
at the fourth. -/
theorem session_to_invalid_line :
    let m : Machine := .fresh 9 (.constant 0)
    let texts := ["var a;", "\u00a0", "print a; a();"]
    let bytes (s : String) : List UInt8 := s.toUTF8.data.toList
    let lines := texts.map bytes
    let rest : List (List UInt8) := [[255], [49]]
    let input : List UInt8 := bytes "var a;" ++ 13 :: 10 :: (bytes "\u00a0" ++ 10 ::
      (bytes "print a; a();" ++ 10 :: ([255] ++ 10 :: [49])))
    Lines 10 13 input (lines ++ rest) ∧ lines.map textOf? = texts.map some ∧
      (∀ line ∈ rest.head?, textOf? line = none) ∧
      ∃ os m', m.RunsAll (notBlank texts) os m' ∧
        os.map (fun o => (o.printed, o.runtime)) =
          [("", none), ("nil\n", some ⟨.notCallable, "nil is not callable", some 1⟩)] ∧
        ∃ r : Repl, r.Folds 3 false os m' ∧ ∃ n, ∀ k ≥ n, repl k (byteLines input) m = some r := by
  intro m texts bytes lines rest input
  have hinput : Lines 10 13 input (lines ++ rest) :=
    .returned (by decide +kernel) <| .broken (by decide +kernel) (by decide +kernel) <|
      .broken (by decide +kernel) (by decide +kernel) <|
      .broken (by decide) (by decide) <| .last (by decide) (by decide)
  have htexts : lines.map textOf? = texts.map some := by decide +kernel
  have hrest : ∀ line ∈ rest.head?, textOf? line = none := by decide +kernel
  have hruns : ((runSource 9 "var a;" m).bind fun (o₁, m₁) =>
      (runSource 9 "print a; a();" m₁).map fun (o₂, _) =>
        [o₁, o₂].map fun o => (o.printed, o.runtime)) =
      some [("", none), ("nil\n", some ⟨.notCallable, "nil is not callable", some 1⟩)] := by
    dsimp only [m]
    rfl
  obtain ⟨⟨o₁, m₁⟩, hfirst, hruns⟩ := Option.bind_eq_some_iff.1 hruns
  obtain ⟨⟨o₂, m₂⟩, hsecond, hos⟩ := Option.map_eq_some_iff.1 hruns
  have hall : m.RunsAll (notBlank texts) [o₁, o₂] m₂ := .cons hfirst (.cons hsecond .nil)
  obtain ⟨r, hr, hrepl⟩ := (session_folds_runs hinput htexts hrest m).1 _ _ hall
  exact ⟨hinput, htexts, hrest, _, m₂, hall, hos, r, hr, hrepl⟩

end Lox
