-- SUMMARY: Which command lines are accepted, what they mean, and what is reported of the others.
import Mathlib.Data.List.Induction
import Lox.CommandLine.Config
import Lox.Proofs.Number.Text

/-!
## Arguments

What a command line means is said here by its arguments as a whole: which of them are paths, which
are options and for what number, which of the options is the last. The arguments are read in this
sense (`arguments_read_exactly`). A command line is accepted exactly if all its arguments are proper
and it has the path that its command needs; the place of the path is of no account; and of several
arguments that offend the leftmost is reported.
-/

namespace Lox

-- ---------------------------------------------------------------------------
-- Meaning of arguments
-- ---------------------------------------------------------------------------

/-- The argument is no option. -/
def IsPath (a : String) : Prop :=
  a.toList.head? ≠ some '-'

instance : DecidablePred IsPath :=
  fun a => inferInstanceAs (Decidable (a.toList.head? ≠ some '-'))

/-- The argument is the option that sets the limit to `n`. -/
inductive IsLimit (a : String) (n : Nat) : Prop where
  | mk {sign digits : List Char} (ha : a = "--max-depth=" ++ String.ofList (sign ++ digits))
      (hsign : sign = [] ∨ sign = ['+']) (hne : digits ≠ [])
      (hdigits : ∀ c ∈ digits, c.isDigit = true) (hn : n = Nat.ofDigitChars 10 digits 0)
      (hpos : 1 ≤ n) (hword : n ≤ 2 ^ 64 - 1)

/-- The limit that the last of the options sets. -/
inductive LastLimit : List String → Nat → Prop where
  | default {args} (h : ∀ a ∈ args, ∀ n, ¬ IsLimit a n) : LastLimit args 1024
  | last {before a n after} (h : IsLimit a n) (hafter : ∀ b ∈ after, ∀ k, ¬ IsLimit b k) :
      LastLimit (before ++ a :: after) n

/-- The arguments behind a command that make up a command line. -/
structure Accepted (command : Command) (args : List String) : Prop where
  proper : ∀ a ∈ args, IsPath a ∨ ∃ n, IsLimit a n
  paths : (args.filter (IsPath ·)).length = if command = .repl then 0 else 1

/-- The argument `a` is wrong behind the arguments `before`, and this is reported of it. -/
inductive Offends (command : Command) (before : List String) (a : String) : UsageError → Prop where
  | limit {value} (ha : a = "--max-depth=" ++ value) (h : ∀ n, ¬ IsLimit a n) :
      Offends command before a (.invalidCallLimit value)
  | option (ha : ¬ IsPath a) (h : ∀ value, a ≠ "--max-depth=" ++ value) :
      Offends command before a (.unexpectedArgument a)
  | needless (ha : IsPath a) (h : command = .repl) :
      Offends command before a (.unexpectedArgument a)
  | second {b} (ha : IsPath a) (hb : b ∈ before) (h : IsPath b) :
      Offends command before a (.unexpectedArgument a)

/-- No argument offends. -/
def Flawless (command : Command) (args : List String) : Prop :=
  ∀ before a after, args = before ++ a :: after → ∀ e, ¬ Offends command before a e

/-- The command line is wrong, and this is reported of it. -/
inductive Faulty : List String → UsageError → Prop where
  | missingCommand : Faulty [] .missingCommand
  | unknownCommand {name rest} (h : ∀ c : Command, c.name ≠ name) :
      Faulty (name :: rest) (.unknownCommand name)
  | offence {command before a after e} (hbefore : Flawless command before)
      (h : Offends command before a e) : Faulty (command.name :: (before ++ a :: after)) e
  | missingPath {command rest} (h : Flawless command rest) (hcommand : command ≠ .repl)
      (hpath : ∀ a ∈ rest, ¬ IsPath a) : Faulty (command.name :: rest) (.missingPath command)

variable {command : Command} {a b name : String} {args before after rest : List String} {n : Nat}
  {value digits : List Char} {o o' : Options} {e e' : UsageError} {c : Config}

-- ---------------------------------------------------------------------------
-- The option for the limit
-- ---------------------------------------------------------------------------

theorem limitValue?_eq_some_iff :
    limitValue? a = some value ↔ a = "--max-depth=" ++ String.ofList value := by
  rw [← String.toList_inj, String.toList_append, String.toList_ofList (l := value)]
  unfold limitValue?
  dsimp only
  split
  · next h =>
    obtain ⟨rest, hrest⟩ := List.isPrefixOf_iff_prefix.1 h
    rw [← hrest, List.drop_left, Option.some_inj, List.append_cancel_left_eq]
  · next h => exact iff_of_false nofun fun ha => h (List.isPrefixOf_iff_prefix.2 ⟨value, ha.symm⟩)

/-- The limit that some digits stand for. -/
def limitOfDigits? (digits : List Char) : Option Nat :=
  let n := Number.digitsValue digits
  if digits ≠ [] ∧ digits.all Char.isDigit = true ∧ 0 < n ∧ n < Nat.pow 2 64 then some n else none

theorem limitOfDigits?_eq_some_iff : limitOfDigits? digits = some n ↔
    digits ≠ [] ∧ (∀ c ∈ digits, c.isDigit = true) ∧ n = Nat.ofDigitChars 10 digits 0 ∧
      1 ≤ n ∧ n ≤ 2 ^ 64 - 1 := by
  unfold limitOfDigits?
  simp only [Number.digitsValue_eq, Nat.pow_eq, List.all_eq_true]
  split
  · next h =>
    obtain ⟨hne, hdigits, hpos, hword⟩ := h
    rw [Option.some_inj]
    constructor
    · rintro rfl
      exact ⟨hne, hdigits, rfl, hpos, by omega⟩
    · rintro ⟨-, -, hn, -⟩
      exact hn.symm
  · next h =>
    refine iff_of_false nofun ?_
    rintro ⟨hne, hdigits, rfl, hpos, hword⟩
    exact h ⟨hne, hdigits, hpos, by omega⟩

theorem readLimit?_plus (digits : List Char) :
    readLimit? ('+' :: digits) = limitOfDigits? digits :=
  rfl

theorem readLimit?_of_ne_plus (h : value.head? ≠ some '+') :
    readLimit? value = limitOfDigits? value := by
  cases value with
  | nil => rfl
  | cons c cs =>
    simp only [readLimit?, limitOfDigits?]
    split
    · next heq => exact absurd (congrArg some (List.cons.inj heq).1) h
    · rfl

theorem readLimit?_eq_some_iff : readLimit? value = some n ↔
    ∃ sign digits, value = sign ++ digits ∧ (sign = [] ∨ sign = ['+']) ∧ digits ≠ [] ∧
      (∀ c ∈ digits, c.isDigit = true) ∧ n = Nat.ofDigitChars 10 digits 0 ∧ 1 ≤ n ∧
      n ≤ 2 ^ 64 - 1 := by
  constructor
  · intro h
    by_cases hplus : value.head? = some '+'
    · obtain ⟨digits, rfl⟩ := List.head?_eq_some_iff.1 hplus
      exact ⟨['+'], digits, rfl, .inr rfl, limitOfDigits?_eq_some_iff.1 h⟩
    · rw [readLimit?_of_ne_plus hplus] at h
      exact ⟨[], value, rfl, .inl rfl, limitOfDigits?_eq_some_iff.1 h⟩
  · rintro ⟨sign, digits, rfl, rfl | rfl, h⟩
    · -- a plus sign is no digit
      have hplus : digits.head? ≠ some '+' := by
        intro hplus
        cases h.2.1 '+' (List.mem_of_head? hplus)
      rw [List.nil_append, readLimit?_of_ne_plus hplus]
      exact limitOfDigits?_eq_some_iff.2 h
    · rw [List.singleton_append, readLimit?_plus]
      exact limitOfDigits?_eq_some_iff.2 h

/-- The limit that an argument sets, if it is the option. -/
def limitOf? (a : String) : Option Nat :=
  (limitValue? a).bind readLimit?

theorem limitOf?_eq_some_iff : limitOf? a = some n ↔ IsLimit a n := by
  rw [limitOf?, Option.bind_eq_some_iff]
  simp only [limitValue?_eq_some_iff, readLimit?_eq_some_iff]
  constructor
  · rintro ⟨_, ha, sign, digits, rfl, hsign, hne, hdigits, hn, hpos, hword⟩
    exact .mk ha hsign hne hdigits hn hpos hword
  · rintro ⟨ha, hsign, hne, hdigits, hn, hpos, hword⟩
    exact ⟨_, ha, _, _, rfl, hsign, hne, hdigits, hn, hpos, hword⟩

theorem limitOf?_eq_none_iff : limitOf? a = none ↔ ∀ n, ¬ IsLimit a n := by
  simp only [Option.eq_none_iff_forall_ne_some, ne_eq, limitOf?_eq_some_iff]

/-- The option starts with a dash. -/
theorem not_isPath_of_flag {value : String} (h : a = "--max-depth=" ++ value) : ¬ IsPath a := by
  rw [IsPath, h, String.toList_append]
  exact not_not.2 rfl

theorem IsLimit.flag (h : IsLimit a n) : ∃ value, a = "--max-depth=" ++ value := by
  obtain ⟨ha⟩ := h
  exact ⟨_, ha⟩

theorem IsLimit.not_isPath (h : IsLimit a n) : ¬ IsPath a := by
  obtain ⟨value, ha⟩ := h.flag
  exact not_isPath_of_flag ha

theorem limitValue?_eq_none (h : ∀ value, a ≠ "--max-depth=" ++ value) : limitValue? a = none :=
  Option.eq_none_iff_forall_ne_some.2 fun _ ha => h _ (limitValue?_eq_some_iff.1 ha)

theorem ne_flag_of_isPath (h : IsPath a) (value : String) : a ≠ "--max-depth=" ++ value :=
  fun ha => not_isPath_of_flag ha h

theorem limitOf?_of_isPath (h : IsPath a) : limitOf? a = none :=
  limitOf?_eq_none_iff.2 fun _ ha => ha.not_isPath h

/-- The last limit is the last of all limits. -/
theorem lastLimit_getLast? (args : List String) :
    LastLimit args ((args.filterMap limitOf?).getLast?.getD 1024) := by
  induction args using List.reverseRecOn with
  | nil => exact .default (List.forall_mem_nil _)
  | append_singleton args a ih =>
    cases ha : limitOf? a with
    | some n =>
      have hlast : ((args ++ [a]).filterMap limitOf?).getLast?.getD 1024 = n := by
        simp [List.filterMap_append, ha]
      rw [hlast]
      exact .last (limitOf?_eq_some_iff.1 ha) (List.forall_mem_nil _)
    | none =>
      have hnone : ∀ b ∈ [a], ∀ n, ¬ IsLimit b n :=
        List.forall_mem_singleton.2 (limitOf?_eq_none_iff.1 ha)
      have hlast : (args ++ [a]).filterMap limitOf? = args.filterMap limitOf? := by
        simp [List.filterMap_append, ha]
      rw [hlast]
      generalize (args.filterMap limitOf?).getLast?.getD 1024 = k at ih
      cases ih with
      | default h => exact .default (List.forall_mem_append.2 ⟨h, hnone⟩)
      | last h hafter =>
        rw [List.append_assoc, List.cons_append]
        exact .last h (List.forall_mem_append.2 ⟨hafter, hnone⟩)

-- ---------------------------------------------------------------------------
-- One argument
-- ---------------------------------------------------------------------------

theorem Command.takesPath_iff : command.takesPath = true ↔ command ≠ .repl := by
  cases command <;> decide

namespace Options

theorem add_of_limit (h : IsLimit a n) : o.add command a = .ok { o with callLimit := n } := by
  obtain ⟨value, hvalue, hn⟩ := Option.bind_eq_some_iff.1 (limitOf?_eq_some_iff.2 h)
  simp only [add, hvalue, hn]

theorem add_of_wrong_limit {value : String} (ha : a = "--max-depth=" ++ value)
    (h : ∀ n, ¬ IsLimit a n) : o.add command a = .error (.invalidCallLimit value) := by
  have hvalue : limitValue? a = some value.toList := by
    rw [limitValue?_eq_some_iff, String.ofList_toList, ha]
  have hnone : readLimit? value.toList = none := by
    have hlimit := limitOf?_eq_none_iff.2 h
    rwa [limitOf?, hvalue, Option.bind_some] at hlimit
  simp only [add, hvalue, hnone, String.ofList_toList]

theorem add_of_path (h : IsPath a) (hfree : o.path? = none) (hcommand : command ≠ .repl) :
    o.add command a = .ok { o with path? := some a } := by
  rw [add, limitValue?_eq_none (ne_flag_of_isPath h)]
  exact if_pos ⟨h, hfree, Command.takesPath_iff.2 hcommand⟩

theorem add_unexpected (ha : ∀ value, a ≠ "--max-depth=" ++ value)
    (h : ¬ (IsPath a ∧ o.path? = none ∧ command ≠ .repl)) :
    o.add command a = .error (.unexpectedArgument a) := by
  rw [add, limitValue?_eq_none ha]
  exact if_neg fun hpath => h ⟨hpath.1, hpath.2.1, Command.takesPath_iff.1 hpath.2.2⟩

end Options

/-- The options are those of the arguments `args`. -/
structure Reads (command : Command) (args : List String) (o : Options) : Prop where
  proper : ∀ a ∈ args, IsPath a ∨ ∃ n, IsLimit a n
  paths : args.filter (IsPath ·) = o.path?.toList
  pathless : command = .repl → o.path? = none
  callLimit : o.callLimit = (args.filterMap limitOf?).getLast?.getD 1024

theorem reads_nil (command : Command) : Reads command [] { } :=
  ⟨List.forall_mem_nil _, rfl, fun _ => rfl, rfl⟩

namespace Reads

theorem path?_eq_none_iff (h : Reads command args o) :
    o.path? = none ↔ ∀ a ∈ args, ¬ IsPath a := by
  rw [← Option.toList_eq_nil_iff, ← h.paths, List.filter_eq_nil_iff]
  simp

theorem path?_eq_some (h : Reads command args o) (ha : a ∈ args) (hpath : IsPath a) :
    o.path? = some a := by
  have hmem : a ∈ args.filter (IsPath ·) := List.mem_filter.2 ⟨ha, decide_eq_true hpath⟩
  rw [h.paths] at hmem
  exact Option.mem_toList.1 hmem

theorem limit (h : Reads command args o) (ha : IsLimit a n) :
    Reads command (args ++ [a]) { o with callLimit := n } where
  proper := List.forall_mem_append.2 ⟨h.proper, List.forall_mem_singleton.2 (.inr ⟨n, ha⟩)⟩
  paths := by simp [List.filter_append, h.paths, ha.not_isPath]
  pathless := h.pathless
  callLimit := by simp [List.filterMap_append, limitOf?_eq_some_iff.2 ha]

theorem path (h : Reads command args o) (ha : IsPath a) (hfree : o.path? = none)
    (hcommand : command ≠ .repl) :
    Reads command (args ++ [a]) { o with path? := some a } where
  proper := List.forall_mem_append.2 ⟨h.proper, List.forall_mem_singleton.2 (.inl ha)⟩
  paths := by simp [List.filter_append, h.paths, hfree, ha]
  pathless := fun hrepl => absurd hrepl hcommand
  callLimit := by simp [List.filterMap_append, limitOf?_of_isPath ha, h.callLimit]

/-- An argument is taken up, or it offends and is refused. -/
theorem add (h : Reads command args o) (a : String) :
    (∃ o', o.add command a = .ok o' ∧ Reads command (args ++ [a]) o' ∧
      ∀ e, ¬ Offends command args a e) ∨
    ∃ e, o.add command a = .error e ∧ Offends command args a e := by
  by_cases hlimit : ∃ n, IsLimit a n
  · obtain ⟨n, ha⟩ := hlimit
    refine .inl ⟨_, Options.add_of_limit ha, h.limit ha, fun e he => ?_⟩
    cases he with
    | limit _ hno => exact hno n ha
    | option _ hflag => exact not_exists.2 hflag ha.flag
    | needless hpath | second hpath => exact ha.not_isPath hpath
  have hno : ∀ n, ¬ IsLimit a n := not_exists.1 hlimit
  by_cases hflag : ∃ value, a = "--max-depth=" ++ value
  · obtain ⟨value, ha⟩ := hflag
    exact .inr ⟨_, Options.add_of_wrong_limit ha hno, .limit ha hno⟩
  have hflag : ∀ value, a ≠ "--max-depth=" ++ value := not_exists.1 hflag
  by_cases hpath : IsPath a ∧ o.path? = none ∧ command ≠ .repl
  · obtain ⟨ha, hfree, hcommand⟩ := hpath
    refine .inl ⟨_, Options.add_of_path ha hfree hcommand, h.path ha hfree hcommand,
      fun e he => ?_⟩
    cases he with
    | limit ha => exact hflag _ ha
    | option hdash => exact hdash ha
    | needless _ hrepl => exact hcommand hrepl
    | second _ hb hpath => exact h.path?_eq_none_iff.1 hfree _ hb hpath
  · refine .inr ⟨_, Options.add_unexpected hflag hpath, ?_⟩
    by_cases ha : IsPath a
    · by_cases hcommand : command = .repl
      · exact .needless ha hcommand
      · have htaken : o.path? ≠ none := fun hfree => hpath ⟨ha, hfree, hcommand⟩
        rw [ne_eq, h.path?_eq_none_iff] at htaken
        push Not at htaken
        obtain ⟨b, hb, hpath⟩ := htaken
        exact .second ha hb hpath
    · exact .option ha hflag

end Reads

/-- One thing is reported of an argument. -/
theorem Offends.unique (h : Offends command before a e) (h' : Offends command before a e') :
    e = e' := by
  cases h with
  | limit ha =>
    cases h' with
    | limit ha' =>
      have hvalue := congrArg String.toList (ha.symm.trans ha')
      rw [String.toList_append, String.toList_append, List.append_cancel_left_eq] at hvalue
      rw [String.toList_inj.1 hvalue]
    | option _ hflag => exact absurd ha (hflag _)
    | needless hpath | second hpath => exact absurd hpath (not_isPath_of_flag ha)
  | option hdash hflag =>
    cases h' with
    | limit ha => exact absurd ha (hflag _)
    | option => rfl
    | needless hpath | second hpath => exact absurd hpath hdash
  | needless hpath | second hpath =>
    cases h' with
    | limit ha => exact absurd hpath (not_isPath_of_flag ha)
    | option hdash => exact absurd hpath hdash
    | needless | second => rfl

-- ---------------------------------------------------------------------------
-- All arguments
-- ---------------------------------------------------------------------------

theorem Options.addAll_append (command : Command) (o : Options) (args rest : List String) :
    addAll command o (args ++ rest) = addAll command o args >>= (addAll command · rest) := by
  induction args generalizing o with
  | nil => rfl
  | cons a args ih =>
    simp only [List.cons_append, addAll]
    cases o.add command a with
    | ok o' => exact ih o'
    | error e => rfl

theorem flawless_nil (command : Command) : Flawless command [] := by
  intro before a after h
  simp at h

theorem flawless_concat_iff :
    Flawless command (args ++ [a]) ↔ Flawless command args ∧ ∀ e, ¬ Offends command args a e := by
  constructor
  · intro h
    refine ⟨fun before b after hargs => ?_, h args a [] rfl⟩
    exact h before b (after ++ [a]) (by rw [hargs, List.append_assoc, List.cons_append])
  · rintro ⟨hargs, ha⟩ before b after hsplit
    rcases List.eq_nil_or_concat after with rfl | ⟨after, c, rfl⟩
    · obtain ⟨rfl, hab⟩ := List.append_inj' hsplit rfl
      cases hab
      exact ha
    · rw [List.concat_eq_append, ← List.cons_append, ← List.append_assoc] at hsplit
      exact hargs before b after (List.append_inj_left' hsplit rfl)

/-- The arguments are taken up as long as none of them offends, and the first that does is
refused. -/
theorem addAll_outcome (command : Command) (args : List String) :
    (∃ o, Options.addAll command { } args = .ok o ∧ Reads command args o ∧
      Flawless command args) ∨
    ∃ before a after e, args = before ++ a :: after ∧ Flawless command before ∧
      Offends command before a e ∧ Options.addAll command { } args = .error e := by
  induction args using List.reverseRecOn with
  | nil => exact .inl ⟨_, rfl, reads_nil command, flawless_nil command⟩
  | append_singleton args a ih =>
    rw [Options.addAll_append]
    rcases ih with ⟨o, ho, hreads, hflawless⟩ | ⟨before, b, after, e, rfl, hbefore, hb, he⟩
    · have hlast : Options.addAll command { } args >>= (Options.addAll command · [a]) =
          o.add command a := by
        rw [ho]
        exact bind_pure (o.add command a)
      rw [hlast]
      rcases hreads.add a with ⟨o', ho', hreads', ha⟩ | ⟨e, he, ha⟩
      · exact .inl ⟨o', ho', hreads', flawless_concat_iff.2 ⟨hflawless, ha⟩⟩
      · exact .inr ⟨args, a, [], e, rfl, hflawless, ha, he⟩
    · refine .inr ⟨before, b, after ++ [a], e, by simp, hbefore, hb, ?_⟩
      rw [he]
      rfl

theorem addAll_of_flawless (h : Flawless command args) :
    ∃ o, Options.addAll command { } args = .ok o ∧ Reads command args o := by
  rcases addAll_outcome command args with
    ⟨o, ho, hreads, -⟩ | ⟨before, a, after, e, hsplit, -, ha, -⟩
  · exact ⟨o, ho, hreads⟩
  · exact absurd ha (h before a after hsplit e)

theorem addAll_of_offence (hbefore : Flawless command before) (h : Offends command before a e) :
    Options.addAll command { } (before ++ a :: after) = .error e := by
  obtain ⟨o, ho, hreads⟩ := addAll_of_flawless hbefore
  rcases hreads.add a with ⟨_, _, _, hnone⟩ | ⟨e', he', ha⟩
  · exact absurd h (hnone e)
  · rw [Options.addAll_append, ho, h.unique ha]
    change (o.add command a >>= _) = _
    rw [he']
    rfl

-- ---------------------------------------------------------------------------
-- Command lines
-- ---------------------------------------------------------------------------

theorem Command.ofName?_eq_some_iff :
    Command.ofName? name = some command ↔ name = command.name := by
  constructor
  · intro h
    have hname := List.find?_some h
    exact (eq_of_beq hname).symm
  · rintro rfl
    exact ofName?_name command

/-- What is done with the options of a command. -/
theorem ofArguments_command (command : Command) (rest : List String) :
    Config.ofArguments (command.name :: rest) =
      Options.addAll command { } rest >>= fun o =>
        if command ≠ .repl ∧ o.path? = none then .error (.missingPath command)
        else .ok { command, options := o } := by
  simp only [Config.ofArguments, Command.ofName?_name, Command.takesPath_iff]
  rfl

theorem ofArguments_of_reads (h : Options.addAll command { } rest = .ok o)
    (hpath : command = .repl ∨ o.path? ≠ none) :
    Config.ofArguments (command.name :: rest) = .ok { command, options := o } := by
  rw [ofArguments_command, h]
  exact if_neg fun hmissing => hpath.elim hmissing.1 fun hne => hne hmissing.2

/-- A command line is accepted, or it is wrong and refused. -/
theorem ofArguments_outcome (arguments : List String) :
    (∃ c rest, arguments = c.command.name :: rest ∧ Config.ofArguments arguments = .ok c ∧
      Reads c.command rest c.options ∧ (c.command = .repl ∨ c.options.path? ≠ none)) ∨
    ∃ e, Config.ofArguments arguments = .error e ∧ Faulty arguments e := by
  cases arguments with
  | nil => exact .inr ⟨_, rfl, .missingCommand⟩
  | cons name rest =>
    cases hname : Command.ofName? name with
    | none =>
      refine .inr ⟨.unknownCommand name, ?_, .unknownCommand fun c hc => ?_⟩
      · simp only [Config.ofArguments, hname]
      · rw [Command.ofName?_eq_some_iff.2 hc.symm] at hname
        cases hname
    | some command =>
      obtain rfl := Command.ofName?_eq_some_iff.1 hname
      rcases addAll_outcome command rest with
        ⟨o, ho, hreads, hflawless⟩ | ⟨before, a, after, e, rfl, hbefore, ha, he⟩
      · by_cases hpath : command = .repl ∨ o.path? ≠ none
        · exact .inl ⟨_, rest, rfl, ofArguments_of_reads ho hpath, hreads, hpath⟩
        · obtain ⟨hcommand, hnone⟩ : command ≠ .repl ∧ o.path? = none := by
            simpa [not_or] using hpath
          refine .inr ⟨_, ?_, .missingPath hflawless hcommand (hreads.path?_eq_none_iff.1 hnone)⟩
          rw [ofArguments_command, ho]
          exact if_pos ⟨hcommand, hnone⟩
      · refine .inr ⟨e, ?_, .offence hbefore ha⟩
        rw [ofArguments_command, he]
        rfl

theorem Faulty.ofArguments_eq {arguments : List String} (h : Faulty arguments e) :
    Config.ofArguments arguments = .error e := by
  cases h with
  | missingCommand => rfl
  | @unknownCommand name rest h =>
    have hname : Command.ofName? name = none :=
      Option.eq_none_iff_forall_ne_some.2 fun c hc => h c (Command.ofName?_eq_some_iff.1 hc).symm
    simp only [Config.ofArguments, hname]
  | offence hbefore h =>
    rw [ofArguments_command, addAll_of_offence hbefore h]
    rfl
  | missingPath h hcommand hpath =>
    obtain ⟨o, ho, hreads⟩ := addAll_of_flawless h
    rw [ofArguments_command, ho]
    exact if_pos ⟨hcommand, hreads.path?_eq_none_iff.2 hpath⟩

theorem Reads.accepted (h : Reads command args o) (hpath : command = .repl ∨ o.path? ≠ none) :
    Accepted command args where
  proper := h.proper
  paths := by
    rw [h.paths]
    split
    · next hrepl => rw [h.pathless hrepl]; rfl
    · next hcommand =>
      obtain ⟨path, hpath⟩ := Option.ne_none_iff_exists'.1 (hpath.resolve_left hcommand)
      rw [hpath]
      rfl

/-- Paths that are accepted are not more than one. -/
theorem Accepted.flawless (h : Accepted command args) : Flawless command args := by
  rintro before a after rfl e he
  have hproper := h.proper a (by simp)
  have hpaths := h.paths
  cases he with
  | limit ha hno =>
    rcases hproper with hpath | ⟨n, hn⟩
    · exact not_isPath_of_flag ha hpath
    · exact hno n hn
  | option hdash hflag =>
    rcases hproper with hpath | ⟨n, hn⟩
    · exact hdash hpath
    · exact not_exists.2 hflag hn.flag
  | needless ha hrepl =>
    rw [if_pos hrepl, List.length_eq_zero_iff, List.filter_eq_nil_iff] at hpaths
    exact hpaths a (by simp) (decide_eq_true ha)
  | @second b ha hb hpath =>
    have hmem : b ∈ before.filter (IsPath ·) := List.mem_filter.2 ⟨hb, decide_eq_true hpath⟩
    have hbefore := List.length_pos_of_mem hmem
    have hfrom : (a :: after).filter (IsPath ·) = a :: after.filter (IsPath ·) :=
      List.filter_cons_of_pos (by simpa using ha)
    rw [List.filter_append, hfrom, List.length_append, List.length_cons] at hpaths
    split at hpaths <;> omega

theorem Accepted.path_of_takes (h : Accepted command args) (hcommand : command ≠ .repl) :
    ∃ a ∈ args, IsPath a := by
  have hpaths := h.paths
  rw [if_neg hcommand] at hpaths
  have hpos : 0 < (args.filter (IsPath ·)).length := by omega
  obtain ⟨a, ha⟩ := List.exists_mem_of_length_pos hpos
  obtain ⟨hmem, hpath⟩ := List.mem_filter.1 ha
  exact ⟨a, hmem, of_decide_eq_true hpath⟩

theorem Accepted.ofArguments_eq (h : Accepted command args) :
    ∃ o, Config.ofArguments (command.name :: args) = .ok { command, options := o } ∧
      Reads command args o := by
  obtain ⟨o, ho, hreads⟩ := addAll_of_flawless h.flawless
  refine ⟨o, ofArguments_of_reads ho ?_, hreads⟩
  by_cases hcommand : command = .repl
  · exact .inl hcommand
  · obtain ⟨a, ha, hpath⟩ := h.path_of_takes hcommand
    exact .inr fun hnone => hreads.path?_eq_none_iff.1 hnone a ha hpath

theorem reads_of_ofArguments {arguments : List String} (h : Config.ofArguments arguments = .ok c) :
    ∃ rest, arguments = c.command.name :: rest ∧ Reads c.command rest c.options ∧
      Accepted c.command rest := by
  rcases ofArguments_outcome arguments with ⟨c', rest, hrest, hc', hreads, hpath⟩ | ⟨e, he, -⟩
  · cases h.symm.trans hc'
    exact ⟨rest, hrest, hreads, hreads.accepted hpath⟩
  · cases h.symm.trans he

theorem Accepted.perm (h : Accepted command args) (hperm : args.Perm rest) :
    Accepted command rest where
  proper a ha := h.proper a (hperm.mem_iff.2 ha)
  paths := (hperm.filter _).length_eq ▸ h.paths

/-- The place of the path among the options is of no account. -/
theorem Reads.moved {path : String} {before' after' : List String}
    (h : Reads command (before ++ path :: after) o)
    (h' : Reads command (before' ++ path :: after') o')
    (hrest : before' ++ after' = before ++ after) (hpath : IsPath path) : o = o' := by
  have hlimits (before after : List String) : (before ++ path :: after).filterMap limitOf? =
      (before ++ after).filterMap limitOf? := by
    simp [List.filterMap_append, limitOf?_of_isPath hpath]
  have hpath? : o.path? = o'.path? :=
    (h.path?_eq_some (by simp) hpath).trans (h'.path?_eq_some (by simp) hpath).symm
  have hcallLimit : o.callLimit = o'.callLimit := by
    rw [h.callLimit, h'.callLimit, hlimits, hlimits, hrest]
  obtain ⟨path?, callLimit⟩ := o
  cases hpath?
  cases hcallLimit
  rfl

/-- The arguments of a command line are read for what they mean. -/
theorem arguments_read_exactly (arguments : List String) :
    ((∃ c, Config.ofArguments arguments = .ok c) ↔
      ∃ command rest, arguments = command.name :: rest ∧ Accepted command rest) ∧
    (∀ c, Config.ofArguments arguments = .ok c → ∃ rest, arguments = c.command.name :: rest ∧
      rest.filter (IsPath ·) = c.options.path?.toList ∧ LastLimit rest c.options.callLimit) ∧
    (∀ name path before after, arguments = name :: (before ++ path :: after) → IsPath path →
      ∀ before' after', before' ++ after' = before ++ after →
        ∀ c, Config.ofArguments arguments = .ok c →
          Config.ofArguments (name :: (before' ++ path :: after')) = .ok c) ∧
    ∀ e, Config.ofArguments arguments = .error e ↔ Faulty arguments e := by
  refine ⟨⟨?_, ?_⟩, fun c hc => ?_, ?_, fun e => ⟨fun he => ?_, Faulty.ofArguments_eq⟩⟩
  · rintro ⟨c, hc⟩
    obtain ⟨rest, hrest, -, haccepted⟩ := reads_of_ofArguments hc
    exact ⟨c.command, rest, hrest, haccepted⟩
  · rintro ⟨command, rest, rfl, haccepted⟩
    obtain ⟨o, ho, -⟩ := haccepted.ofArguments_eq
    exact ⟨_, ho⟩
  · obtain ⟨rest, hrest, hreads, -⟩ := reads_of_ofArguments hc
    exact ⟨rest, hrest, hreads.paths, hreads.callLimit ▸ lastLimit_getLast? rest⟩
  · rintro name path before after rfl hpath before' after' hmoved c hc
    obtain ⟨rest, hrest, hreads, haccepted⟩ := reads_of_ofArguments hc
    obtain ⟨rfl, rfl⟩ := List.cons.inj hrest
    have hperm : (before ++ path :: after).Perm (before' ++ path :: after') := by
      refine List.perm_middle.trans (.trans ?_ List.perm_middle.symm)
      rw [hmoved]
    obtain ⟨o, ho, hreads'⟩ := (haccepted.perm hperm).ofArguments_eq
    rw [ho, ← hreads.moved hreads' hmoved hpath]
  · rcases ofArguments_outcome arguments with ⟨c, _, _, hc, -⟩ | ⟨e', he', hfaulty⟩
    · cases he.symm.trans hc
    · cases he.symm.trans he'
      exact hfaulty

-- Of a second path and a limit of zero, the one that stands first is reported.
example : Config.ofArguments ["run", "--max-depth=+007", "a", "b", "--max-depth=0"] =
    .error (.unexpectedArgument "b") := by decide

end Lox
