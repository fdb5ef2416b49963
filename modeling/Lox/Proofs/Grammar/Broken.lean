-- SUMMARY: What was taken of a declaration before a syntax error in it.
import Lox.Parse.Recovery
import Lox.Proofs.Grammar.DerivationShape

/-!
# Broken declarations

The counterpart of the grammar for declarations that fail. `BrokenDeclaration w` says that `w` can
be what the parser took of a declaration up to the error: derivable parts, and the beginning of one
more. The relation is coarser than the parser inside simple statements and heads, where only the
brackets count. What it is made for is the last part: a broken declaration is never terminated, and
it is undivided as a derivable one is.
-/

namespace Lox

open BracketSort

namespace Grammar

/-- The head of a statement that has a body. -/
inductive Header : List Token → Prop where
  | ifHead {w condition line} (h : Guard .kwIf w condition line) : Header w
  | whileHead {w condition line} (h : Guard .kwWhile w condition line) : Header w
  | forHead {w initial condition update line}
      (h : ForHeader w initial condition update line) : Header w

/-- The keywords of such heads. -/
def startsHeader : Kind → Bool
  | .kwFor | .kwIf | .kwWhile => true
  | _ => false

mutual

inductive BrokenStatement : List Token → Prop where
  | simple {w} (h : Fragmentary w) : BrokenStatement w
  | header {start opening w} (hs : startsHeader start.kind = true)
      (ho : opening.kind = .leftParen) (hb : braces.Absent w) (hp : parens.Safe w) :
      BrokenStatement (start :: opening :: w)
  | body {u v} (hu : Header u) (hv : BrokenStatement v) : BrokenStatement (u ++ v)
  | otherBranch {u condition line v yes other w} (hu : Guard .kwIf u condition line)
      (hv : Statement v .kwElse yes) (ho : other.kind = .kwElse) (hw : BrokenStatement w) :
      BrokenStatement (u ++ (v ++ other :: w))
  | block {opening w} (ho : opening.kind = .leftBrace) (h : BrokenBody w) :
      BrokenStatement (opening :: w)

inductive BrokenDeclaration : List Token → Prop where
  | simple {w} (h : Fragmentary w) : BrokenDeclaration w
  | function {u name names line opening w} (hu : FunctionHead u name names line)
      (ho : opening.kind = .leftBrace) (h : BrokenBody w) : BrokenDeclaration (u ++ opening :: w)
  | statement {w} (h : BrokenStatement w) : BrokenDeclaration w

/-- The beginning of a block behind its brace. -/
inductive BrokenBody : List Token → Prop where
  | unclosed : BrokenBody []
  | first {w} (h : BrokenDeclaration w) : BrokenBody w
  | more {w next s v} (h : Declaration w next s) (hv : BrokenBody v) : BrokenBody (w ++ v)

end

theorem BrokenStatement.fragment {start opening w} (hs : startsHeader start.kind = true)
    (ho : opening.kind = .leftParen) (hw : Fragmentary w) :
    BrokenStatement (start :: opening :: w) :=
  .header hs ho hw.inline.braces_absent hw.parens

theorem Header.lead {w} (h : Header w) : Lead w := by
  cases h with
  | ifHead h | whileHead h => exact (h.plain rfl).lead
  | forHead h => exact h.lead.1

theorem Header.first {w} (h : Header w) : StartsWith startsHeader w := by
  cases h with
  | ifHead h | whileHead h | forHead h => exact h.first.mono fun k hk => by rw [eq_of_beq hk]; rfl

theorem isPlain_of_startsHeader (k : Kind) (h : startsHeader k = true) : k.isPlain = true := by
  cases k <;> first | rfl | cases h

theorem startsCompound_of_startsHeader (k : Kind) (h : startsHeader k = true) :
    k.startsCompound = true := by
  cases k <;> first | rfl | cases h

/-- Only what may hold statements can be broken off behind a semicolon or a brace. -/
theorem BrokenStatement.first {w} (h : BrokenStatement w) :
    Fragmentary w ∨ StartsWith Kind.startsCompound w := by
  cases h with
  | simple h => exact .inl h
  | header hs => exact .inr ⟨_, _, rfl, startsCompound_of_startsHeader _ hs⟩
  | body hu => exact .inr ((hu.first.append _).mono startsCompound_of_startsHeader)
  | otherBranch hu => exact .inr ((hu.first.append _).mono fun k hk => by rw [eq_of_beq hk]; rfl)
  | block ho => exact .inr ⟨_, _, rfl, by rw [ho]; rfl⟩

theorem BrokenDeclaration.first {w} (h : BrokenDeclaration w) :
    Fragmentary w ∨ StartsWith Kind.startsCompound w := by
  cases h with
  | simple h => exact .inl h
  | function hu => exact .inr ((hu.first.append _).mono fun k hk => by rw [eq_of_beq hk]; rfl)
  | statement h => exact h.first

mutual

theorem BrokenStatement.cut {w} : BrokenStatement w → Cut w
  | .simple h => h.cut
  | @BrokenStatement.header start opening w hs ho hb hp => by
    have hlead : Lead [start] := (Plain.single rfl (isPlain_of_startsHeader _ hs)).lead
    have habsent : BracketSort.braces.Absent (opening :: w) :=
      List.forall_mem_cons.2 ⟨by simp [ho], hb⟩
    have hcut : Cut (opening :: w) :=
      .of_openEnded (.in_parens ho hb hp) habsent.balanced.safe (hp.cons_opening ho)
    exact hcut.after hlead
  | .body hu hv => hv.cut.after hu.lead
  | .otherBranch hu hv ho hw => (hw.cut.after_else hv.whole ho).after (hu.plain rfl).lead
  | .block ho h => .block ho h.safe.1 h.safe.2

theorem BrokenDeclaration.cut {w} : BrokenDeclaration w → Cut w
  | .simple h => h.cut
  | .function hu ho h => (Cut.block ho h.safe.1 h.safe.2).after hu.plain.lead
  | .statement h => h.cut

theorem BrokenBody.safe {w} : BrokenBody w → braces.Safe w ∧ parens.Safe w
  | .unclosed => ⟨Balanced.nil.safe, Balanced.nil.safe⟩
  | .first h => ⟨h.cut.braces, h.cut.parens⟩
  | .more h hv =>
    ⟨h.whole.braces.safe.append hv.safe.1, h.whole.parens.safe.append hv.safe.2⟩

end

end Grammar

end Lox
