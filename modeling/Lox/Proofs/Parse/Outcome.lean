-- SUMMARY: Total correctness of parser steps: how a phrase ends, and what it took until then.
import Lox.Parse.Grammar
import Lox.Proofs.Parse.Taking

/-!
## Outcomes

`Ends u p c ok broken` says that `p` has an outcome at `c`. With a value it took tokens that
satisfy `ok`, with an error tokens that satisfy `broken`, and the error was found at one of them or
at the next. The tokens `u` are those that the phrase took before `p`; both conditions speak of all
tokens of the phrase. There is one rule for each step of the parser, so that the proofs about the
grammar follow its functions from top to bottom.
-/

namespace Lox

namespace Parse

variable {α β : Type}

def Ends (u : List Token) (p : Parse α) (c : Cursor) (ok : α → List Token → Kind → Prop)
    (broken : List Token → Prop) : Prop :=
  (∃ a w d, p c = some (.ok a, d) ∧ c.Takes w d ∧ ok a (u ++ w) d.current.kind) ∨
    ∃ e w d, p c = some (.error e, d) ∧ c.Takes w d ∧ broken (u ++ w) ∧
      (e.found ∈ u ++ w ∨ e.found = d.current)

namespace Ends

variable {u : List Token} {p : Parse α} {f : α → Parse β} {c : Cursor}
  {ok : α → List Token → Kind → Prop} {ok' : β → List Token → Kind → Prop}
  {broken broken' : List Token → Prop}

theorem ne_none (h : Ends u p c ok broken) : p c ≠ none := by
  rcases h with ⟨a, w, d, h, -⟩ | ⟨e, w, d, h, -⟩ <;> simp [h]

theorem pure {a : α} (h : ok a u c.current.kind) : Ends u (Pure.pure a) c ok broken :=
  .inl ⟨a, [], c, rfl, .refl c, by rwa [List.append_nil]⟩

theorem fail {e : ParseError} (h : broken u) (he : e.found ∈ u ∨ e.found = c.current) :
    Ends u (Attempt.fail e) c ok broken :=
  .inr ⟨e, [], c, rfl, .refl c, by rwa [List.append_nil], by rwa [List.append_nil]⟩

/-- The rule for two steps, the first of which is known from its own beginning. -/
theorem bind (hp : Ends [] p c ok broken) (hb : ∀ w, broken w → broken' (u ++ w))
    (hf : ∀ a w m, c.Takes w m → ok a w m.current.kind → Ends (u ++ w) (f a) m ok' broken') :
    Ends u (p >>= f) c ok' broken' := by
  rcases hp with ⟨a, w, m, hpc, hw, ha⟩ | ⟨e, w, m, hpc, hw, he, hfound⟩
  · rcases hf a w m hw ha with ⟨b, v, d, hfc, hv, hb⟩ | ⟨e, v, d, hfc, hv, he, hfound⟩
    · refine .inl ⟨b, w ++ v, d, ?_, hw.trans hv, by rwa [← List.append_assoc]⟩
      rw [Attempt.bind_apply, hpc]
      exact hfc
    · refine .inr ⟨e, w ++ v, d, ?_, hw.trans hv, by rwa [← List.append_assoc],
        by rwa [← List.append_assoc]⟩
      rw [Attempt.bind_apply, hpc]
      exact hfc
  · refine .inr ⟨e, w, m, ?_, hw, hb w he, hfound.imp_left (List.mem_append_right u)⟩
    rw [Attempt.bind_apply, hpc]

/-- The rule for a last step. -/
theorem last {ok₁ : α → List Token → Kind → Prop} (hp : Ends [] p c ok₁ broken)
    (hb : ∀ w, broken w → broken' (u ++ w)) (ho : ∀ a w k, ok₁ a w k → ok a (u ++ w) k) :
    Ends u p c ok broken' := by
  rcases hp with ⟨a, w, d, hpc, hw, ha⟩ | ⟨e, w, d, hpc, hw, he, hfound⟩
  · exact .inl ⟨a, w, d, hpc, hw, ho _ _ _ ha⟩
  · exact .inr ⟨e, w, d, hpc, hw, hb w he, hfound.imp_left (List.mem_append_right u)⟩

theorem current {f : Token → Parse β} (h : Ends u (f c.current) c ok' broken) :
    Ends u (Parse.current >>= f) c ok' broken :=
  h

theorem atEnd {f : Bool → Parse β} (h : Ends u (f c.atEnd) c ok' broken) :
    Ends u (Parse.atEnd >>= f) c ok' broken :=
  h

theorem sees {f : Bool → Parse β} {kind : Kind}
    (ht : c.current.kind = kind → Ends u (f true) c ok' broken)
    (hf : c.current.kind ≠ kind → Ends u (f false) c ok' broken) :
    Ends u (Parse.sees kind >>= f) c ok' broken := by
  by_cases h : c.current.kind = kind
  · have hs : c.sees kind = true := Cursor.sees_eq_true_iff.2 h
    have := ht h
    rw [← hs] at this
    exact this
  · have hs : c.sees kind = false := Cursor.sees_eq_false_iff.2 h
    have := hf h
    rw [← hs] at this
    exact this

theorem advance {f : Token → Parse β} (hc : c.current.kind ≠ .endOfFile)
    (h : ∀ t m, t.kind = c.current.kind → c.Takes [t] m → Ends (u ++ [t]) (f t) m ok' broken) :
    Ends u (Parse.advance >>= f) c ok' broken := by
  have hstep : Ends [] Parse.advance c (fun t w _ => w = [t] ∧ t = c.current) fun _ => False :=
    .inl ⟨c.current, [c.current], c.next, rfl, Cursor.next_takes hc, rfl, rfl⟩
  refine hstep.bind (fun w hw => hw.elim) ?_
  rintro t _ m ht ⟨rfl, rfl⟩
  exact h _ m rfl ht

theorem eat {f : Bool → Parse β} {kind : Kind}
    (ht : ∀ t m, t.kind = kind → c.Takes [t] m → Ends (u ++ [t]) (f true) m ok' broken)
    (hf : c.current.kind ≠ kind → Ends u (f false) c ok' broken)
    (hk : kind ≠ .endOfFile := by decide) :
    Ends u (Parse.eat kind >>= f) c ok' broken := by
  by_cases h : c.current.kind = kind
  · have hstep : Ends [] (Parse.eat kind) c (fun b w _ => b = true ∧ w = [c.current])
        fun _ => False :=
      .inl ⟨true, [c.current], c.next, by simp [Parse.eat, Cursor.eat, Cursor.sees, h],
        Cursor.next_takes (h ▸ hk), rfl, rfl⟩
    refine hstep.bind (fun w hw => hw.elim) ?_
    rintro _ _ m hm ⟨rfl, rfl⟩
    exact ht _ m h hm
  · have hstep : Ends [] (Parse.eat kind) c (fun b w _ => b = false ∧ w = []) fun _ => False :=
      .inl ⟨false, [], c, by simp [Parse.eat, Cursor.eat, Cursor.sees, h], .refl c, rfl, rfl⟩
    refine hstep.bind (fun w hw => hw.elim) ?_
    rintro _ _ m hm ⟨rfl, rfl⟩
    rw [hm.current_of_nil, List.append_nil]
    exact hf h

theorem expect {f : Token → Parse β} {kind : Kind} {expected : String} (hb : broken u)
    (ht : ∀ t m, t.kind = kind → c.Takes [t] m → Ends (u ++ [t]) (f t) m ok' broken)
    (hk : kind ≠ .endOfFile := by decide) :
    Ends u (Parse.expect kind expected >>= f) c ok' broken := by
  by_cases h : c.current.kind = kind
  · have hstep : Ends [] (Parse.expect kind expected) c (fun t w _ => w = [t] ∧ t = c.current)
        fun _ => False :=
      .inl ⟨c.current, [c.current], c.next,
        by simp [Parse.expect, Cursor.expect, Cursor.sees, h], Cursor.next_takes (h ▸ hk), rfl, rfl⟩
    refine hstep.bind (fun w hw => hw.elim) ?_
    rintro t _ m hm ⟨rfl, rfl⟩
    exact ht _ m h hm
  · refine .inr ⟨⟨.unexpectedToken expected, c.current⟩, [], c, ?_, .refl c,
      by rwa [List.append_nil], .inr rfl⟩
    simp [Attempt.bind_apply, Parse.expect, Cursor.expect, Cursor.sees, h]

theorem expectIdentifier {f : Token → Parse β} {expected : String} (hb : broken u)
    (ht : ∀ t m, t.kind = .identifier → c.Takes [t] m → Ends (u ++ [t]) (f t) m ok' broken) :
    Ends u (Parse.expectIdentifier expected >>= f) c ok' broken := by
  by_cases h : c.current.kind = .identifier
  · have hstep : Ends [] (Parse.expectIdentifier expected) c
        (fun t w _ => w = [t] ∧ t = c.current) fun _ => False :=
      .inl ⟨c.current, [c.current], c.next,
        by simp [Parse.expectIdentifier, Cursor.expectIdentifier, Cursor.sees, h],
        Cursor.next_takes (h ▸ by decide), rfl, rfl⟩
    refine hstep.bind (fun w hw => hw.elim) ?_
    rintro t _ m hm ⟨rfl, rfl⟩
    exact ht _ m h hm
  · refine .inr ⟨⟨.expectedIdentifier expected, c.current⟩, [], c, ?_, .refl c,
      by rwa [List.append_nil], .inr rfl⟩
    simp [Attempt.bind_apply, Parse.expectIdentifier, Cursor.expectIdentifier, Cursor.sees, h]

theorem declaredName {f : Name → Parse β} {expected : String} (hb : broken u)
    (ht : ∀ t m, t.kind = .identifier → c.Takes [t] m →
      Ends (u ++ [t]) (f ⟨t.lexeme, t.line⟩) m ok' broken) :
    Ends u (Parse.declaredName expected >>= f) c ok' broken := by
  have hname : Ends [] (Parse.declaredName expected) c
      (fun name w _ => ∃ t, t.kind = .identifier ∧ w = [t] ∧ name = ⟨t.lexeme, t.line⟩)
      (fun w => w = []) :=
    expectIdentifier rfl fun t m hk _ => .pure ⟨t, hk, rfl, rfl⟩
  apply hname.bind (by rintro _ rfl; rwa [List.append_nil])
  rintro _ _ m hm ⟨t, hk, rfl, rfl⟩
  exact ht t m hk hm

end Ends

end Parse

end Lox
