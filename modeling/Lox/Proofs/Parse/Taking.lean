-- SUMMARY: What it means that a cursor takes tokens.
import Lox.Parse.Cursor

/-!
## Taking tokens

Every step of the parser takes some tokens off the rest, and none of them ends the list. `Takes`
names these tokens, so that the lemmas about phrases can speak of token lists and not of cursors.
-/

namespace Lox

/-- The kind of the first of `ts`, or `next` if there is none. -/
def firstKind (ts : List Token) (next : Kind) : Kind :=
  (ts.head?.map Token.kind).getD next

theorem firstKind_append (u v : List Token) (next : Kind) :
    firstKind (u ++ v) next = firstKind u (firstKind v next) := by
  cases u <;> rfl

/-- The tokens before the first one that ends the list. -/
def beforeEnd (ts : List Token) : List Token :=
  ts.takeWhile fun t => t.kind != .endOfFile

theorem beforeEnd_append {w : List Token} (h : ∀ t ∈ w, t.kind ≠ .endOfFile) (ts : List Token) :
    beforeEnd (w ++ ts) = w ++ beforeEnd ts :=
  List.takeWhile_append_of_pos fun t ht => by simpa using h t ht

theorem firstKind_beforeEnd (ts : List Token) :
    firstKind (beforeEnd ts) .endOfFile = firstKind ts .endOfFile := by
  cases ts with
  | nil => rfl
  | cons t ts => by_cases h : t.kind = .endOfFile <;> simp [beforeEnd, firstKind, h]

theorem beforeEnd_of_end {ts : List Token} (h : firstKind ts .endOfFile = .endOfFile) :
    beforeEnd ts = [] := by
  cases ts with
  | nil => rfl
  | cons t ts =>
    have ht : t.kind = .endOfFile := h
    simp [beforeEnd, ht]

/-- Behind them stands the end. -/
theorem beforeEnd_eq_append (ts : List Token) :
    ∃ rest, ts = beforeEnd ts ++ rest ∧ firstKind rest .endOfFile = .endOfFile := by
  refine ⟨ts.dropWhile fun t => t.kind != .endOfFile, List.takeWhile_append_dropWhile.symm, ?_⟩
  have hhead := List.head?_dropWhile_not (fun t : Token => t.kind != .endOfFile) ts
  cases h : ts.dropWhile fun t => t.kind != .endOfFile with
  | nil => rfl
  | cons t rest => simpa [h, firstKind] using hhead

namespace Cursor

/-- From `c` to `d` the tokens `w` are taken. -/
structure Takes (c : Cursor) (w : List Token) (d : Cursor) : Prop where
  rest_eq : c.rest = w ++ d.rest
  taken_eq : d.taken = w.reverse ++ c.taken
  no_end : ∀ t ∈ w, t.kind ≠ .endOfFile

namespace Takes

variable {c d m : Cursor} {u v w : List Token}

@[simp] protected theorem refl (c : Cursor) : c.Takes [] c :=
  ⟨rfl, rfl, by simp⟩

protected theorem trans (h₁ : c.Takes u m) (h₂ : m.Takes v d) : c.Takes (u ++ v) d where
  rest_eq := by rw [h₁.rest_eq, h₂.rest_eq, List.append_assoc]
  taken_eq := by rw [h₂.taken_eq, h₁.taken_eq, List.reverse_append, List.append_assoc]
  no_end := by
    intro t ht
    rcases List.mem_append.1 ht with ht | ht
    · exact h₁.no_end t ht
    · exact h₂.no_end t ht

/-- A list of tokens without an end can be taken off any rest. -/
theorem of_append (taken w rest : List Token) (h : ∀ t ∈ w, t.kind ≠ .endOfFile) :
    Takes ⟨taken, w ++ rest⟩ w ⟨w.reverse ++ taken, rest⟩ :=
  ⟨rfl, rfl, h⟩

/-- The tokens determine where the cursor ends. -/
theorem unique (h : c.Takes w d) (h' : c.Takes w m) : d = m := by
  have hrest : d.rest = m.rest := List.append_cancel_left (h.rest_eq.symm.trans h'.rest_eq)
  have htaken : d.taken = m.taken := by rw [h.taken_eq, h'.taken_eq]
  cases d; cases m; simp_all

/-- The cursor determines which tokens were taken. -/
theorem tokens_unique (h : c.Takes u d) (h' : c.Takes v d) : u = v :=
  List.append_cancel_right (h.rest_eq.symm.trans h'.rest_eq)

/-- On the way there is a place behind every first part of the tokens. -/
theorem split (h : c.Takes (u ++ v) d) : ∃ m, c.Takes u m ∧ m.Takes v d := by
  refine ⟨⟨u.reverse ++ c.taken, v ++ d.rest⟩, ⟨?_, rfl, ?_⟩, ⟨rfl, ?_, ?_⟩⟩
  · rw [h.rest_eq, List.append_assoc]
  · exact fun t ht => h.no_end t (List.mem_append_left v ht)
  · rw [h.taken_eq, List.reverse_append, List.append_assoc]
  · exact fun t ht => h.no_end t (List.mem_append_right u ht)

theorem split_cons {t : Token} (h : c.Takes (t :: v) d) : ∃ m, c.Takes [t] m ∧ m.Takes v d :=
  split (u := [t]) h

theorem rest_unique {r : List Token} (h : c.Takes w d) (hr : c.rest = w ++ r) : d.rest = r :=
  List.append_cancel_left (h.rest_eq.symm.trans hr)

/-- The token behind some of the tokens is the first one of the rest there. -/
theorem firstKind_rest {t : Token} {r : List Token} {k : Kind} (h : c.Takes (u ++ t :: v) d)
    (hr : c.rest = u ++ r) : firstKind r k = t.kind := by
  have hrest := h.rest_eq.symm.trans hr
  rw [List.append_assoc] at hrest
  rw [← List.append_cancel_left hrest]
  rfl

theorem length_rest (h : c.Takes w d) : c.rest.length = w.length + d.rest.length := by
  rw [h.rest_eq, List.length_append]

theorem length_rest_one {t : Token} (h : c.Takes [t] d) : c.rest.length = d.rest.length + 1 := by
  rw [h.length_rest, List.length_singleton, Nat.add_comm]

theorem position_eq (h : c.Takes w d) : d.position = c.position + w.length := by
  simp [position, h.taken_eq, Nat.add_comm]

theorem takenSince_eq (h : c.Takes w d) : d.takenSince c.position = w := by
  simp [takenSince, position, h.taken_eq]

theorem current_of_nil (h : c.Takes [] d) : d = c :=
  h.unique (Takes.refl c)

/-- The first token that is taken is the one that was seen before. -/
theorem current_of_cons {t : Token} (h : c.Takes (t :: w) d) : c.current = t := by
  simp [current, h.rest_eq]

/-- Nothing is taken past a place where the list ends. -/
theorem before_end (h : c.Takes v d) (hd : d.current.kind = .endOfFile) (hw : c.Takes w m) :
    v = w ∨ ∃ t u, v = w ++ t :: u := by
  have hpv : v <+: c.rest := ⟨d.rest, h.rest_eq.symm⟩
  have hpw : w <+: c.rest := ⟨m.rest, hw.rest_eq.symm⟩
  rcases List.prefix_or_prefix_of_prefix hpv hpw with ⟨u, rfl⟩ | ⟨u, rfl⟩
  · cases u with
    | nil => simp
    | cons t u =>
      obtain ⟨k, hk, hkm⟩ := hw.split
      obtain rfl := hk.unique h
      exact absurd (hkm.current_of_cons ▸ hd) (hkm.no_end t (by simp))
  · cases u with
    | nil => simp
    | cons t u => exact .inr ⟨t, u, rfl⟩

end Takes

theorem current_kind (c : Cursor) : c.current.kind = firstKind c.rest .endOfFile := by
  cases h : c.rest <;> simp [current, firstKind, h, Token.endOfFile]

theorem atEnd_eq_false_iff {c : Cursor} : c.atEnd = false ↔ c.current.kind ≠ .endOfFile := by
  simp [atEnd]

theorem atEnd_eq_true_iff {c : Cursor} :
    c.atEnd = true ↔ firstKind c.rest .endOfFile = .endOfFile := by
  rw [← current_kind]
  simp [atEnd]

theorem sees_eq_true_iff {c : Cursor} {kind : Kind} :
    c.sees kind = true ↔ c.current.kind = kind := by
  simp [sees]

theorem sees_eq_false_iff {c : Cursor} {kind : Kind} :
    c.sees kind = false ↔ c.current.kind ≠ kind := by
  simp [sees]

/-- The token before which some tokens are taken. -/
theorem Takes.current_kind {c d : Cursor} {w : List Token} (h : c.Takes w d) :
    c.current.kind = firstKind w d.current.kind := by
  cases w with
  | nil => rw [h.current_of_nil]; rfl
  | cons t w => rw [h.current_of_cons]; rfl

theorem next_takes {c : Cursor} (h : c.current.kind ≠ .endOfFile) : c.Takes [c.current] c.next := by
  unfold next
  split
  · next hr => simp [current, hr, Token.endOfFile] at h
  · next t ts hr =>
    have ht : c.current = t := by simp [current, hr]
    rw [ht] at h ⊢
    rw [if_neg h]
    exact ⟨hr, rfl, by simpa using h⟩

theorem next_eq_self {c : Cursor} (h : c.current.kind = .endOfFile) : c.next = c := by
  unfold next
  split
  · rfl
  · next t ts hr =>
    have ht : c.current = t := by simp [current, hr]
    rw [if_pos (ht ▸ h)]

end Cursor

end Lox
