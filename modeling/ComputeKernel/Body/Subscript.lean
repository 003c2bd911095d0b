import ComputeKernel.Text.Blank
import ComputeKernel.Text.Bracket
import ComputeKernel.Text.Cut
import ComputeKernel.Text.Word

/-!
# Subscripts

A parameter is used by writing its name and one or more bracketed indices after it, and the use
may be the target of an assignment: `a[i]`, `a[i][j]`, `a[i] = v`, `a[i] += v`. The name counts
only where it is not part of a longer identifier and not a member of something else.

`occurrence?` reads one such use at the front of a text. `substitute` replaces every use in a text
by what a given function makes of it, after the uses inside the indices and the assigned value
were replaced. Reading a use makes the text shorter (`occurrence?_shorter`), which is why
substitution ends.
-/

namespace ComputeKernel.Body

open Text

/-- What is assigned to a subscripted name: `= value`, or `op= value` with an operator. -/
structure Assignment where
  op : Option Char
  value : List Char
  deriving DecidableEq, Repr

/-- A subscripted use of a name. -/
structure Subscript where
  indices : List (List Char)
  assign : Option Assignment
  deriving DecidableEq, Repr

/-- The bracketed indices at the front of a text, at most `max` of them, and what follows them. -/
def indexGroups : (max : Nat) → List Char → List (List Char) × List Char
  | 0, cs => ([], cs)
  | max + 1, cs =>
    match trimStart cs with
    | '[' :: r =>
      match splitClose 0 r with
      | some (inside, rest) =>
        let more := indexGroups max rest
        (inside :: more.1, more.2)
      | none => ([], cs)
    | _ => ([], cs)

/-- The operators that join with `=`. -/
def isOperator (c : Char) : Bool := c == '+' || c == '-' || c == '*' || c == '/'

/-- The assignment sign at the front of a text, as its operator, and what follows it. -/
def assignSign? (cs : List Char) : Option (Option Char × List Char) :=
  match trimStart cs with
  | '=' :: '=' :: _ => none
  | '=' :: r => some (none, r)
  | c :: '=' :: r => if isOperator c then some (some c, r) else none
  | _ => none

/-- The assignment at the front of a text with its value as written, and what follows it. -/
def assignment? (cs : List Char) : Option (Assignment × List Char) :=
  (assignSign? cs).map fun p =>
    let v := splitValue 0 p.2
    (⟨p.1, trim v.1⟩, v.2)

/-- Whether the character before a name makes the name part of something else. -/
def joinsName (before : Option Char) : Bool := before.any fun c => isIdent c || c == '.'

/-- The use of `name` at the front of a text, and what follows it. Indices and value are as
written. -/
def occurrence? (name : List Char) (max : Nat) : Recogniser Subscript := fun before cs =>
  match name with
  | [] => none
  | _ :: _ =>
    match after? name cs with
    | none => none
    | some r =>
      if joinsName before || r.head?.any isIdent then none
      else
        match indexGroups max r with
        | ([], _) => none
        | (i :: is, rest) =>
          match assignment? rest with
          | some (a, rest) => some (⟨i :: is, some a⟩, rest)
          | none => some (⟨i :: is, none⟩, rest)

section Shorter

theorem indexGroups_shorter {max : Nat} {cs rest : List Char} {is : List (List Char)}
    (h : indexGroups max cs = (is, rest)) :
    rest.length ≤ cs.length ∧ ∀ i ∈ is, i.length < cs.length := by
  induction max generalizing cs is rest with
  | zero =>
    simp only [indexGroups, Prod.mk.injEq] at h
    simp [← h.1, ← h.2]
  | succ max ih =>
    have keep : ∀ {x : List (List Char) × List Char}, x = ([], cs) → x = (is, rest) →
        rest.length ≤ cs.length ∧ ∀ i ∈ is, i.length < cs.length := by
      intro x hx hy
      simp only [hx, Prod.mk.injEq] at hy
      simp [← hy.1, ← hy.2]
    rw [indexGroups] at h
    split at h
    · rename_i r ht
      split at h
      · rename_i inside rest' hc
        obtain ⟨b, -, hr⟩ := splitClose_eq hc
        have hl : r.length + 1 ≤ cs.length := by
          have := length_trimStart_le cs
          rw [ht] at this
          simpa using this
        have hr' : r.length = inside.length + (rest'.length + 1) := by simp [hr]
        rcases hg : indexGroups max rest' with ⟨is', rest''⟩
        rw [hg] at h
        simp only [Prod.mk.injEq] at h
        have hm := ih hg
        rw [h.2] at hm
        rw [← h.1]
        refine ⟨by omega, ?_⟩
        intro i hi
        rcases List.mem_cons.1 hi with rfl | hi
        · omega
        · have := hm.2 i hi
          omega
      · exact keep rfl h
    · exact keep rfl h

theorem assignment?_shorter {cs rest : List Char} {a : Assignment}
    (h : assignment? cs = some (a, rest)) :
    rest.length < cs.length ∧ a.value.length < cs.length := by
  obtain ⟨⟨op, r⟩, hs, he⟩ := Option.map_eq_some_iff.1 h
  have hr : r.length + 1 ≤ cs.length := by
    have hl := length_trimStart_le cs
    rw [assignSign?] at hs
    split at hs
    · simp at hs
    · rename_i ht
      simp only [Option.some.injEq, Prod.mk.injEq] at hs
      rw [ht] at hl
      simpa [hs.2] using hl
    · rename_i ht
      split at hs
      · simp only [Option.some.injEq, Prod.mk.injEq] at hs
        rw [ht] at hl
        simp [hs.2] at hl
        omega
      · simp at hs
    · simp at hs
  have hv := congrArg List.length (splitValue_append 0 r)
  rw [List.length_append] at hv
  simp only [Prod.mk.injEq] at he
  have ht := length_trim_le (splitValue 0 r).1
  rw [← he.1, ← he.2]
  constructor
  · omega
  · show (trim (splitValue 0 r).1).length < cs.length
    omega

/-- A use takes up text, and so do its indices and its value. -/
theorem occurrence?_shorter {name : List Char} {max : Nat} {before : Option Char}
    {cs rest : List Char} {s : Subscript}
    (h : occurrence? name max before cs = some (s, rest)) :
    rest.length < cs.length ∧ (∀ i ∈ s.indices, i.length < cs.length) ∧
      ∀ a ∈ s.assign, a.value.length < cs.length := by
  unfold occurrence? at h
  split at h
  · simp at h
  · rename_i n ns
    split at h
    · simp at h
    · rename_i r hr
      have hl : r.length < cs.length := by
        rw [after?_eq_some hr, List.length_append, List.length_cons]
        omega
      split at h
      · simp at h
      · split at h
        · simp at h
        · rename_i i is rest' hg
          have hs := indexGroups_shorter hg
          have hi : ∀ j ∈ i :: is, j.length < cs.length := fun j hj => by
            have := hs.2 j hj
            omega
          split at h
          · rename_i a rest'' ha
            have hv := assignment?_shorter ha
            simp only [Option.some.injEq, Prod.mk.injEq] at h
            rw [← h.1, ← h.2]
            refine ⟨by omega, hi, ?_⟩
            intro b hb
            simp only [Option.mem_def, Option.some.injEq] at hb
            rw [← hb]
            omega
          · simp only [Option.some.injEq, Prod.mk.injEq] at h
            rw [← h.1, ← h.2]
            exact ⟨by omega, hi, by simp⟩

end Shorter

set_option linter.unusedVariables false in
/-- Replaces every use of `name` by what `f` makes of it, inner uses first. A name that is passed
over is passed over whole. -/
def substituteFrom (name : List Char) (max : Nat) (f : Subscript → List Char)
    (before : Option Char) (cs : List Char) : List Char :=
  match cs with
  | [] => []
  | c :: r =>
    match ho : occurrence? name max before (c :: r) with
    | some (s, rest) =>
      f ⟨s.indices.attach.map fun i => substituteFrom name max f none i.1,
          s.assign.attach.map fun a => ⟨a.1.op, substituteFrom name max f none a.1.value⟩⟩ ++
        substituteFrom name max f (consumed (c :: r) rest).getLast? rest
    | none =>
      match after? name (c :: r) with
      | some rest =>
        if rest.length < (c :: r).length then
          name ++ substituteFrom name max f name.getLast? rest
        else c :: substituteFrom name max f (some c) r
      | none => c :: substituteFrom name max f (some c) r
termination_by cs.length
decreasing_by
  · exact (occurrence?_shorter ho).2.1 i.1 i.2
  · exact (occurrence?_shorter ho).2.2 a.1 a.2
  · exact (occurrence?_shorter ho).1
  all_goals simp_all

/-- Replaces every use of `name` in a text, with at most `max` indices to a use. -/
def substitute (name : List Char) (max : Nat) (f : Subscript → List Char) (text : List Char) :
    List Char :=
  substituteFrom name max f none text

end ComputeKernel.Body
