/-!
# Cutting a text

A *recogniser* looks at one position of a text: it is given the character before the position, if
there is one, and the text from it on, and it may answer with what it found there and the text
after it. `cut` runs a recogniser over a whole text from left to right and cuts it into
characters that nothing was found at and spans that were recognised. Spans do not overlap, and
the pieces put together are the text (`flatMap_text_cut`).
-/

namespace ComputeKernel.Text

/-- What follows `word` in a text that starts with it. -/
def after? : (word : List Char) → List Char → Option (List Char)
  | [], cs => some cs
  | _ :: _, [] => none
  | w :: ws, c :: cs => if w = c then after? ws cs else none

theorem after?_eq_some {word cs rest : List Char} (h : after? word cs = some rest) :
    cs = word ++ rest := by
  induction word generalizing cs with
  | nil => simpa [after?] using h
  | cons w ws ih =>
    cases cs with
    | nil => simp [after?] at h
    | cons c cs =>
      rw [after?] at h
      split at h
      · rename_i hc
        rw [ih h, hc]
        rfl
      · simp at h

/-- What is found at a position, from the character before it and the text from it on. -/
abbrev Recogniser (α : Type) := Option Char → List Char → Option (α × List Char)

/-- A character that nothing was found at, or a recognised span. -/
inductive Piece (α : Type) where
  | char (c : Char)
  | found (span : List Char) (value : α)

/-- The text of a piece. -/
def Piece.text {α : Type} : Piece α → List Char
  | .char c => [c]
  | .found span _ => span

/-- The part of a text before what is left of it. -/
def consumed (cs rest : List Char) : List Char := cs.take (cs.length - rest.length)

theorem consumed_append (cs rest : List Char) : consumed (cs ++ rest) rest = cs := by
  simp [consumed]

/-- Cuts a text into pieces, `before` being the character that stands before it. -/
def cut {α : Type} (find : Recogniser α) (before : Option Char) (cs : List Char) :
    List (Piece α) :=
  match cs with
  | [] => []
  | c :: r =>
    match find before (c :: r) with
    | none => .char c :: cut find (some c) r
    | some (a, rest) =>
      if rest.length < (c :: r).length then
        let span := consumed (c :: r) rest
        .found span a :: cut find span.getLast? ((c :: r).drop ((c :: r).length - rest.length))
      else .char c :: cut find (some c) r
termination_by cs.length
decreasing_by all_goals grind

/-- No character is lost. -/
theorem flatMap_text_cut {α : Type} (find : Recogniser α) (before : Option Char)
    (cs : List Char) : (cut find before cs).flatMap Piece.text = cs := by
  fun_induction cut find before cs with
  | case1 => rfl
  | case2 _ c r _ ih => simp [Piece.text, ih]
  | case3 _ c r _ _ _ _ _ ih => rw [List.flatMap_cons, ih]; exact List.take_append_drop _ _
  | case4 _ c r _ _ _ _ ih => simp [Piece.text, ih]

/-- What was found, in order. -/
def findAll {α : Type} (find : Recogniser α) (cs : List Char) : List α :=
  (cut find none cs).filterMap fun
    | .char _ => none
    | .found _ a => some a

/-- The recognised spans, in order. -/
def spans {α : Type} (find : Recogniser α) (cs : List Char) : List (List Char) :=
  (cut find none cs).filterMap fun
    | .char _ => none
    | .found span _ => some span

/-- The text with another text in the place of each span for which `replace` gives one. -/
def replaceAll {α : Type} (find : Recogniser α) (replace : α → Option (List Char))
    (cs : List Char) : List Char :=
  (cut find none cs).flatMap fun
    | .char c => [c]
    | .found span a => (replace a).getD span

end ComputeKernel.Text
