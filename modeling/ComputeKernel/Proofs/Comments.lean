import ComputeKernel.Proofs.Division
import ComputeKernel.Shader.Program

/-!
# Texts without comments

Stripping takes comments out of a text from left to right, and none comes about where one was taken
out: a block comment leaves a blank and a line comment is followed by the end of its line, so no `/`
and no `*` gets a new neighbour (`CommentDivision.front`). What is left of a text has no comment in
it (`commentFree_stripComments`), and a text without comments is left as it is
(`stripComments_eq_self`). So a body can be stripped before it is handed over.
-/

namespace ComputeKernel.Body

open Text

section Readers

variable {b : Option Char} {k : Comment} {rest v x : List Char}

/-- A comment as it is written, with the text after it. A block comment ends with the first `*/`
behind its opening, a line comment at the end of its line. -/
inductive IsComment : List Char → List Char → Comment → Prop
  | block {v rest : List Char} (hv : ¬ ['*', '/'] <:+: v ++ ['*']) :
    IsComment ('/' :: '*' :: (v ++ ['*', '/'])) rest .block
  | line {v rest : List Char} (hv : '\n' ∉ v) (hr : ∀ c ∈ rest.head?, c = '\n') :
    IsComment ('/' :: '/' :: v) rest .line

theorem IsComment.ne_nil (h : IsComment v rest k) : v ≠ [] := by
  cases h <;> exact List.cons_ne_nil _ _

theorem IsComment.head? (h : IsComment v rest k) : v.head? = some '/' := by
  cases h <;> rfl

theorem afterBlock?_eq_none : afterBlock? x = none ↔ ¬ ['*', '/'] <:+: x := by
  fun_induction afterBlock? x with
  | case1 r => simpa using (List.prefix_append ['*', '/'] r).isInfix
  | case2 c r hc ih =>
    rw [ih, List.infix_cons_iff, not_or]
    refine ⟨fun h => ⟨fun hp => ?_, h⟩, fun h => h.2⟩
    obtain ⟨r', hr'⟩ := hp
    exact hc r' (by simpa using (List.cons.inj hr').1.symm) (List.cons.inj hr').2.symm
  | case3 => simp

/-- What follows a block comment stands behind the first `*/`. -/
theorem afterBlock?_iff : afterBlock? x = some rest ↔
    ∃ v, x = v ++ '*' :: '/' :: rest ∧ ¬ ['*', '/'] <:+: v ++ ['*'] := by
  fun_induction afterBlock? x with
  | case1 r =>
    constructor
    · rintro ⟨⟩
      exact ⟨[], rfl, by decide⟩
    · rintro ⟨v, hx, hv⟩
      rcases v with _ | ⟨d, _ | ⟨e, v⟩⟩
      · cases hx
        rfl
      · simp at hx
      · obtain ⟨rfl, rfl, -⟩ : '*' = d ∧ '/' = e ∧ _ := by simpa using hx
        exact absurd (List.prefix_append ['*', '/'] (v ++ ['*'])).isInfix hv
  | case2 c r hc ih =>
    rw [ih]
    constructor
    · rintro ⟨v, rfl, hv⟩
      refine ⟨c :: v, rfl, fun h => ?_⟩
      rcases List.infix_cons_iff.1 h with ⟨w, hw⟩ | h
      · -- A closing that starts at `c` would go on in the text.
        obtain ⟨rfl, hv'⟩ : '*' = c ∧ '/' :: w = v ++ ['*'] := by simpa using hw
        cases v with
        | nil => simp at hv'
        | cons d v =>
          obtain ⟨rfl, -⟩ := List.cons.inj hv'
          exact hc _ rfl rfl
      · exact hv h
    · rintro ⟨v, hx, hv⟩
      cases v with
      | nil =>
        obtain ⟨rfl, rfl⟩ := List.cons.inj hx
        exact absurd rfl (hc rest rfl)
      | cons d v =>
        obtain ⟨rfl, rfl⟩ := List.cons.inj hx
        exact ⟨v, rfl, fun h => hv (h.trans (List.suffix_cons c _).isInfix)⟩
  | case3 => simp

theorem comment?_iff :
    comment? b x = some (k, rest) ↔ ∃ span, x = span ++ rest ∧ IsComment span rest k := by
  fun_cases comment? b x with
  | case1 _ r =>
    constructor
    · intro h
      obtain ⟨r', hr, h⟩ := Option.map_eq_some_iff.1 h
      cases h
      obtain ⟨v, rfl, hv⟩ := afterBlock?_iff.1 hr
      exact ⟨_, by simp, .block hv⟩
    · rintro ⟨span, hx, h⟩
      cases h with
      | @block v _ hv =>
        have hr : r = v ++ '*' :: '/' :: rest := by simpa using hx
        rw [afterBlock?_iff.2 ⟨v, hr, hv⟩]
        rfl
      | line => simp at hx
  | case2 _ r =>
    constructor
    · intro h
      cases h
      refine ⟨'/' :: '/' :: r.takeWhile (· != '\n'), ?_, .line (fun hm => ?_) (fun c hc => ?_)⟩
      · rw [List.cons_append, List.cons_append, List.takeWhile_append_dropWhile]
      · simpa using List.all_eq_true.1 List.all_takeWhile _ hm
      · have hnot := List.head?_dropWhile_not (· != '\n') r
        rw [Option.mem_def.1 hc] at hnot
        simpa using hnot
    · rintro ⟨span, hx, h⟩
      cases h with
      | block => simp at hx
      | @line v _ hv hr =>
        obtain rfl : r = v ++ rest := by simpa using hx
        have hrest : rest.dropWhile (· != '\n') = rest := by
          cases rest with
          | nil => rfl
          | cons c rest => simp [hr c rfl]
        rw [List.dropWhile_append_of_pos fun c hc => by simpa using fun h : c = '\n' => hv (h ▸ hc),
          hrest]
  | case3 _ _ hb hl =>
    refine ⟨fun h => (by cases h), ?_⟩
    rintro ⟨span, rfl, h⟩
    cases h with
    | block => exact absurd rfl (hb _)
    | line => exact absurd rfl (hl _)

end Readers

section Stripping

variable {c : Char} {ps : List (Piece Comment)} {text u x y : List Char}

/-- A text that stands after `u`, divided by its comments. -/
abbrev CommentDivision (u x : List Char) (ps : List (Piece Comment)) : Prop :=
  Divides (fun _ => IsComment) (NothingAt fun _ => IsComment) u x ps

theorem divides_stripComments (text : List Char) :
    ∃ ps, CommentDivision [] text ps ∧ stripComments text = filled Comment.trace ps := by
  refine ⟨cut comment? none text, ?_, ?_⟩
  · exact divides_cut (fun _ => IsComment) (fun _ _ _ _ => comment?_iff) (fun _ _ _ _ h => h.ne_nil)
      [] text
  · refine congrArg (List.flatMap · _) (funext fun piece => ?_)
    cases piece <;> rfl

theorem comment?_of_nothingAt (h : NothingAt (fun _ => IsComment) u x) :
    comment? none x = none := by
  rcases hc : comment? none x with _ | ⟨k, rest⟩
  · rfl
  · obtain ⟨span, hx, hs⟩ := comment?_iff.1 hc
    exact absurd hs (h span rest k hx)

/-- A character of what is left of a text that is neither a blank nor the end of a line was kept,
and what is left after it is left of what stood after it. -/
theorem CommentDivision.front (h : CommentDivision u x ps)
    (hy : filled Comment.trace ps = c :: y) (hb : c ≠ ' ') (hn : c ≠ '\n') :
    ∃ x' ps', x = c :: x' ∧ comment? none x = none ∧ CommentDivision (u ++ [c]) x' ps' ∧
      filled Comment.trace ps' = y := by
  cases h with
  | nil => cases hy
  | @char _ x' _ ps' hk h =>
    obtain ⟨rfl, rfl⟩ := List.cons.inj hy
    exact ⟨x', ps', rfl, comment?_of_nothingAt hk, h, rfl⟩
  | found hf h =>
    cases hf with
    | block => exact absurd (List.cons.inj hy).1.symm hb
    | line hv hr =>
      -- The end of the line or of the text comes next, and it is kept.
      cases h with
      | nil => cases hy
      | char => exact absurd ((List.cons.inj hy).1.symm.trans (hr _ rfl)) hn
      | @found _ span x _ _ hf =>
        have hslash : (span ++ x).head? = some '/' := by
          rw [List.head?_append, hf.head?]
          rfl
        exact absurd (hr '/' hslash) (by decide)

/-- A closing in what is left of a text stood in the text. -/
theorem CommentDivision.closing (h : CommentDivision u x ps)
    (hc : ['*', '/'] <:+: filled Comment.trace ps) : ['*', '/'] <:+: x := by
  induction h with
  | nil => exact hc
  | @char u x c ps hk h ih =>
    rcases List.infix_cons_iff.1 hc with ⟨w, hw⟩ | hc
    · obtain ⟨rfl, hps⟩ := List.cons.inj hw
      obtain ⟨x', ps', rfl, -⟩ := CommentDivision.front h hps.symm (by decide) (by decide)
      exact (List.prefix_append ['*', '/'] x').isInfix
    · exact (ih hc).trans (List.suffix_cons c x).isInfix
  | @found u span x k ps hf h ih =>
    refine List.IsInfix.trans (ih ?_) (List.suffix_append span x).isInfix
    cases k with
    | block =>
      rcases List.infix_cons_iff.1 hc with ⟨w, hw⟩ | hc
      · cases hw
      · exact hc
    | line => exact hc

theorem comment?_eq_none : comment? none x = none ↔
    (∀ r, x ≠ '/' :: '/' :: r) ∧ ∀ r, x = '/' :: '*' :: r → ¬ ['*', '/'] <:+: r := by
  fun_cases comment? none x with
  | case1 r => simp [afterBlock?_eq_none]
  | case2 r => simp
  | case3 _ _ hb hl => exact ⟨fun _ => ⟨hl, fun r hr => absurd hr (hb r)⟩, fun _ => rfl⟩

/-- No comment opens anywhere in what is left of a text. -/
theorem CommentDivision.opensNone (h : CommentDivision u x ps) {v : List Char}
    (hy : filled Comment.trace ps = v ++ y) : comment? none y = none := by
  induction h generalizing v with
  | nil =>
    obtain ⟨-, rfl⟩ := List.append_eq_nil_iff.1 hy.symm
    rfl
  | @char u x c ps hk h ih =>
    cases v with
    | cons d v => exact ih (List.cons.inj hy).2
    | nil =>
      have hnone := comment?_of_nothingAt hk
      obtain rfl : c :: filled Comment.trace ps = y := hy
      refine comment?_eq_none.2 ⟨fun r hr => ?_, fun r hr hc => ?_⟩
      · obtain ⟨rfl, hps⟩ := List.cons.inj hr
        obtain ⟨x', -, rfl, -⟩ := CommentDivision.front h hps (by decide) (by decide)
        cases hnone
      · obtain ⟨rfl, hps⟩ := List.cons.inj hr
        obtain ⟨x', ps', rfl, -, h', rfl⟩ := CommentDivision.front h hps (by decide) (by decide)
        exact (comment?_eq_none.1 hnone).2 x' rfl (h'.closing hc)
  | @found u span x k ps hf h ih =>
    cases k with
    | line => exact ih hy
    | block =>
      cases v with
      | cons d v => exact ih (List.cons.inj hy).2
      | nil =>
        obtain rfl : ' ' :: filled Comment.trace ps = y := hy
        rfl

end Stripping

section Free

variable {text : List Char}

/-- A text that has no line comment and no block comment that is closed. -/
structure CommentFree (text : List Char) : Prop where
  line : ¬ ['/', '/'] <:+: text
  block : ∀ u v w, text ≠ u ++ '/' :: '*' :: (v ++ '*' :: '/' :: w)

theorem commentFree_stripComments (text : List Char) : CommentFree (stripComments text) := by
  obtain ⟨ps, hp, hs⟩ := divides_stripComments text
  have hnone : ∀ {v y}, stripComments text = v ++ y → comment? none y = none := fun hy =>
    hp.opensNone (hs.symm.trans hy)
  constructor
  · rintro ⟨u, w, hw⟩
    have := hnone (v := u) (y := '/' :: '/' :: w) (by rw [← hw]; simp)
    cases this
  · intro u v w hw
    exact (comment?_eq_none.1 (hnone hw)).2 _ rfl ⟨v, w, by simp⟩

/-- A text without comments is left as it is. -/
theorem stripComments_eq_self (h : CommentFree text) : stripComments text = text := by
  obtain ⟨ps, hp, hs⟩ := divides_stripComments text
  rw [hs]
  refine hp.filled_eq fun u x hx span rest k hspan hk => ?_
  rw [List.nil_append, hspan] at hx
  cases hk with
  | @block v => exact h.block u v rest (by simpa using hx)
  | @line v => exact h.line ⟨u, v ++ rest, by rw [hx]; simp⟩

theorem stripComments_stripComments (text : List Char) :
    stripComments (stripComments text) = stripComments text :=
  stripComments_eq_self (commentFree_stripComments text)

end Free

end ComputeKernel.Body

namespace ComputeKernel.Shader

open Body Text

/-- A body is stripped once and for all. What is left of it has no comments, so stripping it again
changes nothing, and the same program, failure and log come of the body and of what is left of it.
Nothing but comments is lost: the body is divided by its comments, of which their traces are left,
and what stands between them is kept. So a text is left as it is exactly if it has no comments. -/
theorem stripComments_stable (body : String) :
    CommentFree (stripComments body.toList) ∧
      stripComments (stripComments body.toList) = stripComments body.toList ∧
      (∃ ps, CommentDivision [] body.toList ps ∧
        stripComments body.toList = filled Comment.trace ps) ∧
      (stripComments body.toList = body.toList ↔ CommentFree body.toList) ∧
      ∀ (frontEnd : FrontEnd) (names : List String) (config : Config),
        Program.ofBody frontEnd names (String.ofList (stripComments body.toList)) config =
          Program.ofBody frontEnd names body config := by
  refine ⟨commentFree_stripComments _, stripComments_stripComments _, divides_stripComments _,
    ?_, ?_⟩
  · exact ⟨fun h => h ▸ commentFree_stripComments _, stripComments_eq_self⟩
  · intro frontEnd names config
    have hdraft : draft names (stripComments body.toList) config =
        draft names body.toList config := by
      unfold draft
      rw [stripComments_stripComments]
    rw [Program.ofBody, Program.ofBody, String.toList_ofList, hdraft]

end ComputeKernel.Shader
