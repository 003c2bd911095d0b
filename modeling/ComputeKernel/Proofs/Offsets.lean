import ComputeKernel.Proofs.Scanning
import ComputeKernel.Proofs.Reproduction

/-!
# Substituting by offsets

`substitute` goes over the characters of a text. Here the uses of a name are replaced in the bytes
of a text. The loops keep offsets, search and scan bytes, and cut out what stands between two
offsets. Nothing is known about the offsets beforehand: where a cut is out of order, beyond the end
or within a character, or where bytes that are no text are taken for one, the answer is `none`. So
it is where the rounds of the loops, one within another, are more than the offsets of the text.

A round of the loop passes over a name or replaces a use (`substituteLoop_round`), and the offsets
it goes on from are those of what is left of the text. What is left is shorter, so the rounds are
enough (`substituteLoop_utf8`). There is an answer for every text, and as long as the counters can
count its characters, it is the answer of `substitute` (`substitutes`).
-/

namespace ComputeKernel.Body.ByOffset

open Text

section Definitions

/-- The index in brackets after an offset, if one `more` is allowed, and the offset after it. -/
def group? (text : List UInt8) (i : Nat) (more : Bool) : Option (Option (List UInt8 × Nat)) := do
  let start ← skipBlanks? text i
  let rest ← slice? text start text.length
  if !more || !(utf8 ['[']).isPrefixOf rest then return none
  let some stop := closeOf? text start | return none
  return some (← slice? text (start + 1) stop, stop + 1)

/-- Whether bytes begin with an operator and a `=`. -/
def joined? (bytes : List UInt8) (op : Char) : Option Bool := do
  if !(utf8 [op]).isPrefixOf bytes then return false
  return (utf8 ['=']).isPrefixOf (← slice? bytes 1 bytes.length)

/-- The assignment sign with which bytes begin, as its operator. -/
def sign? (bytes : List UInt8) : Option (Option (Option Char)) := do
  if (utf8 ['=']).isPrefixOf bytes && !(utf8 ['=', '=']).isPrefixOf bytes then return some none
  return (← ['+', '-', '*', '/'].findM? (joined? bytes)).map some

/-- The operator and the value of the assignment after an offset, and the offset after it. -/
def assigned? (text : List UInt8) (i : Nat) : Option (Option (Option Char × List Char × Nat)) := do
  let start ← skipBlanks? text i
  let some op ← sign? (← slice? text start text.length) | return none
  let start := start + 1 + op.toList.length
  let stop := valueEnd text start
  return some (op, trim (← read? text start stop), stop)

mutual

/-- Replaces the uses of `name` from the offset `search` on, in as many rounds at most. What becomes
of the text before the offset `copied` is in `out`. -/
def substituteLoop (name : List Char) (max : Nat) (f : Subscript → List Char) :
    (rounds : Nat) → (text : List UInt8) → (copied search : Nat) → (out : List UInt8) →
      Option (List UInt8)
  | 0, _, _, _, _ => none
  | rounds + 1, text, copied, search, out => do
    match find? (utf8 name) (← slice? text search text.length) with
    | none => return out ++ (← slice? text copied text.length)
    | some found =>
      let start := search + found
      let search := start + (utf8 name).length
      let before ← read? text 0 start
      let after ← read? text search text.length
      if joinsName before.getLast? || after.head?.any isIdent then
        substituteLoop name max f rounds text copied search out
      else
        match ← indexLoop name max f rounds text search [] with
        | ([], _) => substituteLoop name max f rounds text copied search out
        | (i :: is, stop) =>
          let indices ← (i :: is).mapM ofUtf8?
          let (assign, stop) ← valueLoop name max f rounds text stop
          let out := out ++ (← slice? text copied start) ++ utf8 (f ⟨indices, assign⟩)
          substituteLoop name max f rounds text stop stop out

/-- Reads the indices after the offset `i`, with their uses replaced. -/
def indexLoop (name : List Char) (max : Nat) (f : Subscript → List Char) :
    (rounds : Nat) → (text : List UInt8) → (i : Nat) → (indices : List (List UInt8)) →
      Option (List (List UInt8) × Nat)
  | 0, _, _, _ => none
  | rounds + 1, text, i, indices => do
    match ← group? text i (indices.length < max) with
    | none => return (indices, i)
    | some (inside, i) =>
      let index ← substituteLoop name max f rounds inside 0 0 []
      indexLoop name max f rounds text i (indices ++ [index])

/-- Reads the assignment after the offset `i`, with the uses in its value replaced. -/
def valueLoop (name : List Char) (max : Nat) (f : Subscript → List Char) :
    (rounds : Nat) → (text : List UInt8) → (i : Nat) → Option (Option Assignment × Nat)
  | 0, _, _ => none
  | rounds + 1, text, i => do
    match ← assigned? text i with
    | none => return (none, i)
    | some (op, value, i) =>
      let value ← substituteLoop name max f rounds (utf8 value) 0 0 []
      return (some ⟨op, ← ofUtf8? value⟩, i)

end

/-- Replaces every use of `name` in a text. -/
def substitute? (name : List Char) (max : Nat) (f : Subscript → List Char) (text : List UInt8) :
    Option (List UInt8) :=
  substituteLoop name max f (text.length + 1) text 0 0 []

end Definitions

section Reading

variable {text p cs r rest inside : List Char} {max : Nat}

/-- The index in brackets at the front of a text, and what follows it. -/
def index? (cs : List Char) : Option (List Char × List Char) :=
  (after? ['['] (trimStart cs)).bind (splitClose 0)

theorem indexGroups_of_none (h : index? cs = none) : indexGroups max cs = ([], cs) := by
  cases max with
  | zero => rfl
  | succ max =>
    rw [indexGroups]
    split
    · rename_i r ht
      have hclose : splitClose 0 r = none := by simpa [index?, ht, after?] using h
      rw [hclose]
    · rfl

theorem indexGroups_of_some (h : index? cs = some (inside, rest)) :
    indexGroups (max + 1) cs = (inside :: (indexGroups max rest).1, (indexGroups max rest).2) := by
  obtain ⟨r, hr, hclose⟩ := Option.bind_eq_some_iff.1 h
  rw [indexGroups, after?_eq_some hr]
  simp only [List.singleton_append, hclose]

theorem index?_eq (h : index? cs = some (inside, rest)) :
    ∃ g, cs = g ++ rest ∧ inside.length < g.length := by
  obtain ⟨r, hr, hclose⟩ := Option.bind_eq_some_iff.1 h
  obtain ⟨k, -, rfl⟩ := splitClose_eq hclose
  obtain ⟨a, -, ha, -⟩ := exists_trimStart cs
  refine ⟨a ++ '[' :: (inside ++ [k]), ?_, by simp; omega⟩
  rw [ha, after?_eq_some hr]
  simp

theorem consumed_eq {v : List Char} (h : cs = v ++ rest) : consumed cs rest = v := by
  rw [h, consumed_append]

theorem slice?_trimStart {a : List Char} (ht : text = p ++ cs) (ha : cs = a ++ trimStart cs) :
    slice? (utf8 text) (offset p + offset a) (utf8 text).length = some (utf8 (trimStart cs)) :=
  slice?_suffix (by rw [List.append_assoc, ← ha, ht]) offset_append.symm

theorem group?_utf8 (ht : text = p ++ cs) (more : Bool) : group? (utf8 text) (offset p) more =
    some (if more then (index? cs).map fun g => (utf8 g.1, offset p + offset (consumed cs g.2))
      else none) := by
  obtain ⟨a, -, ha, -⟩ := exists_trimStart cs
  rw [group?, skipBlanks?_utf8 ht ha]
  simp only [Option.bind_eq_bind, Option.bind_some, slice?_trimStart ht ha, isPrefixOf_utf8]
  cases more with
  | false => rfl
  | true =>
    rw [index?]
    cases hr : after? ['['] (trimStart cs) with
    | none => rfl
    | some r =>
      have hcs : cs = a ++ '[' :: r := by
        rw [ha, after?_eq_some hr]
        rfl
      rw [← offset_append, closeOf?_utf8 (c := '[') (by rw [ht, hcs, List.append_assoc]) rfl,
        Option.bind_some]
      cases hs : splitClose 0 r with
      | none => rfl
      | some s =>
        obtain ⟨inside, rest⟩ := s
        obtain ⟨k, hk, rfl⟩ := splitClose_eq hs
        have hopen := offset_mark (c := '[') rfl
        have hclose := offset_mark (c := k) (by simp [isMark, isStop, hk])
        have hinside : slice? (utf8 text) (offset (p ++ a) + 1)
            (offset (p ++ a) + (1 + offset inside)) = some (utf8 inside) :=
          slice?_utf8 (p := p ++ (a ++ ['['])) (q := k :: rest) (by simp [ht, hcs])
            (by simp [hopen, Nat.add_assoc]) (by simp [hopen, Nat.add_assoc])
        have hconsumed : consumed cs rest = a ++ '[' :: (inside ++ [k]) :=
          consumed_eq (by simp [hcs])
        simp only [Option.map_some, hinside, hconsumed]
        refine congrArg (fun i => some (some (utf8 inside, i))) ?_
        simp [hopen, hclose, Nat.add_assoc]

theorem joined?_utf8 {op : Char} (h : isMark op = true) :
    joined? (utf8 cs) op = some (after? [op, '='] cs).isSome := by
  rw [joined?, isPrefixOf_utf8, length_utf8]
  cases cs with
  | nil => rfl
  | cons c r =>
    by_cases hc : op = c
    · subst hc
      have hslice : slice? (utf8 (op :: r)) 1 (offset (op :: r)) = some (utf8 r) :=
        slice?_utf8 (p := [op]) (q := []) (by simp) (by simp [offset_mark h])
          (by simp [offset_mark h])
      simp [hslice, isPrefixOf_utf8, after?]
    · simp [after?, hc]

theorem findM?_eq_some {α : Type} {f : α → Option Bool} {g : α → Bool} {l : List α}
    (h : ∀ x ∈ l, f x = some (g x)) : l.findM? f = some (l.find? g) := by
  induction l with
  | nil => rfl
  | cons x l ih =>
    rw [List.findM?, h x List.mem_cons_self, List.find?_cons,
      ih fun y hy => h y (List.mem_cons_of_mem _ hy)]
    cases g x <;> rfl

theorem find?_joined (c d : Char) (r : List Char) :
    ['+', '-', '*', '/'].find? (fun op => (after? [op, '='] (c :: d :: r)).isSome) =
      if d = '=' ∧ isOperator c = true then some c else none := by
  have hafter : ∀ op, (after? [op, '='] (c :: d :: r)).isSome = (op == c && d == '=') := by
    intro op
    by_cases hop : op = c
    · by_cases hd : d = '='
      · simp [after?, hop, hd]
      · simp [after?, hop, Ne.symm hd, hd]
    · simp [after?, hop]
  simp only [hafter]
  by_cases hd : d = '='
  · by_cases hop : isOperator c = true
    · have hc : ((c = '+' ∨ c = '-') ∨ c = '*') ∨ c = '/' := by simpa [isOperator] using hop
      rw [hd]
      rcases hc with ((rfl | rfl) | rfl) | rfl <;> rfl
    · have hc : ((c ≠ '+' ∧ c ≠ '-') ∧ c ≠ '*') ∧ c ≠ '/' := by simpa [isOperator, not_or] using hop
      simp [hop, hc.1.1.1.symm, hc.1.1.2.symm, hc.1.2.symm, hc.2.symm]
  · simp [hd]

theorem sign?_utf8 : sign? (utf8 (trimStart cs)) = some ((assignSign? cs).map Prod.fst) := by
  have hfind : ['+', '-', '*', '/'].findM? (joined? (utf8 (trimStart cs))) =
      some (['+', '-', '*', '/'].find? fun op => (after? [op, '='] (trimStart cs)).isSome) :=
    findM?_eq_some fun op hop => joined?_utf8 (List.all_eq_true.1 (by decide) op hop)
  rw [sign?, isPrefixOf_utf8, isPrefixOf_utf8, hfind]
  rcases ht : trimStart cs with _ | ⟨c, _ | ⟨d, r⟩⟩
  · simp [assignSign?, ht, after?]
  · rw [assignSign?_single ht]
    by_cases hc : c = '='
    · simp [after?, hc]
    · simp [after?, hc, Ne.symm hc]
  · rw [assignSign?_cons_cons ht, find?_joined]
    by_cases hc : c = '='
    · by_cases hd : d = '='
      · simp only [hc, hd, after?]
        rfl
      · simp [after?, hc, hd, Ne.symm hd]
    · by_cases hd : d = '=' ∧ isOperator c = true
      · simp [after?, hc, hd, Ne.symm hc]
      · simp [after?, hc, hd, Ne.symm hc]

/-- A sign stands after blanks and is one byte for the `=` and one for its operator. -/
theorem assignSign?_sign {op : Option Char} (h : assignSign? cs = some (op, r)) :
    ∃ sign, trimStart cs = sign ++ r ∧ offset sign = 1 + op.toList.length ∧
      r.length < cs.length := by
  obtain ⟨blanks, sign, hb, hs, rfl⟩ := assignSign?_eq h
  refine ⟨sign, ?_, ?_, ?_⟩
  · rw [trimStart_append hb]
    refine trimStart_of_head ?_
    cases hs with
    | plain => rfl
    | joined ho =>
      refine Bool.eq_false_iff.2 fun hblank => ?_
      have hmark := not_mark_of_blank hblank
      simp [isMark, ho] at hmark
  · cases hs with
    | plain => rfl
    | joined ho =>
      rw [offset_mark (by simp [isMark, ho])]
      rfl
  · cases hs <;> simp <;> omega

/-- Splits a text where the scan for the end of a value ends. -/
def splitWrapped (cs : List Char) : List Char × List Char :=
  (splitScan? valueStep 0 cs).getD (cs, [])

theorem splitWrapped_append (cs : List Char) : (splitWrapped cs).1 ++ (splitWrapped cs).2 = cs := by
  rw [splitWrapped]
  cases h : splitScan? valueStep 0 cs with
  | none => exact List.append_nil cs
  | some v => exact (splitScan?_eq h).1.symm

theorem splitWrapped_eq (h : cs.length < 2 ^ 31) : splitWrapped cs = splitValue 0 cs :=
  splitScan?_value (d := 0) (by omega)

theorem assigned?_utf8 (ht : text = p ++ cs) : assigned? (utf8 text) (offset p) =
    some ((assignSign? cs).map fun s => (s.1, trim (splitWrapped s.2).1,
      offset p + offset (consumed cs (splitWrapped s.2).2))) := by
  obtain ⟨a, -, ha, -⟩ := exists_trimStart cs
  rw [assigned?, skipBlanks?_utf8 ht ha]
  simp only [Option.bind_eq_bind, Option.bind_some, slice?_trimStart ht ha, sign?_utf8]
  cases hs : assignSign? cs with
  | none => rfl
  | some s =>
    obtain ⟨op, r⟩ := s
    obtain ⟨sign, hsign, hoffset, -⟩ := assignSign?_sign hs
    have hcs : cs = a ++ (sign ++ r) := by rw [← hsign, ← ha]
    have hv := splitWrapped_append r
    have hstart : offset p + offset a + 1 + op.toList.length = offset (p ++ (a ++ sign)) := by
      simp [hoffset, Nat.add_assoc]
    have hstop : valueEnd (utf8 text) (offset (p ++ (a ++ sign))) =
        offset (p ++ (a ++ sign)) + offset (splitWrapped r).1 :=
      valueEnd_utf8 (by simp [ht, hcs])
    have hread : read? (utf8 text) (offset (p ++ (a ++ sign)))
        (offset (p ++ (a ++ sign)) + offset (splitWrapped r).1) = some (splitWrapped r).1 :=
      read?_utf8 (q := (splitWrapped r).2) (by simp [ht, hcs, hv]) rfl rfl
    have hconsumed : consumed cs (splitWrapped r).2 = a ++ (sign ++ (splitWrapped r).1) :=
      consumed_eq (by simp [hcs, hv])
    simp only [Option.map_some, hstart, hstop, hread, hconsumed]
    refine congrArg (fun i => some (some (op, trim (splitWrapped r).1, i))) ?_
    simp [Nat.add_assoc]

end Reading

section Passing

variable {name cs v r rest : List Char} {max : Nat} {f : Subscript → List Char} {b : Option Char}
  {c : Char}

theorem substituteFrom_of_after?_none (h : after? name (c :: r) = none) :
    substituteFrom name max f b (c :: r) = c :: substituteFrom name max f (some c) r := by
  have ho : occurrence? name max b (c :: r) = none := by
    unfold occurrence?
    cases name with
    | nil => rfl
    | cons n ns => simp only [h]
  rw [substituteFrom]
  split
  · rename_i h'
    cases ho.symm.trans h'
  · simp only [h]

/-- A name that is not used is passed over. -/
theorem substituteFrom_name (hne : name ≠ []) (h : occurrence? name max b (name ++ r) = none) :
    substituteFrom name max f b (name ++ r) =
      name ++ substituteFrom name max f name.getLast? r := by
  have hlen : r.length < (name ++ r).length := length_lt_of_span rfl hne
  obtain ⟨n, ns, rfl⟩ := List.exists_cons_of_ne_nil hne
  rw [List.cons_append] at h hlen ⊢
  rw [substituteFrom]
  split
  · rename_i h'
    cases h.symm.trans h'
  · rw [← List.cons_append, after?_self]
    exact if_pos hlen

/-- There is no use of a name that is joined to other characters or has no index after it. -/
theorem occurrence?_of_no_group
    (h : (joinsName b || r.head?.any isIdent) = true ∨ (indexGroups max r).1 = []) :
    occurrence? name max b (name ++ r) = none := by
  unfold occurrence?
  split
  · rfl
  · simp only [after?_self]
    split
    · rfl
    · rename_i hj
      split
      · rfl
      · rename_i hg
        rw [hg] at h
        exact absurd h (by simpa using hj)

theorem substituteFrom_of_splitWord?_none (h : splitWord? name cs = none) :
    substituteFrom name max f b cs = cs := by
  induction cs generalizing b with
  | nil => exact substituteFrom_nil
  | cons c cs ih =>
    rw [splitWord?] at h
    split at h
    · cases h
    · rename_i ha
      rw [substituteFrom_of_after?_none ha, ih (Option.map_eq_none_iff.1 h)]

/-- What stands before the first place of a name is copied. -/
theorem substituteFrom_of_splitWord? (h : splitWord? name cs = some (v, r)) :
    substituteFrom name max f b cs =
      v ++ substituteFrom name max f (v.getLast?.or b) (name ++ r) := by
  induction cs generalizing b v with
  | nil => cases h
  | cons c cs ih =>
    rw [splitWord?] at h
    split at h
    · rename_i ha
      cases h
      rw [← after?_eq_some ha]
      rfl
    · rename_i ha
      obtain ⟨⟨v', r'⟩, hs, he⟩ := Option.map_eq_some_iff.1 h
      cases he
      rw [substituteFrom_of_after?_none ha, ih hs, List.getLast?_cons]
      cases v'.getLast? <;> rfl

end Passing

section Substituting

variable {name text : List Char} {max rounds : Nat} {f : Subscript → List Char}

/-- The uses of `name` in a text can be replaced by offsets in some rounds, as `substitute` replaces
them if the counters can count the characters. -/
def Substitutes (name : List Char) (max : Nat) (f : Subscript → List Char) (rounds : Nat)
    (cs : List Char) : Prop :=
  ∃ out, substituteLoop name max f rounds (utf8 cs) 0 0 [] = some (utf8 out) ∧
    (cs.length < 2 ^ 31 → out = substitute name max f cs)

theorem indexLoop_utf8 (p cs : List Char) (indices : List (List UInt8)) (ht : text = p ++ cs)
    (hr : cs.length < rounds) (h : ∀ n < rounds, ∀ i, i.length < n → Substitutes name max f n i) :
    ∃ outs, indexLoop name max f rounds (utf8 text) (offset p) indices =
      some (indices ++ outs.map utf8,
        offset p + offset (consumed cs (indexGroups (max - indices.length) cs).2)) ∧
      outs.length = (indexGroups (max - indices.length) cs).1.length ∧
      (cs.length < 2 ^ 31 →
        outs = (indexGroups (max - indices.length) cs).1.map (substitute name max f)) := by
  induction rounds generalizing p cs indices with
  | zero => cases hr
  | succ rounds ih =>
    rw [indexLoop, group?_utf8 ht]
    cases hm : max - indices.length with
    | zero =>
      refine ⟨[], ?_, rfl, fun _ => rfl⟩
      rw [decide_eq_false (by omega)]
      simp [indexGroups, consumed]
    | succ m =>
      rw [decide_eq_true (by omega)]
      cases hi : index? cs with
      | none =>
        rw [indexGroups_of_none hi]
        exact ⟨[], by simp [consumed], rfl, fun _ => rfl⟩
      | some g =>
        obtain ⟨inside, rest⟩ := g
        obtain ⟨g, rfl, hlen⟩ := index?_eq hi
        rcases hg : indexGroups m rest with ⟨is, last⟩
        obtain ⟨z, -, rfl⟩ := indexGroups_eq hg
        rw [List.length_append] at hr
        obtain ⟨out, hout, hexact⟩ := h rounds (Nat.lt_succ_self rounds) inside (by omega)
        obtain ⟨outs, houts, hcount, hall⟩ := ih (p ++ g) (z ++ last) (indices ++ [utf8 out])
          (by simp [ht]) (by omega) fun n hn => h n (by omega)
        have hleft : max - (indices ++ [utf8 out]).length = m := by simp; omega
        rw [hleft, hg] at houts hcount hall
        rw [consumed_append, offset_append] at houts
        rw [indexGroups_of_some hi, hg]
        refine ⟨out :: outs, ?_, by rw [List.length_cons, List.length_cons, hcount],
          fun hbound => ?_⟩
        · have hlast : consumed (g ++ (z ++ last)) last = g ++ z := consumed_eq (by simp)
          simp only [if_true, Option.map_some, consumed_append, hlast, Option.bind_eq_bind,
            Option.bind_some, hout, houts]
          simp [Nat.add_assoc]
        · rw [List.length_append] at hbound
          rw [hexact (by omega), hall (by omega)]
          rfl

theorem valueLoop_utf8 (p cs : List Char) (ht : text = p ++ cs) (hr : cs.length < rounds)
    (h : ∀ n < rounds, ∀ i, i.length < n → Substitutes name max f n i) :
    ∃ g rest assign, cs = g ++ rest ∧
      valueLoop name max f rounds (utf8 text) (offset p) = some (assign, offset p + offset g) ∧
      (cs.length < 2 ^ 31 → (assign, rest) = (assignment? cs).elim (none, cs)
        fun a => (some ⟨a.1.op, substitute name max f a.1.value⟩, a.2)) := by
  obtain ⟨n, rfl⟩ := Nat.exists_eq_add_one_of_ne_zero (Nat.ne_zero_of_lt hr)
  rw [valueLoop, assigned?_utf8 ht, assignment?]
  cases hs : assignSign? cs with
  | none => exact ⟨[], cs, none, rfl, by simp, fun _ => rfl⟩
  | some s =>
    obtain ⟨op, r⟩ := s
    obtain ⟨sign, hsign, -, hlen⟩ := assignSign?_sign hs
    obtain ⟨a, -, ha, -⟩ := exists_trimStart cs
    have hv := splitWrapped_append r
    have hcs : cs = a ++ (sign ++ (splitWrapped r).1) ++ (splitWrapped r).2 := by
      rw [List.append_assoc, List.append_assoc, hv, ← hsign, ← ha]
    have hvalue : (trim (splitWrapped r).1).length < cs.length := by
      have htrim := length_trim_le (splitWrapped r).1
      have hle := congrArg List.length hv
      rw [List.length_append] at hle
      omega
    obtain ⟨out, hout, hexact⟩ := h n (Nat.lt_succ_self n) _
      (Nat.lt_of_lt_of_le hvalue (Nat.le_of_lt_succ hr))
    refine ⟨_, _, some ⟨op, out⟩, hcs, ?_, fun hbound => ?_⟩
    · simp only [Option.map_some, Option.bind_eq_bind, Option.bind_some, hout, ofUtf8?_utf8,
        consumed_eq hcs]
      rfl
    · rw [hexact (by omega), splitWrapped_eq (by omega)]
      rfl

theorem mapM_ofUtf8? (texts : List (List Char)) : (texts.map utf8).mapM ofUtf8? = some texts := by
  induction texts with
  | nil => rfl
  | cons t ts ih =>
    rw [List.map_cons, List.mapM_cons, ofUtf8?_utf8, ih]
    rfl

/-- An answer of the loop for a text `c ++ m ++ s`, of which `out` is made of `c`, `m` is searched
and to be copied, and `s` is to be searched. -/
def Answers (name : List Char) (max : Nat) (f : Subscript → List Char) (c m s : List Char)
    (out : List UInt8) (answer : Option (List UInt8)) : Prop :=
  ∃ rest, answer = some (out ++ utf8 (m ++ rest)) ∧
    (s.length < 2 ^ 31 → rest = substituteFrom name max f (c ++ m).getLast? s)

variable {c m s v r : List Char} {out : List UInt8} {answer : Option (List UInt8)}

theorem getLast?_append₃ {k : List Char} (hk : k ≠ []) :
    (c ++ (m ++ (v ++ k))).getLast? = k.getLast? := by
  rw [show c ++ (m ++ (v ++ k)) = c ++ m ++ v ++ k by simp, List.getLast?_append_of_ne_nil _ hk]

/-- The search goes on after a name that is not used. -/
theorem Answers.pass (hne : name ≠ []) (hw : splitWord? name s = some (v, r))
    (ho : occurrence? name max (c ++ (m ++ v)).getLast? (name ++ r) = none)
    (h : Answers name max f c (m ++ (v ++ name)) r out answer) :
    Answers name max f c m s out answer := by
  obtain ⟨rest, rfl, hexact⟩ := h
  refine ⟨v ++ (name ++ rest), by simp, fun hbound => ?_⟩
  rw [splitWord?_eq hw, List.length_append, List.length_append] at hbound
  rw [substituteFrom_of_splitWord? hw, ← List.getLast?_append, List.append_assoc,
    substituteFrom_name hne ho, hexact (by omega), getLast?_append₃ hne]

/-- The search goes on after a use that is replaced. -/
theorem Answers.use (hw : splitWord? name s = some (v, r)) {k last : List Char} {u : Subscript}
    (hk : name ++ r = k ++ last) (hne : k ≠ [])
    (ho : s.length < 2 ^ 31 → ∃ t, u = t.map (substitute name max f) ∧
      occurrence? name max (c ++ (m ++ v)).getLast? (name ++ r) = some (t, last))
    (h : Answers name max f (c ++ (m ++ (v ++ k))) [] last (out ++ utf8 (m ++ v) ++ utf8 (f u))
      answer) :
    Answers name max f c m s out answer := by
  obtain ⟨rest, rfl, hexact⟩ := h
  refine ⟨v ++ (f u ++ rest), by simp, fun hbound => ?_⟩
  obtain ⟨t, rfl, ht⟩ := ho hbound
  rw [splitWord?_eq hw, hk, List.length_append, List.length_append] at hbound
  rw [substituteFrom_of_splitWord? hw, ← List.getLast?_append, List.append_assoc,
    substituteFrom_of_use ht, hk, consumed_append, hexact (by omega), List.append_nil,
    getLast?_append₃ hne]
  rfl

/-- The parts of a use that are replaced make up the use with its parts replaced. -/
theorem occurrence?_map {b : Option Char} {i : List Char} {is outs : List (List Char)}
    {last rest : List Char} {assign : Option Assignment} {g : List Char → List Char}
    (hne : name ≠ []) (hb : joinsName b = false) (hr : r.head?.any isIdent = false)
    (hg : indexGroups max r = (i :: is, last)) (houts : outs = (i :: is).map g)
    (hassign : (assign, rest) = (assignment? last).elim (none, last)
      fun a => (some ⟨a.1.op, g a.1.value⟩, a.2)) :
    ∃ t : Subscript, ⟨outs, assign⟩ = t.map g ∧
      occurrence? name max b (name ++ r) = some (t, rest) := by
  rw [occurrence?_of_groups hne hb hr hg, houts]
  cases ha : assignment? last with
  | none =>
    rw [ha] at hassign
    cases hassign
    exact ⟨⟨i :: is, none⟩, rfl, rfl⟩
  | some a =>
    rw [ha] at hassign
    cases hassign
    exact ⟨⟨i :: is, some a.1⟩, rfl, rfl⟩

/-- A round of the loop in which the name is found after `v`: it is passed over, or a use of it is
replaced. -/
theorem substituteLoop_round (hne : name ≠ []) (ht : text = c ++ (m ++ s))
    (hw : splitWord? name s = some (v, r)) (out : List UInt8) (hr : r.length < rounds)
    (h : ∀ n < rounds, ∀ i, i.length < n → Substitutes name max f n i) :
    occurrence? name max (c ++ (m ++ v)).getLast? (name ++ r) = none ∧
      substituteLoop name max f (rounds + 1) (utf8 text) (offset c) (offset (c ++ m)) out =
        substituteLoop name max f rounds (utf8 text) (offset c)
          (offset (c ++ (m ++ (v ++ name)))) out ∨
    ∃ k last u, name ++ r = k ++ last ∧ k ≠ [] ∧
      (s.length < 2 ^ 31 → ∃ t, u = t.map (substitute name max f) ∧
        occurrence? name max (c ++ (m ++ v)).getLast? (name ++ r) = some (t, last)) ∧
      substituteLoop name max f (rounds + 1) (utf8 text) (offset c) (offset (c ++ m)) out =
        substituteLoop name max f rounds (utf8 text) (offset (c ++ (m ++ (v ++ k))))
          (offset (c ++ (m ++ (v ++ k)))) (out ++ utf8 (m ++ v) ++ utf8 (f u)) := by
  have hs := splitWord?_eq hw
  have hend : offset (c ++ m) + offset v + (utf8 name).length =
      offset (c ++ (m ++ (v ++ name))) := by simp [Nat.add_assoc]
  have hbefore : read? (utf8 text) 0 (offset (c ++ m) + offset v) = some (c ++ (m ++ v)) :=
    read?_front (q := name ++ r) (by simp [ht, hs]) (by simp [Nat.add_assoc])
  have hafter : read? (utf8 text) (offset (c ++ (m ++ (v ++ name)))) (utf8 text).length = some r :=
    read?_suffix (by simp [ht, hs]) rfl
  have hcopied : slice? (utf8 text) (offset c) (offset (c ++ m) + offset v) =
      some (utf8 (m ++ v)) :=
    slice?_utf8 (q := name ++ r) (by simp [ht, hs]) rfl (by simp [Nat.add_assoc])
  rw [substituteLoop, slice?_suffix (p := c ++ m) (v := s) (by simp [ht]) rfl, Option.bind_eq_bind,
    Option.bind_some, find?_utf8 hne, hw]
  simp only [Option.map_some, hend, hbefore, hafter, Option.bind_eq_bind, Option.bind_some]
  split
  · rename_i hj
    exact .inl ⟨occurrence?_of_no_group (.inl hj), rfl⟩
  rename_i hj
  rw [Bool.or_eq_true, not_or, Bool.not_eq_true, Bool.not_eq_true] at hj
  rcases hg : indexGroups max r with ⟨is, last⟩
  obtain ⟨g, -, rfl⟩ := indexGroups_eq hg
  have hat : text = c ++ (m ++ (v ++ name)) ++ (g ++ last) := by simp [ht, hs]
  obtain ⟨outs, hindices, hcount, houts⟩ := indexLoop_utf8 _ _ [] hat hr h
  simp only [List.length_nil, Nat.sub_zero, hg, consumed_append, List.nil_append,
    ← offset_append] at hindices hcount houts
  simp only [hindices, Option.bind_some]
  cases outs with
  | nil =>
    have hnone : (indexGroups max (g ++ last)).1 = [] := by
      rw [hg]
      exact List.length_eq_zero_iff.1 hcount.symm
    exact .inl ⟨occurrence?_of_no_group (.inr hnone), rfl⟩
  | cons o os =>
    obtain ⟨i, is, rfl⟩ := List.exists_cons_of_length_eq_add_one hcount.symm
    rw [← List.append_assoc] at hat
    rw [List.length_append] at hr
    obtain ⟨g', rest, assign, rfl, hvalue, hassign⟩ := valueLoop_utf8 _ _ hat (by omega) h
    have hstop : offset (c ++ (m ++ (v ++ name)) ++ g) + offset g' =
        offset (c ++ (m ++ (v ++ (name ++ (g ++ g'))))) := by simp [Nat.add_assoc]
    have hdecode : (utf8 o :: os.map utf8).mapM ofUtf8? = some (o :: os) :=
      mapM_ofUtf8? (o :: os)
    refine .inr ⟨name ++ (g ++ g'), rest, ⟨o :: os, assign⟩, by simp, by simp [hne],
      fun hbound => ?_, ?_⟩
    · rw [hs] at hbound
      simp only [List.length_append] at hbound houts hassign
      exact occurrence?_map hne hj.1 hj.2 hg (houts (by omega)) (hassign (by omega))
    · simp only [List.map_cons, hdecode, hvalue, hstop, hcopied, Option.bind_some]

/-- The loop has an answer wherever it is, if there is a round for every character left. -/
theorem substituteLoop_utf8 (hne : name ≠ []) (c m s : List Char) (out : List UInt8)
    (ht : text = c ++ (m ++ s)) (hr : s.length < rounds) : Answers name max f c m s out
      (substituteLoop name max f rounds (utf8 text) (offset c) (offset (c ++ m)) out) := by
  -- Not by plain induction: the texts of indices and values are gone over in fewer rounds still.
  induction rounds using Nat.strongRecOn generalizing text c m s out with
  | _ l ih =>
    obtain ⟨n, rfl⟩ := Nat.exists_eq_add_one_of_ne_zero (Nat.ne_zero_of_lt hr)
    cases hw : splitWord? name s with
    | none =>
      refine ⟨s, ?_, fun _ => (substituteFrom_of_splitWord?_none hw).symm⟩
      rw [substituteLoop, slice?_suffix (p := c ++ m) (v := s) (by simp [ht]) rfl,
        Option.bind_eq_bind, Option.bind_some, find?_utf8 hne, hw]
      simp only [Option.map_none, slice?_suffix ht rfl]
      rfl
    | some w =>
      obtain ⟨v, r⟩ := w
      have hs := splitWord?_eq hw
      have hlen := congrArg List.length hs
      have hpos := List.length_pos_iff.2 hne
      simp only [List.length_append] at hlen
      have hshort : ∀ k < n, ∀ i, i.length < k → Substitutes name max f k i :=
        fun k hk i hi => ih k (by omega) [] [] i [] rfl hi
      rcases substituteLoop_round hne ht hw out (show r.length < n by omega) hshort with
        ⟨ho, hround⟩ | ⟨k, last, u, hk, hkne, ho, hround⟩
      · rw [hround]
        have hnext := ih n (Nat.lt_succ_self n) c (m ++ (v ++ name)) r out
          (show text = _ by simp [ht, hs]) (by omega)
        exact hnext.pass hne hw ho
      · have hpos := List.length_pos_iff.2 hkne
        have hrest := congrArg List.length hk
        simp only [List.length_append] at hrest
        have hnext := ih n (Nat.lt_succ_self n) (c ++ (m ++ (v ++ k))) [] last
          (out ++ utf8 (m ++ v) ++ utf8 (f u)) (show text = _ by simp [ht, hs, hk]) (by omega)
        rw [List.append_nil] at hnext
        rw [hround]
        exact hnext.use hw hk hkne ho

/-- The uses in a text are replaced, whatever stands in it. -/
theorem substitutes (hne : name ≠ []) (cs : List Char) :
    Substitutes name max f ((utf8 cs).length + 1) cs :=
  substituteLoop_utf8 hne [] [] cs [] rfl (Nat.lt_succ_of_le length_le_offset)

end Substituting

end ComputeKernel.Body.ByOffset
