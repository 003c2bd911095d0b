import ComputeKernel.Proofs.Offsets

/-!
# Hoisting by offsets

Constants and helpers are taken out of the bytes of a text. As in substituting by offsets, a bad cut
and a loop of more rounds than there are offsets give `none`.

The loop for constants goes on byte by byte. It passes over the bytes of a character beyond ASCII
without a cut (`constantLoop_append`), and a constant ends after a `;`. The loop for helpers changes
the text that it goes over. It goes on where the helper stood, which is after a character of the new
text too (`helperLoop_utf8`).

The counters of levels have 32 bits here, and wrap around. In a text of fewer than `2 ^ 31`
characters they count the levels, so there what is known of hoisting and substitution holds of the
bytes (`substitute?_divides`, `hoistConstants?_divides`).
-/

namespace ComputeKernel.Body.ByOffset

open Text

section Constants

/-- Whether a word stands at an offset, with a blank after it. -/
def keywordAt? (text : List UInt8) (i : Nat) (word : List Char) : Option Bool := do
  if !(utf8 word).isPrefixOf (← slice? text i text.length) then return false
  if (← read? text 0 i).getLast?.any isIdent then return false
  return (← read? text (i + (utf8 word).length) text.length).head?.any isBlank

/-- The offset of the `;` that ends the constant at an offset, where `c` is the character. -/
def constantEnd? (text : List UInt8) (level : Int32) (c : Char) (i : Nat) :
    Option (Option Nat) := do
  if c != 'c' || level != 0 then return none
  if !(← keywordAt? text i "const".toList) then return none
  return statementEnd? text i

/-- Takes out the constants from the offset `i` on, in as many rounds at most. What is left of the
text before the offset `copied` is in `out`. -/
def constantLoop (text : List UInt8) : (rounds : Nat) → (level : Int32) → (copied i : Nat) →
    (out : List UInt8) → (found : List (List UInt8)) → Option (List UInt8 × List (List UInt8))
  | 0, _, _, _, _, _ => none
  | rounds + 1, level, copied, i, out, found => do
    match text[i]? with
    | none => return (out ++ (← slice? text copied text.length), found)
    | some b =>
      match ← constantEnd? text level (.ofUInt8 b) i with
      | none => constantLoop text rounds (levelAfter level (.ofUInt8 b)) copied (i + 1) out found
      | some stop =>
        let out := out ++ (← slice? text copied i)
        let constant ← read? text i (stop + 1)
        constantLoop text rounds level (stop + 1) (stop + 1) out (found ++ [utf8 (trim constant)])

/-- Takes the constants at level 0 out of a text. -/
def hoistConstants? (text : List UInt8) : Option (List UInt8 × List (List UInt8)) :=
  constantLoop text (text.length + 1) 0 0 0 [] []

variable {text p cs r : List Char} {c : Char} {b : Option Char} {level : Int32} {l : Int}

theorem keywordAt?_utf8 (ht : text = p ++ cs) (word : List Char) :
    keywordAt? (utf8 text) (offset p) word =
      some ((after? word cs).any fun r => !p.getLast?.any isIdent && r.head?.any isBlank) := by
  rw [keywordAt?]
  simp only [slice?_suffix ht rfl, read?_front ht rfl, isPrefixOf_utf8, Option.bind_eq_bind,
    Option.bind_some]
  cases ha : after? word cs with
  | none => rfl
  | some r =>
    have hafter : read? (utf8 text) (offset p + (utf8 word).length) (utf8 text).length = some r :=
      read?_suffix (p := p ++ word) (by simp [ht, after?_eq_some ha]) (by simp)
    rw [hafter]
    cases p.getLast?.any isIdent <;> simp

theorem atConst_eq : atConst b cs =
    (after? "const".toList cs).any fun r => !b.any isIdent && r.head?.any isBlank := by
  rw [atConst]
  cases after? "const".toList cs <;> rfl

theorem eq_of_atConst (h : atConst b (c :: r) = true) : c = 'c' := by
  obtain ⟨-, r', hr, -⟩ := atConst_iff.1 h
  rw [show "const".toList = 'c' :: "onst".toList by decide] at hr
  exact (List.cons.inj hr).1

theorem constantEnd?_utf8 (level : Int32) (ht : text = p ++ c :: r) :
    constantEnd? (utf8 text) level c (offset p) =
      some (if level = 0 ∧ atConst p.getLast? (c :: r) = true
        then (splitScan? statementStep 0 (c :: r)).map fun s => offset p + offset s.1
        else none) := by
  rw [constantEnd?, keywordAt?_utf8 ht, ← atConst_eq, statementEnd?_utf8 ht]
  by_cases hl : level = 0
  · cases ha : atConst p.getLast? (c :: r) with
    | false => simp [hl]
    | true => simp [hl, eq_of_atConst ha]
  · simp [hl]

variable {bytes out : List UInt8} {found : List (List UInt8)} {copied i rounds : Nat}

theorem constantEnd?_of_large (h : 128 ≤ c.toNat) : constantEnd? bytes level c i = some none := by
  have hc : c ≠ 'c' := by
    rintro rfl
    exact absurd h (by decide)
  simp [constantEnd?, hc]

theorem constantLoop_next {b : UInt8} (hb : bytes[i]? = some b)
    (he : constantEnd? bytes level (.ofUInt8 b) i = some none) :
    constantLoop bytes (rounds + 1) level copied i out found =
      constantLoop bytes rounds (levelAfter level (.ofUInt8 b)) copied (i + 1) out found := by
  rw [constantLoop, hb]
  simp only [he]
  rfl

/-- The bytes of a character beyond ASCII are passed over. -/
theorem constantLoop_append (before : List UInt8) {bs after : List UInt8}
    (hbs : ∀ b ∈ bs, 128 ≤ (Char.ofUInt8 b).toNat) :
    constantLoop (before ++ (bs ++ after)) (rounds + bs.length) level copied before.length out
        found =
      constantLoop (before ++ (bs ++ after)) rounds level copied (before.length + bs.length) out
        found := by
  induction bs generalizing before with
  | nil => rfl
  | cons b bs ih =>
    have hb := hbs b List.mem_cons_self
    have hnext := ih (before ++ [b]) fun d hd => hbs d (List.mem_cons_of_mem _ hd)
    rw [List.length_append, List.append_assoc, List.singleton_append] at hnext
    rw [List.length_cons, ← Nat.add_assoc,
      constantLoop_next (b := b) (by simp) (constantEnd?_of_large hb),
      (large_not_bracket hb).2.2.2, Nat.add_comm bs.length, ← Nat.add_assoc]
    exact hnext

/-- A character at which no constant is taken out is passed over. -/
theorem constantLoop_keep (ht : text = p ++ c :: r)
    (h : constantEnd? (utf8 text) level c (offset p) = some none) :
    constantLoop (utf8 text) (rounds + offset [c]) level copied (offset p) out found =
      constantLoop (utf8 text) rounds (levelAfter level c) copied (offset (p ++ [c])) out
        found := by
  rw [offset_append, offset_cons, offset_nil, Nat.add_zero]
  rcases utf8EncodeChar_cases c with ⟨b, hb, rfl⟩ | ⟨hc, hbs⟩
  · rw [hb]
    refine constantLoop_next ?_ h
    rw [ht, utf8_append, utf8_cons, hb, offset, List.getElem?_append_right (Nat.le_refl _),
      Nat.sub_self]
    rfl
  · rw [(large_not_bracket hc).2.2.2, ht, utf8_append, utf8_cons]
    exact constantLoop_append (utf8 p) hbs

theorem eq_of_statementStep {t : Int32} (h : statementStep t c = .here) : c = ';' := by
  rw [statementStep] at h
  split at h
  · rename_i hc
    rw [Bool.and_eq_true, beq_iff_eq] at hc
    exact hc.1
  · cases h

/-- A constant is taken out as it stands: it neither begins nor ends with a blank. -/
theorem constantLoop_take {k m v w : List Char} (ht : text = p ++ c :: r) (hp : p = k ++ m)
    (ha : atConst p.getLast? (c :: r) = true)
    (hs : splitScan? statementStep 0 (c :: r) = some (v, ';' :: w)) :
    constantLoop (utf8 text) (rounds + 1) 0 (offset k) (offset p) out found =
      constantLoop (utf8 text) rounds 0 (offset (p ++ (v ++ [';']))) (offset (p ++ (v ++ [';'])))
        (out ++ utf8 m) (found ++ [utf8 (v ++ [';'])]) := by
  have hcr := (splitScan?_eq hs).1
  have hstop : offset p + offset v + 1 = offset (p ++ (v ++ [';'])) := by
    simp [offset_mark (c := ';') rfl, Nat.add_assoc]
  have hcopied : slice? (utf8 text) (offset k) (offset p) = some (utf8 m) :=
    slice?_utf8 (q := c :: r) (by simp [ht, hp]) rfl (by simp [hp])
  have hread : read? (utf8 text) (offset p) (offset (p ++ (v ++ [';']))) = some (v ++ [';']) :=
    read?_utf8 (q := w) (by simp [ht, hcr]) rfl (by simp)
  have htrim : trim (v ++ [';']) = v ++ [';'] := by
    have hhead : (v ++ [';']).head? = (c :: r).head? := by
      rw [hcr]
      cases v <;> rfl
    have htrim := trim_append (x := v ++ [';']) blank_nil blank_nil
      ⟨by rw [hhead, eq_of_atConst ha]; rfl, by rw [List.getLast?_concat]; rfl⟩
    rwa [List.append_nil] at htrim
  have hbyte : ∃ b, (utf8 text)[offset p]? = some b ∧ Char.ofUInt8 b = c := by
    rw [ht, eq_of_atConst ha, utf8_append, offset, List.getElem?_append_right (Nat.le_refl _),
      Nat.sub_self]
    exact ⟨99, rfl, rfl⟩
  obtain ⟨b, hb, rfl⟩ := hbyte
  have hend := constantEnd?_utf8 0 ht
  rw [if_pos ⟨rfl, ha⟩, hs, Option.map_some] at hend
  rw [constantLoop, hb]
  simp only [hend, Option.bind_eq_bind, Option.bind_some, hcopied, hstop, hread, htrim]

/-- The loop over the rest `s` of a text `k ++ m ++ s` at level `l`, of which `k` is copied or taken
out. -/
theorem constantLoop_utf8 (k m s : List Char) (l : Int) (out : List UInt8)
    (found : List (List UInt8)) (ht : text = k ++ (m ++ s)) (hr : offset s < rounds) :
    ∃ rest constants,
      constantLoop (utf8 text) rounds (.ofInt l) (offset k) (offset (k ++ m)) out found =
        some (out ++ utf8 (m ++ rest), found ++ constants.map utf8) ∧
      (l.natAbs + s.length < 2 ^ 31 →
        (rest, constants) = hoistConstantsFrom l (k ++ m).getLast? s) := by
  induction hl : s.length using Nat.strongRecOn generalizing k m s l out found rounds with
  | _ n ih =>
    cases s with
    | nil =>
      obtain ⟨rounds, rfl⟩ := Nat.exists_eq_add_one_of_ne_zero (Nat.ne_zero_of_lt hr)
      have hnone : (utf8 text)[offset (k ++ m)]? = none := by
        rw [List.getElem?_eq_none_iff]
        simp [ht]
      rw [List.append_nil] at ht
      refine ⟨[], [], ?_, fun _ => by rw [hoistConstantsFrom]⟩
      rw [constantLoop, hnone]
      simp only [slice?_suffix ht rfl]
      simp
    | cons c r =>
      rw [← List.append_assoc] at ht
      rw [List.length_cons] at hl
      -- The loop sees the wrapped level only, so a constant may be taken where `l` is not 0.
      by_cases htake : Int32.ofInt l = 0 ∧ atConst (k ++ m).getLast? (c :: r) = true ∧
        splitScan? statementStep 0 (c :: r) ≠ none
      · obtain ⟨hzero, ha, hs⟩ := htake
        obtain ⟨⟨v, e⟩, hs⟩ := Option.ne_none_iff_exists'.1 hs
        obtain ⟨hcr, d, w, t, rfl, hd⟩ := splitScan?_eq hs
        obtain rfl := eq_of_statementStep hd
        obtain ⟨rounds, rfl⟩ := Nat.exists_eq_add_one_of_ne_zero (Nat.ne_zero_of_lt hr)
        have hlen := congrArg List.length hcr
        simp only [List.length_append, List.length_cons] at hlen
        rw [hcr, List.append_cons, offset_append, offset_append, offset_mark (c := ';') rfl] at hr
        obtain ⟨rest, constants, hloop, hexact⟩ := ih w.length (by omega)
          (k ++ m ++ (v ++ [';'])) [] w l (out ++ utf8 m) (found ++ [utf8 (v ++ [';'])])
          (by simp [ht, hcr]) (show offset w < rounds by omega) rfl
        rw [List.append_nil, hzero] at hloop
        refine ⟨rest, (v ++ [';']) :: constants, ?_, fun hbound => ?_⟩
        · rw [hzero, constantLoop_take ht rfl ha hs, hloop]
          simp
        · obtain rfl := (ofInt_eq_zero_iff (by omega)).1 hzero
          have hsplit : splitStatement 0 (c :: r) = some (v ++ [';'], w) := by
            rw [← splitScan?_statement (l := 0) (by rw [List.length_cons]; omega)]
            exact congrArg (Option.map _) hs
          have hrest := hexact (by omega)
          rw [List.append_nil, List.getLast?_append_of_ne_nil _ (by simp)] at hrest
          rw [hoistConstantsFrom_take ha hsplit, ← hrest]
      · have hend : constantEnd? (utf8 text) (.ofInt l) c (offset (k ++ m)) = some none := by
          rw [constantEnd?_utf8 _ ht]
          split
          · rename_i hat
            rw [Option.map_eq_none_iff.2 (by_contra fun hs => htake ⟨hat.1, hat.2, hs⟩)]
          · rfl
        rw [← List.singleton_append, offset_append] at hr
        obtain ⟨rounds, rfl⟩ := Nat.exists_eq_add_of_le' (show offset [c] ≤ rounds by omega)
        obtain ⟨rest, constants, hloop, hexact⟩ := ih r.length (by omega) k (m ++ [c]) r
          (l + depth [c]) out found (by simp [ht]) (show offset r < rounds by omega) rfl
        rw [← List.append_assoc] at hloop hexact
        refine ⟨c :: rest, constants, ?_, fun hbound => ?_⟩
        · rw [constantLoop_keep ht hend, levelAfter_ofInt, hloop]
          simp
        · have hdepth := natAbs_depth_le (l := l) (c := c)
          have hkeep : l = 0 → atConst (k ++ m).getLast? (c :: r) = true →
              splitStatement 0 (c :: r) = none := by
            rintro rfl ha
            rw [← splitScan?_statement (l := 0) (by rw [List.length_cons]; omega)]
            exact Option.map_eq_none_iff.2 (by_contra fun hs => htake ⟨rfl, ha, hs⟩)
          have hrest := hexact (by omega)
          rw [List.getLast?_concat] at hrest
          rw [hoistConstantsFrom_keep hkeep, ← hrest]

end Constants

section Helpers

/-- The first opening of a helper in a text at the offset `i`: the offsets of its start and of what
follows it, and the name. -/
def openingFrom? (before : Option Char) (i : Nat) : List Char → Option (Nat × Nat × List Char)
  | [] => none
  | c :: r =>
    match helperOpening? before (c :: r) with
    | some (name, inner) => some (i, i + offset (consumed (c :: r) inner), name)
    | none => openingFrom? (some c) (i + offset [c]) r

/-- The offsets of the bracket that closes the one at an offset and of the first `{` after it. -/
def blockAt? (text : List UInt8) (i : Nat) : Option (Option (Nat × Nat)) := do
  let some close := closeOf? text i | return none
  return (find? (utf8 ['{']) (← slice? text close text.length)).map fun n => (close, close + n)

/-- The helper with its bracket at an offset, as the function it stands for, and the offset after
it. -/
def helperAt? (d : Dialect) (text : List UInt8) (name : List Char) (i : Nat) :
    Option (Option (List UInt8 × Nat)) := do
  let some (close, brace) ← blockAt? text i | return none
  let some stop := closeOf? text brace | return none
  let args := trim (← read? text (i + 1) close)
  let result := helperResult? (← read? text (close + 1) brace)
  let block ← slice? text brace (stop + 1)
  return some (utf8 (d.functionHead name args result ++ [' ']) ++ block, stop + 1)

/-- Takes out the helpers from the offset `i` on, in as many rounds at most. -/
def helperLoop (d : Dialect) : (rounds : Nat) → (text : List UInt8) → (i : Nat) →
    (found : List (List UInt8)) → Option (List UInt8 × List (List UInt8))
  | 0, _, _, _ => none
  | rounds + 1, text, i, found => do
    let before ← read? text 0 i
    match openingFrom? before.getLast? i (← read? text i text.length) with
    | none => return (text, found)
    | some (start, inside, name) =>
      match ← helperAt? d text name (inside - 1) with
      | none => return (text, found)
      | some (helper, stop) =>
        let text := (← slice? text 0 start) ++ (← slice? text stop text.length)
        helperLoop d rounds text start (found ++ [helper])

/-- Takes the helpers out of a text. -/
def hoistHelpers? (d : Dialect) (text : List UInt8) : Option (List UInt8 × List (List UInt8)) :=
  helperLoop d (text.length + 1) text 0 []

variable {d : Dialect} {b : Option Char} {text p cs r name inner rest helper : List Char}
  {i start inside rounds : Nat}

/-- A helper has its block after the first `{` that follows its arguments. -/
theorem helper?_splitWord : helper? d name inner =
    (splitClose 0 inner).bind fun s => (splitWord? ['{'] s.2).bind fun w =>
      (splitClose 0 w.2).map fun t =>
        (d.functionHead name (trim s.1) (helperResult? w.1) ++ [' '] ++ consumed ('{' :: w.2) t.2,
          t.2) := by
  rw [helper?]
  cases splitClose 0 inner with
  | none => rfl
  | some s =>
    simp only [Option.bind_some, splitWord?_singleton]
    cases hd : s.2.dropWhile (· != '{') with
    | nil => rfl
    | cons brace block =>
      obtain ⟨rfl, -⟩ := dropWhile_ne_eq_cons_iff.1 hd
      simp only [Option.bind_some]
      cases splitClose 0 block <;> rfl

theorem blockAt?_utf8 (ht : text = p ++ '(' :: inner) : blockAt? (utf8 text) (offset p) =
    some ((splitClose 0 inner).bind fun s => (splitWord? ['{'] s.2).map fun w =>
      (offset p + (1 + offset s.1), offset p + (1 + offset s.1) + (1 + offset w.1))) := by
  rw [blockAt?, closeOf?_utf8 ht rfl]
  cases hs : splitClose 0 inner with
  | none => rfl
  | some s =>
    obtain ⟨args, r⟩ := s
    obtain ⟨k, hk, rfl⟩ := splitClose_eq hs
    have hne : '{' ≠ k := by
      rintro rfl
      cases hk
    have hrest : slice? (utf8 text) (offset p + (1 + offset args)) (utf8 text).length =
        some (utf8 (k :: r)) :=
      slice?_suffix (p := p ++ '(' :: args) (by simp [ht]) (by simp [offset_mark (c := '(') rfl])
    have hword : splitWord? ['{'] (k :: r) = (splitWord? ['{'] r).map fun w => (k :: w.1, w.2) := by
      simp only [splitWord?, after?, hne, if_false]
    simp only [Option.map_some, hrest, Option.bind_eq_bind, Option.bind_some,
      find?_utf8 (w := ['{']) (by simp), hword, Option.map_map, Function.comp_def,
      offset_mark (c := k) (by simp [isMark, isStop, hk])]
    rfl

theorem hoistHelpersFrom_keep {c : Char} (h : helperOpening? b (c :: r) = none) :
    hoistHelpersFrom d b (c :: r) = (c :: (hoistHelpersFrom d (some c) r).1,
      (hoistHelpersFrom d (some c) r).2) := by
  rw [hoistHelpersFrom]
  simp only [h]

theorem hoistHelpersFrom_stop (h : helperOpening? b cs = some (name, inner))
    (hh : helper? d name inner = none) : hoistHelpersFrom d b cs = (cs, []) := by
  cases cs with
  | nil => rw [hoistHelpersFrom]
  | cons c r =>
    rw [hoistHelpersFrom]
    simp only [h, hh]

theorem hoistHelpersFrom_take (h : helperOpening? b cs = some (name, inner))
    (hh : helper? d name inner = some (helper, rest)) (hlen : rest.length < cs.length) :
    hoistHelpersFrom d b cs =
      ((hoistHelpersFrom d b rest).1, helper :: (hoistHelpersFrom d b rest).2) := by
  cases cs with
  | nil => cases hlen
  | cons c r =>
    rw [hoistHelpersFrom]
    simp only [h, hh, if_pos hlen]

theorem openingFrom?_none (h : openingFrom? b i cs = none) :
    hoistHelpersFrom d b cs = (cs, []) := by
  induction cs generalizing b i with
  | nil => rw [hoistHelpersFrom]
  | cons c cs ih =>
    rw [openingFrom?] at h
    split at h
    · cases h
    · rename_i ho
      rw [hoistHelpersFrom_keep ho, ih h]

/-- What stands before the first opening is left. -/
theorem openingFrom?_some (h : openingFrom? b i cs = some (start, inside, name)) :
    ∃ p x inner, cs = p ++ (x ++ '(' :: inner) ∧ start = i + offset p ∧
      inside = i + offset (p ++ x) + 1 ∧
      helperOpening? (p.getLast?.or b) (x ++ '(' :: inner) = some (name, inner) ∧
      hoistHelpersFrom d b cs = (p ++ (hoistHelpersFrom d (p.getLast?.or b) (x ++ '(' :: inner)).1,
        (hoistHelpersFrom d (p.getLast?.or b) (x ++ '(' :: inner)).2) := by
  induction cs generalizing b i with
  | nil => cases h
  | cons c cs ih =>
    rw [openingFrom?] at h
    split at h
    · rename_i inner ho
      cases h
      obtain ⟨-, w, w', -, -, -, -, hcs⟩ := helperOpening?_iff.1 ho
      obtain ⟨x, hx⟩ : ∃ x, c :: cs = x ++ '(' :: inner :=
        ⟨"function".toList ++ (w ++ (name ++ w')), by simp [hcs]⟩
      refine ⟨[], x, inner, hx, rfl, ?_, hx ▸ ho, by rw [← hx]; rfl⟩
      rw [hx, List.append_cons, consumed_append, offset_append, offset_mark rfl]
      rfl
    · rename_i ho
      obtain ⟨p, x, inner, rfl, rfl, rfl, hopen, htake⟩ := ih h
      have hlast : (c :: p).getLast?.or b = p.getLast?.or (some c) := by
        rw [List.getLast?_cons]
        cases p.getLast? <;> rfl
      have hoffset : offset (c :: p) = offset [c] + offset p := offset_append (p := [c])
      refine ⟨c :: p, x, inner, rfl, by rw [hoffset, Nat.add_assoc], ?_, hlast ▸ hopen, ?_⟩
      · rw [offset_append, offset_append, hoffset]
        omega
      · rw [hoistHelpersFrom_keep ho, htake, hlast]
        rfl

/-- A helper is read off the text after its opening. -/
theorem helperAt?_utf8 (d : Dialect) (name : List Char) (ht : text = p ++ '(' :: inner) :
    helperAt? d (utf8 text) name (offset p) =
    some ((helper? d name inner).map fun h =>
      (utf8 h.1, offset (p ++ '(' :: consumed inner h.2))) := by
  rw [helperAt?, blockAt?_utf8 ht, helper?_splitWord]
  cases hs : splitClose 0 inner with
  | none => rfl
  | some s =>
    obtain ⟨args, r⟩ := s
    simp only [Option.bind_some]
    cases hw : splitWord? ['{'] r with
    | none => rfl
    | some w =>
      obtain ⟨between, block⟩ := w
      obtain ⟨k, hk, rfl⟩ := splitClose_eq hs
      obtain rfl := splitWord?_eq hw
      have hopen := offset_mark (c := '(') rfl
      have hclose := offset_mark (c := k) (by simp [isMark, isStop, hk])
      have hbegin := offset_mark (c := '{') rfl
      have hbrace : offset p + (1 + offset args) + (1 + offset between) =
          offset (p ++ '(' :: (args ++ k :: between)) := by
        simp [hopen, hclose, Nat.add_assoc]
      have hstop : closeOf? (utf8 text) (offset (p ++ '(' :: (args ++ k :: between))) =
          (splitClose 0 block).map fun t =>
            offset (p ++ '(' :: (args ++ k :: between)) + (1 + offset t.1) :=
        closeOf?_utf8 (c := '{') (by simp [ht]) rfl
      simp only [Option.map_some, Option.bind_eq_bind, Option.bind_some, hbrace, hstop]
      cases hi : splitClose 0 block with
      | none => rfl
      | some t =>
        obtain ⟨inside, rest⟩ := t
        obtain ⟨k', hk', rfl⟩ := splitClose_eq hi
        have hend := offset_mark (c := k') (by simp [isMark, isStop, hk'])
        have hargs : read? (utf8 text) (offset p + 1) (offset p + (1 + offset args)) = some args :=
          read?_utf8 (p := p ++ ['(']) (q := k :: (between ++ '{' :: (inside ++ k' :: rest)))
            (by simp [ht]) (by simp [hopen]) (by simp [hopen, Nat.add_assoc])
        have hresult : read? (utf8 text) (offset p + (1 + offset args) + 1)
            (offset (p ++ '(' :: (args ++ k :: between))) = some between :=
          read?_utf8 (p := p ++ '(' :: (args ++ [k])) (q := '{' :: (inside ++ k' :: rest))
            (by simp [ht]) (by simp [hopen, hclose, Nat.add_assoc])
            (by simp [hopen, hclose, Nat.add_assoc])
        have hslice : slice? (utf8 text) (offset (p ++ '(' :: (args ++ k :: between)))
            (offset (p ++ '(' :: (args ++ k :: between)) + (1 + offset inside) + 1) =
              some (utf8 ('{' :: (inside ++ [k']))) :=
          slice?_utf8 (q := rest) (by simp [ht]) rfl (by simp [hbegin, hend, Nat.add_assoc])
        have hblock : consumed ('{' :: (inside ++ k' :: rest)) rest = '{' :: (inside ++ [k']) :=
          consumed_eq (by simp)
        have hspan : consumed (args ++ k :: (between ++ (['{'] ++ (inside ++ k' :: rest)))) rest =
            args ++ k :: (between ++ '{' :: (inside ++ [k'])) := consumed_eq (by simp)
        simp only [Option.map_some, hargs, hresult, hslice, hblock, hspan, Option.bind_some]
        refine congrArg (fun z => some (some z)) (Prod.ext utf8_append.symm ?_)
        simp [hopen, hclose, hbegin, hend, Nat.add_assoc]

theorem helper?_append (h : helper? d name inner = some (helper, rest)) :
    ∃ k, inner = k ++ rest := by
  rw [helper?_eq] at h
  obtain ⟨⟨g, rest'⟩, hr, he⟩ := Option.map_eq_some_iff.1 h
  cases he
  obtain ⟨args, k, between, inside, k', -, -, -, -, -, rfl, -⟩ := readHelper?_iff.1 hr
  exact ⟨args ++ k :: (between ++ '{' :: (inside ++ [k'])), by simp⟩

/-- The loop over the rest `s` of a text, of which `p` is left. -/
theorem helperLoop_utf8 (p s : List Char) (found : List (List UInt8)) (hr : s.length < rounds) :
    helperLoop d rounds (utf8 (p ++ s)) (offset p) found =
      some (utf8 (p ++ (hoistHelpersFrom d p.getLast? s).1),
        found ++ (hoistHelpersFrom d p.getLast? s).2.map utf8) := by
  induction rounds generalizing p s found with
  | zero => cases hr
  | succ rounds ih =>
    rw [helperLoop]
    simp only [read?_front (v := p) (q := s) rfl rfl, read?_suffix (p := p) (v := s) rfl rfl,
      Option.bind_eq_bind, Option.bind_some]
    cases ho : openingFrom? p.getLast? (offset p) s with
    | none =>
      rw [openingFrom?_none ho]
      simp
    | some o =>
      obtain ⟨start, inside, name⟩ := o
      obtain ⟨v, x, inner, rfl, rfl, rfl, hopen, htake⟩ := openingFrom?_some (d := d) ho
      rw [← List.getLast?_append] at hopen htake
      have hat := helperAt?_utf8 d name (p := p ++ (v ++ x))
        (show p ++ (v ++ (x ++ '(' :: inner)) = p ++ (v ++ x) ++ '(' :: inner by simp)
      rw [offset_append] at hat
      simp only [Nat.add_sub_cancel, hat, Option.bind_some]
      cases hh : helper? d name inner with
      | none =>
        rw [htake, hoistHelpersFrom_stop hopen hh]
        simp
      | some g =>
        obtain ⟨helper, rest⟩ := g
        obtain ⟨k, rfl⟩ := helper?_append hh
        have hlen : rest.length < (x ++ '(' :: (k ++ rest)).length := by simp; omega
        have hstart : slice? (utf8 (p ++ (v ++ (x ++ '(' :: (k ++ rest))))) 0
            (offset p + offset v) = some (utf8 (p ++ v)) :=
          slice?_utf8 (p := []) (q := x ++ '(' :: (k ++ rest)) (by simp) rfl (by simp)
        have hstop : slice? (utf8 (p ++ (v ++ (x ++ '(' :: (k ++ rest)))))
            (offset (p ++ (v ++ x) ++ '(' :: k))
            (utf8 (p ++ (v ++ (x ++ '(' :: (k ++ rest))))).length = some (utf8 rest) :=
          slice?_suffix (p := p ++ (v ++ x) ++ '(' :: k) (by simp) rfl
        rw [List.length_append] at hr
        -- The new text is `p ++ v ++ rest`, and the loop goes on where `rest` starts in it.
        simp only [Option.map_some, consumed_append, hstart, hstop, Option.bind_some]
        rw [← utf8_append, ← offset_append, ih (p ++ v) rest _ (by omega), htake,
          hoistHelpersFrom_take hopen hh hlen]
        simp

end Helpers

section Main

/-- The bytes of what hoisting leaves of a text and of what it takes out. -/
def utf8Parts (parts : List Char × List (List Char)) : List UInt8 × List (List UInt8) :=
  (utf8 parts.1, parts.2.map utf8)

theorem substitute?_of_lt {name text : List Char} (hne : name ≠ []) (max : Nat)
    (f : Subscript → List Char) (h : text.length < 2 ^ 31) :
    substitute? name max f (utf8 text) = some (utf8 (substitute name max f text)) := by
  obtain ⟨out, hout, hexact⟩ := substitutes (f := f) hne text
  rw [← hexact h]
  exact hout

/-- Constants are taken out by offsets, as by characters if these can be counted. -/
theorem hoistsConstants (text : List Char) :
    ∃ parts, hoistConstants? (utf8 text) = some (utf8Parts parts) ∧
      (text.length < 2 ^ 31 → parts = hoistConstants text) := by
  obtain ⟨rest, constants, hloop, hexact⟩ :=
    constantLoop_utf8 [] [] text 0 [] [] rfl (Nat.lt_succ_self (offset text))
  exact ⟨(rest, constants), hloop, fun hbound => hexact (by simpa using hbound)⟩

theorem hoistConstants?_of_lt {text : List Char} (h : text.length < 2 ^ 31) :
    hoistConstants? (utf8 text) = some (utf8Parts (hoistConstants text)) := by
  obtain ⟨parts, hparts, hexact⟩ := hoistsConstants text
  rw [hparts, hexact h]

/-- A text of fewer than `2 ^ 31` characters is divided into what is copied and the uses, which
alone are replaced in its bytes. -/
theorem substitute?_divides {name text : List Char} (hne : name ≠ []) (max : Nat)
    (h : text.length < 2 ^ 31) :
    ∃ ps, Divides (FindsUse name max) (IsPassed name max) [] text ps ∧
      ∀ f, substitute? name max f (utf8 text) =
        some (utf8 (filled (fun s => f (s.map (substitute name max f))) ps)) := by
  obtain ⟨ps, hps, hfilled⟩ := divides_substituteFrom hne max [] text
  exact ⟨ps, hps, fun f => (substitute?_of_lt hne max f h).trans
    (congrArg (some ∘ utf8) (hfilled f))⟩

/-- A text of fewer than `2 ^ 31` characters is divided into its constants, which are taken out of
its bytes, and what is left of them. -/
theorem hoistConstants?_divides {text : List Char} (h : text.length < 2 ^ 31) :
    ∃ ps, Divides FindsConstant (NothingAt FindsConstant) [] text ps ∧
      hoistConstants? (utf8 text) =
        some (utf8 (remaining ps), (takenOut ps).map fun p => utf8 p.1) := by
  obtain ⟨ps, hps, hhoist⟩ := divides_hoistConstantsFrom [] text
  refine ⟨ps, hps, (hoistConstants?_of_lt h).trans (congrArg some ?_)⟩
  rw [utf8Parts, hoistConstants, ← show depth [] = 0 from rfl, ← List.getLast?_nil, hhoist,
    List.map_map]
  rfl

/-- Substituting and hoisting by offsets answer on every text, whatever its brackets are, and with
texts only: every loop ends, after a round for each offset at the latest, and every cut is between
offsets that `slice?_eq_some_iff` allows. The answers are those that come of going over the
characters, for uses and constants as long as a counter of 32 bits can count the characters. -/
theorem scanners_safe (name : List Char) (hne : name ≠ []) (max : Nat) (f : Subscript → List Char)
    (d : Dialect) (text : List Char) :
    (∃ out, substitute? name max f (utf8 text) = some (utf8 out) ∧
      (text.length < 2 ^ 31 → out = substitute name max f text)) ∧
    (∃ parts, hoistConstants? (utf8 text) = some (utf8Parts parts) ∧
      (text.length < 2 ^ 31 → parts = hoistConstants text)) ∧
    hoistHelpers? d (utf8 text) = some (utf8Parts (hoistHelpers d text)) := by
  have hrounds : text.length < (utf8 text).length + 1 := Nat.lt_succ_of_le length_le_offset
  exact ⟨substitutes hne text, hoistsConstants text, helperLoop_utf8 [] text [] hrounds⟩

/-- Characters of two and three bytes stand in the name, in an index, in a value, as a blank, in a
constant and in a helper, and a bracket is not closed. -/
theorem scanners_safe_wide :
    substitute? "é".toList 1 (printed "a".toList)
        (utf8 "é\u3000[é[ü]]-=ñ;const ö=1;function f(ï)\x7b\x7d[é[".toList) =
      some (utf8 "a[a[ü]]-=ñ;const ö=1;function f(ï)\x7b\x7d[é[".toList) ∧
    hoistConstants? (utf8 "é\u3000[é[ü]]-=ñ;const ö=1;function f(ï)\x7b\x7d[é[".toList) =
      some (utf8Parts ("é\u3000[é[ü]]-=ñ;function f(ï)\x7b\x7d[é[".toList, ["const ö=1;".toList])) ∧
    hoistHelpers? .wgsl (utf8 "é\u3000[é[ü]]-=ñ;const ö=1;function f(ï)\x7b\x7d[é[".toList) =
      some (utf8Parts ("é\u3000[é[ü]]-=ñ;const ö=1;[é[".toList, ["fn f(ï) \x7b\x7d".toList])) := by
  obtain ⟨⟨out, hout, hsub⟩, ⟨parts, hparts, hconst⟩, hhelpers⟩ := scanners_safe "é".toList
    (by decide) 1 (printed "a".toList) .wgsl
    "é\u3000[é[ü]]-=ñ;const ö=1;function f(ï)\x7b\x7d[é[".toList
  rw [hout, hsub (by decide), hparts, hconst (by decide), hhelpers]
  decide +kernel

end Main

end ComputeKernel.Body.ByOffset
