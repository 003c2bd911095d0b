import Mathlib.Algebra.Group.Nat.Defs
import ComputeKernel.Proofs.Partition
import ComputeKernel.Proofs.Utf8

/-!
# Scanning bytes

A scan goes over bytes one by one and looks for the offset at which a level, a statement or a value
ends. It takes each byte for the character with its number. The bytes of the characters beyond
ASCII are large numbers themselves, so over the UTF-8 of a text a scan does what it does over the
characters (`scan?_utf8`) and ends where the text is split by `splitClose`, `splitStatement` or
`splitValue`. For statements and values this needs fewer characters than a counter of 32 bits can
count; in any text they end between two characters.
-/

namespace ComputeKernel.Text

/-- What a scan does at a character: go on, end there, or fail. -/
inductive Verdict (σ : Type) where
  | next (state : σ)
  | here
  | nowhere

/-- The offset at which a scan ends that starts with the bytes at the offset `i`. -/
def scan? {σ : Type} (step : σ → Char → Verdict σ) (s : σ) (i : Nat) : List UInt8 → Option Nat
  | [] => none
  | b :: r =>
    match step s (.ofUInt8 b) with
    | .next s => scan? step s (i + 1) r
    | .here => some i
    | .nowhere => none

/-- The search for the bracket that closes the first one. -/
def closeStep (depth : Nat) (c : Char) : Verdict Nat :=
  if isOpen c then .next (depth + 1)
  else if isClose c then
    match depth with
    | 0 => .nowhere
    | 1 => .here
    | depth + 2 => .next (depth + 1)
  else .next depth

/-- The level after a character, in a counter that wraps. -/
def levelAfter (level : Int32) (c : Char) : Int32 :=
  if isOpen c then level + 1 else if isClose c then level - 1 else level

/-- The search for the end of a statement. -/
def statementStep (level : Int32) (c : Char) : Verdict Int32 :=
  if c == ';' && level == 0 then .here else .next (levelAfter level c)

/-- The search for the end of a value. -/
def valueStep (level : Int32) (c : Char) : Verdict Int32 :=
  if isStop c && level == 0 then .here else .next (levelAfter level c)

/-- The offset of the bracket that closes the one at an offset. -/
def closeOf? (bytes : List UInt8) (i : Nat) : Option Nat := scan? closeStep 0 i (bytes.drop i)

/-- The offset of the `;` that ends the statement at an offset. -/
def statementEnd? (bytes : List UInt8) (i : Nat) : Option Nat :=
  scan? statementStep 0 i (bytes.drop i)

/-- The offset at which the value at an offset ends. -/
def valueEnd (bytes : List UInt8) (i : Nat) : Nat :=
  (scan? valueStep 0 i (bytes.drop i)).getD bytes.length

/-- The offset of the first character at or after an offset that is not blank. -/
def skipBlanks? (bytes : List UInt8) (i : Nat) : Option Nat :=
  (read? bytes i bytes.length).map fun rest =>
    i + (bytes.length - i) - (utf8 (trimStart rest)).length

/-- The first offset at which `word` stands. -/
def find? (word : List UInt8) : List UInt8 → Option Nat
  | [] => if word.isEmpty then some 0 else none
  | b :: r => if word.isPrefixOf (b :: r) then some 0 else (find? word r).map (· + 1)

section Bytes

variable {c : Char}

theorem toNat_ofUInt8 (b : UInt8) : (Char.ofUInt8 b).toNat = b.toNat := by
  show b.toUInt32.toNat = b.toNat
  exact UInt8.toNat_toUInt32 b

/-- A character is its only byte, or all of its bytes are beyond ASCII, as it is. -/
theorem utf8EncodeChar_cases (c : Char) :
    (∃ b, String.utf8EncodeChar c = [b] ∧ Char.ofUInt8 b = c) ∨
      128 ≤ c.toNat ∧ ∀ b ∈ String.utf8EncodeChar c, 128 ≤ (Char.ofUInt8 b).toNat := by
  have hor : ∀ x y : UInt8, 128 ≤ y.toNat → 128 ≤ (Char.ofUInt8 (x ||| y)).toNat := fun x y hy => by
    rw [toNat_ofUInt8, UInt8.toNat_or]
    exact Nat.le_trans hy Nat.right_le_or
  have hlarge : c.utf8Size ≠ 1 → 128 ≤ c.toNat := fun h => by
    rw [Ne, Char.utf8Size_eq_one_iff, UInt32.le_iff_toNat_le] at h
    exact Nat.lt_of_not_le h
  rcases c.utf8Size_eq with h | h | h | h
  · refine .inl ⟨_, String.utf8EncodeChar_eq_singleton h, Char.ext (UInt32.toNat.inj ?_)⟩
    rw [Char.utf8Size_eq_one_iff, UInt32.le_iff_toNat_le] at h
    exact Nat.mod_eq_of_lt (Nat.lt_of_le_of_lt h (by decide))
  · refine .inr ⟨hlarge (by omega), ?_⟩
    rw [String.utf8EncodeChar_eq_cons_cons h]
    simp [hor]
  · refine .inr ⟨hlarge (by omega), ?_⟩
    rw [String.utf8EncodeChar_eq_cons_cons_cons h]
    simp [hor]
  · refine .inr ⟨hlarge (by omega), ?_⟩
    rw [String.utf8EncodeChar_eq_cons_cons_cons_cons h]
    simp [hor]

theorem isMark_of_large (h : 128 ≤ c.toNat) : Body.isMark c = false :=
  Body.not_mark (p := fun c => decide (128 ≤ c.toNat)) (by decide) (by simpa using h)

/-- A mark is one byte. -/
theorem offset_mark (h : Body.isMark c = true) (cs : List Char) :
    offset (c :: cs) = 1 + offset cs := by
  rcases utf8EncodeChar_cases c with ⟨b, hb, -⟩ | ⟨hc, -⟩
  · rw [offset_cons, hb]
    rfl
  · rw [isMark_of_large hc] at h
    cases h

end Bytes

section Scans

variable {σ : Type} {step : σ → Char → Verdict σ} {s t : σ} {i : Nat} {c : Char}
  {cs v r : List Char}

/-- Splits a text before the character at which a scan ends. -/
def splitScan? (step : σ → Char → Verdict σ) (s : σ) : List Char → Option (List Char × List Char)
  | [] => none
  | c :: r =>
    match step s c with
    | .next s => (splitScan? step s r).map fun p => (c :: p.1, p.2)
    | .here => some ([], c :: r)
    | .nowhere => none

/-- A text is split before a character at which the scan ends. -/
theorem splitScan?_eq (h : splitScan? step s cs = some (v, r)) :
    cs = v ++ r ∧ ∃ c w t, r = c :: w ∧ step t c = .here := by
  induction cs generalizing s v with
  | nil => cases h
  | cons c cs ih =>
    rw [splitScan?] at h
    split at h
    · obtain ⟨⟨v', r'⟩, hp, he⟩ := Option.map_eq_some_iff.1 h
      cases he
      obtain ⟨rfl, hend⟩ := ih hp
      exact ⟨rfl, hend⟩
    · rename_i hs
      cases h
      exact ⟨rfl, c, cs, s, rfl, hs⟩
    · cases h

theorem scan?_next {b : UInt8} {r : List UInt8} (h : step s (.ofUInt8 b) = .next t) :
    scan? step s i (b :: r) = scan? step t (i + 1) r := by
  simp only [scan?, h]

theorem splitScan?_next (h : step s c = .next t) :
    splitScan? step s (c :: r) = (splitScan? step t r).map fun p => (c :: p.1, p.2) := by
  simp only [splitScan?, h]

theorem splitScan?_here (h : step s c = .here) :
    splitScan? step s (c :: r) = some ([], c :: r) := by
  simp only [splitScan?, h]

theorem scan?_append {bs r : List UInt8} (hbs : ∀ b ∈ bs, step s (.ofUInt8 b) = .next s) :
    scan? step s i (bs ++ r) = scan? step s (i + bs.length) r := by
  induction bs generalizing i with
  | nil => rfl
  | cons b bs ih =>
    rw [List.cons_append, scan?_next (hbs b List.mem_cons_self),
      ih fun d hd => hbs d (List.mem_cons_of_mem _ hd), List.length_cons, Nat.add_right_comm]
    rfl

/-- A scan that goes on at the characters beyond ASCII goes over bytes as it goes over text. -/
theorem scan?_utf8 (hstep : ∀ s c, 128 ≤ c.toNat → step s c = .next s) :
    scan? step s i (utf8 cs) = (splitScan? step s cs).map fun p => i + offset p.1 := by
  induction cs generalizing s i with
  | nil => rfl
  | cons c cs ih =>
    rw [splitScan?, utf8_cons]
    rcases utf8EncodeChar_cases c with ⟨b, hb, rfl⟩ | ⟨hc, hbs⟩
    · rw [hb, List.singleton_append, scan?]
      cases step s (.ofUInt8 b) with
      | next s =>
        simp only [ih, Option.map_map, Function.comp_def, offset_cons, hb, List.length_singleton,
          Nat.add_assoc]
      | here => rfl
      | nowhere => rfl
    · rw [scan?_append fun b hb => hstep s _ (hbs b hb), ih, hstep s c hc]
      simp only [Option.map_map, Function.comp_def, offset_cons, Nat.add_assoc]

end Scans

section Ends

variable {c : Char} {text p cs : List Char} {l : Int} {d : Nat}

theorem depth_cases (c : Char) : isOpen c = true ∧ Body.depth [c] = 1 ∨
    isOpen c = false ∧ isClose c = true ∧ Body.depth [c] = -1 ∨
    isOpen c = false ∧ isClose c = false ∧ Body.depth [c] = 0 := by
  cases ho : isOpen c with
  | true => exact .inl ⟨rfl, Body.depth_open ho⟩
  | false =>
    cases hc : isClose c with
    | true => exact .inr (.inl ⟨rfl, rfl, Body.depth_close hc⟩)
    | false => exact .inr (.inr ⟨rfl, rfl, Body.depth_other ho hc⟩)

theorem levelAfter_ofInt : levelAfter (.ofInt l) c = .ofInt (l + Body.depth [c]) := by
  rw [Int32.ofInt_add]
  rcases depth_cases c with ⟨ho, hd⟩ | ⟨ho, hc, hd⟩ | ⟨ho, hc, hd⟩
  · rw [hd, levelAfter, if_pos ho]
    rfl
  · rw [hd, levelAfter, ho, hc, if_neg Bool.false_ne_true, if_pos rfl, Int32.sub_eq_add_neg]
    rfl
  · rw [hd, levelAfter, ho, hc]
    exact (Int32.add_zero _).symm

theorem natAbs_depth_le : (l + Body.depth [c]).natAbs ≤ l.natAbs + 1 := by
  rcases depth_cases c with ⟨-, hd⟩ | ⟨-, -, hd⟩ | ⟨-, -, hd⟩ <;> omega

theorem ofInt_eq_zero_iff (h : l.natAbs < 2 ^ 31) : Int32.ofInt l = 0 ↔ l = 0 := by
  constructor
  · intro h0
    rw [← Int32.toInt_ofInt_of_le (n := l) (by omega) (by omega), h0]
    rfl
  · rintro rfl
    rfl

theorem large_not_bracket (h : 128 ≤ c.toNat) :
    isOpen c = false ∧ isStop c = false ∧ c ≠ ';' ∧ ∀ s, levelAfter s c = s := by
  obtain ⟨ho, hc, he, -⟩ := Body.mark_eq_false (isMark_of_large h)
  exact ⟨ho, by simp [isStop, hc, he], he, fun s => by simp [levelAfter, ho, hc]⟩

/-- The scan for a closing bracket ends where the text is split. -/
theorem splitScan?_close : (splitScan? closeStep (d + 1) cs).map (fun p => (p.1, p.2.tail)) =
    splitClose d cs := by
  induction cs generalizing d with
  | nil => rfl
  | cons c cs ih =>
    have hnext : ∀ d, Option.map (fun p => (p.1, p.2.tail))
        ((splitScan? closeStep (d + 1) cs).map fun p => (c :: p.1, p.2)) =
        (splitClose d cs).map fun p => (c :: p.1, p.2) := fun d => by
      rw [← ih, Option.map_map, Option.map_map]
      rfl
    cases ho : isOpen c with
    | true =>
      rw [splitScan?_next (t := d + 2) (by simp [closeStep, ho]), hnext, splitClose, if_pos ho]
    | false =>
      cases hc : isClose c with
      | false =>
        rw [splitScan?_next (t := d + 1) (by simp [closeStep, ho, hc]), hnext]
        simp [splitClose, ho, hc]
      | true =>
        cases d with
        | zero =>
          rw [splitScan?_here (by simp [closeStep, ho, hc])]
          simp [splitClose, ho, hc]
        | succ d =>
          rw [splitScan?_next (t := d + 1) (by simp [closeStep, ho, hc]), hnext]
          simp [splitClose, ho, hc]

/-- With fewer characters than the counter can count, the scan for the end of a statement ends
where the text is split. -/
theorem splitScan?_statement (h : l.natAbs + cs.length < 2 ^ 31) :
    (splitScan? statementStep (.ofInt l) cs).map (fun p => (p.1 ++ [';'], p.2.tail)) =
      splitStatement l cs := by
  induction cs generalizing l with
  | nil => rfl
  | cons c cs ih =>
    rw [List.length_cons] at h
    have hzero := ofInt_eq_zero_iff (l := l) (by omega)
    have hl := natAbs_depth_le (l := l) (c := c)
    by_cases hend : c = ';' ∧ l = 0
    · obtain ⟨rfl, rfl⟩ := hend
      rw [Body.splitStatement_end, splitScan?_here rfl]
      rfl
    · have hstep : statementStep (.ofInt l) c = .next (.ofInt (l + Body.depth [c])) := by
        rw [statementStep, if_neg (by simpa [hzero] using hend), levelAfter_ofInt]
      rw [Body.splitStatement_cons hend, splitScan?_next hstep, ← ih (by omega), Option.map_map,
        Option.map_map]
      rfl

/-- A value goes on over a character that does not end it. -/
theorem splitValue_cons (r : List Char) (h : ¬ (isStop c = true ∧ d = 0)) :
    ∃ e : Nat, (e : Int) = d + Body.depth [c] ∧
      splitValue d (c :: r) = (c :: (splitValue e r).1, (splitValue e r).2) := by
  rcases depth_cases c with ⟨ho, hc⟩ | ⟨ho, hs, hc⟩ | ⟨ho, hs, hc⟩
  · exact ⟨d + 1, by omega, by simp [splitValue, ho]⟩
  · have hd : d ≠ 0 := fun hd => h ⟨by simp [isStop, hs], hd⟩
    exact ⟨d - 1, by omega, by simp [splitValue, ho, hs, hd]⟩
  · have hend : ¬ (c = ';' ∧ d = 0) := fun he => h ⟨by simp [isStop, he.1], he.2⟩
    exact ⟨d, by omega, by simp [splitValue, ho, hs, hend]⟩

/-- With fewer characters than the counter can count, the scan for the end of a value ends where the
text is split. -/
theorem splitScan?_value (h : d + cs.length < 2 ^ 31) :
    (splitScan? valueStep (.ofInt d) cs).getD (cs, []) = splitValue d cs := by
  induction cs generalizing d with
  | nil => rfl
  | cons c cs ih =>
    rw [List.length_cons] at h
    have hzero := ofInt_eq_zero_iff (l := d) (by omega)
    by_cases hend : isStop c = true ∧ d = 0
    · obtain ⟨hs, rfl⟩ := hend
      rw [splitScan?_here (by simp [valueStep, hs])]
      exact (splitValue_of_level (x := []) rfl hs).symm
    · have hstep : valueStep (.ofInt d) c = .next (.ofInt (d + Body.depth [c])) := by
        rw [valueStep, if_neg (by simpa [hzero] using hend), levelAfter_ofInt]
      obtain ⟨e, he, hsplit⟩ := splitValue_cons cs hend
      have hl := natAbs_depth_le (l := d) (c := c)
      rw [hsplit, splitScan?_next hstep, ← he, ← ih (by omega)]
      cases splitScan? valueStep (.ofInt e) cs <;> rfl

theorem closeOf?_utf8 (ht : text = p ++ c :: cs) (ho : isOpen c = true) :
    closeOf? (utf8 text) (offset p) =
      (splitClose 0 cs).map fun s => offset p + (1 + offset s.1) := by
  have hstep : ∀ s c, 128 ≤ c.toNat → closeStep s c = .next s := fun s c h => by
    obtain ⟨ho, hs, -⟩ := large_not_bracket h
    simp [closeStep, ho, (Bool.or_eq_false_iff.1 hs).1]
  have hmark : Body.isMark c = true := by simp [Body.isMark, ho]
  rw [closeOf?, drop_utf8 ht, scan?_utf8 hstep,
    splitScan?_next (t := 1) (by simp [closeStep, ho]), ← splitScan?_close, Option.map_map,
    Option.map_map]
  simp only [Function.comp_def, offset_mark hmark]

theorem statementEnd?_utf8 (ht : text = p ++ cs) : statementEnd? (utf8 text) (offset p) =
    (splitScan? statementStep 0 cs).map fun s => offset p + offset s.1 := by
  have hstep : ∀ s c, 128 ≤ c.toNat → statementStep s c = .next s := fun s c h => by
    obtain ⟨-, -, he, hl⟩ := large_not_bracket h
    simp [statementStep, he, hl]
  rw [statementEnd?, drop_utf8 ht, scan?_utf8 hstep]

theorem valueEnd_utf8 (ht : text = p ++ cs) : valueEnd (utf8 text) (offset p) =
    offset p + offset ((splitScan? valueStep 0 cs).getD (cs, [])).1 := by
  have hstep : ∀ s c, 128 ≤ c.toNat → valueStep s c = .next s := fun s c h => by
    obtain ⟨-, hs, -, hl⟩ := large_not_bracket h
    simp [valueStep, hs, hl]
  rw [valueEnd, drop_utf8 ht, scan?_utf8 hstep]
  cases splitScan? valueStep 0 cs with
  | none => rw [Option.map_none, Option.getD_none, Option.getD_none, length_utf8, ht, offset_append]
  | some v => rfl

theorem skipBlanks?_utf8 {a : List Char} (ht : text = p ++ cs) (ha : cs = a ++ trimStart cs) :
    skipBlanks? (utf8 text) (offset p) = some (offset p + offset a) := by
  have hoffset := congrArg offset ha
  rw [offset_append] at hoffset
  rw [skipBlanks?, read?_suffix ht rfl, Option.map_some, length_utf8, length_utf8, ht,
    offset_append]
  congr 1
  omega

end Ends

section Words

variable {w cs v r : List Char}

/-- What stands in a text before the first place where `word` stands, and what stands after it. -/
def splitWord? (word : List Char) : List Char → Option (List Char × List Char)
  | [] => none
  | c :: r =>
    match after? word (c :: r) with
    | some rest => some ([], rest)
    | none => (splitWord? word r).map fun p => (c :: p.1, p.2)

theorem splitWord?_eq (h : splitWord? w cs = some (v, r)) : cs = v ++ (w ++ r) := by
  induction cs generalizing v with
  | nil => cases h
  | cons c cs ih =>
    rw [splitWord?] at h
    split at h
    · rename_i ha
      cases h
      rw [List.nil_append]
      exact after?_eq_some ha
    · obtain ⟨⟨v', r'⟩, hs, he⟩ := Option.map_eq_some_iff.1 h
      cases he
      rw [ih hs]
      rfl

/-- A character is found where the characters before it are others. -/
theorem splitWord?_singleton (e : Char) (cs : List Char) : splitWord? [e] cs =
    match cs.dropWhile (· != e) with
    | [] => none
    | _ :: r => some (cs.takeWhile (· != e), r) := by
  induction cs with
  | nil => rfl
  | cons c cs ih =>
    by_cases hc : c = e
    · subst hc
      simp [splitWord?, after?]
    · have hne : e ≠ c := fun h => hc h.symm
      rw [List.dropWhile_cons_of_pos (by simpa using hc),
        List.takeWhile_cons_of_pos (by simpa using hc)]
      simp only [splitWord?, after?, hne, if_false, ih]
      cases cs.dropWhile (· != e) <;> rfl

theorem isPrefixOf_utf8 : (utf8 w).isPrefixOf (utf8 cs) = (after? w cs).isSome := by
  rw [Bool.eq_iff_iff, List.isPrefixOf_iff_prefix, utf8_prefix_iff, Option.isSome_iff_exists]
  exact exists_congr fun r => by rw [Body.after?_eq_some_iff, eq_comm]

/-- A word is not found where no character starts. -/
theorem find?_append {b : UInt8} {word bs r : List UInt8} (hb : b.IsUTF8FirstByte)
    (hbs : ∀ d ∈ bs, ¬ d.IsUTF8FirstByte) :
    find? (b :: word) (bs ++ r) = (find? (b :: word) r).map (· + bs.length) := by
  induction bs with
  | nil => simp
  | cons d bs ih =>
    have hne : b ≠ d := fun h => hbs d List.mem_cons_self (h ▸ hb)
    rw [List.cons_append, find?, List.isPrefixOf, beq_false_of_ne hne, Bool.false_and,
      if_neg Bool.false_ne_true, ih fun e he => hbs e (List.mem_cons_of_mem _ he), Option.map_map]
    rfl

/-- A word is found in the bytes of a text where it is found in the text. -/
theorem find?_utf8 (hne : w ≠ []) :
    find? (utf8 w) (utf8 cs) = (splitWord? w cs).map fun p => offset p.1 := by
  obtain ⟨e, es, rfl⟩ := List.exists_cons_of_ne_nil hne
  obtain ⟨b, bs, he, hb, -⟩ := exists_firstByte e
  have hword : utf8 (e :: es) = b :: (bs ++ utf8 es) := by rw [utf8_cons, he]; rfl
  induction cs with
  | nil =>
    rw [hword]
    rfl
  | cons c cs ih =>
    obtain ⟨d, ds, hd, -, hds⟩ := exists_firstByte c
    have hcons : utf8 (c :: cs) = d :: (ds ++ utf8 cs) := by rw [utf8_cons, hd]; rfl
    rw [hcons, find?, ← hcons, isPrefixOf_utf8, splitWord?]
    cases after? (e :: es) (c :: cs) with
    | some r => rfl
    | none =>
      simp only [Option.isSome_none, Bool.false_eq_true, if_false]
      rw [hword, find?_append hb hds, ← hword, ih]
      have hoffset : ∀ v, offset v + ds.length + 1 = offset (c :: v) := fun v => by
        rw [offset_cons, hd, List.length_cons]
        omega
      simp only [Option.map_map, Function.comp_def, hoffset]

end Words

end ComputeKernel.Text
