import ComputeKernel.Proofs.Readback
import ComputeKernel.Body.Use

/-!
# Phrases of images and buffers

What `phraseImage` makes of a use is a call, and what `phraseBuffer` makes of one is a member of a
block with an index, which may be assigned to. Both keep brackets in order, bring no uniform marker
about and end as the value that they assign.
-/

namespace ComputeKernel.Body

open Text

/-- What all phrases have in common. -/
structure Phrasing (f : Subscript → List Char) : Prop where
  start : StartsIdent f
  level : KeepsLevel f
  markers : KeepsMarkers f
  ends : KeepsEnds f
  value : EndsWithValue f

section Calls

/-- A word with an argument list. -/
def call (word inner : List Char) : List Char := word ++ '(' :: (inner ++ [')'])

variable {n word inner x y : List Char} {b : Option Char} {stop : Bool} {l : Nat}

theorem level?_call (hw : ∀ l, level? stop l word = some l) (hi : Balanced inner) :
    level? stop l (call word inner) = some l := by
  unfold call
  rw [level?_append, hw, Option.bind_some, level?_open_append rfl, level?_append,
    hi.level (by simp), Option.bind_some, level?_close_append rfl]
  rfl

theorem getLast?_call : (call word inner).getLast? = some ')' := by
  simp [call, List.getLast?_append, List.getLast?_cons]

/-- An assignment of nothing at the end of a text does not start in a call. -/
theorem Dangles.call (hn : isIdentifier n = true) (hw : isIdentifier word = true)
    (hi : Balanced inner) (h : Dangles n b (Body.call word inner ++ y)) : Dangles n none y := by
  have h' : Dangles n b (word ++ '(' :: (inner ++ ')' :: y)) := by simpa [Body.call] using h
  have hin : Dangles n (some '(') (inner ++ ')' :: y) :=
    h'.word hn (fun _ => ident_of_mem hw) (by decide)
  exact (hin.past_stop hn hi (.inl rfl)).congr rfl

theorem count_dot_name (hn : isIdentifier n = true) : n.count '.' = 0 := by
  refine List.count_eq_zero.2 fun hm => ?_
  have := ident_of_mem hn hm
  revert this
  decide

/-- A call has no marker if its argument has none: there is one dot at most in its word. -/
theorem MarkerFree.call (hw : word.count '.' ≤ 1) (hi : MarkerFree inner) :
    MarkerFree (Body.call word inner) := by
  have hwf : MarkerFree (word ++ ['(']) := by
    refine markerFree_of_count ?_
    rw [List.count_append]
    simpa using hw
  have hif : MarkerFree (inner ++ [')']) :=
    hi.append (markerFree_of_count (by decide)) (.inr rfl)
  have := hwf.append hif (.inl (by simp [List.getLast?_append]; rfl))
  simpa [Body.call] using this

end Calls

section Images

/-- The type of a position. -/
def pairWord : Dialect → List Char
  | .wgsl => "vec2<i32>".toList
  | .glsl => "ivec2".toList

/-- The type of a coordinate. -/
def coordWord : Dialect → List Char
  | .wgsl => "i32".toList
  | .glsl => "int".toList

def loadWord : Dialect → List Char
  | .wgsl => "textureLoad".toList
  | .glsl => "imageLoad".toList

/-- The level at which an image is loaded, as the last argument. -/
def loadLevel : Dialect → Bool → List Char
  | .wgsl, false => ", 0".toList
  | _, _ => []

variable {d : Dialect} {name row col pos value : List Char} {readWrite : Bool} {place : Coords}
  {is : List (List Char)}

theorem text_rowCol : (Coords.rowCol row col).text d =
    call (pairWord d) (call (coordWord d) col ++ (", ".toList ++ call (coordWord d) row)) := by
  have hopen : (match d with
      | .wgsl => "vec2<i32>(i32("
      | .glsl => "ivec2(int(").toList = pairWord d ++ '(' :: (coordWord d ++ ['(']) := by
    cases d <;> decide
  have hnext : (match d with
      | .wgsl => "), i32("
      | .glsl => "), int(").toList = ')' :: (", ".toList ++ (coordWord d ++ ['('])) := by
    cases d <;> decide
  have hclose : "))".toList = [')', ')'] := rfl
  have htext : (Coords.rowCol row col).text d = (match d with
      | .wgsl => "vec2<i32>(i32("
      | .glsl => "ivec2(int(").toList ++ col ++ (match d with
      | .wgsl => "), i32("
      | .glsl => "), int(").toList ++ row ++ "))".toList := by
    cases d <;> rfl
  rw [htext, hopen, hnext, hclose]
  simp only [call, List.append_assoc, List.cons_append, List.nil_append]

theorem text_position : (Coords.position pos).text d = call (pairWord d) pos := by
  have hopen : (match d with
      | .wgsl => "vec2<i32>("
      | .glsl => "ivec2(").toList = pairWord d ++ ['('] := by
    cases d <;> decide
  have hclose : ")".toList = [')'] := rfl
  have htext : (Coords.position pos).text d = (match d with
      | .wgsl => "vec2<i32>("
      | .glsl => "ivec2(").toList ++ pos ++ ")".toList := by
    cases d <;> rfl
  rw [htext, hopen, hclose]
  simp only [call, List.append_assoc, List.cons_append, List.nil_append]

theorem imageStore_eq : d.imageStore name place value = call d.storeFunction.toList
    (name ++ (", ".toList ++ (place.text d ++ (", ".toList ++ value)))) := by
  simp only [Dialect.imageStore, call, List.append_assoc]
  rfl

theorem imageLoad_eq : d.imageLoad name place readWrite = call (loadWord d)
    (name ++ (", ".toList ++ (place.text d ++ loadLevel d readWrite))) := by
  have hopen : (match d with
      | .wgsl => "textureLoad("
      | .glsl => "imageLoad(").toList = loadWord d ++ ['('] := by
    cases d <;> decide
  have hclose : (if d = .wgsl ∧ readWrite = false then ", 0)" else ")").toList =
      loadLevel d readWrite ++ [')'] := by
    cases d <;> cases readWrite <;> decide
  have htext : d.imageLoad name place readWrite = (match d with
      | .wgsl => "textureLoad("
      | .glsl => "imageLoad(").toList ++ name ++ ", ".toList ++ place.text d ++
        (if d = .wgsl ∧ readWrite = false then ", 0)" else ")").toList := by
    cases d <;> cases readWrite <;> rfl
  rw [htext, hopen, hclose]
  simp only [call, List.append_assoc, List.cons_append, List.nil_append]

theorem level?_pairWord {stop : Bool} (l : Nat) : level? stop l (pairWord d) = some l := by
  refine level?_plain ?_
  cases d <;> decide

theorem level?_coordWord {stop : Bool} (l : Nat) : level? stop l (coordWord d) = some l := by
  refine level?_plain ?_
  cases d <;> decide

theorem balanced_rowCol (hr : Balanced row) (hc : Balanced col) :
    Balanced ((Coords.rowCol row col).text d) := by
  have hcomma : Balanced ", ".toList := by decide
  have hcol : Balanced (call (coordWord d) col) := level?_call level?_coordWord hc
  have hrow : Balanced (call (coordWord d) row) := level?_call level?_coordWord hr
  rw [text_rowCol]
  exact level?_call level?_pairWord (hcol.append (hcomma.append hrow))

/-- A position is balanced if the indices are. -/
theorem balanced_text (h : ∀ i ∈ is, Balanced i) : Balanced ((imageCoords is).text d) := by
  have hpos : ∀ {pos}, Balanced pos → Balanced ((Coords.position (trim pos)).text d) := by
    intro pos hp
    rw [text_position]
    exact level?_call level?_pairWord (level?_trim hp)
  match is, h with
  | [], _ => exact @hpos [] rfl
  | [pos], h => exact hpos (h pos (by simp))
  | pos :: _ :: _ :: _, h => exact hpos (h pos (by simp))
  | [row, col], h =>
    exact balanced_rowCol (level?_trim (h row (by simp))) (level?_trim (h col (by simp)))

theorem markerFree_text (h : ∀ i ∈ is, MarkerFree i) : MarkerFree ((imageCoords is).text d) := by
  have hword : (pairWord d).count '.' ≤ 1 ∧ (coordWord d).count '.' ≤ 1 := by cases d <;> decide
  have htrim : ∀ {x}, MarkerFree x → MarkerFree (trim x) := fun hx => hx.of_isInfix (isInfix_trim _)
  have hpos : ∀ {pos}, MarkerFree pos → MarkerFree ((Coords.position (trim pos)).text d) := by
    intro pos hp
    rw [text_position]
    exact (htrim hp).call hword.1
  match is, h with
  | [], _ => exact @hpos [] (by decide)
  | [pos], h => exact hpos (h pos (by simp))
  | pos :: _ :: _ :: _, h => exact hpos (h pos (by simp))
  | [row, col], h =>
    have hr : MarkerFree (call (coordWord d) (trim row)) := (htrim (h row (by simp))).call hword.2
    have hc : MarkerFree (call (coordWord d) (trim col)) := (htrim (h col (by simp))).call hword.2
    rw [show imageCoords [row, col] = .rowCol (trim row) (trim col) from rfl, text_rowCol]
    have hcomma : MarkerFree ", ".toList := by decide
    exact ((hc.append (hcomma.append hr (.inl rfl)) (.inr rfl)).call hword.1)

theorem getLast?_text : (place.text d).getLast? = some ')' := by
  cases place with
  | rowCol => rw [text_rowCol, getLast?_call]
  | position => rw [text_position, getLast?_call]

/-- What follows the position in the call for a use. -/
def imageRest (d : Dialect) (name : List Char) (readWrite : Bool) (s : Subscript) : List Char :=
  match s.assign with
  | none => loadLevel d readWrite
  | some ⟨none, value⟩ => ", ".toList ++ value
  | some ⟨some op, value⟩ => ", ".toList ++ (d.imageLoad name (imageCoords s.indices) readWrite ++
      ([' ', op, ' '] ++ call [] value))

/-- A use of an image is a call with the image, the position and what depends on the use. -/
theorem phraseImage_eq (s : Subscript) : phraseImage d name readWrite s =
    call (if s.assign = none then loadWord d else d.storeFunction.toList)
      (name ++ (", ".toList ++
        ((imageCoords s.indices).text d ++ imageRest d name readWrite s))) := by
  unfold phraseImage imageRest
  rcases s with ⟨is, _ | ⟨_ | op, value⟩⟩
  · exact imageLoad_eq
  · simp only [imageStore_eq, reduceCtorEq, if_false]
  · simp only [imageStore_eq, reduceCtorEq, if_false, call, List.append_assoc, List.cons_append,
      List.nil_append]

theorem isIdentifier_function (s : Subscript) :
    isIdentifier (if s.assign = none then loadWord d else d.storeFunction.toList) = true := by
  split <;> cases d <;> decide

theorem balanced_loadLevel : Balanced (loadLevel d readWrite) := by
  cases d <;> cases readWrite <;> decide

theorem balanced_imageLoad (hn : isIdentifier name = true) (h : Balanced (place.text d)) :
    Balanced (d.imageLoad name place readWrite) := by
  have hcomma : Balanced ", ".toList := by decide
  rw [imageLoad_eq]
  refine level?_call (fun l => level?_name (by cases d <;> decide)) ?_
  exact Balanced.append (level?_name hn) (hcomma.append (h.append balanced_loadLevel))

/-- What an operator makes of a loaded texel and a value. -/
theorem balanced_operation {op : Char} (hop : isOperator op = true) (hv : Balanced value) :
    Balanced ([' ', op, ' '] ++ call [] value) := by
  have hvalue : Balanced (call [] value) := level?_call (fun l => rfl) hv
  refine Balanced.append ?_ hvalue
  simp only [isOperator, Bool.or_eq_true, beq_iff_eq] at hop
  rcases hop with ((rfl | rfl) | rfl) | rfl <;> decide

theorem balanced_imageRest (hn : isIdentifier name = true) {s : Subscript} (h : s.WellFormed) :
    Balanced (imageRest d name readWrite s) := by
  have hcomma : Balanced ", ".toList := by decide
  unfold imageRest
  rcases s with ⟨is, _ | ⟨_ | op, value⟩⟩
  · exact balanced_loadLevel
  · exact hcomma.append (h.value _ rfl).balanced
  · exact hcomma.append ((balanced_imageLoad hn (balanced_text h.indices)).append
      (balanced_operation (h.op _ rfl op rfl) (h.value _ rfl).balanced))

theorem markerFree_imageRest (hn : isIdentifier name = true) {s : Subscript}
    (hi : ∀ i ∈ s.indices, MarkerFree i) (ha : ∀ a ∈ s.assign, MarkerFree a.value) :
    MarkerFree (imageRest d name readWrite s) := by
  have hcomma : MarkerFree ", ".toList := by decide
  have hlevel : MarkerFree (loadLevel d readWrite) := by cases d <;> cases readWrite <;> decide
  have hjoin : joinsName (loadLevel d readWrite).head? = false := by
    cases d <;> cases readWrite <;> decide
  unfold imageRest
  rcases s with ⟨is, _ | ⟨_ | op, value⟩⟩
  · exact hlevel
  · exact hcomma.append (ha _ rfl) (.inl rfl)
  · have hload : MarkerFree (d.imageLoad name (imageCoords is) readWrite) := by
      rw [imageLoad_eq]
      refine MarkerFree.call (by cases d <;> decide) ?_
      refine MarkerFree.append (markerFree_of_count ?_) ?_ (.inr rfl)
      · rw [count_dot_name hn]
        exact Nat.zero_le 1
      · exact hcomma.append ((markerFree_text hi).append hlevel (.inr hjoin)) (.inl rfl)
    have hop : MarkerFree [' ', op, ' '] := by
      refine markerFree_of_count ?_
      have hcount : [op].count '.' ≤ 1 := List.count_le_length
      have hblank : [' '].count '.' = 0 := rfl
      rw [show [' ', op, ' '] = [' '] ++ ([op] ++ [' ']) from rfl, List.count_append,
        List.count_append]
      omega
    have hvalue : MarkerFree (call [] value) := (ha _ rfl).call (by simp)
    refine hcomma.append (hload.append (hop.append hvalue (.inl rfl)) (.inr rfl)) (.inl rfl)

/-- The uses of an image are phrased by calls, which are balanced and end with a bracket. -/
theorem phrasing_image (hn : isIdentifier name = true) :
    Phrasing (phraseImage d name readWrite) where
  start s := by
    rw [phraseImage_eq]
    obtain ⟨c, r, hw, hc, -⟩ := identifier_cons (isIdentifier_function (d := d) s)
    rw [hw]
    exact ⟨c, _, rfl, hc⟩
  level s h stop l := by
    have hcomma : Balanced ", ".toList := by decide
    rw [phraseImage_eq]
    refine level?_call (fun l => level?_name (isIdentifier_function s)) ?_
    exact Balanced.append (level?_name hn)
      (hcomma.append ((balanced_text h.indices).append (balanced_imageRest hn h)))
  markers := by
    refine ⟨fun s hi ha => ?_, fun s _ => by rw [phraseImage_eq, getLast?_call]; rfl⟩
    have hcomma : MarkerFree ", ".toList := by decide
    rw [phraseImage_eq]
    refine MarkerFree.call ?_ ?_
    · rw [count_dot_name (isIdentifier_function s)]
      exact Nat.zero_le 1
    refine MarkerFree.append (markerFree_of_count ?_) ?_ (.inr rfl)
    · rw [count_dot_name hn]
      exact Nat.zero_le 1
    · refine hcomma.append ((markerFree_text hi).append (markerFree_imageRest hn hi ha) (.inl ?_))
        (.inl rfl)
      rw [getLast?_text]
      rfl
  ends n b s y hm h _ hd := by
    have hcomma : Balanced ", ".toList := by decide
    rw [phraseImage_eq] at hd
    refine .inl (hd.call hm (isIdentifier_function s) ?_)
    exact Balanced.append (level?_name hn)
      (hcomma.append ((balanced_text h.indices).append (balanced_imageRest hn h)))
  value s h := by
    rw [phraseImage_eq, getLast?_call] at h
    exact absurd h (by decide)

theorem endsTight_image : EndsTight (phraseImage d name readWrite) := by
  intro s
  rw [phraseImage_eq, getLast?_call]
  decide

end Images

section Buffers

variable {name : List Char} {s : Subscript}

/-- What follows the element of a buffer in a use. -/
def bufferRest (s : Subscript) : List Char :=
  match s.assign with
  | none => []
  | some a => ' ' :: (a.op.toList ++ ['=', ' ']) ++ a.value

theorem head_index {P : List Char → Prop} (hnil : P []) (h : ∀ i ∈ s.indices, P i) :
    P (s.indices.head?.getD []) := by
  rcases hs : s.indices with _ | ⟨i, is⟩
  · exact hnil
  · exact h i (by rw [hs]; exact List.mem_cons_self)

/-- A use of a buffer is a member of its block with an index and what depends on the use. -/
theorem phraseBuffer_eq (s : Subscript) : phraseBuffer .glsl name s = name ++ '.' ::
    ("data".toList ++ '[' :: (s.indices.head?.getD [] ++ ']' :: bufferRest s)) := by
  have hopen : ".data[".toList = '.' :: ("data".toList ++ ['[']) := by decide
  have hclose : "]".toList = [']'] := rfl
  have hsign : " = ".toList = [' ', '=', ' '] := rfl
  unfold phraseBuffer bufferRest
  rcases s with ⟨is, _ | ⟨_ | op, value⟩⟩ <;>
    simp only [Dialect.bufferElement, hopen, hclose, hsign, Option.toList, List.append_assoc,
      List.cons_append, List.nil_append]

theorem level?_bufferRest (h : s.WellFormed) (stop : Bool) (l : Nat) :
    level? stop l (bufferRest s) = some l := by
  rcases s with ⟨is, _ | a⟩
  · rfl
  · have hsign : level? stop l (' ' :: (a.op.toList ++ ['=', ' '])) = some l := by
      refine level?_plain ?_
      rcases hop : a.op with _ | op
      · decide
      · have ho := h.op a rfl op hop
        simp only [isOperator, Bool.or_eq_true, beq_iff_eq] at ho
        rcases ho with ((rfl | rfl) | rfl) | rfl <;> decide
    rw [bufferRest, level?_append, hsign, Option.bind_some]
    exact (h.value a rfl).level

theorem markerFree_bufferRest (ha : ∀ a ∈ s.assign, MarkerFree a.value) :
    MarkerFree (bufferRest s) := by
  rcases s with ⟨is, _ | a⟩
  · exact markerFree_of_count (Nat.zero_le 1)
  · have hcount : a.op.toList.count '.' ≤ 1 := by
      refine Nat.le_trans List.count_le_length ?_
      cases a.op <;> simp
    have hsign : MarkerFree (' ' :: (a.op.toList ++ ['=', ' '])) := by
      refine markerFree_of_count ?_
      simpa using hcount
    refine hsign.append (ha a rfl) (.inl ?_)
    simp [List.getLast?_cons]
    rfl

/-- Nor does it start in a use of a buffer, unless it stands at the end of the value. -/
theorem Dangles.bufferRest {n y : List Char} {b : Option Char} (hm : isIdentifier n = true)
    (h : s.WellFormed) (hy : s.assign = none ∨ y = [] ∨ y.head?.any isStop = true)
    (hb : joinsName b = false) (hd : Dangles n b (Body.bufferRest s ++ y)) :
    Dangles n none y ∨ y = [] ∧ ∃ a ∈ s.assign, Dangles n none a.value := by
  rcases s with ⟨is, _ | a⟩
  · exact .inl (hd.congr hb)
  · have hv : Dangles n none (a.value ++ y) := by
      have hsign : ∀ {b}, Dangles n b ('=' :: ' ' :: (a.value ++ y)) →
          Dangles n none (a.value ++ y) := fun hd =>
        ((hd.tail hm (.inr rfl)).tail hm (.inr rfl)).congr rfl
      have hd' : Dangles n b (' ' :: (a.op.toList ++ '=' :: ' ' :: (a.value ++ y))) := by
        simpa [Body.bufferRest] using hd
      have hop := hd'.tail hm (.inr rfl)
      rcases ho : a.op with _ | op <;> rw [ho] at hop
      · exact hsign hop
      · have hmark : isMark op = true := by simp [isMark, h.op a rfl op ho]
        exact hsign (hop.tail hm (.inr (not_start_of_mark hmark)))
    rcases hy with hy | rfl | hy
    · cases hy
    · rw [List.append_nil] at hv
      exact .inr ⟨rfl, a, rfl, hv⟩
    · rcases y with _ | ⟨k, y⟩
      · cases hy
      · have hk : isStop k = true := by simpa using hy
        have hk' : isClose k = true ∨ true = true ∧ k = ';' := by simpa [isStop] using hk
        exact .inl (.later (hv.past_stop hm (h.value a rfl) hk'))

theorem phrasing_buffer (hn : isIdentifier name = true) : Phrasing (phraseBuffer .glsl name) where
  start s := by
    obtain ⟨c, r, rfl, hc, -⟩ := identifier_cons hn
    rw [phraseBuffer_eq]
    exact ⟨c, _, rfl, hc⟩
  level s h stop l := by
    have hi : Balanced (s.indices.head?.getD []) := head_index rfl h.indices
    have hdata : level? stop l ('.' :: "data".toList) = some l := level?_plain (by decide)
    rw [phraseBuffer_eq, ← List.cons_append, level?_append, level?_name hn, Option.bind_some,
      level?_append, hdata, Option.bind_some, level?_open_append rfl, level?_append,
      hi.level (by simp), Option.bind_some, level?_close_append rfl]
    exact level?_bufferRest h stop l
  markers := by
    refine ⟨fun s hi ha => ?_, fun s hs => ?_⟩
    · have hi' : MarkerFree (s.indices.head?.getD []) := head_index (by decide) hi
      have hname : MarkerFree (name ++ '.' :: ("data".toList ++ ['['])) := by
        refine markerFree_of_count ?_
        rw [List.count_append, count_dot_name hn]
        decide
      have hclose : MarkerFree [']'] := by decide
      have hrest := hname.append (hi'.append (hclose.append (markerFree_bufferRest ha) (.inl rfl))
        (.inr rfl)) (.inl (by rw [List.getLast?_append]; rfl))
      rw [phraseBuffer_eq]
      simpa using hrest
    · rw [phraseBuffer_eq, bufferRest, hs]
      simp [List.getLast?_append, List.getLast?_cons]
      rfl
  ends n b s y hm h hy hd := by
    have hi : Balanced (s.indices.head?.getD []) := head_index rfl h.indices
    have hd' : Dangles n b (name ++ '.' :: ("data".toList ++ '[' ::
        (s.indices.head?.getD [] ++ ']' :: (bufferRest s ++ y)))) := by
      rw [phraseBuffer_eq] at hd
      simpa using hd
    have hdata := hd'.word hm (fun _ => ident_of_mem hn) (by decide)
    have hindex : Dangles n (some '[') (s.indices.head?.getD [] ++ ']' :: (bufferRest s ++ y)) :=
      ((((hdata.tail hm (.inl rfl)).tail hm (.inl rfl)).tail hm (.inl rfl)).tail hm
        (.inl rfl)).tail hm (.inr rfl)
    exact (hindex.past_stop hm hi (.inl rfl)).bufferRest hm h hy rfl
  value s h := by
    rw [phraseBuffer_eq, bufferRest] at h
    rcases hs : s.assign with _ | a <;> rw [hs] at h
    · simp [List.getLast?_append, List.getLast?_cons] at h
      revert h
      decide
    · refine ⟨a, rfl, ?_⟩
      by_cases hv : a.value = []
      · exact .inl hv
      · right
        simp only [← List.append_assoc, ← List.cons_append] at h
        rwa [getLast?_append_any hv] at h

end Buffers

end ComputeKernel.Body
