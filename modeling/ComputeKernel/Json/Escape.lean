/-!
# String escapes of JSON

A string is written with a backslash before a quote or a backslash, with a letter after a
backslash for the usual control characters, and with `u` and four hexadecimal digits for the other
ones. Reading understands every escape of JSON; two escapes of a surrogate pair make one
character, and half a pair makes none. Reading what was written gives the text back
(`decode?_encode`).
-/

namespace ComputeKernel.Json

/-- The value of a hexadecimal digit. -/
def hexDigit? (c : Char) : Option Nat :=
  if '0' ≤ c && c ≤ '9' then some (c.toNat - '0'.toNat)
  else if 'a' ≤ c && c ≤ 'f' then some (c.toNat - 'a'.toNat + 10)
  else if 'A' ≤ c && c ≤ 'F' then some (c.toNat - 'A'.toNat + 10)
  else none

/-- The value of the four hexadecimal digits at the front of a text, and what follows them. -/
def hexFour? : List Char → Option (Nat × List Char)
  | a :: b :: c :: d :: r =>
    match hexDigit? a, hexDigit? b, hexDigit? c, hexDigit? d with
    | some a, some b, some c, some d => some (a * 4096 + b * 256 + c * 16 + d, r)
    | _, _, _, _ => none
  | _ => none

/-- The character that a letter stands for after a backslash. -/
def letterEscape? : Char → Option Char
  | '"' => some '"'
  | '\\' => some '\\'
  | '/' => some '/'
  | 'b' => some '\x08'
  | 'f' => some '\x0c'
  | 'n' => some '\n'
  | 'r' => some '\r'
  | 't' => some '\t'
  | _ => none

def isHighSurrogate (n : Nat) : Bool := 0xD800 ≤ n && n < 0xDC00

def isLowSurrogate (n : Nat) : Bool := 0xDC00 ≤ n && n < 0xE000

/-- The character at the front of a string, and what follows it. -/
def decodeChar? : List Char → Option (Char × List Char)
  | [] => none
  | '\\' :: 'u' :: r =>
    match hexFour? r with
    | none => none
    | some (n, r) =>
      if isHighSurrogate n then
        match r with
        | '\\' :: 'u' :: r =>
          match hexFour? r with
          | some (m, r) =>
            if isLowSurrogate m then
              some (Char.ofNat ((n - 0xD800) * 0x400 + (m - 0xDC00) + 0x10000), r)
            else none
          | none => none
        | _ => none
      else if isLowSurrogate n then none
      else some (Char.ofNat n, r)
  | '\\' :: c :: r => (letterEscape? c).map (·, r)
  | ['\\'] => none
  | c :: r => if c == '"' || c.toNat < 0x20 then none else some (c, r)

theorem hexFour?_shorter {cs r : List Char} {n : Nat} (h : hexFour? cs = some (n, r)) :
    r.length < cs.length := by
  unfold hexFour? at h
  split at h
  · split at h
    · simp only [Option.some.injEq, Prod.mk.injEq] at h
      simp [h.2]
      omega
    · simp at h
  · simp at h

theorem decodeChar?_shorter {cs r : List Char} {c : Char} (h : decodeChar? cs = some (c, r)) :
    r.length < cs.length := by
  unfold decodeChar? at h
  split at h
  · simp at h
  · split at h
    · simp at h
    · rename_i hx
      have h1 := hexFour?_shorter hx
      split at h
      · split at h
        · split at h
          · rename_i hy
            have h2 := hexFour?_shorter hy
            split at h
            · simp only [Option.some.injEq, Prod.mk.injEq] at h
              simp only [List.length_cons] at h1 ⊢
              rw [← h.2]
              omega
            · simp at h
          · simp at h
        · simp at h
      · split at h
        · simp at h
        · simp only [Option.some.injEq, Prod.mk.injEq] at h
          simp only [List.length_cons]
          rw [← h.2]
          omega
  · obtain ⟨_, _, h⟩ := Option.map_eq_some_iff.1 h
    simp only [Prod.mk.injEq] at h
    rw [← h.2]
    simp only [List.length_cons]
    omega
  · simp at h
  · split at h
    · simp at h
    · simp only [Option.some.injEq, Prod.mk.injEq] at h
      simp [h.2]

set_option linter.unusedVariables false in
/-- The text that a string stands for, read character by character. -/
def decodeChars? (cs : List Char) : Option (List Char) :=
  match cs with
  | [] => some []
  | c :: r =>
    match h : decodeChar? (c :: r) with
    | none => none
    | some (d, rest) => (decodeChars? rest).map (d :: ·)
termination_by cs.length
decreasing_by exact decodeChar?_shorter h

/-- The text that a string stands for. -/
def decode? (raw : List Char) : Option String := (decodeChars? raw).map String.ofList

/-- The digit for a value below 16. -/
def hexDigit (n : Nat) : Char := Nat.digitChar n

/-- A character as it stands in a string. -/
def encodeChar (c : Char) : List Char :=
  match c with
  | '"' => ['\\', '"']
  | '\\' => ['\\', '\\']
  | '\x08' => ['\\', 'b']
  | '\x0c' => ['\\', 'f']
  | '\n' => ['\\', 'n']
  | '\r' => ['\\', 'r']
  | '\t' => ['\\', 't']
  | c =>
    if c.toNat < 0x20 then
      ['\\', 'u', '0', '0', hexDigit (c.toNat / 16), hexDigit (c.toNat % 16)]
    else [c]

/-- A text as it stands between the quotes of a string. -/
def encode (s : String) : List Char := s.toList.flatMap encodeChar

theorem hexDigit?_hexDigit : ∀ n < 16, hexDigit? (hexDigit n) = some n := by decide

theorem hexFour?_byte {n : Nat} (h : n < 256) (r : List Char) :
    hexFour? ('0' :: '0' :: hexDigit (n / 16) :: hexDigit (n % 16) :: r) = some (n, r) := by
  have h0 : hexDigit? '0' = some 0 := by decide
  have h1 := hexDigit?_hexDigit (n / 16) (by omega)
  have h2 := hexDigit?_hexDigit (n % 16) (by omega)
  simp only [hexFour?, h0, h1, h2, Option.some.injEq, Prod.mk.injEq, and_true]
  omega

theorem decodeChar?_encodeChar (c : Char) (r : List Char) :
    decodeChar? (encodeChar c ++ r) = some (c, r) := by
  unfold encodeChar
  split <;> try rfl
  rename_i h1 h2 _ _ _ _ _
  split
  · rename_i hlt
    have hh : isHighSurrogate c.toNat = false := by
      simp only [isHighSurrogate, Bool.and_eq_false_imp, decide_eq_true_eq, decide_eq_false_iff_not]
      omega
    have hl : isLowSurrogate c.toNat = false := by
      simp only [isLowSurrogate, Bool.and_eq_false_imp, decide_eq_true_eq, decide_eq_false_iff_not]
      omega
    show decodeChar? ('\\' :: 'u' :: ('0' :: '0' :: _ :: _ :: r)) = _
    rw [decodeChar?, hexFour?_byte (by omega)]
    simp [hh, hl]
  · rename_i hge
    have hq : (c == '"') = false := by simpa using h1
    show decodeChar? (c :: r) = _
    unfold decodeChar?
    split <;> simp_all

theorem decodeChars?_flatMap (cs : List Char) :
    decodeChars? (cs.flatMap encodeChar) = some cs := by
  induction cs with
  | nil => simp [decodeChars?]
  | cons c r ih =>
    have h := decodeChar?_encodeChar c (r.flatMap encodeChar)
    rw [List.flatMap_cons]
    cases he : encodeChar c ++ r.flatMap encodeChar with
    | nil => rw [he] at h; simp [decodeChar?] at h
    | cons d t =>
      rw [he] at h
      rw [decodeChars?]
      split
      · simp_all
      · simp_all

/-- A text is read back from what was written for it. -/
theorem decode?_encode (s : String) : decode? (encode s) = some s := by
  simp [decode?, encode, decodeChars?_flatMap]

end ComputeKernel.Json
