import ComputeKernel.Proofs.Reflection

/-!
# What a declaration declares

Both dialects declare a bound variable in one line, and `Declares` says which line declares which
variable. No two variables of different use are declared by one line (`Declares.alike`): the words
of the line, which are its longest runs of identifier characters, give away the form of the
declaration, and every word that names a scalar, a format or an access mode does so in one way. Only
the name of a block that has no instance is open, and nothing is read off that name.
-/

namespace ComputeKernel

namespace Text

/-- The words of a text, the first of which starts with `w`. -/
def wordsFrom (w : List Char) : List Char → List String
  | [] => if w = [] then [] else [String.ofList w]
  | c :: r =>
    if isIdent c then wordsFrom (w ++ [c]) r
    else if w = [] then wordsFrom [] r
    else String.ofList w :: wordsFrom [] r

def words (text : String) : List String := wordsFrom [] text.toList

structure Word (u : String) : Prop where
  ne_nil : u.toList ≠ []
  isIdent : ∀ c ∈ u.toList, Text.isIdent c = true

theorem wordsFrom_append {u w r : List Char} (h : ∀ c ∈ u, isIdent c = true) :
    wordsFrom w (u ++ r) = wordsFrom (w ++ u) r := by
  induction u generalizing w with
  | nil => simp
  | cons c u ih =>
    rw [List.cons_append, wordsFrom, if_pos (h c List.mem_cons_self),
      ih fun d hd => h d (List.mem_cons_of_mem c hd)]
    simp

/-- A word goes up to the first character that is in no identifier. -/
theorem wordsFrom_word {u : String} (hu : Word u) {c : Char} (hc : isIdent c = false)
    (r : List Char) : wordsFrom [] (u.toList ++ c :: r) = u :: wordsFrom [] r := by
  rw [wordsFrom_append hu.isIdent, List.nil_append, wordsFrom, hc, if_neg Bool.false_ne_true,
    if_neg hu.ne_nil, String.ofList_toList]

theorem word_toString (n : Nat) : Word (toString n) := by
  rw [Nat.toString_eq_repr]
  constructor
  · rw [Nat.toList_repr]
    exact Nat.toDigits_ne_nil
  · intro c hc
    rw [Nat.toList_repr] at hc
    simp [isIdent, Char.isAlphanum, Nat.isDigit_of_mem_toDigits (by omega) (by omega) hc]

/-- Numbers are told apart by their digits, so a word that is a number says which. -/
theorem toString_inj {a b : Nat} : toString a = toString b ↔ a = b := by
  constructor
  · intro h
    have hd := congrArg String.toList h
    rw [Nat.toString_eq_repr, Nat.toString_eq_repr, Nat.toList_repr, Nat.toList_repr] at hd
    rw [← Nat.ofDigitChars_toDigits (b := 10) (n := a) (by omega) (by omega), hd,
      Nat.ofDigitChars_toDigits (by omega) (by omega)]
  · rintro rfl
    rfl

theorem word_of_isIdentifier {u : String} (h : isIdentifier u.toList = true) : Word u := by
  obtain ⟨c, r, hu, -, -⟩ := identifier_cons h
  exact ⟨by simp [hu], fun c hc => ident_of_mem h hc⟩

end Text

namespace Shader

open Text

section Language

/-- What a word of a dialect stands for. -/
inductive Sense where
  | scalar (kind : ScalarType)
  /-- A vector of four. -/
  | vector (kind : ScalarType)
  /-- A two-dimensional storage image with texels of a scalar. -/
  | image (kind : Scalar)
  | format (format : ImageFormat)
  | access (access : StorageAccess)
  deriving DecidableEq

def vocabulary : Dialect → List (String × Sense)
  | .wgsl => [("u32", .scalar .u32), ("i32", .scalar .i32), ("f32", .scalar .f32),
      ("f64", .scalar .f64),
      ("rgba8unorm", .format .rgba8unorm), ("rgba32float", .format .rgba32float),
      ("rgba32uint", .format .rgba32uint), ("rgba32sint", .format .rgba32sint),
      ("r32float", .format .r32float), ("r32uint", .format .r32uint),
      ("r32sint", .format .r32sint),
      ("read", .access ⟨true, false⟩), ("write", .access ⟨false, true⟩),
      ("read_write", .access ⟨true, true⟩)]
  | .glsl => [("uint", .scalar .u32), ("int", .scalar .i32), ("float", .scalar .f32),
      ("double", .scalar .f64),
      ("uvec4", .vector .u32), ("ivec4", .vector .i32), ("vec4", .vector .f32),
      ("dvec4", .vector .f64),
      ("uimage2D", .image .u32), ("iimage2D", .image .i32), ("image2D", .image .f32),
      ("rgba8", .format .rgba8unorm), ("rgba32f", .format .rgba32float),
      ("rgba32ui", .format .rgba32uint), ("rgba32i", .format .rgba32sint),
      ("r32f", .format .r32float), ("r32ui", .format .r32uint), ("r32i", .format .r32sint),
      ("readonly", .access ⟨true, false⟩), ("writeonly", .access ⟨false, true⟩)]

def sense? (d : Dialect) (word : String) : Option Sense := (vocabulary d).lookup word

/-- Every entry of the vocabulary is a single word. -/
theorem word_of_sense? {d : Dialect} {word : String} {s : Sense} (h : sense? d word = some s) :
    Word word := by
  have hall : (vocabulary d).all (fun e => isIdentifier e.1.toList) = true := by cases d <;> rfl
  obtain ⟨l, l', he, -⟩ := List.lookup_eq_some_iff.1 h
  exact word_of_isIdentifier (List.all_eq_true.1 hall (word, s) (by simp [he]))

/-- Where a declaration says that a variable is bound. In GLSL one more qualifier follows. -/
def placeText : Dialect → BindingPlace → String
  | .wgsl, p => "@group(" ++ toString p.group ++ ") @binding(" ++ toString p.binding ++ ") "
  | .glsl, p => "layout(set = " ++ toString p.group ++ ", binding = " ++ toString p.binding ++ ", "

/-- A line of a dialect declares a bound variable. -/
inductive Declares : Dialect → String → GlobalVar → Prop
  | wgslBuffer {place : BindingPlace} {name word : String} {kind : ScalarType}
    (hn : isIdentifier name.toList = true) (hk : sense? .wgsl word = some (.scalar kind)) :
    Declares .wgsl
      (placeText .wgsl place ++ "var<storage, read_write> " ++ name ++ ": array<" ++ word ++ ">;")
      ⟨some name, .storage ⟨true, true⟩, some place, .array (.scalar kind) none⟩
  | wgslTexture {place : BindingPlace} {name word : String} {kind : ScalarType}
    (hn : isIdentifier name.toList = true) (hk : sense? .wgsl word = some (.scalar kind)) :
    Declares .wgsl (placeText .wgsl place ++ "var " ++ name ++ ": texture_2d<" ++ word ++ ">;")
      ⟨some name, .handle, some place, .image .d2 false (.sampled kind false)⟩
  | wgslStorageTexture {place : BindingPlace} {name texel mode : String} {format : ImageFormat}
    {access : StorageAccess} (hn : isIdentifier name.toList = true)
    (hf : sense? .wgsl texel = some (.format format))
    (ha : sense? .wgsl mode = some (.access access)) :
    Declares .wgsl (placeText .wgsl place ++ "var " ++ name ++ ": texture_storage_2d<" ++ texel ++
        ", " ++ mode ++ ">;")
      ⟨some name, .handle, some place, .image .d2 false (.storage (some format) access)⟩
  | wgslUniform {place : BindingPlace} {name word : String} {kind : ScalarType}
    (hn : isIdentifier name.toList = true) (hk : sense? .wgsl word = some (.scalar kind)) :
    Declares .wgsl
      (placeText .wgsl place ++ "var<uniform> " ++ name ++ ": vec4<" ++ word ++ ">;")
      ⟨some name, .uniform, some place, .vector 4 kind⟩
  | glslBuffer {place : BindingPlace} {block name word : String} {kind : ScalarType}
    (hb : isIdentifier block.toList = true) (hn : isIdentifier name.toList = true)
    (hk : sense? .glsl word = some (.scalar kind)) :
    Declares .glsl (placeText .glsl place ++ "std430) buffer " ++ block ++ " \x7b " ++ word ++
        " data[]; \x7d " ++ name ++ ";")
      ⟨some name, .storage ⟨true, true⟩, some place,
        .struct [(some "data", .array (.scalar kind) none)]⟩
  | glslImage {place : BindingPlace} {name texel word : String} {format : ImageFormat}
    (hn : isIdentifier name.toList = true) (hf : sense? .glsl texel = some (.format format))
    (hi : sense? .glsl word = some (.image format.sample)) :
    Declares .glsl (placeText .glsl place ++ texel ++ ") uniform " ++ word ++ " " ++ name ++ ";")
      ⟨some name, .handle, some place, .image .d2 false (.storage (some format) ⟨true, true⟩)⟩
  | glslQualifiedImage {place : BindingPlace} {name texel mode word : String}
    {format : ImageFormat} {access : StorageAccess} (hn : isIdentifier name.toList = true)
    (hf : sense? .glsl texel = some (.format format))
    (ha : sense? .glsl mode = some (.access access))
    (hi : sense? .glsl word = some (.image format.sample)) :
    Declares .glsl (placeText .glsl place ++ texel ++ ") uniform " ++ mode ++ " " ++ word ++ " " ++
        name ++ ";")
      ⟨some name, .handle, some place, .image .d2 false (.storage (some format) access)⟩
  | glslUniform {place : BindingPlace} {block member word : String} {kind : ScalarType}
    {name : Option String} (hb : isIdentifier block.toList = true)
    (hm : isIdentifier member.toList = true) (hk : sense? .glsl word = some (.vector kind)) :
    Declares .glsl (placeText .glsl place ++ "std140) uniform " ++ block ++ " \x7b " ++ word ++
        " " ++ member ++ "; \x7d;")
      ⟨name, .uniform, some place, .struct [(some member, .vector 4 kind)]⟩

end Language

section Uniqueness

variable {d : Dialect} {text text' : String} {v w : GlobalVar} {place : BindingPlace}
  {block name texel mode word : String} {s t u : Sense}

/-- The words with which a declaration says where its variable is bound. -/
def placeWords : Dialect → BindingPlace → List String
  | .wgsl, p => ["group", toString p.group, "binding", toString p.binding]
  | .glsl, p => ["layout", "set", toString p.group, "binding", toString p.binding]

/-- The words of a place come first, and they end where the rest of the line starts. -/
theorem wordsFrom_place (d : Dialect) (place : BindingPlace) (r : List Char) :
    wordsFrom [] ((placeText d place).toList ++ r) = placeWords d place ++ wordsFrom [] r := by
  cases d <;> unfold placeText placeWords <;>
    simp [wordsFrom, wordsFrom_word, word_toString, isIdent, -Nat.toString_eq_repr]

theorem placeWords_append_inj {p q : BindingPlace} {xs ys : List String} :
    placeWords d p ++ xs = placeWords d q ++ ys ↔ p = q ∧ xs = ys := by
  rcases p with ⟨g, b⟩
  rcases q with ⟨g', b'⟩
  cases d <;>
    simp only [placeWords, List.cons_append, List.nil_append, List.cons.injEq, toString_inj,
      BindingPlace.mk.injEq, true_and, and_assoc]

/-- The words of each form of declaration. Those that are not the same in all declarations of a form
are the name, which is not read, and words that have a sense. -/
theorem words_wgslBuffer (hn : isIdentifier name.toList = true) (hs : sense? .wgsl word = some s) :
    words (placeText .wgsl place ++ "var<storage, read_write> " ++ name ++ ": array<" ++ word ++
        ">;") =
      placeWords .wgsl place ++ ["var", "storage", "read_write", name, "array", word] := by
  simp [words, wordsFrom_place, wordsFrom, isIdent, wordsFrom_word, word_of_isIdentifier hn,
    word_of_sense? hs]

theorem words_wgslTexture (hn : isIdentifier name.toList = true) (hs : sense? .wgsl word = some s) :
    words (placeText .wgsl place ++ "var " ++ name ++ ": texture_2d<" ++ word ++ ">;") =
      placeWords .wgsl place ++ ["var", name, "texture_2d", word] := by
  simp [words, wordsFrom_place, wordsFrom, isIdent, wordsFrom_word, word_of_isIdentifier hn,
    word_of_sense? hs]

theorem words_wgslStorageTexture (hn : isIdentifier name.toList = true)
    (hs : sense? .wgsl texel = some s) (ht : sense? .wgsl mode = some t) :
    words (placeText .wgsl place ++ "var " ++ name ++ ": texture_storage_2d<" ++ texel ++ ", " ++
        mode ++ ">;") =
      placeWords .wgsl place ++ ["var", name, "texture_storage_2d", texel, mode] := by
  simp [words, wordsFrom_place, wordsFrom, isIdent, wordsFrom_word, word_of_isIdentifier hn,
    word_of_sense? hs, word_of_sense? ht]

theorem words_wgslUniform (hn : isIdentifier name.toList = true) (hs : sense? .wgsl word = some s) :
    words (placeText .wgsl place ++ "var<uniform> " ++ name ++ ": vec4<" ++ word ++ ">;") =
      placeWords .wgsl place ++ ["var", "uniform", name, "vec4", word] := by
  simp [words, wordsFrom_place, wordsFrom, isIdent, wordsFrom_word, word_of_isIdentifier hn,
    word_of_sense? hs]

theorem words_glslBuffer (hb : isIdentifier block.toList = true)
    (hn : isIdentifier name.toList = true) (hs : sense? .glsl word = some s) :
    words (placeText .glsl place ++ "std430) buffer " ++ block ++ " \x7b " ++ word ++
        " data[]; \x7d " ++ name ++ ";") =
      placeWords .glsl place ++ ["std430", "buffer", block, word, "data", name] := by
  simp [words, wordsFrom_place, wordsFrom, isIdent, wordsFrom_word, word_of_isIdentifier hb,
    word_of_isIdentifier hn, word_of_sense? hs]

theorem words_glslImage (hn : isIdentifier name.toList = true) (hs : sense? .glsl texel = some s)
    (ht : sense? .glsl word = some t) :
    words (placeText .glsl place ++ texel ++ ") uniform " ++ word ++ " " ++ name ++ ";") =
      placeWords .glsl place ++ [texel, "uniform", word, name] := by
  simp [words, wordsFrom_place, wordsFrom, isIdent, wordsFrom_word, word_of_isIdentifier hn,
    word_of_sense? hs, word_of_sense? ht]

theorem words_glslQualifiedImage (hn : isIdentifier name.toList = true)
    (hs : sense? .glsl texel = some s) (ht : sense? .glsl mode = some t)
    (hu : sense? .glsl word = some u) :
    words (placeText .glsl place ++ texel ++ ") uniform " ++ mode ++ " " ++ word ++ " " ++ name ++
        ";") =
      placeWords .glsl place ++ [texel, "uniform", mode, word, name] := by
  simp [words, wordsFrom_place, wordsFrom, isIdent, wordsFrom_word, word_of_isIdentifier hn,
    word_of_sense? hs, word_of_sense? ht, word_of_sense? hu]

theorem words_glslUniform (hb : isIdentifier block.toList = true)
    (hn : isIdentifier name.toList = true) (hs : sense? .glsl word = some s) :
    words (placeText .glsl place ++ "std140) uniform " ++ block ++ " \x7b " ++ word ++ " " ++
        name ++ "; \x7d;") =
      placeWords .glsl place ++ ["std140", "uniform", block, word, name] := by
  simp [words, wordsFrom_place, wordsFrom, isIdent, wordsFrom_word, word_of_isIdentifier hb,
    word_of_isIdentifier hn, word_of_sense? hs]

/-- Two variables that are bound at one place and make the same slots and the same entry. -/
structure Alike (v w : GlobalVar) : Prop where
  place : v.place = w.place
  param : v.paramSlot? = w.paramSlot?
  uniform : v.uniformSlot? = w.uniformSlot?
  entry : v.entryOf? = w.entryOf?

theorem Alike.refl (v : GlobalVar) : Alike v v := ⟨rfl, rfl, rfl, rfl⟩

/-- Variables that are declared by one line are alike. -/
theorem Declares.alike (hv : Declares d text v) (hw : Declares d text' w) (h : text = text') :
    Alike v w := by
  have hws := congrArg words h
  clear h
  -- The number of words tells most forms apart, and the words that all texts of a form share do the
  -- rest of it but for two pairs, in which a word of one form stands where the other has a format.
  cases hv <;> cases hw <;>
    simp (disch := assumption) only [words_wgslBuffer, words_wgslTexture, words_wgslStorageTexture,
      words_wgslUniform, words_glslBuffer, words_glslImage, words_glslQualifiedImage,
      words_glslUniform, placeWords_append_inj, List.cons.injEq, reduceCtorEq, String.reduceEq,
      true_and, and_true, and_false] at hws
  case wgslBuffer.wgslBuffer hk _ _ _ _ _ hk' |
      wgslTexture.wgslTexture hk _ _ _ _ _ hk' |
      wgslUniform.wgslUniform hk _ _ _ _ _ hk' =>
    obtain ⟨rfl, rfl, rfl⟩ := hws
    cases hk.symm.trans hk'
    exact .refl _
  case wgslStorageTexture.wgslStorageTexture hf ha _ _ _ _ _ _ _ hf' ha' =>
    obtain ⟨rfl, rfl, rfl, rfl⟩ := hws
    cases hf.symm.trans hf'
    cases ha.symm.trans ha'
    exact .refl _
  case wgslStorageTexture.wgslUniform hf _ _ _ _ _ _ _ |
      wgslUniform.wgslStorageTexture hf _ =>
    obtain ⟨-, -, -, rfl, -⟩ := hws
    cases hf
  case glslBuffer.glslBuffer hk _ _ _ _ _ _ _ hk' =>
    obtain ⟨rfl, rfl, rfl, rfl⟩ := hws
    cases hk.symm.trans hk'
    exact .refl _
  case glslImage.glslImage hf _ _ _ _ _ _ _ hf' _ =>
    obtain ⟨rfl, rfl, rfl, rfl⟩ := hws
    cases hf.symm.trans hf'
    exact .refl _
  case glslQualifiedImage.glslQualifiedImage hf ha _ _ _ _ _ _ _ _ _ hf' ha' _ =>
    obtain ⟨rfl, rfl, rfl, rfl, rfl⟩ := hws
    cases hf.symm.trans hf'
    cases ha.symm.trans ha'
    exact .refl _
  case glslQualifiedImage.glslUniform hf _ _ _ _ _ _ _ _ _ _ _ |
      glslUniform.glslQualifiedImage hf _ _ =>
    obtain ⟨-, rfl, -⟩ := hws
    cases hf
  case glslUniform.glslUniform hk _ _ _ _ _ _ _ _ hk' =>
    obtain ⟨rfl, rfl, rfl, rfl⟩ := hws
    cases hk.symm.trans hk'
    exact ⟨rfl, rfl, by simp [GlobalVar.uniformSlot?, uniformKind?, GlobalVar.binding,
      Function.comp_def], rfl⟩

end Uniqueness

end Shader

end ComputeKernel
