import Mathlib.Data.List.Infix
import NemoRL.Lib.Segments

/-!
# Canonical tokens

Tokens of two tokenizers are compared in a canonical form. Known artifacts that span
several tokens and bytes of one character that are separate tokens are merged, so each
canonical token keeps the range of original tokens it was built from.

## Main definitions

* `canonicalToken` — the canonical form of one token.
* `canonicalizeSequence` — the canonical tokens of a sequence and their ranges.

## Main results

* `canonicalizeSequence_tiles` — the ranges tile the sequence.
* `canonicalizeSequence_ranges` — they are non-empty, increasing and disjoint, and cover it.
-/

namespace NemoRL.XToken

open Lib

/-- A token as its characters. -/
abbrev Token := List Char

/-! ## Tables -/

/-- Characters by which some tokenizers show bytes. -/
def visualByteMap : List (Char × ℕ) :=
  [('ð', 240), ('Ɩ', 241), ('Ɨ', 242), ('Ƙ', 243), ('ƙ', 244), ('ƚ', 245), ('ƛ', 246),
    ('Ɯ', 247), ('Ɲ', 248), ('ƞ', 249), ('Ɵ', 250), ('Ơ', 251), ('ơ', 252), ('Ƣ', 253),
    ('ƣ', 254), ('Ƥ', 255), ('Ł', 156), ('ł', 157), ('Ń', 158), ('ń', 159), ('ĺ', 149),
    ('Ļ', 150), ('ļ', 151), ('Ľ', 152), ('ľ', 153), ('Ŀ', 154), ('ŀ', 155), ('Ĭ', 135),
    ('ĭ', 136), ('Į', 137), ('į', 138), ('İ', 139), ('ı', 140), ('Ĳ', 141), ('ĳ', 142),
    ('Ĵ', 143), ('ĵ', 144), ('Ķ', 145), ('ķ', 146), ('ĸ', 147), ('Ĺ', 148), ('ĥ', 128),
    ('Ħ', 129), ('ħ', 130), ('Ĩ', 131), ('ĩ', 132), ('Ī', 133), ('ī', 134), ('Ģ', 162),
    ('ģ', 163), ('Ĝ', 28), ('ĝ', 29), ('Ğ', 30), ('ğ', 31)]

/-- A broken byte sequence that spans tokens, and the token it stands for. -/
structure ArtifactFix where
  first : String
  rest : List String
  replacement : String

/-- The tokens of an artifact. -/
def ArtifactFix.pattern (f : ArtifactFix) : List Token := (f.first :: f.rest).map String.toList

/-- The artifacts, in the order in which they are tried. -/
def multiTokenArtifactFixes : List ArtifactFix :=
  [⟨"ĠâĪ", ["ĳ"], "Ġ∑"⟩, ⟨"âĪ", ["ĳ"], "∑"⟩, ⟨"ĠâĪ", ["ı"], "Ġ∏"⟩, ⟨"âĪ", ["ı"], "∏"⟩,
    ⟨"ĠâĪ", ["Ĥ"], "Ġ∂"⟩, ⟨"âĪ", ["Ĥ"], "∂"⟩, ⟨"ĠâĪ", ["ĩ"], "Ġ∇"⟩, ⟨"âĪ", ["ĩ"], "∇"⟩,
    ⟨"ĠâĪ", ["ŀ"], "Ġ∞"⟩, ⟨"âĪ", ["ŀ"], "∞"⟩, ⟨"ĠâĪ", ["ļ"], "Ġ√"⟩, ⟨"âĪ", ["ļ"], "√"⟩,
    ⟨"ĠâĪ", ["«"], "Ġ∫"⟩, ⟨"âĪ", ["«"], "∫"⟩, ⟨"Ġâī", ["ł"], "Ġ≠"⟩, ⟨"âī", ["ł"], "≠"⟩,
    ⟨"Ġä¸", ["Ń"], "Ġ中"⟩, ⟨"ä¸", ["Ń"], "中"⟩, ⟨"æĸ", ["ĩ"], "文"⟩, ⟨"Ġæĸ", ["ĩ"], "Ġ文"⟩]

/-- Broken texts inside a token. -/
def unicodeFixes : List (String × String) :=
  [("Ã±", "ñ"), ("Ã¡", "á"), ("Ã©", "é"), ("Ã\u00ad", "í"), ("Ã³", "ó"), ("Ãº", "ú"),
    ("Ã", "À"), ("Ã¢", "â"), ("Ã§", "ç"), ("Ã¨", "è"), ("Ã«", "ë"), ("Ã®", "î"), ("Ã´", "ô"),
    ("Ã¹", "ù"), ("Ã»", "û"), ("Ã¿", "ÿ"), ("ä¸Ń", "中"), ("æĸĩ", "文"), ("æĹ¥æľ¬", "日本"),
    ("èªŀ", "語"), ("ÐłÑĥÑģ", "Рус"), ("ÑģÐºÐ¸Ð¹", "ский"), ("Ø§ÙĦØ¹Ø±Ø¨ÙĬØ©", "العربية"),
    ("à¤¹", "ह"), ("à¤¿à¤Ĥ", "हिं"), ("à¤¦à¥Ģ", "दी"), ("âĪĳ", "∑"), ("âĪı", "∏"), ("âĪĤ", "∂"),
    ("âĪĩ", "∇"), ("âĪŀ", "∞"), ("âĪļ", "√"), ("âĪ«", "∫"), ("âīĪ", "≈"), ("âīł", "≠"),
    ("âī¤", "≤"), ("âī¥", "≥")]

/-- Special tokens. -/
def specialTokenMap : List (String × String) :=
  [("<|begin_of_text|>", "<bos>"), ("<bos>", "<bos>"), ("<pad>", "")]

/-! ## One token -/

/-- Replace every occurrence of a text, from left to right. -/
def replaceAll (broken fixed : Token) (token : Token) : Token :=
  match token with
  | [] => []
  | c :: cs =>
    if broken.isPrefixOf (c :: cs) then
      fixed ++ replaceAll broken fixed (cs.drop (broken.length - 1))
    else c :: replaceAll broken fixed cs
termination_by token.length
decreasing_by all_goals simp only [List.length_drop, List.length_cons]; omega

/-- The zeros of the decimal digits outside ASCII. -/
def decimalZeros : List ℕ :=
  [0x660, 0x6f0, 0x7c0, 0x966, 0x9e6, 0xa66, 0xae6, 0xb66, 0xbe6, 0xc66, 0xce6, 0xd66, 0xde6,
    0xe50, 0xed0, 0xf20, 0x1040, 0x1090, 0x17e0, 0x1810, 0x1946, 0x19d0, 0x1a80, 0x1a90, 0x1b50,
    0x1bb0, 0x1c40, 0x1c50, 0xa620, 0xa8d0, 0xa900, 0xa9d0, 0xa9f0, 0xaa50, 0xabf0, 0xff10,
    0x104a0, 0x10d30, 0x11066, 0x110f0, 0x11136, 0x111d0, 0x112f0, 0x11450, 0x114d0, 0x11650,
    0x116c0, 0x11730, 0x118e0, 0x11950, 0x11c50, 0x11d50, 0x11da0, 0x16a60, 0x16ac0, 0x16b50,
    0x1d7ce, 0x1d7d8, 0x1d7e2, 0x1d7ec, 0x1d7f6, 0x1e140, 0x1e2f0, 0x1e950, 0x1fbf0]

/-- The value of a digit in base 16. -/
def hexDigit (c : Char) : Option ℕ :=
  let n := c.toNat
  if 48 ≤ n ∧ n ≤ 57 then some (n - 48)
  else if 97 ≤ n ∧ n ≤ 102 then some (n - 87)
  else if 65 ≤ n ∧ n ≤ 70 then some (n - 55)
  else (decimalZeros.find? fun z => z ≤ n ∧ n < z + 10).map (n - ·)

/-- White space. -/
def isSpace (c : Char) : Bool :=
  let n := c.toNat
  (9 ≤ n ∧ n ≤ 13) ∨ (28 ≤ n ∧ n ≤ 32) ∨ n = 0x85 ∨ n = 0xa0 ∨ n = 0x1680 ∨
    (0x2000 ≤ n ∧ n ≤ 0x200a) ∨ n = 0x2028 ∨ n = 0x2029 ∨ n = 0x202f ∨ n = 0x205f ∨ n = 0x3000

/-- The integer that two characters stand for in base 16. -/
def intBase16 (s : Token) : Option ℤ :=
  match ((s.dropWhile isSpace).reverse.dropWhile isSpace).reverse with
  | [d] => (hexDigit d).map (↑)
  | ['+', d] => (hexDigit d).map (↑)
  | ['-', d] => (hexDigit d).map fun n => -(n : ℤ)
  | [d, e] => (hexDigit d).bind fun m => (hexDigit e).map fun n => (16 * m + n : ℕ)
  | _ => none

/-- Normalize the marker of a leading space. -/
def normalizeSpace (token : Token) : Token :=
  match token with
  | ' ' :: rest | '_' :: rest | '▁' :: rest => 'Ġ' :: rest
  | _ => token

/-- Normalize newlines. -/
def normalizeNewline (token : Token) : Token :=
  if token = "Ċ".toList then "\n".toList
  else if token = "\\n".toList then "\n".toList
  else if token = "ĉ".toList then "\n".toList
  else if token = "Ġ\n".toList then "\n".toList
  else if "Ċ".toList <:+: token then replaceAll "Ċ".toList "\n".toList token
  else if "\\n".toList <:+: token then replaceAll "\\n".toList "\n".toList token
  else token

/-- Drop the space before punctuation. -/
def normalizePunctuation (token : Token) : Token :=
  if token = "Ġ,".toList then ",".toList
  else if token = "Ġ.".toList then ".".toList
  else if token = "Ġ;".toList then ";".toList
  else if token = "Ġ:".toList then ":".toList
  else token

/-- The character of a byte fallback such as `<0x20>`. -/
def byteFallback (token : Token) : Option Token :=
  if "<0x".toList.isPrefixOf token ∧ ">".toList.isSuffixOf token ∧ token.length = 6 then
    match intBase16 ((token.drop 3).take 2) with
    | some byteVal =>
      if 0 ≤ byteVal ∧ byteVal ≤ 255 then some [Char.ofNat byteVal.toNat] else none
    | none => none
  else none

/-- The canonical form of a token. -/
def canonicalToken (token : Token) (enabled : Bool) : Token :=
  if !enabled then token
  else if token = [] then token
  else
    let token := normalizePunctuation (normalizeNewline (normalizeSpace token))
    match byteFallback token with
    | some char => char
    | none =>
      let token := unicodeFixes.foldl (fun token fix =>
        if fix.1.toList <:+: token then replaceAll fix.1.toList fix.2.toList token else token) token
      match specialTokenMap.find? fun p => p.1.toList = token with
      | some p => p.2.toList
      | none => token

/-- Compare two strings, optionally after canonicalization. -/
def stringsEqualFlexible (s₁ s₂ : Token) (ignoreLeadingCharDiff : Bool) : Bool :=
  if !ignoreLeadingCharDiff then s₁ = s₂
  else canonicalToken s₁ true = canonicalToken s₂ true

/-! ## Sequences -/

/-- A token with the range of original tokens it was built from. -/
abbrev RangedToken := Token × (ℤ × ℤ)

/-- Merge the artifacts of a sequence whose first token is number `i`. -/
def mergeEncodingArtifacts (tokens : List Token) (i : ℤ) : List RangedToken :=
  match tokens with
  | [] => []
  | token :: tokens =>
    match multiTokenArtifactFixes.find? fun f => f.pattern.isPrefixOf (token :: tokens) with
    | some f =>
      let pl : ℤ := f.pattern.length
      (f.replacement.toList, (i, i + pl)) ::
        mergeEncodingArtifacts (tokens.drop f.rest.length) (i + pl)
    | none => (token, (i, i + 1)) :: mergeEncodingArtifacts tokens (i + 1)
termination_by tokens.length
decreasing_by all_goals simp only [List.length_drop, List.length_cons]; omega

/-- The byte that a character stands for. -/
def getByteValue (c : Char) : Option ℕ :=
  if c.toNat < 256 then some c.toNat else visualByteMap.lookup c

/-- Strip the space markers on the left. -/
def lstripSpace (token : Token) : Token := token.dropWhile (· = 'Ġ')

/-- A continuation byte in a range. -/
def contBits (lo hi b : ℕ) : Option ℕ := if lo ≤ b ∧ b ≤ hi then some (b - 128) else none

/-- Decode UTF-8 strictly: no overlong forms, no surrogates. -/
def decodeUtf8 : List ℕ → Option (List Char)
  | [] => some []
  | b₀ :: rest =>
    if b₀ < 0x80 then (decodeUtf8 rest).map (Char.ofNat b₀ :: ·)
    else match rest with
      | [] => none
      | b₁ :: rest =>
        if 0xc2 ≤ b₀ ∧ b₀ ≤ 0xdf then do
          let c₁ ← contBits 0x80 0xbf b₁
          let chars ← decodeUtf8 rest
          return Char.ofNat ((b₀ - 0xc0) * 64 + c₁) :: chars
        else match rest with
          | [] => none
          | b₂ :: rest =>
            if 0xe0 ≤ b₀ ∧ b₀ ≤ 0xef then do
              let c₁ ← contBits (if b₀ = 0xe0 then 0xa0 else 0x80)
                (if b₀ = 0xed then 0x9f else 0xbf) b₁
              let c₂ ← contBits 0x80 0xbf b₂
              let chars ← decodeUtf8 rest
              return Char.ofNat ((b₀ - 0xe0) * 4096 + c₁ * 64 + c₂) :: chars
            else match rest with
              | [] => none
              | b₃ :: rest =>
                if 0xf0 ≤ b₀ ∧ b₀ ≤ 0xf4 then do
                  let c₁ ← contBits (if b₀ = 0xf0 then 0x90 else 0x80)
                    (if b₀ = 0xf4 then 0x8f else 0xbf) b₁
                  let c₂ ← contBits 0x80 0xbf b₂
                  let c₃ ← contBits 0x80 0xbf b₃
                  let chars ← decodeUtf8 rest
                  return Char.ofNat ((b₀ - 0xf0) * 262144 + c₁ * 4096 + c₂ * 64 + c₃) :: chars
                else none

/-- Decode two to four buffered bytes as one character, or leave the buffer as it is. -/
def tryMergeByteBuffer (buffer : List RangedToken) : List RangedToken :=
  match buffer with
  | [] => []
  | (token, range) :: rest =>
    if rest = [] ∧ (lstripSpace token).length ≤ 1 then buffer
    else
      let spacePrefix : Token := if "Ġ".toList.isPrefixOf token then ['Ġ'] else []
      match (buffer.flatMap fun p => lstripSpace p.1).mapM getByteValue with
      | none => buffer
      | some rawBytes =>
        if rawBytes.length < 2 ∨ 4 < rawBytes.length then buffer
        else match decodeUtf8 rawBytes with
          | some [decoded] =>
            if 127 < decoded.toNat then
              [(spacePrefix ++ [decoded], (range.1, (((token, range) :: rest).getLast
                (List.cons_ne_nil _ _)).2.2))]
            else buffer
          | _ => buffer

/-- A token all of whose characters are bytes. -/
def allBytes (token : Token) : Bool :=
  let clean := lstripSpace token
  !clean.isEmpty && clean.all fun c => (getByteValue c).isSome

/-- Merge consecutive byte tokens, with a buffer of bytes read so far. -/
def mergeConsecutiveBytes (byteBuffer : List RangedToken) : List RangedToken → List RangedToken
  | [] => tryMergeByteBuffer byteBuffer
  | (token, range) :: rest =>
    if allBytes token then mergeConsecutiveBytes (byteBuffer ++ [(token, range)]) rest
    else tryMergeByteBuffer byteBuffer ++ (token, range) :: mergeConsecutiveBytes [] rest

/-- The canonical tokens of a sequence, each with its range. -/
def canonicalizeSequence (seq : List Token) : List Token × List (ℤ × ℤ) :=
  let merged := mergeEncodingArtifacts seq 0
  let canon := merged.map fun p => (canonicalToken p.1 true, p.2)
  let result := mergeConsecutiveBytes [] canon
  (result.map Prod.fst, result.map Prod.snd)

/-! ## The ranges -/

theorem mergeEncodingArtifacts_tiles (tokens : List Token) (i : ℤ) :
    Tiles ((mergeEncodingArtifacts tokens i).map Prod.snd) i (i + tokens.length) := by
  induction tokens, i using mergeEncodingArtifacts.induct with
  | case1 i => simp [mergeEncodingArtifacts, Tiles]
  | case2 i token tokens f hf pl ih =>
    have hfound : f.pattern.isPrefixOf (token :: tokens) = true := by
      simpa using List.find?_some hf
    have hle := (List.isPrefixOf_iff_prefix.mp hfound).length_le
    have hpattern : f.pattern.length = f.rest.length + 1 := by simp [ArtifactFix.pattern]
    have hstop : i + pl + (tokens.drop f.rest.length).length = i + (token :: tokens).length := by
      rw [List.length_drop, List.length_cons]
      rw [List.length_cons] at hle
      omega
    rw [mergeEncodingArtifacts, hf]
    exact ⟨rfl, by omega, hstop ▸ ih⟩
  | case3 i token tokens hf ih =>
    have hstop : i + 1 + tokens.length = i + (token :: tokens).length := by
      rw [List.length_cons]
      omega
    rw [mergeEncodingArtifacts, hf]
    exact ⟨rfl, by omega, hstop ▸ ih⟩

/-- A merged buffer spans the positions of the buffer. -/
theorem tryMergeByteBuffer_cases (buffer : List RangedToken) :
    tryMergeByteBuffer buffer = buffer ∨ ∃ p rest merged, buffer = p :: rest ∧
      tryMergeByteBuffer buffer =
        [(merged, (p.2.1, ((p :: rest).getLast (List.cons_ne_nil p rest)).2.2))] := by
  cases buffer with
  | nil => exact .inl rfl
  | cons p rest =>
    simp only [tryMergeByteBuffer]
    split
    case isTrue => exact .inl rfl
    case isFalse =>
      split
      case h_1 => exact .inl rfl
      case h_2 rawBytes _ =>
        split
        case isTrue => exact .inl rfl
        case isFalse =>
          split
          case h_2 => exact .inl rfl
          case h_1 decoded _ =>
            split
            case isTrue => exact .inr ⟨p, rest, _, rfl, rfl⟩
            case isFalse => exact .inl rfl

theorem tryMergeByteBuffer_tiles {buffer : List RangedToken} {a b : ℤ}
    (h : Tiles (buffer.map Prod.snd) a b) :
    Tiles ((tryMergeByteBuffer buffer).map Prod.snd) a b := by
  rcases tryMergeByteBuffer_cases buffer with heq | ⟨p, rest, merged, rfl, heq⟩
  · rwa [heq]
  · have hlast : ((p :: rest).getLast (List.cons_ne_nil p rest)).2 =
        (p.2 :: rest.map Prod.snd).getLast (List.cons_ne_nil _ _) :=
      (List.getLast_map (l := p :: rest) (List.cons_ne_nil _ _)).symm
    rw [heq, List.map_cons, List.map_nil, hlast]
    exact Tiles.join h

theorem mergeConsecutiveBytes_tiles {byteBuffer tokens : List RangedToken} {a b : ℤ}
    (h : Tiles ((byteBuffer ++ tokens).map Prod.snd) a b) :
    Tiles ((mergeConsecutiveBytes byteBuffer tokens).map Prod.snd) a b := by
  induction tokens generalizing byteBuffer a with
  | nil =>
    rw [List.append_nil] at h
    exact tryMergeByteBuffer_tiles h
  | cons p rest ih =>
    rw [mergeConsecutiveBytes]
    split
    case isTrue => exact ih (by simpa using h)
    case isFalse =>
      rw [List.map_append, tiles_append] at h ⊢
      obtain ⟨c, hbuffer, hstart, hlt, hrest⟩ := h
      exact ⟨c, tryMergeByteBuffer_tiles hbuffer, hstart, hlt, ih (by simpa using hrest)⟩

/-- Each canonical token has a range. -/
theorem length_canonicalizeSequence (seq : List Token) :
    (canonicalizeSequence seq).1.length = (canonicalizeSequence seq).2.length := by
  simp [canonicalizeSequence]

/-- The ranges of the canonical tokens tile the sequence. -/
theorem canonicalizeSequence_tiles (seq : List Token) :
    Tiles (canonicalizeSequence seq).2 0 seq.length := by
  have hmerged := mergeEncodingArtifacts_tiles seq 0
  rw [zero_add] at hmerged
  refine mergeConsecutiveBytes_tiles ?_
  simpa [List.map_map, Function.comp_def] using hmerged

/-- Each canonical token has a range. The ranges are non-empty, each starts where the ones before
it have ended, and together they hold exactly the positions of the sequence. -/
theorem canonicalizeSequence_ranges (seq : List Token) :
    (canonicalizeSequence seq).1.length = (canonicalizeSequence seq).2.length ∧
      (∀ range ∈ (canonicalizeSequence seq).2, range.1 < range.2) ∧
      ((canonicalizeSequence seq).2.Pairwise fun range range' =>
        range.1 < range'.1 ∧ range.2 < range'.2 ∧ range.2 ≤ range'.1) ∧
      ∀ position : ℤ, (∃ range ∈ (canonicalizeSequence seq).2,
        range.1 ≤ position ∧ position < range.2) ↔ 0 ≤ position ∧ position < seq.length := by
  have htiles := canonicalizeSequence_tiles seq
  have hne : ∀ range ∈ (canonicalizeSequence seq).2, range.1 < range.2 := by
    intro range hrange
    exact (htiles.mem hrange).2.1
  refine ⟨length_canonicalizeSequence seq, hne, ?_, ?_⟩
  · refine htiles.pairwise.imp_of_mem ?_
    intro range range' hrange hrange' hle
    have hlt := hne range hrange
    have hlt' := hne range' hrange'
    omega
  · intro position
    constructor
    · rintro ⟨range, hrange, hstart, hstop⟩
      have hbounds := htiles.mem hrange
      omega
    · rintro ⟨hstart, hstop⟩
      exact htiles.exists_mem hstart hstop

end NemoRL.XToken
