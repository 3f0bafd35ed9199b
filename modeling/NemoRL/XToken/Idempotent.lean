import Mathlib.Data.List.TakeWhile
import NemoRL.XToken.PostProcess
import NemoRL.XToken.RepairTable

/-!
# Canonical forms of canonical tokens

The alignment compares canonical tokens, and the mask of its pairs takes the canonical form once
more. Most canonical tokens are their own canonical form. The others come from a byte fallback,
which returns before the rules for a leading space and for broken texts, and from the rules for
newlines, of which only the first one that applies is used.

## Main definitions

* `normalizeMarkers` — the rules before the byte fallback.
* `Unstable` — the tokens whose canonical form is not canonical.

## Main results

* `canonicalToken_idempotent_iff` — they are all of them, and for the others the mask of a pair
  compares what the alignment compared.
-/

namespace NemoRL.XToken

open Lib

/-- The rules before the byte fallback. -/
def normalizeMarkers (token : Token) : Token :=
  normalizePunctuation (normalizeNewline (normalizeSpace token))

/-- The rules after the byte fallback. -/
def repairedForm (fixes : List (String × String)) (token : Token) : Token :=
  let token := applyFixes fixes token
  match specialTokenMap.find? fun p => p.1.toList = token with
  | some p => p.2.toList
  | none => token

/-- The tokens whose canonical form is not canonical: byte fallbacks for a space, an underscore or
the broken text `Ã`, a space marker before a newline that is itself a marker, and tokens with both
markers of a newline. -/
def Unstable (token : Token) : Prop :=
  match byteFallback (normalizeMarkers token) with
  | some char => char = " ".toList ∨ char = "_".toList ∨ char = "Ã".toList
  | none => normalizeSpace token = "ĠĊ".toList ∨ normalizeSpace token = "Ġ\\n".toList ∨
      "Ċ".toList <:+: normalizeSpace token ∧ "\\n".toList <:+: normalizeSpace token

instance (token : Token) : Decidable (Unstable token) :=
  match h : byteFallback (normalizeMarkers token) with
  | some char =>
    decidable_of_iff (char = " ".toList ∨ char = "_".toList ∨ char = "Ã".toList) (by
      rw [Unstable, h])
  | none =>
    decidable_of_iff (normalizeSpace token = "ĠĊ".toList ∨ normalizeSpace token = "Ġ\\n".toList ∨
      "Ċ".toList <:+: normalizeSpace token ∧ "\\n".toList <:+: normalizeSpace token) (by
        rw [Unstable, h])

section Canonical
variable {token char : Token}

theorem canonicalToken_of_byte (hne : token ≠ [])
    (h : byteFallback (normalizeMarkers token) = some char) : canonicalToken token true = char := by
  rw [normalizeMarkers] at h
  rw [← canonicalTokenWith_unicodeFixes, canonicalTokenWith, if_neg hne]
  simp only [h]

theorem canonicalTokenWith_of_no_byte (fixes : List (String × String)) (hne : token ≠ [])
    (h : byteFallback (normalizeMarkers token) = none) :
    canonicalTokenWith fixes token = repairedForm fixes (normalizeMarkers token) := by
  rw [normalizeMarkers] at h
  rw [canonicalTokenWith, if_neg hne]
  simp only [h, repairedForm, normalizeMarkers]
  rfl

theorem canonicalToken_of_no_byte (hne : token ≠ [])
    (h : byteFallback (normalizeMarkers token) = none) :
    canonicalToken token true = repairedForm unicodeFixes (normalizeMarkers token) := by
  rw [← canonicalTokenWith_unicodeFixes, canonicalTokenWith_of_no_byte unicodeFixes hne h]

end Canonical

/-! ## The markers -/

/-- The texts that are a newline as a whole. -/
def newlineTokens : List Token := ["Ċ".toList, "\\n".toList, "ĉ".toList, "Ġ\n".toList]

/-- The texts of which the space is dropped. -/
def punctuationTokens : List Token := ["Ġ,".toList, "Ġ.".toList, "Ġ;".toList, "Ġ:".toList]

section Markers
variable {token : Token}

theorem normalizeSpace_eq_self (h : ∀ c ∈ [' ', '_', '▁'], ¬ [c] <+: token) :
    normalizeSpace token = token := by
  unfold normalizeSpace
  split
  · exact absurd (by simp) (h ' ' (by simp))
  · exact absurd (by simp) (h '_' (by simp))
  · exact absurd (by simp) (h '▁' (by simp))
  · rfl

/-- No space is left at the front. -/
theorem not_prefix_normalizeSpace {c : Char} (hc : c ∈ [' ', '_', '▁']) :
    ¬ [c] <+: normalizeSpace token := by
  have hmarker : ¬ 'Ġ' ∈ [' ', '_', '▁'] := by decide
  unfold normalizeSpace
  split
  · rintro ⟨_, heq⟩
    exact hmarker ((List.cons_eq_cons.mp heq).1 ▸ hc)
  · rintro ⟨_, heq⟩
    exact hmarker ((List.cons_eq_cons.mp heq).1 ▸ hc)
  · rintro ⟨_, heq⟩
    exact hmarker ((List.cons_eq_cons.mp heq).1 ▸ hc)
  · next hspace hunder hblock =>
    rintro ⟨rest, rfl⟩
    simp only [List.mem_cons, List.not_mem_nil, or_false] at hc
    rcases hc with rfl | rfl | rfl
    · exact hspace rest rfl
    · exact hunder rest rfl
    · exact hblock rest rfl

theorem normalizeNewline_of_mem (h : token ∈ newlineTokens) :
    normalizeNewline token = "\n".toList := by
  have hall : ∀ token ∈ newlineTokens, normalizeNewline token = "\n".toList := by decide
  exact hall token h

/-- Only one of the two markers inside a token is replaced. -/
theorem normalizeNewline_of_not_mem (h : token ∉ newlineTokens) :
    normalizeNewline token =
      if "Ċ".toList <:+: token then replaceAll "Ċ".toList "\n".toList token
      else replaceAll "\\n".toList "\n".toList token := by
  simp only [newlineTokens, List.mem_cons, List.not_mem_nil, or_false, not_or] at h
  rw [normalizeNewline, if_neg h.1, if_neg h.2.1, if_neg h.2.2.1, if_neg h.2.2.2]
  by_cases hmarker : "Ċ".toList <:+: token
  · rw [if_pos hmarker, if_pos hmarker]
  · rw [if_neg hmarker, if_neg hmarker]
    split
    · rfl
    · next hnone => exact (replaceAll_eq_self hnone).symm

theorem normalizePunctuation_of_mem (h : token ∈ punctuationTokens) :
    normalizePunctuation token ∈ [",".toList, ".".toList, ";".toList, ":".toList] := by
  have hall : ∀ token ∈ punctuationTokens,
      normalizePunctuation token ∈ [",".toList, ".".toList, ";".toList, ":".toList] := by
    decide
  exact hall token h

theorem normalizePunctuation_of_not_mem (h : token ∉ punctuationTokens) :
    normalizePunctuation token = token := by
  simp only [punctuationTokens, List.mem_cons, List.not_mem_nil, or_false, not_or] at h
  rw [normalizePunctuation, if_neg h.1, if_neg h.2.1, if_neg h.2.2.1, if_neg h.2.2.2]

end Markers

/-! ## Tokens whose markers are normal -/

/-- A token with normal markers, except that it may still be or have a marker of a newline that was
behind another rule. -/
structure NormalMarkers (token : Token) : Prop where
  space : ∀ c ∈ [' ', '_', '▁'], ¬ [c] <+: token
  newline : ¬ "Ċ".toList <:+: token
  tab : token ≠ "ĉ".toList
  punctuation : token ∉ punctuationTokens

section Normal
variable {token : Token}

theorem normalMarkers_newline : NormalMarkers "\n".toList := by
  refine ⟨?_, ?_, ?_, ?_⟩ <;> decide

/-- A newline put in for a marker leaves the front without a space. -/
theorem not_prefix_replaceAll {broken : Token} {c : Char} (hc : c ∈ [' ', '_', '▁'])
    (h : ¬ [c] <+: token) : ¬ [c] <+: replaceAll broken "\n".toList token := by
  have hall : ∀ c ∈ [' ', '_', '▁'], ∀ x ∈ "\n".toList, x ∉ [c] := by decide
  exact fun hfront => h (prefix_of_prefix_replaceAll (by decide) (hall c hc) hfront)

/-- After the rules for newlines there is no space at the front and no marker `Ċ`, and what is
left is not the other marker. -/
theorem normalizeNewline_normal (hspace : ∀ c ∈ [' ', '_', '▁'], ¬ [c] <+: token) :
    (∀ c ∈ [' ', '_', '▁'], ¬ [c] <+: normalizeNewline token) ∧
      ¬ "Ċ".toList <:+: normalizeNewline token ∧ normalizeNewline token ≠ "ĉ".toList := by
  by_cases hmem : token ∈ newlineTokens
  · rw [normalizeNewline_of_mem hmem]
    exact ⟨normalMarkers_newline.space, normalMarkers_newline.newline, normalMarkers_newline.tab⟩
  have hne : token ≠ "ĉ".toList := by
    rintro rfl
    exact hmem (by decide)
  have htab : ∀ broken : Token, broken ≠ [] → replaceAll broken "\n".toList token ≠ "ĉ".toList := by
    intro broken hbroken heq
    have hput : "\n".toList = ['\n'] := by decide
    have hchar : "ĉ".toList = ['ĉ'] := by decide
    rw [hput, hchar] at heq
    rcases replaceAll_eq_cons hbroken heq with ⟨rest, rfl, hrest⟩ | ⟨heq, -⟩
    · rw [replaceAll_eq_nil (List.cons_ne_nil _ _) hrest] at hne
      exact hne hchar.symm
    · exact absurd heq (by decide)
  rw [normalizeNewline_of_not_mem hmem]
  split
  · refine ⟨fun c hc => not_prefix_replaceAll hc (hspace c hc), ?_, htab _ (by decide)⟩
    exact not_infix_replaceAll (by decide) (by decide) (by decide)
  · next hnone =>
    refine ⟨fun c hc => not_prefix_replaceAll hc (hspace c hc), fun h => hnone ?_,
      htab _ (by decide)⟩
    exact infix_of_infix_replaceAll (by decide) (by decide) h

theorem normalMarkers_normalizePunctuation (hspace : ∀ c ∈ [' ', '_', '▁'], ¬ [c] <+: token)
    (hnewline : ¬ "Ċ".toList <:+: token) (htab : token ≠ "ĉ".toList) :
    NormalMarkers (normalizePunctuation token) := by
  by_cases hmem : token ∈ punctuationTokens
  · have hall : ∀ token ∈ [",".toList, ".".toList, ";".toList, ":".toList],
        (∀ c ∈ [' ', '_', '▁'], ¬ [c] <+: token) ∧ ¬ "Ċ".toList <:+: token ∧
          token ≠ "ĉ".toList ∧ token ∉ punctuationTokens := by
      decide
    obtain ⟨h₁, h₂, h₃, h₄⟩ := hall _ (normalizePunctuation_of_mem hmem)
    exact ⟨h₁, h₂, h₃, h₄⟩
  · rw [normalizePunctuation_of_not_mem hmem]
    exact ⟨hspace, hnewline, htab, hmem⟩

/-- The rules before the byte fallback make the markers normal. -/
theorem normalMarkers_normalizeMarkers (token : Token) :
    NormalMarkers (normalizeMarkers token) := by
  obtain ⟨hspace, hnewline, htab⟩ :=
    normalizeNewline_normal fun c hc => not_prefix_normalizeSpace hc
  exact normalMarkers_normalizePunctuation hspace hnewline htab

/-- They change nothing in a token with normal markers and no marker of a newline. -/
theorem NormalMarkers.normalizeMarkers_eq (h : NormalMarkers token)
    (hescape : ¬ "\\n".toList <:+: token) (hspaced : token ≠ "Ġ\n".toList) :
    normalizeMarkers token = token := by
  have hmem : token ∉ newlineTokens := by
    simp only [newlineTokens, List.mem_cons, List.not_mem_nil, or_false, not_or]
    refine ⟨?_, ?_, h.tab, hspaced⟩
    · rintro rfl
      exact h.newline List.infix_rfl
    · rintro rfl
      exact hescape List.infix_rfl
  rw [normalizeMarkers, normalizeSpace_eq_self h.space, normalizeNewline_of_not_mem hmem,
    if_neg h.newline, replaceAll_eq_self hescape, normalizePunctuation_of_not_mem h.punctuation]

/-- The marker of a newline that is spelled out is left just in tokens with both markers. -/
theorem escape_infix_normalizeMarkers :
    "\\n".toList <:+: normalizeMarkers token ↔
      "Ċ".toList <:+: normalizeSpace token ∧ "\\n".toList <:+: normalizeSpace token := by
  rw [normalizeMarkers]
  generalize normalizeSpace token = token
  have hpunctuation : "\\n".toList <:+: normalizePunctuation (normalizeNewline token) ↔
      "\\n".toList <:+: normalizeNewline token := by
    by_cases hmem : normalizeNewline token ∈ punctuationTokens
    · have hbefore : ∀ token ∈ punctuationTokens, ¬ "\\n".toList <:+: token := by decide
      have hafter : ∀ token ∈ [",".toList, ".".toList, ";".toList, ":".toList],
          ¬ "\\n".toList <:+: token := by decide
      exact iff_of_false (hafter _ (normalizePunctuation_of_mem hmem)) (hbefore _ hmem)
    · rw [normalizePunctuation_of_not_mem hmem]
  rw [hpunctuation]
  by_cases hmem : token ∈ newlineTokens
  · have hall : ∀ token ∈ newlineTokens,
        ¬ ("Ċ".toList <:+: token ∧ "\\n".toList <:+: token) := by decide
    rw [normalizeNewline_of_mem hmem]
    exact iff_of_false (by decide) (hall token hmem)
  rw [normalizeNewline_of_not_mem hmem]
  split
  · next hmarker =>
    refine ⟨fun h => ⟨hmarker, ?_⟩, fun h => ?_⟩
    · exact infix_of_infix_replaceAll (by decide) (by decide) h
    · exact infix_replaceAll (by decide) (by decide) (by decide) h.2
  · next hmarker =>
    refine iff_of_false ?_ fun h => hmarker h.1
    exact not_infix_replaceAll (by decide) (by decide) (by decide)

/-- The two tokens in which a newline behind a space is put in. -/
theorem normalizeMarkers_eq_spaced :
    normalizeMarkers token = "Ġ\n".toList ↔
      normalizeSpace token = "ĠĊ".toList ∨ normalizeSpace token = "Ġ\\n".toList := by
  rw [normalizeMarkers]
  generalize normalizeSpace token = token
  constructor
  · intro h
    have hpunctuation : normalizeNewline token ∉ punctuationTokens := by
      intro hmem
      have hafter : "Ġ\n".toList ∉ [",".toList, ".".toList, ";".toList, ":".toList] := by
        decide
      exact hafter (h ▸ normalizePunctuation_of_mem hmem)
    rw [normalizePunctuation_of_not_mem hpunctuation] at h
    have hmem : token ∉ newlineTokens := by
      intro hmem
      rw [normalizeNewline_of_mem hmem] at h
      exact absurd h (by decide)
    -- A marker that was replaced by one newline behind the space.
    have hreplaced : ∀ broken : Token, broken ≠ [] →
        replaceAll broken "\n".toList token = "Ġ\n".toList → token = 'Ġ' :: broken := by
      intro broken hbroken heq
      have hput : "\n".toList = ['\n'] := by decide
      have hspaced : "Ġ\n".toList = ['Ġ', '\n'] := by decide
      rw [hput, hspaced] at heq
      rcases replaceAll_eq_cons hbroken heq with ⟨rest, rfl, hrest⟩ | ⟨hchar, -⟩
      · rcases replaceAll_eq_cons hbroken hrest with ⟨last, rfl, hlast⟩ | ⟨-, last, rfl, hlast⟩
        · rw [replaceAll_eq_nil (List.cons_ne_nil _ _) hlast] at hmem
          exact absurd (by decide) hmem
        · rw [replaceAll_eq_nil (List.cons_ne_nil _ _) hlast, List.append_nil]
      · exact absurd hchar (by decide)
    rw [normalizeNewline_of_not_mem hmem] at h
    split at h
    · exact Or.inl ((hreplaced _ (by decide) h).trans (by decide))
    · exact Or.inr ((hreplaced _ (by decide) h).trans (by decide))
  · rintro (rfl | rfl)
    · decide +kernel
    · decide +kernel

/-- The repairs keep the markers normal. -/
theorem NormalMarkers.applyFixes (h : NormalMarkers token) :
    NormalMarkers (applyFixes unicodeFixes token) := by
  have hspace : ∀ fix ∈ unicodeFixes, ∀ x ∈ fix.2.toList, x ∉ [' ', '_', '▁'] := by decide
  have hkept : ∀ kept ∈ "ĉ".toList :: punctuationTokens,
      XToken.applyFixes unicodeFixes token = kept → token = kept := by
    have hdisjoint : ∀ fix ∈ unicodeFixes, ∀ x ∈ fix.2.toList,
        ∀ kept ∈ "ĉ".toList :: punctuationTokens, x ∉ kept := by decide
    intro kept hmem heq
    rw [← heq]
    refine (applyFixes_eq_of_disjoint properFix_unicodeFixes fun fix hfix x hx => ?_).symm
    rw [heq]
    exact hdisjoint fix hfix x hx kept hmem
  refine ⟨fun c hc hfront => h.space c hc ?_, fun hinside => h.newline ?_, fun heq => h.tab ?_,
    fun hmem => h.punctuation ?_⟩
  · refine prefix_of_prefix_applyFixes properFix_unicodeFixes (fun fix hfix x hx hmem => ?_) hfront
    rw [List.mem_singleton] at hmem
    exact hspace fix hfix x hx (hmem ▸ hc)
  · exact infix_of_infix_applyFixes properFix_unicodeFixes (by decide) hinside
  · exact hkept _ List.mem_cons_self heq
  · rw [hkept _ (List.mem_cons_of_mem _ hmem) rfl]
    exact hmem

end Normal

/-! ## Byte fallbacks -/

section Byte
variable {token char : Token}

/-- A byte fallback stands for one character of a byte. -/
theorem byteFallback_eq_some (h : byteFallback token = some char) :
    ∃ b < 256, char = [Char.ofNat b] := by
  unfold byteFallback at h
  split at h
  · split at h
    · next byteVal _ =>
      split at h
      · next hbyte =>
        exact ⟨byteVal.toNat, by omega, (Option.some.inj h).symm⟩
      · exact absurd h (by simp)
    · exact absurd h (by simp)
  · exact absurd h (by simp)

/-- The characters of a number in base 16. -/
def isBase16Char (c : Char) : Bool := isSpace c ∨ (hexDigit c).isSome ∨ c = '+' ∨ c = '-'

theorem isBase16Char_of_hexDigit {c : Char} {n : ℕ} (h : hexDigit c = some n) : isBase16Char c := by
  simp [isBase16Char, h]

theorem mem_dropWhile {p : Char → Bool} {c : Char} (hc : c ∈ token) (hp : p c = false) :
    c ∈ token.dropWhile p := by
  rw [← List.takeWhile_append_dropWhile (p := p) (l := token), List.mem_append] at hc
  refine hc.resolve_left fun hspace => ?_
  rw [List.mem_takeWhile_imp hspace] at hp
  exact Bool.noConfusion hp

/-- All characters of a number can stand in one. -/
theorem isBase16Char_of_intBase16 {n : ℤ} (h : intBase16 token = some n) :
    ∀ c ∈ token, isBase16Char c := by
  intro c hc
  by_cases hspace : isSpace c
  · simp [isBase16Char, hspace]
  have hmem : c ∈ ((token.dropWhile isSpace).reverse.dropWhile isSpace).reverse := by
    rw [List.mem_reverse]
    refine mem_dropWhile ?_ (by simpa using hspace)
    rw [List.mem_reverse]
    exact mem_dropWhile hc (by simpa using hspace)
  unfold intBase16 at h
  generalize ((token.dropWhile isSpace).reverse.dropWhile isSpace).reverse = digits at h hmem
  split at h
  · obtain ⟨m, hm, -⟩ := Option.map_eq_some_iff.mp h
    rw [List.mem_singleton.mp hmem]
    exact isBase16Char_of_hexDigit hm
  · obtain ⟨m, hm, -⟩ := Option.map_eq_some_iff.mp h
    rcases List.mem_cons.mp hmem with rfl | hmem
    · simp [isBase16Char]
    · rw [List.mem_singleton.mp hmem]
      exact isBase16Char_of_hexDigit hm
  · obtain ⟨m, hm, -⟩ := Option.map_eq_some_iff.mp h
    obtain ⟨a, ha, -⟩ := Option.bind_eq_some_iff.mp hm
    rcases List.mem_cons.mp hmem with rfl | hmem
    · simp [isBase16Char]
    · rw [List.mem_singleton.mp hmem]
      exact isBase16Char_of_hexDigit ha
  · obtain ⟨m, hm, hrest⟩ := Option.bind_eq_some_iff.mp h
    obtain ⟨m', hm', -⟩ := Option.map_eq_some_iff.mp hrest
    rcases List.mem_cons.mp hmem with rfl | hmem
    · exact isBase16Char_of_hexDigit hm
    · rw [List.mem_singleton.mp hmem]
      exact isBase16Char_of_hexDigit hm'
  · exact absurd h (by simp)

/-- The characters of a byte fallback. -/
theorem mem_of_byteFallback (h : byteFallback token = some char) {c : Char} (hc : c ∈ token) :
    c ∈ "<0x>".toList ∨ isBase16Char c := by
  unfold byteFallback at h
  split at h
  · next hshape =>
    obtain ⟨hfront, hback, hlength⟩ := hshape
    obtain ⟨rest, rfl⟩ := List.isPrefixOf_iff_prefix.mp hfront
    have hopen : "<0x".toList = ['<', '0', 'x'] := by decide
    have hclose : ">".toList = ['>'] := by decide
    have hboth : "<0x>".toList = ['<', '0', 'x', '>'] := by decide
    rw [hopen] at h hlength hc hback
    rw [hclose] at hback
    rw [hboth]
    obtain ⟨d, e, f, rfl⟩ : ∃ d e f, rest = [d, e, f] := by
      rw [← List.length_eq_three]
      simpa using hlength
    have hf : f = '>' := by
      obtain ⟨front, heq⟩ := List.isSuffixOf_iff_suffix.mp hback
      have hlast := congrArg List.getLast? heq
      simpa using hlast.symm
    subst hf
    split at h
    · next byteVal hbyte =>
      have hall := isBase16Char_of_intBase16 hbyte
      simp only [List.cons_append, List.nil_append, List.mem_cons, List.not_mem_nil, or_false]
        at hc ⊢
      rcases hc with rfl | rfl | rfl | rfl | rfl | rfl
      · simp
      · simp
      · simp
      · exact Or.inr (hall _ (by simp))
      · exact Or.inr (hall _ (by simp))
      · simp
    · exact absurd h (by simp)
  · exact absurd h (by simp)

/-- The repairs put in no byte fallback. -/
theorem applyFixes_eq_of_byteFallback
    (h : byteFallback (applyFixes unicodeFixes token) = some char) :
    applyFixes unicodeFixes token = token := by
  have hfixed : ∀ fix ∈ unicodeFixes, ∀ c ∈ fix.2.toList,
      ¬ (c ∈ "<0x>".toList ∨ isBase16Char c) := by
    decide
  exact applyFixes_eq_of_disjoint properFix_unicodeFixes fun fix hfix c hc hmem =>
    hfixed fix hfix c hc (mem_of_byteFallback h hmem)

/-- The characters of a byte that have another canonical form. -/
theorem canonicalToken_byte {b : ℕ} (hb : b < 256) :
    canonicalToken [Char.ofNat b] true = [Char.ofNat b] ↔
      ¬ ([Char.ofNat b] = " ".toList ∨ [Char.ofNat b] = "_".toList ∨
        [Char.ofNat b] = "Ã".toList) := by
  have hall : ∀ b ∈ List.range 256, (canonicalToken [Char.ofNat b] true = [Char.ofNat b] ↔
      ¬ ([Char.ofNat b] = " ".toList ∨ [Char.ofNat b] = "_".toList ∨
        [Char.ofNat b] = "Ã".toList)) := by
    decide +kernel
  exact hall b (List.mem_range.mpr hb)

end Byte

/-! ## The second canonical form -/

section Second
variable {token char : Token}

/-- What the rules after the byte fallback give. -/
theorem repairedForm_eq (fixes : List (String × String)) (token : Token) :
    repairedForm fixes token = "<bos>".toList ∨ repairedForm fixes token = [] ∨
      repairedForm fixes token = applyFixes fixes token ∧
        specialTokenMap.find? (fun p => p.1.toList = applyFixes fixes token) = none := by
  have hspecial : ∀ p ∈ specialTokenMap, p.2.toList = "<bos>".toList ∨ p.2.toList = [] := by
    decide
  simp only [repairedForm]
  split
  · next p hfind =>
    rcases hspecial p (List.mem_of_find?_eq_some hfind) with heq | heq
    · exact Or.inl heq
    · exact Or.inr (Or.inl heq)
  · next hfind => exact Or.inr (Or.inr ⟨rfl, hfind⟩)

/-- A token with normal markers and no marker of a newline is its own canonical form once it is
repaired and no special token. -/
theorem NormalMarkers.canonicalToken_eq (h : NormalMarkers token)
    (hescape : ¬ "\\n".toList <:+: token) (hspaced : token ≠ "Ġ\n".toList)
    (hbyte : byteFallback token = none)
    (hfixes : ∀ fix ∈ unicodeFixes, ¬ fix.1.toList <:+: token)
    (hfind : specialTokenMap.find? (fun p => p.1.toList = token) = none) :
    canonicalToken token true = token := by
  rcases eq_or_ne token [] with rfl | hne
  · rfl
  have hmarkers := h.normalizeMarkers_eq hescape hspaced
  rw [canonicalToken_of_no_byte hne (by rwa [hmarkers]), hmarkers, repairedForm]
  simp only [applyFixes_eq_self hfixes, hfind]

/-- A canonical form has the marker of a newline that is spelled out just if both markers were in
the token. -/
theorem escape_infix_canonicalToken (h : "\\n".toList <:+: canonicalToken token true) :
    "Ċ".toList <:+: normalizeSpace token ∧ "\\n".toList <:+: normalizeSpace token := by
  have hlength : ("\\n".toList).length = 2 := by decide
  rcases eq_or_ne token [] with rfl | hne
  · exact absurd h (by decide)
  cases hbyte : byteFallback (normalizeMarkers token) with
  | some char =>
    rw [canonicalToken_of_byte hne hbyte] at h
    obtain ⟨b, -, rfl⟩ := byteFallback_eq_some hbyte
    have hle := h.length_le
    rw [hlength, List.length_singleton] at hle
    omega
  | none =>
    rw [canonicalToken_of_no_byte hne hbyte] at h
    rcases repairedForm_eq unicodeFixes (normalizeMarkers token) with heq | heq | ⟨heq, -⟩
    · rw [heq] at h
      exact absurd h (by decide)
    · rw [heq] at h
      exact absurd h (by decide)
    · rw [heq] at h
      exact escape_infix_normalizeMarkers.mp
        (infix_of_infix_applyFixes properFix_unicodeFixes (by decide) h)

/-- The second canonical form after a byte fallback. -/
theorem idempotent_of_byte (hne : token ≠ [])
    (h : byteFallback (normalizeMarkers token) = some char) :
    canonicalToken (canonicalToken token true) true = canonicalToken token true ↔
      ¬ Unstable token := by
  rw [canonicalToken_of_byte hne h, Unstable, h]
  obtain ⟨b, hb, rfl⟩ := byteFallback_eq_some h
  exact canonicalToken_byte hb

/-- The second canonical form without a byte fallback, when the first has no marker of a newline
left. -/
theorem idempotent_of_no_byte (hne : token ≠ [])
    (h : byteFallback (normalizeMarkers token) = none)
    (hescape : ¬ "\\n".toList <:+: normalizeMarkers token)
    (hspaced : normalizeMarkers token ≠ "Ġ\n".toList) :
    canonicalToken (canonicalToken token true) true = canonicalToken token true := by
  rw [canonicalToken_of_no_byte hne h]
  rcases repairedForm_eq unicodeFixes (normalizeMarkers token) with heq | heq | ⟨heq, hfind⟩
  · rw [heq]
    decide
  · rw [heq]
    rfl
  rw [heq]
  have hnormal := (normalMarkers_normalizeMarkers token).applyFixes
  refine hnormal.canonicalToken_eq ?_ ?_ ?_ (fun fix hfix => not_infix_applyFixes hfix _) hfind
  · exact fun hinside => hescape
      (infix_of_infix_applyFixes properFix_unicodeFixes (by decide) hinside)
  · intro hspace
    have hdisjoint : ∀ fix ∈ unicodeFixes, ∀ c ∈ fix.2.toList, c ∉ "Ġ\n".toList := by
      decide
    have hself : applyFixes unicodeFixes (normalizeMarkers token) = normalizeMarkers token :=
      applyFixes_eq_of_disjoint properFix_unicodeFixes fun fix hfix c hc =>
        hspace ▸ hdisjoint fix hfix c hc
    exact hspaced (hself ▸ hspace)
  · rw [Option.eq_none_iff_forall_ne_some]
    intro char hchar
    rw [applyFixes_eq_of_byteFallback hchar, h] at hchar
    exact absurd hchar (by simp)

/-- The second canonical form of a token with both markers of a newline. -/
theorem not_idempotent_of_escape (hne : token ≠ [])
    (h : byteFallback (normalizeMarkers token) = none)
    (hescape : "\\n".toList <:+: normalizeMarkers token) :
    canonicalToken (canonicalToken token true) true ≠ canonicalToken token true := by
  have hkept : "\\n".toList <:+: applyFixes unicodeFixes (normalizeMarkers token) :=
    infix_applyFixes properFix_unicodeFixes (by decide) (by decide) hescape
  have hspecial : ∀ p ∈ specialTokenMap, ¬ "\\n".toList <:+: p.1.toList := by decide
  have hcanonical : canonicalToken token true =
      applyFixes unicodeFixes (normalizeMarkers token) := by
    have hfind : specialTokenMap.find?
        (fun p => p.1.toList = applyFixes unicodeFixes (normalizeMarkers token)) = none := by
      rw [List.find?_eq_none]
      intro p hp heq
      exact hspecial p hp (of_decide_eq_true heq ▸ hkept)
    rw [canonicalToken_of_no_byte hne h, repairedForm]
    simp only [hfind]
  intro hsame
  rw [hcanonical] at hsame
  obtain ⟨hmarker, -⟩ := escape_infix_canonicalToken (hsame ▸ hkept)
  have hnormal := (normalMarkers_normalizeMarkers token).applyFixes
  rw [normalizeSpace_eq_self hnormal.space] at hmarker
  exact hnormal.newline hmarker

theorem idempotent_iff (token : Token) :
    canonicalToken (canonicalToken token true) true = canonicalToken token true ↔
      ¬ Unstable token := by
  rcases eq_or_ne token [] with rfl | hne
  · exact iff_of_true rfl (by decide)
  cases hbyte : byteFallback (normalizeMarkers token) with
  | some char => exact idempotent_of_byte hne hbyte
  | none =>
    rw [Unstable, hbyte]
    simp only
    rw [← or_assoc, ← normalizeMarkers_eq_spaced, ← escape_infix_normalizeMarkers]
    by_cases hspaced : normalizeMarkers token = "Ġ\n".toList
    · refine iff_of_false ?_ fun h => h (Or.inl hspaced)
      rw [canonicalToken_of_no_byte hne hbyte, hspaced]
      decide
    by_cases hescape : "\\n".toList <:+: normalizeMarkers token
    · exact iff_of_false (not_idempotent_of_escape hne hbyte hescape) fun h => h (Or.inr hescape)
    · refine iff_of_true (idempotent_of_no_byte hne hbyte hescape hspaced) ?_
      rintro (h | h)
      · exact hspaced h
      · exact hescape h

end Second

/-- A canonical form is its own canonical form just for the stable tokens. For two of them the mask
of the pair of their canonical forms compares what the alignment compared. -/
theorem canonicalToken_idempotent_iff (student teacher : Token) :
    (canonicalToken (canonicalToken student true) true = canonicalToken student true ↔
      ¬ Unstable student) ∧
    (¬ Unstable student → ¬ Unstable teacher →
      (textsAgree [canonicalToken student true] [canonicalToken teacher true] = true ↔
        canonicalToken student true = canonicalToken teacher true)) := by
  refine ⟨idempotent_iff student, fun hstudent hteacher => ?_⟩
  have hmask : ∀ token, ¬ Unstable token →
      canonText [canonicalToken token true] = canonicalToken token true := by
    intro token hstable
    rw [canonText, List.flatMap_singleton]
    exact (idempotent_iff token).mpr hstable
  rw [textsAgree, hmask student hstudent, hmask teacher hteacher]
  simp [stringsEqualFlexible]

/-- Two spellings of one token. -/
theorem mask_of_spaces :
    textsAgree [canonicalToken "_a".toList true] [canonicalToken "▁a".toList true] = true ↔
      canonicalToken "_a".toList true = canonicalToken "▁a".toList true :=
  (canonicalToken_idempotent_iff "_a".toList "▁a".toList).2 (by decide) (by decide)

/-- A byte fallback for a space. -/
theorem space_not_idempotent :
    canonicalToken "<0x20>".toList true = " ".toList ∧
      canonicalToken (canonicalToken "<0x20>".toList true) true = "Ġ".toList ∧
        " ".toList ≠ "Ġ".toList := by
  decide

end NemoRL.XToken
