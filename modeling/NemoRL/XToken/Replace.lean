import NemoRL.XToken.Canonical

/-!
# Replacing texts

A text that shares no character with what is put in occurs after a replacement only where it
occurred before, and the text that is replaced does not occur any more. A table of replacements
is applied entry after entry.

## Main definitions

* `applyFixes` — the entries of a table one after the other.

## Main results

* `infix_of_infix_replaceAll`, `not_infix_replaceAll` — what occurs after a replacement.
* `replaceAll_append` — the only occurrence is replaced.
* `not_infix_applyFixes` — after all entries no text of the table occurs.
-/

namespace NemoRL.XToken

open Lib

/-- What holds of the characters of a list is decided on the list. -/
instance (priority := 2000) decidableForallMemChar (cs : List Char) (p : Char → Prop)
    [DecidablePred p] : Decidable (∀ c ∈ cs, p c) := List.decidableBAll p cs

/-! ## One replacement -/

section Replace
variable {broken fixed token pattern : Token}

theorem replaceAll_nil : replaceAll broken fixed [] = [] := by rw [replaceAll]

theorem replaceAll_of_start {c : Char} {cs : Token} (h : broken <+: c :: cs) :
    replaceAll broken fixed (c :: cs) =
      fixed ++ replaceAll broken fixed (cs.drop (broken.length - 1)) := by
  rw [replaceAll, if_pos (List.isPrefixOf_iff_prefix.mpr h)]

theorem replaceAll_of_not_start {c : Char} {cs : Token} (h : ¬ broken <+: c :: cs) :
    replaceAll broken fixed (c :: cs) = c :: replaceAll broken fixed cs := by
  rw [replaceAll, if_neg (by rwa [List.isPrefixOf_iff_prefix])]

/-- A text that does not occur is not replaced. -/
theorem replaceAll_eq_self (h : ¬ broken <:+: token) : replaceAll broken fixed token = token := by
  induction token with
  | nil => exact replaceAll_nil
  | cons c cs ih =>
    rw [List.infix_cons_iff, not_or] at h
    rw [replaceAll_of_not_start h.1, ih h.2]

/-- The induction on a replacement, by whether the text stands at the front. -/
theorem replaceAll_induction (broken : Token) {motive : Token → Prop} (nil : motive [])
    (front : ∀ c cs, broken <+: c :: cs → motive (cs.drop (broken.length - 1)) → motive (c :: cs))
    (skip : ∀ c cs, ¬ broken <+: c :: cs → motive cs → motive (c :: cs)) (token : Token) :
    motive token := by
  induction hn : token.length using Nat.strong_induction_on generalizing token with
  | h n ih =>
    cases token with
    | nil => exact nil
    | cons c cs =>
      rw [List.length_cons] at hn
      by_cases hstart : broken <+: c :: cs
      · refine front c cs hstart (ih (cs.drop (broken.length - 1)).length ?_ _ rfl)
        rw [List.length_drop]
        omega
      · exact skip c cs hstart (ih cs.length (by omega) cs rfl)

/-- What stands at the front after a replacement stood there before, unless it shares a
character with what is put in. -/
theorem prefix_of_prefix_replaceAll (hfixed : fixed ≠ [])
    (hdisjoint : ∀ c ∈ fixed, c ∉ pattern) (h : pattern <+: replaceAll broken fixed token) :
    pattern <+: token := by
  induction token using replaceAll_induction broken generalizing pattern with
  | nil => rwa [replaceAll_nil] at h
  | front c cs hstart _ =>
    rw [replaceAll_of_start hstart] at h
    cases pattern with
    | nil => exact List.nil_prefix
    | cons x pattern =>
      obtain ⟨y, fixed, rfl⟩ := List.exists_cons_of_ne_nil hfixed
      rw [List.cons_append, List.cons_prefix_cons] at h
      exact absurd (h.1 ▸ List.mem_cons_self) (hdisjoint y List.mem_cons_self)
  | skip c cs hstart ih =>
    rw [replaceAll_of_not_start hstart] at h
    cases pattern with
    | nil => exact List.nil_prefix
    | cons x pattern =>
      rw [List.cons_prefix_cons] at h
      rw [List.cons_prefix_cons]
      exact ⟨h.1, ih (fun c hc hmem => hdisjoint c hc (List.mem_cons_of_mem x hmem)) h.2⟩

/-- What occurs behind a text with which it shares no character. -/
theorem infix_of_infix_append {rest : Token} (hne : pattern ≠ [])
    (hdisjoint : ∀ c ∈ fixed, c ∉ pattern) (h : pattern <:+: fixed ++ rest) :
    pattern <:+: rest := by
  induction fixed with
  | nil => exact h
  | cons c fixed ih =>
    rw [List.cons_append, List.infix_cons_iff] at h
    rcases h with hstart | hinside
    · obtain ⟨x, pattern, rfl⟩ := List.exists_cons_of_ne_nil hne
      rw [List.cons_prefix_cons] at hstart
      exact absurd (hstart.1 ▸ List.mem_cons_self) (hdisjoint c List.mem_cons_self)
    · exact ih (fun c hc => hdisjoint c (List.mem_cons_of_mem _ hc)) hinside

theorem drop_infix {c : Char} {cs : Token} {n : ℕ} (h : pattern <:+: cs.drop n) :
    pattern <:+: c :: cs :=
  (h.trans (List.drop_suffix n cs).isInfix).trans (List.suffix_cons c cs).isInfix

/-- What occurs after a replacement occurred before, unless it shares a character with what is
put in. -/
theorem infix_of_infix_replaceAll (hfixed : fixed ≠ []) (hdisjoint : ∀ c ∈ fixed, c ∉ pattern)
    (h : pattern <:+: replaceAll broken fixed token) : pattern <:+: token := by
  rcases eq_or_ne pattern [] with rfl | hne
  · exact List.nil_infix
  induction token using replaceAll_induction broken with
  | nil => rwa [replaceAll_nil] at h
  | front c cs hstart ih =>
    rw [replaceAll_of_start hstart] at h
    exact drop_infix (ih (infix_of_infix_append hne hdisjoint h))
  | skip c cs hstart ih =>
    have hskip : replaceAll broken fixed (c :: cs) = c :: replaceAll broken fixed cs :=
      replaceAll_of_not_start hstart
    rw [hskip, List.infix_cons_iff] at h
    rcases h with hfront | hinside
    · rw [← hskip] at hfront
      exact (prefix_of_prefix_replaceAll hfixed hdisjoint hfront).isInfix
    · exact (ih hinside).trans (List.suffix_cons c cs).isInfix

/-- The text that is replaced does not occur any more. -/
theorem not_infix_replaceAll (hbroken : broken ≠ []) (hfixed : fixed ≠ [])
    (hdisjoint : ∀ c ∈ fixed, c ∉ broken) : ¬ broken <:+: replaceAll broken fixed token := by
  induction token using replaceAll_induction broken with
  | nil =>
    rw [replaceAll_nil, List.infix_nil]
    exact hbroken
  | front c cs hstart ih =>
    rw [replaceAll_of_start hstart]
    exact fun h => ih (infix_of_infix_append hbroken hdisjoint h)
  | skip c cs hstart ih =>
    have hskip : replaceAll broken fixed (c :: cs) = c :: replaceAll broken fixed cs :=
      replaceAll_of_not_start hstart
    rw [hskip, List.infix_cons_iff, ← hskip]
    rintro (hfront | hinside)
    · exact hstart (prefix_of_prefix_replaceAll hfixed hdisjoint hfront)
    · exact ih hinside

/-- What is put in occurs after a replacement of a text that occurred. -/
theorem fixed_infix_replaceAll (hbroken : broken ≠ []) (h : broken <:+: token) :
    fixed <:+: replaceAll broken fixed token := by
  induction token using replaceAll_induction broken with
  | nil => exact absurd (List.infix_nil.mp h) hbroken
  | front c cs hstart _ =>
    rw [replaceAll_of_start hstart]
    exact (List.prefix_append _ _).isInfix
  | skip c cs hstart ih =>
    rw [replaceAll_of_not_start hstart]
    have htail := (List.infix_cons_iff.mp h).resolve_left hstart
    exact (ih htail).trans (List.suffix_cons c _).isInfix

/-- What stands at the front still stands there after a replacement, unless it shares a character
with the text that is replaced. -/
theorem prefix_replaceAll (hbroken : broken ≠ []) (hdisjoint : ∀ c ∈ broken, c ∉ pattern)
    (h : pattern <+: token) : pattern <+: replaceAll broken fixed token := by
  induction pattern generalizing token with
  | nil => exact List.nil_prefix
  | cons x pattern ih =>
    obtain ⟨rest, rfl⟩ := h
    obtain ⟨b, bs, rfl⟩ := List.exists_cons_of_ne_nil hbroken
    have hstart : ¬ b :: bs <+: x :: (pattern ++ rest) := by
      rw [List.cons_prefix_cons]
      rintro ⟨rfl, -⟩
      exact hdisjoint b List.mem_cons_self List.mem_cons_self
    rw [List.cons_append, replaceAll_of_not_start hstart, List.cons_prefix_cons]
    exact ⟨rfl, ih (fun c hc hmem => hdisjoint c hc (List.mem_cons_of_mem x hmem))
      (List.prefix_append pattern rest)⟩

/-- What occurs still occurs after a replacement, unless it shares a character with the text that
is replaced. -/
theorem infix_replaceAll (hbroken : broken ≠ []) (hne : pattern ≠ [])
    (hdisjoint : ∀ c ∈ broken, c ∉ pattern) (h : pattern <:+: token) :
    pattern <:+: replaceAll broken fixed token := by
  induction token using replaceAll_induction broken with
  | nil => exact absurd (List.infix_nil.mp h) hne
  | front c cs hstart ih =>
    rw [replaceAll_of_start hstart]
    obtain ⟨rest, hrest⟩ := hstart
    obtain ⟨b, bs, rfl⟩ := List.exists_cons_of_ne_nil hbroken
    have htail : cs.drop ((b :: bs).length - 1) = rest := by
      rw [List.cons_append, List.cons_eq_cons] at hrest
      simp [← hrest.2]
    rw [htail] at ih ⊢
    refine (ih (infix_of_infix_append hne hdisjoint (hrest ▸ h))).trans ?_
    exact (List.suffix_append _ _).isInfix
  | skip c cs hstart ih =>
    have hskip : replaceAll broken fixed (c :: cs) = c :: replaceAll broken fixed cs :=
      replaceAll_of_not_start hstart
    rcases List.infix_cons_iff.mp h with hfront | hinside
    · exact (prefix_replaceAll hbroken hdisjoint hfront).isInfix
    · rw [hskip]
      exact (ih hinside).trans (List.suffix_cons c _).isInfix

/-- The first character after a replacement by one character: it is what stood there, or what was
put in. -/
theorem replaceAll_eq_cons {f x : Char} {out : Token} (hbroken : broken ≠ [])
    (h : replaceAll broken [f] token = x :: out) :
    (∃ rest, token = x :: rest ∧ replaceAll broken [f] rest = out) ∨
      x = f ∧ ∃ rest, token = broken ++ rest ∧ replaceAll broken [f] rest = out := by
  cases token with
  | nil => simp [replaceAll_nil] at h
  | cons c cs =>
    by_cases hstart : broken <+: c :: cs
    · rw [replaceAll_of_start hstart, List.singleton_append, List.cons_eq_cons] at h
      obtain ⟨rest, hrest⟩ := hstart
      obtain ⟨b, bs, rfl⟩ := List.exists_cons_of_ne_nil hbroken
      refine Or.inr ⟨h.1.symm, rest, hrest.symm, ?_⟩
      rw [List.cons_append, List.cons_eq_cons] at hrest
      rw [← h.2, ← hrest.2]
      simp
    · rw [replaceAll_of_not_start hstart, List.cons_eq_cons] at h
      exact Or.inl ⟨cs, by rw [h.1], h.2⟩

theorem replaceAll_eq_nil (hfixed : fixed ≠ []) (h : replaceAll broken fixed token = []) :
    token = [] := by
  cases token with
  | nil => rfl
  | cons c cs =>
    by_cases hstart : broken <+: c :: cs
    · rw [replaceAll_of_start hstart, List.append_eq_nil_iff] at h
      exact absurd h.1 hfixed
    · rw [replaceAll_of_not_start hstart] at h
      exact absurd h (List.cons_ne_nil _ _)

/-- An occurrence that no other overlaps from the left is replaced. -/
theorem replaceAll_append (hbroken : broken ≠ []) (before after : Token)
    (honly : ∀ l r, before ++ broken ++ after = l ++ broken ++ r → before.length ≤ l.length) :
    replaceAll broken fixed (before ++ broken ++ after) =
      before ++ fixed ++ replaceAll broken fixed after := by
  induction before with
  | nil =>
    obtain ⟨b, bs, rfl⟩ := List.exists_cons_of_ne_nil hbroken
    have hstart : b :: bs <+: b :: (bs ++ after) := List.prefix_append (b :: bs) after
    rw [List.nil_append, List.nil_append, List.cons_append, replaceAll_of_start hstart]
    simp
  | cons c before ih =>
    have hstart : ¬ broken <+: c :: (before ++ broken ++ after) := by
      rintro ⟨r, hr⟩
      exact absurd (honly [] r hr.symm) (by simp)
    rw [List.cons_append, List.cons_append, replaceAll_of_not_start hstart, ih]
    · rfl
    · intro l r heq
      have hle := honly (c :: l) r (by simp [heq])
      simpa using hle

end Replace

/-! ## A table of replacements -/

/-- Apply an entry where its text occurs. -/
def applyFix (token : Token) (fix : String × String) : Token :=
  if fix.1.toList <:+: token then replaceAll fix.1.toList fix.2.toList token else token

/-- Apply the entries one after the other. -/
def applyFixes (fixes : List (String × String)) (token : Token) : Token :=
  fixes.foldl applyFix token

/-- An entry with both texts, which share no character. -/
structure ProperFix (fix : String × String) : Prop where
  broken_ne : fix.1.toList ≠ []
  fixed_ne : fix.2.toList ≠ []
  disjoint : ∀ c ∈ fix.2.toList, c ∉ fix.1.toList

theorem applyFix_eq (token : Token) (fix : String × String) :
    applyFix token fix = replaceAll fix.1.toList fix.2.toList token := by
  unfold applyFix
  split
  · rfl
  · next h => exact (replaceAll_eq_self h).symm

section Fixes
variable {fixes : List (String × String)} {token pattern : Token}

@[simp] theorem applyFixes_nil : applyFixes [] token = token := rfl

@[simp] theorem applyFixes_cons (fix : String × String) :
    applyFixes (fix :: fixes) token = applyFixes fixes (applyFix token fix) := rfl

theorem applyFixes_append (fixes' : List (String × String)) :
    applyFixes (fixes ++ fixes') token = applyFixes fixes' (applyFixes fixes token) :=
  List.foldl_append

/-- Entries whose texts do not occur change nothing. -/
theorem applyFixes_eq_self (h : ∀ fix ∈ fixes, ¬ fix.1.toList <:+: token) :
    applyFixes fixes token = token := by
  induction fixes with
  | nil => rfl
  | cons fix fixes ih =>
    rw [applyFixes_cons, applyFix, if_neg (h fix List.mem_cons_self)]
    exact ih fun fix' hfix' => h fix' (List.mem_cons_of_mem fix hfix')

/-- What occurs after all entries occurred before, unless it shares a character with what is put
in. -/
theorem infix_of_infix_applyFixes (hproper : ∀ fix ∈ fixes, ProperFix fix)
    (hdisjoint : ∀ fix ∈ fixes, ∀ c ∈ fix.2.toList, c ∉ pattern)
    (h : pattern <:+: applyFixes fixes token) : pattern <:+: token := by
  induction fixes generalizing token with
  | nil => exact h
  | cons fix fixes ih =>
    rw [applyFixes_cons, applyFix_eq] at h
    have hrest := ih (fun f hf => hproper f (List.mem_cons_of_mem fix hf))
      (fun f hf => hdisjoint f (List.mem_cons_of_mem fix hf)) h
    exact infix_of_infix_replaceAll (hproper fix List.mem_cons_self).fixed_ne
      (hdisjoint fix List.mem_cons_self) hrest

/-- What stands at the front after all entries stood there before, unless it shares a character
with what is put in. -/
theorem prefix_of_prefix_applyFixes (hproper : ∀ fix ∈ fixes, ProperFix fix)
    (hdisjoint : ∀ fix ∈ fixes, ∀ c ∈ fix.2.toList, c ∉ pattern)
    (h : pattern <+: applyFixes fixes token) : pattern <+: token := by
  induction fixes generalizing token with
  | nil => exact h
  | cons fix fixes ih =>
    rw [applyFixes_cons, applyFix_eq] at h
    have hrest := ih (fun f hf => hproper f (List.mem_cons_of_mem fix hf))
      (fun f hf => hdisjoint f (List.mem_cons_of_mem fix hf)) h
    exact prefix_of_prefix_replaceAll (hproper fix List.mem_cons_self).fixed_ne
      (hdisjoint fix List.mem_cons_self) hrest

/-- What occurs still occurs after all entries, unless it shares a character with a text that is
replaced. -/
theorem infix_applyFixes (hproper : ∀ fix ∈ fixes, ProperFix fix) (hne : pattern ≠ [])
    (hdisjoint : ∀ fix ∈ fixes, ∀ c ∈ fix.1.toList, c ∉ pattern) (h : pattern <:+: token) :
    pattern <:+: applyFixes fixes token := by
  induction fixes generalizing token with
  | nil => exact h
  | cons fix fixes ih =>
    rw [applyFixes_cons, applyFix_eq]
    refine ih (fun f hf => hproper f (List.mem_cons_of_mem fix hf))
      (fun f hf => hdisjoint f (List.mem_cons_of_mem fix hf)) ?_
    exact infix_replaceAll (hproper fix List.mem_cons_self).broken_ne hne
      (hdisjoint fix List.mem_cons_self) h

/-- Without a character that is put in, nothing was replaced. -/
theorem applyFixes_eq_of_disjoint (hproper : ∀ fix ∈ fixes, ProperFix fix)
    (hdisjoint : ∀ fix ∈ fixes, ∀ c ∈ fix.2.toList, c ∉ applyFixes fixes token) :
    applyFixes fixes token = token := by
  induction fixes generalizing token with
  | nil => rfl
  | cons fix fixes ih =>
    have hrest : applyFixes fixes (applyFix token fix) = applyFix token fix :=
      ih (fun f hf => hproper f (List.mem_cons_of_mem fix hf))
        (fun f hf => hdisjoint f (List.mem_cons_of_mem fix hf))
    have hfix := hproper fix List.mem_cons_self
    have hnone : ¬ fix.1.toList <:+: token := by
      intro hoccurs
      obtain ⟨c, cs, hc⟩ := List.exists_cons_of_ne_nil hfix.fixed_ne
      have hmem : c ∈ fix.2.toList := hc ▸ List.mem_cons_self
      have hput : fix.2.toList <:+: applyFix token fix := by
        rw [applyFix_eq]
        exact fixed_infix_replaceAll hfix.broken_ne hoccurs
      refine hdisjoint fix List.mem_cons_self c hmem ?_
      rw [applyFixes_cons, hrest]
      exact hput.subset hmem
    rw [applyFixes_cons, hrest, applyFix, if_neg hnone]

/-- Texts that do not occur after all entries, from texts that did not occur before. An entry
that holds such a text changes nothing; the others keep those with which they share no character
that is put in. -/
def absentAfter : List (String × String) → List Token → List Token
  | [], known => known
  | fix :: fixes, known =>
    absentAfter fixes
      (if ∃ p ∈ known, p <:+: fix.1.toList then known
      else fix.1.toList :: known.filter fun p => ∀ c ∈ fix.2.toList, c ∉ p)

theorem not_infix_absentAfter (hproper : ∀ fix ∈ fixes, ProperFix fix) {known : List Token}
    (hknown : ∀ p ∈ known, ¬ p <:+: token) (hpattern : pattern ∈ absentAfter fixes known) :
    ¬ pattern <:+: applyFixes fixes token := by
  induction fixes generalizing known token with
  | nil => exact hknown pattern hpattern
  | cons fix fixes ih =>
    have hfix := hproper fix List.mem_cons_self
    rw [applyFixes_cons]
    refine ih (fun f hf => hproper f (List.mem_cons_of_mem fix hf)) (fun p hp => ?_) hpattern
    split_ifs at hp with hdead
    · obtain ⟨q, hq, hinside⟩ := hdead
      rw [applyFix, if_neg fun h => hknown q hq (hinside.trans h)]
      exact hknown p hp
    · rw [applyFix_eq]
      rcases List.mem_cons.mp hp with rfl | hp
      · exact not_infix_replaceAll hfix.broken_ne hfix.fixed_ne hfix.disjoint
      · obtain ⟨hp, hshare⟩ := List.mem_filter.mp hp
        exact fun h => hknown p hp
          (infix_of_infix_replaceAll hfix.fixed_ne (of_decide_eq_true hshare) h)

end Fixes

/-! ## The table of the repairs -/

theorem properFix_unicodeFixes : ∀ fix ∈ unicodeFixes, ProperFix fix := by
  have hbroken : ∀ fix ∈ unicodeFixes, fix.1.toList ≠ [] := by decide
  have hfixed : ∀ fix ∈ unicodeFixes, fix.2.toList ≠ [] := by decide
  have hdisjoint : ∀ fix ∈ unicodeFixes, ∀ c ∈ fix.2.toList, c ∉ fix.1.toList := by
    decide
  exact fun fix hfix => ⟨hbroken fix hfix, hfixed fix hfix, hdisjoint fix hfix⟩

/-- After all repairs no broken text occurs. -/
theorem not_infix_applyFixes {fix : String × String} (hfix : fix ∈ unicodeFixes) (token : Token) :
    ¬ fix.1.toList <:+: applyFixes unicodeFixes token := by
  have hall : ∀ fix ∈ unicodeFixes, ∃ p ∈ absentAfter unicodeFixes [], p <:+: fix.1.toList := by
    decide
  obtain ⟨p, hp, hinside⟩ := hall fix hfix
  exact fun h => not_infix_absentAfter properFix_unicodeFixes
    (fun _ hq => absurd hq List.not_mem_nil) hp (hinside.trans h)

end NemoRL.XToken
