import NemoRL.XToken.Replace

/-!
# Entries of the repair table

An entry of the table is meant to repair its broken text wherever it stands. The entries are
applied one after the other, so that an entry whose broken text is part of that of a later one
takes it away: the entry for `Ã` alone takes away all that begin with this character and come
after it.

## Main definitions

* `canonicalTokenWith` — the canonical form with the entries in some order.
* `StandsAlone` — a broken text in a context that has no other.

## Main results

* `repaired_iff` — an entry takes effect just when no entry before it takes its text away.
-/

namespace NemoRL.XToken

open Lib

/-- The canonical form of a token, with the repairs in some order. -/
def canonicalTokenWith (fixes : List (String × String)) (token : Token) : Token :=
  if token = [] then token
  else
    let token := normalizePunctuation (normalizeNewline (normalizeSpace token))
    match byteFallback token with
    | some char => char
    | none =>
      let token := applyFixes fixes token
      match specialTokenMap.find? fun p => p.1.toList = token with
      | some p => p.2.toList
      | none => token

/-- In the order of the table this is the canonical form. -/
theorem canonicalTokenWith_unicodeFixes (token : Token) :
    canonicalTokenWith unicodeFixes token = canonicalToken token true := by
  have hfix : (fun (token : Token) (fix : String × String) =>
      if fix.1.toList <:+: token then replaceAll fix.1.toList fix.2.toList token else token) =
      applyFix := rfl
  rcases eq_or_ne token [] with rfl | hne
  · rfl
  · simp only [canonicalTokenWith, canonicalToken, hfix, hne, Bool.not_true, Bool.false_eq_true,
      if_false, applyFixes]
    generalize unicodeFixes = fixes
    generalize specialTokenMap = special
    rfl

/-- The broken text of an entry between two texts: all broken texts in it are part of that of the
entry, there is none in the repaired text, and no other rule applies. -/
structure StandsAlone (fix : String × String) (before after : Token) : Prop where
  inside : ∀ other ∈ unicodeFixes, ∀ l r,
    before ++ fix.1.toList ++ after = l ++ other.1.toList ++ r →
      before.length ≤ l.length ∧ after.length ≤ r.length
  repaired : ∀ other ∈ unicodeFixes,
    ¬ other.1.toList <:+: before ++ fix.2.toList ++ after
  normal : normalizePunctuation (normalizeNewline (normalizeSpace
    (before ++ fix.1.toList ++ after))) = before ++ fix.1.toList ++ after
  no_byte : byteFallback (before ++ fix.1.toList ++ after) = none

section Repair
variable {fix other : String × String} {before after : Token}

/-- A broken text that occurs is part of that of the entry. -/
theorem StandsAlone.infix_broken (h : StandsAlone fix before after) (hother : other ∈ unicodeFixes)
    (hinside : other.1.toList <:+: before ++ fix.1.toList ++ after) :
    other.1.toList <:+: fix.1.toList := by
  obtain ⟨l, r, heq⟩ := hinside
  obtain ⟨hl, hr⟩ := h.inside other hother l r heq.symm
  have hbefore : before <+: l := by
    have hleft : before <+: l ++ other.1.toList ++ r := by
      rw [heq, List.append_assoc]
      exact List.prefix_append _ _
    refine List.prefix_of_prefix_length_le hleft ?_ hl
    rw [List.append_assoc]
    exact List.prefix_append _ _
  have hafter : after <:+ r := by
    have hright : after <:+ l ++ other.1.toList ++ r := by
      rw [heq]
      exact List.suffix_append _ _
    exact List.suffix_of_suffix_length_le hright (List.suffix_append _ _) hr
  obtain ⟨l', rfl⟩ := hbefore
  obtain ⟨r', rfl⟩ := hafter
  refine ⟨l', r', ?_⟩
  have hcancel : before ++ (l' ++ other.1.toList ++ r') ++ after =
      before ++ fix.1.toList ++ after := by
    rw [← heq]
    simp only [List.append_assoc]
  exact List.append_cancel_left (List.append_cancel_right hcancel)

/-- No broken text occurs behind the one that stands alone. -/
theorem StandsAlone.not_infix_after (h : StandsAlone fix before after)
    (hother : other ∈ unicodeFixes) : ¬ other.1.toList <:+: after := by
  rintro ⟨l, r, heq⟩
  obtain ⟨-, hr⟩ := h.inside other hother (before ++ fix.1.toList ++ l) r
    (by rw [← heq]; simp only [List.append_assoc])
  have hlength := congrArg List.length heq
  have hpos := List.length_pos_iff.mpr (properFix_unicodeFixes other hother).broken_ne
  simp only [List.length_append] at hlength
  omega

/-- The repair of the text that stands alone. -/
theorem StandsAlone.applyFix_eq (h : StandsAlone fix before after) (hfix : fix ∈ unicodeFixes) :
    applyFix (before ++ fix.1.toList ++ after) fix = before ++ fix.2.toList ++ after := by
  rw [XToken.applyFix_eq, replaceAll_append (properFix_unicodeFixes fix hfix).broken_ne before
    after fun l r heq => (h.inside fix hfix l r heq).1,
    replaceAll_eq_self (h.not_infix_after hfix)]

/-- No special token has a character that is put in. -/
theorem find?_specialTokenMap {token : Token} {c : Char} (hfix : fix ∈ unicodeFixes)
    (hc : c ∈ fix.2.toList) (hmem : c ∈ token) :
    specialTokenMap.find? (fun p => p.1.toList = token) = none := by
  have hkeys : ∀ fix ∈ unicodeFixes, ∀ c ∈ fix.2.toList, ∀ p ∈ specialTokenMap,
      c ∉ p.1.toList := by
    decide
  rw [List.find?_eq_none]
  intro p hp heq
  exact hkeys fix hfix c hc p hp (of_decide_eq_true heq ▸ hmem)

/-- The canonical form of a text that stands alone is what the entries make of it, if a
character was put in. -/
theorem StandsAlone.canonicalTokenWith_eq (h : StandsAlone fix before after)
    (hfix : fix ∈ unicodeFixes) {order : List (String × String)} {put : String × String} {c : Char}
    (hput : put ∈ unicodeFixes) (hc : c ∈ put.2.toList)
    (hmem : c ∈ applyFixes order (before ++ fix.1.toList ++ after)) :
    canonicalTokenWith order (before ++ fix.1.toList ++ after) =
      applyFixes order (before ++ fix.1.toList ++ after) := by
  have hne : before ++ fix.1.toList ++ after ≠ [] := by
    simp [(properFix_unicodeFixes fix hfix).broken_ne]
  rw [canonicalTokenWith, if_neg hne]
  simp only [h.normal, h.no_byte, find?_specialTokenMap hput hc hmem]

/-! ## The order of the entries -/

/-- The entry whose broken text is part of others. -/
def grave : String × String := ("Ã", "À")

theorem grave_mem : grave ∈ unicodeFixes := by decide

/-- The only entry whose broken text is part of that of another. -/
theorem eq_or_eq_grave (hfix : fix ∈ unicodeFixes) (hother : other ∈ unicodeFixes)
    (hinside : other.1.toList <:+: fix.1.toList) : other = fix ∨ other = grave := by
  have hall : ∀ fix ∈ unicodeFixes, ∀ other ∈ unicodeFixes,
      other.1.toList <:+: fix.1.toList → other = fix ∨ other = grave := by
    decide
  exact hall fix hfix other hother hinside

/-- The broken texts of which it is part. -/
theorem broken_of_grave_infix (hfix : fix ∈ unicodeFixes) (hne : fix ≠ grave)
    (hinside : grave.1.toList <:+: fix.1.toList) :
    ∃ x, fix.1.toList = 'Ã' :: [x] ∧ x ≠ 'Ã' ∧ fix.2.toList.length = 1 := by
  have hall : ∀ fix ∈ unicodeFixes, fix ≠ grave → grave.1.toList <:+: fix.1.toList →
      fix.1.toList = 'Ã' :: [fix.1.toList.getD 1 'Ã'] ∧ fix.1.toList.getD 1 'Ã' ≠ 'Ã' ∧
        fix.2.toList.length = 1 := by
    decide
  exact ⟨_, hall fix hfix hne hinside⟩

/-- Entries whose texts are not part of the one that stands alone change nothing. -/
theorem StandsAlone.applyFixes_eq_self (h : StandsAlone fix before after)
    {fixes : List (String × String)} (hfixes : ∀ other ∈ fixes, other ∈ unicodeFixes)
    (hpart : ∀ other ∈ fixes, ¬ other.1.toList <:+: fix.1.toList) :
    applyFixes fixes (before ++ fix.1.toList ++ after) = before ++ fix.1.toList ++ after :=
  XToken.applyFixes_eq_self fun other hother hinside =>
    hpart other hother (h.infix_broken (hfixes other hother) hinside)

/-- Taken away by the other entry, the text stays as it is. -/
theorem StandsAlone.applyFix_grave (h : StandsAlone fix before after) (hfix : fix ∈ unicodeFixes)
    (hne : fix ≠ grave) (hinside : grave.1.toList <:+: fix.1.toList) :
    ∃ x, applyFix (before ++ fix.1.toList ++ after) grave = before ++ 'À' :: x :: after ∧
      ∀ other ∈ unicodeFixes, ¬ other.1.toList <:+: before ++ 'À' :: x :: after := by
  obtain ⟨x, hbroken, hx, -⟩ := broken_of_grave_infix hfix hne hinside
  have hgrave := properFix_unicodeFixes grave grave_mem
  have htext : grave.1.toList = ['Ã'] := by decide
  have hput : grave.2.toList = ['À'] := by decide
  have hword : before ++ fix.1.toList ++ after = before ++ grave.1.toList ++ (x :: after) := by
    rw [hbroken, htext]
    simp
  have hrest : ¬ grave.1.toList <:+: x :: after := by
    rw [List.infix_cons_iff, not_or]
    refine ⟨?_, h.not_infix_after grave_mem⟩
    rw [htext, List.cons_prefix_cons]
    exact fun heq => hx heq.1.symm
  have hresult : applyFix (before ++ fix.1.toList ++ after) grave =
      before ++ 'À' :: x :: after := by
    rw [XToken.applyFix_eq, hword, replaceAll_append hgrave.broken_ne before (x :: after)
      fun l r heq => (h.inside grave grave_mem l r (hword.trans heq)).1,
      replaceAll_eq_self hrest, hput]
    simp
  refine ⟨x, hresult, fun other hother hoccurs => ?_⟩
  rw [← hresult, XToken.applyFix_eq] at hoccurs
  have hshare : ∀ other ∈ unicodeFixes, ∀ c ∈ grave.2.toList, c ∉ other.1.toList := by
    decide
  have hbefore := infix_of_infix_replaceAll hgrave.fixed_ne (hshare other hother) hoccurs
  have hpart : grave.1.toList <:+: other.1.toList := by
    rcases eq_or_eq_grave hfix hother (h.infix_broken hother hbefore) with rfl | rfl
    · exact hinside
    · exact List.infix_rfl
  exact not_infix_replaceAll hgrave.broken_ne hgrave.fixed_ne hgrave.disjoint
    (hpart.trans hoccurs)

/-- An entry at its turn puts in its text. -/
theorem StandsAlone.applyFixes_repaired (h : StandsAlone fix before after)
    {pre post : List (String × String)} (hmem : ∀ other ∈ pre ++ fix :: post, other ∈ unicodeFixes)
    (hpart : ∀ other ∈ pre, ¬ other.1.toList <:+: fix.1.toList) :
    applyFixes (pre ++ fix :: post) (before ++ fix.1.toList ++ after) =
      before ++ fix.2.toList ++ after := by
  rw [applyFixes_append, h.applyFixes_eq_self (fun other hother => hmem other (by simp [hother]))
    hpart, applyFixes_cons, h.applyFix_eq (hmem fix (by simp))]
  exact XToken.applyFixes_eq_self fun other hother =>
    h.repaired other (hmem other (by simp [hother]))

/-- After the entry that takes it away, the text has no repair. -/
theorem StandsAlone.applyFixes_grave (h : StandsAlone fix before after) (hfix : fix ∈ unicodeFixes)
    (hne : fix ≠ grave) (hinside : grave.1.toList <:+: fix.1.toList)
    {pre post : List (String × String)}
    (hmem : ∀ other ∈ pre ++ grave :: post, other ∈ unicodeFixes)
    (hpre : fix ∉ pre) (hgrave : grave ∉ pre) :
    ∃ x, applyFixes (pre ++ grave :: post) (before ++ fix.1.toList ++ after) =
      before ++ 'À' :: x :: after := by
  obtain ⟨x, hresult, hrest⟩ := h.applyFix_grave hfix hne hinside
  have hpart : ∀ other ∈ pre, ¬ other.1.toList <:+: fix.1.toList := by
    intro other hother hoccurs
    rcases eq_or_eq_grave hfix (hmem other (by simp [hother])) hoccurs with rfl | rfl
    · exact hpre hother
    · exact hgrave hother
  refine ⟨x, ?_⟩
  rw [applyFixes_append, h.applyFixes_eq_self (fun other hother => hmem other (by simp [hother]))
    hpart, applyFixes_cons, hresult]
  exact XToken.applyFixes_eq_self fun other hother => hrest other (hmem other (by simp [hother]))

/-- In any order of the entries, the canonical form of a text that stands alone has its repair
just when no entry before it has a text that is part of the broken one. -/
theorem repaired_iff {order : List (String × String)} (horder : order.Perm unicodeFixes)
    (hfix : fix ∈ order) (h : StandsAlone fix before after) :
    canonicalTokenWith order (before ++ fix.1.toList ++ after) =
        before ++ fix.2.toList ++ after ↔
      ∀ pre post, order = pre ++ fix :: post →
        ∀ other ∈ pre, ¬ other.1.toList <:+: fix.1.toList := by
  have hmem : ∀ other ∈ order, other ∈ unicodeFixes := fun other => horder.mem_iff.mp
  have hnodup : order.Nodup := by
    have htable : unicodeFixes.Nodup := by decide
    exact horder.nodup_iff.mpr htable
  constructor
  · intro hrepaired pre post hsplit other hother hinside
    subst hsplit
    have hself : other ≠ fix := by
      rintro rfl
      exact (List.nodup_append.mp hnodup).2.2 other hother other List.mem_cons_self rfl
    have hgrave := (eq_or_eq_grave (hmem fix hfix) (hmem other (by simp [hother]))
      hinside).resolve_left hself
    subst hgrave
    obtain ⟨pre₁, pre₂, rfl⟩ := List.append_of_mem hother
    rw [List.append_assoc, List.cons_append] at hnodup hmem hfix hrepaired
    have hsplit := List.nodup_append.mp hnodup
    obtain ⟨x, hresult⟩ := h.applyFixes_grave (hmem fix hfix) hself.symm hinside hmem
      (fun hm => hsplit.2.2 fix hm fix (by simp) rfl)
      (fun hm => hsplit.2.2 grave hm grave (by simp) rfl)
    have hput : 'À' ∈ grave.2.toList := by decide
    rw [h.canonicalTokenWith_eq (hmem fix hfix) grave_mem hput (by rw [hresult]; simp),
      hresult] at hrepaired
    obtain ⟨-, -, -, hone⟩ := broken_of_grave_infix (hmem fix hfix) hself.symm hinside
    have hlength := congrArg List.length hrepaired
    simp only [List.length_append, List.length_cons, hone] at hlength
    omega
  · intro hfirst
    obtain ⟨pre, post, rfl⟩ := List.append_of_mem hfix
    have hresult := h.applyFixes_repaired hmem (hfirst pre post rfl)
    obtain ⟨c, cs, hc⟩ :=
      List.exists_cons_of_ne_nil (properFix_unicodeFixes fix (hmem fix hfix)).fixed_ne
    have hput : c ∈ fix.2.toList := hc ▸ List.mem_cons_self
    rw [h.canonicalTokenWith_eq (hmem fix hfix) (hmem fix hfix) hput, hresult]
    rw [hresult]
    simp [hput]

/-- A broken text by itself stands alone. -/
theorem standsAlone_nil (hfix : fix ∈ unicodeFixes) : StandsAlone fix [] [] := by
  have hrepaired : ∀ fix ∈ unicodeFixes, ∀ other ∈ unicodeFixes,
      ¬ other.1.toList <:+: fix.2.toList := by
    decide
  have hnormal : ∀ fix ∈ unicodeFixes, normalizePunctuation (normalizeNewline (normalizeSpace
      fix.1.toList)) = fix.1.toList := by
    decide
  have hbyte : ∀ fix ∈ unicodeFixes, byteFallback fix.1.toList = none := by decide
  refine ⟨fun other _ l r _ => by simp, fun other hother => ?_, ?_, ?_⟩
  · simpa using hrepaired fix hfix other hother
  · simpa using hnormal fix hfix
  · simpa using hbyte fix hfix

end Repair

/-- The first entry of the table. -/
theorem repaired_first :
    canonicalTokenWith unicodeFixes ([] ++ "Ã±".toList ++ []) = [] ++ "ñ".toList ++ [] ↔
      ∀ pre post, unicodeFixes = pre ++ ("Ã±", "ñ") :: post →
        ∀ other ∈ pre, ¬ other.1.toList <:+: "Ã±".toList :=
  @repaired_iff ("Ã±", "ñ") [] [] unicodeFixes (List.Perm.refl unicodeFixes) (by decide)
    (standsAlone_nil (by decide))

/-- An entry that comes too late. -/
theorem circumflex_not_repaired :
    StandsAlone ("Ã¢", "â") [] [] ∧ canonicalToken "Ã¢".toList true = "À¢".toList ∧
      "À¢".toList ≠ "â".toList :=
  ⟨standsAlone_nil (by decide), by decide +kernel, by decide +kernel⟩

end NemoRL.XToken
