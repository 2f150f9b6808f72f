import ExpiringCache.Proofs.Scalars

/-! Skipping a value ends where the value ends, however deep it is nested
(`skipValue_append`). What is passed over does not depend on the brackets that are open around
it, nor on what follows it: each phrase of a document takes the skipper from the need for it
to the need for what may come next (`skips`). -/

namespace ExpiringCache.Json

theorem skipBlank_skipBlank (cs : List Char) : skipBlank (skipBlank cs) = skipBlank cs := by
  induction cs with
  | nil => rfl
  | cons c cs ih =>
    cases hc : isBlank c with
    | false => rw [skipBlank_cons hc, skipBlank_cons hc]
    | true =>
      have hdrop : skipBlank (c :: cs) = skipBlank cs := List.dropWhile_cons_of_pos hc
      rw [hdrop, ih]

theorem skipColon_append {b : List Char} (hb : Blanks b) (r : List Char) :
    skipColon (b ++ ':' :: r) = .ok r := by
  have hblank : skipBlank (b ++ ':' :: r) = ':' :: r := by
    rw [skipBlank_append hb, skipBlank_cons (by decide)]
  rw [skipColon, hblank]
  rfl

theorem isDelimiter_closing (b : Bracket) : isDelimiter b.closing = true := by cases b <;> decide

theorem skipBlank_closing (b : Bracket) (r : List Char) :
    skipBlank (b.closing :: r) = b.closing :: r := skipBlank_cons (by cases b <;> decide) r

/-! ### One step -/

section Step

variable {stack : List Bracket} {cs r : List Char}

theorem skipFrom_scalar {c : Char} (hcs : skipBlank cs = c :: r) (hc : c ≠ '[' ∧ c ≠ '\x7b')
    {q : List Char} (h : skipScalar (c :: r) = .ok q) :
    skipFrom .value stack cs = skipFrom .more stack q := by
  rw [skipFrom]
  split
  · simp_all
  · exact absurd (List.cons.inj (hcs.symm.trans ‹_›)).1 hc.1
  · exact absurd (List.cons.inj (hcs.symm.trans ‹_›)).1 hc.2
  · obtain ⟨rfl, rfl⟩ := List.cons.inj (hcs.symm.trans ‹_›)
    split <;> simp_all

theorem skipFrom_list (hcs : skipBlank cs = '[' :: r) :
    skipFrom .value stack cs = skipFrom (.start .list) stack r := by
  rw [skipFrom]
  split <;> simp_all

theorem skipFrom_object (hcs : skipBlank cs = '\x7b' :: r) :
    skipFrom .value stack cs = skipFrom (.start .object) stack r := by
  rw [skipFrom]
  split <;> simp_all

theorem skipFrom_key {q : List Char} (h : skipKey cs = .ok q) :
    skipFrom (.item .object) stack cs = skipFrom .value (.object :: stack) q := by
  conv => lhs; rw [skipFrom]
  split <;> simp_all

theorem skipFrom_start_end {b : Bracket} (hcs : skipBlank cs = b.closing :: r) :
    skipFrom (.start b) stack cs = skipFrom .more stack r := by
  rw [skipFrom]
  split <;> simp_all

theorem skipFrom_start_item {b : Bracket} {c : Char} (hcs : skipBlank cs = c :: r)
    (hc : c ≠ b.closing) : skipFrom (.start b) stack cs = skipFrom (.item b) stack (c :: r) := by
  conv => lhs; rw [skipFrom]
  split <;> simp_all

theorem skipFrom_comma {b : Bracket} (hcs : skipBlank cs = ',' :: r) :
    skipFrom .more (b :: stack) cs = skipFrom (.item b) stack r := by
  rw [skipFrom]
  split <;> simp_all

theorem skipFrom_end {b : Bracket} (hcs : skipBlank cs = b.closing :: r) :
    skipFrom .more (b :: stack) cs = skipFrom .more stack r := by
  have hb : b.closing ≠ ',' := by cases b <;> decide
  rw [skipFrom]
  split <;> simp_all

theorem skipKey_append {key k b : List Char} (hk : SpellsText key k) (hb : Blanks b)
    (hcs : skipBlank cs = '"' :: (k ++ '"' :: (b ++ ':' :: r))) : skipKey cs = .ok r := by
  rw [skipKey, hcs]
  simp only [bind, Except.bind, skipText_append hk, skipColon_append hb]

end Step

/-! ### Phrases -/

/-- Blanks apart, the text begins with no delimiter. -/
def Begins (t : List Char) : Prop :=
  ∃ c u, isDelimiter c = false ∧ ∀ r, skipBlank (t ++ r) = c :: (u ++ r)

theorem begins_element {v : Value} {t : List Char} (h : Spells (.element v) t) : Begins t := by
  cases h with
  | @element _ a t b ha h hb =>
    obtain ⟨c, u, rfl, hc, -⟩ := h.eq_cons
    refine ⟨c, u ++ b, hc, fun r => ?_⟩
    rw [List.append_assoc, skipBlank_value ha h]
    simp

theorem begins_elements {vs : List Value} {t : List Char} (h : Spells (.elements vs) t) :
    Begins t := by
  cases h with
  | lastElement h => exact begins_element h
  | @elements _ _ _ t v h hs =>
    obtain ⟨c, u, hc, hu⟩ := begins_element h
    refine ⟨c, u ++ ',' :: v, hc, fun r => ?_⟩
    rw [List.append_assoc, List.append_assoc, hu]

/-- The text of a key with what stands before its value. -/
theorem skipBlank_member {a k b : List Char} (ha : Blanks a) (t r : List Char) :
    skipBlank (a ++ '"' :: k ++ '"' :: b ++ ':' :: t ++ r) =
      '"' :: (k ++ '"' :: (b ++ ':' :: (t ++ r))) := by
  simp only [List.append_assoc, List.cons_append]
  rw [skipBlank_append ha, skipBlank_cons (by decide)]

/-- What stands between the brackets of an object begins with the quote of a key. -/
theorem skipBlank_members {ms : List (String × Value)} {t : List Char}
    (h : Spells (.members ms) t) : ∃ u, ∀ r, skipBlank (t ++ r) = '"' :: (u ++ r) := by
  have hmember : ∀ {m : String × Value} {t : List Char}, Spells (.member m) t →
      ∃ u, ∀ r, skipBlank (t ++ r) = '"' :: (u ++ r) := by
    intro m t h
    cases h with
    | @member key v a k b t ha hk hb h =>
      refine ⟨k ++ '"' :: b ++ ':' :: t, fun r => ?_⟩
      rw [skipBlank_member ha]
      simp
  cases h with
  | lastMember h => exact hmember h
  | @members _ _ _ t v h hs =>
    obtain ⟨u, hu⟩ := hmember h
    refine ⟨u ++ ',' :: v, fun r => ?_⟩
    rw [List.append_assoc, List.append_assoc, hu]

theorem begins_members {ms : List (String × Value)} {t : List Char} (h : Spells (.members ms) t) :
    Begins t := by
  obtain ⟨u, hu⟩ := skipBlank_members h
  exact ⟨'"', u, by decide, hu⟩

/-- The text is passed over where a value is needed. -/
def SkipsValue (t : List Char) : Prop :=
  ∀ ⦃stack : List Bracket⦄ ⦃cs r : List Char⦄, skipBlank cs = t ++ r → Ends r →
    skipFrom .value stack cs = skipFrom .more stack r

/-- So is this text, with the blanks around it. -/
def SkipsElement (t : List Char) : Prop :=
  ∀ ⦃stack : List Bracket⦄ ⦃cs r : List Char⦄, skipBlank cs = skipBlank (t ++ r) → Ends r →
    ∃ q, skipBlank q = skipBlank r ∧ skipFrom .value stack cs = skipFrom .more stack q

/-- The text is passed over as one item of a bracket, with the blanks around it. -/
def SkipsItem (b : Bracket) (t : List Char) : Prop :=
  ∀ ⦃stack : List Bracket⦄ ⦃cs r : List Char⦄, skipBlank cs = skipBlank (t ++ r) → Ends r →
    ∃ q, skipBlank q = skipBlank r ∧ skipFrom (.item b) stack cs = skipFrom .more (b :: stack) q

/-- The text is passed over as the items of a bracket, with the end of the bracket. -/
def SkipsItems (b : Bracket) (t : List Char) : Prop :=
  ∀ ⦃stack : List Bracket⦄ ⦃cs r : List Char⦄, skipBlank cs = skipBlank (t ++ b.closing :: r) →
    skipFrom (.item b) stack cs = skipFrom .more stack r

theorem skipsValue_of_scalar {v : Value} {t : List Char} (h : Spells (.value v) t)
    (hv : ¬v.IsNested) : SkipsValue t := by
  intro stack cs r hcs hr
  have hscalar := (readFound_skipScalar h hv hr).2
  obtain ⟨c, u, rfl, -, hc⟩ := h.eq_cons
  exact skipFrom_scalar hcs (hc hv) hscalar

theorem SkipsValue.element {a t b : List Char} {v : Value} (h : SkipsValue t)
    (hv : Spells (.value v) t) (ha : Blanks a) (hb : Blanks b) : SkipsElement (a ++ t ++ b) := by
  intro stack cs r hcs hr
  refine ⟨b ++ r, skipBlank_append hb r, ?_⟩
  apply h
  · rw [hcs, List.append_assoc, skipBlank_value ha hv]
  · exact hr.append hb

theorem SkipsElement.item {t : List Char} (h : SkipsElement t) : SkipsItem .list t := by
  intro stack cs r hcs hr
  obtain ⟨q, hq, hskip⟩ := @h (.list :: stack) cs r hcs hr
  refine ⟨q, hq, ?_⟩
  rw [← hskip]
  conv => lhs; rw [skipFrom]

theorem SkipsElement.member {key k a b t : List Char} (h : SkipsElement t) (ha : Blanks a)
    (hk : SpellsText key k) (hb : Blanks b) :
    SkipsItem .object (a ++ '"' :: k ++ '"' :: b ++ ':' :: t) := by
  intro stack cs r hcs hr
  rw [skipBlank_member ha] at hcs
  rw [skipFrom_key (skipKey_append hk hb hcs)]
  exact h rfl hr

theorem SkipsItem.last {b : Bracket} {t : List Char} (h : SkipsItem b t) : SkipsItems b t := by
  intro stack cs r hcs
  obtain ⟨q, hq, hskip⟩ := @h stack _ _ hcs (ends_cons (isDelimiter_closing b) r)
  rw [hskip, skipFrom_end (hq.trans (skipBlank_closing b r))]

theorem SkipsItem.cons {b : Bracket} {t u : List Char} (h : SkipsItem b t) (hs : SkipsItems b u) :
    SkipsItems b (t ++ ',' :: u) := by
  intro stack cs r hcs
  rw [List.append_assoc, List.cons_append] at hcs
  obtain ⟨q, hq, hskip⟩ := @h stack _ _ hcs (ends_cons (by decide) _)
  rw [hskip, skipFrom_comma (hq.trans (skipBlank_cons (by decide) _))]
  exact hs rfl

/-- A bracket with nothing between it and its end but blanks. -/
theorem skipFrom_start_blanks {b : Bracket} {a : List Char} (ha : Blanks a)
    (stack : List Bracket) (r : List Char) :
    skipFrom (.start b) stack (a ++ b.closing :: r) = skipFrom .more stack r := by
  apply skipFrom_start_end
  rw [skipBlank_append ha, skipBlank_closing]

theorem SkipsItems.start {b : Bracket} {t : List Char} (h : SkipsItems b t) (ht : Begins t)
    (stack : List Bracket) (r : List Char) :
    skipFrom (.start b) stack (t ++ b.closing :: r) = skipFrom .more stack r := by
  obtain ⟨c, u, hc, hblank⟩ := ht
  have hclosing : c ≠ b.closing := by
    rintro rfl
    rw [isDelimiter_closing] at hc
    cases hc
  rw [skipFrom_start_item (hblank _) hclosing, ← hblank]
  exact h (skipBlank_skipBlank _)

theorem skipsValue_nested {b : Bracket} {c : Char}
    (hopen : ∀ {stack : List Bracket} {cs r : List Char}, skipBlank cs = c :: r →
      skipFrom .value stack cs = skipFrom (.start b) stack r) {t : List Char}
    (h : ∀ stack r, skipFrom (.start b) stack (t ++ b.closing :: r) = skipFrom .more stack r) :
    SkipsValue (c :: t ++ [b.closing]) := by
  intro stack cs r hcs _
  rw [List.cons_append, List.cons_append, List.append_assoc] at hcs
  rw [hopen hcs]
  exact h stack r

/-! ### Documents -/

/-- What a phrase is passed over as. -/
def Skips : Phrase → List Char → Prop
  | .value _, t => SkipsValue t
  | .element _, t => SkipsElement t
  | .elements _, t => SkipsItems .list t
  | .member _, t => SkipsItem .object t
  | .members _, t => SkipsItems .object t

theorem skips {p : Phrase} {t : List Char} (h : Spells p t) : Skips p t := by
  induction h with
  | null => exact skipsValue_of_scalar .null id
  | boolean b => exact skipsValue_of_scalar (.boolean b) id
  | integer hlow hhigh => exact skipsValue_of_scalar (.integer hlow hhigh) id
  | text h => exact skipsValue_of_scalar (.text h) id
  | emptyList ha => exact skipsValue_nested skipFrom_list (skipFrom_start_blanks ha)
  | list h ih => exact skipsValue_nested skipFrom_list (SkipsItems.start ih (begins_elements h))
  | emptyObject ha => exact skipsValue_nested skipFrom_object (skipFrom_start_blanks ha)
  | object h ih =>
    exact skipsValue_nested skipFrom_object (SkipsItems.start ih (begins_members h))
  | element ha h hb ih => exact SkipsValue.element ih h ha hb
  | lastElement _ ih => exact (SkipsElement.item ih).last
  | elements _ _ ih ihs => exact (SkipsElement.item ih).cons ihs
  | member ha hk hb _ ih => exact SkipsElement.member ih ha hk hb
  | lastMember _ ih => exact SkipsItem.last ih
  | members _ _ ih ihs => exact SkipsItem.cons ih ihs

/-- Skipping a value leaves what follows it. -/
theorem skipValue_append {v : Value} {a t r : List Char} (ha : Blanks a)
    (h : Spells (.value v) t) (hr : Ends r) : skipValue (a ++ t ++ r) = .ok r := by
  have hskip : SkipsValue t := skips h
  rw [skipValue, hskip (skipBlank_value ha h r) hr, skipFrom]

end ExpiringCache.Json
