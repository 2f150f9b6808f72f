import ExpiringCache.Proofs.Skipping

/-! How far a reader looks. What it takes off a text depends on nothing that follows, but for the
next character: a numeral goes on for as long as what follows can be part of it (`Peeks`). A
piece of a document that ends with a character of its own, such as a bracket, does not depend on
the next character either (`Closes`). Each step of a reader that succeeds is one or the other,
and so is one step after another. -/

namespace ExpiringCache.Json

/-- A reader for which `P` leads from `cs` to `r` takes the same off every text that goes on with
the same character as `r`. -/
def Peeks (P : List Char → List Char → Prop) (cs r : List Char) : Prop :=
  ∃ u, cs = u ++ r ∧ ∀ s, s.head? = r.head? → P (u ++ s) s

/-- What a reader takes off `cs` ends with a character that is no blank, and it takes the same
off whatever follows. -/
def Closes (P : List Char → List Char → Prop) (cs r : List Char) : Prop :=
  ∃ u c, isBlank c = false ∧ cs = u ++ c :: r ∧ ∀ s, P (u ++ c :: s) s

section Steps

variable {P Q R : List Char → List Char → Prop} {cs q r : List Char}

theorem Peeks.imp (hP : Peeks P cs r) (h : ∀ {cs r}, P cs r → Q cs r) : Peeks Q cs r := by
  obtain ⟨u, rfl, hu⟩ := hP
  exact ⟨u, rfl, fun s hs => h (hu s hs)⟩

theorem Closes.peeks (hP : Closes P cs r) : Peeks P cs r := by
  obtain ⟨u, c, -, rfl, hu⟩ := hP
  refine ⟨u ++ [c], by simp, fun s _ => ?_⟩
  rw [List.append_assoc]
  exact hu s

theorem Closes.imp (hP : Closes P cs r) (h : ∀ {cs r}, P cs r → Q cs r) : Closes Q cs r := by
  obtain ⟨u, c, hc, rfl, hu⟩ := hP
  exact ⟨u, c, hc, rfl, fun s => h (hu s)⟩

/-- One step after another. -/
theorem Peeks.seq (hP : Peeks P cs q) (hQ : Peeks Q q r) :
    Peeks (fun cs r => ∃ q, P cs q ∧ Q q r) cs r := by
  obtain ⟨u, rfl, hu⟩ := hP
  obtain ⟨w, rfl, hw⟩ := hQ
  refine ⟨u ++ w, (List.append_assoc u w r).symm, fun s hs => ⟨w ++ s, ?_, hw s hs⟩⟩
  rw [List.append_assoc]
  exact hu _ (by rw [List.head?_append, List.head?_append, hs])

/-- A step that closes, after another. -/
theorem Peeks.closes (hP : Peeks P cs q) (hQ : Closes Q q r) :
    Closes (fun cs r => ∃ q, P cs q ∧ Q q r) cs r := by
  obtain ⟨u, rfl, hu⟩ := hP
  obtain ⟨w, c, hc, rfl, hw⟩ := hQ
  refine ⟨u ++ w, c, hc, (List.append_assoc u w _).symm, fun s => ⟨w ++ c :: s, ?_, hw s⟩⟩
  rw [List.append_assoc]
  exact hu _ (by rw [List.head?_append, List.head?_append]; rfl)

/-- A step that takes nothing off. -/
theorem peeks_self (h : ∀ s, s.head? = r.head? → P s s) : Peeks P r r := ⟨[], rfl, h⟩

/-- A step that takes one character off. -/
theorem peeks_cons (c : Char) (r : List Char) : Peeks (fun cs r => cs = c :: r) (c :: r) r :=
  ⟨[c], rfl, fun _ _ => rfl⟩

end Steps

/-! ### Blanks -/

theorem exists_blanks (cs : List Char) : ∃ b, Blanks b ∧ cs = b ++ skipBlank cs :=
  ⟨cs.takeWhile isBlank, fun c hc => isBlank_iff.1 (List.all_eq_true.1 List.all_takeWhile c hc),
    List.takeWhile_append_dropWhile.symm⟩

theorem isBlank_of_skipBlank_eq_cons {cs r : List Char} {c : Char} (h : skipBlank cs = c :: r) :
    isBlank c = false := by
  have hhead := List.head?_dropWhile_not isBlank cs
  rw [show cs.dropWhile isBlank = c :: r from h] at hhead
  simpa using hhead

theorem closes_skipBlank {cs r : List Char} {c : Char} (h : skipBlank cs = c :: r) :
    Closes (fun cs r => skipBlank cs = c :: r) cs r := by
  obtain ⟨b, hb, hcs⟩ := exists_blanks cs
  have hc := isBlank_of_skipBlank_eq_cons h
  exact ⟨b, c, hc, h ▸ hcs, fun s => (skipBlank_append hb _).trans (skipBlank_cons hc s)⟩

/-- The character after the blanks is only looked at. -/
theorem peeks_skipBlank {cs r : List Char} {c : Char} (h : skipBlank cs = c :: r) :
    Peeks (fun cs q => skipBlank cs = q ∧ q.head? = some c) cs (c :: r) := by
  obtain ⟨b, hb, hcs⟩ := exists_blanks cs
  have hc := isBlank_of_skipBlank_eq_cons h
  refine ⟨b, h ▸ hcs, fun s hs => ?_⟩
  obtain ⟨s, rfl⟩ := List.head?_eq_some_iff.1 hs
  exact ⟨by rw [skipBlank_append hb, skipBlank_cons hc], rfl⟩

theorem skipColon_eq_ok_iff {cs r : List Char} :
    skipColon cs = .ok r ↔ skipBlank cs = ':' :: r := by
  unfold skipColon
  split <;> simp_all

theorem peeks_skipColon {cs r : List Char} (h : skipColon cs = .ok r) :
    Peeks (fun cs r => skipColon cs = .ok r) cs r :=
  (closes_skipBlank (skipColon_eq_ok_iff.1 h)).peeks.imp skipColon_eq_ok_iff.2

theorem skipWord_eq_ok_iff {w cs r : List Char} : skipWord w cs = .ok r ↔ cs = w ++ r := by
  induction w generalizing cs with
  | nil => simp [skipWord]
  | cons c w ih =>
    cases cs with
    | nil => simp [skipWord]
    | cons d cs =>
      rw [skipWord, List.cons_append, List.cons.injEq]
      split
      · rw [ih]
        simp_all
      · simp_all

/-! ### Strings -/

/-- The first `n` characters of the text decide that `P` holds of it. -/
def Decides (n : Nat) (P : List Char → Prop) (cs : List Char) : Prop :=
  n ≤ cs.length ∧ ∀ s, P (cs.take n ++ s)

theorem utf8Size_of_hexValue?_eq_some {c : Char} {d : Nat} (h : hexValue? c = some d) :
    c.utf8Size = 1 := by
  rw [Char.utf8Size_eq_one_iff]
  unfold hexValue? at h
  simp only [Char.le_def] at h
  split at h
  · exact UInt32.le_trans (And.right ‹_›) (by decide)
  · split at h
    · exact UInt32.le_trans (And.right ‹_›) (by decide)
    · split at h
      · exact UInt32.le_trans (And.right ‹_›) (by decide)
      · cases h

/-- Hexadecimal digits take a byte each. -/
theorem byteSize_of_mapM_hexValue? {cs : List Char} {ds : List Nat}
    (h : cs.mapM hexValue? = some ds) : byteSize cs = cs.length := by
  induction cs generalizing ds with
  | nil => rfl
  | cons c cs ih =>
    rw [List.mapM_cons] at h
    obtain ⟨d, hd, h⟩ := Option.bind_eq_some_iff.1 h
    obtain ⟨es, hes, -⟩ := Option.bind_eq_some_iff.1 h
    have hcs : cs.foldr (fun c n => c.utf8Size + n) 0 = cs.length := ih hes
    rw [byteSize, List.foldr_cons, hcs, utf8Size_of_hexValue?_eq_some hd, List.length_cons,
      Nat.add_comm]

theorem readUnit_eq_ok_iff {cs : List Char} {u : Nat} : readUnit cs = .ok u ↔ 4 ≤ cs.length ∧
    ∃ ds, (cs.take 4).mapM hexValue? = some ds ∧ ds.foldl (fun n d => 16 * n + d) 0 = u := by
  have hsize {ds : List Nat} (hds : (cs.take 4).mapM hexValue? = some ds) :
      ¬byteSize (cs.take 4) < 4 ↔ 4 ≤ cs.length := by
    rw [byteSize_of_mapM_hexValue? hds, List.length_take]
    omega
  rw [readUnit]
  cases hds : (cs.take 4).mapM hexValue? with
  | none => split <;> simp
  | some ds =>
    by_cases hlength : 4 ≤ cs.length
    · rw [if_neg ((hsize hds).2 hlength)]
      simp [hlength]
    · rw [if_pos (Decidable.not_not.1 (mt (hsize hds).1 hlength))]
      simp [hlength]

theorem decides_readUnit {cs : List Char} {u : Nat} (h : readUnit cs = .ok u) :
    Decides 4 (fun cs => readUnit cs = .ok u) cs := by
  obtain ⟨hlength, hdigits⟩ := readUnit_eq_ok_iff.1 h
  refine ⟨hlength, fun s => readUnit_eq_ok_iff.2 ⟨by simp [hlength], ?_⟩⟩
  have htake : (cs.take 4 ++ s).take 4 = cs.take 4 := List.take_left' (by simp [hlength])
  rwa [htake]

theorem decides_readTrailing {cs : List Char} {v : Nat} (h : readTrailing cs = .ok v) :
    Decides 6 (fun cs => readTrailing cs = .ok v) cs := by
  unfold readTrailing at h
  split at h
  · cases h
  · cases h
  · rename_i cs
    obtain ⟨w, hw, h⟩ := bind_eq_ok h
    obtain ⟨hlength, hunit⟩ := decides_readUnit hw
    split at h
    · rename_i htrailing
      cases h
      refine ⟨by simp [hlength], fun s => ?_⟩
      change readTrailing ('\\' :: 'u' :: (cs.take 4 ++ s)) = .ok v
      rw [readTrailing, hunit]
      simp only [bind, Except.bind, htrailing]
      rfl
    · cases h
  · cases h
  · cases h

theorem decides_skipEscape {cs : List Char} {n : Nat} (h : skipEscape cs = .ok n) :
    Decides n (fun cs => skipEscape cs = .ok n) cs := by
  unfold skipEscape at h
  split at h
  · cases h
  · rename_i cs
    obtain ⟨u, hu, rfl⟩ := map_eq_ok h
    obtain ⟨hlength, hunit⟩ := decides_readUnit hu
    refine ⟨by simp [hlength], fun s => ?_⟩
    change skipEscape ('u' :: (cs.take 4 ++ s)) = .ok 5
    rw [skipEscape, hunit]
    rfl
  · split at h
    · cases h
      exact ⟨by simp, fun s => (readEscape_of_letter ‹_› s).2⟩
    · cases h

theorem decides_readEscape {cs : List Char} {d : Char} {n : Nat} (h : readEscape cs = .ok (d, n)) :
    Decides n (fun cs => readEscape cs = .ok (d, n)) cs := by
  unfold readEscape at h
  split at h
  · cases h
  · rename_i cs
    obtain ⟨u, hu, h⟩ := bind_eq_ok h
    obtain ⟨hlength, hunit⟩ := decides_readUnit hu
    split at h
    · cases h
    · have htrailing : isTrailing u = false := Bool.eq_false_iff.2 ‹_›
      split at h
      · rename_i hleading
        obtain ⟨v, hv, h⟩ := bind_eq_ok h
        obtain ⟨rfl, rfl⟩ := Prod.mk.inj (Except.ok.inj h)
        obtain ⟨hmore, hpair⟩ := decides_readTrailing hv
        have htake (s : List Char) :
            ('u' :: cs).take 11 ++ s = 'u' :: (cs.take 4 ++ ((cs.drop 4).take 6 ++ s)) := by
          rw [← List.append_assoc, ← List.take_add]
          rfl
        refine ⟨by simp at hmore ⊢; omega, fun s => ?_⟩
        rw [htake]
        refine readEscape_of_pair (hunit _) htrailing hleading ?_
        rw [List.drop_left' (by simp [hlength])]
        exact hpair s
      · have hleading : isLeading u = false := Bool.eq_false_iff.2 ‹_›
        obtain ⟨rfl, rfl⟩ := Prod.mk.inj (Except.ok.inj h)
        exact ⟨by simp [hlength], fun s => readEscape_of_unit (hunit s) htrailing hleading⟩
  · split at h
    · cases h
      exact ⟨by simp, fun s => (readEscape_of_letter ‹_› s).1⟩
    · cases h

/-- An escape is a step. -/
theorem Decides.peeks {n : Nat} {P : List Char → Prop} {cs : List Char} (h : Decides n P cs) :
    Peeks (fun cs r => ∃ e, cs = '\\' :: e ++ r ∧ e.length = n ∧ P (e ++ r)) ('\\' :: cs)
      (cs.drop n) := by
  refine ⟨'\\' :: cs.take n, ?_, fun s _ => ⟨cs.take n, rfl, by simp [h.1], h.2 s⟩⟩
  rw [List.cons_append, List.take_append_drop]

theorem peeks_readText {cs s r : List Char} (h : readText cs = .ok (s, r)) :
    Peeks (fun cs r => readText cs = .ok (s, r)) cs r := by
  fun_induction readText cs generalizing s with
  | case1 => cases h
  | case2 cs =>
    cases h
    refine (peeks_cons '"' _).imp ?_
    rintro _ r rfl
    rw [readText, if_pos rfl]
  | case3 cs d n hescape hquote ih =>
    obtain ⟨⟨s, q⟩, hq, h⟩ := map_eq_ok h
    cases h
    refine ((decides_readEscape hescape).peeks.seq (ih hq)).imp ?_
    rintro _ r ⟨q, ⟨e, rfl, rfl, he⟩, hnext⟩
    rw [readText_escape he, hnext]
    rfl
  | case4 => cases h
  | case5 => cases h
  | case6 c cs hquote hslash hcontrol ih =>
    obtain ⟨⟨s, q⟩, hq, h⟩ := map_eq_ok h
    cases h
    refine ((peeks_cons c cs).seq (ih hq)).imp ?_
    rintro _ r ⟨q, rfl, hq⟩
    rw [readText, if_neg hquote, if_neg hslash, if_neg hcontrol, hq]
    rfl

theorem peeks_skipText {cs r : List Char} (h : skipText cs = .ok r) :
    Peeks (fun cs r => skipText cs = .ok r) cs r := by
  fun_induction skipText cs with
  | case1 => cases h
  | case2 cs =>
    cases h
    refine (peeks_cons '"' _).imp ?_
    rintro _ r rfl
    rw [skipText, if_pos rfl]
  | case3 cs n hescape hquote ih =>
    refine ((decides_skipEscape hescape).peeks.seq (ih h)).imp ?_
    rintro _ r ⟨q, ⟨e, rfl, rfl, he⟩, hq⟩
    rw [skipText_escape he, hq]
  | case4 => cases h
  | case5 => cases h
  | case6 c cs hquote hslash hcontrol ih =>
    refine ((peeks_cons c cs).seq (ih h)).imp ?_
    rintro _ r ⟨q, rfl, hq⟩
    rw [skipText, if_neg hquote, if_neg hslash, if_neg hcontrol, hq]

/-! ### Numbers -/

theorem peeks_digits (cs : List Char) :
    Peeks (fun s r => s.takeWhile Char.isDigit = cs.takeWhile Char.isDigit ∧
      s.dropWhile Char.isDigit = r) cs (cs.dropWhile Char.isDigit) := by
  refine ⟨cs.takeWhile Char.isDigit, List.takeWhile_append_dropWhile.symm, fun s hs => ?_⟩
  refine digits_append (fun c hc => List.all_eq_true.1 List.all_takeWhile c hc) fun c hc => ?_
  have hhead := List.head?_dropWhile_not Char.isDigit cs
  rw [← hs, Option.mem_def.1 hc] at hhead
  exact hhead

theorem peeks_readWhole {atEnd : Cause} {cs ds r : List Char}
    (h : readWhole atEnd cs = .ok (ds, r)) :
    Peeks (fun cs r => readWhole atEnd cs = .ok (ds, r)) cs r := by
  unfold readWhole at h
  split at h
  · cases h
  · rename_i cs
    split at h
    · cases h
    · rename_i hdigit
      cases h
      refine ⟨['0'], rfl, fun s hs => ?_⟩
      change readWhole atEnd ('0' :: s) = .ok (['0'], s)
      rw [readWhole, if_neg (hs ▸ hdigit)]
  · rename_i c cs hc
    split at h
    · rename_i hdigit
      cases h
      refine ((peeks_cons c cs).seq (peeks_digits cs)).imp ?_
      rintro _ r ⟨q, rfl, hds, hr⟩
      rw [readWhole, if_pos hdigit, hds, hr]
      exact hc
    · cases h

theorem peeks_readFraction {atEnd : Cause} {cs ds r : List Char}
    (h : readFraction atEnd cs = .ok (ds, r)) :
    Peeks (fun cs r => readFraction atEnd cs = .ok (ds, r)) cs r := by
  cases cs with
  | nil =>
    cases h
    refine peeks_self fun s hs => ?_
    rw [List.head?_eq_none_iff.1 hs]
    rfl
  | cons c cs =>
    by_cases hc : c = '.'
    · subst hc
      rw [readFraction] at h
      split at h
      · cases h
      · rename_i hds hnil
        cases h
        refine ((peeks_cons '.' cs).seq (peeks_digits cs)).imp ?_
        rintro _ r ⟨q, rfl, hdigits, hr⟩
        rw [readFraction, hdigits, hr]
        split
        · exact absurd ‹_› hnil
        · rfl
    · have hpoint : '.' ∉ (c :: cs).head? := by simpa using hc
      rw [readFraction_of_no_point atEnd hpoint] at h
      cases h
      exact peeks_self fun s hs => readFraction_of_no_point atEnd (hs ▸ hpoint)

theorem readMinus_eq (cs : List Char) :
    readMinus cs = if cs.head? = some '-' then (true, cs.tail) else (false, cs) := by
  unfold readMinus
  split
  · rfl
  · rename_i hcs
    rw [if_neg fun h => hcs _ (List.head?_eq_some_iff.1 h).choose_spec]

theorem readSign_eq (cs : List Char) : readSign cs =
    if cs.head? = some '-' then (true, cs.tail)
    else if cs.head? = some '+' then (false, cs.tail) else (false, cs) := by
  unfold readSign
  split
  · rfl
  · rfl
  · rename_i hminus hplus
    rw [if_neg fun h => hminus _ (List.head?_eq_some_iff.1 h).choose_spec,
      if_neg fun h => hplus _ (List.head?_eq_some_iff.1 h).choose_spec]

theorem peeks_readMinus (cs : List Char) :
    Peeks (fun s r => readMinus s = ((readMinus cs).1, r)) cs (readMinus cs).2 := by
  by_cases hminus : cs.head? = some '-'
  · obtain ⟨cs, rfl⟩ := List.head?_eq_some_iff.1 hminus
    exact ⟨['-'], rfl, fun _ _ => rfl⟩
  · have hcs : readMinus cs = (false, cs) := by rw [readMinus_eq, if_neg hminus]
    rw [hcs]
    exact peeks_self fun s hs => by rw [readMinus_eq, hs, if_neg hminus]

theorem peeks_readSign (cs : List Char) :
    Peeks (fun s r => readSign s = ((readSign cs).1, r)) cs (readSign cs).2 := by
  by_cases hminus : cs.head? = some '-'
  · obtain ⟨cs, rfl⟩ := List.head?_eq_some_iff.1 hminus
    exact ⟨['-'], rfl, fun _ _ => rfl⟩
  · by_cases hplus : cs.head? = some '+'
    · obtain ⟨cs, rfl⟩ := List.head?_eq_some_iff.1 hplus
      exact ⟨['+'], rfl, fun _ _ => rfl⟩
    · have hcs : readSign cs = (false, cs) := by rw [readSign_eq, if_neg hminus, if_neg hplus]
      rw [hcs]
      exact peeks_self fun s hs => by rw [readSign_eq, hs, if_neg hminus, if_neg hplus]

theorem peeks_readExponent {atEnd : Cause} {cs r : List Char} {e : Option (Bool × List Char)}
    (h : readExponent atEnd cs = .ok (e, r)) :
    Peeks (fun cs r => readExponent atEnd cs = .ok (e, r)) cs r := by
  cases cs with
  | nil =>
    cases h
    refine peeks_self fun s hs => ?_
    rw [List.head?_eq_none_iff.1 hs]
    rfl
  | cons c cs =>
    by_cases hc : c = 'e' ∨ c = 'E'
    · have hsign := peeks_readSign cs
      rw [readExponent, if_pos hc] at h
      generalize readSign cs = p at h hsign
      obtain ⟨negative, q⟩ := p
      cases q with
      | nil => cases h
      | cons d q =>
        simp only at h
        split at h
        · rename_i hdigit
          cases h
          have hdigits := (peeks_cons d q).seq (peeks_digits q)
          refine ((peeks_cons c cs).seq (hsign.seq hdigits)).imp ?_
          rintro _ r ⟨_, rfl, _, hsign, _, rfl, hds, hr⟩
          rw [readExponent, if_pos hc, hsign]
          simp only [if_pos hdigit, hds, hr]
        · cases h
    · rw [readExponent, if_neg hc] at h
      cases h
      refine peeks_self fun s hs => ?_
      obtain ⟨s, rfl⟩ := List.head?_eq_some_iff.1 hs
      rw [readExponent, if_neg hc]

theorem peeks_readNumeral {atEnd : Cause} {cs r : List Char} {n : Numeral}
    (h : readNumeral atEnd cs = .ok (n, r)) :
    Peeks (fun cs r => readNumeral atEnd cs = .ok (n, r)) cs r := by
  obtain ⟨⟨whole, q₁⟩, hwhole, h⟩ := bind_eq_ok h
  obtain ⟨⟨fraction, q₂⟩, hfraction, h⟩ := bind_eq_ok h
  obtain ⟨⟨exponent, q₃⟩, hexponent, h⟩ := bind_eq_ok h
  cases h
  refine ((peeks_readMinus cs).seq ((peeks_readWhole hwhole).seq ((peeks_readFraction hfraction).seq
    (peeks_readExponent hexponent)))).imp ?_
  rintro s r ⟨_, hs, _, hwhole, _, hfraction, hexponent⟩
  rw [readNumeral, hs]
  simp only [bind, Except.bind, hwhole, hfraction, hexponent]
  rfl

/-- What follows a numeral is only told in a fault. -/
theorem Numeral.float_of_ok {n : Numeral} {r : List Char} {x : Float} (h : n.float r = .ok x)
    (s : List Char) : n.float s = .ok x := by
  unfold Numeral.float at h ⊢
  simp only at h ⊢
  split at h
  · split at h
    · exact h
    · cases h
  · split at h
    · split at h
      · exact h
      · cases h
    · split at h
      · rwa [if_pos ‹_›]
      · cases h

theorem Numeral.number_of_ok {n : Numeral} {r : List Char} {x : Number} (h : n.number r = .ok x)
    (s : List Char) : n.number s = .ok x := by
  unfold Numeral.number at h ⊢
  simp only at h ⊢
  split
  · rwa [if_pos ‹_›] at h
  · rw [if_neg ‹_›] at h
    split
    · rwa [if_pos ‹_›] at h
    · rw [if_neg ‹_›] at h
      obtain ⟨y, hy, rfl⟩ := map_eq_ok h
      rw [Numeral.float_of_ok hy s]
      rfl

theorem peeks_readNumber {cs r : List Char} {x : Number} (h : readNumber cs = .ok (x, r)) :
    Peeks (fun cs r => readNumber cs = .ok (x, r)) cs r := by
  obtain ⟨⟨numeral, q⟩, hnumeral, h⟩ := bind_eq_ok h
  obtain ⟨y, hy, h⟩ := bind_eq_ok h
  cases h
  refine (peeks_readNumeral hnumeral).imp fun {_ r} hnumeral => ?_
  rw [readNumber, hnumeral]
  simp only [bind, Except.bind, Numeral.number_of_ok hy r]
  rfl

/-! ### Values -/

/-- A step that takes something off leaves the character that the text begins with. -/
theorem Peeks.head {P : List Char → List Char → Prop} {c : Char} {cs r : List Char}
    (h : Peeks P (c :: cs) r) (hr : r.length < (c :: cs).length) :
    Peeks (fun s q => P s q ∧ ∃ t, s = c :: t) (c :: cs) r := by
  obtain ⟨u, hu, hP⟩ := h
  cases u with
  | nil =>
    rw [hu] at hr
    exact absurd hr (Nat.lt_irrefl _)
  | cons d u =>
    obtain ⟨rfl, rfl⟩ := List.cons.inj hu
    exact ⟨c :: u, rfl, fun s hs => ⟨hP s hs, _, rfl⟩⟩

theorem peeks_readFound {cs r : List Char} {f : Found} (h : readFound cs = .ok (f, r)) :
    Peeks (fun cs r => readFound cs = .ok (f, r)) cs r := by
  have hword {w cs r : List Char} {f : Found}
      (hf : ∀ s, readFound (w ++ s) = .ok (f, s)) (h : cs = w ++ r) :
      Peeks (fun cs r => readFound cs = .ok (f, r)) cs r := ⟨w, h, fun s _ => hf s⟩
  unfold readFound at h
  split at h
  · cases h
  · obtain ⟨q, hq, h⟩ := map_eq_ok h
    cases h
    obtain rfl := skipWord_eq_ok_iff.1 hq
    exact hword (w := ['n', 'u', 'l', 'l']) (fun _ => rfl) rfl
  · obtain ⟨q, hq, h⟩ := map_eq_ok h
    cases h
    obtain rfl := skipWord_eq_ok_iff.1 hq
    exact hword (w := ['t', 'r', 'u', 'e']) (fun _ => rfl) rfl
  · obtain ⟨q, hq, h⟩ := map_eq_ok h
    cases h
    obtain rfl := skipWord_eq_ok_iff.1 hq
    exact hword (w := ['f', 'a', 'l', 's', 'e']) (fun _ => rfl) rfl
  · obtain ⟨q, hq, h⟩ := map_eq_ok h
    cases h
    refine ((peeks_cons '"' _).seq (peeks_readText hq)).imp ?_
    rintro _ r ⟨p, rfl, hp⟩
    rw [readFound, hp]
    rfl
  · cases h
    refine peeks_self fun s hs => ?_
    obtain ⟨s, rfl⟩ := List.head?_eq_some_iff.1 hs
    rfl
  · cases h
    refine peeks_self fun s hs => ?_
    obtain ⟨s, rfl⟩ := List.head?_eq_some_iff.1 hs
    rfl
  · split at h
    · rename_i hnumeral
      obtain ⟨⟨x, q⟩, hq, h⟩ := map_eq_ok h
      -- an integer and a float are handed on alike, with the same rest
      have hr : q = r := by cases x <;> cases h <;> rfl
      subst hr
      refine ((peeks_readNumber hq).head (length_readNumber_lt hq)).imp ?_
      rintro _ r ⟨hnumber, s, rfl⟩
      rw [readFound_of_numeral hnumeral, hnumber]
      cases x <;> cases h <;> rfl
    · cases h

/-- What the reader takes off a text it takes off whatever follows, but for the next character. -/
def Local {β : Type} (read : Reader β) : Prop :=
  ∀ ⦃cs : List Char⦄ ⦃v : β⦄ ⦃r : List Char⦄, read cs = .ok (v, r) →
    Peeks (fun cs r => read cs = .ok (v, r)) cs r

theorem local_readAs {β : Type} (expected : String) (value? : Found → Option β) :
    Local (readAs expected value?) := by
  intro cs v r h
  obtain ⟨⟨f, q⟩, hfound, h⟩ := bind_eq_ok h
  have hblank : ∃ c p, skipBlank cs = c :: p := by
    cases hcs : skipBlank cs with
    | nil =>
      rw [hcs] at hfound
      cases hfound
    | cons c p => exact ⟨c, p, rfl⟩
  obtain ⟨c, p, hp⟩ := hblank
  rw [hp] at hfound
  simp only at h
  split at h
  · rename_i hvalue
    cases h
    refine ((peeks_skipBlank hp).seq (peeks_readFound hfound)).imp ?_
    rintro s r ⟨_, ⟨rfl, -⟩, hfound⟩
    rw [readAs, hfound]
    simp only [bind, Except.bind, hvalue]
    rfl
  · cases h

theorem local_readInteger : Local readInteger := by
  intro cs n r h
  obtain ⟨⟨m, q⟩, hm, h⟩ := bind_eq_ok h
  simp only at h
  split at h
  · rename_i hrange
    cases h
    refine (local_readAs _ _ hm).imp fun hn => ?_
    rw [readInteger, hn]
    simp only [bind, Except.bind, if_pos hrange]
    rfl
  · cases h

/-! ### Skipped values -/

theorem peeks_skipScalar {cs r : List Char} (h : skipScalar cs = .ok r) :
    Peeks (fun cs r => skipScalar cs = .ok r) cs r := by
  unfold skipScalar at h
  split at h
  · obtain rfl := skipWord_eq_ok_iff.1 h
    exact ⟨['n', 'u', 'l', 'l'], rfl, fun _ _ => rfl⟩
  · obtain rfl := skipWord_eq_ok_iff.1 h
    exact ⟨['t', 'r', 'u', 'e'], rfl, fun _ _ => rfl⟩
  · obtain rfl := skipWord_eq_ok_iff.1 h
    exact ⟨['f', 'a', 'l', 's', 'e'], rfl, fun _ _ => rfl⟩
  · refine ((peeks_cons '"' _).seq (peeks_skipText h)).imp ?_
    rintro _ r ⟨p, rfl, hp⟩
    rwa [skipScalar]
  · split at h
    · rename_i hnumeral
      obtain ⟨⟨n, q⟩, hq, h⟩ := map_eq_ok h
      cases h
      refine ((peeks_readNumeral hq).head (length_readNumeral_lt hq)).imp ?_
      rintro _ r ⟨hn, s, rfl⟩
      rw [skipScalar_of_numeral hnumeral, hn]
      rfl
    · cases h
  · cases h

theorem skipKey_eq_ok_iff {cs r : List Char} : skipKey cs = .ok r ↔
    ∃ p q, skipBlank cs = '"' :: p ∧ skipText p = .ok q ∧ skipColon q = .ok r := by
  unfold skipKey
  split
  · simp_all
  · rename_i hcs
    rw [hcs]
    constructor
    · intro h
      obtain ⟨q, hq, h⟩ := bind_eq_ok h
      exact ⟨_, q, rfl, hq, h⟩
    · rintro ⟨p, q, hp, hq, h⟩
      cases hp
      rw [hq]
      exact h
  · simp_all

theorem peeks_skipKey {cs r : List Char} (h : skipKey cs = .ok r) :
    Peeks (fun cs r => skipKey cs = .ok r) cs r := by
  obtain ⟨p, q, hp, hq, h⟩ := skipKey_eq_ok_iff.1 h
  refine ((closes_skipBlank hp).peeks.seq ((peeks_skipText hq).seq (peeks_skipColon h))).imp ?_
  rintro s r ⟨p, hp, q, hq, h⟩
  exact skipKey_eq_ok_iff.2 ⟨p, q, hp, hq, h⟩

/-- A step of the skipper, and what it passes over from there. -/
theorem Peeks.skipFrom {P : List Char → List Char → Prop} {need next : Need}
    {stack rest : List Bracket} {cs q r : List Char} (hP : Peeks P cs q)
    (hnext : Peeks (fun q r => skipFrom next rest q = .ok r) q r)
    (hstep : ∀ {cs q}, P cs q → skipFrom need stack cs = skipFrom next rest q) :
    Peeks (fun cs r => skipFrom need stack cs = .ok r) cs r := by
  refine (hP.seq hnext).imp ?_
  rintro cs r ⟨q, hq, hr⟩
  rw [hstep hq, hr]

theorem peeks_skipFrom {need : Need} {stack : List Bracket} {cs r : List Char}
    (h : skipFrom need stack cs = .ok r) :
    Peeks (fun cs r => skipFrom need stack cs = .ok r) cs r := by
  -- along the run of the skipper, so that the stack needs no measure
  fun_induction skipFrom need stack cs with
  | case1 | case5 | case6 | case11 | case13 | case16 => cases h
  | case2 _ _ _ hlist ih => exact (closes_skipBlank hlist).peeks.skipFrom (ih h) skipFrom_list
  | case3 _ _ _ hobject ih =>
    exact (closes_skipBlank hobject).peeks.skipFrom (ih h) skipFrom_object
  | case4 stack cs c p hlist hobject hp q hscalar ih =>
    refine ((peeks_skipBlank hp).seq (peeks_skipScalar hscalar)).skipFrom (ih h) ?_
    rintro s q ⟨_, ⟨hs, hc⟩, hq⟩
    obtain ⟨t, rfl⟩ := List.head?_eq_some_iff.1 hc
    exact skipFrom_scalar hs ⟨hlist, hobject⟩ hq
  | case7 _ _ _ _ hend ih =>
    exact (closes_skipBlank hend).peeks.skipFrom (ih h) skipFrom_start_end
  | case8 stack cs b c p hp hc ih =>
    refine (peeks_skipBlank hp).skipFrom (ih h) ?_
    rintro s q ⟨hs, hhead⟩
    obtain ⟨t, rfl⟩ := List.head?_eq_some_iff.1 hhead
    exact skipFrom_start_item hs hc
  | case9 stack cs ih =>
    refine (ih h).imp fun hnext => ?_
    rwa [skipFrom]
  | case10 _ _ _ hkey ih => exact (peeks_skipKey hkey).skipFrom (ih h) skipFrom_key
  | case12 =>
    cases h
    exact peeks_self fun s _ => by rw [skipFrom]
  | case14 _ _ _ _ hcomma ih =>
    exact (closes_skipBlank hcomma).peeks.skipFrom (ih h) skipFrom_comma
  | case15 _ _ _ _ hend _ ih =>
    exact (closes_skipBlank hend).peeks.skipFrom (ih h) skipFrom_end

theorem peeks_skipValue {cs r : List Char} (h : skipValue cs = .ok r) :
    Peeks (fun cs r => skipValue cs = .ok r) cs r := peeks_skipFrom h

end ExpiringCache.Json
