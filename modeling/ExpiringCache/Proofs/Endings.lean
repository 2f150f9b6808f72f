import ExpiringCache.Proofs.Configuration
import ExpiringCache.Proofs.Lookahead

/-! Where a document ends. The text of a record ends with a bracket, and the reader takes it off
whatever follows (`closes_readRecord`), so a text that is read can be continued by blanks and by
nothing else, and it can be cut short nowhere but in the blanks at its end. -/

namespace ExpiringCache.Json

variable {β : Type} {f : Field β} {cs r : List Char}

/-! ### Members -/

section Members

variable {found : Option β} {isFirst : Bool} {v : β}

theorem readKey_eq_none_iff :
    readKey isFirst cs = .ok (none, r) ↔ skipBlank cs = '\x7d' :: r := by
  refine ⟨fun h => ?_, readKey_end⟩
  have hkey {o : Except Fault (List Char × List Char)} :
      (o.map fun t => (some t.1, t.2)) ≠ .ok (none, r) := by cases o <;> simp [Except.map]
  unfold readKey at h
  split at h
  · cases h
  · cases h
    assumption
  · split at h
    · split at h
      · exact absurd h hkey
      · cases h
    · split at h
      · split at h
        · cases h
        · cases h
        · exact absurd h hkey
        · cases h
      · cases h

/-- Every key but the first follows a comma. -/
theorem readKey_eq_some_iff {key : List Char} : readKey isFirst cs = .ok (some key, r) ↔
    ∃ q p, (if isFirst then q = cs else skipBlank cs = ',' :: q) ∧ skipBlank q = '"' :: p ∧
      readText p = .ok (key, r) := by
  have hkey {p : List Char} :
      ((readText p).map fun t => (some t.1, t.2)) = .ok (some key, r) ↔
        readText p = .ok (key, r) := by
    cases readText p <;> simp [Except.map, Prod.ext_iff]
  cases isFirst with
  | true =>
    unfold readKey
    split
    · simp_all
    · simp_all
    · rename_i c p _ hp
      by_cases hc : c = '"'
      · simp [hc, hp, hkey]
      · simp [hc, hp]
  | false =>
    unfold readKey
    split
    · simp_all
    · simp_all
    · rename_i c q _ hq
      by_cases hc : c = ','
      · subst hc
        simp only [hq, List.cons.injEq, true_and, if_false, if_true, Bool.false_eq_true]
        split <;> simp_all
      · simp [hc, hq]

theorem peeks_readKey {key : List Char} (h : readKey isFirst cs = .ok (some key, r)) :
    Peeks (fun cs r => readKey isFirst cs = .ok (some key, r)) cs r := by
  obtain ⟨q, p, hq, hp, h⟩ := readKey_eq_some_iff.1 h
  have hcomma : Peeks (fun cs q => if isFirst then q = cs else skipBlank cs = ',' :: q) cs q := by
    cases isFirst with
    | true =>
      obtain rfl : q = cs := hq
      exact peeks_self fun _ _ => rfl
    | false => exact (closes_skipBlank hq).peeks
  refine (hcomma.seq ((closes_skipBlank hp).peeks.seq (peeks_readText h))).imp ?_
  rintro s r ⟨q, hq, p, hp, h⟩
  exact readKey_eq_some_iff.2 ⟨q, p, hq, hp, h⟩

theorem readMembers_found (hkey : readKey isFirst cs = .ok (none, r)) :
    readMembers f (some v) isFirst cs = .ok (v, r) := by
  rw [readMembers]
  split <;> rename_i hread <;> cases hread.symm.trans hkey
  rfl

/-- The members end with the bracket of their object. -/
theorem closes_readMembers (hf : Local f.read) (h : readMembers f found isFirst cs = .ok (v, r)) :
    Closes (fun cs r => readMembers f found isFirst cs = .ok (v, r)) cs r := by
  -- each member is a step, and the members after it close
  fun_induction readMembers f found isFirst cs with
  | case1 | case3 | case4 | case5 | case7 => cases h
  | case2 isFirst cs r hkey v =>
    cases h
    refine (closes_skipBlank (readKey_eq_none_iff.1 hkey)).imp fun hend => ?_
    exact readMembers_found (readKey_end hend)
  | case6 found isFirst cs q hfound w p hvalue hkey ih =>
    obtain rfl : found = none := by simpa using hfound
    obtain ⟨t, hcolon, hread⟩ := bind_eq_ok hvalue
    have hmember := (peeks_readKey hkey).seq ((peeks_skipColon hcolon).seq (hf hread))
    refine (hmember.closes (ih h)).imp ?_
    rintro s r ⟨p, ⟨q, hkey, t, hcolon, hread⟩, hnext⟩
    rw [readMembers_field hkey, hcolon]
    simp only [bind, Except.bind, hread, hnext]
  | case8 found isFirst cs key q hkey hne p hskip ih =>
    obtain ⟨t, hcolon, hskip⟩ := bind_eq_ok hskip
    have hmember := (peeks_readKey hkey).seq ((peeks_skipColon hcolon).seq (peeks_skipValue hskip))
    refine (hmember.closes (ih h)).imp ?_
    rintro s r ⟨p, ⟨q, hkey, t, hcolon, hskip⟩, hnext⟩
    rw [readMembers_other hkey hne (by rw [hcolon]; exact hskip), hnext]

end Members

/-! ### Records -/

section Records

variable {v : β}

theorem readElement_eq_ok_iff : readElement f cs = .ok (v, r) ↔ ∃ c p q, skipBlank cs = c :: p ∧
    c ≠ ']' ∧ f.read (c :: p) = .ok (v, q) ∧ skipBlank q = ']' :: r := by
  constructor
  · intro h
    unfold readElement at h
    split at h
    · cases h
    · cases h
    · rename_i hnil hend
      obtain ⟨⟨w, q⟩, hread, h⟩ := bind_eq_ok h
      simp only at h
      split at h
      · cases h
      · rename_i hbracket
        cases h
        cases hp : skipBlank cs with
        | nil => exact absurd hp hnil
        | cons c p =>
          refine ⟨c, p, q, rfl, ?_, hp ▸ hread, hbracket⟩
          rintro rfl
          exact hend p hp
      · split at h <;> cases h
      · cases h
  · rintro ⟨c, p, q, hp, hc, hread, hend⟩
    unfold readElement
    rw [hp]
    split
    · simp_all
    · simp_all
    · rw [hread]
      simp only [bind, Except.bind, hend]
      rfl

theorem closes_readElement (hf : Local f.read) (h : readElement f cs = .ok (v, r)) :
    Closes (fun cs r => readElement f cs = .ok (v, r)) cs r := by
  obtain ⟨c, p, q, hp, hc, hread, hend⟩ := readElement_eq_ok_iff.1 h
  refine (((peeks_skipBlank hp).seq (hf hread)).closes (closes_skipBlank hend)).imp ?_
  rintro s r ⟨q, ⟨_, ⟨hs, hhead⟩, hread⟩, hend⟩
  obtain ⟨p, rfl⟩ := List.head?_eq_some_iff.1 hhead
  exact readElement_eq_ok_iff.2 ⟨c, p, q, hs, hc, hread, hend⟩

/-- The record ends with its bracket. -/
theorem closes_readRecord (hf : Local f.read) (h : readRecord f cs = .ok (v, r)) :
    Closes (fun cs r => readRecord f cs = .ok (v, r)) cs r := by
  unfold readRecord at h
  split at h
  · rename_i hopen
    refine ((closes_skipBlank hopen).peeks.closes (closes_readMembers hf h)).imp ?_
    rintro s r ⟨p, hopen, h⟩
    rw [readRecord_object hopen, h]
  · rename_i hopen
    refine ((closes_skipBlank hopen).peeks.closes (closes_readElement hf h)).imp ?_
    rintro s r ⟨p, hopen, h⟩
    rw [readRecord_list hopen, h]
  · obtain ⟨⟨found, q⟩, -, h⟩ := bind_eq_ok h
    cases h

theorem skipBlank_eq_nil_iff : skipBlank cs = [] ↔ Blanks cs := by
  constructor
  · intro h
    obtain ⟨b, hb, hcs⟩ := exists_blanks cs
    rw [h, List.append_nil] at hcs
    exact hcs ▸ hb
  · intro h
    rw [← List.append_nil cs, skipBlank_append h]
    rfl

theorem readDocument_eq_ok_iff :
    readDocument f cs = .ok v ↔ ∃ r, readRecord f cs = .ok (v, r) ∧ Blanks r := by
  simp only [← skipBlank_eq_nil_iff]
  constructor
  · intro h
    obtain ⟨⟨w, r⟩, hrecord, h⟩ := bind_eq_ok h
    simp only at h
    split at h
    · cases h
      exact ⟨r, hrecord, ‹_›⟩
    · cases h
  · rintro ⟨r, hrecord, hr⟩
    rw [readDocument, hrecord]
    simp only [bind, Except.bind, hr]
    rfl

/-- A text that is read ends with a bracket and blanks, and what stands in place of these blanks is
read just if it is blanks as well. -/
theorem exists_bracket (hf : Local f.read) (h : readDocument f cs = .ok v) :
    ∃ u c b, isBlank c = false ∧ cs = u ++ c :: b ∧ Blanks b ∧
      ∀ s w, readDocument f (u ++ c :: s) = .ok w ↔ Blanks s ∧ w = v := by
  obtain ⟨b, hrecord, hb⟩ := readDocument_eq_ok_iff.1 h
  obtain ⟨u, c, hc, rfl, hu⟩ := closes_readRecord hf hrecord
  refine ⟨u, c, b, hc, rfl, hb, fun s w => ?_⟩
  rw [readDocument_eq_ok_iff, hu s]
  constructor
  · rintro ⟨r, hr, hblanks⟩
    cases hr
    exact ⟨hblanks, rfl⟩
  · rintro ⟨hblanks, rfl⟩
    exact ⟨s, rfl, hblanks⟩

theorem readDocument_append (hf : Local f.read) (h : readDocument f cs = .ok v) (t : List Char)
    (w : β) : readDocument f (cs ++ t) = .ok w ↔ Blanks t ∧ w = v := by
  obtain ⟨u, c, b, -, rfl, hb, hu⟩ := exists_bracket hf h
  have hblanks : Blanks (b ++ t) ↔ Blanks t := by
    simp only [Blanks, List.forall_mem_append]
    exact and_iff_right hb
  rw [List.append_assoc, List.cons_append, hu, hblanks]

/-- The part of a text that is cut off has to be blanks. -/
theorem readDocument_of_append (hf : Local f.read) {p q : List Char}
    (h : readDocument f (p ++ q) = .ok v) (w : β) :
    readDocument f p = .ok w ↔ Blanks q ∧ w = v := by
  constructor
  · intro hp
    obtain ⟨hq, rfl⟩ := (readDocument_append hf hp q v).1 h
    exact ⟨hq, rfl⟩
  · rintro ⟨hq, rfl⟩
    obtain ⟨u, c, b, hc, hcs, hb, hu⟩ := exists_bracket hf h
    have hnot : c ∉ q := fun hmem => by
      have hblank := isBlank_iff.2 (hq c hmem)
      rw [hc] at hblank
      cases hblank
    rcases List.append_eq_append_iff.1 hcs with ⟨a, rfl, rfl⟩ | ⟨a, rfl, ha⟩
    · exact absurd (List.mem_append_right a (.head b)) hnot
    · cases a with
      | nil =>
        obtain rfl : c :: b = q := ha
        exact absurd List.mem_cons_self hnot
      | cons d a =>
        obtain ⟨rfl, rfl⟩ := List.cons.inj ha
        rw [hu]
        exact ⟨fun x hx => hb x (List.mem_append_left q hx), rfl⟩

end Records

end ExpiringCache.Json

namespace ExpiringCache.Config

open Json

theorem parse_eq_ok_iff_readDocument {text : String} {c : Config} :
    Config.parse text = .ok c ↔ readDocument Config.field text.toList = .ok c.expireAfterMs := by
  rw [Config.parse, Json.parse]
  cases readDocument Config.field text.toList with
  | error e => constructor <;> intro h <;> cases h
  | ok n =>
    obtain ⟨m⟩ := c
    show Except.ok (Config.mk n) = .ok (Config.mk m) ↔ Except.ok n = .ok m
    rw [Except.ok.injEq, Except.ok.injEq, Config.mk.injEq]

/-- A text that configures can be continued by blanks and by nothing else, and it can be cut short
nowhere but in the blanks at its end; it then configures what it did before. -/
theorem parse_append_eq_ok_iff {text : String} {c : Config} (h : Config.parse text = .ok c) :
    (∀ more d, Config.parse (text ++ more) = .ok d ↔ Blanks more.toList ∧ d = c) ∧
    ∀ start more, start ++ more = text →
      ∀ d, Config.parse start = .ok d ↔ Blanks more.toList ∧ d = c := by
  have hlocal : Local Config.field.read := local_readInteger
  have hsame (d : Config) : d.expireAfterMs = c.expireAfterMs ↔ d = c := by
    obtain ⟨n⟩ := d
    obtain ⟨m⟩ := c
    simp
  rw [parse_eq_ok_iff_readDocument] at h
  refine ⟨fun more d => ?_, fun start more htext d => ?_⟩
  · rw [parse_eq_ok_iff_readDocument, String.toList_append, readDocument_append hlocal h, hsame]
  · rw [← htext, String.toList_append] at h
    rw [parse_eq_ok_iff_readDocument, readDocument_of_append hlocal h, hsame]

/-- A document with a member that is skipped, and a line feed at its end. -/
theorem parse_append_eq_ok_iff_nested :
    let cut := "\x7b\"tags\":[[\"]\"],\x7b\x7d],\"expire_after_ms\":-5"
    let text := cut ++ "\x7d\n"
    Config.parse text = .ok ⟨-5⟩ ∧ Config.parse (text ++ " \t") = .ok ⟨-5⟩ ∧
      (∀ d, Config.parse (text ++ "\x7d") ≠ .ok d) ∧ ∀ d, Config.parse cut ≠ .ok d := by
  intro cut text
  have hread : (Config.parse text).toOption = some ⟨-5⟩ := by decide +kernel
  have htext : Config.parse text = .ok ⟨-5⟩ := by
    cases hparse : Config.parse text with
    | error e => simp [hparse, Except.toOption] at hread
    | ok c => simpa [hparse, Except.toOption] using hread
  obtain ⟨hcontinued, hcut⟩ := parse_append_eq_ok_iff htext
  refine ⟨htext, (hcontinued _ _).2 ⟨by simp [Blanks], rfl⟩, fun d hd => ?_, fun d hd => ?_⟩
  · have hblanks := ((hcontinued _ d).1 hd).1
    simp [Blanks] at hblanks
  · have hblanks := ((hcut cut _ rfl d).1 hd).1
    simp [Blanks] at hblanks

end ExpiringCache.Config
