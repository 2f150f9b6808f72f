import ExpiringCache.Proofs.Skipping

/-! The one field of a record, read off the documents that hold it. An object holds it if
exactly one of its members has the key, however the keys are spelled and whatever the other
members are; a list holds it if it has no other element (`Value.Carries`). A reader that reads
the field's value off every text of it reads the record off every text of the record, and
refuses all the other documents (`parse_toOption`). -/

namespace ExpiringCache.Json

variable {β : Type}

/-- The value is a record whose field is `w`: an object with exactly one member of the key, or
a list of the field alone. -/
def Value.Carries (key : String) (v w : Value) : Prop :=
  (∃ ms, v = .object ms ∧ ms.filter (fun m => m.1 = key) = [(key, w)]) ∨ v = .list [w]

/-- The only one of several results, if there is one. -/
def sole : List (Option β) → Option β
  | [some b] => some b
  | _ => none

theorem sole_eq_some_iff {l : List (Option β)} {b : β} : sole l = some b ↔ l = [some b] := by
  constructor
  · intro h
    unfold sole at h
    split at h
    · cases h
      rfl
    · cases h
  · rintro rfl
    rfl

/-- What is read of the members that have the key. -/
def fieldsOf (key : String) (g : Value → Option β) (ms : List (String × Value)) :
    List (Option β) := (ms.filter fun m => m.1 = key).map fun m => g m.2

/-- The field of a record, its value read as `g` says. -/
def Value.fieldOf (key : String) (g : Value → Option β) : Value → Option β
  | .object ms => sole (fieldsOf key g ms)
  | .list vs => sole (vs.map g)
  | _ => none

theorem Value.fieldOf_eq_some_iff {key : String} {g : Value → Option β} {v : Value} {b : β} :
    v.fieldOf key g = some b ↔ ∃ w, v.Carries key w ∧ g w = some b := by
  cases v with
  | object ms =>
    rw [Value.fieldOf, sole_eq_some_iff, fieldsOf, List.map_eq_singleton_iff]
    constructor
    · rintro ⟨⟨k, w⟩, hms, hw⟩
      have hk : (k, w) ∈ ms.filter fun m => m.1 = key := by simp [hms]
      obtain rfl : k = key := by simpa using (List.mem_filter.1 hk).2
      exact ⟨w, .inl ⟨ms, rfl, hms⟩, hw⟩
    · rintro ⟨w, ⟨ms, h, hms⟩ | h, hw⟩
      · cases h
        exact ⟨(key, w), hms, hw⟩
      · cases h
  | list vs =>
    rw [Value.fieldOf, sole_eq_some_iff, List.map_eq_singleton_iff]
    constructor
    · rintro ⟨w, rfl, hw⟩
      exact ⟨w, .inr rfl, hw⟩
    · rintro ⟨w, ⟨ms, h, -⟩ | h, hw⟩
      · cases h
      · cases h
        exact ⟨w, rfl, hw⟩
  | _ =>
    constructor
    · intro h
      cases h
    · rintro ⟨w, ⟨ms, h, -⟩ | h, -⟩ <;> cases h

/-- The reader takes what `g` says off every text of a value, blanks before it included, and
leaves what follows; it refuses the values of which `g` says nothing. -/
def Reads (read : Reader β) (g : Value → Option β) : Prop :=
  ∀ ⦃v : Value⦄ ⦃a t r : List Char⦄, Blanks a → Spells (.value v) t → Ends r →
    (read (a ++ t ++ r)).toOption = (g v).map (·, r)

theorem toOption_bind {ε γ δ : Type} (x : Except ε γ) (k : γ → Except ε δ) :
    (x >>= k).toOption = x.toOption.bind fun c => (k c).toOption := by
  cases x <;> rfl

/-! ### Members -/

section Members

variable {f : Field β} {g : Value → Option β} {found : Option β} {isFirst : Bool}
  {cs q r : List Char}

theorem readKey_end (hcs : skipBlank cs = '\x7d' :: r) : readKey isFirst cs = .ok (none, r) := by
  rw [readKey, hcs]
  rfl

theorem readKey_first {key k : List Char} (hk : SpellsText key k)
    (hcs : skipBlank cs = '"' :: (k ++ '"' :: r)) : readKey true cs = .ok (some key, r) := by
  rw [readKey, hcs]
  simp [readText_append hk, Except.map]

/-- A comma stands before every key but the first. -/
theorem readKey_comma {u : List Char} (hcs : skipBlank cs = ',' :: u)
    (hu : skipBlank u = '"' :: r) : readKey false cs = readKey true u := by
  have hfirst : readKey true u = (readText r).map fun t => (some t.1, t.2) := by
    rw [readKey, hu]
    simp
  rw [hfirst, readKey, hcs]
  simp [hu]

theorem readMembers_end (hkey : readKey isFirst cs = .ok (none, r)) :
    (readMembers f found isFirst cs).toOption = found.map (·, r) := by
  rw [readMembers]
  split <;> rename_i hread <;> cases hread.symm.trans hkey
  cases found <;> rfl

theorem readMembers_other {key : List Char} (hkey : readKey isFirst cs = .ok (some key, q))
    (hne : key ≠ f.key.toList) (hskip : skipColon q >>= skipValue = .ok r) :
    readMembers f found isFirst cs = readMembers f found false r := by
  conv => lhs; rw [readMembers]
  split <;> rename_i hread <;> cases hread.symm.trans hkey
  rw [if_neg hne]
  split <;> simp_all

/-- The field's value is read if it was not read before. -/
theorem readMembers_field (hkey : readKey isFirst cs = .ok (some f.key.toList, q)) :
    readMembers f none isFirst cs =
      (skipColon q >>= f.read) >>= fun p => readMembers f (some p.1) false p.2 := by
  conv => lhs; rw [readMembers]
  split <;> rename_i hread <;> cases hread.symm.trans hkey
  rw [if_pos rfl, if_neg (by simp)]
  split <;> rename_i hvalue <;> rw [hvalue] <;> rfl

theorem readMembers_repeated (b : β) (hkey : readKey isFirst cs = .ok (some f.key.toList, q)) :
    (readMembers f (some b) isFirst cs).toOption = none := by
  rw [readMembers]
  split <;> rename_i hread <;> cases hread.symm.trans hkey
  simp [Except.toOption]

/-- After the key of a member its value is skipped, or it is read. -/
theorem readKey_member (hf : Reads f.read g) {m : String × Value} {t : List Char}
    (h : Spells (.member m) t) (hr : Ends r) :
    ∃ p q, readKey true (t ++ r) = .ok (some m.1.toList, p) ∧ skipBlank q = skipBlank r ∧
      (skipColon p >>= skipValue) = .ok q ∧
      (skipColon p >>= f.read).toOption = (g m.2).map (·, q) := by
  cases h with
  | @member key v a k b t ha hk hb h =>
    cases h with
    | @element _ d t e hd h he =>
      have hvalue : d ++ t ++ e ++ r = d ++ t ++ (e ++ r) := List.append_assoc _ _ _
      have hcolon := skipColon_append hb (d ++ t ++ e ++ r)
      have hends := hr.append he
      refine ⟨_, e ++ r, readKey_first hk (skipBlank_member ha _ r), skipBlank_append he r, ?_, ?_⟩
      · rw [hcolon, hvalue]
        exact skipValue_append hd h hends
      · rw [hcolon, hvalue]
        exact hf hd h hends

/-- A member under another key is skipped; under the key of the field, it is read if nothing
was found before it, and refused otherwise. -/
theorem readMembers_cons {m : String × Value} {ms : List (String × Value)} {p : List Char}
    (hread : readKey isFirst cs = .ok (some m.1.toList, p))
    (hskip : (skipColon p >>= skipValue) = .ok q)
    (hvalue : (skipColon p >>= f.read).toOption = (g m.2).map (·, q))
    (hnext : ∀ found, (readMembers f found false q).toOption =
      (sole (found.toList.map some ++ fieldsOf f.key g ms)).map (·, r)) :
    (readMembers f found isFirst cs).toOption =
      (sole (found.toList.map some ++ fieldsOf f.key g (m :: ms))).map (·, r) := by
  by_cases hm : m.1 = f.key
  · have hfields : fieldsOf f.key g (m :: ms) = g m.2 :: fieldsOf f.key g ms := by
      simp [fieldsOf, hm]
    rw [hm] at hread
    rw [hfields]
    cases found with
    | some b =>
      rw [readMembers_repeated b hread]
      rfl
    | none =>
      rw [readMembers_field hread, toOption_bind, hvalue]
      cases g m.2 with
      | none => rfl
      | some b => exact hnext (some b)
  · have hfields : fieldsOf f.key g (m :: ms) = fieldsOf f.key g ms := by
      simp [fieldsOf, hm]
    have hne : m.1.toList ≠ f.key.toList := fun h => hm (String.toList_inj.1 h)
    rw [hfields, readMembers_other hread hne hskip]
    exact hnext found

/-- The members of an object, after what has been found before them. -/
theorem readMembers_members (hf : Reads f.read g) {ms : List (String × Value)} {t : List Char}
    (h : Spells (.members ms) t) (r : List Char)
    (hkey : readKey isFirst cs = readKey true (t ++ '\x7d' :: r)) :
    (readMembers f found isFirst cs).toOption =
      (sole (found.toList.map some ++ fieldsOf f.key g ms)).map (·, r) := by
  induction ms generalizing found isFirst cs t with
  | nil => cases h
  | cons m ms ih =>
    cases h with
    | lastMember h =>
      have hends : Ends ('\x7d' :: r) := ends_cons (by decide) r
      obtain ⟨p, q, hread, hq, hskip, hvalue⟩ := readKey_member hf h hends
      refine readMembers_cons (hkey.trans hread) hskip hvalue fun found => ?_
      have hend : readKey false q = .ok (none, r) :=
        readKey_end (hq.trans (skipBlank_cons (by decide) r))
      rw [readMembers_end hend]
      cases found <;> rfl
    | @members _ n ms t u h hs =>
      have hends : Ends (',' :: (u ++ '\x7d' :: r)) := ends_cons (by decide) _
      obtain ⟨p, q, hread, hq, hskip, hvalue⟩ := readKey_member hf h hends
      rw [List.append_assoc, List.cons_append] at hkey
      refine readMembers_cons (hkey.trans hread) hskip hvalue fun found => ih hs ?_
      obtain ⟨w, hw⟩ := skipBlank_members hs
      exact readKey_comma (hq.trans (skipBlank_cons (by decide) _)) (hw _)

end Members

/-! ### Records -/

section Records

variable {f : Field β} {g : Value → Option β}

/-- Once the first element of a list is read, the list has to end. -/
theorem readElement_cons {cs p : List Char} {c : Char} (hcs : skipBlank cs = c :: p)
    (hc : c ≠ ']') {o : Option β} {q : List Char}
    (hread : (f.read (c :: p)).toOption = o.map (·, q)) :
    (∀ {r}, skipBlank q = ']' :: r → (readElement f cs).toOption = o.map (·, r)) ∧
      (∀ {r}, skipBlank q = ',' :: r → (readElement f cs).toOption = none) := by
  rw [readElement, hcs]
  split
  · simp_all
  · simp_all
  · rw [toOption_bind, hread]
    cases o with
    | none => exact ⟨fun _ => rfl, fun _ => rfl⟩
    | some b =>
      constructor
      · intro r hq
        simp only [Option.map_some, Option.bind_some, hq]
        rfl
      · intro r hq
        simp only [Option.map_some, Option.bind_some, hq]
        split <;> rfl

/-- The first element of a list is read, whatever stands after it. -/
theorem Reads.element (hf : Reads f.read g) {v : Value} {t r : List Char}
    (h : Spells (.element v) t) (hr : Ends r) :
    ∃ c p q, skipBlank (t ++ r) = c :: p ∧ c ≠ ']' ∧ skipBlank q = skipBlank r ∧
      (f.read (c :: p)).toOption = (g v).map (·, q) := by
  cases h with
  | @element _ a t b ha h hb =>
    have hread := hf blanks_nil h (hr.append hb)
    have hblank := skipBlank_value ha h (b ++ r)
    obtain ⟨c, p, rfl, hc, -⟩ := h.eq_cons
    refine ⟨c, p ++ (b ++ r), b ++ r, ?_, ?_, skipBlank_append hb r, hread⟩
    · rw [List.append_assoc, hblank, List.cons_append]
    · rintro rfl
      cases hc

/-- The elements of a list. -/
theorem readElement_elements (hf : Reads f.read g) {vs : List Value} {t : List Char}
    (h : Spells (.elements vs) t) (r : List Char) :
    (readElement f (t ++ ']' :: r)).toOption = (sole (vs.map g)).map (·, r) := by
  cases h with
  | @lastElement v _ h =>
    have hends : Ends (']' :: r) := ends_cons (by decide) r
    obtain ⟨c, p, q, hblank, hc, hq, hread⟩ := hf.element h hends
    rw [(readElement_cons hblank hc hread).1 (hq.trans (skipBlank_cons (by decide) r))]
    cases hg : g v <;> simp [hg, sole]
  | @elements v w vs t u h hs =>
    have hends : Ends (',' :: (u ++ ']' :: r)) := ends_cons (by decide) _
    obtain ⟨c, p, q, hblank, hc, hq, hread⟩ := hf.element h hends
    rw [List.append_assoc, List.cons_append,
      (readElement_cons hblank hc hread).2 (hq.trans (skipBlank_cons (by decide) _))]
    cases hg : g v <;> simp [hg, sole]

theorem readElement_blanks {a : List Char} (ha : Blanks a) (r : List Char) :
    (readElement f (a ++ ']' :: r)).toOption = none := by
  rw [readElement, skipBlank_append ha, skipBlank_cons (by decide)]
  rfl

theorem readRecord_list {cs r : List Char} (hcs : skipBlank cs = '[' :: r) :
    readRecord f cs = readElement f r := by
  rw [readRecord, hcs]
  rfl

theorem readRecord_object {cs r : List Char} (hcs : skipBlank cs = '\x7b' :: r) :
    readRecord f cs = readMembers f none true r := by
  rw [readRecord, hcs]
  rfl

/-- A record is read off a list or an object, and refused in place of any other value. -/
theorem readRecord_value (hf : Reads f.read g) {v : Value} {a t r : List Char} (ha : Blanks a)
    (h : Spells (.value v) t) :
    (readRecord f (a ++ t ++ r)).toOption = (v.fieldOf f.key g).map (·, r) := by
  have hblank := skipBlank_value ha h r
  have hclose (c d : Char) (u : List Char) : c :: u ++ [d] ++ r = c :: (u ++ d :: r) := by simp
  by_cases hv : v.IsNested
  · cases h with
    | null | boolean | integer | text => exact hv.elim
    | emptyList hb =>
      rw [readRecord_list (hblank.trans (hclose _ _ _))]
      exact readElement_blanks hb r
    | list h =>
      rw [readRecord_list (hblank.trans (hclose _ _ _))]
      exact readElement_elements hf h r
    | @emptyObject b hb =>
      have hend : skipBlank (b ++ '\x7d' :: r) = '\x7d' :: r := by
        rw [skipBlank_append hb, skipBlank_cons (by decide)]
      rw [readRecord_object (hblank.trans (hclose _ _ _))]
      exact readMembers_end (readKey_end hend)
    | object h =>
      rw [readRecord_object (hblank.trans (hclose _ _ _))]
      exact readMembers_members hf h r rfl
  · have hnone : v.fieldOf f.key g = none := by
      cases v with
      | list | object => exact absurd trivial hv
      | _ => rfl
    obtain ⟨c, u, rfl, -, hc⟩ := h.eq_cons
    rw [readRecord, hblank, hnone, List.cons_append]
    split
    · exact absurd (List.cons.inj ‹_›).1 (hc hv).2
    · exact absurd (List.cons.inj ‹_›).1 (hc hv).1
    · rw [toOption_bind]
      cases (readFound (c :: (u ++ r))).toOption <;> rfl

/-- A document is read as the field of the value that it holds. -/
theorem parse_toOption (hf : Reads f.read g) {v : Value} {text : String}
    (h : v.IsWrittenAs text) : (parse f text).toOption = v.fieldOf f.key g := by
  have hdocument : (readDocument f text.toList).toOption = v.fieldOf f.key g := by
    rw [Value.IsWrittenAs] at h
    generalize text.toList = cs at h
    cases h with
    | @element _ a t b ha h hb =>
      have hend : skipBlank b = [] := by
        rw [← List.append_nil b, skipBlank_append hb]
        rfl
      rw [readDocument, toOption_bind, readRecord_value hf ha h]
      cases v.fieldOf f.key g with
      | none => rfl
      | some x =>
        simp only [Option.map_some, Option.bind_some, hend]
        rfl
  rw [← hdocument, parse]
  cases readDocument f text.toList <;> rfl

/-- What is made of the field is read off the records that carry it, and off nothing else. -/
theorem map_parse_eq_ok_iff {γ : Type} {mk : β → γ} (hmk : Function.Injective mk)
    (hf : Reads f.read g) {v : Value} {text : String} (h : v.IsWrittenAs text) {b : β} :
    (parse f text).map mk = .ok (mk b) ↔ ∃ w, v.Carries f.key w ∧ g w = some b := by
  rw [← Value.fieldOf_eq_some_iff, ← parse_toOption hf h]
  cases parse f text with
  | error e => simp [Except.map, Except.toOption]
  | ok c =>
    constructor
    · intro hmap
      exact congrArg some (hmk (Except.ok.inj hmap))
    · intro hsome
      exact congrArg (fun b => Except.ok (mk b)) (Option.some.inj hsome)

end Records

end ExpiringCache.Json
