import ExpiringCache.Store.Basic

/-! What each operation of a store does to the entry found for a key. Two stores that
find the same entry for every key are equal (`ext_find?`). A sweep at an instant leaves
exactly the entries that have not expired then and reports the others (`sweep_eq`), and
purges account for every entry (`size_purgeEach`). -/

namespace ExpiringCache

universe u

variable {α : Type u}

theorem Entry.isExpired_iff {e : Entry α} {now : Int} :
    e.isExpired now = true ↔ e.expiresAt < now := by
  simp [Entry.isExpired]

namespace Store

section Keys

theorem key_injOn (s : Store α) {a b : String × Entry α} (ha : a ∈ s.bindings)
    (hb : b ∈ s.bindings) (h : a.1 = b.1) : a = b := by
  obtain ⟨bs, hs⟩ := s
  simp only at ha hb
  induction bs with
  | nil => cases ha
  | cons c cs ih =>
    rw [List.pairwise_cons] at hs
    rcases List.mem_cons.1 ha with rfl | ha' <;> rcases List.mem_cons.1 hb with rfl | hb'
    · rfl
    · exact absurd (h ▸ hs.1 b hb') (String.lt_irrefl _)
    · exact absurd (h ▸ hs.1 a ha') (String.lt_irrefl _)
    · exact ih hs.2 ha' hb'

theorem find?_eq_some_iff {s : Store α} {k : String} {e : Entry α} :
    s.find? k = some e ↔ (k, e) ∈ s.bindings := by
  unfold find?
  constructor
  · intro h
    obtain ⟨b, hb, rfl⟩ := Option.map_eq_some_iff.1 h
    obtain rfl : b.1 = k := by simpa using List.find?_some hb
    exact List.mem_of_find?_eq_some hb
  · intro h
    cases hf : s.bindings.find? fun b => b.1 == k with
    | none => simpa using List.find?_eq_none.1 hf _ h
    | some b =>
      have hk : b.1 = k := by simpa using List.find?_some hf
      rw [s.key_injOn (List.mem_of_find?_eq_some hf) h hk]
      rfl

theorem find?_eq_none_iff {s : Store α} {k : String} :
    s.find? k = none ↔ ∀ e, (k, e) ∉ s.bindings := by
  simp [Option.eq_none_iff_forall_ne_some, ← find?_eq_some_iff]

private theorem bindings_eq_of_mem_iff {l m : List (String × Entry α)}
    (hl : l.Pairwise fun a b => a.1 < b.1) (hm : m.Pairwise fun a b => a.1 < b.1)
    (h : ∀ b, b ∈ l ↔ b ∈ m) : l = m := by
  induction l generalizing m with
  | nil =>
    cases m with
    | nil => rfl
    | cons b m => exact absurd ((h b).2 (.head _)) (by simp)
  | cons a l ih =>
    cases m with
    | nil => exact absurd ((h a).1 (.head _)) (by simp)
    | cons b m =>
      rw [List.pairwise_cons] at hl hm
      have hab : a = b := by
        rcases List.mem_cons.1 ((h a).1 (.head _)) with rfl | ha
        · rfl
        rcases List.mem_cons.1 ((h b).2 (.head _)) with rfl | hb
        · rfl
        exact absurd (String.lt_trans (hm.1 a ha) (hl.1 b hb)) (String.lt_irrefl _)
      subst hab
      congr 1
      refine ih hl.2 hm.2 fun c => ⟨fun hc => ?_, fun hc => ?_⟩
      · rcases List.mem_cons.1 ((h c).1 (.tail _ hc)) with rfl | hc'
        · exact absurd (hl.1 c hc) (String.lt_irrefl _)
        · exact hc'
      · rcases List.mem_cons.1 ((h c).2 (.tail _ hc)) with rfl | hc'
        · exact absurd (hm.1 c hc) (String.lt_irrefl _)
        · exact hc'

/-- A store is what it finds for each key. -/
theorem ext_find? {s t : Store α} (h : ∀ k, s.find? k = t.find? k) : s = t := by
  refine eq_of_bindings (bindings_eq_of_mem_iff s.ordered t.ordered fun ⟨k, e⟩ => ?_)
  rw [← find?_eq_some_iff, ← find?_eq_some_iff, h k]

end Keys

section Operations

@[simp] theorem find?_empty (k : String) : (empty : Store α).find? k = none := rfl

@[simp] theorem size_empty : (empty : Store α).size = 0 := rfl

theorem mem_filter {s : Store α} {p : String × Entry α → Bool} {b : String × Entry α} :
    b ∈ (s.filter p).bindings ↔ b ∈ s.bindings ∧ p b = true := List.mem_filter

theorem find?_filter (s : Store α) (p : String × Entry α → Bool) (k : String) :
    (s.filter p).find? k = (s.find? k).filter fun e => p (k, e) := by
  ext e
  rw [find?_eq_some_iff, mem_filter, Option.filter_eq_some_iff, find?_eq_some_iff]

theorem find?_erase (s : Store α) (k j : String) :
    (s.erase k).find? j = if j = k then none else s.find? j := by
  rw [erase, find?_filter]
  by_cases h : j = k <;> cases s.find? j <;> simp [h]

theorem find?_insert (s : Store α) (k j : String) (e : Entry α) :
    (s.insert k e).find? j = if j = k then some e else s.find? j := by
  ext f
  rw [find?_eq_some_iff]
  simp only [insert, List.mem_append, List.mem_cons, List.mem_filter, Prod.mk.injEq,
    decide_eq_true_eq]
  by_cases h : j = k
  · subst h
    simp [eq_comm]
  · have hlt : j < k ∨ k < j := by
      by_cases hjk : j < k
      · exact .inl hjk
      · exact .inr (Decidable.byContradiction fun hkj =>
          h (String.le_antisymm (String.not_lt.1 hkj) (String.not_lt.1 hjk)))
    simp only [h, false_and, false_or, if_false, ← find?_eq_some_iff, ← and_or_left]
    exact and_iff_left hlt

/-- The last entry that is put in for a key counts. -/
theorem insert_insert (s : Store α) (k : String) (e f : Entry α) :
    (s.insert k e).insert k f = s.insert k f := by
  refine ext_find? fun j => ?_
  rw [find?_insert, find?_insert, find?_insert]
  split <;> rfl

theorem insert_comm (s : Store α) {k j : String} (h : j ≠ k) (e f : Entry α) :
    (s.insert k e).insert j f = (s.insert j f).insert k e := by
  refine ext_find? fun i => ?_
  rw [find?_insert, find?_insert, find?_insert, find?_insert]
  by_cases hi : i = j
  · have hk : i ≠ k := fun hk => h (hi.symm.trans hk)
    rw [if_pos hi, if_neg hk, if_pos hi]
  · rw [if_neg hi, if_neg hi]

theorem bindings_filter_key (s : Store α) (k : String) :
    s.bindings.filter (·.1 == k) = (s.find? k).toList.map fun e => (k, e) := by
  refine bindings_eq_of_mem_iff (s.ordered.filter _) ?_ fun ⟨j, e⟩ => ?_
  · cases s.find? k <;> simp
  · cases h : s.find? k with
    | none => simpa [← find?_eq_some_iff] using fun h' => by rintro rfl; simp_all
    | some f =>
      simp only [List.mem_filter, ← find?_eq_some_iff, beq_iff_eq, Option.toList_some,
        List.map_cons, List.map_nil, List.mem_singleton, Prod.mk.injEq]
      constructor
      · rintro ⟨h', rfl⟩
        exact ⟨rfl, by simp_all⟩
      · rintro ⟨rfl, rfl⟩
        exact ⟨h, rfl⟩

theorem size_erase_add (s : Store α) (k : String) :
    (s.find? k).toList.length + (s.erase k).size = s.size := by
  have h := congrArg List.length (s.bindings_filter_key k)
  rw [List.length_map] at h
  rw [← h, size, size, ← List.length_append]
  exact (List.filter_append_perm (·.1 == k) s.bindings).length_eq

theorem look_eq_live_iff {s : Store α} {k : String} {now : Int} {v : α} :
    s.look k now = .live v ↔ ∃ e, s.find? k = some e ∧ now ≤ e.expiresAt ∧ e.value = v := by
  unfold look
  cases s.find? k with
  | none => simp
  | some e =>
    by_cases h : e.expiresAt < now
    · simp [Entry.isExpired, h, Int.not_le.2 h]
    · simp [Entry.isExpired, h, Int.not_lt.1 h]

theorem look_eq_expired_iff {s : Store α} {k : String} {now t : Int} :
    s.look k now = .expired t ↔
      ∃ e, s.find? k = some e ∧ e.expiresAt < now ∧ e.expiresAt = t := by
  unfold look
  cases s.find? k with
  | none => simp
  | some e => by_cases h : e.expiresAt < now <;> simp [Entry.isExpired, h]

theorem look_eq_absent_iff {s : Store α} {k : String} {now : Int} :
    s.look k now = .absent ↔ s.find? k = none := by
  unfold look
  cases s.find? k with
  | none => simp
  | some e => by_cases h : e.isExpired now = true <;> simp [h]

/-- The marks are the requests for what looks expired. -/
theorem mem_mark_iff {s : Store α} {now : Int} {p : Purge} :
    p ∈ s.mark now ↔ s.look p.key now = .expired p.token := by
  rw [look_eq_expired_iff, mark, List.mem_map]
  constructor
  · rintro ⟨⟨k, e⟩, hb, rfl⟩
    obtain ⟨hb, he⟩ := List.mem_filter.1 hb
    exact ⟨e, find?_eq_some_iff.2 hb, Entry.isExpired_iff.1 he, rfl⟩
  · rintro ⟨e, hb, he, ht⟩
    exact ⟨(p.key, e), List.mem_filter.2 ⟨find?_eq_some_iff.1 hb, Entry.isExpired_iff.2 he⟩,
      by rw [ht]⟩

end Operations

section Removal

theorem target?_eq_some_iff {s : Store α} {p : Purge} {e : Entry α} :
    s.target? p = some e ↔ s.find? p.key = some e ∧ e.expiresAt = p.token := by
  simp [target?, Option.filter_eq_some_iff]

/-- A purge removes the entry it was made for and nothing else. -/
theorem find?_purge (s : Store α) (p : Purge) (k : String) :
    (s.purge p).find? k = (s.find? k).filter fun e => ¬(k = p.key ∧ e.expiresAt = p.token) := by
  unfold purge
  cases h : s.target? p with
  | none =>
    ext e
    rw [Option.isSome_none, if_neg (by simp), Option.filter_eq_some_iff, decide_eq_true_iff]
    refine ⟨fun he => ⟨he, ?_⟩, fun he => he.1⟩
    rintro ⟨rfl, ht⟩
    exact Option.some_ne_none e ((target?_eq_some_iff.2 ⟨he, ht⟩).symm.trans h)
  | some f =>
    rw [target?_eq_some_iff] at h
    rw [Option.isSome_some, if_pos rfl, find?_erase]
    by_cases hk : k = p.key
    · subst hk
      simp [h, Option.filter]
    · cases s.find? k <;> simp [hk, Option.filter]

/-- What a purge removes and what it leaves adds up. -/
theorem size_purge (s : Store α) (p : Purge) :
    (s.target? p).toList.length + (s.purge p).size = s.size := by
  unfold purge
  cases h : s.target? p with
  | none => simp
  | some e =>
    rw [target?_eq_some_iff] at h
    simpa [h.1] using s.size_erase_add p.key

theorem purge_eq_self_iff {s : Store α} {p : Purge} : s.purge p = s ↔ s.target? p = none := by
  constructor
  · intro hsame
    have hsize := s.size_purge p
    rw [hsame] at hsize
    exact Option.toList_eq_nil_iff.1 (List.eq_nil_of_length_eq_zero (by omega))
  · intro hnone
    simp [purge, hnone]

theorem size_purgeEach (s : Store α) (ps : List Purge) :
    (s.purgeEach ps).1.length + (s.purgeEach ps).2.size = s.size := by
  induction ps generalizing s with
  | nil => simp [purgeEach]
  | cons p ps ih =>
    have hp := s.size_purge p
    have hr := ih (s.purge p)
    simp only [purgeEach, List.length_append, Option.toList_map, List.length_map]
    omega

theorem purgeEach_snd_eq_of_fst_eq_nil {s : Store α} {ps : List Purge}
    (h : (s.purgeEach ps).1 = []) : (s.purgeEach ps).2 = s := by
  induction ps generalizing s with
  | nil => rfl
  | cons p ps ih =>
    rw [purgeEach, List.append_eq_nil_iff, Option.toList_eq_nil_iff, Option.map_eq_none_iff] at h
    rw [purgeEach, ih h.2, purge_eq_self_iff.2 h.1]

/-- Purges remove the entries that they were made for and nothing else. -/
theorem find?_purgeEach (s : Store α) (ps : List Purge) (k : String) :
    (s.purgeEach ps).2.find? k = (s.find? k).filter fun e => ⟨k, e.expiresAt⟩ ∉ ps := by
  induction ps generalizing s with
  | nil => cases h : s.find? k <;> simp [purgeEach, h, Option.filter]
  | cons p ps ih =>
    rw [purgeEach, ih, find?_purge]
    cases s.find? k with
    | none => rfl
    | some e =>
      have hp : (⟨k, e.expiresAt⟩ : Purge) = p ↔ k = p.key ∧ e.expiresAt = p.token := by
        cases p
        simp
      by_cases h : k = p.key ∧ e.expiresAt = p.token <;> simp [Option.filter, hp, h]

private theorem purgeEach_of_forall_mem (l : List (String × Entry α)) (s : Store α)
    (hl : l.Pairwise fun a b => a.1 < b.1) (hs : ∀ b ∈ l, b ∈ s.bindings) :
    (s.purgeEach (l.map fun b => ⟨b.1, b.2.expiresAt⟩)).1 = l ∧
      ∀ k, (s.purgeEach (l.map fun b => ⟨b.1, b.2.expiresAt⟩)).2.find? k =
        if k ∈ l.map (·.1) then none else s.find? k := by
  induction l generalizing s with
  | nil => exact ⟨rfl, fun k => rfl⟩
  | cons b l ih =>
    obtain ⟨k, e⟩ := b
    rw [List.pairwise_cons] at hl
    have hfind : s.find? k = some e := find?_eq_some_iff.2 (hs _ (.head _))
    have htarget : s.target? ⟨k, e.expiresAt⟩ = some e := target?_eq_some_iff.2 ⟨hfind, rfl⟩
    have hpurge : s.purge ⟨k, e.expiresAt⟩ = s.erase k := by simp [purge, htarget]
    obtain ⟨ih₁, ih₂⟩ := ih (s.erase k) hl.2 fun b hb => by
      rw [erase, mem_filter]
      refine ⟨hs b (.tail _ hb), ?_⟩
      have := hl.1 b hb
      simp only [bne_iff_ne, ne_eq]
      rintro rfl
      exact String.lt_irrefl _ this
    simp only [List.map_cons, purgeEach, htarget, hpurge, Option.map_some, Option.toList_some,
      List.singleton_append, ih₁, true_and, ih₂, find?_erase, List.mem_cons]
    intro j
    by_cases hj : j = k
    · simp [hj]
    · simp only [hj, false_or, if_false]

/-- A sweep removes the expired entries, in the order of their keys, and nothing else. -/
theorem sweep_eq (s : Store α) (now : Int) :
    s.sweep now = (s.bindings.filter (·.2.isExpired now), s.filter (!·.2.isExpired now)) := by
  obtain ⟨h₁, h₂⟩ := purgeEach_of_forall_mem (s.bindings.filter (·.2.isExpired now)) s
    (s.ordered.filter _) fun b hb => (List.mem_filter.1 hb).1
  refine Prod.ext h₁ (ext_find? fun k => ?_)
  have hmem : k ∈ (s.bindings.filter (·.2.isExpired now)).map (·.1) ↔
      ∃ e, s.find? k = some e ∧ e.isExpired now = true := by
    simp [find?_eq_some_iff]
  rw [sweep, mark, h₂, find?_filter]
  simp only [hmem]
  cases s.find? k with
  | none => simp
  | some e => cases he : e.isExpired now <;> simp [he, Option.filter]

end Removal

end Store

end ExpiringCache
