import ExpiringCache.Proofs.Lookups

/-! Deadlines at the end of the range of instants. A deadline that no instant can hold falls
back to a century, and to nothing at all where that is out of range too (`ceiling`). It stays
in range, it never lies in the past, and an entry lasts for what was promised up to a century
(`deadlines_stay_in_range`). What saturates so is not monotone: the exact sum may lie far past
the ceiling, so that a longer lifetime, or a later write, can end sooner. It does so at the
borders of the range only, and no load is ever cut short by it (`expiry_falls_iff`). -/

namespace ExpiringCache

universe u

variable {α : Type u}

namespace Time

/-- Where the deadlines of an instant saturate. -/
def ceiling (now : Int) : Int := if now + century ≤ latest then now + century else now

/-- What does not fit falls to the ceiling, also where it is less than a century: a century
does not fit then either. -/
theorem deadline_eq_ceiling {now : Int} {after : Nat} (h : latest < now + after) :
    deadline now after = ceiling now := by
  rw [deadline, ceiling, if_neg (Int.not_le.2 h)]
  by_cases hlong : century ≤ after
  · rw [Nat.min_eq_right hlong]
  · rw [Nat.min_eq_left (Nat.le_of_not_le hlong), if_neg (Int.not_le.2 h), if_neg (by omega)]

/-- A deadline is at least as far off as was asked for, up to a century. -/
theorem add_min_le_deadline {now : Int} {after : Nat}
    (h : now + (min after century : Nat) ≤ latest) :
    now + (min after century : Nat) ≤ deadline now after := by
  by_cases hfits : now + after ≤ latest
  · rw [deadline_eq_add hfits]
    omega
  · have hcentury : deadline now after = now + (min after century : Nat) := by
      rw [deadline, if_neg hfits, if_pos h]
    exact Int.le_of_eq hcentury.symm

/-- Asking for more gives less just if what was asked for before fitted and lay past the
ceiling, and what is asked for now does not fit. -/
theorem deadline_lt_iff_of_le_after {now : Int} {a b : Nat} (h : a ≤ b) :
    deadline now b < deadline now a ↔
      now + a ≤ latest ∧ latest < now + b ∧ ceiling now < now + a := by
  by_cases hb : now + b ≤ latest
  · rw [deadline_eq_add hb, deadline_eq_add (by omega)]
    omega
  · have hb := Int.not_le.1 hb
    rw [deadline_eq_ceiling hb]
    by_cases ha : now + a ≤ latest
    · rw [deadline_eq_add ha]
      exact ⟨fun hlt => ⟨ha, hb, hlt⟩, fun ⟨_, _, hlt⟩ => hlt⟩
    · rw [deadline_eq_ceiling (Int.not_le.1 ha)]
      exact ⟨fun hlt => absurd hlt (Int.lt_irrefl _), fun ⟨hfits, _⟩ => absurd hfits ha⟩

/-- The ceiling falls just where a century ceases to fit. -/
theorem ceiling_lt_ceiling_iff {n₁ n₂ : Int} (h : n₁ ≤ n₂) : ceiling n₂ < ceiling n₁ ↔
    n₁ + century ≤ latest ∧ latest < n₂ + century ∧ n₂ < n₁ + century := by
  unfold ceiling
  split <;> split <;> omega

/-- The borders at which the deadline of a lifetime `d` falls when it is counted from `n₂`
instead of `n₁`: the exact sum fits no more and was past the ceiling, or it fitted neither time
and a century fits no more. -/
def Falls (n₁ n₂ : Int) (d : Nat) : Prop :=
  n₁ + d ≤ latest ∧ latest < n₂ + d ∧ ceiling n₂ < n₁ + d ∨
    latest < n₁ + d ∧ n₁ + century ≤ latest ∧ latest < n₂ + century ∧ n₂ < n₁ + century

theorem deadline_lt_iff_of_le_now {n₁ n₂ : Int} {d : Nat} (h : n₁ ≤ n₂) :
    deadline n₂ d < deadline n₁ d ↔ Falls n₁ n₂ d := by
  by_cases h₁ : n₁ + d ≤ latest
  · rw [deadline_eq_add h₁]
    by_cases h₂ : n₂ + d ≤ latest
    · rw [deadline_eq_add h₂, Falls]
      omega
    · rw [deadline_eq_ceiling (Int.not_le.1 h₂), Falls]
      omega
  · rw [deadline_eq_ceiling (Int.not_le.1 h₁), deadline_eq_ceiling (by omega),
      ceiling_lt_ceiling_iff h, Falls]
    omega

end Time

namespace Cache

/-- What a load writes counts from the end of the loader. -/
theorem find?_of_wrote_mem_loadDeeds {c : Cache α} {j k : String} {l : Loader α} {v : α} {w : Int}
    (h : .wrote k v w ∈ c.loadDeeds j l) : c.clock ≤ w ∧
      (c.lockedLoad j l).2.store.find? k = some ⟨v, Time.deadline w c.ttl⟩ ∧ c.live k = none := by
  obtain ⟨rfl, hlive, houtcome, rfl⟩ := wrote_mem_loadDeeds_iff.1 h
  refine ⟨by omega, ?_, hlive⟩
  rw [lockedLoad_of_live_eq_none l hlive, houtcome]
  exact (find?_set _ _ _ _).trans (if_pos rfl)

/-- An act that writes puts in an entry that counts from the instant of the write, and it is a
set, or a load that finds nothing live. -/
theorem find?_of_wrote_mem_deeds {c : Cache α} {a : Act α} {k : String} {v : α} {w : Int}
    (h : .wrote k v w ∈ c.deeds a) :
    c.clock ≤ w ∧ (c.act a).2.store.find? k = some ⟨v, Time.deadline w c.ttl⟩ ∧
      (a = .set k v ∨ c.live k = none) := by
  cases a with
  | set j u =>
    cases List.mem_singleton.1 h
    exact ⟨Int.le_refl _, (find?_set _ _ _ _).trans (if_pos rfl), .inl rfl⟩
  | lookup j => simp [deeds, lookDeeds] at h
  | load j l =>
    have hmem : .wrote k v w ∈ (c.lookup j).2.loadDeeds j l :=
      (List.mem_append.1 h).resolve_right (by simp [lookDeeds])
    obtain ⟨hw, hfind, hlive⟩ := find?_of_wrote_mem_loadDeeds hmem
    rw [clock_lookup] at hw
    rw [ttl_lookup] at hfind
    rw [live_lookup] at hlive
    rw [act, load_eq_lockedLoad]
    exact ⟨hw, hfind, .inr hlive⟩
  | lockedLoad j l =>
    obtain ⟨hw, hfind, hlive⟩ := find?_of_wrote_mem_loadDeeds h
    exact ⟨hw, hfind, .inr hlive⟩
  | clear => simp [deeds] at h
  | advance d => cases h

end Cache

namespace Recorded

open Time (latest century deadline)

/-! ### When entries were written -/

/-- Nothing on record was written later than now. -/
def Dated (r : Recorded α) : Prop := ∀ k v w, .wrote k v w ∈ r.past → w ≤ r.cache.clock

theorem Dated.append {q r : Recorded α} (h : q.Dated) {ds : List (Deed α)}
    (hpast : r.past = ds ++ q.past) (hclock : q.cache.clock ≤ r.cache.clock)
    (hds : ∀ k v w, .wrote k v w ∈ ds → w ≤ r.cache.clock) : r.Dated := by
  intro k v w hmem
  rw [hpast] at hmem
  rcases List.mem_append.1 hmem with hmem | hmem
  · exact hds k v w hmem
  · exact Int.le_trans (h k v w hmem) hclock

theorem Dated.act {r : Recorded α} (h : r.Dated) (a : Act α) : (r.act a).Dated := by
  refine act_induction (fun r k v h => ?_) (fun r k h => ?_) (fun r h => ?_) (fun r d h => ?_) r a h
  · refine h.append rfl (Int.le_refl _) fun j u w hmem => ?_
    cases List.mem_singleton.1 hmem
    exact Int.le_refl _
  · refine h.append rfl (Int.le_of_eq (Cache.clock_lookup _ k).symm) fun j u w hmem => ?_
    simp [Cache.deeds, Cache.lookDeeds] at hmem
  · exact h.append rfl (Int.le_refl _) fun j u w hmem => by cases List.mem_singleton.1 hmem
  · refine h.append (List.nil_append _).symm ?_ fun j u w hmem => by cases hmem
    show r.cache.clock ≤ r.cache.clock + d
    omega

theorem Dated.move {r : Recorded α} (h : r.Dated) (m : Move α) : (r.move m).Dated := by
  refine move_induction (fun _ a h => h.act a) (fun r ago h => ?_) (fun _ h => h)
    (fun _ _ _ _ h => h) (fun _ h => h) r m h
  refine h.append rfl (Int.le_refl _) fun j u w hmem => ?_
  simp [deeds] at hmem

theorem dated_run (ttl : Nat) (begun : Int) (ms : List (Move α)) :
    ((start ttl begun).run ms).Dated :=
  run_induction (fun _ m h => h.move m) (fun _ _ _ h => nomatch h) ms

/-- A stored entry was written by the last write of its key, at an instant that is past. -/
theorem exists_written (ttl : Nat) (begun : Int) (ms : List (Move α)) {k : String} {e : Entry α}
    (h : ((start ttl begun).run ms).cache.store.find? k = some e) :
    ∃ w, Deed.lastWrite ((start ttl begun).run ms).past k = some (e.value, w) ∧
      w ≤ ((start ttl begun).run ms).cache.clock ∧ e.expiresAt = deadline w ttl := by
  have hlast := (faithful_run ttl begun ms).stored k e h
  obtain ⟨⟨v, w⟩, hw, rfl⟩ := Option.map_eq_some_iff.1 hlast
  refine ⟨w, hw, dated_run ttl begun ms k v w (Deed.mem_of_lastWrite_eq_some hw), ?_⟩
  rw [ttl_run]
  rfl

/-! ### Bounds -/

/-- An instant has deadlines in range, none of them in the past or past the exact sum. They
are exact where the sum fits, and as far off as a century where that much of it fits. So an
entry is found for its lifetime, or for a century of it, and an hour or more before the end of
the range the next sweep of a cache is always to come, within an hour and within half a
lifetime. -/
theorem deadlines_stay_in_range (α : Type u) {now : Int} (h : Time.IsInstant now) :
    (∀ after : Nat,
      Time.IsInstant (deadline now after) ∧ now ≤ deadline now after ∧
      deadline now after ≤ now + after ∧
      (now + after ≤ latest → deadline now after = now + after) ∧
      (now + (min after century : Nat) ≤ latest →
        now + (min after century : Nat) ≤ deadline now after)) ∧
    (∀ (ttl : Nat) (begun : Int) (ms : List (Move α)) (k : String) (v : α),
      let r := (start ttl begun).run ms
      Deed.lastWrite r.past k = some (v, now) → now + (min ttl century : Nat) ≤ latest →
      r.cache.clock ≤ now + (min ttl century : Nat) → (r.cache.lookup k).1 = some v) ∧
    (now + Sweeper.longestInterval ≤ latest → ∀ ttl : Nat,
      let next := deadline now (Sweeper.intervalFor ttl)
      now < next ∧ next ≤ now + Sweeper.longestInterval ∧
        (2 ≤ ttl → next ≤ now + (ttl / 2 : Nat))) := by
  refine ⟨fun after => ?_, fun ttl begun ms k v => ?_, fun hroom ttl => ?_⟩
  · exact ⟨Time.deadline_isInstant h after, Time.le_deadline now after,
      Time.deadline_le_add now after, Time.deadline_eq_add, Time.add_min_le_deadline⟩
  · intro r hwritten hfits hclock
    have hr : r.Faithful := faithful_run ttl begun ms
    have httl : r.cache.ttl = ttl := ttl_run _ ms
    rw [hr.lookup_eq_some_iff, httl]
    exact ⟨now, hwritten, Int.le_trans hclock (Time.add_min_le_deadline hfits)⟩
  · intro next
    have hpos := Sweeper.intervalFor_pos ttl
    have hle := Sweeper.intervalFor_le ttl
    have hnext : next = now + Sweeper.intervalFor ttl := Time.deadline_eq_add (by omega)
    refine ⟨by omega, by omega, fun httl => ?_⟩
    have hhalf := Sweeper.intervalFor_le_half httl
    omega

/-- An hour before the end of the range, and the longest lifetime there is. -/
theorem deadlines_stay_in_range_last_hour :
    let now : Int := latest - Sweeper.longestInterval
    let r := (start 1000 now : Recorded Nat).run [.act (.set "k" 1), .act (.advance 1000)]
    let next := deadline now (Sweeper.intervalFor Time.longest)
    Time.IsInstant (deadline now Time.longest) ∧ (r.cache.lookup "k").1 = some 1 ∧
      now < next ∧ next ≤ now + Sweeper.longestInterval := by
  intro now r next
  have hnow : Time.IsInstant now := by decide +kernel
  obtain ⟨hbounds, hfound, hsweeps⟩ := deadlines_stay_in_range Nat hnow
  obtain ⟨hlater, hsoon, -⟩ := hsweeps (by decide +kernel) Time.longest
  refine ⟨(hbounds Time.longest).1, ?_, hlater, hsoon⟩
  exact hfound 1000 now [.act (.set "k" 1), .act (.advance 1000)] "k" 1 (by decide +kernel)
    (by decide +kernel) (by decide +kernel)

/-! ### Falls -/

/-- An expiry falls only at the borders of the range. Of two entries written at the same instant
the one that lives longer expires earlier just if the other's lifetime fitted and went past
the ceiling and its own does not fit. In every run, what replaces an entry of its key expires
earlier just at the borders that lie between the two writes; and if it is loaded, the entry
had expired, and the new one expires later. -/
theorem expiry_falls_iff (α : Type u) :
    (∀ (now : Int) (a b : Nat), a ≤ b → (deadline now b < deadline now a ↔
      now + a ≤ latest ∧ latest < now + b ∧ Time.ceiling now < now + a)) ∧
    (∀ (a b : Nat) (begun begun' : Int) (ms ns : List (Move α)) (k j : String) (u v : α) (w : Int)
        (e f : Entry α), a ≤ b →
      let q := (start a begun).run ms
      let r := (start b begun').run ns
      Deed.lastWrite q.past k = some (u, w) → q.cache.store.find? k = some e →
      Deed.lastWrite r.past j = some (v, w) → r.cache.store.find? j = some f →
      (f.expiresAt < e.expiresAt ↔
        w + a ≤ latest ∧ latest < w + b ∧ Time.ceiling w < w + a)) ∧
    (∀ (n₁ n₂ : Int) (d : Nat), n₁ ≤ n₂ →
      (deadline n₂ d < deadline n₁ d ↔ Time.Falls n₁ n₂ d)) ∧
    (∀ (ttl : Nat) (begun : Int) (ms : List (Move α)) (a : Act α) (k : String) (v : α) (w : Int)
        (e : Entry α),
      let q := (start ttl begun).run ms
      .wrote k v w ∈ q.cache.deeds a → q.cache.store.find? k = some e →
      ∃ w₀ f, Deed.lastWrite q.past k = some (e.value, w₀) ∧ w₀ ≤ w ∧
        (q.act a).cache.store.find? k = some f ∧ f.value = v ∧
        (f.expiresAt < e.expiresAt ↔ Time.Falls w₀ w ttl) ∧
        (a ≠ .set k v → e.expiresAt < q.cache.clock ∧ e.expiresAt < f.expiresAt)) := by
  refine ⟨fun _ _ _ => Time.deadline_lt_iff_of_le_after, ?_,
    fun _ _ _ => Time.deadline_lt_iff_of_le_now, ?_⟩
  · intro a b begun begun' ms ns k j u v w e f hab q r hq he hr hf
    obtain ⟨_, hw, -, he⟩ := exists_written a begun ms he
    cases hq.symm.trans hw
    obtain ⟨_, hw, -, hf⟩ := exists_written b begun' ns hf
    cases hr.symm.trans hw
    rw [he, hf]
    exact Time.deadline_lt_iff_of_le_after hab
  · intro ttl begun ms a k v w e q hwrote he
    obtain ⟨w₀, hw₀, hpast, hexpiry⟩ := exists_written ttl begun ms he
    obtain ⟨hw, hfind, hwhy⟩ := Cache.find?_of_wrote_mem_deeds hwrote
    have httl : q.cache.ttl = ttl := ttl_run _ ms
    rw [httl] at hfind
    have hle : w₀ ≤ w := Int.le_trans hpast hw
    refine ⟨w₀, _, hw₀, hle, hfind, rfl, ?_, fun hload => ?_⟩
    · rw [hexpiry]
      exact Time.deadline_lt_iff_of_le_now hle
    · -- no border is needed here: the entry had expired before the loader began
      have hexpired := Cache.live_eq_none_iff.1 (hwhy.resolve_left hload) e he
      have hlater : q.cache.clock ≤ deadline w ttl := Int.le_trans hw (Time.le_deadline w ttl)
      exact ⟨hexpired, Int.lt_of_lt_of_le hexpired hlater⟩

/-- A lifetime that reaches to the end of the range, counted from zero: one that is longer by
the least ends sooner, and so does the same lifetime counted from an instant later. A set
that replaces a live entry cuts it short. -/
theorem set_cuts_short :
    let ttl := 9223372036854775807999999999
    let q := (start ttl 0 : Recorded Nat).run [.act (.set "k" 1), .act (.advance 1)]
    (Time.IsInstant 0 ∧ Time.IsInstant 1 ∧ Time.IsDuration (ttl + 1)) ∧
      deadline 0 (ttl + 1) < deadline 0 ttl ∧ deadline 1 ttl < deadline 0 ttl ∧
      q.cache.live "k" = some ⟨1, latest⟩ ∧
      (q.act (.set "k" 2)).cache.store.find? "k" = some ⟨2, 1 + century⟩ ∧
      1 + century < latest := by
  decide +kernel

/-- A load that meets an expired entry puts in one that expires later. -/
theorem expiry_falls_iff_reloaded :
    let q := (start 5 0 : Recorded Nat).run [.act (.set "k" 1), .act (.advance 6)]
    let l : Loader Nat := ⟨3, .value 2⟩
    .wrote "k" 2 9 ∈ q.cache.deeds (.load "k" l) ∧ q.cache.store.find? "k" = some ⟨1, 5⟩ ∧
      ∃ f, (q.act (.load "k" l)).cache.store.find? "k" = some f ∧ f.value = 2 ∧
        5 < f.expiresAt := by
  intro q l
  have hwrote : .wrote "k" 2 9 ∈ q.cache.deeds (.load "k" l) := by decide
  have hfind : q.cache.store.find? "k" = some ⟨1, 5⟩ := by decide
  obtain ⟨-, -, -, hruns⟩ := expiry_falls_iff Nat
  obtain ⟨w₀, f, -, -, hafter, hvalue, -, hload⟩ := hruns 5 0 _ _ "k" 2 9 ⟨1, 5⟩ hwrote hfind
  exact ⟨hwrote, hfind, f, hafter, hvalue, (hload nofun).2⟩

end Recorded

end ExpiringCache
