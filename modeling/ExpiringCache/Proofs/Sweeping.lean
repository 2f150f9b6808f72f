import ExpiringCache.Proofs.Rounds
import ExpiringCache.Proofs.Tending

/-! A sweep while others are at work. The sweep marks what has expired and then purges mark by
mark, and before each of its purges anything may be done to the store. A mark removes nothing
but an entry with its token, so the sweep never takes what had not expired when it began; it
takes every marked entry that the others have spared until its turn, and it counts what it
takes and nothing else (`sweep_amid_others`). -/

namespace ExpiringCache

universe u

variable {α : Type u}

open StoreDeed (Spares)

/-- A turn of a sweep: what others have done to the store since the turn before, in order,
and then the mark that is purged. -/
structure SweepTurn (α : Type u) where
  meanwhile : List (StoreDeed α)
  mark : Purge
deriving DecidableEq, Repr

/-- All that is done to the store until the turn is over. -/
def SweepTurn.deeds (t : SweepTurn α) : List (StoreDeed α) := t.meanwhile ++ [.purged t.mark]

namespace Store

/-- The store after something was done to it. -/
def after (s : Store α) : StoreDeed α → Store α
  | .wrote k e => s.insert k e
  | .cleared => .empty
  | .purged p => s.purge p
  | .swept now => (s.sweep now).2

def afterAll (s : Store α) (ds : List (StoreDeed α)) : Store α := ds.foldl after s

/-- Purges the marks in turn, whatever is done in between: the bindings that these purges
remove, and the store in the end. -/
def sweepAmid (s : Store α) : List (SweepTurn α) → List (String × Entry α) × Store α
  | [] => ([], s)
  | t :: ts =>
    let found := s.afterAll t.meanwhile
    let rest := (found.purge t.mark).sweepAmid ts
    (((found.target? t.mark).map fun e => (t.mark.key, e)).toList ++ rest.1, rest.2)

/-- The store right before each purge of the sweep and right after it. -/
def stages (s : Store α) : List (SweepTurn α) → List (Store α × Store α)
  | [] => []
  | t :: ts =>
    let found := s.afterAll t.meanwhile
    (found, found.purge t.mark) :: (found.purge t.mark).stages ts

/-! ### What is done to a store -/

/-- What the store holds was just written or was there before and has been spared. -/
theorem find?_after {s : Store α} {d : StoreDeed α} {k : String} {e : Entry α} :
    (s.after d).find? k = some e ↔ d = .wrote k e ∨ d.Spares k e ∧ s.find? k = some e := by
  cases d with
  | wrote j f =>
    rw [after, find?_insert]
    by_cases h : k = j
    · subst h
      simp [Spares]
    · simp [Spares, h, Ne.symm h]
  | cleared => simp [after, Spares]
  | purged p =>
    rw [after, find?_purge, Option.filter_eq_some_iff, decide_eq_true_iff, and_comm]
    have hp : p = ⟨k, e.expiresAt⟩ ↔ k = p.key ∧ e.expiresAt = p.token := by
      cases p
      simp [eq_comm]
    simp [Spares, hp]
  | swept now =>
    rw [after, sweep_eq, find?_filter, Option.filter_eq_some_iff, and_comm]
    simp [Spares, Entry.isExpired]

theorem afterAll_append (s : Store α) (ds ds' : List (StoreDeed α)) :
    s.afterAll (ds ++ ds') = (s.afterAll ds).afterAll ds' := List.foldl_append

theorem find?_afterAll {s : Store α} {ds : List (StoreDeed α)} {k : String} {e : Entry α}
    (hs : s.find? k = some e) (hds : ∀ d ∈ ds, d.Spares k e) :
    (s.afterAll ds).find? k = some e := by
  induction ds generalizing s with
  | nil => exact hs
  | cons d ds ih =>
    rw [List.forall_mem_cons] at hds
    apply ih
    · exact find?_after.2 (.inr ⟨hds.1, hs⟩)
    · exact hds.2

/-! ### The turns of a sweep -/

theorem afterAll_deeds (s : Store α) (t : SweepTurn α) :
    s.afterAll t.deeds = (s.afterAll t.meanwhile).purge t.mark := by
  rw [SweepTurn.deeds, afterAll_append]
  rfl

/-- The store is found as all the deeds before have left it. -/
theorem stages_append_cons (s : Store α) (before ts : List (SweepTurn α)) (t : SweepTurn α) :
    let found := s.afterAll (before.flatMap SweepTurn.deeds ++ t.meanwhile)
    (s.stages (before ++ t :: ts))[before.length]? = some (found, found.purge t.mark) := by
  induction before generalizing s with
  | nil => rfl
  | cons b before ih =>
    rw [List.flatMap_cons, List.append_assoc, afterAll_append, afterAll_deeds]
    exact ih _

/-- A mark carries the expiry of an entry that has expired. -/
theorem token_lt_of_mem_mark {s : Store α} {now : Int} {p : Purge} (hp : p ∈ s.mark now) :
    p.token < now := by
  rw [mem_mark_iff, look_eq_expired_iff] at hp
  obtain ⟨e, -, hexpired, htoken⟩ := hp
  rwa [htoken] at hexpired

theorem exists_mark_of_mem_stages {s : Store α} {ts : List (SweepTurn α)} {x : Store α × Store α}
    (hx : x ∈ s.stages ts) : ∃ p ∈ ts.map (·.mark), x.2 = x.1.purge p := by
  induction ts generalizing s with
  | nil => cases hx
  | cons t ts ih =>
    rcases List.mem_cons.1 hx with rfl | hlater
    · exact ⟨t.mark, .head _, rfl⟩
    · obtain ⟨p, hp, hpurge⟩ := ih hlater
      exact ⟨p, .tail _ hp, hpurge⟩

/-- What a purge removes is all that is missing after it. -/
theorem missingFrom_purge (s : Store α) (p : Purge) :
    s.missingFrom (s.purge p) = ((s.target? p).map fun e => (p.key, e)).toList := by
  have hperm := perm_missingFrom (s.purge_perm p)
  cases h : s.target? p with
  | none =>
    rw [h] at hperm
    exact hperm.nil_eq.symm
  | some e =>
    rw [h] at hperm
    exact List.perm_singleton.1 hperm.symm

/-- The sweep takes what is missing after its purges and was there before. -/
theorem sweepAmid_fst (s : Store α) (ts : List (SweepTurn α)) :
    (s.sweepAmid ts).1 = (s.stages ts).flatMap fun x => x.1.missingFrom x.2 := by
  induction ts generalizing s with
  | nil => rfl
  | cons t ts ih =>
    rw [sweepAmid, stages, List.flatMap_cons, missingFrom_purge]
    exact congrArg _ (ih _)

/-! ### A sweep left alone -/

/-- If nothing is done in between, the turns are purges one after the other. -/
theorem sweepAmid_of_alone (s : Store α) {ts : List (SweepTurn α)}
    (h : ∀ t ∈ ts, t.meanwhile = []) : s.sweepAmid ts = s.purgeEach (ts.map (·.mark)) := by
  induction ts generalizing s with
  | nil => rfl
  | cons t ts ih =>
    rw [List.forall_mem_cons] at h
    rw [sweepAmid, h.1, ih _ h.2]
    rfl

/-- The order of the marks makes no difference to what a sweep removes. -/
theorem purgeEach_of_perm_mark {s : Store α} {now : Int} {ps : List Purge}
    (h : ps.Perm (s.mark now)) :
    (s.purgeEach ps).2 = (s.sweep now).2 ∧ (s.purgeEach ps).1.Perm (s.sweep now).1 := by
  have hstore : (s.purgeEach ps).2 = (s.sweep now).2 := by
    apply ext_find?
    intro k
    rw [sweep, find?_purgeEach, find?_purgeEach]
    simp only [h.mem_iff]
  have hremoved := perm_missingFrom (s.purgeEach_perm ps)
  rw [hstore] at hremoved
  exact ⟨hstore, hremoved.trans (perm_missingFrom (s.sweep_perm now)).symm⟩

section Sweep

variable {s : Store α} {now : Int} {k : String} {e : Entry α}

theorem look_eq_expired_iff_lt (hk : s.find? k = some e) :
    s.look k now = .expired e.expiresAt ↔ e.expiresAt < now := by
  rw [look_eq_expired_iff]
  constructor
  · rintro ⟨f, hf, hexpired, hsame⟩
    rwa [hsame] at hexpired
  · exact fun he => ⟨e, hk, he, rfl⟩

/-- A sweep takes what looks expired. -/
theorem mem_sweep_iff : (k, e) ∈ (s.sweep now).1 ↔
    s.find? k = some e ∧ s.look k now = .expired e.expiresAt := by
  rw [sweep_eq, List.mem_filter, Entry.isExpired_iff, ← find?_eq_some_iff]
  exact and_congr_right fun hk => (look_eq_expired_iff_lt hk).symm

/-- A sweep leaves everything else. -/
theorem find?_sweep_eq_some_iff : (s.sweep now).2.find? k = some e ↔
    s.find? k = some e ∧ s.look k now ≠ .expired e.expiresAt := by
  rw [sweep_eq, find?_filter, Option.filter_eq_some_iff, Bool.not_eq_true', ← Bool.not_eq_true,
    Entry.isExpired_iff]
  exact and_congr_right fun hk => not_congr (look_eq_expired_iff_lt hk).symm

end Sweep

section Marked

variable {s : Store α} {now : Int} {turns before later : List (SweepTurn α)} {t : SweepTurn α}
  {k : String} {e : Entry α}

/-- The turn of the mark for an expired entry comes, and no mark before is for that entry. -/
theorem exists_turn_of_expired (h : (turns.map (·.mark)).Perm (s.mark now))
    (he : s.find? k = some e) (hexpired : e.expiresAt < now) :
    ∃ before t later, turns = before ++ t :: later ∧ t.mark = ⟨k, e.expiresAt⟩ ∧
      ∀ b ∈ before, b.mark ≠ ⟨k, e.expiresAt⟩ := by
  have hmarked : ⟨k, e.expiresAt⟩ ∈ turns.map (·.mark) :=
    h.mem_iff.2 (mem_mark_iff.2 ((look_eq_expired_iff_lt he).2 hexpired))
  obtain ⟨t, ht, hmark⟩ := List.mem_map.1 hmarked
  obtain ⟨before, later, rfl⟩ := List.append_of_mem ht
  refine ⟨before, t, later, rfl, hmark, fun b hb hsame => ?_⟩
  have hnodup := h.nodup_iff.2 (s.nodup_mark now)
  rw [List.map_append, List.nodup_append] at hnodup
  exact hnodup.2.2 _ (List.mem_map_of_mem hb) _ (.head _) (hsame.trans hmark.symm)

/-- What has been spared until the turn of its mark is removed there. -/
theorem removed_at_turn (he : s.find? k = some e) (hmark : t.mark = ⟨k, e.expiresAt⟩)
    (hbefore : ∀ b ∈ before, b.mark ≠ ⟨k, e.expiresAt⟩)
    (hspared : ∀ d ∈ before.flatMap (·.meanwhile) ++ t.meanwhile, d.Spares k e) :
    ∃ x, (s.stages (before ++ t :: later))[before.length]? = some x ∧
      x.1.find? k = some e ∧ x.2.find? k = none := by
  have hfound : (s.afterAll (before.flatMap SweepTurn.deeds ++ t.meanwhile)).find? k =
      some e := by
    apply find?_afterAll he
    intro d hd
    rcases List.mem_append.1 hd with hd | hd
    · obtain ⟨b, hb, hd⟩ := List.mem_flatMap.1 hd
      rcases List.mem_append.1 hd with hd | hd
      · exact hspared d (List.mem_append_left _ (List.mem_flatMap.2 ⟨b, hb, hd⟩))
      · obtain rfl := List.mem_singleton.1 hd
        exact hbefore b hb
    · exact hspared d (List.mem_append_right _ hd)
  refine ⟨_, s.stages_append_cons before later t, hfound, ?_⟩
  rw [hmark, find?_purge, hfound]
  simp [Option.filter]

end Marked

/-- Let a sweep mark what has expired at an instant and purge the marks in any order, and let
others do whatever they like to the store before each purge. No purge of the sweep removes
an entry that had not expired at that instant. Every entry that had is marked, and the turn of
its mark comes; if all that others have done until then has spared it, this purge removes it.
What the sweep counts is what is missing after its purges and was there right before them.
With nothing done in between, it takes what looks expired at that instant and leaves all
else, and so many entries fewer are in the store as it counts. -/
theorem sweep_amid_others (s : Store α) (now : Int) (turns : List (SweepTurn α))
    (h : (turns.map (·.mark)).Perm (s.mark now)) :
    (∀ x ∈ s.stages turns, ∀ k e, x.1.find? k = some e → now ≤ e.expiresAt →
        x.2.find? k = some e) ∧
      (∀ k e, s.find? k = some e → e.expiresAt < now →
        ∃ before t later, turns = before ++ t :: later ∧ t.mark = ⟨k, e.expiresAt⟩ ∧
          ((∀ d ∈ before.flatMap (·.meanwhile) ++ t.meanwhile, d.Spares k e) →
            ∃ x, (s.stages turns)[before.length]? = some x ∧ x.1.find? k = some e ∧
              x.2.find? k = none)) ∧
      (s.sweepAmid turns).1 = (s.stages turns).flatMap (fun x => x.1.missingFrom x.2) ∧
      ((∀ t ∈ turns, t.meanwhile = []) →
        (s.sweepAmid turns).2 = (s.sweep now).2 ∧
          (s.sweepAmid turns).1.Perm (s.sweep now).1) ∧
      (∀ k e, (k, e) ∈ (s.sweep now).1 ↔
        s.find? k = some e ∧ s.look k now = .expired e.expiresAt) ∧
      (∀ k e, (s.sweep now).2.find? k = some e ↔
        s.find? k = some e ∧ s.look k now ≠ .expired e.expiresAt) ∧
      (s.sweep now).1.length + (s.sweep now).2.size = s.size := by
  refine ⟨fun x hx k e he hlive => ?_, fun k e he hexpired => ?_, s.sweepAmid_fst turns,
    fun halone => ?_, fun k e => mem_sweep_iff, fun k e => find?_sweep_eq_some_iff,
    s.size_purgeEach _⟩
  · obtain ⟨p, hp, hpurge⟩ := exists_mark_of_mem_stages hx
    have htoken := token_lt_of_mem_mark (h.mem_iff.1 hp)
    rw [hpurge, find?_purge, Option.filter_eq_some_iff, decide_eq_true_iff]
    refine ⟨he, ?_⟩
    rintro ⟨-, hsame⟩
    omega
  · obtain ⟨before, t, later, rfl, hmark, hbefore⟩ := exists_turn_of_expired h he hexpired
    exact ⟨before, t, later, rfl, hmark, removed_at_turn he hmark hbefore⟩
  · rw [s.sweepAmid_of_alone halone]
    exact purgeEach_of_perm_mark h

/-- The marks are not purged in the order of their keys. The first one takes its entry, which
is then put in again with the same expiry and stays. The second one is for an entry that was
refreshed before its turn. The last one takes its entry, although others have done something
to every other entry by then. -/
theorem sweep_amid_others_refreshed :
    let s : Store Nat := (((Store.empty.insert "a" ⟨1, 5⟩).insert "b" ⟨2, 6⟩).insert "d"
      ⟨3, 7⟩).insert "e" ⟨4, 20⟩
    let turns : List (SweepTurn Nat) := [⟨[.wrote "a" ⟨9, 30⟩], ⟨"d", 7⟩⟩,
      ⟨[.wrote "d" ⟨8, 7⟩], ⟨"a", 5⟩⟩, ⟨[.purged ⟨"e", 20⟩], ⟨"b", 6⟩⟩]
    (turns.map (·.mark)).Perm (s.mark 10) ∧
      (s.sweepAmid turns).1 = [("d", ⟨3, 7⟩), ("b", ⟨2, 6⟩)] ∧
      ((s.stages turns).flatMap fun x => x.1.missingFrom x.2).length = 2 ∧
      (∃ x ∈ s.stages turns, x.1.find? "a" = some ⟨9, 30⟩ ∧ x.2.find? "a" = some ⟨9, 30⟩) ∧
      ∃ x ∈ s.stages turns, x.1.find? "b" = some ⟨2, 6⟩ ∧ x.2.find? "b" = none := by
  intro s turns
  have hmarks : (turns.map (·.mark)).Perm (s.mark 10) := by decide
  have htaken : (s.sweepAmid turns).1 = [("d", ⟨3, 7⟩), ("b", ⟨2, 6⟩)] := by decide +kernel
  obtain ⟨hsafe, hcomplete, hcount, -⟩ := sweep_amid_others s 10 turns hmarks
  refine ⟨hmarks, htaken, by rw [← hcount, htaken]; rfl, ?_, ?_⟩
  · have hstage : (s.stages turns)[1]?.map (·.1.find? "a") = some (some ⟨9, 30⟩) := by
      decide +kernel
    obtain ⟨x, hx, hfresh⟩ := Option.map_eq_some_iff.1 hstage
    have hmem := List.mem_of_getElem? hx
    exact ⟨x, hmem, hfresh, hsafe x hmem "a" ⟨9, 30⟩ hfresh (by decide)⟩
  · obtain ⟨before, t, later, hturns, -, hremoved⟩ :=
      hcomplete "b" ⟨2, 6⟩ (by decide) (by decide)
    have hspared : ∀ d ∈ turns.flatMap (·.meanwhile), d.Spares "b" ⟨2, 6⟩ := by decide
    obtain ⟨x, hx, hthere, hgone⟩ := hremoved fun d hd => hspared d (by
      rw [hturns, List.flatMap_append, List.flatMap_cons, ← List.append_assoc]
      exact List.mem_append_left _ hd)
    exact ⟨x, List.mem_of_getElem? hx, hthere, hgone⟩

end Store

end ExpiringCache
